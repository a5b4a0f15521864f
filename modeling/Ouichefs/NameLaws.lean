import Ouichefs.DirErrors

/-!
# Every accepted name

`ouichefs_create` and `ouichefs_rename` accept names of up to 28 bytes, store 27 of them and compare
28.

* `name_works_iff`: a name of 28 bytes is not found again, and a name of 27 bytes is what every
  longer one becomes.
-/

set_option autoImplicit false

namespace Ouichefs

variable {Z : Prop}

/-! ## One new name in a block -/

/-- Block `b'` is block `b` with object `ino` under `name` in slot `p`, which was empty or had the
object under a name of its own. -/
structure Entered (b b' : Block) (p ino : Nat) (name : List UInt8) : Prop where
  lt : p < 128
  pos : ino ≠ 0
  object : slotInode b' p = ino
  stored : entryName b' p = storedName name
  objects : ∀ j, j ≠ p → slotInode b' j = slotInode b j
  names : ∀ j, j ≠ p → entryName b' j = entryName b j
  was : slotInode b p = 0 ∨ slotInode b p = ino ∧ ∀ j, entryName b j = entryName b p → j = p

/-- What is stored of a name. -/
theorem AcceptedName.storedName {name : List UInt8} (h : AcceptedName name) :
    storedName name = name.take 27 := by
  unfold Ouichefs.storedName
  rw [cstr_eq_self h.2.2]

theorem AcceptedName.storedName_self {name : List UInt8} (h : AcceptedName name)
    (hlen : name.length ≤ 27) : Ouichefs.storedName name = name := by
  rw [h.storedName, List.take_of_length_le hlen]

namespace Entered

variable {b b' : Block} {p ino : Nat} {name other : List UInt8}

/-- A name of at most 27 bytes is found. -/
theorem blockMap_self (h : Entered b b' p ino name) (hv : AcceptedName name)
    (hlen : name.length ≤ 27) (hnew : ∀ j, slotInode b j ≠ 0 → entryName b j ≠ name) :
    blockMap b' name = some ino := by
  have hp : slotInode b' p ≠ 0 := by
    rw [h.object]
    exact h.pos
  rw [← h.object]
  refine slotFind_of_first h.lt hp ?_ fun j hj hj0 => ?_
  · rw [h.stored, hv.storedName_self hlen]
  · have hjp : j ≠ p := Nat.ne_of_lt hj
    rw [h.objects j hjp] at hj0
    rw [h.names j hjp]
    exact hnew j hj0

/-- A longer name is not found. -/
theorem blockMap_long (h : Entered b b' p ino name) (hv : AcceptedName name)
    (hlen : 27 < name.length) (hnew : ∀ j, slotInode b j ≠ 0 → entryName b j ≠ name) :
    blockMap b' name = none := by
  refine slotFind_of_none fun j _ hj0 hname => ?_
  by_cases hjp : j = p
  · rw [hjp, h.stored, hv.storedName] at hname
    have hle := congrArg List.length hname
    rw [List.length_take] at hle
    omega
  · rw [h.objects j hjp] at hj0
    rw [h.names j hjp] at hname
    exact hnew j hj0 hname

/-- Other names are found as before. -/
theorem blockMap_other (h : Entered b b' p ino name) (hne : other ≠ storedName name)
    (hino : blockMap b other ≠ some ino) : blockMap b' other = blockMap b other := by
  refine slotFind_congr fun j _ => ?_
  by_cases hjp : j = p
  · subst hjp
    have hno : ¬(slotInode b j ≠ 0 ∧ entryName b j = other) := by
      rintro ⟨hj0, hname⟩
      obtain ⟨hobj, huniq⟩ := h.was.resolve_left hj0
      refine hino ?_
      rw [← hobj]
      refine slotFind_of_first h.lt hj0 hname fun i hi _ hi' => ?_
      exact Nat.ne_of_lt hi (huniq i (hi'.trans hname.symm))
    rw [h.stored]
    exact ⟨iff_of_false (fun hc => hne hc.2.symm) hno, fun _ hc => absurd hc.symm hne⟩
  · rw [h.objects j hjp, h.names j hjp]
    exact ⟨Iff.rfl, fun _ _ => rfl⟩

end Entered

/-- The first loop of `ouichefs_rename` finds the only slot with the old name. -/
theorem renameScan_found {b : Block} {oldName newName : List UInt8} {p : Nat}
    (hold : ∀ j, strncmpEq (slotName b j) oldName 28 = true ↔ j = p) :
    ∀ (m i : Nat) (fPos newPos res pos : Option Nat),
      renameScan b true oldName newName m i fPos newPos = some (res, pos) →
      res = if i ≤ p ∧ p < i + m then some p else fPos := by
  intro m
  induction m with
  | zero =>
      intro i fPos newPos res pos h
      cases h
      rw [if_neg (by omega)]
  | succ m ih =>
      intro i fPos newPos res pos h
      rw [renameScan] at h
      simp only [Bool.true_and] at h
      split at h
      · cases h
      rw [ih (i + 1) _ _ res pos h]
      by_cases hip : i = p
      · rw [if_neg (by omega), if_pos ((hold i).2 hip), if_pos (by omega), hip]
      · have hno : ¬strncmpEq (slotName b i) oldName 28 = true := fun hc => hip ((hold i).1 hc)
        rw [if_neg hno]
        by_cases hp : i + 1 ≤ p ∧ p < i + 1 + m
        · rw [if_pos hp, if_pos (by omega)]
        · rw [if_neg hp, if_neg (by omega)]

/-! ## The calls -/

/-- `k'` is the state after a successful creation in `dir`, or a successful rename into it, that
gave inode `ino` the name `name`.  In one directory the entry is found by its old name, which is that
of no other entry. -/
inductive Enters (k : Kernel) (dir ino : Nat) (name : List UInt8) (k' : Kernel) : Prop
  | create (mode : Nat) (run : ouichefsCreate k dir name mode = .ok (0, k'))
      (dead : ¬k.fs.Live ino) (live : k'.fs.Live ino)
  | rename (oldDir flags f : Nat) (oldName : List UInt8) (isDir : k.fs.Is oldDir .dir)
      (object : slotInode (k.fs.indexOf oldDir) f = ino) (pos : ino ≠ 0)
    (dentry : oldDir = dir → AcceptedName oldName ∧
      ∀ j, entryName (k.fs.indexOf oldDir) j = oldName ↔ j = f)
    (run : ouichefsRename k oldDir oldName ino dir name flags = .ok (0, k'))

/-- The name can be used after the call, and `other` can be used as before. -/
structure NameWorks (k k' : Kernel) (dir ino : Nat) (name other : List UInt8) : Prop where
  found : ∃ k₁, ouichefsLookup k' dir name = .ok (.ok (some ino), k₁)
  others : other ≠ name → (¬∃ k₁, ouichefsLookup k dir other = .ok (.ok (some ino), k₁)) →
    ∃ v k₁ k₂, ouichefsLookup k dir other = .ok (.ok v, k₁) ∧
      ouichefsLookup k' dir other = .ok (.ok v, k₂)
  apart : other ≠ name → storedName other ≠ storedName name
  slot : ∀ newer res, renameScan (k'.fs.indexOf dir) true name newer 128 0 none none = some res →
    ∃ p, res.1 = some p ∧ slotInode (k'.fs.indexOf dir) p = ino

section Calls

variable {k k' : Kernel} {chain : List Nat} {dir ino : Nat} {name other : List UInt8}

/-- A new entry behind the last one. -/
theorem Entered.of_setSlot {b : Block} {n : Nat} (hn : Compact (slotInode b) n) (hlt : n < 128)
    (h0 : ino ≠ 0) (h32 : ino < 4294967296) : Entered b (setSlot b n ino name) n ino name where
  lt := hlt
  pos := h0
  object := by rw [slotInode_setSlot _ _ hlt h32, if_pos rfl]
  stored := cstr_slotName_setSlot _ _ _ hlt
  objects j hj := by rw [slotInode_setSlot _ _ hlt h32, if_neg hj]
  names j hj := by
    unfold entryName
    rw [slotName_setSlot_other _ _ _ hlt hj]
  was := Or.inl (hn.empty n (Nat.le_refl n))

/-- An entry under a new name. -/
theorem Entered.of_setSlotName {b : Block} {f : Nat} (hlt : f < 128) (h0 : ino ≠ 0)
    (hs : slotInode b f = ino) (huniq : ∀ j, entryName b j = entryName b f → j = f) :
    Entered b (setSlotName b f name) f ino name where
  lt := hlt
  pos := h0
  object := by rw [slotInode_setSlotName _ _ hlt, hs]
  stored := cstr_slotName_setSlotName _ _ hlt
  objects j _ := slotInode_setSlotName _ _ hlt j
  names j hj := by
    unfold entryName
    rw [slotName_setSlotName_other _ _ hlt hj]
  was := Or.inr ⟨hs, huniq⟩

/-- A successful rename in one directory. -/
theorem ouichefsRename_same {oldName : List UInt8} {flags f : Nat} {r : Int} (hf : k.faults = [])
    (h : WF k.fs chain Z) (hd : k.fs.Is dir .dir) (hv : AcceptedName oldName)
    (hs : slotInode (k.fs.indexOf dir) f = ino) (h0 : ino ≠ 0)
    (hdentry : ∀ j, entryName (k.fs.indexOf dir) j = oldName ↔ j = f) (hr : r = 0)
    (hrun : ouichefsRename k dir oldName ino dir name flags = .ok (r, k')) :
    Entered (k.fs.indexOf dir) (k'.fs.indexOf dir) f ino name ∧ WF k'.fs chain Z ∧
      k'.faults = [] ∧ k'.fs.Is dir .dir := by
  have hdb : (k.inode dir).indexBlock < k.fs.sbi.nrBlocks := (h.toCore.dir_used hd).1
  have hblk : k.fs.disk (k.inode dir).indexBlock = k.fs.indexOf dir := rfl
  have hfs : slotInode (k.fs.indexOf dir) f ≠ 0 := by
    rw [hs]
    exact h0
  have hlt : f < 128 := lt_of_slotInode hfs
  unfold ouichefsRename at hrun
  split at hrun
  · cases hrun
    exact absurd hr (by decide)
  split at hrun
  · cases hrun
    exact absurd hr (by decide)
  simp only [Kernel.sbBread_ok hf hdb, Kernel.fs_log, hblk, if_true, beq_self_eq_true] at hrun
  split at hrun
  · cases hrun
    exact absurd hr (by decide)
  rename_i fPos newPos hscan
  have hpos := renameScan_found (fun j => (hv.strncmpEq _ j).trans (hdentry j)) 128 0 none none fPos
    newPos hscan
  rw [if_pos ⟨Nat.zero_le f, by omega⟩] at hpos
  rw [hpos] at hrun
  cases hrun
  have hidx : (k.fs.setBlock (k.inode dir).indexBlock (setSlotName (k.fs.indexOf dir) f name)).indexOf
      dir = setSlotName (k.fs.indexOf dir) f name := by
    have := h.toCore.indexOf_setDir hd (setSlotName (k.fs.indexOf dir) f name) hd
    rwa [if_pos rfl] at this
  refine ⟨?_, h.renameEntry hd hfs, hf, hd⟩
  show Entered _ ((k.fs.setBlock _ _).indexOf dir) f ino name
  rw [hidx]
  exact .of_setSlotName hlt h0 hs fun j hj => (hdentry j).1 (hj.trans ((hdentry f).2 rfl))

/-- A successful rename between two directories. -/
theorem ouichefsRename_cross {oldName : List UInt8} {oldDir flags f : Nat} {r : Int}
    (hf : k.faults = []) (h : WF k.fs chain Z) (hd : k.fs.Is dir .dir) (ho : k.fs.Is oldDir .dir)
    (hne : oldDir ≠ dir) (hv : AcceptedName name) (hs : slotInode (k.fs.indexOf oldDir) f = ino)
    (h0 : ino ≠ 0) (hnew : ∀ j, slotInode (k.fs.indexOf dir) j ≠ 0 →
      entryName (k.fs.indexOf dir) j ≠ name) (hr : r = 0)
    (hrun : ouichefsRename k oldDir oldName ino dir name flags = .ok (r, k')) :
    ∃ m, Entered (k.fs.indexOf dir) (k'.fs.indexOf dir) m ino name ∧ WF k'.fs chain Z ∧
      k'.faults = [] ∧ k'.fs.Is dir .dir := by
  obtain ⟨m, hmle, hm⟩ := h.dirs.tree.compact dir hd
  obtain ⟨n, hnle, hn⟩ := h.dirs.tree.compact oldDir ho
  have hfs : slotInode (k.fs.indexOf oldDir) f ≠ 0 := by
    rw [hs]
    exact h0
  have hlive := (h.dirs.tree.entry ho hfs).1
  rw [hs] at hlive
  have h32 : ino < 4294967296 := Nat.lt_trans hlive.2.1 h.table.lt
  have hfresh : ∀ j, strncmpEq (slotName (k.fs.indexOf dir) j) name 28 = false := by
    intro j
    rw [← Bool.not_eq_true, hv.strncmpEq]
    intro hname
    by_cases hj0 : slotInode (k.fs.indexOf dir) j = 0
    · rw [(h.dirs.clean dir hd).entryName hj0] at hname
      rw [← hname] at hv
      exact absurd hv.1 (by decide)
    · exact hnew j hj0 hname
  have hneq : (dir == oldDir) = false := by
    rw [beq_eq_false_iff_ne]
    exact hne.symm
  have hscan := @renameScan_fresh (k.fs.indexOf dir) false oldName name 0 m hm hfresh
    (fun hc => absurd hc (by decide)) 128 0
  simp only [Bool.false_eq_true, false_and, Nat.not_lt_zero, if_false, Nat.zero_add] at hscan
  -- the checks that the call has passed
  have hflags : flags &&& 6 = 0 := by
    by_contra hfl
    unfold ouichefsRename at hrun
    rw [if_pos hfl] at hrun
    cases hrun
    exact absurd hr (by decide)
  have hlen : (cstr name).length ≤ 28 := by
    rw [cstr_eq_self hv.2.2]
    exact hv.2.1
  have hdb : (k.inode dir).indexBlock < k.fs.sbi.nrBlocks := (h.toCore.dir_used hd).1
  have hblk : k.fs.disk (k.inode dir).indexBlock = k.fs.indexOf dir := rfl
  have hroom : m < 128 := by
    by_contra hfull
    rw [if_neg hfull] at hscan
    unfold ouichefsRename at hrun
    rw [if_neg (by simpa using hflags), if_neg (Nat.not_lt.2 hlen)] at hrun
    simp only [hneq, Kernel.sbBread_ok hf hdb, Kernel.fs_log, hblk, hscan, hne, if_false] at hrun
    cases hrun
    exact absurd hr (by decide)
  rw [if_pos hroom] at hscan
  have hapart : (k.inode oldDir).indexBlock ≠ (k.inode dir).indexBlock := by
    intro hc
    have hold : Refers k.fs chain (.index oldDir) (k.fs.inode oldDir).indexBlock := ⟨Or.inl ho, rfl⟩
    have href := h.owned.inj hold (show Refers k.fs chain (.index dir) _ from ⟨Or.inl hd, hc⟩)
    cases href
    exact hne rfl
  have hn128 : n < 128 := by
    have hready : MoveReady k oldDir ino dir name flags f n m :=
      { faults := hf, flags := hflags, length := hlen, old_lt := (h.toCore.dir_used ho).1,
        new_lt := hdb, apart := hapart, old := hn,
        clean := h.dirs.clean oldDir ho, cap := hnle, new := hm, room := hroom, slot := hs,
        pos := h0,
        unique := fun j hj => (h.dirs.tree.unique ho ho (hj.trans hs.symm) (by rw [hj]; exact h0)).2,
        fresh := hfresh }
    by_contra hge
    obtain ⟨e, hover⟩ := hready.overruns (Nat.le_antisymm hnle (Nat.not_lt.1 hge)) oldName
    rw [hover] at hrun
    cases hrun
  obtain ⟨k₁, hrun₁, hf₁, -, hag, -⟩ := ouichefsRename_move (k := k) hf h ho hd hne hflags hlen hn
    hn128 hs h0 (by rw [hneq]; exact hscan)
  rw [hrun] at hrun₁
  cases hrun₁
  have hwf := hag.wf (h.moveEntry name ho hd hne hs h0 hn hnle hm hroom)
  have hidx := h.toCore.moveEntry_indexOf (f := f) (n := n) (m := m) ino name ho hd hd
  rw [if_neg hne.symm, if_pos rfl] at hidx
  refine ⟨m, ?_, hwf, hf₁, (hag.is dir .dir).2 hd⟩
  rw [hag.indexOf hd.1, hidx]
  exact .of_setSlot hm hroom h0 h32

/-- What the calls do to the block of the directory. -/
theorem Enters.entered (hf : k.faults = []) (h : WF k.fs chain Z) (hd : k.fs.Is dir .dir)
    (hv : AcceptedName name) (hnew : ∀ j, slotInode (k.fs.indexOf dir) j ≠ 0 →
      entryName (k.fs.indexOf dir) j ≠ name) (he : Enters k dir ino name k') :
    ∃ p, Entered (k.fs.indexOf dir) (k'.fs.indexOf dir) p ino name ∧ WF k'.fs chain Z ∧
      k'.faults = [] ∧ k'.fs.Is dir .dir := by
  cases he with
  | create mode hrun hdead hlive =>
      obtain ⟨r, k₁, hrun₁, hf₁, -, hcase⟩ := ouichefsCreate_spec hf h hd name mode
      rw [hrun] at hrun₁
      cases hrun₁
      rcases hcase with ⟨hr, -⟩ | ⟨-, ino', n, hc⟩
      · exact absurd hr (by decide)
      · have hino : ino = ino' := ((hc.live ino).1 hlive).resolve_left hdead
        have h32 : ino < 4294967296 := by
          rw [hino]
          exact Nat.lt_trans hc.lt h.table.lt
        refine ⟨n, ?_, hc.wf, hf₁, (hc.is_dir dir).2 (Or.inl hd)⟩
        rw [hc.block, ← hino]
        exact .of_setSlot hc.compact hc.room (hino ▸ hc.pos) h32
  | rename oldDir flags f oldName ho hs h0 hdentry hrun =>
      by_cases hsame : oldDir = dir
      · obtain ⟨hvo, hname⟩ := hdentry hsame
        subst hsame
        exact ⟨f, ouichefsRename_same hf h hd hvo hs h0 hname rfl hrun⟩
      · exact ouichefsRename_cross hf h hd ho hsame hv hs h0 hnew rfl hrun

/-- **When an accepted name works, next to another one**: it has at most 27 bytes, and they are not
the first 27 bytes of the other. -/
theorem name_works_iff (hf : k.faults = []) (h : WF k.fs chain Z) (hd : k.fs.Is dir .dir)
    (hv : AcceptedName name) (ho : AcceptedName other)
    (hnew : ∀ j, slotInode (k.fs.indexOf dir) j ≠ 0 → entryName (k.fs.indexOf dir) j ≠ name)
    (he : Enters k dir ino name k') :
    NameWorks k k' dir ino name other ↔
      name.length ≤ 27 ∧ (other ≠ name → other.take 27 ≠ name) := by
  obtain ⟨p, hent, hwf, hf', hd'⟩ := he.entered hf h hd hv hnew
  obtain ⟨k₁, -, hlook⟩ := ouichefsLookup_spec hf' hwf hd' hv
  constructor
  · intro hworks
    have hlen : name.length ≤ 27 := by
      by_contra hlong
      obtain ⟨k₂, hfound⟩ := hworks.found
      rw [hlook, hent.blockMap_long hv (Nat.not_le.1 hlong) hnew] at hfound
      cases hfound
    refine ⟨hlen, fun hne => ?_⟩
    have hapart := hworks.apart hne
    rwa [ho.storedName, hv.storedName_self hlen] at hapart
  · rintro ⟨hlen, hother⟩
    have hself := hv.storedName_self hlen
    refine ⟨⟨k₁, ?_⟩, fun hne hino => ?_, fun hne => ?_, fun newer res hscan => ?_⟩
    · rw [hlook, hent.blockMap_self hv hlen hnew]
    · obtain ⟨k₂, -, hbefore⟩ := ouichefsLookup_spec hf h hd ho
      obtain ⟨k₃, -, hafter⟩ := ouichefsLookup_spec hf' hwf hd' ho
      refine ⟨_, k₂, k₃, hbefore, ?_⟩
      rw [hafter, hent.blockMap_other (by rwa [hself]) fun hc => hino ⟨k₂, by rw [hbefore, hc]⟩]
    · rw [ho.storedName, hself]
      exact hother hne
    · -- the new slot is the only one with the name
      have honly : ∀ j, strncmpEq (slotName (k'.fs.indexOf dir) j) name 28 = true ↔ j = p := by
        intro j
        rw [hv.strncmpEq]
        constructor
        · intro hname
          by_contra hjp
          have hj0 : slotInode (k'.fs.indexOf dir) j ≠ 0 := by
            intro hz
            rw [(hwf.dirs.clean dir hd').entryName hz] at hname
            rw [← hname] at hv
            exact absurd hv.1 (by decide)
          rw [hent.objects j hjp] at hj0
          rw [hent.names j hjp] at hname
          exact hnew j hj0 hname
        · rintro rfl
          rw [hent.stored, hself]
      obtain ⟨fPos, newPos⟩ := res
      have hpos := renameScan_found honly 128 0 none none fPos newPos hscan
      have hlt := hent.lt
      rw [if_pos ⟨Nat.zero_le p, by omega⟩] at hpos
      exact ⟨p, hpos, hent.object⟩

/-- A name of 28 bytes. -/
def longName : List UInt8 := List.replicate 28 97

/-- A file of that name is not found. -/
theorem ouichefsCreate_longName : ∃ k', AcceptedName longName ∧
    Enters (emptyImage 8 8) 1 2 longName k' ∧
    ¬∃ k₁, ouichefsLookup k' 1 longName = .ok (.ok (some 2), k₁) := by
  have hval : (ouichefsCreate (emptyImage 8 8) 1 longName 0o100644).value? = some 0 := by
    decide +kernel
  refine ⟨_, by decide, .create 0o100644 (Outcome.eq_ok hval) (by decide +kernel) (by decide +kernel),
    ?_⟩
  rintro ⟨k₁, hlook⟩
  have hmiss : (ouichefsLookup (ouichefsCreate (emptyImage 8 8) 1 longName 0o100644).kernel 1
      longName).value? = some (.ok none) := by decide +kernel
  rw [hlook] at hmiss
  cases hmiss

/-- Two short names. -/
theorem name_works_iff_shortName : ∃ k', NameWorks (emptyImage 8 8) k' 1 2 [97] [98] := by
  have hval : (ouichefsCreate (emptyImage 8 8) 1 [97] 0o100644).value? = some 0 := by
    decide +kernel
  have hformatted := @emptyImage_formatted 8 8 (by decide) (by decide) (by decide) (by decide)
  refine ⟨_, (name_works_iff rfl (hformatted.wf (Z := False) False.elim) hformatted.rootDir (by decide) (by decide)
    (fun j hj => ?_) (.create 0o100644 (Outcome.eq_ok hval) (by decide +kernel)
      (by decide +kernel))).2 ⟨by decide, by decide⟩⟩
  rw [hformatted.rootBlock] at hj
  exact absurd (slotInode_zero j) hj

end Calls

end Ouichefs
