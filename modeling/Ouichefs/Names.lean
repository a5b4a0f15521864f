import Ouichefs.Unlink
import Ouichefs.Lib.SlotMap
import Mathlib.Data.List.TakeWhile

/-!
# The name space

The directories as a name space: every directory is a finite map from names to inode numbers
(`Fs.names`), given by its block.  Names are distinct in every directory (`NameInv`).  Creation
and removal of an entry are insertion and deletion in these maps, and `ouichefs_lookup` evaluates
them.
-/

set_option autoImplicit false

namespace Ouichefs

variable {Z : Prop}

/-- Names that fit a slot with their terminating NUL. -/
def ValidName (name : List UInt8) : Prop := 1 ≤ name.length ∧ name.length ≤ 27 ∧ 0 ∉ name

/-- Names that `ouichefs_create` and `ouichefs_rename` accept. -/
def AcceptedName (name : List UInt8) : Prop := 1 ≤ name.length ∧ name.length ≤ 28 ∧ 0 ∉ name

instance (name : List UInt8) : Decidable (ValidName name) :=
  inferInstanceAs (Decidable (_ ∧ _ ∧ _))

instance (name : List UInt8) : Decidable (AcceptedName name) :=
  inferInstanceAs (Decidable (_ ∧ _ ∧ _))

instance (fs : Fs) (ino : Nat) : Decidable (fs.Live ino) :=
  inferInstanceAs (Decidable (_ ∧ _ ∧ _))

instance (fs : Fs) (ino : Nat) (κ : Kind) : Decidable (fs.Is ino κ) :=
  inferInstanceAs (Decidable (_ ∧ _))

/-- The name in slot `i`. -/
def entryName (b : Block) (i : Nat) : List UInt8 := cstr (slotName b i)

/-- The map a directory block stands for. -/
def blockMap (b : Block) : List UInt8 → Option Nat := slotFind 128 (slotInode b) (entryName b)

/-- A name space: the map of every directory. -/
abbrev Names := Nat → Option (List UInt8 → Option Nat)

namespace Names

def insert (m : Names) (d : Nat) (name : List UInt8) (ino : Nat) : Names :=
  Function.update m d ((m d).map fun f => Function.update f name (some ino))

def delete (m : Names) (d : Nat) (name : List UInt8) : Names :=
  Function.update m d ((m d).map fun f => Function.update f name none)

def addDir (m : Names) (d : Nat) : Names := Function.update m d (some fun _ => none)

def dropDir (m : Names) (d : Nat) : Names := Function.update m d none

end Names

/-- The name space of a mounted file system. -/
def Fs.names (fs : Fs) : Names := fun d =>
  if fs.Is d .dir then some (blockMap (fs.indexOf d)) else none

/-- Names are distinct in every directory. -/
def NameInv (fs : Fs) : Prop :=
  ∀ d, fs.Is d .dir → Keyed (slotInode (fs.indexOf d)) (entryName (fs.indexOf d))

/-! ## Names in slots -/

section Block

variable {b : Block} {i n : Nat} {name : List UInt8}

theorem cstr_eq_self {l : List UInt8} (h : 0 ∉ l) : cstr l = l := by
  unfold cstr
  rw [List.takeWhile_eq_self_iff]
  intro c hc
  simp only [bne_iff_ne]
  rintro rfl
  exact h hc

theorem ValidName.storedName (h : ValidName name) : storedName name = name := by
  unfold Ouichefs.storedName
  rw [cstr_eq_self h.2.2, List.take_of_length_le h.2.1]

theorem ValidName.ne_nil (h : ValidName name) : name ≠ [] := by
  rintro rfl
  exact absurd h.1 (by decide)

theorem ValidName.accepted (h : ValidName name) : AcceptedName name :=
  ⟨h.1, Nat.le_succ_of_le h.2.1, h.2.2⟩

/-- Comparing a slot with a name as the source does. -/
theorem AcceptedName.strncmpEq (h : AcceptedName name) (b : Block) (i : Nat) :
    strncmpEq (slotName b i) name 28 = true ↔ entryName b i = name := by
  have h1 : (slotName b i).take 28 = slotName b i := List.take_of_length_le (by simp [slotName])
  have h2 : name.take 28 = name := List.take_of_length_le h.2.1
  unfold Ouichefs.strncmpEq entryName
  rw [h1, h2, cstr_eq_self h.2.2, beq_iff_eq]

theorem strncmpEq_slotName (h : ValidName name) (b : Block) (i : Nat) :
    strncmpEq (slotName b i) name 28 = true ↔ entryName b i = name := h.accepted.strncmpEq b i

/-- An empty slot has the empty name. -/
theorem Clean.entryName (hc : Clean b) (h : slotInode b i = 0) : entryName b i = [] := by
  have h0 : (slotName b i).getD 0 0 = 0 := by
    unfold slotName
    rw [List.getD_eq_getElem _ _ (by simp), Page.bytes_getElem]
    exact hc i h 4 (by decide)
  unfold Ouichefs.entryName cstr
  cases hs : slotName b i with
  | nil => rfl
  | cons x xs =>
      rw [hs] at h0
      have hx : x = 0 := h0
      rw [hx]
      rfl

/-- A new entry behind the last one. -/
theorem blockMap_setSlot {ino : Nat} (hk : Keyed (slotInode b) (entryName b))
    (hn : Compact (slotInode b) n) (hlt : n < 128) (h0 : ino ≠ 0) (h32 : ino < 4294967296)
    (hv : ValidName name) (hnew : blockMap b name = none) :
    Keyed (slotInode (setSlot b n ino name)) (entryName (setSlot b n ino name)) ∧
    blockMap (setSlot b n ino name) = Function.update (blockMap b) name (some ino) := by
  have hself : entryName (setSlot b n ino name) n = name := by
    unfold Ouichefs.entryName
    rw [cstr_slotName_setSlot _ _ _ hlt, hv.storedName]
  have hother : ∀ i, i ≠ n → entryName (setSlot b n ino name) i = entryName b i := by
    intro i hi
    unfold Ouichefs.entryName
    rw [slotName_setSlot_other _ _ _ hlt hi]
  have hf : slotInode (setSlot b n ino name) = Function.update (slotInode b) n ino := by
    funext j
    rw [slotInode_setSlot _ _ hlt h32, Function.update_apply]
  have hfresh : ∀ i, slotInode b i ≠ 0 → entryName b i ≠ entryName (setSlot b n ino name) n := by
    intro i hi
    rw [hself]
    exact (slotFind_eq_none hk (hn.lt_cap (Nat.le_of_lt hlt))).1 hnew i hi
  refine ⟨hk.append hf hother hfresh, ?_⟩
  have := slotFind_append hk hn hlt hf h0 hother hfresh
  rwa [hself] at this

/-- An entry taken out. -/
theorem blockMap_removeSlot {f : Nat} (hk : Keyed (slotInode b) (entryName b)) (hc : Clean b)
    (hn : Compact (slotInode b) n) (hle : n ≤ 128) (hf : f < n) :
    Keyed (slotInode (removeSlot b f n)) (entryName (removeSlot b f n)) ∧
    blockMap (removeSlot b f n) = Function.update (blockMap b) (entryName b f) none := by
  have hslot := slotInode_removeSlot hc hn hf hle
  have hname : ∀ j, slotInode (removeSlot b f n) j ≠ 0 →
      entryName (removeSlot b f n) j = dropSlot (entryName b) f j := by
    intro j _
    unfold Ouichefs.entryName
    rw [slotName_removeSlot hc hn hf hle, dropSlot_eq, dropSlot_eq]
  exact ⟨hk.drop hslot hname, slotFind_drop hk hn hle hf hslot hname⟩

/-- An entry under a new name. -/
theorem blockMap_setSlotName {p : Nat} (hk : Keyed (slotInode b) (entryName b))
    (hn : Compact (slotInode b) n) (hle : n ≤ 128) (hp : p < n) (hv : ValidName name)
    (hnew : blockMap b name = none) :
    Keyed (slotInode (setSlotName b p name)) (entryName (setSlotName b p name)) ∧
    blockMap (setSlotName b p name) = Function.update
      (Function.update (blockMap b) (entryName b p) none) name (some (slotInode b p)) := by
  have hp128 : p < 128 := Nat.lt_of_lt_of_le hp hle
  have hf : slotInode (setSlotName b p name) = slotInode b :=
    funext (slotInode_setSlotName b name hp128)
  have hself : entryName (setSlotName b p name) p = name := by
    unfold Ouichefs.entryName
    rw [cstr_slotName_setSlotName _ _ hp128, hv.storedName]
  have hother : ∀ i, i ≠ p → entryName (setSlotName b p name) i = entryName b i := by
    intro i hi
    unfold Ouichefs.entryName
    rw [slotName_setSlotName_other _ _ hp128 hi]
  have hfresh : ∀ i, slotInode b i ≠ 0 → entryName b i ≠ entryName (setSlotName b p name) p := by
    intro i hi
    rw [hself]
    exact (slotFind_eq_none hk (hn.lt_cap hle)).1 hnew i hi
  have hrk := slotFind_rekey hk (hn.lt_cap hle) (hn.used p hp) hother hfresh
  rw [hself] at hrk
  unfold blockMap
  rw [hf]
  exact ⟨hk.rekey hother hfresh, hrk⟩

theorem blockMap_zero : blockMap Page.zero = fun _ => none :=
  slotFind_empty fun i => slotInode_zero i

end Block

/-! ## Effects on the name space -/

section Effects

variable {fs fs' : Fs} {chain chain' : List Nat} {dir ino f n mode : Nat} {name : List UInt8}

/-- Pointwise description of the name space afterwards. -/
theorem Fs.names_eq {m : Names} (hd : ∀ d, fs.Is d .dir → m d = some (blockMap (fs.indexOf d)))
    (hn : ∀ d, ¬fs.Is d .dir → m d = none) : fs.names = m := by
  funext d
  unfold Fs.names
  split
  · rename_i h; exact (hd d h).symm
  · rename_i h; exact (hn d h).symm

theorem Fs.names_dir {d : Nat} (h : fs.Is d .dir) : fs.names d = some (blockMap (fs.indexOf d)) :=
  if_pos h

theorem Fs.names_notDir {d : Nat} (h : ¬fs.Is d .dir) : fs.names d = none := if_neg h

theorem Created.is_dir (h : Created fs fs' chain dir ino n name mode Z) (d : Nat) :
    fs'.Is d .dir ↔ fs.Is d .dir ∨ d = ino ∧ sIsDir mode = true := by
  by_cases hdi : d = ino
  · subst hdi
    have hkind := h.kind
    constructor
    · intro hd
      right
      refine ⟨rfl, ?_⟩
      cases hm : sIsDir mode with
      | true => rfl
      | false =>
          rw [hm] at hkind
          cases hd.kind_unique hkind
    · rintro (hd | ⟨-, hm⟩)
      · exact absurd hd.1 h.dead
      · simpa [hm] using hkind
  · constructor
    · intro hd
      have hl := ((h.live d).1 hd.1).resolve_right hdi
      exact Or.inl ⟨hl, by rw [← (h.view d hl).kind]; exact hd.2⟩
    · rintro (hd | ⟨rfl, -⟩)
      · exact ⟨(h.live d).2 (Or.inl hd.1), by rw [(h.view d hd.1).kind]; exact hd.2⟩
      · exact absurd rfl hdi

/-- **Creation inserts the name.** -/
theorem Created.names (h : Created fs fs' chain dir ino n name mode Z) (hn : NameInv fs)
    (hd : fs.Is dir .dir) (hv : ValidName name) (hnew : blockMap (fs.indexOf dir) name = none) :
    NameInv fs' ∧ fs'.names = if sIsDir mode then (fs.names.insert dir name ino).addDir ino
      else fs.names.insert dir name ino := by
  have h32 : ino < 4294967296 := by
    have h1 := h.lt
    have h2 := h.wf.table.lt
    rw [h.geom.nrInodes] at h2
    omega
  obtain ⟨hkey, hmap⟩ := blockMap_setSlot (hn dir hd) h.compact h.room h.pos h32 hv hnew
  have hne : dir ≠ ino := by
    rintro rfl
    exact h.dead hd.1
  have hold : ∀ d, fs.Is d .dir → d ≠ ino := by
    rintro d hd' rfl
    exact h.dead hd'.1
  -- the maps of the directories that were there before
  have hins : ∀ d, fs.Is d .dir →
      fs.names.insert dir name ino d = some (blockMap (fs'.indexOf d)) := by
    intro d hd'
    unfold Names.insert
    rw [Function.update_apply]
    split
    · rename_i hdd
      rw [hdd, Fs.names_dir hd, h.block, hmap]
      rfl
    · rename_i hdd
      rw [Fs.names_dir hd', h.others d hd' hdd]
  have hnone : ∀ d, ¬fs.Is d .dir → fs.names.insert dir name ino d = none := by
    intro d hd'
    unfold Names.insert
    rw [Function.update_of_ne, Fs.names_notDir hd']
    rintro rfl
    exact hd' hd
  constructor
  · intro d hd'
    rcases (h.is_dir d).1 hd' with hd' | ⟨rfl, hm⟩
    · by_cases hdd : d = dir
      · rw [hdd, h.block]
        exact hkey
      · rw [h.others d hd' hdd]
        exact hn d hd'
    · rw [h.newDir hm]
      intro i j hi
      exact absurd (slotInode_zero i) hi
  · split
    · rename_i hm
      apply Fs.names_eq
      · intro d hd'
        unfold Names.addDir
        rw [Function.update_apply]
        split
        · rename_i hdi
          rw [hdi, h.newDir hm, blockMap_zero]
        · rename_i hdi
          exact hins d (((h.is_dir d).1 hd').resolve_right fun hc => hdi hc.1)
      · intro d hd'
        unfold Names.addDir
        rw [Function.update_of_ne]
        · exact hnone d fun hc => hd' ((h.is_dir d).2 (Or.inl hc))
        · rintro rfl
          exact hd' ((h.is_dir d).2 (Or.inr ⟨rfl, hm⟩))
    · rename_i hm
      apply Fs.names_eq
      · intro d hd'
        exact hins d (((h.is_dir d).1 hd').resolve_right fun hc => hm hc.2)
      · intro d hd'
        exact hnone d fun hc => hd' ((h.is_dir d).2 (Or.inl hc))

theorem Removed.is_dir (h : Removed fs fs' chain chain' dir ino f n Z) (d : Nat) :
    fs'.Is d .dir ↔ fs.Is d .dir ∧ d ≠ ino := by
  unfold Fs.Is
  rw [h.live]
  constructor
  · rintro ⟨⟨hl, hne⟩, hk⟩
    exact ⟨⟨hl, by rw [← (h.view d hl hne).kind]; exact hk⟩, hne⟩
  · rintro ⟨⟨hl, hk⟩, hne⟩
    exact ⟨⟨hl, hne⟩, by rw [(h.view d hl hne).kind]; exact hk⟩

/-- **Removal deletes the name.** -/
theorem Removed.names (h : Removed fs fs' chain chain' dir ino f n Z) (hw : WF fs chain Z)
    (hn : NameInv fs) (hd : fs.Is dir .dir) :
    NameInv fs' ∧ fs'.names = (fs.names.delete dir (entryName (fs.indexOf dir) f)).dropDir ino := by
  obtain ⟨hkey, hmap⟩ :=
    blockMap_removeSlot (hn dir hd) (hw.dirs.clean dir hd) h.compact h.cap h.lt
  constructor
  · intro d hd'
    obtain ⟨hd', hne⟩ := (h.is_dir d).1 hd'
    by_cases hdd : d = dir
    · rw [hdd, h.block]
      exact hkey
    · rw [h.others d hd' hdd hne]
      exact hn d hd'
  · apply Fs.names_eq
    · intro d hd'
      obtain ⟨hd', hne⟩ := (h.is_dir d).1 hd'
      unfold Names.dropDir Names.delete
      rw [Function.update_of_ne hne, Function.update_apply]
      split
      · rename_i hdd
        rw [hdd, Fs.names_dir hd, h.block, hmap]
        rfl
      · rename_i hdd
        rw [Fs.names_dir hd', h.others d hd' hdd hne]
    · intro d hd'
      unfold Names.dropDir Names.delete
      rw [Function.update_apply]
      split
      · rfl
      · rename_i hne
        have hnd : ¬fs.Is d .dir := fun hc => hd' ((h.is_dir d).2 ⟨hc, hne⟩)
        rw [Function.update_of_ne, Fs.names_notDir hnd]
        rintro rfl
        exact hnd hd

end Effects

/-! ## Lookup -/

/-- The scan of `ouichefs_lookup` stops at the first slot with the name, or at an empty slot. -/
theorem blockMap_eq_scan {b : Block} {n : Nat} {name : List UInt8} (hc : Compact (slotInode b) n)
    (hv : AcceptedName name) : blockMap b name =
      match (List.range 128).find? fun i =>
          slotInode b i == 0 || strncmpEq (slotName b i) name 28 with
      | none => none
      | some i => if slotInode b i = 0 then none else some (slotInode b i) := by
  cases hfind : (List.range 128).find? fun i =>
      slotInode b i == 0 || strncmpEq (slotName b i) name 28 with
  | none =>
      rw [List.find?_eq_none] at hfind
      refine slotFind_of_none fun i hi _ hname => hfind i (List.mem_range.2 hi) ?_
      simp [(hv.strncmpEq b i).2 hname]
  | some i =>
      obtain ⟨hp, hlt, hbefore⟩ := List.find?_range_eq_some.1 hfind
      have hno : ∀ j < i, slotInode b j ≠ 0 → entryName b j ≠ name := by
        intro j hj _ hname
        have := hbefore j hj
        simp [(hv.strncmpEq b j).2 hname] at this
      by_cases hi : slotInode b i = 0
      · simp only [hi, if_true]
        refine slotFind_of_none fun j _ hj hname => ?_
        have h1 := hc.lt_iff.2 hj
        have h2 : ¬j < i := fun hji => hno j hji hj hname
        exact hc.used i (by omega) hi
      · simp only [hi, if_false]
        simp only [Bool.or_eq_true, beq_iff_eq] at hp
        exact slotFind_of_first (List.mem_range.1 hlt) hi ((hv.strncmpEq b i).1 (hp.resolve_left hi))
          hno

/-- What a look-up in directory `dir` relies on. -/
structure Fs.Searchable (fs : Fs) (dir : Nat) : Prop where
  index : (fs.inode dir).indexBlock < fs.sbi.nrBlocks
  compact : ∃ n, Compact (slotInode (fs.indexOf dir)) n
  cached : ∀ i, slotInode (fs.indexOf dir) i ≠ 0 → slotInode (fs.indexOf dir) i < fs.sbi.nrInodes ∧
    (fs.icache (slotInode (fs.indexOf dir) i)).isSome

theorem WF.searchable {fs : Fs} {chain : List Nat} {dir : Nat} (h : WF fs chain Z)
    (hd : fs.Is dir .dir) : fs.Searchable dir where
  index := (h.toCore.dir_used hd).1
  compact := by
    obtain ⟨n, -, hc⟩ := h.dirs.tree.compact dir hd
    exact ⟨n, hc⟩
  cached i hi := by
    have hlive := (h.dirs.tree.entry hd hi).1
    exact ⟨hlive.2.1, h.inodes.cached _ hlive⟩

/-- **`ouichefs_lookup` evaluates the map of the directory.** -/
theorem ouichefsLookup_searchable {k : Kernel} {dir : Nat} {name : List UInt8}
    (hf : k.faults = []) (h : k.fs.Searchable dir) (hv : AcceptedName name) :
    ∃ k', k'.fs = k.fs ∧
      ouichefsLookup k dir name = .ok (.ok (blockMap (k.fs.indexOf dir) name), k') := by
  have hdb : (k.inode dir).indexBlock < k.fs.sbi.nrBlocks := h.index
  obtain ⟨n, hc⟩ := h.compact
  have hblk : k.fs.disk (k.inode dir).indexBlock = k.fs.indexOf dir := rfl
  unfold ouichefsLookup
  rw [if_neg (Nat.not_lt.2 hv.2.1), blockMap_eq_scan hc hv]
  simp only [Kernel.sbBread_ok hf hdb, Kernel.fs_log, hblk]
  refine ⟨(k.log (.bread (k.inode dir).indexBlock)).brelse (k.inode dir).indexBlock, rfl, ?_⟩
  generalize hfind : ((List.range 128).find? fun i => slotInode (k.fs.indexOf dir) i == 0 ||
    strncmpEq (slotName (k.fs.indexOf dir) i) name 28) = res
  cases res with
  | none => rfl
  | some i =>
      by_cases hi : slotInode (k.fs.indexOf dir) i = 0
      · simp only [hi, if_true]
      · obtain ⟨hlt, hcache⟩ := h.cached i hi
        have hget : ouichefsIget (k.log (.bread (k.inode dir).indexBlock))
            (slotInode (k.fs.indexOf dir) i) = (0, k.log (.bread (k.inode dir).indexBlock)) := by
          obtain ⟨ci, hci⟩ := Option.isSome_iff_exists.1 hcache
          unfold ouichefsIget
          rw [Kernel.fs_log, if_neg (Nat.not_le.2 hlt), hci]
        simp only [hi, if_false, hget, ne_eq, not_true_eq_false]

theorem ouichefsLookup_spec {k : Kernel} {chain : List Nat} {dir : Nat} {name : List UInt8}
    (hf : k.faults = []) (h : WF k.fs chain Z) (hd : k.fs.Is dir .dir) (hv : AcceptedName name) :
    ∃ k', k'.fs = k.fs ∧
      ouichefsLookup k dir name = .ok (.ok (blockMap (k.fs.indexOf dir) name), k') :=
  ouichefsLookup_searchable hf (h.searchable hd) hv

end Ouichefs
