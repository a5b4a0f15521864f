import Ouichefs.DirRuns

/-!
# Directory listing (`dir.c`)

`ouichefs_iterate` emits the slots of a directory block from a cursor on, until the buffer of the
caller is full; the next call resumes at the cursor.  Between the calls entries come and go.
`Passed` is the invariant of an entry that stays: it has been emitted once if the cursor is behind
its slot and not at all otherwise.  Removing a slot below the cursor moves the entry at the cursor
below it, so that it is skipped; `listing_run` excludes this.
-/

set_option autoImplicit false

namespace Ouichefs

variable {Z : Prop}

/-! ## The model -/

/-- A directory entry as it is emitted: the name and the inode number. -/
abbrev Dirent := List UInt8 × Nat

/-- `struct dir_context`: the cursor, the number of entries the buffer still takes, and what it has
taken. -/
structure DirContext where
  pos : Nat
  room : Nat
  emitted : List Dirent
  deriving DecidableEq, Repr

/-- `dir_emit`. -/
def dirEmit (ctx : DirContext) (name : List UInt8) (ino : Nat) : Bool × DirContext :=
  if ctx.room = 0 then (false, ctx)
  else (true, { ctx with room := ctx.room - 1, emitted := ctx.emitted ++ [(name, ino)] })

/-- `dir_emit_dots`: `.` at position 0 and `..` at position 1. -/
def dirEmitDots (ctx : DirContext) (dir parent : Nat) : Bool × DirContext :=
  match if ctx.pos = 0 then
      match dirEmit ctx [46] dir with
      | (true, ctx) => (true, { ctx with pos := 1 })
      | (false, ctx) => (false, ctx)
    else (true, ctx) with
  | (false, ctx) => (false, ctx)
  | (true, ctx) =>
    if ctx.pos = 1 then
      match dirEmit ctx [46, 46] parent with
      | (true, ctx) => (true, { ctx with pos := 2 })
      | (false, ctx) => (false, ctx)
    else (true, ctx)

/-- The loop of `ouichefs_iterate` from slot `i` on, at most `n` slots. -/
def iterateLoop (b : Block) : Nat → Nat → DirContext → DirContext
  | 0, _, ctx => ctx
  | n + 1, i, ctx =>
    if slotInode b i = 0 then ctx
    else
      match dirEmit ctx (slotName b i) (slotInode b i) with
      | (false, ctx) => ctx
      | (true, ctx) => iterateLoop b n (i + 1) { ctx with pos := ctx.pos + 1 }

/-- `ouichefs_iterate`. -/
def ouichefsIterate (k : Kernel) (dir parent : Nat) (ctx : DirContext) :
    Outcome (Int × DirContext) :=
  if sIsDir (k.inode dir).iMode = false then .ok ((-ENOTDIR, ctx), k)
  else if ctx.pos > 130 then .ok ((0, ctx), k)
  else
    match dirEmitDots ctx dir parent with
    | (false, ctx) => .ok ((0, ctx), k)
    | (true, ctx) =>
      let idx := (k.inode dir).indexBlock
      match k.sbBread idx with
      | (false, k) => .ok ((- EIO, ctx), k)
      | (true, k) =>
        let i := ctx.pos - 2
        .ok ((0, iterateLoop (k.fs.disk idx) (128 - i) i ctx), k.brelse idx)

/-! ## One call -/

/-- What is emitted for slot `i`. -/
def dirent (b : Block) (i : Nat) : Dirent := (slotName b i, slotInode b i)

section Call

variable {b : Block} {n : Nat}

/-- The loop emits as many of the remaining entries as there is room for. -/
theorem iterateLoop_spec (hc : Compact (slotInode b) n) : ∀ (fuel i : Nat) (ctx : DirContext),
    n ≤ i + fuel → iterateLoop b fuel i ctx =
      { pos := ctx.pos + min ctx.room (n - i), room := ctx.room - min ctx.room (n - i)
        emitted := ctx.emitted ++
          (List.range (min ctx.room (n - i))).map fun t => dirent b (i + t) } := by
  intro fuel
  induction fuel with
  | zero =>
      intro i ctx hle
      have h0 : n - i = 0 := by omega
      simp [iterateLoop, h0]
  | succ fuel ih =>
      intro i ctx hle
      unfold iterateLoop
      split
      · rename_i hs
        have h0 : n - i = 0 := by
          by_contra hne
          exact hc.used i (by omega) hs
        simp [h0]
      · rename_i hs
        have hin : i < n := hc.lt_iff.2 hs
        unfold dirEmit
        split
        · rename_i ctx' heq
          split at heq
          · rename_i hroom
            cases heq
            obtain ⟨pos, room, emitted⟩ := ctx
            have hroom : room = 0 := hroom
            simp [hroom]
          · cases heq
        · rename_i ctx' heq
          split at heq
          · cases heq
          · rename_i hroom
            cases heq
            rw [ih (i + 1) _ (by omega)]
            have hmin : min ctx.room (n - i) = min (ctx.room - 1) (n - (i + 1)) + 1 := by omega
            simp only [hmin, List.range_succ_eq_map, List.map_cons, List.map_map, Nat.add_zero,
              List.append_assoc, List.singleton_append, DirContext.mk.injEq]
            refine ⟨by omega, by omega, ?_⟩
            congr 2
            apply List.map_congr_left
            intro t _
            simp only [Function.comp, Nat.succ_eq_add_one]
            congr 1
            omega

/-- `.` and `..` are emitted first; without room for both the call ends. -/
theorem dirEmitDots_spec (ctx : DirContext) (dir parent : Nat) :
    ∃ ok ds pos', dirEmitDots ctx dir parent =
        (ok, ⟨pos', ctx.room - ds.length, ctx.emitted ++ ds⟩) ∧
      (∀ e ∈ ds, e.1.length ≤ 2) ∧ pos' - 2 = ctx.pos - 2 ∧
      (ok = true → 2 ≤ pos' ∧ (ds = [] → pos' = ctx.pos)) ∧
      (ok = false → ds.length = ctx.room ∧ pos' ≤ 2) := by
  obtain ⟨pos, room, emitted⟩ := ctx
  unfold dirEmitDots dirEmit
  by_cases h0 : pos = 0
  · by_cases hr : room = 0
    · exact ⟨false, [], pos, by simp [h0, hr], by simp, rfl, by simp, by simp [hr, h0]⟩
    · by_cases hr1 : room = 1
      · exact ⟨false, [([46], dir)], 1, by simp [h0, hr1], by simp, by simp [h0], by simp,
          by simp [hr1]⟩
      · refine ⟨true, [([46], dir), ([46, 46], parent)], 2, ?_, by simp, by simp [h0], by simp,
          by simp⟩
        have hr2 : ¬room - 1 = 0 := by omega
        simp [h0, hr, hr2]
        omega
  · by_cases h1 : pos = 1
    · by_cases hr : room = 0
      · exact ⟨false, [], pos, by simp [h1, hr], by simp, rfl, by simp, by simp [hr, h1]⟩
      · exact ⟨true, [([46, 46], parent)], 2, by simp [h1, hr], by simp, by simp [h1], by simp,
          by simp⟩
    · refine ⟨true, [], pos, by simp [h0, h1], by simp, rfl, fun _ => ⟨by omega, fun _ => rfl⟩,
        by simp⟩

/-- **One call** emits the next entries behind the cursor and moves the cursor past them; with room
in the buffer it emits nothing only at the end. -/
theorem ouichefsIterate_spec {k : Kernel} {chain : List Nat} {dir : Nat} (hf : k.faults = [])
    (h : WF k.fs chain Z) (hd : k.fs.Is dir .dir) (hc : Compact (slotInode (k.fs.indexOf dir)) n)
    (hle : n ≤ 128) (parent pos room : Nat) :
    ∃ ctx k' ds m, ouichefsIterate k dir parent ⟨pos, room, []⟩ = .ok ((0, ctx), k') ∧
      k'.fs = k.fs ∧ k'.faults = [] ∧ ctx.emitted = ds ++
        (List.range m).map (fun t => dirent (k.fs.indexOf dir) (pos - 2 + t)) ∧
      (∀ e ∈ ds, e.1.length ≤ 2) ∧ ctx.pos - 2 = pos - 2 + m ∧ m ≤ n - (pos - 2) ∧
      (1 ≤ room → ctx.emitted = [] → n ≤ pos - 2) := by
  have hmode : sIsDir (k.inode dir).iMode = true := Inode.kind_dir.1 hd.2
  have hdb : (k.inode dir).indexBlock < k.fs.sbi.nrBlocks := (h.toCore.dir_used hd).1
  have hblk : k.fs.disk (k.inode dir).indexBlock = k.fs.indexOf dir := rfl
  unfold ouichefsIterate
  rw [if_neg (by simp [hmode])]
  by_cases hpos : pos > 130
  · rw [if_pos hpos]
    exact ⟨_, k, [], 0, rfl, rfl, hf, by simp, by simp, by simp, by omega, fun _ _ => by omega⟩
  rw [if_neg hpos]
  obtain ⟨ok, ds, pos', hdots, hds, hcur, hok, hfail⟩ :=
    dirEmitDots_spec ⟨pos, room, []⟩ dir parent
  rw [hdots]
  cases ok with
  | false =>
      obtain ⟨hlen, -⟩ := hfail rfl
      refine ⟨_, k, ds, 0, rfl, rfl, hf, by simp, hds, by simpa using hcur, by omega,
        fun h1 hnil => ?_⟩
      have : ds = [] := by simpa using hnil
      rw [this] at hlen
      simp only [List.length_nil] at hlen
      omega
  | true =>
      obtain ⟨h2, hsame⟩ := hok rfl
      simp only [Kernel.sbBread_ok hf hdb, Kernel.fs_log, hblk]
      rw [iterateLoop_spec hc _ _ _ (by omega)]
      have hcur' : pos' - 2 = pos - 2 := hcur
      refine ⟨_, _, ds, min (room - ds.length) (n - (pos - 2)), rfl, rfl, by simpa using hf, ?_,
        hds, ?_, by omega, fun h1 hnil => ?_⟩
      · simp only [hcur', List.nil_append]
      · simp only [hcur']
        omega
      · have hds0 : ds = [] := by
          have := (List.append_eq_nil_iff.1 hnil).1
          simpa using this
        have hm : min (room - ds.length) (n - (pos' - 2)) = 0 := by
          have := (List.append_eq_nil_iff.1 hnil).2
          simpa using this
        rw [hds0, hcur'] at hm
        simp only [List.length_nil] at hm
        omega

end Call

/-! ## Interleavings -/

/-- A call of `ouichefs_iterate` with a buffer for `room` entries, or another operation. -/
inductive ListEv where
  | iterate (room : Nat)
  | change (c : Call)
  deriving DecidableEq, Repr

/-- The file system, the position of the open directory, and everything emitted so far. -/
structure ListState where
  kernel : Kernel
  pos : Nat
  emitted : List Dirent

def ListState.exec (dir parent : Nat) (s : ListState) :
    ListEv → Except (Crash × Kernel) (Int × ListState)
  | .iterate room =>
    match ouichefsIterate s.kernel dir parent ⟨s.pos, room, []⟩ with
    | .error e => .error e
    | .ok ((r, ctx), k) => .ok (r, ⟨k, ctx.pos, s.emitted ++ ctx.emitted⟩)
  | .change c =>
    match c.exec s.kernel with
    | .error e => .error e
    | .ok (r, k) => .ok (r, { s with kernel := k })

/-- The directory has this entry. -/
def Fs.HasDirent (fs : Fs) (dir : Nat) (e : Dirent) : Prop :=
  ∃ i, i < 128 ∧ e.2 ≠ 0 ∧ dirent (fs.indexOf dir) i = e

instance (fs : Fs) (dir : Nat) (e : Dirent) : Decidable (fs.HasDirent dir e) :=
  inferInstanceAs (Decidable (∃ i, i < 128 ∧ _ ∧ _))

/-- Creations and removals of files in the directory, and calls whose buffer takes an entry. -/
def ListEv.Plain (dir : Nat) (s : ListState) : ListEv → Prop
  | .iterate room => 1 ≤ room
  | .change ⟨.create d name mode, _, _, _⟩ => d = dir ∧ Op.Dir s.kernel.fs (.create d name mode)
  | .change ⟨.unlink d name ino, _, _, _⟩ => d = dir ∧ Op.Dir s.kernel.fs (.unlink d name ino)
  | .change _ => False

/-- The removal of a slot below the cursor while the entry at the cursor was there at the first
call, in state `fs₀`. -/
def ListEv.Skips (dir : Nat) (fs₀ : Fs) (s : ListState) : ListEv → Prop
  | .change ⟨.unlink _ _ ino, _, _, _⟩ =>
    (∃ f < s.pos - 2, slotInode (s.kernel.fs.indexOf dir) f = ino) ∧
      fs₀.HasDirent dir (dirent (s.kernel.fs.indexOf dir) (s.pos - 2))
  | _ => False

instance (dir : Nat) (s : ListState) : (ev : ListEv) → Decidable (ev.Plain dir s)
  | .iterate _ => inferInstanceAs (Decidable (_ ≤ _))
  | .change ⟨.create .., _, _, _⟩ => inferInstanceAs (Decidable (_ ∧ _))
  | .change ⟨.unlink .., _, _, _⟩ => inferInstanceAs (Decidable (_ ∧ _))
  | .change ⟨.mkdir .., _, _, _⟩ => inferInstanceAs (Decidable False)
  | .change ⟨.rmdir .., _, _, _⟩ => inferInstanceAs (Decidable False)
  | .change ⟨.rename .., _, _, _⟩ => inferInstanceAs (Decidable False)
  | .change ⟨.write .., _, _, _⟩ => inferInstanceAs (Decidable False)
  | .change ⟨.append .., _, _, _⟩ => inferInstanceAs (Decidable False)

instance (dir : Nat) (fs₀ : Fs) (s : ListState) : (ev : ListEv) → Decidable (ev.Skips dir fs₀ s)
  | .iterate _ => inferInstanceAs (Decidable False)
  | .change ⟨.create .., _, _, _⟩ => inferInstanceAs (Decidable False)
  | .change ⟨.unlink .., _, _, _⟩ => inferInstanceAs (Decidable ((∃ f < _, _) ∧ _))
  | .change ⟨.mkdir .., _, _, _⟩ => inferInstanceAs (Decidable False)
  | .change ⟨.rmdir .., _, _, _⟩ => inferInstanceAs (Decidable False)
  | .change ⟨.rename .., _, _, _⟩ => inferInstanceAs (Decidable False)
  | .change ⟨.write .., _, _, _⟩ => inferInstanceAs (Decidable False)
  | .change ⟨.append .., _, _, _⟩ => inferInstanceAs (Decidable False)

/-- What holds between the events. -/
structure ListInv (s : ListState) (chain : List Nat) (dir : Nat) (Z : Prop) : Prop where
  faults : s.kernel.faults = []
  wf : WF s.kernel.fs chain Z
  names : NameInv s.kernel.fs
  dir : s.kernel.fs.Is dir .dir

/-- An entry at a slot below the cursor has been emitted once, one at or behind the cursor not at
all. -/
def Passed (dir : Nat) (e : Dirent) (s : ListState) : Prop :=
  ∀ i, e.2 ≠ 0 → dirent (s.kernel.fs.indexOf dir) i = e →
    s.emitted.count e = if i < s.pos - 2 then 1 else 0

section Steps

variable {s s' : ListState} {chain : List Nat} {dir parent : Nat} {e : Dirent}

theorem slotName_length (b : Block) (i : Nat) : (slotName b i).length = 28 := by
  simp [slotName]

/-- An entry stands in one slot. -/
theorem ListInv.slot_unique (h : ListInv s chain dir Z) {i j : Nat} (h0 : e.2 ≠ 0)
    (hi : dirent (s.kernel.fs.indexOf dir) i = e) (hj : dirent (s.kernel.fs.indexOf dir) j = e) :
    i = j := by
  have hi' : slotInode (s.kernel.fs.indexOf dir) i = e.2 := congrArg Prod.snd hi
  have hj' : slotInode (s.kernel.fs.indexOf dir) j = e.2 := congrArg Prod.snd hj
  exact (h.wf.dirs.tree.unique h.dir h.dir (hi'.trans hj'.symm) (by rw [hi']; exact h0)).2

/-- **A call of `ouichefs_iterate`.** -/
theorem ListInv.iterate (h : ListInv s chain dir Z) (parent room : Nat) :
    ∃ s', s.exec dir parent (.iterate room) = .ok (0, s') ∧ ListInv s' chain dir Z ∧
      s'.kernel.fs = s.kernel.fs ∧ (Passed dir e s → Passed dir e s') ∧
      (1 ≤ room → s'.emitted = s.emitted → ∀ i, slotInode (s.kernel.fs.indexOf dir) i ≠ 0 →
        i < s.pos - 2) := by
  obtain ⟨n, hle, hc⟩ := h.wf.dirs.tree.compact dir h.dir
  obtain ⟨ctx, k', ds, m, hrun, hfs, hf', hem, hds, hcur, hm, hend⟩ :=
    ouichefsIterate_spec h.faults h.wf h.dir hc hle parent s.pos room
  refine ⟨⟨k', ctx.pos, s.emitted ++ ctx.emitted⟩, ?_,
    ⟨hf', hfs ▸ h.wf, hfs ▸ h.names, hfs ▸ h.dir⟩, hfs, fun hp i h0 hi => ?_, fun h1 hnil i hi => ?_⟩
  · unfold ListState.exec
    simp only [hrun]
  · -- the entry is emitted if it stands between the old and the new cursor
    have hi : dirent (s.kernel.fs.indexOf dir) i = e := by
      rw [← hfs]
      exact hi
    have hdots : ds.count e = 0 := by
      apply List.count_eq_zero_of_not_mem
      intro hmem
      have h2 := hds e hmem
      have h28 : e.1.length = 28 := by
        rw [← hi]
        exact slotName_length _ i
      omega
    have hcount : ((List.range m).map fun t => dirent (s.kernel.fs.indexOf dir)
        (s.pos - 2 + t)).count e = if s.pos - 2 ≤ i ∧ i < s.pos - 2 + m then 1 else 0 := by
      have hslot : ∀ t, dirent (s.kernel.fs.indexOf dir) (s.pos - 2 + t) = e ↔
          s.pos - 2 + t = i :=
        fun t => ⟨fun ht => h.slot_unique h0 ht hi, fun ht => by rw [ht]; exact hi⟩
      split
      · rename_i hin
        have hone : ((List.range m).map fun t => dirent (s.kernel.fs.indexOf dir)
            (s.pos - 2 + t)).count e = (List.range m).count (i - (s.pos - 2)) := by
          unfold List.count
          rw [List.countP_map]
          apply List.countP_congr
          intro t _
          simp only [Function.comp, beq_iff_eq, hslot]
          omega
        rw [hone, List.nodup_range.count, if_pos (List.mem_range.2 (by omega))]
      · rename_i hout
        apply List.count_eq_zero_of_not_mem
        intro hmem
        obtain ⟨t, ht, hte⟩ := List.mem_map.1 hmem
        have := (hslot t).1 hte
        have := List.mem_range.1 ht
        omega
    show (s.emitted ++ ctx.emitted).count e = _
    rw [List.count_append, hem, List.count_append, hdots, hcount, hp i h0 hi]
    show _ = if i < ctx.pos - 2 then 1 else 0
    rw [hcur]
    split <;> split <;> split <;> omega
  · have hnil' : ctx.emitted = [] := by
      have : s.emitted ++ ctx.emitted = s.emitted := hnil
      simpa using this
    have := hend h1 hnil'
    have := hc.lt_iff.2 hi
    omega

/-- The new block after a creation holds the old entries where they were. -/
theorem dirent_setSlot {b : Block} {n i ino : Nat} {name : List UInt8}
    (hn : Compact (slotInode b) n) (hlt : n < 128) (h32 : ino < 4294967296)
    (hi : slotInode b i ≠ 0) : dirent (setSlot b n ino name) i = dirent b i := by
  have hne : i ≠ n := by
    rintro rfl
    exact hi (hn.empty i (Nat.le_refl i))
  unfold dirent
  rw [slotName_setSlot_other _ _ _ hlt hne, slotInode_setSlot _ _ hlt h32, if_neg hne]

theorem dirent_removeSlot {b : Block} {f n : Nat} (hc : Clean b) (hn : Compact (slotInode b) n)
    (hf : f < n) (hle : n ≤ 128) (i : Nat) :
    dirent (removeSlot b f n) i = if i < f then dirent b i else dirent b (i + 1) := by
  unfold dirent
  rw [slotName_removeSlot hc hn hf hle, slotInode_removeSlot hc hn hf hle]
  unfold dropSlot
  split <;> rfl

/-- **A creation** leaves the entries where they are. -/
theorem ListInv.create (h : ListInv s chain dir Z) {name : List UInt8} {mode : Nat}
    (hop : Op.Dir s.kernel.fs (.create dir name mode)) (now : Timespec) (fsuid fsgid : Nat) :
    ∃ r s', s.exec dir parent (.change ⟨.create dir name mode, now, fsuid, fsgid⟩) = .ok (r, s') ∧
      ListInv s' chain dir Z ∧
      (s.kernel.fs.HasDirent dir e → Passed dir e s → Passed dir e s') := by
  obtain ⟨hd, hv, hnew⟩ := hop
  obtain ⟨r, k', hrun, hf', -, hres⟩ := ouichefsCreate_spec
    (k := s.kernel.setCaller now fsuid fsgid) h.faults h.wf hd name mode
  have hexec : s.exec dir parent (.change ⟨.create dir name mode, now, fsuid, fsgid⟩) =
      .ok (r, { s with kernel := k' }) := by
    unfold ListState.exec Call.exec Op.exec
    simp only [hrun]
  rcases hres with ⟨-, hsame, -⟩ | ⟨-, ino, n, hc⟩
  · have hsame : k'.fs = s.kernel.fs := hsame
    refine ⟨r, _, hexec, ⟨hf', hsame ▸ h.wf, hsame ▸ h.names, hsame ▸ h.dir⟩, fun _ hp i h0 hi => ?_⟩
    exact hp i h0 (hsame ▸ hi)
  · have hinv : ListInv { s with kernel := k' } chain dir Z :=
      ⟨hf', hc.wf, (hc.names h.names hd hv hnew).1, (hc.is_dir dir).2 (Or.inl hd)⟩
    refine ⟨r, _, hexec, hinv, fun hold hp i h0 hi => ?_⟩
    obtain ⟨j, -, -, hj⟩ := hold
    have hj0 : slotInode (s.kernel.fs.indexOf dir) j ≠ 0 := by
      have : slotInode (s.kernel.fs.indexOf dir) j = e.2 := congrArg Prod.snd hj
      rw [this]
      exact h0
    have h32 : ino < 4294967296 := Nat.lt_trans hc.lt h.wf.table.lt
    have hj' : dirent (k'.fs.indexOf dir) j = e := by
      rw [hc.block]
      exact (dirent_setSlot hc.compact hc.room h32 hj0).trans hj
    obtain rfl : j = i := hinv.slot_unique h0 hj' hi
    exact hp j h0 hj

/-- **A removal** moves the entries behind the slot down. -/
theorem ListInv.unlink (h : ListInv s chain dir Z) {name : List UInt8} {ino : Nat}
    (hop : Op.Dir s.kernel.fs (.unlink dir name ino)) (now : Timespec) (fsuid fsgid : Nat) :
    ∃ r s' chain', s.exec dir parent (.change ⟨.unlink dir name ino, now, fsuid, fsgid⟩) =
        .ok (r, s') ∧ ListInv s' chain' dir Z ∧
      ∀ fs₀ : Fs, ¬ListEv.Skips dir fs₀ s (.change ⟨.unlink dir name ino, now, fsuid, fsgid⟩) →
        s.kernel.fs.HasDirent dir e → fs₀.HasDirent dir e → Passed dir e s → Passed dir e s' := by
  obtain ⟨hd, hname, hnd⟩ := hop
  obtain ⟨f, hs, h0, -⟩ := (blockMap_some h.wf h.names hd).1 hname
  obtain ⟨k', chain', n, hrun, hf', -, hr⟩ := ouichefsUnlink_spec
    (k := s.kernel.setCaller now fsuid fsgid) h.faults h.wf hd hs h0 fun hc => absurd hc hnd
  have hexec : s.exec dir parent (.change ⟨.unlink dir name ino, now, fsuid, fsgid⟩) =
      .ok (0, { s with kernel := k' }) := by
    unfold ListState.exec Call.exec Op.exec
    simp only [hrun]
  refine ⟨0, _, chain', hexec, ⟨hf', hr.wf, (hr.names h.wf h.names hd).1,
    (hr.is_dir dir).2 ⟨hd, fun hc => hr.notDir hc.symm⟩⟩, ?_⟩
  intro fs₀ hskip hold horig hp i he0 hi
  have hblock : dirent (k'.fs.indexOf dir) i = if i < f then dirent (s.kernel.fs.indexOf dir) i
      else dirent (s.kernel.fs.indexOf dir) (i + 1) := by
    rw [hr.block]
    exact dirent_removeSlot (h.wf.dirs.clean dir hd) hr.compact hr.lt hr.cap i
  have hi : dirent (k'.fs.indexOf dir) i = e := hi
  show s.emitted.count e = if i < s.pos - 2 then 1 else 0
  rw [hblock] at hi
  split at hi
  · exact hp i he0 hi
  · rename_i hif
    rw [hp (i + 1) he0 hi]
    -- the entry moves from the cursor to the slot below it
    have hcur : i + 1 ≠ s.pos - 2 := by
      intro hc
      refine hskip ⟨⟨f, by omega, hs⟩, ?_⟩
      rw [← hc, hi]
      exact horig
    split <;> split <;> omega

/-- **One event.** -/
theorem ListEv.Plain.step {ev : ListEv} (hev : ev.Plain dir s) (h : ListInv s chain dir Z) :
    ∃ r s' chain', s.exec dir parent ev = .ok (r, s') ∧ ListInv s' chain' dir Z ∧
      ∀ fs₀ : Fs, ¬ev.Skips dir fs₀ s → s.kernel.fs.HasDirent dir e → fs₀.HasDirent dir e →
        Passed dir e s → Passed dir e s' := by
  cases ev with
  | iterate room =>
      obtain ⟨s', hrun, hinv, -, hp, -⟩ := h.iterate (e := e) parent room
      exact ⟨0, s', chain, hrun, hinv, fun _ _ _ _ => hp⟩
  | change c =>
      obtain ⟨op, now, fsuid, fsgid⟩ := c
      cases op with
      | create d name mode =>
          obtain ⟨rfl, hop⟩ := hev
          obtain ⟨r, s', hrun, hinv, hp⟩ := h.create (e := e) hop now fsuid fsgid
          exact ⟨r, s', chain, hrun, hinv, fun _ _ hold _ => hp hold⟩
      | unlink d name ino =>
          obtain ⟨rfl, hop⟩ := hev
          exact h.unlink hop now fsuid fsgid
      | mkdir | rmdir | rename | write | append => exact hev.elim

end Steps

/-! ## Runs -/

section Runs

variable {k : Kernel} {chain : List Nat} {dir parent : Nat} {evs : List ListEv}

/-- Every interleaving of listing, creation and removal returns. -/
theorem ListInv.run {s : ListState} (h : ListInv s chain dir Z)
    (ha : Admissible (ListState.exec dir parent) (fun s ev => ev.Plain dir s) s evs) :
    ∃ s' chain', runAll (ListState.exec dir parent) s evs = .ok s' ∧ ListInv s' chain' dir Z := by
  obtain ⟨s', hrun, chain', hinv⟩ := runAll_invariant (I := fun s => ∃ chain, ListInv s chain dir Z)
    (fun s ev ⟨chain, hi⟩ hev => by
      obtain ⟨r, s', chain', he, hi', -⟩ := hev.step (e := ([], 0)) hi
      exact ⟨r, s', he, chain', hi'⟩) evs s ⟨chain, h⟩ ha
  exact ⟨s', chain', hrun, hinv⟩

/-- **Listing under concurrent change**: when no removal below the cursor skips an entry that was
there at the first call, every entry that is there all the time is emitted exactly once by the time
a call emits nothing. -/
theorem listing_run (hf : k.faults = []) (h : WF k.fs chain Z) (hn : NameInv k.fs)
    (hd : k.fs.Is dir .dir) (ha : Admissible (ListState.exec dir parent)
      (fun s ev => ev.Plain dir s ∧ ¬ev.Skips dir k.fs s) ⟨k, 0, []⟩ evs) :
    ∃ s', runAll (ListState.exec dir parent) ⟨k, 0, []⟩ evs = .ok s' ∧
      ∀ room, 1 ≤ room → ∃ s'', s'.exec dir parent (.iterate room) = .ok (0, s'') ∧
        (s''.emitted = s'.emitted → ∀ e, Admissible (ListState.exec dir parent)
          (fun s _ => s.kernel.fs.HasDirent dir e) ⟨k, 0, []⟩ evs →
          s'.kernel.fs.HasDirent dir e → s'.emitted.count e = 1) := by
  have h₀ : ListInv ⟨k, 0, []⟩ chain dir Z := ⟨hf, h, hn, hd⟩
  obtain ⟨s', chain', hrun, hinv⟩ := h₀.run (Admissible.mono (fun s ev => And.left) _ _ ha)
  refine ⟨s', hrun, fun room hroom => ?_⟩
  obtain ⟨s'', hlast, -, -, -, hend⟩ := hinv.iterate (e := ([], 0)) parent room
  refine ⟨s'', hlast, fun hnil e hthere hfinal => ?_⟩
  have horig : k.fs.HasDirent dir e := by
    cases evs with
    | nil =>
        cases hrun
        exact hfinal
    | cons ev evs => exact hthere.1
  obtain ⟨-, -, hpass⟩ := runAll_safe
    (I := fun s => ∃ chain, ListInv s chain dir Z ∧
      (s.kernel.fs.HasDirent dir e → Passed dir e s))
    (fun s ev r s₁ ⟨chain, hi, hp⟩ hok he => by
      obtain ⟨r', s₂, chain', he', hi', hstep⟩ := hok.1.1.step (e := e) hi
      rw [he] at he'
      cases he'
      exact ⟨chain', hi', fun _ => hstep k.fs hok.1.2 hok.2 horig (hp hok.2)⟩)
    evs _ s' ⟨chain, h₀, fun _ i _ _ => by simp⟩ (Admissible.and _ _ ha hthere) hrun
  obtain ⟨i, -, h0, hi⟩ := hfinal
  have hi0 : slotInode (s'.kernel.fs.indexOf dir) i ≠ 0 := by
    have : slotInode (s'.kernel.fs.indexOf dir) i = e.2 := congrArg Prod.snd hi
    rw [this]
    exact h0
  rw [hpass ⟨i, lt_of_slotInode hi0, h0, hi⟩ i h0 hi, if_pos (hend hroom hnil i hi0)]

/-! A directory with three files, of which the first is removed when it has been listed: the second
one is skipped. -/

/-- Three files. -/
def threeFiles : List Call :=
  [(Op.create 1 [97] 0o100644).call, (Op.create 1 [98] 0o100644).call,
    (Op.create 1 [99] 0o100644).call]

theorem threeFiles_inv : ∃ chain, ListInv ⟨(emptyImage 8 8).after threeFiles, 0, []⟩ chain 1 True := by
  have hfmt : Formatted (emptyImage 8 8).fs :=
    emptyImage_formatted (by decide) (by decide) (by decide) (by decide)
  have hadm : Admissible Call.exec DirCall (emptyImage 8 8) threeFiles := by decide +kernel
  obtain ⟨k', chain, hrun, hinv⟩ := (hfmt.treeInv rfl fun _ => emptyImage_blank (by decide)).run hadm
  have hk : (emptyImage 8 8).after threeFiles = k' := by
    unfold Kernel.after
    rw [hrun]
  exact ⟨chain, hk ▸ hinv.faults, hk ▸ hinv.wf, hk ▸ hinv.names, by decide +kernel⟩

/-- The first call has room for `.`, `..` and one file. -/
def skipRun : List ListEv :=
  [.iterate 3, .change (Op.unlink 1 [97] 2).call, .iterate 5]

/-- The entry of the second file. -/
def secondFile : Dirent := (98 :: List.replicate 27 0, 3)

theorem listing_skipped : ∃ s' s'' : ListState,
    Admissible (ListState.exec 1 1) (fun s ev => ev.Plain 1 s)
      ⟨(emptyImage 8 8).after threeFiles, 0, []⟩ skipRun ∧
    runAll (ListState.exec 1 1) ⟨(emptyImage 8 8).after threeFiles, 0, []⟩ skipRun = .ok s' ∧
    s'.exec 1 1 (.iterate 5) = .ok (0, s'') ∧ s''.emitted = s'.emitted ∧
    Admissible (ListState.exec 1 1) (fun s _ => s.kernel.fs.HasDirent 1 secondFile)
      ⟨(emptyImage 8 8).after threeFiles, 0, []⟩ skipRun ∧
    s'.kernel.fs.HasDirent 1 secondFile ∧ s'.emitted.count secondFile ≠ 1 := by
  obtain ⟨chain, h₀⟩ := threeFiles_inv
  have ha : Admissible (ListState.exec 1 1) (fun s ev => ev.Plain 1 s)
      ⟨(emptyImage 8 8).after threeFiles, 0, []⟩ skipRun := by decide +kernel
  obtain ⟨s', chain', hrun, hinv⟩ := h₀.run ha
  obtain ⟨s'', hlast, -⟩ := hinv.iterate (e := secondFile) 1 5
  have hdata : (match runAll (ListState.exec 1 1) ⟨(emptyImage 8 8).after threeFiles, 0, []⟩ skipRun
      with
      | .ok s => decide (s.kernel.fs.HasDirent 1 secondFile ∧ s.emitted.count secondFile = 0) &&
        match s.exec 1 1 (.iterate 5) with
        | .ok (_, s₁) => decide (s₁.emitted = s.emitted)
        | .error _ => false
      | .error _ => false) = true := by decide +kernel
  rw [hrun] at hdata
  simp only [hlast, Bool.and_eq_true, decide_eq_true_eq] at hdata
  refine ⟨s', s'', ha, hrun, hlast, hdata.2, by decide +kernel, hdata.1.1, ?_⟩
  rw [hdata.1.2]
  decide

/-- The last file is removed instead: nothing is skipped. -/
def keepRun : List ListEv :=
  [.iterate 3, .change (Op.unlink 1 [99] 4).call, .iterate 5]

theorem listing_run_keepRun : ∃ s' : ListState,
    runAll (ListState.exec 1 1) ⟨(emptyImage 8 8).after threeFiles, 0, []⟩ keepRun = .ok s' ∧
    s'.emitted.count secondFile = 1 := by
  obtain ⟨chain, h₀⟩ := threeFiles_inv
  have ha : Admissible (ListState.exec 1 1) (fun s ev => ev.Plain 1 s ∧
      ¬ev.Skips 1 ((emptyImage 8 8).after threeFiles).fs s)
      ⟨(emptyImage 8 8).after threeFiles, 0, []⟩ keepRun := by decide +kernel
  obtain ⟨s', hrun, hlist⟩ := listing_run (k := (emptyImage 8 8).after threeFiles) h₀.faults
    h₀.wf h₀.names h₀.dir ha
  obtain ⟨s'', hlast, hcount⟩ := hlist 5 (by decide)
  have hdata : (match runAll (ListState.exec 1 1) ⟨(emptyImage 8 8).after threeFiles, 0, []⟩ keepRun
      with
      | .ok s => decide (s.kernel.fs.HasDirent 1 secondFile) &&
        match s.exec 1 1 (.iterate 5) with
        | .ok (_, s₁) => decide (s₁.emitted = s.emitted)
        | .error _ => false
      | .error _ => false) = true := by decide +kernel
  rw [hrun] at hdata
  simp only [hlast, Bool.and_eq_true, decide_eq_true_eq] at hdata
  exact ⟨s', hrun, hcount hdata.2 secondFile (by decide +kernel) hdata.1⟩

end Runs

end Ouichefs
