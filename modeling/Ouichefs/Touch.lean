import Ouichefs.Run

/-!
# What the operations leave alone

The write functions and the release of storage touch one inode, and of it neither the mode nor the
link count; they touch neither the inode bitmap nor its counter.  This holds in every state, well
formed or not, and whether or not a call returns.  `Quiet` adds that the number of used slices does
not change: only the end of `write_small_file` and `delete_slice` change it.
-/

set_option autoImplicit false

namespace Ouichefs

/-- `k'` differs from `k` in no inode but `ino`, and there not in the mode or the link count. -/
structure Touch (ino : Nat) (k k' : Kernel) : Prop where
  faults : k.faults = [] → k'.faults = []
  geom : SameGeom k.fs.sbi k'.fs.sbi
  ifree : k'.fs.sbi.ifreeBitmap = k.fs.sbi.ifreeBitmap
  nrFreeInodes : k'.fs.sbi.nrFreeInodes = k.fs.sbi.nrFreeInodes
  others : ∀ i, i ≠ ino → k'.fs.icache i = k.fs.icache i
  cached : (k.fs.icache ino).isSome → (k'.fs.icache ino).isSome
  mode : (k'.inode ino).iMode = (k.inode ino).iMode
  nlink : (k'.inode ino).iNlink = (k.inode ino).iNlink

/-- Nor in the number of used slices. -/
structure Quiet (ino : Nat) (k k' : Kernel) : Prop extends Touch ino k k' where
  slices : k'.fs.sbi.nrUsedSlices = k.fs.sbi.nrUsedSlices

section Rules

variable {ino : Nat} {k k₁ k₂ : Kernel}

theorem Touch.refl (ino : Nat) (k : Kernel) : Touch ino k k :=
  ⟨id, .refl _, rfl, rfl, fun _ _ => rfl, id, rfl, rfl⟩

theorem Touch.trans (h : Touch ino k k₁) (h' : Touch ino k₁ k₂) : Touch ino k k₂ :=
  ⟨fun hf => h'.faults (h.faults hf), h.geom.trans h'.geom, h'.ifree.trans h.ifree,
    h'.nrFreeInodes.trans h.nrFreeInodes, fun i hi => (h'.others i hi).trans (h.others i hi),
    fun hc => h'.cached (h.cached hc), h'.mode.trans h.mode, h'.nlink.trans h.nlink⟩

theorem Touch.live (h : Touch ino k k₁) (i : Nat) : k₁.fs.Live i ↔ k.fs.Live i := by
  unfold Fs.Live
  rw [h.geom.nrInodes, h.ifree]

/-- No in-memory inode is lost. -/
theorem Touch.stays (h : Touch ino k k₁) (i : Nat) (hi : (k.fs.icache i).isSome) :
    (k₁.fs.icache i).isSome := by
  by_cases hin : i = ino
  · rw [hin]
    exact h.cached (hin ▸ hi)
  · rw [h.others i hin]
    exact hi

theorem Quiet.refl (ino : Nat) (k : Kernel) : Quiet ino k k := ⟨.refl _ _, rfl⟩

theorem Quiet.trans (h : Quiet ino k k₁) (h' : Quiet ino k₁ k₂) : Quiet ino k k₂ :=
  ⟨h.toTouch.trans h'.toTouch, h'.slices.trans h.slices⟩

/-- The state that a service leaves, once its answer is known. -/
theorem Quiet.to {α : Type} {p : α × Kernel} {a : α} (h : Quiet ino k p.2)
    (hp : p = (a, k₁)) : Quiet ino k k₁ := by
  rwa [hp] at h

/-- The state that a call leaves, once its outcome is known. -/
theorem Touch.run {α : Type} {o run : Outcome α} (h : Touch ino k o.kernel) (ho : o = run) :
    Touch ino k run.kernel := ho ▸ h

theorem Quiet.run {α : Type} {o run : Outcome α} (h : Quiet ino k o.kernel) (ho : o = run) :
    Quiet ino k run.kernel := ho ▸ h

/-! ### Kernel services -/

theorem Quiet.log (ino : Nat) (k : Kernel) (e : Event) : Quiet ino k (k.log e) :=
  ⟨⟨id, .refl _, rfl, rfl, fun _ _ => rfl, id, rfl, rfl⟩, rfl⟩

theorem Quiet.brelse (ino : Nat) (k : Kernel) (b : Nat) : Quiet ino k (k.brelse b) := .log _ _ _

theorem Quiet.setBlock (ino : Nat) (k : Kernel) (b : Nat) (nb : Block) :
    Quiet ino k (k.setBlock b nb) :=
  ⟨⟨id, .refl _, rfl, rfl, fun _ _ => rfl, id, rfl, rfl⟩, rfl⟩

theorem Quiet.dropFault (ino : Nat) (k : Kernel) {a : Answer} {rest : List Answer}
    (h : k.faults = a :: rest) : Quiet ino k { k with faults := rest } :=
  ⟨⟨fun hf => absurd (hf.symm.trans h) (by simp), .refl _, rfl, rfl, fun _ _ => rfl, id, rfl, rfl⟩,
    rfl⟩

theorem Quiet.setInode (ino : Nat) (k : Kernel) {ci : Inode} (hm : ci.iMode = (k.inode ino).iMode)
    (hn : ci.iNlink = (k.inode ino).iNlink) : Quiet ino k (k.setInode ino ci) := by
  have hself : (k.setInode ino ci).inode ino = ci := by simp [Kernel.inode]
  refine ⟨⟨id, .refl _, rfl, rfl, fun i hi => Function.update_of_ne hi _ _, fun _ => ?_, ?_, ?_⟩,
    rfl⟩
  · show (Function.update k.fs.icache ino (some ci) ino).isSome
    simp
  · rw [hself, hm]
  · rw [hself, hn]

theorem Touch.setInode (ino : Nat) (k : Kernel) {ci : Inode} (hm : ci.iMode = (k.inode ino).iMode)
    (hn : ci.iNlink = (k.inode ino).iNlink) : Touch ino k (k.setInode ino ci) :=
  (Quiet.setInode ino k hm hn).toTouch

theorem Quiet.sbBread (ino : Nat) (k : Kernel) (b : Nat) : Quiet ino k (k.sbBread b).2 := by
  unfold Kernel.sbBread
  split
  · exact .refl _ _
  · split
    · exact .log _ _ _
    · rename_i rest hf
      exact (Quiet.dropFault ino k hf).trans (.log _ _ _)
    · rename_i n rest hf
      exact .dropFault ino k hf

theorem Quiet.kmalloc (ino : Nat) (k : Kernel) : Quiet ino k k.kmalloc.2 := by
  unfold Kernel.kmalloc
  split
  · exact .refl _ _
  · rename_i rest hf
    exact .dropFault ino k hf
  · rename_i n rest hf
    exact .dropFault ino k hf

theorem Quiet.copyFromIter (ino : Nat) (k : Kernel) (n : Nat) (l : List UInt8) :
    Quiet ino k (k.copyFromIter n l).2 := by
  unfold Kernel.copyFromIter
  split
  · exact .refl _ _
  · rename_i rest hf
    exact .dropFault ino k hf
  · rename_i c rest hf
    exact .dropFault ino k hf

/-- A change of the superblock that spares inodes and the slice counter. -/
theorem Quiet.setSbi (ino : Nat) (k : Kernel) {sbi : SbInfo} (hg : SameGeom k.fs.sbi sbi)
    (hi : sbi.ifreeBitmap = k.fs.sbi.ifreeBitmap) (hn : sbi.nrFreeInodes = k.fs.sbi.nrFreeInodes)
    (hs : sbi.nrUsedSlices = k.fs.sbi.nrUsedSlices) : Quiet ino k (k.setSbi sbi) :=
  ⟨⟨id, hg, hi, hn, fun _ _ => rfl, id, rfl, rfl⟩, hs⟩

theorem Quiet.getFreeBlock (ino : Nat) (k : Kernel) : Quiet ino k k.getFreeBlock.2 := by
  have hset : Quiet ino k (k.setSbi k.fs.sbi.getFreeBlock.2) := by
    unfold SbInfo.getFreeBlock
    simp only
    split
    · exact .setSbi _ _ ⟨rfl, rfl, rfl, rfl, rfl⟩ rfl rfl rfl
    · exact .setSbi _ _ ⟨rfl, rfl, rfl, rfl, rfl⟩ rfl rfl rfl
  unfold Kernel.getFreeBlock
  simp only
  split
  · exact hset.trans (.log _ _ _)
  · exact hset

theorem Quiet.putBlock (ino : Nat) (k : Kernel) (b : Nat) : Quiet ino k (k.putBlock b) := by
  unfold Kernel.putBlock SbInfo.putBlock
  split
  · exact .setSbi _ _ (.refl _) rfl rfl rfl
  · exact .setSbi _ _ ⟨rfl, rfl, rfl, rfl, rfl⟩ rfl rfl rfl

end Rules

/-! ## Slices -/

section Slices

variable (ino : Nat) (k : Kernel)

theorem brelsePrev_quiet (prev : Option Nat) : Quiet ino k (brelsePrev k prev) := by
  cases prev with
  | none => exact .refl _ _
  | some p => exact .brelse _ _ _

theorem allocateAndInitSliceBlock_quiet : Quiet ino k (allocateAndInitSliceBlock k).2 := by
  cases (allocateAndInitSliceBlock_exits k).1 rfl with
  | noBlock hget hb eq =>
      rw [eq]
      exact ((Quiet.getFreeBlock ino k).to hget).trans (.putBlock _ _ _)
  | unread hget hb hread eq =>
      rw [eq]
      have hr := ((Quiet.getFreeBlock ino k).to hget).trans ((Quiet.sbBread _ _ _).to hread)
      exact hr.trans (.putBlock _ _ _)
  | initialised hget hb hread eq =>
      rw [eq]
      have hr := ((Quiet.getFreeBlock ino k).to hget).trans ((Quiet.sbBread _ _ _).to hread)
      exact (hr.trans (.setBlock _ _ _ _)).trans
        (.setSbi _ _ ⟨rfl, rfl, rfl, rfl, rfl⟩ rfl rfl rfl)

theorem getConsequitiveFreeSlices_quiet (b size : Nat) :
    Quiet ino k (getConsequitiveFreeSlices k b ino size).2 := by
  unfold getConsequitiveFreeSlices
  split
  · exact .refl _ _
  · simp only
    split
    · exact .refl _ _
    · exact (Quiet.setBlock ino k b _).trans (.setInode _ _ rfl rfl)

theorem pruneChain_quiet : ∀ (fuel : Nat) (k : Kernel) (cur : Nat) (prev : Option Nat),
    Quiet ino k (pruneChain fuel k cur prev).kernel := by
  intro fuel
  induction fuel with
  | zero =>
      intro k cur prev
      cases cur with
      | zero => exact brelsePrev_quiet _ _ _
      | succ cur => exact .refl _ _
  | succ fuel ih =>
      intro k cur prev
      cases cur with
      | zero => exact brelsePrev_quiet _ _ _
      | succ cur =>
          have hb := Quiet.sbBread ino k (cur + 1)
          unfold pruneChain
          split
          · rename_i h
            rw [h] at hb
            exact hb.trans (brelsePrev_quiet _ _ _)
          · rename_i k₁ h
            rw [h] at hb
            simp only
            split
            · refine Quiet.trans ?_ (ih _ _ _)
              refine hb.trans (Quiet.trans ?_ (.brelse _ _ _))
              refine Quiet.trans ?_ (.putBlock _ _ _)
              refine Quiet.trans ?_ (.setBlock _ _ _ _)
              refine Quiet.trans ?_ (.setSbi _ _ ⟨rfl, rfl, rfl, rfl, rfl⟩ rfl rfl rfl)
              cases prev with
              | none => exact .setSbi _ _ ⟨rfl, rfl, rfl, rfl, rfl⟩ rfl rfl rfl
              | some p => exact .setBlock _ _ _ _
            · exact (hb.trans (brelsePrev_quiet _ _ _)).trans (ih _ _ _)

/-- `delete_slice` takes the slices off the counter. -/
theorem deleteSlice_touch (bno s n : Nat) : Touch ino k (deleteSlice k bno s n).kernel := by
  cases (deleteSlice_exits k bno s n).1 rfl with
  | nothing h eq =>
      rw [eq]
      exact .refl _ _
  | unread hb hn hread eq =>
      rw [eq]
      exact ((Quiet.sbBread _ _ _).to hread).toTouch
  | walked hb hn hread eq =>
      rw [eq]
      refine ((Quiet.sbBread ino _ _).to hread).toTouch.trans
        (Touch.trans ?_ (pruneChain_quiet ino _ _ _ _).toTouch)
      exact ⟨id, ⟨rfl, rfl, rfl, rfl, rfl⟩, rfl, rfl, fun _ _ => rfl, id, rfl, rfl⟩

theorem deleteSlice_slices {k : Kernel} {bno s n : Nat} (h0 : bno ≠ 0) (hn : n ≠ 0)
    (hf : k.faults = []) (hb : bno < k.fs.sbi.nrBlocks) :
    (deleteSlice k bno s n).kernel.fs.sbi.nrUsedSlices = sub32 k.fs.sbi.nrUsedSlices n := by
  rw [(deleteSlice_exits k bno s n).2 (.walked h0 hn (Kernel.sbBread_ok hf hb) rfl),
    (pruneChain_quiet 0 _ _ _ _).slices]
  rfl

theorem deleteSliceAndClearInode_touch : Touch ino k (deleteSliceAndClearInode k ino).kernel := by
  have hd := deleteSlice_touch ino k (k.inode ino).getBno (k.inode ino).getSlice
    (k.inode ino).numSlices
  unfold deleteSliceAndClearInode
  simp only
  split
  · rename_i e h
    rw [h] at hd
    exact hd
  · rename_i ret k₁ h
    rw [h] at hd
    split
    · exact hd
    · exact hd.trans (.setInode _ _ rfl rfl)

end Slices

/-! ## Small writes -/

section Small

variable (ino : Nat) (k : Kernel)

theorem searchChain_quiet (size : Nat) : ∀ (fuel : Nat) (k : Kernel) (cur : Nat),
    Quiet ino k (searchChain fuel k ino size cur).kernel := by
  intro fuel
  induction fuel with
  | zero => exact fun k cur => .refl _ _
  | succ fuel ih =>
      intro k cur
      have hg := getConsequitiveFreeSlices_quiet ino k cur size
      cases (searchChain_exits fuel k ino size cur).1 rfl with
      | found hs hget eq =>
          rw [eq]
          rwa [hget] at hg
      | noBlock hget hnext halloc hret eq =>
          rw [eq]
          rw [hget] at hg
          exact (hg.trans ((allocateAndInitSliceBlock_quiet ino _).to halloc)).trans
            (.brelse _ _ _)
      | linked hget hnext halloc hret eq =>
          rw [eq]
          rw [hget] at hg
          refine (hg.trans ((allocateAndInitSliceBlock_quiet ino _).to halloc)).trans
            (Quiet.trans ?_ (ih _ _))
          exact (Quiet.setBlock _ _ _ _).trans (.brelse _ _ _)
      | unread hget hnext hread eq =>
          rw [eq]
          rw [hget] at hg
          exact (hg.trans ((Quiet.sbBread _ _ _).to hread)).trans
            ((Quiet.brelse _ _ _).trans (.brelse _ _ _))
      | next hget hnext hread eq =>
          rw [eq]
          rw [hget] at hg
          exact (hg.trans ((Quiet.sbBread _ _ _).to hread)).trans
            ((Quiet.brelse _ _ _).trans (ih _ _))

theorem placeSlices_quiet (size : Nat) : Quiet ino k (placeSlices k ino size).kernel := by
  cases (placeSlices_exits k ino size).1 rfl with
  | noBlock hhead halloc hret eq =>
      rw [eq]
      exact (allocateAndInitSliceBlock_quiet ino k).to halloc
  | badHead hhead halloc hret hneg eq =>
      rw [eq]
      exact ((allocateAndInitSliceBlock_quiet ino k).to halloc).trans
        (.setSbi _ _ ⟨rfl, rfl, rfl, rfl, rfl⟩ rfl rfl rfl)
  | newHead hhead halloc hret hpos eq =>
      rw [eq]
      refine ((allocateAndInitSliceBlock_quiet ino k).to halloc).trans
        (Quiet.trans ?_ (searchChain_quiet ino _ _ _ _))
      exact .setSbi _ _ ⟨rfl, rfl, rfl, rfl, rfl⟩ rfl rfl rfl
  | unread hhead hread eq =>
      rw [eq]
      exact (Quiet.sbBread _ _ _).to hread
  | searched hhead hread eq =>
      rw [eq]
      exact ((Quiet.sbBread _ _ _).to hread).trans (searchChain_quiet ino _ _ _ _)

/-- `allocate_and_init_slice_block` returns a block number or one of two errors. -/
theorem allocateAndInitSliceBlock_range : (allocateAndInitSliceBlock k).1 = -ENOSPC ∨
    (allocateAndInitSliceBlock k).1 = - EIO ∨
      0 < (allocateAndInitSliceBlock k).1 ∧ (allocateAndInitSliceBlock k).1 ≤ 134217728 := by
  cases (allocateAndInitSliceBlock_exits k).1 rfl with
  | noBlock hget hb eq =>
      rw [eq]
      exact Or.inl rfl
  | unread hget hb hread eq =>
      rw [eq]
      exact Or.inr (Or.inl rfl)
  | initialised hget hb hread eq =>
      rw [eq]
      exact Or.inr (Or.inr ⟨by simp only; omega, by simp only; omega⟩)

theorem allocateAndInitSliceBlock_neg (h : (allocateAndInitSliceBlock k).1 ≤ 0) :
    (allocateAndInitSliceBlock k).1 < 0 := by
  rcases allocateAndInitSliceBlock_range k with he | he | he
  · rw [he]
    decide
  · rw [he]
    decide
  · omega

theorem getConsequitiveFreeSlices_lt (b size : Nat) :
    (getConsequitiveFreeSlices k b ino size).1 < 32 := by
  by_cases hsize : 3968 < size
  · rw [getConsequitiveFreeSlices_large _ _ _ hsize]
    exact Nat.succ_pos 31
  rcases getConsequitiveFreeSlices_cases k b ino (Nat.not_lt.1 hsize) with ⟨s, hs, he⟩ | ⟨-, he⟩
  · rw [he]
    -- a run of no slices is found at slice 1
    have hone : divRoundUp size 128 = 0 → s ≤ 1 := fun h0 => by
      by_contra hlt
      refine hs.least 1 (Nat.le_refl 1) (by omega) ?_
      intro j h1 h2
      omega
    have hfits := hs.fits
    show s < 32
    omega
  · rw [he]
    exact Nat.succ_pos 31

/-- What a search may end with: a slice of a sliced block, or an error number. -/
def ValidPlace : Except Int (Nat × Nat) → Prop
  | .ok (_, slice) => 1 ≤ slice ∧ slice < 32
  | .error e => e < 0

theorem searchChain_valid (size : Nat) : ∀ (fuel : Nat) (k k' : Kernel) (cur : Nat)
    (r : Except Int (Nat × Nat)), searchChain fuel k ino size cur = .ok (r, k') →
    ValidPlace r := by
  intro fuel
  induction fuel with
  | zero => intro k k' cur r h; cases h
  | succ fuel ih =>
      intro k k' cur r h
      cases (searchChain_exits fuel k ino size cur).1 h with
      | found hs hget eq =>
          have hlt := getConsequitiveFreeSlices_lt ino k cur size
          rw [hget] at hlt
          cases eq
          exact ⟨Nat.pos_of_ne_zero hs, hlt⟩
      | noBlock hget hnext halloc hret eq =>
          have hneg := allocateAndInitSliceBlock_neg _ (by rw [halloc]; exact hret)
          rw [halloc] at hneg
          cases eq
          exact hneg
      | linked hget hnext halloc hret eq => exact ih _ _ _ _ eq.symm
      | unread hget hnext hread eq =>
          cases eq
          show - EIO < 0
          decide
      | next hget hnext hread eq => exact ih _ _ _ _ eq.symm

theorem placeSlices_valid {size : Nat} {r : Except Int (Nat × Nat)} {k' : Kernel}
    (h : placeSlices k ino size = .ok (r, k')) : ValidPlace r := by
  cases (placeSlices_exits k ino size).1 h with
  | noBlock hhead halloc hret eq =>
      have hrange := allocateAndInitSliceBlock_range k
      rw [halloc] at hrange
      simp only [ENOSPC, EIO] at hrange
      omega
  | badHead hhead halloc hret hneg eq => cases eq
  | newHead hhead halloc hret hpos eq => exact searchChain_valid ino _ _ _ _ _ _ eq.symm
  | unread hhead hread eq =>
      cases eq
      show - EIO < 0
      decide
  | searched hhead hread eq => exact searchChain_valid ino _ _ _ _ _ _ eq.symm

/-- An error of the search is a negative number. -/
theorem placeSlices_error {size : Nat} {e : Int} {k' : Kernel}
    (h : placeSlices k ino size = .ok (.error e, k')) : e < 0 := placeSlices_valid ino k h

theorem copyToSlices_touch (iocb : Kiocb) (data : List UInt8) (pos size b s : Nat) :
    Touch ino k (copyToSlices k ino iocb data pos size b s).kernel := by
  cases (copyToSlices_exits k ino iocb data pos size b s).1 rfl with
  | fault hcopy hlen eq =>
      rw [eq]
      exact (((Quiet.copyFromIter ino k _ _).to hcopy).trans (Quiet.trans (.setBlock _ _ _ _)
        ((Quiet.brelse _ _ _).trans (.brelse _ _ _)))).toTouch
  | copied hcopy hlen eq =>
      rw [eq]
      refine ((Quiet.copyFromIter ino k _ _).to hcopy).toTouch.trans
        (Touch.trans ?_ (.setInode _ _ rfl rfl))
      exact ⟨id, ⟨rfl, rfl, rfl, rfl, rfl⟩, rfl, rfl, fun _ _ => rfl, id, rfl, rfl⟩

/-- The end of `write_small_file` returns an error, or the inode has its slices. -/
theorem copyToSlices_result {iocb io : Kiocb} {data : List UInt8} {pos size b s : Nat} {r : Int}
    {k' : Kernel} (h : copyToSlices k ino iocb data pos size b s = .ok ((r, io), k')) :
    r < 0 ∨ r = data.length ∧ io = { iocb with kiPos := pos } ∧
      (k'.inode ino).indexBlock = add32 (32 * b) s ∧ (k'.inode ino).iSize = size ∧
      k'.fs.sbi.nrUsedSlices = add32 k.fs.sbi.nrUsedSlices (divRoundUp size 128) := by
  cases (copyToSlices_exits k ino iocb data pos size b s).1 h with
  | fault hcopy hlen eq =>
      cases eq
      exact Or.inl (by decide)
  | copied hcopy hlen eq =>
      have hc := ((Quiet.copyFromIter ino k _ _).to hcopy).slices
      cases eq
      refine Or.inr ⟨rfl, rfl, by simp [Kernel.inode], by simp [Kernel.inode], ?_⟩
      rw [← hc]
      rfl

theorem writeSmallFileNew_touch (iocb : Kiocb) (data : List UInt8) :
    Touch ino k (writeSmallFileNew k ino iocb data).kernel := by
  cases (writeSmallFileNew_exits k ino iocb data).1 rfl with
  | stopped hplace eq =>
      rw [eq]
      exact ((placeSlices_quiet ino k _).run hplace).toTouch
  | noPlace hplace eq =>
      rw [eq]
      exact ((placeSlices_quiet ino k _).run hplace).toTouch
  | placed hplace eq =>
      rw [eq]
      exact ((placeSlices_quiet ino k _).run hplace).toTouch.trans
        (copyToSlices_touch _ _ _ _ _ _ _ _)

theorem writeSmallFileNew_slices {iocb io : Kiocb} {data : List UInt8} {r : Int} {k' : Kernel}
    (h : writeSmallFileNew k ino iocb data = .ok ((r, io), k')) (hr : 0 < r) :
    k'.fs.sbi.nrUsedSlices = add32 k.fs.sbi.nrUsedSlices
      (divRoundUp (max (iocb.startPos (k.inode ino) + data.length) (k.inode ino).iSize) 128) := by
  cases (writeSmallFileNew_exits k ino iocb data).1 h with
  | stopped hplace eq => cases eq
  | noPlace hplace eq =>
      cases eq
      exact absurd hr (Int.not_lt.2 (Int.le_of_lt (placeSlices_error ino k hplace)))
  | placed hplace eq =>
      have hp := ((placeSlices_quiet ino k _).run hplace).slices
      rcases copyToSlices_result ino _ eq.symm with hneg | ⟨-, -, -, -, hused⟩
      · omega
      · rw [hused]
        exact congrArg (add32 · _) hp

/-- A first write leaves the position where it started. -/
theorem writeSmallFileNew_kiPos {iocb io : Kiocb} {data : List UInt8} {r : Int} {k' : Kernel}
    (h : writeSmallFileNew k ino iocb data = .ok ((r, io), k')) :
    r < 0 ∨ io.kiPos = iocb.startPos (k.inode ino) := by
  cases (writeSmallFileNew_exits k ino iocb data).1 h with
  | stopped hplace eq => cases eq
  | noPlace hplace eq =>
      cases eq
      exact Or.inl (placeSlices_error ino k hplace)
  | placed hplace eq =>
      rcases copyToSlices_result ino _ eq.symm with hneg | ⟨-, hio, -⟩
      · exact Or.inl hneg
      · rw [hio]
        exact Or.inr rfl

theorem finishRelocation_touch {old : Inode} {pos count : Nat} {run : Outcome (Int × Kiocb)}
    (hr : Touch ino k run.kernel) :
    Touch ino k (finishRelocation old ino pos count run).kernel := by
  cases (finishRelocation_exits old ino pos count run).1 rfl with
  | stopped hrun eq =>
      rw [eq]
      exact hr.run hrun
  | kept hrun hret eq =>
      rw [eq]
      exact (hr.run hrun).trans (.setInode _ _ rfl rfl)
  | stuck hrun hret hdel eq =>
      rw [eq]
      exact (hr.run hrun).trans ((deleteSlice_touch _ _ _ _ _).run hdel)
  | moved hrun hret hdel eq =>
      rw [eq]
      exact (hr.run hrun).trans ((deleteSlice_touch _ _ _ _ _).run hdel)

/-- The inode lets go of its slices. -/
theorem Relocates.touch {iocb : Kiocb} {data : List UInt8} {k₁ : Kernel}
    (h : Relocates k ino iocb data k₁) :
    Touch ino k (k₁.setInode ino (k.inode ino).detached) := by
  have hb := ((Quiet.sbBread ino k _).to h.read).toTouch
  exact hb.trans (.setInode _ _ hb.mode.symm hb.nlink.symm)

theorem rewriteSmallFile_touch (iocb : Kiocb) (data : List UInt8) :
    Touch ino k (rewriteSmallFile k ino iocb data).kernel := by
  cases (rewriteSmallFile_exits k ino iocb data).1 rfl with
  | noSlices hn eq =>
      rw [eq]
      exact .refl _ _
  | noPlace hn hb eq =>
      rw [eq]
      exact .refl _ _
  | unread hn hb hread eq =>
      rw [eq]
      exact ((Quiet.sbBread ino k _).to hread).toTouch
  | inPlace hn hb hread hsame eq =>
      rw [eq]
      exact ((Quiet.sbBread ino k _).to hread).toTouch.trans (copyToSlices_touch _ _ _ _ _ _ _ _)
  | fromStart h hpos eq =>
      rw [eq]
      exact finishRelocation_touch ino k ((h.touch).trans (writeSmallFileNew_touch _ _ _ _))
  | noCopy h hpos hmalloc eq =>
      rw [eq]
      exact h.touch.trans (((Quiet.kmalloc _ _).to hmalloc).trans (.brelse _ _ _)).toTouch
  | fault h hpos hmalloc hcopy hlen eq =>
      rw [eq]
      exact h.touch.trans ((((Quiet.kmalloc _ _).to hmalloc).trans
        ((Quiet.copyFromIter _ _ _ _).to hcopy)).trans (.brelse _ _ _)).toTouch
  | noBuffer h hpos hmalloc hcopy hlen hmalloc' eq =>
      rw [eq]
      exact h.touch.trans (((((Quiet.kmalloc _ _).to hmalloc).trans
        ((Quiet.copyFromIter _ _ _ _).to hcopy)).trans ((Quiet.kmalloc _ _).to hmalloc')).trans
          (.brelse _ _ _)).toTouch
  | combined h hpos hmalloc hcopy hlen hmalloc' eq =>
      rw [eq]
      refine finishRelocation_touch ino k (Touch.trans ?_ (writeSmallFileNew_touch _ _ _ _))
      exact h.touch.trans ((((Quiet.kmalloc _ _).to hmalloc).trans
        ((Quiet.copyFromIter _ _ _ _).to hcopy)).trans ((Quiet.kmalloc _ _).to hmalloc')).toTouch

/-- A write in place leaves the position where it started. -/
theorem rewriteSmallFile_kiPos {iocb io : Kiocb} {data : List UInt8} {r : Int} {k' : Kernel}
    (hn : (k.inode ino).numSlices =
      divRoundUp (max (iocb.startPos (k.inode ino) + data.length) (k.inode ino).iSize) 128)
    (h : rewriteSmallFile k ino iocb data = .ok ((r, io), k')) :
    r < 0 ∨ io.kiPos = iocb.startPos (k.inode ino) := by
  have herr : ∀ {k₁ : Kernel}, (.ok ((r, io), k') : Outcome (Int × Kiocb)) =
      .ok ((- EIO, iocb), k₁) → r < 0 := by
    intro k₁ he
    cases he
    decide
  cases (rewriteSmallFile_exits k ino iocb data).1 h with
  | noSlices hn eq => exact Or.inl (herr eq)
  | noPlace hn hb eq => exact Or.inl (herr eq)
  | unread hn hb hread eq => exact Or.inl (herr eq)
  | inPlace hn hb hread hsame eq =>
      rcases copyToSlices_result ino _ eq.symm with hneg | ⟨-, hio, -⟩
      · exact Or.inl hneg
      · rw [hio]
        exact Or.inr rfl
  | fromStart h | noCopy h | fault h | noBuffer h | combined h => exact absurd hn h.moves

theorem writeSmallFile_touch (iocb : Kiocb) (data : List UInt8) :
    Touch ino k (writeSmallFile k ino iocb data).kernel := by
  unfold writeSmallFile
  split
  · exact writeSmallFileNew_touch _ _ _ _
  · exact rewriteSmallFile_touch _ _ _ _

end Small

/-! ## Big writes -/

section Big

variable (ino : Nat) (k : Kernel)

theorem getDataBlock_quiet (idx i : Nat) : Quiet ino k (getDataBlock k idx i).2 := by
  unfold getDataBlock
  simp only
  split
  · have hb := Quiet.getFreeBlock ino k
    split
    · rename_i h
      rw [h] at hb
      exact hb
    · rename_i h
      rw [h] at hb
      exact hb.trans (.setBlock _ _ _ _)
  · exact .refl _ _

theorem writeBigLoop_quiet (iSize idx : Nat) : ∀ (fuel : Nat) (k : Kernel) (pos : Nat)
    (data : List UInt8), Quiet ino k (writeBigLoop iSize idx fuel k pos data).kernel := by
  intro fuel
  induction fuel with
  | zero =>
      intro k pos data
      cases data <;> exact .refl _ _
  | succ fuel ih =>
      intro k pos data
      cases data with
      | nil => exact .refl _ _
      | cons x xs =>
          have hg := getDataBlock_quiet ino k idx (pos / 4096)
          cases (writeBigLoop_exits iSize idx fuel k pos x xs).1 rfl with
          | tooBig hpos eq =>
              rw [eq]
              exact .refl _ _
          | noBlock hpos hblock eq =>
              rw [eq]
              rwa [hblock] at hg
          | unread hpos hblock hread eq =>
              rw [eq]
              rw [hblock] at hg
              exact hg.trans ((Quiet.sbBread _ _ _).to hread)
          | fault hpos hblock hread hcopy hlen eq =>
              rw [eq]
              rw [hblock] at hg
              have hb := hg.trans ((Quiet.sbBread _ _ _).to hread)
              have hc := (hb.trans (.setBlock _ _ _ _)).trans
                ((Quiet.copyFromIter _ _ _ _).to hcopy)
              exact (hc.trans (.setBlock _ _ _ _)).trans
                ((Quiet.brelse _ _ _).trans (.brelse _ _ _))
          | copied hpos hblock hread hcopy hlen eq =>
              rw [eq]
              rw [hblock] at hg
              have hb := hg.trans ((Quiet.sbBread _ _ _).to hread)
              have hc := (hb.trans (.setBlock _ _ _ _)).trans
                ((Quiet.copyFromIter _ _ _ _).to hcopy)
              exact (hc.trans (.setBlock _ _ _ _)).trans ((Quiet.brelse _ _ _).trans (ih _ _ _))

theorem ensureIndexBlock_quiet : Quiet ino k (ensureIndexBlock k ino).2 := by
  cases (ensureIndexBlock_exits k ino).1 rfl with
  | kept h0 eq =>
      rw [eq]
      exact .refl _ _
  | noBlock h0 hget eq =>
      rw [eq]
      exact (Quiet.getFreeBlock _ _).to hget
  | new h0 hget eq =>
      rw [eq]
      exact ((Quiet.getFreeBlock _ _).to hget).trans (.setInode _ _ rfl rfl)

theorem writeBigFile_quiet (iocb : Kiocb) (data : List UInt8) :
    Quiet ino k (writeBigFile k ino iocb data).kernel := by
  have he := ensureIndexBlock_quiet ino k
  cases (writeBigFile_exits k ino iocb data).1 rfl with
  | noIndex hindex eq =>
      rw [eq]
      rwa [hindex] at he
  | noSpace hindex hspace eq =>
      rw [eq]
      rwa [hindex] at he
  | unread hindex hspace hread eq =>
      rw [eq]
      rw [hindex] at he
      exact he.trans ((Quiet.sbBread _ _ _).to hread)
  | stopped hindex hspace hread hloop eq =>
      rw [eq]
      rw [hindex] at he
      exact (he.trans ((Quiet.sbBread _ _ _).to hread)).trans
        ((writeBigLoop_quiet ino _ _ _ _ _ _).run hloop)
  | failed hindex hspace hread hloop eq =>
      rw [eq]
      rw [hindex] at he
      exact ((he.trans ((Quiet.sbBread _ _ _).to hread)).trans
        ((writeBigLoop_quiet ino _ _ _ _ _ _).run hloop)).trans (.brelse _ _ _)
  | written hindex hspace hread hloop eq =>
      rw [eq]
      rw [hindex] at he
      refine ((he.trans ((Quiet.sbBread _ _ _).to hread)).trans
        ((writeBigLoop_quiet ino _ _ _ _ _ _).run hloop)).trans (Quiet.trans ?_ (.brelse _ _ _))
      exact .setInode _ _ rfl rfl

theorem finishConversion_touch {old : Inode} {oldPos writePos count : Nat} {iocb : Kiocb}
    {run : Outcome (Int × Kiocb)} (hr : Touch ino k run.kernel) :
    Touch ino k (finishConversion old ino oldPos writePos count iocb run).kernel := by
  cases (finishConversion_exits old ino oldPos writePos count iocb run).1 rfl with
  | stopped hrun eq =>
      rw [eq]
      exact hr.run hrun
  | restored hrun hret eq =>
      rw [eq]
      exact (hr.run hrun).trans (.setInode _ _ rfl rfl)
  | stuck hrun hret hdel eq =>
      rw [eq]
      exact (hr.run hrun).trans ((deleteSlice_touch _ _ _ _ _).run hdel)
  | converted hrun hret hdel eq =>
      rw [eq]
      exact (hr.run hrun).trans ((deleteSlice_touch _ _ _ _ _).run hdel)

theorem convertSmallToBig_touch (iocb : Kiocb) (data : List UInt8) :
    Touch ino k (convertSmallToBig k ino iocb data).kernel := by
  cases (convertSmallToBig_exits k ino iocb data).1 rfl with
  | unread hread eq =>
      rw [eq]
      exact ((Quiet.sbBread ino k _).to hread).toTouch
  | noCopy hread hmalloc eq =>
      rw [eq]
      exact ((((Quiet.sbBread ino k _).to hread).trans ((Quiet.kmalloc _ _).to hmalloc)).trans
        (.brelse _ _ _)).toTouch
  | fault hread hmalloc hcopy hlen eq =>
      rw [eq]
      exact (((((Quiet.sbBread ino k _).to hread).trans ((Quiet.kmalloc _ _).to hmalloc)).trans
        (.brelse _ _ _)).trans ((Quiet.copyFromIter _ _ _ _).to hcopy)).toTouch
  | noBuffer hread hmalloc hcopy hlen hmalloc' eq =>
      rw [eq]
      exact ((((((Quiet.sbBread ino k _).to hread).trans ((Quiet.kmalloc _ _).to hmalloc)).trans
        (.brelse _ _ _)).trans ((Quiet.copyFromIter _ _ _ _).to hcopy)).trans
          ((Quiet.kmalloc _ _).to hmalloc')).toTouch
  | combined hread hmalloc hcopy hlen hmalloc' eq =>
      rw [eq]
      have hm := ((((((Quiet.sbBread ino k _).to hread).trans
        ((Quiet.kmalloc _ _).to hmalloc)).trans (.brelse _ _ _)).trans
          ((Quiet.copyFromIter _ _ _ _).to hcopy)).trans ((Quiet.kmalloc _ _).to hmalloc')).toTouch
      refine finishConversion_touch ino k (Touch.trans ?_ (writeBigFile_quiet _ _ _ _).toTouch)
      exact hm.trans (.setInode _ _ hm.mode.symm hm.nlink.symm)

/-- **A write touches only the inode it writes to.** -/
theorem customWriteIter_touch (iocb : Kiocb) (data : List UInt8) :
    Touch ino k (customWriteIter k ino iocb data).kernel := by
  unfold customWriteIter
  simp only
  split
  · split
    · exact writeSmallFile_touch _ _ _ _
    · exact (writeBigFile_quiet _ _ _ _).toTouch
  · split
    · exact (writeBigFile_quiet _ _ _ _).toTouch
    · split
      · exact writeSmallFile_touch _ _ _ _
      · exact convertSmallToBig_touch _ _ _ _

end Big

/-! ## Removal -/

section Removal

variable (ino : Nat)

theorem releaseData_quiet (idx : Nat) : ∀ (n i : Nat) (k : Kernel),
    Quiet ino k (releaseData idx n i k).kernel := by
  intro n
  induction n with
  | zero => exact fun i k => .refl _ _
  | succ n ih =>
      intro i k
      unfold releaseData
      simp only
      split
      · exact .refl _ _
      split
      · exact ih _ _
      · have hb := Quiet.sbBread ino k (indexPtr (k.fs.disk idx) i)
        split
        · rename_i h
          rw [h] at hb
          exact (hb.trans (.putBlock _ _ _)).trans (ih _ _)
        · rename_i h
          rw [h] at hb
          refine hb.trans (Quiet.trans ?_ (ih _ _))
          exact (Quiet.setBlock _ _ _ _).trans ((Quiet.brelse _ _ _).trans (.putBlock _ _ _))

theorem releaseStorage_touch (k : Kernel) : Touch ino k (releaseStorage k ino).kernel := by
  unfold releaseStorage
  simp only
  split
  · have hd := deleteSliceAndClearInode_touch ino k
    split
    · rename_i h
      rw [h] at hd
      exact hd
    · rename_i h
      rw [h] at hd
      exact hd
  · split
    · exact .refl _ _
    · have hb := Quiet.sbBread ino k (k.inode ino).indexBlock
      split
      · rename_i h
        rw [h] at hb
        exact hb.toTouch
      · rename_i k₁ h
        rw [h] at hb
        split
        · exact (hb.trans ((Quiet.setBlock _ _ _ _).trans (.brelse _ _ _))).toTouch
        · have hr := hb.trans (releaseData_quiet ino (k.inode ino).indexBlock
            (pred64 (k.inode ino).iBlocks) 0 k₁)
          split
          · rename_i h₂
            rw [h₂] at hr
            exact hr.toTouch
          · rename_i h₂
            rw [h₂] at hr
            exact (hr.trans ((Quiet.setBlock _ _ _ _).trans (.brelse _ _ _))).toTouch

end Removal

end Ouichefs
