import Ouichefs.BufferRefs

/-!
# Buffer references of a first write

`write_small_file` on a file without slices holds the block in which it looks for them.  When it
goes behind the head of the chain and cannot read the next block, it releases the held one twice.

* `PlaceBreaks`: the states in which some answers make it release a buffer twice.
* `writeSmallFileNew_refs`, `writeSmallFileNew_refs_cut`: in these, and in no others.
* `writeSmallFileNew_refs_ok`: without failures, in none.
-/

set_option autoImplicit false

namespace Ouichefs

/-- A block can be had for slices. -/
def Fs.SliceBlockFree (fs : Fs) : Prop :=
  fs.sbi.getFreeBlock.1 ≠ 0 ∧ fs.sbi.getFreeBlock.1 ≤ 134217728

/-- A first write of `len` bytes that needs `n` slices releases a buffer once too often, for some
answers. -/
def Fs.PlaceBreaks (fs : Fs) (n len : Nat) : Prop :=
  let head := fs.sbi.sFreeSlicedBlocks
  if head = 0 then 0 < len ∧ fs.SliceBlockFree
  else head < fs.sbi.nrBlocks ∧ (¬NoRun (sliceBitmap (fs.disk head)) n ∧ 0 < len ∨
    NoRun (sliceBitmap (fs.disk head)) n ∧ (fs.next head ≠ 0 ∨ 0 < len ∧ fs.SliceBlockFree))

section Place

variable {fs : Fs} {k : Kernel} {ino size fuel cur : Nat}

/-- No block for slices. -/
theorem allocateAndInitSliceBlock_none (h : ¬k.fs.SliceBlockFree) :
    ∃ k', allocateAndInitSliceBlock k = (-ENOSPC, k') ∧ k'.refOps = k.refOps := by
  have hops := Kernel.refOps_getFreeBlock k
  have hfst := Kernel.getFreeBlock_fst k
  unfold Fs.SliceBlockFree at h
  rw [← hfst] at h
  rcases hget : k.getFreeBlock with ⟨b, k₁⟩
  rw [hget] at h hops
  exact ⟨_, (allocateAndInitSliceBlock_exits k).2 (.noBlock hget (by simp only at h; omega) rfl),
    hops⟩

/-- A new block for slices, or none because it cannot be read. -/
theorem allocateAndInitSliceBlock_refs (h : k.fs.SliceBlockFree) :
    (Failing k.faults ∧ ∃ k', allocateAndInitSliceBlock k = (- EIO, k') ∧ k'.refOps = k.refOps) ∨
    (¬Failing k.faults ∧ ∃ (b : Nat) (k' : Kernel), allocateAndInitSliceBlock k = ((b : Int), k') ∧
      0 < b ∧ b ≤ 134217728 ∧ sliceBitmap (k'.fs.disk b) = bitmapAllFree ∧
      k'.refOps = k.refOps ++ [(b, true)] ∧ k'.faults = k.faults.tail) := by
  have hops := Kernel.refOps_getFreeBlock k
  have hfst := Kernel.getFreeBlock_fst k
  have hfaults := Kernel.faults_getFreeBlock k
  have hblocks := (Quiet.getFreeBlock 0 k).geom.nrBlocks
  have hlt := SbInfo.getFreeBlock_lt h.1
  unfold Fs.SliceBlockFree at h
  rw [← hfst] at h hlt
  rcases hget : k.getFreeBlock with ⟨b, k₁⟩
  rw [hget] at h hops hfaults hblocks hlt
  have hb : ¬(b = 0 ∨ b > 134217728) := by
    simp only at h
    omega
  simp only at hfaults hblocks hlt hops
  have hread := Kernel.refOps_sbBread k₁ b
  by_cases hfail : Failing k.faults
  · left
    obtain ⟨k₂, hbread, -⟩ := @Kernel.sbBread_failing k₁ b (hfaults ▸ hfail)
    rw [hbread] at hread
    refine ⟨hfail, _, (allocateAndInitSliceBlock_exits k).2 (.unread hget hb hbread rfl), ?_⟩
    rw [Kernel.refOps_putBlock, hread, ← hops]
    simp
  · right
    obtain ⟨k₂, hbread, -, hrest⟩ := @Kernel.sbBread_answered k₁ b (by omega) (hfaults ▸ hfail)
    rw [hbread] at hread
    refine ⟨hfail, b, _, (allocateAndInitSliceBlock_exits k).2 (.initialised hget hb hbread rfl),
      by omega, by omega, by simp, ?_, ?_⟩
    · simp only [Kernel.refOps_setSbi, Kernel.refOps_setBlock]
      rw [hread, ← hops]
      simp
    · simp only [Kernel.faults_setSbi, Kernel.faults_setBlock]
      rw [hrest, hfaults]

theorem getConsequitiveFreeSlices_noRun (cur ino : Nat) (h2 : size ≤ 3968)
    (hno : NoRun (sliceBitmap (k.fs.disk cur)) (divRoundUp size 128)) :
    getConsequitiveFreeSlices k cur ino size = (0, k) := by
  rcases getConsequitiveFreeSlices_cases k cur ino h2 with ⟨s, hs, -⟩ | ⟨-, heq⟩
  · exact absurd hs.run (hno s hs.pos hs.fits)
  · exact heq

/-- The head of the chain has room. -/
theorem searchChain_here (fuel ino : Nat) (h2 : size ≤ 3968)
    (hrun : ¬NoRun (sliceBitmap (k.fs.disk cur)) (divRoundUp size 128)) :
    ∃ s k', searchChain (fuel + 1) k ino size cur = .ok (.ok (cur, s), k') ∧
      k'.refOps = k.refOps ∧ k'.faults = k.faults := by
  rcases getConsequitiveFreeSlices_cases k cur ino h2 with ⟨s, hs, heq⟩ | ⟨hno, -⟩
  · exact ⟨s, _, searchChain_found fuel hs.pos heq, rfl, rfl⟩
  · exact absurd hno hrun

/-- It has none, and no block can be put behind it. -/
theorem searchChain_full (fuel ino : Nat) (h2 : size ≤ 3968)
    (hno : NoRun (sliceBitmap (k.fs.disk cur)) (divRoundUp size 128)) (hnext : k.fs.next cur = 0)
    (hfree : ¬k.fs.SliceBlockFree) :
    ∃ k', searchChain (fuel + 1) k ino size cur = .ok (.error (-ENOSPC), k') ∧
      k'.refOps = k.refOps ++ [(cur, false)] := by
  have hnext : sliceNext (k.fs.disk cur) = 0 := hnext
  obtain ⟨k', hal, hops⟩ := allocateAndInitSliceBlock_none hfree
  exact ⟨_, (searchChain_exits fuel k ino size cur).2
    (.noBlock (getConsequitiveFreeSlices_noRun cur ino h2 hno) hnext hal (by decide) rfl),
    by rw [Kernel.refOps_brelse, hops]⟩

/-- A block is put behind it, or cannot be read. -/
theorem searchChain_new (fuel ino : Nat) (h2 : size ≤ 3968)
    (hno : NoRun (sliceBitmap (k.fs.disk cur)) (divRoundUp size 128)) (hnext : k.fs.next cur = 0)
    (hfree : k.fs.SliceBlockFree) :
    (Failing k.faults ∧ ∃ k', searchChain (fuel + 2) k ino size cur = .ok (.error (- EIO), k') ∧
      k'.refOps = k.refOps ++ [(cur, false)]) ∨
    (¬Failing k.faults ∧ ∃ b k', searchChain (fuel + 2) k ino size cur = .ok (.ok (b, 1), k') ∧
      k'.refOps = k.refOps ++ [(b, true), (cur, false)] ∧ k'.faults = k.faults.tail) := by
  have hnext : sliceNext (k.fs.disk cur) = 0 := hnext
  have hget := getConsequitiveFreeSlices_noRun cur ino h2 hno
  rcases allocateAndInitSliceBlock_refs hfree with
    ⟨hfail, k', hal, hops⟩ | ⟨hok, b, k', hal, hpos, -, hbits, hops, hfaults⟩
  · left
    exact ⟨hfail, _, (searchChain_exits _ k ino size cur).2
      (.noBlock hget hnext hal (by decide) rfl), by rw [Kernel.refOps_brelse, hops]⟩
  · right
    rw [(searchChain_exits _ k ino size cur).2 (.linked hget hnext hal (by omega) rfl),
      Int.toNat_natCast]
    have hb : sliceBitmap (((k'.setBlock cur (setSliceNext (k'.fs.disk cur) b)).brelse
        cur).fs.disk b) = bitmapAllFree := by
      by_cases hbc : b = cur
      · subst hbc
        simp [hbits]
      · simp [hbc, hbits]
    refine ⟨hok, b, _, searchChain_fresh fuel ino h2 hb, ?_, hfaults⟩
    change ((k'.setBlock cur _).brelse cur).refOps = _
    rw [Kernel.refOps_brelse, Kernel.refOps_setBlock, hops]
    simp

/-- The next block cannot be read: `cur` is released twice. -/
theorem searchChain_unread (fuel ino : Nat) (h2 : size ≤ 3968)
    (hno : NoRun (sliceBitmap (k.fs.disk cur)) (divRoundUp size 128)) (hnext : k.fs.next cur ≠ 0)
    (hfail : Failing k.faults) :
    ∃ k', searchChain (fuel + 1) k ino size cur = .ok (.error (- EIO), k') ∧
      k'.refOps = k.refOps ++ [(cur, false), (cur, false)] := by
  have hops := Kernel.refOps_sbBread k (sliceNext (k.fs.disk cur))
  obtain ⟨k', hread, -⟩ := @Kernel.sbBread_failing k (sliceNext (k.fs.disk cur)) hfail
  rw [hread] at hops
  refine ⟨_, (searchChain_exits _ k ino size cur).2
    (.unread (getConsequitiveFreeSlices_noRun cur ino h2 hno) hnext hread rfl), ?_⟩
  rw [Kernel.refOps_brelse, Kernel.refOps_brelse, hops]
  simp

/-- The end of `write_small_file` with nothing to copy. -/
theorem copyToSlices_refs_nil (k : Kernel) (ino : Nat) (iocb : Kiocb) (pos size block slice : Nat) :
    RefsTo {block} k 0 (copyToSlices k ino iocb [] pos size block slice) := by
  have hops := (k.copyFromIter_asks 0 []).refOps
  have hnil : (k.copyFromIter 0 []).1 = [] := by
    unfold Kernel.copyFromIter
    split <;> simp
  rcases hcopy : k.copyFromIter 0 [] with ⟨copied, k₁⟩
  rw [hcopy] at hops hnil
  simp only at hops hnil
  subst hnil
  rw [(copyToSlices_exits k ino iocb [] pos size block slice).2 (.copied hcopy rfl rfl)]
  refine Refs.trans (Refs.of_eq hops _) ?_
  exact Refs.trans (Refs.trans (.of_eq rfl _) (.brelse _ block 0)) (.of_eq rfl _)

/-- The end of `write_small_file` without failures. -/
theorem copyToSlices_refs_ok (hf : k.faults = []) (iocb : Kiocb) (data : List UInt8)
    (pos block slice : Nat) :
    RefsTo {block} k 0 (copyToSlices k ino iocb data pos size block slice) := by
  have hcopy : k.copyFromIter data.length data = (data, k) := by
    rw [Kernel.copyFromIter_ok hf, List.take_length]
  rw [(copyToSlices_exits _ _ _ _ _ _ _ _).2 (.copied hcopy rfl rfl)]
  exact Refs.trans (Refs.trans (.of_eq rfl _) (.brelse _ block 0)) (.of_eq rfl _)

/-- A copy into the slices that comes up short. -/
theorem copyToSlices_refs_cut {data : List UInt8} (ino : Nat) (iocb : Kiocb)
    (pos size block slice : Nat) (hne : 0 < data.length) (hf : k.faults = [.failure 0]) :
    ∃ k', copyToSlices k ino iocb data pos size block slice = .ok ((-EFAULT, iocb), k') ∧
      k'.refOps = k.refOps ++ [(block, false), (block, false)] := by
  obtain ⟨copied, hcut, hcopy⟩ := Kernel.copyFromIter_cut data hne hf
  refine ⟨_, (copyToSlices_exits _ _ _ _ _ _ _ _).2 (.fault hcopy hcut rfl), ?_⟩
  rw [Kernel.refOps_brelse, Kernel.refOps_brelse]
  simp

theorem searchFuel_two (sbi : SbInfo) : ∃ fuel, searchFuel sbi = fuel + 2 := by
  have hle : 2 * 2 ≤ searchFuel sbi :=
    Nat.mul_le_mul (Nat.le_add_left 2 sbi.nrBlocks) (Nat.le_add_left 2 sbi.nrBlocks)
  exact ⟨searchFuel sbi - 2, by omega⟩

/-- No chain and no block for one. -/
theorem placeSlices_none (ino size : Nat) (h0 : k.fs.sbi.sFreeSlicedBlocks = 0)
    (hfree : ¬k.fs.SliceBlockFree) :
    ∃ k', placeSlices k ino size = .error (.nullDeref, k') ∧ k'.refOps = k.refOps := by
  obtain ⟨k', hal, hops⟩ := allocateAndInitSliceBlock_none hfree
  exact ⟨_, (placeSlices_exits k ino size).2 (.badHead h0 hal (by decide) (by decide) rfl), hops⟩

/-- The first block of a chain. -/
theorem placeSlices_first (ino : Nat) (h2 : size ≤ 3968) (h0 : k.fs.sbi.sFreeSlicedBlocks = 0)
    (hfree : k.fs.SliceBlockFree) :
    (Failing k.faults ∧ ∃ k', placeSlices k ino size = .error (.nullDeref, k') ∧
      k'.refOps = k.refOps) ∨
    (¬Failing k.faults ∧ ∃ b k', placeSlices k ino size = .ok (.ok (b, 1), k') ∧
      k'.refOps = k.refOps ++ [(b, true)] ∧ k'.faults = k.faults.tail) := by
  rcases allocateAndInitSliceBlock_refs hfree with
    ⟨hfail, k', hal, hops⟩ | ⟨hok, b, k', hal, hpos, hle, hbits, hops, hfaults⟩
  · left
    exact ⟨hfail, _, (placeSlices_exits k ino size).2
      (.badHead h0 hal (by decide) (by decide) rfl), hops⟩
  · right
    have hwrap : ((b : Int) % 4294967296).toNat = b := by omega
    obtain ⟨fuel, hfuel⟩ := searchFuel_two k'.fs.sbi
    rw [(placeSlices_exits k ino size).2 (.newHead h0 hal (by omega) (by omega) rfl), hwrap, hfuel]
    exact ⟨hok, b, _, searchChain_fresh (fuel + 1) ino h2 hbits, hops, hfaults⟩

/-- The search ends with the reference to the block in which it found slices, or with none. -/
def PlacedRefs (h : Multiset Nat) (k : Kernel) : Outcome (Except Int (Nat × Nat)) → Prop
  | .ok (.ok (block, _), k') => Refs h k {block} k' ∧ k'.faults = []
  | .ok (.error _, k') => Refs h k 0 k'
  | .error (_, k') => ∃ g, Refs h k g k'

theorem PlacedRefs.after {h h' : Multiset Nat} {k k₁ : Kernel}
    {run : Outcome (Except Int (Nat × Nat))} (h₀ : PlacedRefs h' k₁ run) (h₁ : Refs h k h' k₁) :
    PlacedRefs h k run := by
  match run, h₀ with
  | .ok (.ok (_, _), _), h₀ => exact ⟨h₁.trans h₀.1, h₀.2⟩
  | .ok (.error _, _), h₀ => exact h₁.trans h₀
  | .error (_, _), ⟨g, h₀⟩ => exact ⟨g, h₁.trans h₀⟩

/-- The search of a chain without failures, by induction on the blocks behind `cur`. -/
theorem searchChain_refs_ok (ino : Nat) (h2 : size ≤ 3968) :
    ∀ (post : List Nat) (fuel : Nat) (k : Kernel) (cur : Nat), k.faults = [] →
      IsSeg k.fs.next cur (cur :: post) 0 → (∀ b ∈ post, b < k.fs.sbi.nrBlocks) →
      (cur :: post).length + 1 ≤ fuel → PlacedRefs {cur} k (searchChain fuel k ino size cur) := by
  intro post
  induction post with
  | nil =>
      intro fuel k cur hf hseg _ hfuel
      obtain ⟨fuel, rfl⟩ : ∃ n, fuel = n + 2 := ⟨fuel - 2, by simp at hfuel; omega⟩
      have hnext : k.fs.next cur = 0 := hseg.2.2
      by_cases hrun : NoRun (sliceBitmap (k.fs.disk cur)) (divRoundUp size 128)
      · by_cases hfree : k.fs.SliceBlockFree
        · rcases searchChain_new fuel ino h2 hrun hnext hfree with
            ⟨hfail, -⟩ | ⟨-, b, k', heq, hops, hf'⟩
          · rw [hf] at hfail
            exact absurd hfail not_failing_nil
          · rw [heq]
            exact ⟨⟨_, hops, .swap cur b⟩, by rw [hf', hf]; rfl⟩
        · obtain ⟨k', heq, hops⟩ := searchChain_full (fuel + 1) ino h2 hrun hnext hfree
          rw [heq]
          exact ⟨_, hops, .give 0 cur⟩
      · obtain ⟨s, k', heq, hops, hf'⟩ := searchChain_here (fuel + 1) ino h2 hrun
        rw [heq]
        exact ⟨.of_eq hops _, hf'.trans hf⟩
  | cons next post ih =>
      intro fuel k cur hf hseg hin hfuel
      obtain ⟨fuel, rfl⟩ : ∃ n, fuel = n + 1 := ⟨fuel - 1, by simp at hfuel; omega⟩
      obtain ⟨-, -, hseg⟩ := hseg
      have hnext : k.fs.next cur = next := hseg.1
      by_cases hrun : NoRun (sliceBitmap (k.fs.disk cur)) (divRoundUp size 128)
      · have hsucc : sliceNext (k.fs.disk cur) = next := hnext
        have hnz : next ≠ 0 := hseg.2.1
        have hread := Kernel.sbBread_ok hf (hin next List.mem_cons_self)
        rw [(searchChain_exits fuel k ino size cur).2
          (.next (getConsequitiveFreeSlices_noRun cur ino h2 hrun) (by rwa [hsucc])
            (by rw [hsucc]; exact hread) rfl), hsucc]
        rw [hnext] at hseg
        have hrec := ih fuel ((k.log (.bread next)).brelse cur) next hf hseg
          (fun b hb => hin b (List.mem_cons_of_mem _ hb)) (by simp at hfuel ⊢; omega)
        exact hrec.after ⟨_, by simp, .swap cur next⟩
      · obtain ⟨s, k', heq, hops, hf'⟩ := searchChain_here fuel ino h2 hrun
        rw [heq]
        exact ⟨.of_eq hops _, hf'.trans hf⟩

/-- The search for slices without failures. -/
theorem placeSlices_refs_ok {chain : List Nat} (ino : Nat) (hf : k.faults = [])
    (h : Chained k.fs chain) (h2 : size ≤ 3968) : PlacedRefs 0 k (placeSlices k ino size) := by
  have hlen := h.length_le
  cases chain with
  | nil =>
      have h0 : k.fs.sbi.sFreeSlicedBlocks = 0 := h.isChain
      by_cases hfree : k.fs.SliceBlockFree
      · rcases placeSlices_first ino h2 h0 hfree with
          ⟨-, k', heq, hops⟩ | ⟨-, b, k', heq, hops, hf'⟩
        · rw [heq]
          exact ⟨0, .of_eq hops 0⟩
        · rw [heq]
          exact ⟨⟨_, hops, .take 0 b⟩, by rw [hf', hf]; rfl⟩
      · obtain ⟨k', heq, hops⟩ := placeSlices_none ino size h0 hfree
        rw [heq]
        exact ⟨0, .of_eq hops 0⟩
  | cons head post =>
      obtain ⟨hhead, hne, hseg⟩ := h.isChain
      have hread := Kernel.sbBread_ok hf (h.inUse head List.mem_cons_self).1
      rw [(placeSlices_exits k ino size).2 (.searched (by rwa [hhead])
        (by rw [hhead]; exact hread) rfl), hhead]
      have hrec := searchChain_refs_ok ino h2 post (searchFuel k.fs.sbi) (k.log (.bread head)) head
        hf ⟨rfl, hne, hseg⟩ (fun b hb => (h.inUse b (List.mem_cons_of_mem _ hb)).1)
        (searchFuel_le hlen)
      exact hrec.after (Refs.bread hread 0)

/-- `write_small_file` on a file without slices, without failures. -/
theorem writeSmallFileNew_refs_ok {chain : List Nat} {iocb : Kiocb} {data : List UInt8}
    (hf : k.faults = []) (h : Chained k.fs chain)
    (h2 : max (iocb.startPos (k.inode ino) + data.length) (k.inode ino).iSize ≤ 3968) :
    RefsTo 0 k 0 (writeSmallFileNew k ino iocb data) := by
  have hplace := placeSlices_refs_ok ino hf h h2
  cases (writeSmallFileNew_exits k ino iocb data).1 rfl with
  | stopped hp eq =>
      rw [hp] at hplace
      rw [eq]
      exact hplace
  | noPlace hp eq =>
      rw [hp] at hplace
      rw [eq]
      exact hplace
  | placed hp eq =>
      rw [hp] at hplace
      rw [eq]
      exact hplace.1.to (copyToSlices_refs_ok hplace.2 _ _ _ _ _)

/-- `write_small_file` on a file without slices, when it keeps its references. -/
theorem writeSmallFileNew_refs {iocb : Kiocb} {data : List UInt8}
    (h2 : max (iocb.startPos (k.inode ino) + data.length) (k.inode ino).iSize ≤ 3968)
    (hno : ¬k.fs.PlaceBreaks (divRoundUp (max (iocb.startPos (k.inode ino) + data.length)
      (k.inode ino).iSize) 128) data.length) :
    RefsTo 0 k 0 (writeSmallFileNew k ino iocb data) := by
  -- the three ends of the search
  have hstop : ∀ {e : Crash × Kernel}, placeSlices k ino (max (iocb.startPos (k.inode ino) +
      data.length) (k.inode ino).iSize) = .error e → RefsTo 0 k 0 (.error e : Outcome Int) →
      RefsTo 0 k 0 (writeSmallFileNew k ino iocb data) := fun heq hrefs => by
    rw [(writeSmallFileNew_exits k ino iocb data).2 (.stopped heq rfl)]
    exact hrefs
  have hfail : ∀ {e : Int} {k' : Kernel}, placeSlices k ino (max (iocb.startPos (k.inode ino) +
      data.length) (k.inode ino).iSize) = .ok (.error e, k') → Refs 0 k 0 k' →
      RefsTo 0 k 0 (writeSmallFileNew k ino iocb data) := fun heq hrefs => by
    rw [(writeSmallFileNew_exits k ino iocb data).2 (.noPlace heq rfl)]
    exact hrefs
  have hnil : ∀ {b s : Nat} {k' : Kernel}, placeSlices k ino (max (iocb.startPos (k.inode ino) +
      data.length) (k.inode ino).iSize) = .ok (.ok (b, s), k') → data.length = 0 →
      Refs 0 k {b} k' → RefsTo 0 k 0 (writeSmallFileNew k ino iocb data) := by
    intro b s k' heq hlen hrefs
    obtain rfl := List.eq_nil_of_length_eq_zero hlen
    rw [(writeSmallFileNew_exits k ino iocb []).2 (.placed heq rfl)]
    exact hrefs.to (copyToSlices_refs_nil _ _ _ _ _ _ _)
  generalize max (iocb.startPos (k.inode ino) + data.length) (k.inode ino).iSize = size at *
  unfold Fs.PlaceBreaks at hno
  simp only at hno
  by_cases h0 : k.fs.sbi.sFreeSlicedBlocks = 0
  · rw [if_pos h0] at hno
    by_cases hfree : k.fs.SliceBlockFree
    · rcases placeSlices_first ino h2 h0 hfree with ⟨-, k', heq, hops⟩ | ⟨-, b, k', heq, hops, -⟩
      · exact hstop heq ⟨0, .of_eq hops 0⟩
      · refine hnil heq ?_ ⟨_, hops, .take 0 b⟩
        by_contra hlen
        exact hno ⟨by omega, hfree⟩
    · obtain ⟨k', heq, hops⟩ := placeSlices_none ino size h0 hfree
      exact hstop heq ⟨0, .of_eq hops 0⟩
  · rw [if_neg h0] at hno
    have hfs := k.fs_sbBread k.fs.sbi.sFreeSlicedBlocks
    rcases hb : k.sbBread k.fs.sbi.sFreeSlicedBlocks with ⟨ok, k₁⟩
    cases ok with
    | false =>
        exact hfail ((placeSlices_exits k ino size).2 (.unread h0 hb rfl)) (Refs.unread hb 0)
    | true =>
        have hplaces := (placeSlices_exits k ino size).2 (.searched h0 hb rfl)
        obtain ⟨hlt, -, -⟩ := Kernel.sbBread_some hb
        rw [hb] at hfs
        simp only at hfs
        have htake := Refs.bread hb 0
        obtain ⟨fuel, hfuel⟩ := searchFuel_two k₁.fs.sbi
        rw [hfuel] at hplaces
        generalize k.fs.sbi.sFreeSlicedBlocks = head at *
        by_cases hrun : NoRun (sliceBitmap (k.fs.disk head)) (divRoundUp size 128)
        · by_cases hnext : k.fs.next head = 0
          · by_cases hfree : k.fs.SliceBlockFree
            · rcases searchChain_new fuel ino h2 (by rwa [hfs])
                (by rwa [hfs]) (by rwa [hfs]) with
                ⟨-, k', heq, hops⟩ | ⟨-, b, k', heq, hops, -⟩
              · exact hfail (hplaces.trans heq) (htake.trans ⟨_, hops, .give 0 head⟩)
              · refine hnil (hplaces.trans heq) ?_ (htake.trans ⟨_, hops, ?_⟩)
                · by_contra hlen
                  exact hno ⟨by omega, Or.inr ⟨hrun, Or.inr ⟨by omega, hfree⟩⟩⟩
                · exact .swap head b
            · obtain ⟨k', heq, hops⟩ := searchChain_full (fuel + 1) ino h2
                (by rwa [hfs]) (by rwa [hfs]) (by rwa [hfs])
              exact hfail (hplaces.trans heq) (htake.trans ⟨_, hops, .give 0 head⟩)
          · exact absurd ⟨by omega, Or.inr ⟨hrun, Or.inl hnext⟩⟩ hno
        · obtain ⟨s, k', heq, hops, -⟩ := searchChain_here (fuel + 1) ino h2
            (by rwa [hfs])
          refine hnil (hplaces.trans heq) ?_ (htake.trans (.of_eq hops _))
          by_contra hlen
          exact hno ⟨by omega, Or.inl ⟨hrun, by omega⟩⟩

/-- A reference taken and given back twice. -/
theorem not_settles_pair (b : Nat) : ¬Settles 0 [(b, true), (b, false), (b, false)] 0 :=
  not_settles_twice _ b ((Settles.nil 0).bracket b)

/-- `write_small_file` on a file without slices, when it releases a buffer twice for some answers. -/
theorem writeSmallFileNew_refs_cut {iocb : Kiocb} {data : List UInt8}
    (h2 : max (iocb.startPos (fs.inode ino) + data.length) (fs.inode ino).iSize ≤ 3968)
    (hyes : fs.PlaceBreaks (divRoundUp (max (iocb.startPos (fs.inode ino) + data.length)
      (fs.inode ino).iSize) 128) data.length) :
    ∃ answers, ∀ k : Kernel, k.fs = fs → k.faults = answers →
      ¬RefsKept k (writeSmallFileNew k ino iocb data) := by
  unfold Fs.PlaceBreaks at hyes
  simp only at hyes
  by_cases h0 : fs.sbi.sFreeSlicedBlocks = 0
  · rw [if_pos h0] at hyes
    obtain ⟨hlen, hfree⟩ := hyes
    refine ⟨[.success, .failure 0], fun k hfs hf hrun => ?_⟩
    subst hfs
    rcases placeSlices_first ino h2 h0 hfree with
      ⟨hfail, -⟩ | ⟨-, b, k₁, heq, hops, hfaults⟩
    · rw [hf] at hfail
      exact absurd hfail (not_failing_success _)
    · obtain ⟨k₂, hcopy, hops₂⟩ := copyToSlices_refs_cut ino iocb (iocb.startPos (k.inode ino))
        (max (iocb.startPos (k.inode ino) + data.length) (k.inode ino).iSize) b 1 hlen
        (hfaults.trans (by rw [hf]; rfl))
      rw [(writeSmallFileNew_exits k ino iocb data).2 (.placed heq rfl), hcopy] at hrun
      refine not_settles_pair b ((refsKept_ok ?_).1 hrun)
      rw [hops₂, hops]
      simp
  · rw [if_neg h0] at hyes
    obtain ⟨hlt, hyes⟩ := hyes
    have hhead : ∀ (k : Kernel) (answers : List Answer), k.fs = fs →
        k.faults = .success :: answers → ∃ fuel k₁, k₁.fs = fs ∧ k₁.faults = answers ∧
          k₁.refOps = k.refOps ++ [(fs.sbi.sFreeSlicedBlocks, true)] ∧ ∀ size,
          placeSlices k ino size = searchChain (fuel + 2) k₁ ino size fs.sbi.sFreeSlicedBlocks := by
      intro k answers hfs hf
      subst hfs
      obtain ⟨fuel, hfuel⟩ := searchFuel_two k.fs.sbi
      refine ⟨fuel, (k.log (.bread k.fs.sbi.sFreeSlicedBlocks)).answered answers, rfl, rfl, ?_,
        fun size => ?_⟩
      · simp
      · rw [(placeSlices_exits k ino size).2 (.searched h0 (Kernel.sbBread_success hlt hf) rfl)]
        exact congrArg (searchChain · _ ino size _) hfuel
    generalize hsize : max (iocb.startPos (fs.inode ino) + data.length) (fs.inode ino).iSize = size
      at *
    generalize fs.sbi.sFreeSlicedBlocks = head at *
    -- a place is found, and the copy into it is short
    have hcut : ∀ (k k₁ : Kernel) (b s : Nat) (l : List (Nat × Bool)), k.fs = fs →
        placeSlices k ino size = .ok (.ok (b, s), k₁) → k₁.faults = [.failure 0] →
        k₁.refOps = k.refOps ++ l → 0 < data.length →
        RefsKept k (writeSmallFileNew k ino iocb data) → Settles 0 (l ++ [(b, false), (b, false)]) 0 := by
      intro k k₁ b s l hfs hplace hfaults hops hlen hrun
      subst hfs
      obtain ⟨k₂, hcopy, hops₂⟩ := copyToSlices_refs_cut ino iocb (iocb.startPos (k.inode ino)) size
        b s hlen hfaults
      have hinode : k.fs.inode ino = k.inode ino := rfl
      rw [hinode] at hsize
      rw [(writeSmallFileNew_exits k ino iocb data).2 (.placed (by rw [hsize]; exact hplace) rfl),
        hsize, hcopy] at hrun
      refine (refsKept_ok ?_).1 hrun
      rw [hops₂, hops, List.append_assoc]
    rcases hyes with ⟨hrun, hlen⟩ | ⟨hno, hnext⟩
    · refine ⟨[.success, .failure 0], fun k hfs hf hkept => ?_⟩
      obtain ⟨fuel, k₁, hfs₁, hf₁, hops₁, hplace⟩ := hhead k _ hfs hf
      obtain ⟨s, k₂, hsearch, hops₂, hf₂⟩ := searchChain_here (k := k₁) (fuel + 1) ino h2
        (by rwa [hfs₁])
      exact not_settles_pair head (hcut k k₂ head s _ hfs ((hplace size).trans hsearch)
        (hf₂.trans hf₁) (hops₂.trans hops₁) hlen hkept)
    by_cases hz : fs.next head = 0
    · obtain ⟨hlen, hfree⟩ := hnext.resolve_left (fun h => h hz)
      refine ⟨[.success, .success, .failure 0], fun k hfs hf hkept => ?_⟩
      obtain ⟨fuel, k₁, hfs₁, hf₁, hops₁, hplace⟩ := hhead k _ hfs hf
      rcases searchChain_new (k := k₁) fuel ino h2 (by rwa [hfs₁])
        (by rwa [hfs₁]) (by rwa [hfs₁]) with ⟨hfail, -⟩ | ⟨-, b, k₂, hsearch, hops₂, hf₂⟩
      · rw [hf₁] at hfail
        exact not_failing_success _ hfail
      · have hset := hcut k k₂ b 1 _ hfs ((hplace size).trans hsearch)
          (hf₂.trans (by rw [hf₁]; rfl)) (hops₂.trans (by rw [hops₁, List.append_assoc])) hlen hkept
        have hcount := hset.count_eq b
        by_cases hb : head = b
        · subst hb
          simp at hcount
        · simp [hb] at hcount
    · refine ⟨[.success, .failure 0], fun k hfs hf hkept => ?_⟩
      obtain ⟨fuel, k₁, hfs₁, hf₁, hops₁, hplace⟩ := hhead k _ hfs hf
      obtain ⟨k₂, hsearch, hops₂⟩ := searchChain_unread (k := k₁) (fuel + 1) ino h2
        (by rwa [hfs₁]) (by rwa [hfs₁]) (by rw [hf₁]; exact failing_failure 0 [])
      subst hfs
      have hinode : k.fs.inode ino = k.inode ino := rfl
      rw [hinode] at hsize
      rw [(writeSmallFileNew_exits k ino iocb data).2
        (.noPlace (by rw [hsize, hplace size]; exact hsearch) rfl)] at hkept
      refine not_settles_pair head ((refsKept_ok ?_).1 hkept)
      rw [hops₂, hops₁]
      simp

end Place

end Ouichefs
