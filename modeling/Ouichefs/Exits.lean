import Ouichefs.File

/-!
# The exits of the write path

The functions of `file.c` that write or delete slices and blocks leave early at many places.  For
each of them an inductive type lists its exits, one constructor an exit: what held on the way there
and what the function returns.  A function is related to its exits by one theorem, in both
directions: a property of the function is proved exit by exit, and a run is computed by naming the
exit it takes.

Main results: `deleteSlice_exits`, `placeSlices_exits`, `writeSmallFileNew_exits`,
`finishRelocation_exits`, `rewriteSmallFile_exits`, `writeBigFile_exits`, `finishConversion_exits`,
`convertSmallToBig_exits`.
-/

set_option autoImplicit false

namespace Ouichefs

/-! ## Slices -/

section Slices

/-- The exits of `allocate_and_init_slice_block`. -/
inductive AllocateExit (k : Kernel) (run : Int × Kernel) : Prop
  | noBlock {b : Nat} {k₁ : Kernel} (hget : k.getFreeBlock = (b, k₁))
      (hb : b = 0 ∨ b > 134217728) (eq : run = (-ENOSPC, k₁.putBlock b))
  | unread {b : Nat} {k₁ k₂ : Kernel} (hget : k.getFreeBlock = (b, k₁))
      (hb : ¬(b = 0 ∨ b > 134217728)) (hread : k₁.sbBread b = (false, k₂))
      (eq : run = (- EIO, k₂.putBlock b))
  | initialised {b : Nat} {k₁ k₂ : Kernel} (hget : k.getFreeBlock = (b, k₁))
      (hb : ¬(b = 0 ∨ b > 134217728)) (hread : k₁.sbBread b = (true, k₂))
      (eq : run = ((b : Int),
        (k₂.setBlock b (setSliceBitmap (k₂.fs.disk b) bitmapAllFree)).setSbi
          { k₂.fs.sbi with nrSlicedBlocks := add32 k₂.fs.sbi.nrSlicedBlocks 1 }))

theorem allocateAndInitSliceBlock_exits (k : Kernel) {run : Int × Kernel} :
    allocateAndInitSliceBlock k = run ↔ AllocateExit k run := by
  constructor
  · intro h
    unfold allocateAndInitSliceBlock at h
    rcases hget : k.getFreeBlock with ⟨b, k₁⟩
    rw [hget] at h
    simp only at h
    split at h
    · rename_i hb
      exact .noBlock hget hb h.symm
    · rename_i hb
      unfold initSliceBlock at h
      rcases hread : k₁.sbBread b with ⟨ok, k₂⟩
      rw [hread] at h
      cases ok with
      | false => exact .unread hget hb hread h.symm
      | true => exact .initialised hget hb hread h.symm
  · rintro (⟨hget, hb, rfl⟩ | ⟨hget, hb, hread, rfl⟩ | ⟨hget, hb, hread, rfl⟩)
    · unfold allocateAndInitSliceBlock
      simp only [hget, hb, if_true]
    · unfold allocateAndInitSliceBlock initSliceBlock
      simp only [hget, hb, if_false, hread]
    · unfold allocateAndInitSliceBlock initSliceBlock
      simp only [hget, hb, if_false, hread]
      rfl

/-- The kernel once `delete_slice` has marked its slices free, before the walk over the chain. -/
def Kernel.slicesFreed (k : Kernel) (bno sliceNo numSlices : Nat) : Kernel :=
  let b := k.fs.disk bno
  let b := setSliceBitmap b (sliceBitmap b ||| runMask 32 numSlices sliceNo)
  let b := b.fill (sliceNo * 128) (numSlices * 128)
  ((k.setBlock bno b).setSbi
    { k.fs.sbi with nrUsedSlices := sub32 k.fs.sbi.nrUsedSlices numSlices }).brelse bno

/-- The exits of `delete_slice`. -/
inductive DeleteExit (k : Kernel) (bno sliceNo numSlices : Nat) (run : Outcome Int) : Prop
  | nothing (h : bno = 0 ∨ numSlices = 0) (eq : run = .ok (0, k))
  | unread {k₁ : Kernel} (hb : bno ≠ 0) (hn : numSlices ≠ 0)
      (hread : k.sbBread bno = (false, k₁)) (eq : run = .ok (- EIO, k₁))
  | walked {k₁ : Kernel} (hb : bno ≠ 0) (hn : numSlices ≠ 0)
      (hread : k.sbBread bno = (true, k₁))
      (eq : run = pruneChain (pruneFuel k₁.fs.sbi) (k₁.slicesFreed bno sliceNo numSlices)
        k₁.fs.sbi.sFreeSlicedBlocks none)

/-- **The exits of `delete_slice`.** -/
theorem deleteSlice_exits (k : Kernel) (bno sliceNo numSlices : Nat) {run : Outcome Int} :
    deleteSlice k bno sliceNo numSlices = run ↔ DeleteExit k bno sliceNo numSlices run := by
  constructor
  · intro h
    unfold deleteSlice at h
    split at h
    · rename_i hb
      exact .nothing (Or.inl hb) h.symm
    rename_i hb
    split at h
    · rename_i hn
      exact .nothing (Or.inr hn) h.symm
    rename_i hn
    split at h
    · rename_i hread
      exact .unread hb hn hread h.symm
    · rename_i hread
      exact .walked hb hn hread h.symm
  · rintro (⟨h, rfl⟩ | ⟨hb, hn, hread, rfl⟩ | ⟨hb, hn, hread, rfl⟩)
    · unfold deleteSlice
      rcases h with rfl | rfl
      · rfl
      · simp only [if_true, ite_self]
    · unfold deleteSlice
      simp only [hb, hn, if_false, hread]
    · unfold deleteSlice
      simp only [hb, hn, if_false, hread]
      rfl

end Slices

/-! ## Small files -/

section Small

/-- The exits of one iteration of the search loop of `write_small_file`. -/
inductive SearchExit (fuel : Nat) (k : Kernel) (ino newSize cur : Nat)
    (run : Outcome (Except Int (Nat × Nat))) : Prop
  | found {slice : Nat} {k₁ : Kernel} (hs : slice ≠ 0)
      (hget : getConsequitiveFreeSlices k cur ino newSize = (slice, k₁))
      (eq : run = .ok (.ok (cur, slice), k₁))
  | noBlock {k₁ k₂ : Kernel} {ret : Int}
      (hget : getConsequitiveFreeSlices k cur ino newSize = (0, k₁))
      (hnext : sliceNext (k₁.fs.disk cur) = 0) (halloc : allocateAndInitSliceBlock k₁ = (ret, k₂))
      (hret : ret ≤ 0) (eq : run = .ok (.error ret, k₂.brelse cur))
  | linked {k₁ k₂ : Kernel} {ret : Int}
      (hget : getConsequitiveFreeSlices k cur ino newSize = (0, k₁))
      (hnext : sliceNext (k₁.fs.disk cur) = 0) (halloc : allocateAndInitSliceBlock k₁ = (ret, k₂))
      (hret : 0 < ret)
      (eq : run = searchChain fuel
        ((k₂.setBlock cur (setSliceNext (k₂.fs.disk cur) ret.toNat)).brelse cur) ino newSize
        ret.toNat)
  | unread {k₁ k₂ : Kernel} (hget : getConsequitiveFreeSlices k cur ino newSize = (0, k₁))
      (hnext : sliceNext (k₁.fs.disk cur) ≠ 0)
      (hread : k₁.sbBread (sliceNext (k₁.fs.disk cur)) = (false, k₂))
      (eq : run = .ok (.error (- EIO), (k₂.brelse cur).brelse cur))
  | next {k₁ k₂ : Kernel} (hget : getConsequitiveFreeSlices k cur ino newSize = (0, k₁))
      (hnext : sliceNext (k₁.fs.disk cur) ≠ 0)
      (hread : k₁.sbBread (sliceNext (k₁.fs.disk cur)) = (true, k₂))
      (eq : run = searchChain fuel (k₂.brelse cur) ino newSize (sliceNext (k₁.fs.disk cur)))

theorem searchChain_exits (fuel : Nat) (k : Kernel) (ino newSize cur : Nat)
    {run : Outcome (Except Int (Nat × Nat))} :
    searchChain (fuel + 1) k ino newSize cur = run ↔ SearchExit fuel k ino newSize cur run := by
  constructor
  · intro h
    rw [searchChain] at h
    rcases hget : getConsequitiveFreeSlices k cur ino newSize with ⟨slice, k₁⟩
    rw [hget] at h
    simp only at h
    split at h
    · rename_i hs
      exact .found hs hget h.symm
    rename_i hs
    obtain rfl : slice = 0 := Decidable.not_not.1 hs
    split at h
    · rename_i hnext
      rcases halloc : allocateAndInitSliceBlock k₁ with ⟨ret, k₂⟩
      rw [halloc] at h
      simp only at h
      split at h
      · rename_i hret
        exact .noBlock hget hnext halloc hret h.symm
      · rename_i hret
        exact .linked hget hnext halloc (Int.not_le.1 hret) h.symm
    · rename_i hnext
      rcases hread : k₁.sbBread (sliceNext (k₁.fs.disk cur)) with ⟨ok, k₂⟩
      rw [hread] at h
      cases ok with
      | false => exact .unread hget hnext hread h.symm
      | true => exact .next hget hnext hread h.symm
  · rintro (⟨hs, hget, rfl⟩ | ⟨hget, hnext, halloc, hret, rfl⟩ | ⟨hget, hnext, halloc, hret, rfl⟩ |
      ⟨hget, hnext, hread, rfl⟩ | ⟨hget, hnext, hread, rfl⟩)
    · rw [searchChain, hget]
      simp only [hs, ne_eq, not_false_eq_true, if_true]
    · rw [searchChain, hget]
      simp only [ne_eq, not_true_eq_false, if_false, hnext, if_true, halloc, hret]
    · rw [searchChain, hget]
      simp only [ne_eq, not_true_eq_false, if_false, hnext, if_true, halloc, Int.not_le.2 hret]
    · rw [searchChain, hget]
      simp only [ne_eq, not_true_eq_false, if_false, hnext, hread]
    · rw [searchChain, hget]
      simp only [ne_eq, not_true_eq_false, if_false, hnext, hread]

/-- The exits of `placeSlices`. -/
inductive PlaceExit (k : Kernel) (ino newSize : Nat)
    (run : Outcome (Except Int (Nat × Nat))) : Prop
  | noBlock {k₁ : Kernel} {ret : Int} (hhead : k.fs.sbi.sFreeSlicedBlocks = 0)
      (halloc : allocateAndInitSliceBlock k = (ret, k₁)) (hret : (ret % 4294967296).toNat = 0)
      (eq : run = .ok (.error 0, k₁))
  | badHead {k₁ : Kernel} {ret : Int} (hhead : k.fs.sbi.sFreeSlicedBlocks = 0)
      (halloc : allocateAndInitSliceBlock k = (ret, k₁)) (hret : (ret % 4294967296).toNat ≠ 0)
      (hneg : ret ≤ 0)
      (eq : run = .error (.nullDeref,
        k₁.setSbi { k₁.fs.sbi with sFreeSlicedBlocks := (ret % 4294967296).toNat }))
  | newHead {k₁ : Kernel} {ret : Int} (hhead : k.fs.sbi.sFreeSlicedBlocks = 0)
      (halloc : allocateAndInitSliceBlock k = (ret, k₁)) (hret : (ret % 4294967296).toNat ≠ 0)
      (hpos : 0 < ret)
      (eq : run = searchChain (searchFuel k₁.fs.sbi)
        (k₁.setSbi { k₁.fs.sbi with sFreeSlicedBlocks := (ret % 4294967296).toNat }) ino newSize
        (ret % 4294967296).toNat)
  | unread {k₁ : Kernel} (hhead : k.fs.sbi.sFreeSlicedBlocks ≠ 0)
      (hread : k.sbBread k.fs.sbi.sFreeSlicedBlocks = (false, k₁))
      (eq : run = .ok (.error (- EIO), k₁))
  | searched {k₁ : Kernel} (hhead : k.fs.sbi.sFreeSlicedBlocks ≠ 0)
      (hread : k.sbBread k.fs.sbi.sFreeSlicedBlocks = (true, k₁))
      (eq : run = searchChain (searchFuel k₁.fs.sbi) k₁ ino newSize k.fs.sbi.sFreeSlicedBlocks)

theorem placeSlices_exits (k : Kernel) (ino newSize : Nat)
    {run : Outcome (Except Int (Nat × Nat))} :
    placeSlices k ino newSize = run ↔ PlaceExit k ino newSize run := by
  constructor
  · intro h
    unfold placeSlices at h
    split at h
    · rename_i hhead
      rcases halloc : allocateAndInitSliceBlock k with ⟨ret, k₁⟩
      rw [halloc] at h
      simp only at h
      split at h
      · rename_i hret
        exact .noBlock hhead halloc hret h.symm
      rename_i hret
      split at h
      · rename_i hneg
        exact .badHead hhead halloc hret hneg h.symm
      · rename_i hneg
        exact .newHead hhead halloc hret (Int.not_le.1 hneg) h.symm
    · rename_i hhead
      rcases hread : k.sbBread k.fs.sbi.sFreeSlicedBlocks with ⟨ok, k₁⟩
      simp only [hread] at h
      cases ok with
      | false => exact .unread hhead hread h.symm
      | true => exact .searched hhead hread h.symm
  · rintro (⟨hhead, halloc, hret, rfl⟩ | ⟨hhead, halloc, hret, hneg, rfl⟩ |
      ⟨hhead, halloc, hret, hpos, rfl⟩ | ⟨hhead, hread, rfl⟩ | ⟨hhead, hread, rfl⟩)
    · simp only [placeSlices, hhead, if_true, halloc, hret]
    · simp only [placeSlices, hhead, if_true, halloc, hret, if_false, hneg]
    · simp only [placeSlices, hhead, if_true, halloc, hret, if_false, Int.not_le.2 hpos]
      rfl
    · simp only [placeSlices, hhead, if_false, hread]
    · simp only [placeSlices, hhead, if_false, hread]

/-- The exits of the common end of `write_small_file`. -/
inductive CopyExit (k : Kernel) (ino : Nat) (iocb : Kiocb) (data : List UInt8)
    (pos newSize block slice : Nat) (run : Outcome (Int × Kiocb)) : Prop
  | fault {k₁ : Kernel} {copied : List UInt8}
      (hcopy : k.copyFromIter data.length data = (copied, k₁))
      (hlen : copied.length ≠ data.length)
      (eq : run = .ok ((-EFAULT, iocb),
        ((k₁.setBlock block ((k₁.fs.disk block).blit (slice * 128 + pos) copied)).brelse
          block).brelse block))
  | copied {k₁ : Kernel} {copied : List UInt8}
      (hcopy : k.copyFromIter data.length data = (copied, k₁))
      (hlen : copied.length = data.length)
      (eq : run = .ok (((data.length : Int), { iocb with kiPos := pos }),
        (((k₁.setBlock block ((k₁.fs.disk block).blit (slice * 128 + pos) copied)).setSbi
          { k₁.fs.sbi with
            nrUsedSlices := add32 k₁.fs.sbi.nrUsedSlices (divRoundUp newSize 128) }).brelse
              block).setInode ino
          { k₁.inode ino with
            iSize := newSize, iMtime := k₁.now, iCtime := k₁.now,
            indexBlock := add32 (32 * block) slice }))

theorem copyToSlices_exits (k : Kernel) (ino : Nat) (iocb : Kiocb) (data : List UInt8)
    (pos newSize block slice : Nat) {run : Outcome (Int × Kiocb)} :
    copyToSlices k ino iocb data pos newSize block slice = run ↔
      CopyExit k ino iocb data pos newSize block slice run := by
  constructor
  · intro h
    unfold copyToSlices at h
    rcases hcopy : k.copyFromIter data.length data with ⟨copied, k₁⟩
    simp only [hcopy] at h
    split at h
    · rename_i hlen
      exact .fault hcopy hlen h.symm
    · rename_i hlen
      exact .copied hcopy (Decidable.not_not.1 hlen) h.symm
  · rintro (⟨hcopy, hlen, rfl⟩ | ⟨hcopy, hlen, rfl⟩)
    · simp only [copyToSlices, hcopy, hlen, ne_eq, not_false_eq_true, if_true]
    · simp only [copyToSlices, hcopy, hlen, ne_eq, not_true_eq_false, if_false]
      rfl

/-- The exits of `write_small_file` on a file with `index_block == 0`. -/
inductive NewExit (k : Kernel) (ino : Nat) (iocb : Kiocb) (data : List UInt8)
    (run : Outcome (Int × Kiocb)) : Prop
  | stopped {e : Crash × Kernel}
      (hplace : placeSlices k ino
        (max (iocb.startPos (k.inode ino) + data.length) (k.inode ino).iSize) = .error e)
      (eq : run = .error e)
  | noPlace {ret : Int} {k₁ : Kernel}
      (hplace : placeSlices k ino
        (max (iocb.startPos (k.inode ino) + data.length) (k.inode ino).iSize) =
          .ok (.error ret, k₁))
      (eq : run = .ok ((ret, iocb), k₁))
  | placed {block slice : Nat} {k₁ : Kernel}
      (hplace : placeSlices k ino
        (max (iocb.startPos (k.inode ino) + data.length) (k.inode ino).iSize) =
          .ok (.ok (block, slice), k₁))
      (eq : run = copyToSlices k₁ ino iocb data (iocb.startPos (k.inode ino))
        (max (iocb.startPos (k.inode ino) + data.length) (k.inode ino).iSize) block slice)

/-- **The exits of `write_small_file` on a file without slices.** -/
theorem writeSmallFileNew_exits (k : Kernel) (ino : Nat) (iocb : Kiocb) (data : List UInt8)
    {run : Outcome (Int × Kiocb)} :
    writeSmallFileNew k ino iocb data = run ↔ NewExit k ino iocb data run := by
  constructor
  · intro h
    unfold writeSmallFileNew at h
    simp only at h
    split at h
    · rename_i hplace
      exact .stopped hplace h.symm
    · rename_i hplace
      exact .noPlace hplace h.symm
    · rename_i hplace
      exact .placed hplace h.symm
  · rintro (⟨hplace, rfl⟩ | ⟨hplace, rfl⟩ | ⟨hplace, rfl⟩) <;>
      simp only [writeSmallFileNew, hplace]

/-- The exits of the relocating branch, after the recursive call `o`. -/
inductive RelocationExit (old : Inode) (ino pos count : Nat) (o run : Outcome (Int × Kiocb)) :
    Prop
  | stopped {e : Crash × Kernel} (hrun : o = .error e) (eq : run = .error e)
  | kept {ret : Int} {iocb : Kiocb} {k : Kernel} (hrun : o = .ok ((ret, iocb), k))
      (hret : ret ≤ 0)
      (eq : run = .ok ((ret, { iocb with kiPos := pos }),
        k.setInode ino { k.inode ino with indexBlock := old.indexBlock, iSize := old.iSize }))
  | stuck {ret : Int} {iocb : Kiocb} {k : Kernel} {e : Crash × Kernel}
      (hrun : o = .ok ((ret, iocb), k)) (hret : 0 < ret)
      (hdel : deleteSlice k old.getBno old.getSlice old.numSlices = .error e)
      (eq : run = .error e)
  | moved {ret r : Int} {iocb : Kiocb} {k k₁ : Kernel} (hrun : o = .ok ((ret, iocb), k))
      (hret : 0 < ret)
      (hdel : deleteSlice k old.getBno old.getSlice old.numSlices = .ok (r, k₁))
      (eq : run = .ok (((count : Int), { iocb with kiPos := pos + count }), k₁))

theorem finishRelocation_exits (old : Inode) (ino pos count : Nat)
    (o : Outcome (Int × Kiocb)) {run : Outcome (Int × Kiocb)} :
    finishRelocation old ino pos count o = run ↔ RelocationExit old ino pos count o run := by
  constructor
  · intro h
    unfold finishRelocation at h
    split at h
    · exact .stopped rfl h.symm
    rename_i ret iocb k
    split at h
    · rename_i hret
      split at h
      · rename_i hdel
        exact .stuck rfl hret hdel h.symm
      · rename_i hdel
        exact .moved rfl hret hdel h.symm
    · rename_i hret
      exact .kept rfl (Int.not_lt.1 hret) h.symm
  · rintro (⟨rfl, rfl⟩ | ⟨rfl, hret, rfl⟩ | ⟨rfl, hret, hdel, rfl⟩ | ⟨rfl, hret, hdel, rfl⟩)
    · rfl
    · simp only [finishRelocation, gt_iff_lt, Int.not_lt.2 hret, if_false]
    · simp only [finishRelocation, gt_iff_lt, hret, if_true, hdel]
    · simp only [finishRelocation, gt_iff_lt, hret, if_true, hdel]

/-- The inode in the never-written state, as far as `index_block` and `i_size` say. -/
def Inode.detached (ci : Inode) : Inode := { ci with indexBlock := 0, iSize := 0 }

/-- `write_small_file` lets the inode go of its slices and writes the file elsewhere; `k₁` is the
kernel that holds the old block. -/
structure Relocates (k : Kernel) (ino : Nat) (iocb : Kiocb) (data : List UInt8) (k₁ : Kernel) :
    Prop where
  numSlices : (k.inode ino).numSlices ≠ 0
  placed : ¬((k.inode ino).getBno = 0 ∨ (k.inode ino).getSlice = 0)
  read : k.sbBread (k.inode ino).getBno = (true, k₁)
  moves : (k.inode ino).numSlices ≠
    divRoundUp (max (iocb.startPos (k.inode ino) + data.length) (k.inode ino).iSize) 128

/-- The exits of `write_small_file` on a file that has slices. -/
inductive RewriteExit (k : Kernel) (ino : Nat) (iocb : Kiocb) (data : List UInt8)
    (run : Outcome (Int × Kiocb)) : Prop
  | noSlices (hn : (k.inode ino).numSlices = 0) (eq : run = .ok ((- EIO, iocb), k))
  | noPlace (hn : (k.inode ino).numSlices ≠ 0)
      (hb : (k.inode ino).getBno = 0 ∨ (k.inode ino).getSlice = 0)
      (eq : run = .ok ((- EIO, iocb), k))
  | unread {k₁ : Kernel} (hn : (k.inode ino).numSlices ≠ 0)
      (hb : ¬((k.inode ino).getBno = 0 ∨ (k.inode ino).getSlice = 0))
      (hread : k.sbBread (k.inode ino).getBno = (false, k₁))
      (eq : run = .ok ((- EIO, iocb), k₁))
  | inPlace {k₁ : Kernel} (hn : (k.inode ino).numSlices ≠ 0)
      (hb : ¬((k.inode ino).getBno = 0 ∨ (k.inode ino).getSlice = 0))
      (hread : k.sbBread (k.inode ino).getBno = (true, k₁))
      (hsame : (k.inode ino).numSlices =
        divRoundUp (max (iocb.startPos (k.inode ino) + data.length) (k.inode ino).iSize) 128)
      (eq : run = copyToSlices k₁ ino iocb data (iocb.startPos (k.inode ino))
        (max (iocb.startPos (k.inode ino) + data.length) (k.inode ino).iSize)
        (k.inode ino).getBno (k.inode ino).getSlice)
  | fromStart {k₁ : Kernel} (h : Relocates k ino iocb data k₁)
      (hpos : iocb.startPos (k.inode ino) = 0)
      (eq : run = finishRelocation (k.inode ino) ino (iocb.startPos (k.inode ino)) data.length
        (writeSmallFileNew (k₁.setInode ino (k.inode ino).detached) ino
          iocb data))
  | noCopy {k₁ k₂ : Kernel} (h : Relocates k ino iocb data k₁)
      (hpos : iocb.startPos (k.inode ino) ≠ 0)
      (hmalloc : (k₁.setInode ino (k.inode ino).detached).kmalloc =
        (false, k₂))
      (eq : run = .ok ((-ENOMEM, iocb), k₂.brelse (k.inode ino).getBno))
  | fault {k₁ k₂ k₃ : Kernel} {copied : List UInt8} (h : Relocates k ino iocb data k₁)
      (hpos : iocb.startPos (k.inode ino) ≠ 0)
      (hmalloc : (k₁.setInode ino (k.inode ino).detached).kmalloc =
        (true, k₂))
      (hcopy : k₂.copyFromIter data.length data = (copied, k₃))
      (hlen : copied.length ≠ data.length)
      (eq : run = .ok ((-EFAULT, iocb), k₃.brelse (k.inode ino).getBno))
  | noBuffer {k₁ k₂ k₃ k₄ : Kernel} {copied : List UInt8} (h : Relocates k ino iocb data k₁)
      (hpos : iocb.startPos (k.inode ino) ≠ 0)
      (hmalloc : (k₁.setInode ino (k.inode ino).detached).kmalloc =
        (true, k₂))
      (hcopy : k₂.copyFromIter data.length data = (copied, k₃))
      (hlen : copied.length = data.length) (hmalloc' : k₃.kmalloc = (false, k₄))
      (eq : run = .ok ((-ENOMEM, iocb), k₄.brelse (k.inode ino).getBno))
  | combined {k₁ k₂ k₃ k₄ : Kernel} {copied : List UInt8} (h : Relocates k ino iocb data k₁)
      (hpos : iocb.startPos (k.inode ino) ≠ 0)
      (hmalloc : (k₁.setInode ino (k.inode ino).detached).kmalloc =
        (true, k₂))
      (hcopy : k₂.copyFromIter data.length data = (copied, k₃))
      (hlen : copied.length = data.length) (hmalloc' : k₃.kmalloc = (true, k₄))
      (eq : run = finishRelocation (k.inode ino) ino (iocb.startPos (k.inode ino)) data.length
        (writeSmallFileNew k₄ ino { kiPos := 0, append := false }
          (combinedBuf ((k₁.fs.disk (k.inode ino).getBno).bytes ((k.inode ino).getSlice * 128)
            (k.inode ino).iSize) (iocb.startPos (k.inode ino)) copied)))

/-- **The exits of `write_small_file` on a file that has slices.** -/
theorem rewriteSmallFile_exits (k : Kernel) (ino : Nat) (iocb : Kiocb) (data : List UInt8)
    {run : Outcome (Int × Kiocb)} :
    rewriteSmallFile k ino iocb data = run ↔ RewriteExit k ino iocb data run := by
  constructor
  · intro h
    unfold rewriteSmallFile at h
    simp only at h
    split at h
    · rename_i hn
      exact .noSlices hn h.symm
    rename_i hn
    split at h
    · rename_i hb
      exact .noPlace hn hb h.symm
    rename_i hb
    rcases hread : k.sbBread (k.inode ino).getBno with ⟨ok, k₁⟩
    rw [hread] at h
    cases ok with
    | false => exact .unread hn hb hread h.symm
    | true =>
        simp only at h
        split at h
        · rename_i hsame
          exact .inPlace hn hb hread hsame h.symm
        rename_i hmoves
        have hreloc : Relocates k ino iocb data k₁ := ⟨hn, hb, hread, hmoves⟩
        split at h
        · rename_i hpos
          exact .fromStart hreloc hpos h.symm
        rename_i hpos
        split at h
        · rename_i hmalloc
          exact .noCopy hreloc hpos hmalloc h.symm
        rename_i k₂ hmalloc
        rcases hcopy : k₂.copyFromIter data.length data with ⟨copied, k₃⟩
        rw [hcopy] at h
        simp only at h
        split at h
        · rename_i hlen
          exact .fault hreloc hpos hmalloc hcopy hlen h.symm
        rename_i hlen
        have hlen := Decidable.not_not.1 hlen
        split at h
        · rename_i hmalloc'
          exact .noBuffer hreloc hpos hmalloc hcopy hlen hmalloc' h.symm
        · rename_i hmalloc'
          exact .combined hreloc hpos hmalloc hcopy hlen hmalloc' h.symm
  · rintro (⟨hn, rfl⟩ | ⟨hn, hb, rfl⟩ | ⟨hn, hb, hread, rfl⟩ | ⟨hn, hb, hread, hsame, rfl⟩ |
      ⟨h, hpos, rfl⟩ | ⟨h, hpos, hmalloc, rfl⟩ | ⟨h, hpos, hmalloc, hcopy, hlen, rfl⟩ |
      ⟨h, hpos, hmalloc, hcopy, hlen, hmalloc', rfl⟩ |
      ⟨h, hpos, hmalloc, hcopy, hlen, hmalloc', rfl⟩)
    · simp only [rewriteSmallFile, hn, if_true]
    · simp only [rewriteSmallFile, hn, hb, if_true, if_false]
    · simp only [rewriteSmallFile, hn, hb, hread, if_false]
    · simp only [rewriteSmallFile, hn, hb, hread, if_false]
      rw [if_pos hsame]
    · have hmoves := h.moves
      simp only [hpos] at hmoves
      simp only [rewriteSmallFile, h.numSlices, h.placed, h.read, hmoves, hpos, if_false, if_true]
      rfl
    all_goals unfold Inode.detached at hmalloc
    · simp only [rewriteSmallFile, h.numSlices, h.placed, h.read, h.moves, hpos, if_false, hmalloc]
    · simp only [rewriteSmallFile, h.numSlices, h.placed, h.read, h.moves, hpos, if_false, hmalloc,
        hcopy, hlen, ne_eq, not_false_eq_true, if_true]
    · simp only [rewriteSmallFile, h.numSlices, h.placed, h.read, h.moves, hpos, if_false, hmalloc,
        hcopy, hlen, ne_eq, not_true_eq_false, hmalloc']
    · simp only [rewriteSmallFile, h.numSlices, h.placed, h.read, h.moves, hpos, if_false, hmalloc,
        hcopy, hlen, ne_eq, not_true_eq_false, hmalloc']

theorem writeSmallFile_new {k : Kernel} {ino : Nat} (iocb : Kiocb) (data : List UInt8)
    (h : (k.inode ino).indexBlock = 0) :
    writeSmallFile k ino iocb data = writeSmallFileNew k ino iocb data := if_pos h

theorem writeSmallFile_rewrite {k : Kernel} {ino : Nat} (iocb : Kiocb) (data : List UInt8)
    (h : (k.inode ino).indexBlock ≠ 0) :
    writeSmallFile k ino iocb data = rewriteSmallFile k ino iocb data := if_neg h

end Small

/-! ## Big files -/

section Big

/-- The exits of one iteration of the copy loop of `write_big_file`. -/
inductive LoopExit (iSize idx fuel : Nat) (k : Kernel) (pos : Nat) (data : List UInt8)
    (run : Outcome (Except Int Nat)) : Prop
  | tooBig (hpos : pos / 4096 ≥ 1024) (eq : run = .ok (.error (-EFBIG), k))
  | noBlock {k₁ : Kernel} (hpos : ¬pos / 4096 ≥ 1024)
      (hblock : getDataBlock k idx (pos / 4096) = (0, k₁))
      (eq : run = .ok (.error (-ENOSPC), k₁))
  | unread {b : Nat} {k₁ k₂ : Kernel} (hpos : ¬pos / 4096 ≥ 1024)
      (hblock : getDataBlock k idx (pos / 4096) = (b + 1, k₁))
      (hread : k₁.sbBread (b + 1) = (false, k₂)) (eq : run = .ok (.error (- EIO), k₂))
  | fault {b : Nat} {k₁ k₂ k₃ : Kernel} {copied : List UInt8} (hpos : ¬pos / 4096 ≥ 1024)
      (hblock : getDataBlock k idx (pos / 4096) = (b + 1, k₁))
      (hread : k₁.sbBread (b + 1) = (true, k₂))
      (hcopy : (k₂.setBlock (b + 1) (zeroGap (k₂.fs.disk (b + 1)) iSize pos
        (pos / 4096))).copyFromIter (min data.length (4096 - pos % 4096)) data = (copied, k₃))
      (hlen : copied.length ≠ min data.length (4096 - pos % 4096))
      (eq : run = .ok (.error (-EFAULT),
        ((k₃.setBlock (b + 1) ((k₃.fs.disk (b + 1)).blit (pos % 4096) copied)).brelse
          (b + 1)).brelse (b + 1)))
  | copied {b : Nat} {k₁ k₂ k₃ : Kernel} {copied : List UInt8} (hpos : ¬pos / 4096 ≥ 1024)
      (hblock : getDataBlock k idx (pos / 4096) = (b + 1, k₁))
      (hread : k₁.sbBread (b + 1) = (true, k₂))
      (hcopy : (k₂.setBlock (b + 1) (zeroGap (k₂.fs.disk (b + 1)) iSize pos
        (pos / 4096))).copyFromIter (min data.length (4096 - pos % 4096)) data = (copied, k₃))
      (hlen : copied.length = min data.length (4096 - pos % 4096))
      (eq : run = writeBigLoop iSize idx fuel
        ((k₃.setBlock (b + 1) ((k₃.fs.disk (b + 1)).blit (pos % 4096) copied)).brelse (b + 1))
        (pos + min data.length (4096 - pos % 4096))
        (data.drop (min data.length (4096 - pos % 4096))))

theorem writeBigLoop_exits (iSize idx fuel : Nat) (k : Kernel) (pos : Nat) (x : UInt8)
    (xs : List UInt8) {run : Outcome (Except Int Nat)} :
    writeBigLoop iSize idx (fuel + 1) k pos (x :: xs) = run ↔
      LoopExit iSize idx fuel k pos (x :: xs) run := by
  constructor
  · intro h
    rw [writeBigLoop] at h
    simp only at h
    split at h
    · rename_i hpos
      exact .tooBig hpos h.symm
    rename_i hpos
    split at h
    · rename_i hblock
      exact .noBlock hpos hblock h.symm
    rename_i b k₁ hblock
    split at h
    · rename_i hread
      exact .unread hpos hblock hread h.symm
    rename_i k₂ hread
    rcases hcopy : (k₂.setBlock (b + 1) (zeroGap (k₂.fs.disk (b + 1)) iSize pos
      (pos / 4096))).copyFromIter (min (x :: xs).length (4096 - pos % 4096)) (x :: xs) with
      ⟨copied, k₃⟩
    rw [hcopy] at h
    simp only at h
    split at h
    · rename_i hlen
      exact .fault hpos hblock hread hcopy hlen h.symm
    · rename_i hlen
      exact .copied hpos hblock hread hcopy (Decidable.not_not.1 hlen) h.symm
  · rintro (⟨hpos, rfl⟩ | ⟨hpos, hblock, rfl⟩ | ⟨hpos, hblock, hread, rfl⟩ |
      ⟨hpos, hblock, hread, hcopy, hlen, rfl⟩ | ⟨hpos, hblock, hread, hcopy, hlen, rfl⟩)
    · simp only [writeBigLoop, hpos, if_true]
    · simp only [writeBigLoop, hpos, if_false, hblock]
    · simp only [writeBigLoop, hpos, if_false, hblock, hread]
    · simp only [writeBigLoop, hpos, if_false, hblock, hread, hcopy, hlen, ne_eq,
        not_false_eq_true, if_true]
    · simp only [writeBigLoop, hpos, if_false, hblock, hread, hcopy, hlen, ne_eq,
        not_true_eq_false]

/-- What `write_big_file` does for the index block. -/
inductive IndexExit (k : Kernel) (ino : Nat) (run : Bool × Kernel) : Prop
  | kept (h0 : (k.inode ino).indexBlock ≠ 0) (eq : run = (true, k))
  | noBlock {k₁ : Kernel} (h0 : (k.inode ino).indexBlock = 0) (hget : k.getFreeBlock = (0, k₁))
      (eq : run = (false, k₁))
  | new {b : Nat} {k₁ : Kernel} (h0 : (k.inode ino).indexBlock = 0)
      (hget : k.getFreeBlock = (b + 1, k₁))
      (eq : run = (true, k₁.setInode ino { k₁.inode ino with indexBlock := b + 1 }))

theorem ensureIndexBlock_exits (k : Kernel) (ino : Nat) {run : Bool × Kernel} :
    ensureIndexBlock k ino = run ↔ IndexExit k ino run := by
  constructor
  · intro h
    unfold ensureIndexBlock at h
    split at h
    · rename_i h0
      split at h
      · rename_i hget
        exact .noBlock h0 hget h.symm
      · rename_i hget
        exact .new h0 hget h.symm
    · rename_i h0
      exact .kept h0 h.symm
  · rintro (⟨h0, rfl⟩ | ⟨h0, hget, rfl⟩ | ⟨h0, hget, rfl⟩)
    · simp only [ensureIndexBlock, h0, if_false]
    · simp only [ensureIndexBlock, h0, if_true, hget]
    · simp only [ensureIndexBlock, h0, if_true, hget]

/-- A file with an index block keeps it. -/
theorem ensureIndexBlock_keeps {k : Kernel} {ino : Nat} (h0 : (k.inode ino).indexBlock ≠ 0) :
    ensureIndexBlock k ino = (true, k) :=
  (ensureIndexBlock_exits k ino).2 (.kept h0 rfl)

/-- The exits of `write_big_file`. -/
inductive BigExit (k : Kernel) (ino : Nat) (iocb : Kiocb) (data : List UInt8)
    (run : Outcome (Int × Kiocb)) : Prop
  | noIndex {k₁ : Kernel} (hindex : ensureIndexBlock k ino = (false, k₁))
      (eq : run = .ok ((-ENOSPC, iocb), k₁))
  | noSpace {k₁ : Kernel} (hindex : ensureIndexBlock k ino = (true, k₁))
      (hspace : enoughBlocks k₁ ino
        (max (iocb.startPos (k.inode ino) + data.length) (k.inode ino).iSize) = false)
      (eq : run = .ok ((-ENOSPC, iocb), k₁))
  | unread {k₁ k₂ : Kernel} (hindex : ensureIndexBlock k ino = (true, k₁))
      (hspace : enoughBlocks k₁ ino
        (max (iocb.startPos (k.inode ino) + data.length) (k.inode ino).iSize) = true)
      (hread : k₁.sbBread (k₁.inode ino).indexBlock = (false, k₂))
      (eq : run = .ok ((- EIO, iocb), k₂))
  | stopped {k₁ k₂ : Kernel} {e : Crash × Kernel} (hindex : ensureIndexBlock k ino = (true, k₁))
      (hspace : enoughBlocks k₁ ino
        (max (iocb.startPos (k.inode ino) + data.length) (k.inode ino).iSize) = true)
      (hread : k₁.sbBread (k₁.inode ino).indexBlock = (true, k₂))
      (hloop : writeBigLoop (k.inode ino).iSize (k₁.inode ino).indexBlock data.length k₂
        (iocb.startPos (k.inode ino)) data = .error e)
      (eq : run = .error e)
  | failed {k₁ k₂ k₃ : Kernel} {ret : Int} (hindex : ensureIndexBlock k ino = (true, k₁))
      (hspace : enoughBlocks k₁ ino
        (max (iocb.startPos (k.inode ino) + data.length) (k.inode ino).iSize) = true)
      (hread : k₁.sbBread (k₁.inode ino).indexBlock = (true, k₂))
      (hloop : writeBigLoop (k.inode ino).iSize (k₁.inode ino).indexBlock data.length k₂
        (iocb.startPos (k.inode ino)) data = .ok (.error ret, k₃))
      (eq : run = .ok ((ret, iocb), k₃.brelse (k₁.inode ino).indexBlock))
  | written {k₁ k₂ k₃ : Kernel} {endPos : Nat} (hindex : ensureIndexBlock k ino = (true, k₁))
      (hspace : enoughBlocks k₁ ino
        (max (iocb.startPos (k.inode ino) + data.length) (k.inode ino).iSize) = true)
      (hread : k₁.sbBread (k₁.inode ino).indexBlock = (true, k₂))
      (hloop : writeBigLoop (k.inode ino).iSize (k₁.inode ino).indexBlock data.length k₂
        (iocb.startPos (k.inode ino)) data = .ok (.ok endPos, k₃))
      (eq : run = .ok (((data.length : Int), { iocb with kiPos := endPos }),
        (k₃.setInode ino
          { k₃.inode ino with
            iSize := max endPos (k.inode ino).iSize,
            iBlocks := divRoundUp (max endPos (k.inode ino).iSize) 4096 + 1,
            iMtime := k₃.now, iCtime := k₃.now }).brelse (k₁.inode ino).indexBlock))

/-- **The exits of `write_big_file`.** -/
theorem writeBigFile_exits (k : Kernel) (ino : Nat) (iocb : Kiocb) (data : List UInt8)
    {run : Outcome (Int × Kiocb)} :
    writeBigFile k ino iocb data = run ↔ BigExit k ino iocb data run := by
  constructor
  · intro h
    unfold writeBigFile at h
    simp only at h
    split at h
    · rename_i hindex
      exact .noIndex hindex h.symm
    rename_i k₁ hindex
    split at h
    · rename_i hspace
      exact .noSpace hindex hspace h.symm
    rename_i hspace
    have hspace := Bool.of_not_eq_false hspace
    split at h
    · rename_i hread
      exact .unread hindex hspace hread h.symm
    rename_i hread
    split at h
    · rename_i hloop
      exact .stopped hindex hspace hread hloop h.symm
    · rename_i hloop
      exact .failed hindex hspace hread hloop h.symm
    · rename_i hloop
      exact .written hindex hspace hread hloop h.symm
  · rintro (⟨hindex, rfl⟩ | ⟨hindex, hspace, rfl⟩ | ⟨hindex, hspace, hread, rfl⟩ |
      ⟨hindex, hspace, hread, hloop, rfl⟩ | ⟨hindex, hspace, hread, hloop, rfl⟩ |
      ⟨hindex, hspace, hread, hloop, rfl⟩)
    · simp only [writeBigFile, hindex]
    · simp only [writeBigFile, hindex, hspace, if_true]
    all_goals
      simp only [writeBigFile, hindex, hspace, Bool.true_eq_false, if_false, hread]
    all_goals simp only [hloop]

/-- The exits of `convert_small_to_big` after `write_big_file` has returned `o`. -/
inductive ConversionExit (old : Inode) (ino oldPos writePos count : Nat) (iocb : Kiocb)
    (o run : Outcome (Int × Kiocb)) : Prop
  | stopped {e : Crash × Kernel} (hrun : o = .error e) (eq : run = .error e)
  | restored {ret : Int} {io : Kiocb} {k : Kernel} (hrun : o = .ok ((ret, io), k))
      (hret : ret ≤ 0)
      (eq : run = .ok ((ret, { iocb with kiPos := oldPos }),
        k.setInode ino { k.inode ino with indexBlock := old.indexBlock, iSize := old.iSize }))
  | stuck {ret : Int} {io : Kiocb} {k : Kernel} {e : Crash × Kernel}
      (hrun : o = .ok ((ret, io), k)) (hret : 0 < ret)
      (hdel : deleteSlice k (k.inode ino).getBno (k.inode ino).getSlice (k.inode ino).numSlices =
        .error e)
      (eq : run = .error e)
  | converted {ret r : Int} {io : Kiocb} {k k₁ : Kernel} (hrun : o = .ok ((ret, io), k))
      (hret : 0 < ret)
      (hdel : deleteSlice k (k.inode ino).getBno (k.inode ino).getSlice (k.inode ino).numSlices =
        .ok (r, k₁))
      (eq : run = .ok ((r, { iocb with kiPos := writePos + count }), k₁))

theorem finishConversion_exits (old : Inode) (ino oldPos writePos count : Nat) (iocb : Kiocb)
    (o : Outcome (Int × Kiocb)) {run : Outcome (Int × Kiocb)} :
    finishConversion old ino oldPos writePos count iocb o = run ↔
      ConversionExit old ino oldPos writePos count iocb o run := by
  constructor
  · intro h
    unfold finishConversion at h
    split at h
    · exact .stopped rfl h.symm
    simp only at h
    split at h
    · rename_i hret
      split at h
      · rename_i hdel
        exact .stuck rfl hret hdel h.symm
      · rename_i hdel
        exact .converted rfl hret hdel h.symm
    · rename_i hret
      exact .restored rfl (Int.not_lt.1 hret) h.symm
  · rintro (⟨rfl, rfl⟩ | ⟨rfl, hret, rfl⟩ | ⟨rfl, hret, hdel, rfl⟩ | ⟨rfl, hret, hdel, rfl⟩)
    · rfl
    · simp only [finishConversion, gt_iff_lt, Int.not_lt.2 hret, if_false]
    · simp only [finishConversion, gt_iff_lt, hret, if_true, hdel]
    · simp only [finishConversion, gt_iff_lt, hret, if_true, hdel]

/-- The exits of `convert_small_to_big`. -/
inductive ConvertExit (k : Kernel) (ino : Nat) (iocb : Kiocb) (data : List UInt8)
    (run : Outcome (Int × Kiocb)) : Prop
  | unread {k₁ : Kernel} (hread : k.sbBread (k.inode ino).getBno = (false, k₁))
      (eq : run = .ok ((- EIO, iocb), k₁))
  | noCopy {k₁ k₂ : Kernel} (hread : k.sbBread (k.inode ino).getBno = (true, k₁))
      (hmalloc : k₁.kmalloc = (false, k₂))
      (eq : run = .ok ((-ENOMEM, iocb), k₂.brelse (k.inode ino).getBno))
  | fault {k₁ k₂ k₃ : Kernel} {copied : List UInt8}
      (hread : k.sbBread (k.inode ino).getBno = (true, k₁)) (hmalloc : k₁.kmalloc = (true, k₂))
      (hcopy : (k₂.brelse (k.inode ino).getBno).copyFromIter data.length data = (copied, k₃))
      (hlen : copied.length ≠ data.length) (eq : run = .ok ((-EFAULT, iocb), k₃))
  | noBuffer {k₁ k₂ k₃ k₄ : Kernel} {copied : List UInt8}
      (hread : k.sbBread (k.inode ino).getBno = (true, k₁)) (hmalloc : k₁.kmalloc = (true, k₂))
      (hcopy : (k₂.brelse (k.inode ino).getBno).copyFromIter data.length data = (copied, k₃))
      (hlen : copied.length = data.length) (hmalloc' : k₃.kmalloc = (false, k₄))
      (eq : run = .ok ((-ENOMEM, iocb), k₄))
  | combined {k₁ k₂ k₃ k₄ : Kernel} {copied : List UInt8}
      (hread : k.sbBread (k.inode ino).getBno = (true, k₁)) (hmalloc : k₁.kmalloc = (true, k₂))
      (hcopy : (k₂.brelse (k.inode ino).getBno).copyFromIter data.length data = (copied, k₃))
      (hlen : copied.length = data.length) (hmalloc' : k₃.kmalloc = (true, k₄))
      (eq : run = finishConversion (k.inode ino) ino iocb.kiPos (iocb.startPos (k.inode ino))
        data.length iocb (writeBigFile (k₄.setInode ino { k.inode ino with iSize := 0 }) ino
          { kiPos := 0, append := false }
          (combinedBuf ((k₂.fs.disk (k.inode ino).getBno).bytes ((k.inode ino).getSlice * 128)
            (k.inode ino).iSize) (iocb.startPos (k.inode ino)) copied)))

/-- **The exits of `convert_small_to_big`.** -/
theorem convertSmallToBig_exits (k : Kernel) (ino : Nat) (iocb : Kiocb) (data : List UInt8)
    {run : Outcome (Int × Kiocb)} :
    convertSmallToBig k ino iocb data = run ↔ ConvertExit k ino iocb data run := by
  constructor
  · intro h
    unfold convertSmallToBig at h
    simp only at h
    split at h
    · rename_i hread
      exact .unread hread h.symm
    rename_i k₁ hread
    split at h
    · rename_i hmalloc
      exact .noCopy hread hmalloc h.symm
    rename_i k₂ hmalloc
    rcases hcopy : (k₂.brelse (k.inode ino).getBno).copyFromIter data.length data with ⟨copied, k₃⟩
    rw [hcopy] at h
    simp only at h
    split at h
    · rename_i hlen
      exact .fault hread hmalloc hcopy hlen h.symm
    rename_i hlen
    have hlen := Decidable.not_not.1 hlen
    split at h
    · rename_i hmalloc'
      exact .noBuffer hread hmalloc hcopy hlen hmalloc' h.symm
    · rename_i hmalloc'
      exact .combined hread hmalloc hcopy hlen hmalloc' h.symm
  · rintro (⟨hread, rfl⟩ | ⟨hread, hmalloc, rfl⟩ | ⟨hread, hmalloc, hcopy, hlen, rfl⟩ |
      ⟨hread, hmalloc, hcopy, hlen, hmalloc', rfl⟩ | ⟨hread, hmalloc, hcopy, hlen, hmalloc', rfl⟩)
    · simp only [convertSmallToBig, hread]
    · simp only [convertSmallToBig, hread, hmalloc]
    · simp only [convertSmallToBig, hread, hmalloc, hcopy, hlen, ne_eq, not_false_eq_true, if_true]
    · simp only [convertSmallToBig, hread, hmalloc, hcopy, hlen, ne_eq, not_true_eq_false,
        if_false, hmalloc']
    · simp only [convertSmallToBig, hread, hmalloc, hcopy, hlen, ne_eq, not_true_eq_false,
        if_false, hmalloc']

end Big

end Ouichefs
