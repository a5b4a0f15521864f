import Ouichefs.Bitmap
import Ouichefs.Lib.RunMask

/-!
# Sliced blocks (`file.c`)

A sliced block starts with a 32-bit bitmap of its free slices (bit 0 is the header and always
clear) and the number of the next sliced block; `sbi->s_free_sliced_blocks` is the head of the
chain.  This file models `init_slice_block`, `allocate_and_init_slice_block`,
`get_consequitive_free_slices`, `delete_slice` and `delete_slice_and_clear_inode`.

Loops over the chain have no bound in the source.  `pruneFuel` is large enough that a walk which
exhausts it repeats a block in an unchanged state: it never ends, and the model reports `hang`.
-/

set_option autoImplicit false

namespace Ouichefs

/-- `OUICHEFS_SLICED_BLOCK_SB_BITMAP`. -/
def sliceBitmap (b : Block) : BitVec 32 := BitVec.ofNat 32 (b.word 0)

/-- `OUICHEFS_SLICED_BLOCK_SB_SET_BITMAP`. -/
def setSliceBitmap (b : Block) (val : BitVec 32) : Block := b.setWord 0 val.toNat

/-- `OUICHEFS_SLICED_BLOCK_SB_NEXT`. -/
def sliceNext (b : Block) : Nat := b.word 4

/-- The successor of a sliced block. -/
def Fs.next (fs : Fs) (b : Nat) : Nat := sliceNext (fs.disk b)

/-- `OUICHEFS_SLICED_BLOCK_SB_SET_NEXT`. -/
def setSliceNext (b : Block) (val : Nat) : Block := b.setWord 4 val

/-- `OUICHEFS_BITMAP_ALL_FREE`. -/
def bitmapAllFree : BitVec 32 := 4294967294#32

/-- `init_slice_block`: every slice free; the next word is left as it was. -/
def initSliceBlock (k : Kernel) (block : Nat) : Bool × Kernel :=
  match k.sbBread block with
  | (false, k) => (false, k)
  | (true, k) => (true, k.setBlock block (setSliceBitmap (k.fs.disk block) bitmapAllFree))

/-- `allocate_and_init_slice_block`: a positive block number, whose buffer is held, or an error. -/
def allocateAndInitSliceBlock (k : Kernel) : Int × Kernel :=
  match k.getFreeBlock with
  | (freeBlock, k) =>
    if freeBlock = 0 ∨ freeBlock > 134217728 then (-ENOSPC, k.putBlock freeBlock)
    else
      match initSliceBlock k freeBlock with
      | (false, k) => (- EIO, k.putBlock freeBlock)
      | (true, k) =>
        (freeBlock,
          k.setSbi { k.fs.sbi with nrSlicedBlocks := add32 k.fs.sbi.nrSlicedBlocks 1 })

/-- The search loop of `get_consequitive_free_slices`: `n` iterations from slice `i` on. -/
def searchSlices (bitmap : BitVec 32) : Nat → Nat → BitVec 32 → Option (Nat × BitVec 32)
  | 0, _, _ => none
  | n + 1, i, mask =>
    if bitmap ||| mask = bitmap then some (i, mask)
    else searchSlices bitmap n (i + 1) (mask <<< 1)

/-- `get_consequitive_free_slices` on the buffer of block `bno`: the first slice, or 0. -/
def getConsequitiveFreeSlices (k : Kernel) (bno ino fileSize : Nat) : Nat × Kernel :=
  if fileSize > 4096 then (0, k)
  else
    let bitmap := sliceBitmap (k.fs.disk bno)
    let numSlicesNeeded := divRoundUp fileSize 128
    match searchSlices bitmap (32 - numSlicesNeeded) 1 (runMask 32 numSlicesNeeded 1) with
    | none => (0, k)
    | some (slice, mask) =>
      let k := k.setBlock bno (setSliceBitmap (k.fs.disk bno) (bitmap &&& ~~~mask))
      (slice, k.setInode ino { k.inode ino with numSlices := numSlicesNeeded % 65536 })

/-! ## Deletion -/

/-- Iterations after which the walk of `delete_slice` cannot end any more. -/
def pruneFuel (sbi : SbInfo) : Nat := (sbi.nrBlocks + 1) * (sbi.nrBlocks + 1)

def brelsePrev (k : Kernel) : Option Nat → Kernel
  | none => k
  | some p => k.brelse p

/-- The loop of `delete_slice`: unlink, scrub and release the blocks whose bitmap is all free.
`prev` is the last block that was kept. -/
def pruneChain : Nat → Kernel → Nat → Option Nat → Outcome Int
  | _, k, 0, prev => .ok (0, brelsePrev k prev)
  | 0, k, _ + 1, _ => .error (.hang, k)
  | fuel + 1, k, cur + 1, prev =>
    match k.sbBread (cur + 1) with
    | (false, k) => .ok (- EIO, brelsePrev k prev)
    | (true, k) =>
      let next := sliceNext (k.fs.disk (cur + 1))
      if sliceBitmap (k.fs.disk (cur + 1)) = bitmapAllFree then
        let k :=
          match prev with
          | some p => k.setBlock p (setSliceNext (k.fs.disk p) next)
          | none => k.setSbi { k.fs.sbi with sFreeSlicedBlocks := next }
        let k := k.setSbi { k.fs.sbi with nrSlicedBlocks := sub32 k.fs.sbi.nrSlicedBlocks 1 }
        let k := k.setBlock (cur + 1) Page.zero
        let k := (k.putBlock (cur + 1)).brelse (cur + 1)
        pruneChain fuel k next prev
      else
        pruneChain fuel (brelsePrev k prev) next (some (cur + 1))

/-- `delete_slice`. -/
def deleteSlice (k : Kernel) (bno sliceNo numSlices : Nat) : Outcome Int :=
  if bno = 0 then .ok (0, k)
  else if numSlices = 0 then .ok (0, k)
  else
    match k.sbBread bno with
    | (false, k) => .ok (- EIO, k)
    | (true, k) =>
      let b := k.fs.disk bno
      let b := setSliceBitmap b (sliceBitmap b ||| runMask 32 numSlices sliceNo)
      let b := b.fill (sliceNo * 128) (numSlices * 128)
      let k := k.setBlock bno b
      let k := k.setSbi { k.fs.sbi with nrUsedSlices := sub32 k.fs.sbi.nrUsedSlices numSlices }
      let k := k.brelse bno
      pruneChain (pruneFuel k.fs.sbi) k k.fs.sbi.sFreeSlicedBlocks none

/-- `delete_slice_and_clear_inode`. -/
def deleteSliceAndClearInode (k : Kernel) (ino : Nat) : Outcome Int :=
  let ci := k.inode ino
  match deleteSlice k ci.getBno ci.getSlice ci.numSlices with
  | .error e => .error e
  | .ok (ret, k) =>
    if ret < 0 then .ok (ret, k)
    else .ok (0, k.setInode ino { k.inode ino with indexBlock := 0, iSize := 0 })

end Ouichefs
