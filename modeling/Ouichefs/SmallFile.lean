import Ouichefs.Slice

/-!
# Writing small files (`write_small_file`)

`write_small_file` calls itself once, with the inode put into the never-written state, so the
recursion is unrolled: `writeSmallFileNew` is the function on a file with `index_block == 0` and
`rewriteSmallFile` the function on a file that has slices.  Both end in `copyToSlices`.
-/

set_option autoImplicit false

namespace Ouichefs

/-- `struct kiocb`: position and `IOCB_APPEND`. -/
structure Kiocb where
  kiPos : Nat
  append : Bool
  deriving DecidableEq, Repr

/-- The position at which the write functions start. -/
def Kiocb.startPos (iocb : Kiocb) (ci : Inode) : Nat :=
  if iocb.append then ci.iSize else iocb.kiPos

/-- Overwrite `old` at `pos` with `data`, zero-filling a gap: the buffer `combined_buf` after
the copy of the old content, the `memset` of the gap and the copy of the user's data. -/
def combinedBuf (old : List UInt8) (pos : Nat) (data : List UInt8) : List UInt8 :=
  let buf := old ++ List.replicate (pos - old.length) 0
  buf.take pos ++ data ++ buf.drop (pos + data.length)

/-- Iterations after which the search loop of `write_small_file` cannot end any more. -/
def searchFuel (sbi : SbInfo) : Nat := (sbi.nrBlocks + 2) * (sbi.nrBlocks + 2)

/-- The search loop of `write_small_file`: try the block `cur`, whose buffer is held, then its
successors, and append a new block at the end of the chain.  An error value is `ret`. -/
def searchChain : Nat → Kernel → Nat → Nat → Nat → Outcome (Except Int (Nat × Nat))
  | 0, k, _, _, _ => .error (.hang, k)
  | fuel + 1, k, ino, newSize, cur =>
    match getConsequitiveFreeSlices k cur ino newSize with
    | (slice, k) =>
      if slice ≠ 0 then .ok (.ok (cur, slice), k)
      else
        let next := sliceNext (k.fs.disk cur)
        if next = 0 then
          match allocateAndInitSliceBlock k with
          | (freeBlock, k) =>
            if freeBlock ≤ 0 then .ok (.error freeBlock, k.brelse cur)
            else
              let k := k.setBlock cur (setSliceNext (k.fs.disk cur) freeBlock.toNat)
              searchChain fuel (k.brelse cur) ino newSize freeBlock.toNat
        else
          match k.sbBread next with
          -- the previous buffer is released here and again at `out`
          | (false, k) => .ok (.error (- EIO), (k.brelse cur).brelse cur)
          | (true, k) => searchChain fuel (k.brelse cur) ino newSize next

/-- Find slices for a file that has none. -/
def placeSlices (k : Kernel) (ino newSize : Nat) : Outcome (Except Int (Nat × Nat)) :=
  if k.fs.sbi.sFreeSlicedBlocks = 0 then
    match allocateAndInitSliceBlock k with
    | (ret, k) =>
      -- `block_to_write` is unsigned, so an error is stored as a huge block number
      let blockToWrite := (ret % 4294967296).toNat
      if blockToWrite = 0 then .ok (.error 0, k)
      else
        let k := k.setSbi { k.fs.sbi with sFreeSlicedBlocks := blockToWrite }
        if ret ≤ 0 then .error (.nullDeref, k)
        else searchChain (searchFuel k.fs.sbi) k ino newSize blockToWrite
  else
    let head := k.fs.sbi.sFreeSlicedBlocks
    match k.sbBread head with
    | (false, k) => .ok (.error (- EIO), k)
    | (true, k) => searchChain (searchFuel k.fs.sbi) k ino newSize head

/-- The common end of `write_small_file`: copy the data into the slices, update the inode. -/
def copyToSlices (k : Kernel) (ino : Nat) (iocb : Kiocb) (data : List UInt8)
    (pos newSize block slice : Nat) : Outcome (Int × Kiocb) :=
  match k.copyFromIter data.length data with
  | (copied, k) =>
    let k := k.setBlock block ((k.fs.disk block).blit (slice * 128 + pos) copied)
    if copied.length ≠ data.length then
      .ok ((-EFAULT, iocb), (k.brelse block).brelse block)
    else
      let k := k.setSbi
        { k.fs.sbi with nrUsedSlices := add32 k.fs.sbi.nrUsedSlices (divRoundUp newSize 128) }
      let k := k.brelse block
      let k := k.setInode ino
        { k.inode ino with
          iSize := newSize, iMtime := k.now, iCtime := k.now,
          indexBlock := add32 (32 * block) slice }
      .ok ((data.length, { iocb with kiPos := pos }), k)

/-- `write_small_file` on a file with `index_block == 0`. -/
def writeSmallFileNew (k : Kernel) (ino : Nat) (iocb : Kiocb) (data : List UInt8) :
    Outcome (Int × Kiocb) :=
  let ci := k.inode ino
  let pos := iocb.startPos ci
  let newSize := max (pos + data.length) ci.iSize
  match placeSlices k ino newSize with
  | .error e => .error e
  | .ok (.error ret, k) => .ok ((ret, iocb), k)
  | .ok (.ok (block, slice), k) => copyToSlices k ino iocb data pos newSize block slice

/-- The end of the relocating branch: delete the old slices, or restore the old inode. -/
def finishRelocation (old : Inode) (ino pos count : Nat) :
    Outcome (Int × Kiocb) → Outcome (Int × Kiocb)
  | .error e => .error e
  | .ok ((ret, iocb), k) =>
    if ret > 0 then
      match deleteSlice k old.getBno old.getSlice old.numSlices with
      | .error e => .error e
      | .ok (_, k) => .ok ((count, { iocb with kiPos := pos + count }), k)
    else
      .ok ((ret, { iocb with kiPos := pos }),
        k.setInode ino { k.inode ino with indexBlock := old.indexBlock, iSize := old.iSize })

/-- `write_small_file` on a file that already has slices. -/
def rewriteSmallFile (k : Kernel) (ino : Nat) (iocb : Kiocb) (data : List UInt8) :
    Outcome (Int × Kiocb) :=
  let ci := k.inode ino
  let pos := iocb.startPos ci
  let newSize := max (pos + data.length) ci.iSize
  if ci.numSlices = 0 then .ok ((- EIO, iocb), k)
  else if ci.getBno = 0 ∨ ci.getSlice = 0 then .ok ((- EIO, iocb), k)
  else
    match k.sbBread ci.getBno with
    | (false, k) => .ok ((- EIO, iocb), k)
    | (true, k) =>
      if ci.numSlices = divRoundUp newSize 128 then
        copyToSlices k ino iocb data pos newSize ci.getBno ci.getSlice
      else
        let oldBlock := k.fs.disk ci.getBno
        let k := k.setInode ino { ci with indexBlock := 0, iSize := 0 }
        if pos = 0 then
          finishRelocation ci ino pos data.length (writeSmallFileNew k ino iocb data)
        else
          match k.kmalloc with
          | (false, k) => .ok ((-ENOMEM, iocb), k.brelse ci.getBno)
          | (true, k) =>
            match k.copyFromIter data.length data with
            | (copied, k) =>
              if copied.length ≠ data.length then
                .ok ((-EFAULT, iocb), k.brelse ci.getBno)
              else
                match k.kmalloc with
                | (false, k) => .ok ((-ENOMEM, iocb), k.brelse ci.getBno)
                | (true, k) =>
                  let buf := combinedBuf (oldBlock.bytes (ci.getSlice * 128) ci.iSize) pos copied
                  finishRelocation ci ino pos data.length
                    (writeSmallFileNew k ino { kiPos := 0, append := false } buf)

/-- `write_small_file`. -/
def writeSmallFile (k : Kernel) (ino : Nat) (iocb : Kiocb) (data : List UInt8) :
    Outcome (Int × Kiocb) :=
  if (k.inode ino).indexBlock = 0 then writeSmallFileNew k ino iocb data
  else rewriteSmallFile k ino iocb data

end Ouichefs
