import Ouichefs.SmallFile

/-!
# Writing big files (`write_big_file`)

A big file has an index block with up to 1024 pointers to data blocks; pointer 0 is a hole.
`writeBigLoop` is the copy loop, one iteration per touched block; its fuel is the number of bytes
still to copy, and every iteration copies at least one.
-/

set_option autoImplicit false

namespace Ouichefs

/-- `index->blocks[i]`. -/
def indexPtr (b : Block) (i : Nat) : Nat := b.word (4 * i)

/-- The data block behind pointer `blockIdx` of index block `idx`, allocated if it is a hole. -/
def getDataBlock (k : Kernel) (idx blockIdx : Nat) : Nat × Kernel :=
  let physicalBlock := indexPtr (k.fs.disk idx) blockIdx
  if physicalBlock = 0 then
    match k.getFreeBlock with
    | (0, k) => (0, k)
    | (b + 1, k) => (b + 1, k.setBlock idx ((k.fs.disk idx).setWord (4 * blockIdx) (b + 1)))
  else (physicalBlock, k)

/-- Zero the part of the gap `[iSize, pos)` that lies in block `blockIdx` of the file. -/
def zeroGap (b : Block) (iSize pos blockIdx : Nat) : Block :=
  if pos > iSize ∧ iSize / 4096 = blockIdx then
    b.fill (iSize % 4096) (min (pos - iSize) (4096 - iSize % 4096))
  else b

/-- The copy loop.  On success the final position; an error value is `ret`. -/
def writeBigLoop (iSize idx : Nat) : Nat → Kernel → Nat → List UInt8 → Outcome (Except Int Nat)
  | _, k, pos, [] => .ok (.ok pos, k)
  | 0, k, _, _ :: _ => .error (.hang, k)
  | fuel + 1, k, pos, x :: xs =>
    let data := x :: xs
    let blockIdx := pos / 4096
    let blockOffset := pos % 4096
    let toWrite := min data.length (4096 - blockOffset)
    if blockIdx ≥ 1024 then .ok (.error (-EFBIG), k)
    else
      match getDataBlock k idx blockIdx with
      | (0, k) => .ok (.error (-ENOSPC), k)
      | (b + 1, k) =>
        match k.sbBread (b + 1) with
        | (false, k) => .ok (.error (- EIO), k)
        | (true, k) =>
          let k := k.setBlock (b + 1) (zeroGap (k.fs.disk (b + 1)) iSize pos blockIdx)
          match k.copyFromIter toWrite data with
          | (copied, k) =>
            let k := k.setBlock (b + 1) ((k.fs.disk (b + 1)).blit blockOffset copied)
            if copied.length ≠ toWrite then
              -- released here and again at `out`
              .ok (.error (-EFAULT), (k.brelse (b + 1)).brelse (b + 1))
            else
              writeBigLoop iSize idx fuel (k.brelse (b + 1)) (pos + toWrite) (data.drop toWrite)

/-- Give a file without index block one; `false` when no block is free. -/
def ensureIndexBlock (k : Kernel) (ino : Nat) : Bool × Kernel :=
  if (k.inode ino).indexBlock = 0 then
    match k.getFreeBlock with
    | (0, k) => (false, k)
    | (b + 1, k) => (true, k.setInode ino { k.inode ino with indexBlock := b + 1 })
  else (true, k)

/-- The up-front space check; `i_blocks - 1` is unsigned and wraps for a new file. -/
def enoughBlocks (k : Kernel) (ino newSize : Nat) : Bool :=
  let nrAllocs := divRoundUp newSize 4096 % 4294967296
  let present := pred64 (k.inode ino).iBlocks
  if nrAllocs > present then decide (sub32 nrAllocs present ≤ k.fs.sbi.nrFreeBlocks)
  else true

/-- `write_big_file`. -/
def writeBigFile (k : Kernel) (ino : Nat) (iocb : Kiocb) (data : List UInt8) :
    Outcome (Int × Kiocb) :=
  let ci := k.inode ino
  let pos := iocb.startPos ci
  let newSize := max (pos + data.length) ci.iSize
  match ensureIndexBlock k ino with
  | (false, k) => .ok ((-ENOSPC, iocb), k)
  | (true, k) =>
    if enoughBlocks k ino newSize = false then .ok ((-ENOSPC, iocb), k)
    else
      let idx := (k.inode ino).indexBlock
      match k.sbBread idx with
      | (false, k) => .ok ((- EIO, iocb), k)
      | (true, k) =>
        match writeBigLoop ci.iSize idx data.length k pos data with
        | .error e => .error e
        | .ok (.error ret, k) => .ok ((ret, iocb), k.brelse idx)
        | .ok (.ok endPos, k) =>
          let iSize := max endPos ci.iSize
          let k := k.setInode ino
            { k.inode ino with
              iSize := iSize, iBlocks := divRoundUp iSize 4096 + 1,
              iMtime := k.now, iCtime := k.now }
          .ok (((data.length : Int), { iocb with kiPos := endPos }), k.brelse idx)

end Ouichefs
