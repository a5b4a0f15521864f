import Ouichefs.BigFile

/-!
# File operations (`file.c`)

`custom_write_iter` with its size-class dispatch, `convert_small_to_big`, `custom_read_iter` and
`ouichefs_open`.
-/

set_option autoImplicit false

namespace Ouichefs

/-- `is_small_file`. -/
def isSmallFile (ci : Inode) : Bool := ci.iBlocks == 0

/-- `is_new`. -/
def isNew (indexBlock : Nat) : Bool := indexBlock == 0

/-- `will_be_small`. -/
def willBeSmall (newSize : Nat) : Bool := decide (newSize ≤ 3968)

/-- The end of `convert_small_to_big`: delete the slices, or restore the old inode. -/
def finishConversion (old : Inode) (ino oldPos writePos count : Nat) (iocb : Kiocb) :
    Outcome (Int × Kiocb) → Outcome (Int × Kiocb)
  | .error e => .error e
  | .ok ((ret, _), k) =>
    if ret > 0 then
      let ci := k.inode ino
      match deleteSlice k ci.getBno ci.getSlice ci.numSlices with
      | .error e => .error e
      -- the result of `delete_slice` replaces the byte count
      | .ok (ret, k) => .ok ((ret, { iocb with kiPos := writePos + count }), k)
    else
      .ok ((ret, { iocb with kiPos := oldPos }),
        k.setInode ino { k.inode ino with indexBlock := old.indexBlock, iSize := old.iSize })

/-- `convert_small_to_big`. -/
def convertSmallToBig (k : Kernel) (ino : Nat) (iocb : Kiocb) (data : List UInt8) :
    Outcome (Int × Kiocb) :=
  let ci := k.inode ino
  let writePos := iocb.startPos ci
  match k.sbBread ci.getBno with
  | (false, k) => .ok ((- EIO, iocb), k)
  | (true, k) =>
    match k.kmalloc with
    | (false, k) => .ok ((-ENOMEM, iocb), k.brelse ci.getBno)
    | (true, k) =>
      let old := (k.fs.disk ci.getBno).bytes (ci.getSlice * 128) ci.iSize
      match (k.brelse ci.getBno).copyFromIter data.length data with
      | (copied, k) =>
        if copied.length ≠ data.length then .ok ((-EFAULT, iocb), k)
        else
          match k.kmalloc with
          | (false, k) => .ok ((-ENOMEM, iocb), k)
          | (true, k) =>
            let k := k.setInode ino { ci with iSize := 0 }
            finishConversion ci ino iocb.kiPos writePos data.length iocb
              (writeBigFile k ino { kiPos := 0, append := false } (combinedBuf old writePos copied))

/-- `custom_write_iter`. -/
def customWriteIter (k : Kernel) (ino : Nat) (iocb : Kiocb) (data : List UInt8) :
    Outcome (Int × Kiocb) :=
  let ci := k.inode ino
  let newSize := max (iocb.kiPos + data.length) ci.iSize
  if isNew ci.indexBlock then
    if willBeSmall newSize then writeSmallFile k ino iocb data
    else writeBigFile k ino iocb data
  else if !isSmallFile ci then writeBigFile k ino iocb data
  else if willBeSmall newSize then writeSmallFile k ino iocb data
  else convertSmallToBig k ino iocb data

/-! ## Reading -/

/-- What a read call hands to user space. -/
structure ReadResult where
  ret : Int
  kiPos : Nat
  delivered : List UInt8
  deriving DecidableEq, Repr

/-- The loop of `custom_read_iter` over the blocks of a big file. -/
def readBigLoop (idx : Nat) : Nat → Kernel → Nat → Nat → List UInt8 →
    Outcome (Except (Int × List UInt8) (Nat × List UInt8))
  | _, k, pos, 0, acc => .ok (.ok (pos, acc), k)
  | 0, k, _, _ + 1, _ => .error (.hang, k)
  | fuel + 1, k, pos, count + 1, acc =>
    let blockIdx := pos / 4096
    let blockOffset := pos % 4096
    let toRead := min (count + 1) (4096 - blockOffset)
    if blockIdx ≥ 1024 then .ok (.error (-EFBIG, acc), k)
    else
      let physicalBlock := indexPtr (k.fs.disk idx) blockIdx
      if physicalBlock = 0 then
        match k.copyFromIter toRead (List.replicate toRead 0) with
        | (zeros, k) =>
          if zeros.length ≠ toRead then .ok (.error (-EFAULT, acc ++ zeros), k)
          else readBigLoop idx fuel k (pos + toRead) (count + 1 - toRead) (acc ++ zeros)
      else
        match k.sbBread physicalBlock with
        | (false, k) => .ok (.error (- EIO, acc), k)
        | (true, k) =>
          match k.copyFromIter toRead ((k.fs.disk physicalBlock).bytes blockOffset toRead) with
          | (copied, k) =>
            if copied.length ≠ toRead then
              .ok (.error (-EFAULT, acc ++ copied),
                (k.brelse physicalBlock).brelse physicalBlock)
            else
              readBigLoop idx fuel (k.brelse physicalBlock) (pos + toRead) (count + 1 - toRead)
                (acc ++ copied)

/-- `custom_read_iter` at position `pos` for `count` bytes. -/
def customReadIter (k : Kernel) (ino pos count : Nat) : Outcome ReadResult :=
  let ci := k.inode ino
  if pos ≥ ci.iSize then .ok (⟨0, pos, []⟩, k)
  else
    let count := if pos + count > ci.iSize then ci.iSize - pos else count
    if count = 0 then .ok (⟨0, pos, []⟩, k)
    else if isSmallFile ci then
      let bno := ci.getBno
      let sliceNo := ci.getSlice
      match k.sbBread bno with
      | (false, k) => .ok (⟨- EIO, pos, []⟩, k)
      | (true, k) =>
        if sliceNo = 0 ∨ sliceNo ≥ 32 then
          .ok (⟨- EIO, pos, []⟩, (k.brelse bno).brelse bno)
        else
          match k.copyFromIter count ((k.fs.disk bno).bytes (sliceNo * 128) count) with
          | (copied, k) =>
            if copied.length ≠ count then
              .ok (⟨-EFAULT, pos, copied⟩, (k.brelse bno).brelse bno)
            -- the position is set to the count, and the copy starts at the first byte
            else .ok (⟨count, count, copied⟩, k.brelse bno)
    else if ci.indexBlock = 0 then .ok (⟨0, pos, []⟩, k)
    else
      match k.sbBread ci.indexBlock with
      | (false, k) => .ok (⟨- EIO, pos, []⟩, k)
      | (true, k) =>
        match readBigLoop ci.indexBlock count k pos count [] with
        | .error e => .error e
        | .ok (.error (ret, out), k) => .ok (⟨ret, pos, out⟩, k.brelse ci.indexBlock)
        | .ok (.ok (endPos, out), k) => .ok (⟨count, endPos, out⟩, k.brelse ci.indexBlock)

/-! ## Opening -/

/-- The truncation loop of `ouichefs_open` from pointer `i` on: release the block and clear the
pointer until a pointer is 0.  Pointer 1024 lies behind the end of the buffer. -/
def truncateLoop (idx : Nat) : Nat → Nat → Kernel → Outcome Unit
  | 0, _, k => .error (.outOfBounds, k)
  | n + 1, i, k =>
    if indexPtr (k.fs.disk idx) i = 0 then .ok ((), k)
    else
      let k := k.putBlock (indexPtr (k.fs.disk idx) i)
      truncateLoop idx n (i + 1) (k.setBlock idx ((k.fs.disk idx).setWord (4 * i) 0))

/-- The flags `ouichefs_open` looks at. -/
structure OpenFlags where
  wronly : Bool
  rdwr : Bool
  trunc : Bool
  deriving DecidableEq, Repr

/-- `ouichefs_open`. -/
def ouichefsOpen (k : Kernel) (ino : Nat) (flags : OpenFlags) : Outcome Int :=
  let ci := k.inode ino
  if (flags.wronly || flags.rdwr) && flags.trunc && ci.iSize != 0 then
    match k.sbBread ci.indexBlock with
    | (false, k) => .ok (- EIO, k)
    | (true, k) =>
      match truncateLoop ci.indexBlock 1024 0 k with
      | .error e => .error e
      | .ok ((), k) =>
        .ok (0, (k.setInode ino { k.inode ino with iSize := 0 }).brelse ci.indexBlock)
  else .ok (0, k)

end Ouichefs
