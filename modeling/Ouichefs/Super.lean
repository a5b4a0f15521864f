import Ouichefs.Inode
import Ouichefs.Lib.Window

/-!
# Superblock (`super.c`, `bitmap.h`)

Writing the in-memory superblock and the two free bitmaps to the device (`ouichefs_sync_fs`) and
reading them back (`ouichefs_fill_super`).

* On the device a bitmap is an array of little-endian 64-bit words, in memory an array of
  `unsigned long`; `LongSize` is the width of a `long`.  The content of an array of longs is its bit
  stream, so a `long` is a window of the stream.
* The address of the part of the bitmap for block `i` is `bitmap + i * OUICHEFS_BLOCK_SIZE`, where
  the product is a signed 32-bit `int`.  An access outside the array is a crash.
-/

set_option autoImplicit false

namespace Ouichefs

/-! ## The device -/

/-- A block device with `size` blocks. -/
structure Device where
  size : Nat
  block : Nat → Block
  faults : List Answer

namespace Device

/-- One answer of the environment. -/
def answer (d : Device) : Bool × Device :=
  match d.faults with
  | [] => (true, d)
  | .success :: rest => (true, { d with faults := rest })
  | .failure _ :: rest => (false, { d with faults := rest })

/-- `sb_bread` of a block number held in an `int`: a negative one is past the end. -/
def sbBread (d : Device) (idx : Nat) : Bool × Device :=
  if 2147483648 ≤ idx ∨ d.size ≤ idx then (false, d) else d.answer

def kzalloc (d : Device) : Bool × Device := d.answer

def setBlock (d : Device) (bno : Nat) (b : Block) : Device :=
  { d with block := Function.update d.block bno b }

end Device

/-- `BITS_PER_LONG`. -/
inductive LongSize where
  | bits32
  | bits64
  deriving DecidableEq, Repr

/-! ## Copying one block of a bitmap -/

/-- Store a little-endian 64-bit field. -/
def setDword (b : Block) (off v : Nat) : Block :=
  (b.setWord off (v % 4294967296)).setWord (off + 4) (v / 4294967296)

/-- The loop of `copy_bitmap_to_le64`, `n` iterations; `p` is the position of `src[0]` in the bit
stream. -/
def copyToLoop (long : LongSize) (src : Nat → Bool) (p : Nat) : Nat → Block → Block
  | 0, dst => dst
  | i + 1, dst =>
    let dst := copyToLoop long src p i dst
    match long with
    | .bits64 => setDword dst (8 * i) (loadBits src (p + 64 * i) 64)
    | .bits32 => setDword dst (8 * i)
        ((loadBits src (p + 32 * (2 * i + 1)) 32 <<< 32) ||| loadBits src (p + 32 * (2 * i)) 32)

/-- The loop of `copy_bitmap_from_le64`. -/
def copyFromLoop (long : LongSize) (src : Block) (p : Nat) : Nat → (Nat → Bool) → Nat → Bool
  | 0, dst => dst
  | i + 1, dst =>
    let dst := copyFromLoop long src p i dst
    let v := dword src (8 * i)
    match long with
    | .bits64 => storeBits dst (p + 64 * i) 64 v
    | .bits32 => storeBits (storeBits dst (p + 32 * (2 * i)) 32 (v % 4294967296))
        (p + 32 * (2 * i + 1)) 32 (v / 4294967296)

/-- `copy_bitmap_to_le64`, from byte offset `off` of a bitmap of `bytes` bytes. -/
def copyBitmapToLe64 (long : LongSize) (dst : Block) (src : Nat → Bool) (bytes : Nat) (off : Int) :
    Option Block :=
  if 0 ≤ off ∧ off + 4096 ≤ bytes then some (copyToLoop long src (8 * off.toNat) 512 dst) else none

/-- `copy_bitmap_from_le64`, to byte offset `off` of a bitmap of `bytes` bytes. -/
def copyBitmapFromLe64 (long : LongSize) (dst : Nat → Bool) (bytes : Nat) (off : Int)
    (src : Block) : Option (Nat → Bool) :=
  if 0 ≤ off ∧ off + 4096 ≤ bytes then some (copyFromLoop long src (8 * off.toNat) 512 dst)
  else none

/-- `i * OUICHEFS_BLOCK_SIZE` in `int`. -/
def blockOffset (i : Nat) : Int :=
  if 4096 * i % 4294967296 < 2147483648 then (4096 * i % 4294967296 : Nat)
  else (4096 * i % 4294967296 : Nat) - 4294967296

/-! ## `ouichefs_write_inode` -/

/-- Store a little-endian 16-bit field. -/
def setHalf (b : Block) (off v : Nat) : Block := b.blit off [UInt8.ofNat v, UInt8.ofNat (v / 256)]

/-- The stores of `ouichefs_write_inode` into record `shift` of an inode-store block. -/
def encodeInode (b : Block) (shift : Nat) (ci : Inode) : Block :=
  let off := 80 * shift
  let b := b.setWord off ci.iMode
  let b := b.setWord (off + 4) ci.iUid
  let b := b.setWord (off + 8) ci.iGid
  let b := b.setWord (off + 12) ci.iSize
  let b := b.setWord (off + 16) ci.iCtime.tvSec
  let b := setDword b (off + 24) ci.iCtime.tvNsec
  let b := b.setWord (off + 32) ci.iAtime.tvSec
  let b := setDword b (off + 40) ci.iAtime.tvNsec
  let b := b.setWord (off + 48) ci.iMtime.tvSec
  let b := setDword b (off + 56) ci.iMtime.tvNsec
  let b := b.setWord (off + 64) ci.iBlocks
  let b := b.setWord (off + 68) ci.iNlink
  let b := b.setWord (off + 72) ci.indexBlock
  setHalf b (off + 76) ci.numSlices

/-- `ouichefs_write_inode`. -/
def ouichefsWriteInode (k : Kernel) (ino : Nat) : Int × Kernel :=
  let inodeBlock := ino / 51 + 1
  if ino ≥ k.fs.sbi.nrInodes then (0, k)
  else
    match k.sbBread inodeBlock with
    | (false, k) => (- EIO, k)
    | (true, k) =>
      (0, (k.setBlock inodeBlock
        (encodeInode (k.fs.disk inodeBlock) (ino % 51) (k.inode ino))).brelse inodeBlock)

/-! ## `ouichefs_sync_fs` -/

/-- `struct ouichefs_sb_info` with the sizes of the two arrays it points to. -/
structure SbMem extends SbInfo where
  ifreeBytes : Nat
  bfreeBytes : Nat

/-- The stores of `sync_sb_info`. -/
def encodeSb (b : Block) (sbi : SbInfo) : Block :=
  let b := b.setWord 4 sbi.nrBlocks
  let b := b.setWord 8 sbi.nrInodes
  let b := b.setWord 12 sbi.nrIstoreBlocks
  let b := b.setWord 16 sbi.nrIfreeBlocks
  let b := b.setWord 20 sbi.nrBfreeBlocks
  let b := b.setWord 28 sbi.nrFreeInodes
  let b := b.setWord 32 sbi.nrFreeBlocks
  let b := b.setWord 40 sbi.sFreeSlicedBlocks
  let b := b.setWord 36 sbi.nrUsedSlices
  b.setWord 24 sbi.nrSlicedBlocks

def syncSbInfo (sbi : SbMem) (d : Device) : Int × Device :=
  match d.sbBread 0 with
  | (false, d) => (- EIO, d)
  | (true, d) => (0, d.setBlock 0 (encodeSb (d.block 0) sbi.toSbInfo))

/-- The loop of `sync_ifree` and `sync_bfree` from block `i` of the bitmap on, `n` blocks; block 0
of the bitmap is at `first + 1`. -/
def syncLoop (long : LongSize) (bitmap : Nat → Bool) (bytes first : Nat) :
    Nat → Nat → Device → Except Crash (Int × Device)
  | 0, _, d => .ok (0, d)
  | n + 1, i, d =>
    let idx := (first + i + 1) % 4294967296
    match d.sbBread idx with
    | (false, d) => .ok (- EIO, d)
    | (true, d) =>
      match copyBitmapToLe64 long (d.block idx) bitmap bytes (blockOffset i) with
      | none => .error .outOfBounds
      | some b => syncLoop long bitmap bytes first n (i + 1) (d.setBlock idx b)

def syncIfree (long : LongSize) (sbi : SbMem) (d : Device) : Except Crash (Int × Device) :=
  syncLoop long sbi.ifreeBitmap sbi.ifreeBytes sbi.nrIstoreBlocks sbi.nrIfreeBlocks 0 d

def syncBfree (long : LongSize) (sbi : SbMem) (d : Device) : Except Crash (Int × Device) :=
  syncLoop long sbi.bfreeBitmap sbi.bfreeBytes (sbi.nrIstoreBlocks + sbi.nrIfreeBlocks)
    sbi.nrBfreeBlocks 0 d

/-- `ouichefs_sync_fs`. -/
def ouichefsSyncFs (long : LongSize) (sbi : SbMem) (d : Device) : Except Crash (Int × Device) :=
  match syncSbInfo sbi d with
  | (ret, d) =>
    if ret ≠ 0 then .ok (ret, d)
    else
      match syncIfree long sbi d with
      | .error e => .error e
      | .ok (ret, d) =>
        if ret ≠ 0 then .ok (ret, d)
        else
          match syncBfree long sbi d with
          | .error e => .error e
          | .ok (ret, d) => .ok (ret, d)

/-! ## Loading -/

/-- `OUICHEFS_MAGIC`. -/
def magic : Nat := 0x48434957

/-- The counters `ouichefs_fill_super` copies; the bitmaps are still zero. -/
def decodeSb (b : Block) : SbInfo where
  nrBlocks := b.word 4
  nrInodes := b.word 8
  nrIstoreBlocks := b.word 12
  nrIfreeBlocks := b.word 16
  nrBfreeBlocks := b.word 20
  nrFreeInodes := b.word 28
  nrFreeBlocks := b.word 32
  sFreeSlicedBlocks := b.word 40
  nrUsedSlices := b.word 36
  nrSlicedBlocks := b.word 24
  ifreeBitmap _ := false
  bfreeBitmap _ := false

/-- The two loops of `ouichefs_fill_super` that read a bitmap. -/
def loadLoop (long : LongSize) (bytes first : Nat) :
    Nat → Nat → (Nat → Bool) → Device → Except Crash (Except Int (Nat → Bool) × Device)
  | 0, _, bitmap, d => .ok (.ok bitmap, d)
  | n + 1, i, bitmap, d =>
    let idx := (first + i + 1) % 4294967296
    match d.sbBread idx with
    | (false, d) => .ok (.error (- EIO), d)
    | (true, d) =>
      match copyBitmapFromLe64 long bitmap bytes (blockOffset i) (d.block idx) with
      | none => .error .outOfBounds
      | some bitmap => loadLoop long bytes first n (i + 1) bitmap d

/-- Allocate a bitmap of `nr` blocks, whose size is computed in 32 bits, and read it. -/
def loadBitmap (long : LongSize) (first nr : Nat) (d : Device) :
    Except Crash (Except Int (Nat → Bool) × Device) :=
  match d.kzalloc with
  | (false, d) => .ok (.error (-ENOMEM), d)
  | (true, d) => loadLoop long (nr * 4096 % 4294967296) first nr 0 (fun _ => false) d

/-- `ouichefs_fill_super` up to the point where both bitmaps are loaded. -/
def fillSuperLoad (long : LongSize) (d : Device) : Except Crash (Except Int SbMem × Device) :=
  match d.sbBread 0 with
  | (false, d) => .ok (.error (- EIO), d)
  | (true, d) =>
    if (d.block 0).word 0 ≠ magic then .ok (.error (-EPERM), d)
    else
      match d.kzalloc with
      | (false, d) => .ok (.error (-ENOMEM), d)
      | (true, d) =>
        let sbi := decodeSb (d.block 0)
        match loadBitmap long sbi.nrIstoreBlocks sbi.nrIfreeBlocks d with
        | .error e => .error e
        | .ok (.error ret, d) => .ok (.error ret, d)
        | .ok (.ok ifree, d) =>
          match loadBitmap long (sbi.nrIstoreBlocks + sbi.nrIfreeBlocks) sbi.nrBfreeBlocks d with
          | .error e => .error e
          | .ok (.error ret, d) => .ok (.error ret, d)
          | .ok (.ok bfree, d) =>
            .ok (.ok
              { sbi with
                ifreeBitmap := ifree, ifreeBytes := sbi.nrIfreeBlocks * 4096 % 4294967296,
                bfreeBitmap := bfree, bfreeBytes := sbi.nrBfreeBlocks * 4096 % 4294967296 }, d)

/-- `ouichefs_fill_super`: after both bitmaps are loaded it reads the root inode.  The root has no
parent directory; `d_make_root` and `ouichefs_register_sysfs` can fail. -/
def ouichefsFillSuper (long : LongSize) (now : Timespec) (fsuid fsgid : Nat) (d : Device) :
    Except Crash (Except Int Kernel) :=
  match fillSuperLoad long d with
  | .error e => .error e
  | .ok (.error ret, _) => .ok (.error ret)
  | .ok (.ok sbi, d) =>
    let k : Kernel := ⟨⟨sbi.toSbInfo, d.block, fun _ => none⟩, d.faults, [], now, fsuid, fsgid⟩
    match ouichefsIget k 1 with
    | (err, k) =>
      if err ≠ 0 then .ok (.error err)
      else
        let k := k.setInode 1 (inodeInitOwner k (k.inode 1) Inode.blank (k.inode 1).iMode)
        match k.kmalloc with
        | (false, _) => .ok (.error (-ENOMEM))
        | (true, k) =>
          match k.kmalloc with
          | (false, _) => .ok (.error (-ENOMEM))
          | (true, k) => .ok (.ok k)

end Ouichefs
