import Ouichefs.Super

/-!
# Formatting (`mkfs/mkfs-ouichefs.c`)

`mkfs` writes its five regions one after the other through a file descriptor; the kernel finds them
again by computing block numbers.

* `write` of one block is one call; `pos` counts blocks.  The file is never at its end: the regions
  are written only to a file of at least 100 blocks, and they are shorter than that or than
  `nr_blocks`.
* `printf`, `perror` and `free` are left out, and `write_data_blocks`, which does nothing.
-/

set_option autoImplicit false

namespace Ouichefs

/-! ## The file -/

/-- The file that is formatted; `size` is what `fstat` or `BLKGETSIZE64` reports, in bytes. -/
structure Fd where
  isBlk : Bool
  size : Nat
  block : Nat → Block
  pos : Nat
  faults : List Answer

namespace Fd

/-- A call that succeeds or not and leaves the file as it is: `open`, `fstat`, `ioctl`, `malloc`. -/
def call (fd : Fd) : Bool × Fd :=
  match fd.faults with
  | [] => (true, fd)
  | .success :: rest => (true, { fd with faults := rest })
  | .failure _ :: rest => (false, { fd with faults := rest })

/-- `write` of one block.  A short one stores the first bytes only. -/
def write (fd : Fd) (b : Block) : Bool × Fd :=
  let fd' := { fd with block := Function.update fd.block fd.pos b, pos := fd.pos + 1 }
  match fd.faults with
  | [] => (true, fd')
  | .success :: rest => (true, { fd' with faults := rest })
  | .failure n :: rest =>
    let part := (fd.block fd.pos).blit 0 (b.bytes 0 (min n 4095))
    (false, { fd with block := Function.update fd.block fd.pos part, faults := rest })

end Fd

/-! ## Superblock -/

/-- `idiv_ceil`. -/
def idivCeil (a b : Nat) : Nat := if a % b ≠ 0 then add32 (a / b) 1 else a / b

/-- `struct ouichefs_superblock`. -/
structure Superblock where
  magic : Nat
  nrBlocks : Nat
  nrInodes : Nat
  nrIstoreBlocks : Nat
  nrIfreeBlocks : Nat
  nrBfreeBlocks : Nat
  nrSlicedBlocks : Nat
  nrFreeInodes : Nat
  nrFreeBlocks : Nat
  nrUsedSlices : Nat
  sFreeSlicedBlocks : Nat
  deriving DecidableEq, Repr

/-- The numbers `write_superblock` computes. -/
def superblock (partitionSize : Nat) : Superblock :=
  let nrBlocks := partitionSize / 4096 % 4294967296
  let mod := nrBlocks % 51
  let nrInodes := if mod ≠ 0 then add32 nrBlocks mod else nrBlocks
  let nrIstoreBlocks := idivCeil nrInodes 51
  let nrIfreeBlocks := idivCeil nrInodes 32768
  let nrBfreeBlocks := idivCeil nrBlocks 32768
  let nrDataBlocks :=
    sub32 (sub32 (sub32 (sub32 nrBlocks 1) nrIstoreBlocks) nrIfreeBlocks) nrBfreeBlocks
  { magic := magic
    nrBlocks := nrBlocks
    nrInodes := nrInodes
    nrIstoreBlocks := nrIstoreBlocks
    nrIfreeBlocks := nrIfreeBlocks
    nrBfreeBlocks := nrBfreeBlocks
    nrSlicedBlocks := 0
    nrFreeInodes := sub32 nrInodes 1
    nrFreeBlocks := sub32 nrDataBlocks 1
    nrUsedSlices := 0
    sFreeSlicedBlocks := 0 }

/-- The bytes of the superblock; the padding is zero. -/
def Superblock.page (sb : Superblock) : Block :=
  let b : Block := Page.zero
  let b := b.setWord 0 sb.magic
  let b := b.setWord 4 sb.nrBlocks
  let b := b.setWord 8 sb.nrInodes
  let b := b.setWord 12 sb.nrIstoreBlocks
  let b := b.setWord 16 sb.nrIfreeBlocks
  let b := b.setWord 20 sb.nrBfreeBlocks
  let b := b.setWord 24 sb.nrSlicedBlocks
  let b := b.setWord 28 sb.nrFreeInodes
  let b := b.setWord 32 sb.nrFreeBlocks
  let b := b.setWord 36 sb.nrUsedSlices
  b.setWord 40 sb.sFreeSlicedBlocks

def writeSuperblock (partitionSize : Nat) (fd : Fd) : Option Superblock × Fd :=
  match fd.call with
  | (false, fd) => (none, fd)
  | (true, fd) =>
    let sb := superblock partitionSize
    match fd.write sb.page with
    | (false, fd) => (none, fd)
    | (true, fd) => (some sb, fd)

/-! ## Regions -/

/-- The loop of the region writers, `n` iterations. -/
def writeMore (b : Block) : Nat → Fd → Bool × Fd
  | 0, fd => (true, fd)
  | n + 1, fd =>
    match fd.write b with
    | (false, fd) => (false, fd)
    | (true, fd) => writeMore b n fd

/-- What the four region writers share: a block `first`, then `other` up to `nr` blocks.  `first`
is built in the buffer that was just allocated. -/
def writeRegion (first : Except Crash Block) (other : Block) (nr : Nat) (fd : Fd) :
    Except Crash (Bool × Fd) :=
  match fd.call with
  | (false, fd) => .ok (false, fd)
  | (true, fd) =>
    match first with
    | .error e => .error e
    | .ok first =>
      match fd.write first with
      | (false, fd) => .ok (false, fd)
      | (true, fd) => .ok (writeMore other (nr - 1) fd)

/-- First block of the inode store: only the root inode, in the second record. -/
def rootInodeBlock (sb : Superblock) : Block :=
  let firstDataBlock := add32 (add32 (add32 1 sb.nrBfreeBlocks) sb.nrIfreeBlocks) sb.nrIstoreBlocks
  let b : Block := Page.zero
  let b := b.setWord 80 0o040775
  let b := b.setWord 84 0
  let b := b.setWord 88 0
  let b := b.setWord 92 4096
  let b := b.setWord 128 0
  let b := b.setWord 112 0
  let b := b.setWord 96 0
  let b := setDword b 136 0
  let b := setDword b 120 0
  let b := setDword b 104 0
  let b := b.setWord 144 1
  let b := b.setWord 148 2
  let b := b.setWord 152 firstDataBlock
  b.fill 156 2

def writeInodeStore (sb : Superblock) (fd : Fd) : Except Crash (Bool × Fd) :=
  writeRegion (.ok (rootInodeBlock sb)) Page.zero sb.nrIstoreBlocks fd

/-- `memset(block, 0xff, OUICHEFS_BLOCK_SIZE)`. -/
def ones : Block := Page.ofFn fun _ => 0xff

def writeIfreeBlocks (sb : Superblock) (fd : Fd) : Except Crash (Bool × Fd) :=
  let ifree := setDword ones 0 0xfffffffffffffffc
  writeRegion (.ok ifree) (setDword ifree 0 0xffffffffffffffff) sb.nrIfreeBlocks fd

/-- The `for` loop of `write_bfree_blocks`: clear bits of `line` from `mask` on. -/
def clearMask : Nat → BitVec 64 → BitVec 64 → Nat → BitVec 64 × Nat
  | 0, _, line, nrUsed => (line, nrUsed)
  | fuel + 1, mask, line, nrUsed =>
    if mask = 0 then (line, nrUsed)
    else
      let line := line &&& ~~~mask
      let nrUsed := nrUsed - 1
      if nrUsed = 0 then (line, nrUsed) else clearMask fuel (mask <<< 1) line nrUsed

/-- The `while` loop of `write_bfree_blocks` from line `i` on; the buffer has 512 lines. -/
def clearLines : Nat → Nat → Nat → Block → Except Crash Block
  | 0, _, _, _ => .error .hang
  | fuel + 1, i, nrUsed, bfree =>
    if nrUsed = 0 then .ok bfree
    else
      match clearMask 65 1 0xffffffffffffffff nrUsed with
      | (line, nrUsed) =>
        if i < 512 then clearLines fuel (i + 1) nrUsed (setDword bfree (8 * i) line.toNat)
        else .error .outOfBounds

def writeBfreeBlocks (sb : Superblock) (fd : Fd) : Except Crash (Bool × Fd) :=
  let nrUsed := add32 (add32 (add32 sb.nrIstoreBlocks sb.nrIfreeBlocks) sb.nrBfreeBlocks) 2
  writeRegion (clearLines 513 0 nrUsed ones) ones sb.nrBfreeBlocks fd

def writeRootIndexBlock (fd : Fd) : Except Crash (Bool × Fd) :=
  writeRegion (.ok Page.zero) Page.zero 1 fd

/-! ## `main` -/

/-- `main` from the point where the superblock is written. -/
def writeImage (partitionSize : Nat) (fd : Fd) : Except Crash (Bool × Fd) :=
  match writeSuperblock partitionSize fd with
  | (none, fd) => .ok (false, fd)
  | (some sb, fd) =>
    match writeInodeStore sb fd with
    | .error e => .error e
    | .ok (false, fd) => .ok (false, fd)
    | .ok (true, fd) =>
      match writeIfreeBlocks sb fd with
      | .error e => .error e
      | .ok (false, fd) => .ok (false, fd)
      | .ok (true, fd) =>
        match writeBfreeBlocks sb fd with
        | .error e => .error e
        | .ok (false, fd) => .ok (false, fd)
        | .ok (true, fd) => writeRootIndexBlock fd

/-- `main`: whether it exits with success, and the file. -/
def mkfs (fd : Fd) : Except Crash (Bool × Fd) :=
  match fd.call with
  | (false, fd) => .ok (false, fd)
  | (true, fd) =>
    match ({ fd with pos := 0 } : Fd).call with
    | (false, fd) => .ok (false, fd)
    | (true, fd) =>
      match if fd.isBlk then fd.call else (true, fd) with
      | (false, fd) => .ok (false, fd)
      | (true, fd) =>
        if fd.size < 100 * 4096 then .ok (false, fd) else writeImage fd.size fd

end Ouichefs
