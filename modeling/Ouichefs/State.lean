import Ouichefs.Lib.Page
import Ouichefs.Lib.FreeMap

/-!
# State of a mounted ouiche_fs

The data model of `ouichefs.h`, and the kernel services the file system calls.

* A block is a page of 4096 bytes (`OUICHEFS_BLOCK_SIZE`).  What a block means (index block,
  directory block, sliced block, plain data) depends only on who reads it, as in the source.
  Words are little-endian.  A slice has 128 bytes (`OUICHEFS_SLICE_SIZE`), a small file at most
  3968 bytes, a file at most 4 MiB, a directory at most 128 entries of 32 bytes.
* The buffer cache is transparent: `disk` is what `sb_bread` would show.
* `icache` holds the in-memory inodes; a number that is not cached is read from the inode store
  by `ouichefs_iget`.
* 32-bit counters are natural numbers with explicit wrap-around (`add32`, `sub32`).

Every kernel service that can fail consults `faults`; with an empty list every call succeeds.
`trace` records buffer references and failed block allocations.  A call that cannot return
(`Crash`) ends with the state it leaves behind.
-/

set_option autoImplicit false

namespace Ouichefs

/-- A 4 KiB block. -/
abbrev Block := Page 4096

/-- `a + b` in `uint32_t`. -/
def add32 (a b : Nat) : Nat := (a + b) % 4294967296

/-- `a - b` in `uint32_t`. -/
def sub32 (a b : Nat) : Nat := (((a : Int) - b) % 4294967296).toNat

/-- `a - 1` in an unsigned 64-bit type, as in `i_blocks - 1`. -/
def pred64 (a : Nat) : Nat := (((a : Int) - 1) % 18446744073709551616).toNat

/-- `DIV_ROUND_UP`. -/
def divRoundUp (a b : Nat) : Nat := (a + b - 1) / b

structure Timespec where
  tvSec : Nat
  tvNsec : Nat
  deriving DecidableEq, Repr

/-- `struct ouichefs_inode_info` with the fields of its `vfs_inode`. -/
structure Inode where
  iMode : Nat
  iUid : Nat
  iGid : Nat
  iSize : Nat
  iCtime : Timespec
  iAtime : Timespec
  iMtime : Timespec
  iBlocks : Nat
  iNlink : Nat
  indexBlock : Nat
  numSlices : Nat
  deriving DecidableEq, Repr

/-- `S_ISDIR`. -/
def sIsDir (mode : Nat) : Bool := mode &&& 0o170000 == 0o040000

/-- `S_ISREG`. -/
def sIsReg (mode : Nat) : Bool := mode &&& 0o170000 == 0o100000

/-- `struct ouichefs_sb_info`. -/
structure SbInfo where
  nrBlocks : Nat
  nrInodes : Nat
  nrIstoreBlocks : Nat
  nrIfreeBlocks : Nat
  nrBfreeBlocks : Nat
  nrSlicedBlocks : Nat
  nrFreeInodes : Nat
  nrFreeBlocks : Nat
  nrUsedSlices : Nat
  sFreeSlicedBlocks : Nat
  ifreeBitmap : Nat → Bool
  bfreeBitmap : Nat → Bool

/-- The mounted file system. -/
structure Fs where
  sbi : SbInfo
  disk : Nat → Block
  icache : Nat → Option Inode

/-- What `sb_bread` and `brelse` did to buffer references, and `get_free_block` returning 0. -/
inductive Event where
  | bread (bno : Nat)
  | brelse (bno : Nat)
  | noFreeBlock
  deriving DecidableEq, Repr

/-- Answer of the environment to one fallible call (`sb_bread`, `kmalloc`, `copy_from_iter`,
`copy_to_iter`); a failing copy still transfers some bytes. -/
inductive Answer where
  | success
  | failure (copied : Nat)
  deriving DecidableEq, Repr

/-- Ways in which a call does not return. -/
inductive Crash where
  | panic
  | nullDeref
  | badPointer
  | outOfBounds
  | divideError
  | hang
  deriving DecidableEq, Repr

/-- The file system in its environment: answers still to come, event trace, clock, caller. -/
structure Kernel where
  fs : Fs
  faults : List Answer
  trace : List Event
  now : Timespec
  fsuid : Nat
  fsgid : Nat

/-- Result of a kernel function: a value and the new state, or a crash. -/
abbrev Outcome (α : Type) := Except (Crash × Kernel) (α × Kernel)

/-- The state a call leaves behind, whether or not it returns. -/
def Outcome.kernel {α : Type} : Outcome α → Kernel
  | .ok (_, k) => k
  | .error (_, k) => k

/-- The value a call returns, if it does. -/
def Outcome.value? {α : Type} : Outcome α → Option α
  | .ok (a, _) => some a
  | .error _ => none

theorem Outcome.eq_ok {α : Type} {run : Outcome α} {a : α} (h : run.value? = some a) :
    run = .ok (a, run.kernel) := by
  cases run with
  | error e => cases h
  | ok p =>
      cases h
      rfl

/-! ## Error numbers -/

def EPERM : Int := 1
def EIO : Int := 5
def ENOMEM : Int := 12
def EFAULT : Int := 14
def EEXIST : Int := 17
def ENOTDIR : Int := 20
def EINVAL : Int := 22
def EFBIG : Int := 27
def ENOSPC : Int := 28
def EMLINK : Int := 31
def ENAMETOOLONG : Int := 36
def ENOTEMPTY : Int := 39

/-! ## In-memory inodes -/

def Inode.blank : Inode :=
  ⟨0, 0, 0, 0, ⟨0, 0⟩, ⟨0, 0⟩, ⟨0, 0⟩, 0, 0, 0, 0⟩

/-- The in-memory inode `ino`. -/
def Fs.inode (fs : Fs) (ino : Nat) : Inode := (fs.icache ino).getD Inode.blank

/-- `OUICHEFS_SMALL_FILE_GET_BNO`. -/
def Inode.getBno (ci : Inode) : Nat := ci.indexBlock / 32

/-- `OUICHEFS_SMALL_FILE_GET_SLICE`. -/
def Inode.getSlice (ci : Inode) : Nat := ci.indexBlock % 32

/-- The slice takes the lower five bits, the block the others. -/
theorem Inode.decode {ci : Inode} {b s : Nat} (h : ci.indexBlock = 32 * b + s) (hs : s < 32) :
    ci.getBno = b ∧ ci.getSlice = s := by
  unfold getBno getSlice
  rw [h]
  omega

namespace Fs

def setInode (fs : Fs) (ino : Nat) (ci : Inode) : Fs :=
  { fs with icache := Function.update fs.icache ino (some ci) }

def setBlock (fs : Fs) (bno : Nat) (b : Block) : Fs :=
  { fs with disk := Function.update fs.disk bno b }

def setSbi (fs : Fs) (sbi : SbInfo) : Fs := { fs with sbi }

variable (fs : Fs) (ino bno : Nat) (ci : Inode) (b : Block) (sbi : SbInfo)

@[simp] theorem inode_setInode (i : Nat) :
    (fs.setInode ino ci).inode i = if i = ino then ci else fs.inode i := by
  unfold setInode inode
  by_cases h : i = ino
  · subst h; simp
  · simp [h]

@[simp] theorem icache_setInode_self : (fs.setInode ino ci).icache ino = some ci :=
  Function.update_self _ _ _

theorem icache_setInode_of_ne {i : Nat} (h : i ≠ ino) :
    (fs.setInode ino ci).icache i = fs.icache i :=
  Function.update_of_ne h _ _

@[simp] theorem inode_setBlock : (fs.setBlock bno b).inode = fs.inode := rfl
@[simp] theorem inode_setSbi : (fs.setSbi sbi).inode = fs.inode := rfl
@[simp] theorem sbi_setInode : (fs.setInode ino ci).sbi = fs.sbi := rfl
@[simp] theorem sbi_setBlock : (fs.setBlock bno b).sbi = fs.sbi := rfl
@[simp] theorem sbi_setSbi : (fs.setSbi sbi).sbi = sbi := rfl
@[simp] theorem icache_setBlock : (fs.setBlock bno b).icache = fs.icache := rfl
@[simp] theorem icache_setSbi : (fs.setSbi sbi).icache = fs.icache := rfl
@[simp] theorem disk_setInode : (fs.setInode ino ci).disk = fs.disk := rfl
@[simp] theorem disk_setSbi : (fs.setSbi sbi).disk = fs.disk := rfl
@[simp] theorem disk_setBlock (i : Nat) :
    (fs.setBlock bno b).disk i = if i = bno then b else fs.disk i := by
  simp [setBlock, Function.update_apply]

end Fs

/-! ## Kernel services -/

namespace Kernel

def inode (k : Kernel) (ino : Nat) : Inode := k.fs.inode ino

def setInode (k : Kernel) (ino : Nat) (ci : Inode) : Kernel :=
  { k with fs := k.fs.setInode ino ci }

def setBlock (k : Kernel) (bno : Nat) (b : Block) : Kernel :=
  { k with fs := k.fs.setBlock bno b }

def setSbi (k : Kernel) (sbi : SbInfo) : Kernel := { k with fs := k.fs.setSbi sbi }

def log (k : Kernel) (e : Event) : Kernel := { k with trace := k.trace ++ [e] }

/-- `brelse`. -/
def brelse (k : Kernel) (bno : Nat) : Kernel := k.log (.brelse bno)

/-- `sb_bread`: `false` stands for a null buffer.  Blocks at or past the end of the device
cannot be read. -/
def sbBread (k : Kernel) (bno : Nat) : Bool × Kernel :=
  if k.fs.sbi.nrBlocks ≤ bno then (false, k)
  else
    match k.faults with
    | [] => (true, k.log (.bread bno))
    | .success :: rest => (true, { k.log (.bread bno) with faults := rest })
    | .failure _ :: rest => (false, { k with faults := rest })

/-- `kmalloc`: `false` stands for a null pointer. -/
def kmalloc (k : Kernel) : Bool × Kernel :=
  match k.faults with
  | [] => (true, k)
  | .success :: rest => (true, { k with faults := rest })
  | .failure _ :: rest => (false, { k with faults := rest })

/-- `copy_from_iter` for `n` bytes: the bytes that were transferred. -/
def copyFromIter (k : Kernel) (n : Nat) (iter : List UInt8) : List UInt8 × Kernel :=
  match k.faults with
  | [] => (iter.take n, k)
  | .success :: rest => (iter.take n, { k with faults := rest })
  | .failure c :: rest => (iter.take (min c (n - 1)), { k with faults := rest })

variable (k : Kernel) (ino bno : Nat) (ci : Inode) (b : Block) (sbi : SbInfo) (e : Event)

@[simp] theorem fs_setInode : (k.setInode ino ci).fs = k.fs.setInode ino ci := rfl
@[simp] theorem fs_setBlock : (k.setBlock bno b).fs = k.fs.setBlock bno b := rfl
@[simp] theorem fs_setSbi : (k.setSbi sbi).fs = k.fs.setSbi sbi := rfl
@[simp] theorem fs_log : (k.log e).fs = k.fs := rfl
@[simp] theorem fs_brelse : (k.brelse bno).fs = k.fs := rfl
@[simp] theorem faults_setInode : (k.setInode ino ci).faults = k.faults := rfl
@[simp] theorem faults_setBlock : (k.setBlock bno b).faults = k.faults := rfl
@[simp] theorem faults_setSbi : (k.setSbi sbi).faults = k.faults := rfl
@[simp] theorem faults_log : (k.log e).faults = k.faults := rfl
@[simp] theorem faults_brelse : (k.brelse bno).faults = k.faults := rfl
@[simp] theorem now_setInode : (k.setInode ino ci).now = k.now := rfl
@[simp] theorem now_setBlock : (k.setBlock bno b).now = k.now := rfl
@[simp] theorem now_setSbi : (k.setSbi sbi).now = k.now := rfl
@[simp] theorem now_log : (k.log e).now = k.now := rfl
@[simp] theorem now_brelse : (k.brelse bno).now = k.now := rfl
@[simp] theorem trace_setInode : (k.setInode ino ci).trace = k.trace := rfl
@[simp] theorem trace_setBlock : (k.setBlock bno b).trace = k.trace := rfl
@[simp] theorem trace_setSbi : (k.setSbi sbi).trace = k.trace := rfl
@[simp] theorem trace_log : (k.log e).trace = k.trace ++ [e] := rfl
@[simp] theorem trace_brelse : (k.brelse bno).trace = k.trace ++ [.brelse bno] := rfl

/-- Some `get_free_block` call has returned 0. -/
def AllocFailed (k : Kernel) : Prop := Event.noFreeBlock ∈ k.trace

@[simp] theorem allocFailed_setInode : (k.setInode ino ci).AllocFailed ↔ k.AllocFailed := Iff.rfl
@[simp] theorem allocFailed_setBlock : (k.setBlock bno b).AllocFailed ↔ k.AllocFailed := Iff.rfl
@[simp] theorem allocFailed_setSbi : (k.setSbi sbi).AllocFailed ↔ k.AllocFailed := Iff.rfl
@[simp] theorem allocFailed_brelse : (k.brelse bno).AllocFailed ↔ k.AllocFailed := by
  simp [AllocFailed]
@[simp] theorem allocFailed_bread : (k.log (.bread bno)).AllocFailed ↔ k.AllocFailed := by
  simp [AllocFailed]
@[simp] theorem allocFailed_noFreeBlock : (k.log .noFreeBlock).AllocFailed := by
  simp [AllocFailed]

variable {k} {bno}

/-- Reading a block does not change the file system. -/
theorem fs_sbBread (k : Kernel) (b : Nat) : (k.sbBread b).2.fs = k.fs := by
  unfold sbBread
  split
  · rfl
  · split <;> rfl

/-- Neither does `kmalloc`. -/
theorem fs_kmalloc (k : Kernel) : k.kmalloc.2.fs = k.fs := by
  unfold kmalloc
  split <;> rfl

/-- The answer of `sb_bread` depends on the environment and the size of the device alone. -/
theorem sbBread_congr {k₁ k₂ : Kernel} (hf : k₂.faults = k₁.faults)
    (hn : k₂.fs.sbi.nrBlocks = k₁.fs.sbi.nrBlocks) (b : Nat) :
    (k₂.sbBread b).1 = (k₁.sbBread b).1 := by
  unfold sbBread
  rw [hf, hn]
  split
  · rfl
  · split <;> rfl

theorem sbBread_ok (hf : k.faults = []) (hb : bno < k.fs.sbi.nrBlocks) :
    k.sbBread bno = (true, k.log (.bread bno)) := by
  unfold sbBread
  rw [if_neg (by omega), hf]

theorem kmalloc_ok (hf : k.faults = []) : k.kmalloc = (true, k) := by
  unfold kmalloc
  rw [hf]

theorem copyFromIter_ok (hf : k.faults = []) (n : Nat) (iter : List UInt8) :
    k.copyFromIter n iter = (iter.take n, k) := by
  unfold copyFromIter
  rw [hf]

end Kernel

end Ouichefs
