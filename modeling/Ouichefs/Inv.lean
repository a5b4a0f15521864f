import Ouichefs.Inode
import Ouichefs.Lib.Chain
import Ouichefs.Lib.Ownership
import Ouichefs.Lib.Naming

/-!
# The file-system invariant

`WF fs chain` is what every operation may rely on: `chain` is the list of sliced blocks, every
block reference names a used block and no block is referenced twice, free blocks are zero-filled,
the slices of the small files are taken and pairwise disjoint, free slices are zero, and the
directory entries name exactly the live inodes.  It tolerates leaks and truncated files.
`Tight fs chain` adds that nothing is leaked: every used block is referenced, every taken slice
belongs to a file and `i_blocks` is what the size of a file asks for.
-/

set_option autoImplicit false

namespace Ouichefs

open FreeMap

/-! ## Classification of inodes -/

/-- What the storage fields of an in-memory inode say.  `stray` is what a failed first write of a
big file leaves: an index block, but `i_blocks = 0` and no slices. -/
inductive Kind where
  | dir
  | big
  | fresh
  | small
  | stray
  deriving DecidableEq, Repr

def Inode.kind (ci : Inode) : Kind :=
  if sIsDir ci.iMode then .dir
  else if ci.iBlocks ≠ 0 then .big
  else if ci.indexBlock = 0 then .fresh
  else if ci.numSlices = 0 then .stray
  else .small

/-- Blocks before the data blocks: superblock, inode store, both bitmaps. -/
def SbInfo.metaBlocks (sbi : SbInfo) : Nat :=
  1 + sbi.nrIstoreBlocks + sbi.nrIfreeBlocks + sbi.nrBfreeBlocks

namespace Fs

/-- Inode `ino` is allocated. -/
def Live (fs : Fs) (ino : Nat) : Prop :=
  ino ≠ 0 ∧ ino < fs.sbi.nrInodes ∧ fs.sbi.ifreeBitmap ino = false

/-- Inode `ino` is allocated and of kind `κ`. -/
def Is (fs : Fs) (ino : Nat) (κ : Kind) : Prop := fs.Live ino ∧ (fs.inode ino).kind = κ

/-- Block `b` exists and is in use. -/
def Used (fs : Fs) (b : Nat) : Prop := b < fs.sbi.nrBlocks ∧ fs.sbi.bfreeBitmap b = false

/-- The block that index block `idx` or directory `ino` occupies. -/
def indexOf (fs : Fs) (ino : Nat) : Block := fs.disk (fs.inode ino).indexBlock

/-- Slice `j` of block `b` belongs to the small file `ino`. -/
def OwnsSlice (fs : Fs) (ino b j : Nat) : Prop :=
  fs.Is ino .small ∧ (fs.inode ino).getBno = b ∧ (fs.inode ino).getSlice ≤ j ∧
    j < (fs.inode ino).getSlice + (fs.inode ino).numSlices

end Fs

/-! ## Block references -/

/-- The places that hold block numbers. -/
inductive Ref where
  | header (b : Nat)
  | index (ino : Nat)
  | data (ino i : Nat)
  | sliced (b : Nat)
  deriving DecidableEq, Repr

/-- Reference `r` is present and names block `a`. -/
def Refers (fs : Fs) (chain : List Nat) : Ref → Nat → Prop
  | .header b, a => a = b ∧ b < fs.sbi.metaBlocks
  | .index ino, a => (fs.Is ino .dir ∨ fs.Is ino .big) ∧ a = (fs.inode ino).indexBlock
  | .data ino i, a => fs.Is ino .big ∧ i < 1024 ∧ a = indexPtr (fs.indexOf ino) i ∧ a ≠ 0
  | .sliced b, a => a = b ∧ b ∈ chain

/-! ## Components -/

/-- What holds of one small file. -/
structure SmallOk (fs : Fs) (chain : List Nat) (ino : Nat) : Prop where
  mem : (fs.inode ino).getBno ∈ chain
  slice_pos : 1 ≤ (fs.inode ino).getSlice
  fits : (fs.inode ino).getSlice + (fs.inode ino).numSlices ≤ 32
  slices : (fs.inode ino).numSlices = divRoundUp (fs.inode ino).iSize 128
  taken : ∀ j, (fs.inode ino).getSlice ≤ j →
    j < (fs.inode ino).getSlice + (fs.inode ino).numSlices →
    (sliceBitmap (fs.disk (fs.inode ino).getBno)).getLsbD j = false
  tail : ∀ i, (fs.inode ino).iSize ≤ i → i < (fs.inode ino).numSlices * 128 →
    (fs.disk (fs.inode ino).getBno).get ((fs.inode ino).getSlice * 128 + i) = 0

/-- Slices of the chain blocks. -/
structure SliceInv (fs : Fs) (chain : List Nat) : Prop where
  header : ∀ b ∈ chain, (sliceBitmap (fs.disk b)).getLsbD 0 = false
  freeZero : ∀ b ∈ chain, ∀ i, 128 ≤ i → i < 4096 →
    (sliceBitmap (fs.disk b)).getLsbD (i / 128) = true → (fs.disk b).get i = 0
  file : ∀ ino, fs.Is ino .small → SmallOk fs chain ino
  disjoint : ∀ {ino ino' b j}, fs.OwnsSlice ino b j → fs.OwnsSlice ino' b j → ino = ino'

/-- An empty slot is zero-filled. -/
def Clean (b : Block) : Prop := ∀ i, slotInode b i = 0 → ∀ x < 32, b.get (32 * i + x) = 0

/-- Directory blocks name the allocated inodes; an empty slot is zero-filled. -/
structure DirInv (fs : Fs) : Prop where
  root : fs.Is 1 .dir
  tree : Naming 128 (fs.Is · .dir) fs.Live 1 fun d => slotInode (fs.indexOf d)
  clean : ∀ d, fs.Is d .dir → Clean (fs.indexOf d)

/-- Size and `i_blocks` of a big file.  A truncating open leaves `i_blocks` as it was, so that it may
be more than what the size asks for. -/
structure Inode.BigOk (ci : Inode) : Prop where
  size_le : ci.iSize ≤ 4194304
  blocks_ge : divRoundUp ci.iSize 4096 + 1 ≤ ci.iBlocks
  blocks_le : ci.iBlocks ≤ 1025

/-- `i_blocks` counts the blocks of the file and the index block, and nothing else. -/
def Inode.BlocksExact (ci : Inode) : Prop := ci.iBlocks = divRoundUp ci.iSize 4096 + 1

instance (ci : Inode) : Decidable ci.BlocksExact := inferInstanceAs (Decidable (_ = _))

/-- Fields of the inodes themselves. -/
structure InodeInv (fs : Fs) : Prop where
  bit0 : fs.sbi.ifreeBitmap 0 = false
  cached : ∀ ino, fs.Live ino → (fs.icache ino).isSome
  big : ∀ ino, fs.Is ino .big → (fs.inode ino).BigOk

/-- Inode numbers fit in a directory entry, and every inode in the inode store. -/
structure InodeTable (sbi : SbInfo) : Prop where
  lt : sbi.nrInodes < 4294967296
  istore : sbi.nrInodes ≤ 51 * sbi.nrIstoreBlocks

/-- Free blocks are zero-filled, and block numbers fit the encoding of a block and a slice in
`index_block`.  `mkfs` clears no data block and a truncating open none of the blocks it frees, so
that this is asked for where a result depends on it. -/
structure Fs.Blank (fs : Fs) : Prop where
  blocks_le : fs.sbi.nrBlocks ≤ 134217728
  zero : ∀ b < fs.sbi.nrBlocks, fs.sbi.bfreeBitmap b = true → fs.disk b = Page.zero

/-- Sizes and the free-block counter.  `Z` says whether sliced blocks can be used: their numbers
must fit the encoding of a block and a slice in `index_block`. -/
structure SbInv (fs : Fs) (Z : Prop := True) : Prop where
  meta_lt : fs.sbi.metaBlocks < fs.sbi.nrBlocks
  blocks_lt : fs.sbi.nrBlocks < 4294967296
  blocks_le : Z → fs.sbi.nrBlocks ≤ 134217728
  count : fs.sbi.nrFreeBlocks = countBits fs.sbi.bfreeBitmap fs.sbi.nrBlocks

/-- The storage part of the invariant, which also holds between the steps of one operation.  `Z`
says whether sliced blocks can be used and free blocks are zero-filled: the operations on
directories do not need it. -/
structure Core (fs : Fs) (chain : List Nat) (Z : Prop := True) : Prop where
  sb : SbInv fs Z
  isChain : IsLinked fs.next fs.sbi.sFreeSlicedBlocks chain
  nodup : chain.Nodup
  sliced : fs.sbi.nrSlicedBlocks = chain.length
  owned : Owned fs.Used (Refers fs chain)
  zero : Z → ∀ b < fs.sbi.nrBlocks, fs.sbi.bfreeBitmap b = true → fs.disk b = Page.zero
  slices : SliceInv fs chain
  inodes : InodeInv fs

/-- The invariant between operations. -/
structure WF (fs : Fs) (chain : List Nat) (Z : Prop := True) : Prop extends Core fs chain Z where
  dirs : DirInv fs
  table : InodeTable fs.sbi
  fresh : ∀ ino, fs.Is ino .fresh → (fs.inode ino).iSize = 0 ∧ (fs.inode ino).numSlices = 0
  stray : ∀ ino, fs.Is ino .stray → (fs.inode ino).iSize = 0

theorem WF.blank {fs : Fs} {chain : List Nat} {Z : Prop} (h : WF fs chain Z) (hz : fs.Blank) :
    WF fs chain :=
  { h with sb := { h.sb with blocks_le := fun _ => hz.blocks_le }, zero := fun _ => hz.zero }

theorem WF.free_blank {fs : Fs} {chain : List Nat} (h : WF fs chain) : fs.Blank :=
  ⟨h.sb.blocks_le trivial, h.zero trivial⟩

theorem WF.weaken {fs : Fs} {chain : List Nat} {Z : Prop} (h : WF fs chain) : WF fs chain Z :=
  { h with sb := { h.sb with blocks_le := fun _ => h.sb.blocks_le trivial },
           zero := fun _ => h.zero trivial }

/-- Nothing is leaked, except the blocks `lost` and the slices `leak`. -/
structure TightBut (fs : Fs) (chain : List Nat) (lost : Nat → Prop) (leak : Nat → Nat → Prop) :
    Prop where
  covered : Covered (fun a => fs.Used a ∧ ¬lost a) (Refers fs chain)
  bits : ∀ b ∈ chain, ∀ j, 1 ≤ j → j < 32 → (sliceBitmap (fs.disk b)).getLsbD j = false →
    leak b j ∨ ∃ ino, fs.OwnsSlice ino b j
  noStray : ∀ ino, ¬fs.Is ino .stray
  ptrs : ∀ ino, fs.Is ino .big → ∀ i, (fs.inode ino).iBlocks - 1 ≤ i → i < 1024 →
    indexPtr (fs.indexOf ino) i = 0
  blocks : ∀ ino, fs.Is ino .big → (fs.inode ino).BlocksExact

/-- Nothing is leaked. -/
def Tight (fs : Fs) (chain : List Nat) : Prop :=
  TightBut fs chain (fun _ => False) fun _ _ => False

end Ouichefs
