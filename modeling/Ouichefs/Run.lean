import Ouichefs.BigWrite
import Ouichefs.Rename
import Ouichefs.Lib.Run

/-!
# Runs of the file system

The calls the VFS makes, with the caller and the clock they are made under, and what a formatted
image looks like.  `Formatted.wf` and `Formatted.tight` start every run; the step lemmas of this
file say what one call keeps.
-/

set_option autoImplicit false

namespace Ouichefs

open FreeMap

variable {Z : Prop}

/-- The operations.  A dentry is a name in a directory with its inode number; `write` is a write
through a handle without `O_APPEND`, `append` one through a handle with it. -/
inductive Op where
  | create (dir : Nat) (name : List UInt8) (mode : Nat)
  | mkdir (dir : Nat) (name : List UInt8) (mode : Nat)
  | unlink (dir : Nat) (name : List UInt8) (ino : Nat)
  | rmdir (dir : Nat) (name : List UInt8) (ino : Nat)
  | rename (oldDir : Nat) (oldName : List UInt8) (src newDir : Nat) (newName : List UInt8)
      (flags : Nat)
  | write (ino pos : Nat) (data : List UInt8)
  | append (ino pos : Nat) (data : List UInt8)
  deriving DecidableEq, Repr

/-- What the caller of `write` sees: the count, without the new position of the handle. -/
def writeResult : Outcome (Int × Kiocb) → Outcome Int
  | .error e => .error e
  | .ok ((ret, _), k) => .ok (ret, k)

@[simp] theorem writeResult_kernel (run : Outcome (Int × Kiocb)) :
    (writeResult run).kernel = run.kernel := by
  cases run <;> rfl

def Op.exec (k : Kernel) : Op → Outcome Int
  | .create dir name mode => ouichefsCreate k dir name mode
  | .mkdir dir name mode => ouichefsMkdir k dir name mode
  | .unlink dir _ ino => ouichefsUnlink k dir ino
  | .rmdir dir _ ino => ouichefsRmdir k dir ino
  | .rename oldDir oldName src newDir newName flags =>
    ouichefsRename k oldDir oldName src newDir newName flags
  | .write ino pos data =>
    writeResult (customWriteIter k ino { kiPos := pos, append := false } data)
  | .append ino pos data =>
    writeResult (customWriteIter k ino { kiPos := pos, append := true } data)

/-- An operation, when it is made and by whom. -/
structure Call where
  op : Op
  now : Timespec
  fsuid : Nat
  fsgid : Nat
  deriving DecidableEq, Repr

/-- The environment of a call. -/
def Kernel.setCaller (k : Kernel) (now : Timespec) (fsuid fsgid : Nat) : Kernel :=
  { k with now := now, fsuid := fsuid, fsgid := fsgid }

/-- A system call.  A removed inode stays in memory until its last `iput`, which is a step of its own
(`Kernel.uncache`): a handle may hold the inode, and no call reads it before its number is used again
and `ouichefs_new_inode` sets it up. -/
def Call.exec (k : Kernel) (c : Call) : Outcome Int := c.op.exec (k.setCaller c.now c.fsuid c.fsgid)

@[simp] theorem Kernel.fs_setCaller (k : Kernel) (now : Timespec) (u g : Nat) :
    (k.setCaller now u g).fs = k.fs := rfl
@[simp] theorem Kernel.faults_setCaller (k : Kernel) (now : Timespec) (u g : Nat) :
    (k.setCaller now u g).faults = k.faults := rfl
@[simp] theorem Kernel.allocFailed_setCaller (k : Kernel) (now : Timespec) (u g : Nat) :
    (k.setCaller now u g).AllocFailed ↔ k.AllocFailed := Iff.rfl

/-! ## Formatted images -/

/-- A freshly formatted image, mounted: metadata and the root directory are in use, everything
else is free, whatever the free blocks hold.  `mkfs` writes the root directory
with link count 2 and one free inode too many in the counter. -/
structure Formatted (fs : Fs) : Prop where
  meta_lt : fs.sbi.metaBlocks < fs.sbi.nrBlocks
  blocks_lt : fs.sbi.nrBlocks < 4294967296
  inodes_pos : 1 < fs.sbi.nrInodes
  inodes_lt : fs.sbi.nrInodes < 4294967296
  istore : fs.sbi.nrInodes ≤ 51 * fs.sbi.nrIstoreBlocks
  bfree : ∀ b < fs.sbi.nrBlocks, fs.sbi.bfreeBitmap b = decide (fs.sbi.metaBlocks < b)
  nrFreeBlocks : fs.sbi.nrFreeBlocks = fs.sbi.nrBlocks - fs.sbi.metaBlocks - 1
  ifree : ∀ i < fs.sbi.nrInodes, fs.sbi.ifreeBitmap i = decide (1 < i)
  nrFreeInodes : fs.sbi.nrFreeInodes = fs.sbi.nrInodes - 1
  nrSliced : fs.sbi.nrSlicedBlocks = 0
  nrUsedSlices : fs.sbi.nrUsedSlices = 0
  noSliced : fs.sbi.sFreeSlicedBlocks = 0
  root : ∃ ci, fs.icache 1 = some ci ∧ sIsDir ci.iMode = true ∧ ci.iSize = 4096 ∧ ci.iNlink = 2 ∧
    ci.indexBlock = fs.sbi.metaBlocks
  uncached : ∀ i, i ≠ 1 → fs.icache i = none
  rootZero : fs.disk fs.sbi.metaBlocks = Page.zero

namespace Formatted

variable {fs : Fs} (h : Formatted fs)
include h

theorem live (i : Nat) : fs.Live i ↔ i = 1 := by
  constructor
  · rintro ⟨h0, hlt, hb⟩
    rw [h.ifree i hlt] at hb
    simp only [decide_eq_false_iff_not] at hb
    omega
  · rintro rfl
    exact ⟨by decide, h.inodes_pos, by rw [h.ifree 1 h.inodes_pos]; rfl⟩

theorem rootDir : fs.Is 1 .dir := by
  obtain ⟨ci, hci, hm, -⟩ := h.root
  refine ⟨(h.live 1).2 rfl, Inode.kind_dir.2 ?_⟩
  unfold Fs.inode
  rw [hci]
  exact hm

theorem rootIndex : (fs.inode 1).indexBlock = fs.sbi.metaBlocks := by
  obtain ⟨ci, hci, -, -, -, hi⟩ := h.root
  unfold Fs.inode
  rw [hci]
  exact hi

/-- The root directory is all there is. -/
theorem is_iff (i : Nat) (κ : Kind) : fs.Is i κ ↔ i = 1 ∧ κ = .dir := by
  constructor
  · intro hi
    obtain rfl := (h.live i).1 hi.1
    exact ⟨rfl, hi.kind_unique h.rootDir⟩
  · rintro ⟨rfl, rfl⟩
    exact h.rootDir

theorem used (b : Nat) : fs.Used b ↔ b ≤ fs.sbi.metaBlocks := by
  constructor
  · rintro ⟨hlt, hb⟩
    rw [h.bfree b hlt] at hb
    simpa using hb
  · intro hle
    have hlt : b < fs.sbi.nrBlocks := Nat.lt_of_le_of_lt hle h.meta_lt
    exact ⟨hlt, by rw [h.bfree b hlt]; simpa using hle⟩

theorem rootBlock : fs.indexOf 1 = Page.zero := by
  unfold Fs.indexOf
  rw [h.rootIndex, h.rootZero]

/-- The references of a formatted image. -/
theorem refers (r : Ref) (a : Nat) : Refers fs [] r a ↔
    (r = .header a ∧ a < fs.sbi.metaBlocks) ∨ (r = .index 1 ∧ a = fs.sbi.metaBlocks) := by
  cases r with
  | header b =>
      simp only [Refers, Ref.header.injEq, reduceCtorEq, false_and, or_false]
      constructor
      · rintro ⟨rfl, hb⟩; exact ⟨rfl, hb⟩
      · rintro ⟨rfl, hb⟩; exact ⟨rfl, hb⟩
  | index i =>
      simp only [Refers, h.is_iff, reduceCtorEq, false_and, false_or, and_true, and_false, or_false,
        Ref.index.injEq]
      constructor
      · rintro ⟨rfl, ha⟩; exact ⟨rfl, ha.trans h.rootIndex⟩
      · rintro ⟨rfl, ha⟩; exact ⟨rfl, ha.trans h.rootIndex.symm⟩
  | data i j => simp [Refers, h.is_iff]
  | sliced b => simp [Refers]

theorem count : fs.sbi.nrFreeBlocks = countBits fs.sbi.bfreeBitmap fs.sbi.nrBlocks := by
  rw [h.nrFreeBlocks]
  have hcount : ∀ n ≤ fs.sbi.nrBlocks,
      countBits fs.sbi.bfreeBitmap n = n - (fs.sbi.metaBlocks + 1) := by
    intro n
    induction n with
    | zero => intro _; simp [countBits]
    | succ n ih =>
        intro hn
        rw [countBits_succ, ih (by omega), h.bfree n (by omega)]
        by_cases hlt : fs.sbi.metaBlocks < n
        · simp only [hlt, decide_true, if_true]
          omega
        · simp only [hlt, decide_false, Bool.false_eq_true, if_false]
          omega
  rw [hcount _ (Nat.le_refl _)]
  omega

theorem core (hz : Z → fs.Blank) : Core fs [] Z := by
  refine ⟨⟨h.meta_lt, h.blocks_lt, fun hZ => (hz hZ).blocks_le, h.count⟩,
    h.noSliced, List.nodup_nil, h.nrSliced, ⟨?_, ?_⟩, fun hZ => (hz hZ).zero, ⟨?_, ?_, ?_, ?_⟩,
    ⟨?_, ?_, ?_⟩⟩
  · intro r a hr
    rw [h.used]
    rcases (h.refers r a).1 hr with ⟨-, ha⟩ | ⟨-, ha⟩ <;> omega
  · intro r r' a hr hr'
    rcases (h.refers r a).1 hr with ⟨rfl, ha⟩ | ⟨rfl, ha⟩ <;>
      rcases (h.refers r' a).1 hr' with ⟨rfl, ha'⟩ | ⟨rfl, ha'⟩ <;> first | rfl | omega
  · intro b hb; cases hb
  · intro b hb; cases hb
  · intro i hi; cases ((h.is_iff i _).1 hi).2
  · intro i i' b j hi; cases ((h.is_iff i _).1 hi.1).2
  · rw [h.ifree 0 (by have := h.inodes_pos; omega)]; rfl
  · intro i hi
    obtain ⟨ci, hci, -⟩ := h.root
    rw [(h.live i).1 hi, hci]
    rfl
  · intro i hi; cases ((h.is_iff i _).1 hi).2

/-- **A formatted image is well formed.** -/
theorem wf (hz : Z → fs.Blank) : WF fs [] Z := by
  refine { h.core hz with
    dirs := ⟨h.rootDir, ⟨?_, ?_, ?_, ?_, ?_⟩, ?_⟩, table := ⟨h.inodes_lt, h.istore⟩, fresh := ?_, stray := ?_ }
  · intro hl; exact absurd ((h.live 0).1 hl) (by decide)
  · intro d hd
    rw [((h.is_iff d _).1 hd).1, h.rootBlock]
    exact ⟨0, by decide, fun i hi => absurd hi (Nat.not_lt_zero _), fun i _ => slotInode_zero i⟩
  · intro d i hd hne
    rw [((h.is_iff d _).1 hd).1, h.rootBlock] at hne
    exact absurd (slotInode_zero i) hne
  · intro d d' i i' hd _ _ hne
    rw [((h.is_iff d _).1 hd).1, h.rootBlock] at hne
    exact absurd (slotInode_zero i) hne
  · intro x hx hr
    exact absurd ((h.live x).1 hx) hr
  · intro d hd
    rw [((h.is_iff d _).1 hd).1, h.rootBlock]
    exact .zero
  · intro i hi; cases ((h.is_iff i _).1 hi).2
  · intro i hi; cases ((h.is_iff i _).1 hi).2

theorem tight : Tight fs [] := by
  refine ⟨?_, ?_, ?_, ?_, ?_⟩
  · rintro a ⟨hu, -⟩
    have hle := (h.used a).1 hu
    by_cases ha : a = fs.sbi.metaBlocks
    · exact ⟨.index 1, (h.refers _ a).2 (Or.inr ⟨rfl, ha⟩)⟩
    · exact ⟨.header a, (h.refers _ a).2 (Or.inl ⟨rfl, by omega⟩)⟩
  · intro b hb; cases hb
  · intro i hi; cases ((h.is_iff i _).1 hi).2
  · intro i hi; cases ((h.is_iff i _).1 hi).2
  · intro i hi; cases ((h.is_iff i _).1 hi).2

theorem nameInv : NameInv fs := by
  intro d hd
  rw [((h.is_iff d _).1 hd).1, h.rootBlock]
  intro i j hi
  exact absurd (slotInode_zero i) hi

end Formatted

/-! ## A small image -/

/-- The root directory as `mkfs` writes it. -/
def rootInode (bno : Nat) : Inode :=
  { Inode.blank with iMode := 0o040775, iSize := 4096, iBlocks := 1, iNlink := 2, indexBlock := bno }

/-- A formatted image in which the inode store and both bitmaps have one block each. -/
def emptyImage (nrBlocks nrInodes : Nat) : Kernel where
  fs :=
    { sbi :=
        { nrBlocks := nrBlocks, nrInodes := nrInodes, nrIstoreBlocks := 1, nrIfreeBlocks := 1
          nrBfreeBlocks := 1, nrSlicedBlocks := 0, nrFreeInodes := nrInodes - 1
          nrFreeBlocks := nrBlocks - 5, nrUsedSlices := 0, sFreeSlicedBlocks := 0
          ifreeBitmap := fun i => decide (1 < i), bfreeBitmap := fun b => decide (4 < b) }
      disk := fun _ => Page.zero
      icache := fun i => if i = 1 then some (rootInode 4) else none }
  faults := []
  trace := []
  now := ⟨0, 0⟩
  fsuid := 0
  fsgid := 0

theorem emptyImage_formatted {nrBlocks nrInodes : Nat} (hb : 4 < nrBlocks)
    (hlt : nrBlocks < 4294967296) (hi : 1 < nrInodes) (hle : nrInodes ≤ 51) :
    Formatted (emptyImage nrBlocks nrInodes).fs where
  meta_lt := hb
  blocks_lt := hlt
  inodes_pos := hi
  inodes_lt := Nat.lt_of_le_of_lt hle (by decide)
  istore := hle
  bfree _ _ := rfl
  nrFreeBlocks := by simp only [emptyImage, SbInfo.metaBlocks]; omega
  ifree _ _ := rfl
  nrFreeInodes := rfl
  nrSliced := rfl
  nrUsedSlices := rfl
  noSliced := rfl
  root := ⟨rootInode 4, rfl, rfl, rfl, rfl, rfl⟩
  uncached i hne := if_neg hne
  rootZero := rfl

theorem emptyImage_blank {nrBlocks nrInodes : Nat} (hle : nrBlocks ≤ 134217728) :
    (emptyImage nrBlocks nrInodes).fs.Blank := ⟨hle, fun _ _ _ => rfl⟩

theorem emptyImage_wf {nrBlocks nrInodes : Nat} (hb : 4 < nrBlocks) (hlt : nrBlocks ≤ 134217728)
    (hi : 1 < nrInodes) (hle : nrInodes ≤ 51) : WF (emptyImage nrBlocks nrInodes).fs [] :=
  (emptyImage_formatted hb (Nat.lt_of_le_of_lt hlt (by decide)) hi hle).wf fun _ =>
    emptyImage_blank hlt

/-- A call by the superuser at time 0. -/
def Op.call (op : Op) : Call := ⟨op, ⟨0, 0⟩, 0, 0⟩

/-! ## Calls without size-class conversion -/

/-- Directory `dir` has an entry for `ino`. -/
def Fs.Entry (fs : Fs) (dir ino : Nat) : Prop :=
  fs.Is dir .dir ∧ ino ≠ 0 ∧ ∃ f, slotInode (fs.indexOf dir) f = ino

instance (fs : Fs) (dir ino : Nat) : Decidable (fs.Entry dir ino) :=
  decidable_of_iff (fs.Is dir .dir ∧ ino ≠ 0 ∧
      (List.range 128).any (fun f => slotInode (fs.indexOf dir) f == ino) = true) <| by
    refine and_congr_right fun _ => and_congr_right fun h0 => ?_
    simp only [List.any_eq_true, List.mem_range, beq_iff_eq]
    refine exists_congr fun f => and_iff_right_of_imp fun hs => ?_
    by_contra hge
    exact h0 (hs.symm.trans (slotInode_of_ge _ (Nat.not_lt.1 hge)))

/-- Creation and removal of files and directories, and writes that do not turn a small file into a
big one.  The VFS passes entries that exist, to `unlink` only files and to `rmdir` only
directories. -/
def Op.Plain (fs : Fs) : Op → Prop
  | .create dir _ _ => fs.Is dir .dir
  | .mkdir dir _ _ => fs.Is dir .dir
  | .unlink dir _ ino => fs.Entry dir ino ∧ ¬fs.Is ino .dir
  | .rmdir dir _ ino => fs.Entry dir ino ∧ fs.Is ino .dir
  | .rename .. => False
  | .write ino pos data => 1 ≤ data.length ∧
    (fs.Is ino .fresh ∧ pos + data.length ≤ 4194304 ∨
      fs.Is ino .small ∧ max (pos + data.length) (fs.inode ino).iSize ≤ 3968 ∨
      fs.Is ino .big ∧ pos + data.length ≤ 4194304)
  | .append .. => False

/-- Creation and removal of regular files, and writes to files that are and stay small. -/
def Op.Small (fs : Fs) : Op → Prop
  | .create dir _ mode => fs.Is dir .dir ∧ sIsDir mode = false
  | .unlink dir _ ino => fs.Entry dir ino ∧ ¬fs.Is ino .dir
  | .write ino pos data => 1 ≤ data.length ∧ (fs.Is ino .fresh ∨ fs.Is ino .small) ∧
    max (pos + data.length) (fs.inode ino).iSize ≤ 3968
  | _ => False

instance (fs : Fs) : (op : Op) → Decidable (op.Plain fs)
  | .create .. => inferInstanceAs (Decidable (Fs.Is ..))
  | .mkdir .. => inferInstanceAs (Decidable (Fs.Is ..))
  | .unlink .. => inferInstanceAs (Decidable (_ ∧ _))
  | .rmdir .. => inferInstanceAs (Decidable (_ ∧ _))
  | .rename .. => inferInstanceAs (Decidable False)
  | .write .. => inferInstanceAs (Decidable (_ ∧ (_ ∧ _ ∨ _ ∧ _ ∨ _ ∧ _)))
  | .append .. => inferInstanceAs (Decidable False)

instance (fs : Fs) : (op : Op) → Decidable (op.Small fs)
  | .create .. => inferInstanceAs (Decidable (_ ∧ _))
  | .mkdir .. => inferInstanceAs (Decidable False)
  | .unlink .. => inferInstanceAs (Decidable (_ ∧ _))
  | .rmdir .. => inferInstanceAs (Decidable False)
  | .rename .. => inferInstanceAs (Decidable False)
  | .write .. => inferInstanceAs (Decidable (_ ∧ (_ ∨ _) ∧ _))
  | .append .. => inferInstanceAs (Decidable False)

theorem Op.Small.plain {fs : Fs} {op : Op} (h : op.Small fs) : op.Plain fs := by
  cases op with
  | create dir name mode => exact h.1
  | unlink dir name ino => exact h
  | write ino pos data =>
      obtain ⟨hlen, hk | hk, hsize⟩ := h
      · exact ⟨hlen, Or.inl ⟨hk, by omega⟩⟩
      · exact ⟨hlen, Or.inr (Or.inl ⟨hk, hsize⟩)⟩
  | mkdir | rmdir | rename | append => exact h.elim

/-- A write that needs slices which neither the chain nor the free blocks provide. -/
def Op.LacksRoom (fs : Fs) (chain : List Nat) : Op → Prop
  | .write ino pos data => (fs.Is ino .fresh ∨ fs.Is ino .small) ∧
    max (pos + data.length) (fs.inode ino).iSize ≤ 3968 ∧
    (fs.inode ino).numSlices ≠ fs.slicesFor ino pos data ∧
    fs.NoRoom chain (fs.slicesFor ino pos data)
  | _ => False

section Step

variable {k : Kernel} {chain : List Nat}

/-- What a returning call leaves. -/
structure Stepped (k : Kernel) (chain : List Nat) (run : Outcome Int) (r : Int) (k' : Kernel)
    (chain' : List Nat) : Prop where
  run : run = .ok (r, k')
  faults : k'.faults = []
  wf : WF k'.fs chain'
  tight : k'.AllocFailed ∨ (Tight k.fs chain → Tight k'.fs chain')

theorem Op.write_small {ino pos : Nat} {data : List UInt8} (hf : k.faults = []) (h : WF k.fs chain)
    (hino : k.fs.Is ino .fresh ∨ k.fs.Is ino .small) (hlen : 1 ≤ data.length)
    (hsize : max (pos + data.length) (k.fs.inode ino).iSize ≤ 3968) :
    (∃ k' chain', Op.exec k (.write ino pos data) = .ok ((data.length : Int), k') ∧
      Written k k' chain chain' ino (combinedBuf (k.fs.oldBytes ino) pos data)) ∨
    (Op.LacksRoom k.fs chain (.write ino pos data) ∧
      (Op.exec k (.write ino pos data)).kernel.AllocFailed ∧
      (Op.exec k (.write ino pos data)).kernel.fs.sbi.bfreeBitmap 0 = true) := by
  have hw : Op.exec k (.write ino pos data) =
      writeResult (writeSmallFile k ino { kiPos := pos, append := false } data) :=
    congrArg writeResult (customWriteIter_small hino hsize)
  have hpos : Kiocb.startPos { kiPos := pos, append := false } (k.inode ino) = pos := rfl
  rw [hw]
  -- a write in place needs no room
  by_cases hplace : (k.fs.inode ino).numSlices = k.fs.slicesFor ino pos data
  · have hsm : k.fs.Is ino .small := by
      refine hino.resolve_left fun hfr => ?_
      rw [(h.fresh ino hfr).2] at hplace
      unfold Fs.slicesFor divRoundUp at hplace
      omega
    obtain ⟨k', hrun, hwr⟩ := writeSmallFile_inPlace hf h.toCore hsm hpos hplace
    have hold : k.fs.oldBytes ino = k.fs.smallBytes ino := by simp [Fs.oldBytes, hsm.2]
    left
    refine ⟨k', chain, ?_, by rw [hold]; exact hwr.written h⟩
    rw [hrun]
    rfl
  · rcases writeSmallFile_spec hf h hino hpos hlen (by omega) with
      ⟨k', chain', io, hrun, hwr⟩ | ⟨hno, hov⟩
    · left
      refine ⟨k', chain', ?_, hwr⟩
      rw [hrun]
      rfl
    · right
      rw [writeResult_kernel]
      exact ⟨⟨hino, hsize, hplace, hno⟩, hov.failed, hov.bit0⟩

theorem Op.write_big {ino pos : Nat} {data : List UInt8} (hf : k.faults = []) (h : WF k.fs chain)
    (hino : k.fs.Is ino .fresh ∧ 3968 < pos + data.length ∨ k.fs.Is ino .big)
    (hsize : pos + data.length ≤ 4194304) :
    (∃ k', Op.exec k (.write ino pos data) = .ok ((data.length : Int), k') ∧
      BigWritten k k' chain ino pos data) ∨
    (∃ k', Op.exec k (.write ino pos data) = .ok (-ENOSPC, k') ∧
      BigFailed k k' chain ino (max (pos + data.length) (k.inode ino).iSize)) := by
  have hw : Op.exec k (.write ino pos data) =
      writeResult (writeBigFile k ino { kiPos := pos, append := false } data) := by
    apply congrArg writeResult
    rcases hino with ⟨hk, hlt⟩ | hk
    · exact customWriteIter_firstBig hk (Nat.lt_of_lt_of_le hlt (Nat.le_max_left _ _))
    · exact customWriteIter_big h.toCore hk
  have hk : k.fs.Is ino .fresh ∨ k.fs.Is ino .big := hino.imp_left And.left
  have hold : (k.inode ino).iSize ≤ 4194304 := by
    rcases hk with hk | hk
    · have : (k.inode ino).iSize = 0 := (h.fresh ino hk).1
      omega
    · exact (h.inodes.big ino hk).1
  rw [hw]
  rcases writeBigFile_spec { kiPos := pos, append := false } data hf h hk rfl rfl
    (Nat.max_le.2 ⟨hsize, hold⟩) with ⟨k', hrun, hres⟩ | ⟨k', hrun, hres⟩
  · left
    refine ⟨k', ?_, hres⟩
    rw [hrun]
    rfl
  · right
    refine ⟨k', ?_, hres⟩
    rw [hrun]
    rfl

/-- **One call keeps the invariant, unless a small write finds no room.** -/
theorem Op.Plain.step {op : Op} (hop : op.Plain k.fs) (hf : k.faults = []) (h : WF k.fs chain) :
    (∃ r k' chain', Stepped k chain (op.exec k) r k' chain') ∨
    (op.LacksRoom k.fs chain ∧ (op.exec k).kernel.AllocFailed ∧
      (op.exec k).kernel.fs.sbi.bfreeBitmap 0 = true) := by
  cases op with
  | create dir name mode =>
      left
      obtain ⟨r, k', hrun, hf', -, ⟨-, hsame, -⟩ | ⟨-, ino, n, hc⟩⟩ :=
        ouichefsCreate_spec hf h hop name mode
      · exact ⟨r, k', chain, hrun, hf', hsame ▸ h, Or.inr fun ht => hsame ▸ ht⟩
      · exact ⟨r, k', chain, hrun, hf', hc.wf, Or.inr hc.tight⟩
  | mkdir dir name mode =>
      left
      obtain ⟨r, k', hrun, hf', -, ⟨-, hsame, -⟩ | ⟨-, ino, n, hc⟩⟩ :=
        ouichefsCreate_spec hf h hop name (mode ||| 0o040000)
      · exact ⟨r, k', chain, hrun, hf', hsame ▸ h, Or.inr fun ht => hsame ▸ ht⟩
      · exact ⟨r, k', chain, hrun, hf', hc.wf, Or.inr hc.tight⟩
  | unlink dir name ino =>
      left
      obtain ⟨⟨hd, h0, f, hs⟩, hnd⟩ := hop
      obtain ⟨k', chain', n, hrun, hf', -, hr⟩ :=
        ouichefsUnlink_spec hf h hd hs h0 fun hc => absurd hc hnd
      exact ⟨0, k', chain', hrun, hf', hr.wf, Or.inr hr.tight⟩
  | rmdir dir name ino =>
      left
      obtain ⟨⟨hd, h0, f, hs⟩, hi⟩ := hop
      obtain ⟨r, k', hrun, hf', -, ⟨-, hsame⟩ | ⟨-, chain', n, hr⟩⟩ := ouichefsRmdir_spec hf h hd hs hi
      · exact ⟨r, k', chain, hrun, hf', hsame ▸ h, Or.inr fun ht => hsame ▸ ht⟩
      · exact ⟨r, k', chain', hrun, hf', hr.wf, Or.inr hr.tight⟩
  | rename | append => exact hop.elim
  | write ino pos data =>
      obtain ⟨hlen, hk⟩ := hop
      by_cases hsm : (k.fs.Is ino .fresh ∨ k.fs.Is ino .small) ∧
          max (pos + data.length) (k.fs.inode ino).iSize ≤ 3968
      · rcases Op.write_small hf h hsm.1 hlen hsm.2 with ⟨k', chain', hrun, hw⟩ | hno
        · exact Or.inl ⟨_, k', chain', hrun, hw.faults, hw.wf, Or.inr hw.tight⟩
        · exact Or.inr hno
      · left
        have hbig : k.fs.Is ino .fresh ∧ 3968 < pos + data.length ∨ k.fs.Is ino .big := by
          rcases hk with ⟨hk, -⟩ | ⟨hk, hsz⟩ | ⟨hk, -⟩
          · left
            refine ⟨hk, ?_⟩
            have h0 := (h.fresh ino hk).1
            by_contra hle
            exact hsm ⟨Or.inl hk, by omega⟩
          · exact absurd ⟨Or.inr hk, hsz⟩ hsm
          · exact Or.inr hk
        have hsize : pos + data.length ≤ 4194304 := by
          rcases hk with ⟨-, hsz⟩ | ⟨-, hsz⟩ | ⟨-, hsz⟩ <;> omega
        rcases Op.write_big hf h hbig hsize with ⟨k', hrun, hw⟩ | ⟨k', hrun, hw⟩
        · exact ⟨_, k', chain, hrun, hw.faults, hw.kept.wf, Or.inr hw.tight⟩
        · refine ⟨_, k', chain, hrun, hw.faults, hw.kept.wf, hw.same.imp_right fun he ht => ?_⟩
          rw [he]
          exact ht

end Step

/-! ## Runs in which no allocation fails -/

instance (k : Kernel) : Decidable k.AllocFailed := inferInstanceAs (Decidable (_ ∈ _))

/-- A plain call during which `get_free_block` finds a block. -/
def PlainCall (k : Kernel) (c : Call) : Prop :=
  c.op.Plain k.fs ∧ ¬(c.exec k).kernel.AllocFailed

instance (k : Kernel) (c : Call) : Decidable (PlainCall k c) := inferInstanceAs (Decidable (_ ∧ _))

/-- What holds between the calls of such a run. -/
structure PlainInv (k : Kernel) (chain : List Nat) : Prop where
  faults : k.faults = []
  wf : WF k.fs chain
  tight : Tight k.fs chain

theorem Formatted.plainInv {k : Kernel} (hf : k.faults = []) (h : Formatted k.fs)
    (hz : k.fs.Blank) : PlainInv k [] :=
  ⟨hf, h.wf fun _ => hz, h.tight⟩

theorem PlainCall.step {k : Kernel} {c : Call} {chain : List Nat} (h : PlainInv k chain)
    (hc : PlainCall k c) :
    ∃ r k' chain', c.exec k = .ok (r, k') ∧ PlainInv k' chain' := by
  rcases Op.Plain.step (k := k.setCaller c.now c.fsuid c.fsgid) hc.1 h.faults h.wf with
    ⟨r, k', chain', hs⟩ | ⟨-, hfail, -⟩
  · refine ⟨r, k', chain', hs.run, hs.faults, hs.wf, hs.tight.resolve_left ?_ h.tight⟩
    intro hfail
    apply hc.2
    show (c.op.exec _).kernel.AllocFailed
    rw [hs.run]
    exact hfail
  · exact absurd hfail hc.2

/-- The state after a run. -/
def Kernel.after (k : Kernel) (cs : List Call) : Kernel :=
  match runAll Call.exec k cs with
  | .ok k' => k'
  | .error (_, k') => k'

theorem Kernel.runAll_after {k : Kernel} {cs : List Call}
    (h : (runAll Call.exec k cs).isOk = true) : runAll Call.exec k cs = .ok (k.after cs) := by
  unfold Kernel.after
  cases hr : runAll Call.exec k cs with
  | ok k' => rfl
  | error e =>
      rw [hr] at h
      cases h

/-- **Every run of plain calls keeps the invariant.** -/
theorem PlainInv.run {k : Kernel} {chain : List Nat} {cs : List Call} (h : PlainInv k chain)
    (ha : Admissible Call.exec PlainCall k cs) :
    ∃ k' chain', runAll Call.exec k cs = .ok k' ∧ PlainInv k' chain' := by
  obtain ⟨k', hrun, chain', hinv⟩ := runAll_invariant (I := fun k => ∃ chain, PlainInv k chain)
    (fun k c ⟨chain, hi⟩ hc => by
      obtain ⟨r, k', chain', he, hi'⟩ := hc.step hi
      exact ⟨r, k', he, chain', hi'⟩) cs k ⟨chain, h⟩ ha
  exact ⟨k', chain', hrun, hinv⟩

theorem PlainInv.after {k : Kernel} {chain : List Nat} {cs : List Call} (h : PlainInv k chain)
    (ha : Admissible Call.exec PlainCall k cs) : ∃ chain', PlainInv (k.after cs) chain' := by
  obtain ⟨k', chain', hrun, hinv⟩ := h.run ha
  refine ⟨chain', ?_⟩
  unfold Kernel.after
  rw [hrun]
  exact hinv

/-- What a run leaves of an empty image. -/
theorem emptyImage_after {nrBlocks nrInodes : Nat} {cs : List Call}
    (ha : Admissible Call.exec PlainCall (emptyImage nrBlocks nrInodes) cs)
    (hb : 4 < nrBlocks := by decide) (hlt : nrBlocks ≤ 134217728 := by decide)
    (hi : 1 < nrInodes := by decide) (hle : nrInodes ≤ 51 := by decide) :
    ∃ chain, PlainInv ((emptyImage nrBlocks nrInodes).after cs) chain :=
  ((emptyImage_formatted hb (Nat.lt_of_le_of_lt hlt (by decide)) hi hle).plainInv rfl
    (emptyImage_blank hlt)).after ha

end Ouichefs
