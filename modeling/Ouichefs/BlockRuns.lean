import Ouichefs.SmallRuns

/-!
# Blocks over whole runs

Who owns which block after every run without size-class conversion (`blockLayout_run`), and what
is left of the free-block accounting when the disk fills up (`accounting_run`).  The one call that
breaks the accounting is a small write that finds neither slices nor a free block: it hands block 0
back to the allocator.
-/

set_option autoImplicit false

namespace Ouichefs

open FreeMap

variable {k : Kernel} {chain : List Nat}

/-! ## Ownership -/

/-- The blocks in use are the metadata, the index blocks of directories and big files, the data
blocks of big files and the sliced blocks, each in exactly one of these roles; the counter is exact
and free blocks are zero-filled. -/
structure BlockLayout (fs : Fs) (chain : List Nat) : Prop where
  isChain : IsLinked fs.next fs.sbi.sFreeSlicedBlocks chain
  used : ∀ a, fs.Used a ↔ ∃! r, Refers fs chain r a
  once : ∀ r r' a, Refers fs chain r a → Refers fs chain r' a → r = r'
  ptrs : ∀ ino, fs.Is ino .big → ∀ i < 1024, indexPtr (fs.indexOf ino) i ≠ 0 →
    i < (fs.inode ino).iBlocks - 1
  count : fs.sbi.nrFreeBlocks = countBits fs.sbi.bfreeBitmap fs.sbi.nrBlocks
  zero : ∀ b < fs.sbi.nrBlocks, fs.sbi.bfreeBitmap b = true → fs.disk b = Page.zero

theorem PlainInv.layout (h : PlainInv k chain) : BlockLayout k.fs chain where
  isChain := h.wf.isChain
  used a := by
    constructor
    · intro hu
      obtain ⟨r, hr⟩ := h.tight.covered a ⟨hu, id⟩
      exact ⟨r, hr, fun r' hr' => h.wf.owned.inj hr' hr⟩
    · rintro ⟨r, hr, -⟩
      exact h.wf.owned.used hr
  once r r' a hr hr' := h.wf.owned.inj hr hr'
  ptrs ino hi i hlt hne := by
    by_contra hle
    exact hne (h.tight.ptrs ino hi i (Nat.not_lt.1 hle) hlt)
  count := h.wf.sb.count
  zero := h.wf.zero trivial

/-- **Every block in use has exactly one owner after every run without size-class conversion.** -/
theorem blockLayout_run {cs : List Call} (hf : k.faults = []) (h : Formatted k.fs)
    (hz : k.fs.Blank) (ha : Admissible Call.exec PlainCall k cs) :
    ∃ k', runAll Call.exec k cs = .ok k' ∧ ∃ chain, BlockLayout k'.fs chain := by
  obtain ⟨k', chain, hrun, hinv⟩ := (h.plainInv hf hz).run ha
  exact ⟨k', hrun, chain, hinv.layout⟩

/-- A directory, a sparse big file and a small file; the big file is removed. -/
def mixedRun : List Call :=
  [(Op.mkdir 1 [100] 0o755).call, (Op.create 2 [97] 0o100644).call, (Op.write 3 9000 [1]).call,
    (Op.create 1 [98] 0o100644).call, (Op.write 4 0 [2]).call, (Op.unlink 2 [97] 3).call]

theorem blockLayout_run_mixedRun :
    ∃ k', runAll Call.exec (emptyImage 16 8) mixedRun = .ok k' ∧
      ∃ chain, BlockLayout k'.fs chain :=
  blockLayout_run rfl (emptyImage_formatted (by decide) (by decide) (by decide) (by decide))
    (emptyImage_blank (by decide)) (by decide +kernel)

/-! ## Accounting -/

/-- Block 0 is never free, the counter is exact, and a free block is found. -/
structure Accounting (k : Kernel) : Prop where
  bit0 : k.fs.sbi.bfreeBitmap 0 = false
  count : k.fs.sbi.nrFreeBlocks = countBits k.fs.sbi.bfreeBitmap k.fs.sbi.nrBlocks
  found : (∃ b < k.fs.sbi.nrBlocks, k.fs.sbi.bfreeBitmap b = true) → k.getFreeBlock.1 ≠ 0

theorem WF.accounting (h : WF k.fs chain) : Accounting k := by
  have h0 := h.toCore.bit0
  refine ⟨h0, h.sb.count, ?_⟩
  rintro ⟨b, hb, hfree⟩
  rcases Kernel.getFreeBlock_cases h0 h.sb.blocks_lt h.sb.count with
    ⟨b', hpos, -, -, hget⟩ | ⟨hnone, -⟩
  · rw [hget]
    exact Nat.ne_of_gt hpos
  · rw [hnone b hb] at hfree
    cases hfree

/-- A write of at most 3968 bytes to a file that a failed first write left with an index block. -/
def Op.OnStray (fs : Fs) : Op → Prop
  | .write ino pos data =>
    fs.Is ino .stray ∧ max (pos + data.length) (fs.inode ino).iSize ≤ 3968
  | _ => False

/-- A short write to a file with an index block but no slices fails without a change. -/
theorem customWriteIter_stray {ino : Nat} {iocb : Kiocb} {data : List UInt8}
    (hs : (k.inode ino).kind = .stray)
    (hsize : max (iocb.kiPos + data.length) (k.inode ino).iSize ≤ 3968) :
    customWriteIter k ino iocb data = .ok ((- EIO, iocb), k) := by
  obtain ⟨-, hb, hidx, hn⟩ := Inode.kind_stray.1 hs
  unfold customWriteIter
  simp only [isNew, isSmallFile, willBeSmall, hb, hsize, decide_true, if_true,
    if_false, beq_self_eq_true, Bool.not_true, Bool.false_eq_true]
  rw [writeSmallFile_rewrite _ _ hidx, (rewriteSmallFile_exits k ino iocb data).2 (.noSlices hn rfl)]
  simp [hidx]

theorem Op.OnStray.exec {op : Op} (h : op.OnStray k.fs) : op.exec k = .ok (- EIO, k) := by
  cases op with
  | write ino pos data =>
      obtain ⟨hs, hsize⟩ := h
      show writeResult (customWriteIter k ino ⟨pos, false⟩ data) = _
      rw [customWriteIter_stray (show (k.inode ino).kind = .stray from hs.2) hsize]
      rfl
  | create | mkdir | unlink | rmdir | rename | append => exact h.elim

/-- A call without size-class conversion that does not need slices which neither the chain nor the
free blocks provide. -/
def RoomyCall (k : Kernel) (c : Call) : Prop :=
  (c.op.Plain k.fs ∨ c.op.OnStray k.fs) ∧
    ¬∃ chain, IsLinked k.fs.next k.fs.sbi.sFreeSlicedBlocks chain ∧ c.op.LacksRoom k.fs chain

theorem RoomyCall.step {c : Call} (hf : k.faults = []) (h : WF k.fs chain) (hc : RoomyCall k c) :
    ∃ r k' chain', c.exec k = .ok (r, k') ∧ k'.faults = [] ∧ WF k'.fs chain' := by
  obtain ⟨hop | hop, hroom⟩ := hc
  · rcases Op.Plain.step (k := k.setCaller c.now c.fsuid c.fsgid) hop hf h with
      ⟨r, k', chain', hs⟩ | ⟨hlack, -⟩
    · exact ⟨r, k', chain', hs.run, hs.faults, hs.wf⟩
    · exact absurd ⟨chain, h.isChain, hlack⟩ hroom
  · exact ⟨_, _, chain, Op.OnStray.exec (k := k.setCaller c.now c.fsuid c.fsgid) hop, hf, h⟩

/-- **The accounting survives every run, full disk or not, in which no small write runs out of
both slices and blocks**, if the free blocks are zero-filled when it starts: the next word of a new
sliced block is what the block held before. -/
theorem accounting_run {Z : Prop} {cs : List Call} (hf : k.faults = []) (h : WF k.fs chain Z)
    (hz : k.fs.Blank) (ha : Admissible Call.exec RoomyCall k cs) :
    ∃ k', runAll Call.exec k cs = .ok k' ∧ Accounting k' := by
  obtain ⟨k', hrun, -, chain', hwf⟩ := runAll_invariant
    (I := fun k => k.faults = [] ∧ ∃ chain, WF k.fs chain)
    (fun k c ⟨hf, chain, hw⟩ hc => by
      obtain ⟨r, k', chain', he, hf', hw'⟩ := hc.step hf hw
      exact ⟨r, k', he, hf', chain', hw'⟩) cs k ⟨hf, chain, h.blank hz⟩ ha
  exact ⟨k', hrun, hwf.accounting⟩

/-- Two files on a disk with one free block, which the first one fills. -/
def fullRun : List Call :=
  [(Op.create 1 [97] 0o100644).call, (Op.create 1 [98] 0o100644).call,
    (Op.write 2 0 (List.replicate 3968 1)).call, (Op.write 3 0 [2]).call]

/-- The write to the second file makes the superblock a free block. -/
theorem accounting_fullRun : WF (emptyImage 6 8).fs [] ∧ (emptyImage 6 8).fs.Blank ∧
    (emptyImage 6 8).faults = [] ∧
    Admissible Call.exec (fun k c => c.op.Plain k.fs) (emptyImage 6 8) fullRun ∧
    ¬Accounting ((emptyImage 6 8).after fullRun) := by
  refine ⟨emptyImage_wf (by decide) (by decide) (by decide) (by decide),
    emptyImage_blank (by decide), rfl, by decide +kernel, fun h => ?_⟩
  have hbit := h.bit0
  revert hbit
  decide +kernel

/-- A free block is room enough. -/
theorem RoomyCall.of_free {c : Call} {b : Nat} (hop : c.op.Plain k.fs) (hb : b < k.fs.sbi.nrBlocks)
    (hfree : k.fs.sbi.bfreeBitmap b = true) : RoomyCall k c := by
  refine ⟨Or.inl hop, ?_⟩
  rintro ⟨chain, -, hlack⟩
  cases hc : c.op with
  | write ino pos data =>
      rw [hc] at hlack
      rw [hlack.2.2.2.2 b hb] at hfree
      cases hfree
  | create | mkdir | unlink | rmdir | rename | append =>
      rw [hc] at hlack
      exact hlack.elim

/-- A file takes the last free block. -/
theorem accounting_run_lastBlock : ∃ k', runAll Call.exec (emptyImage 6 8)
      [(Op.create 1 [97] 0o100644).call, (Op.write 2 0 [1]).call] = .ok k' ∧ Accounting k' := by
  refine accounting_run rfl
    (emptyImage_wf (by decide) (by decide) (by decide) (by decide)) (emptyImage_blank (by decide)) ?_
  have hroom : ∀ (k : Kernel) (c : Call), c.op.Plain k.fs ∧ 5 < k.fs.sbi.nrBlocks ∧
      k.fs.sbi.bfreeBitmap 5 = true → RoomyCall k c :=
    fun k c hc => .of_free hc.1 hc.2.1 hc.2.2
  exact Admissible.mono hroom _ _ (by decide +kernel)

end Ouichefs
