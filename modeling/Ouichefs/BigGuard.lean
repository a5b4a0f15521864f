import Ouichefs.BigInv
import Ouichefs.Guard

/-!
# Storage that no failure reaches: big files

The functions that follow the pointers of an index block, with any answers.  `Owns` says that the
pointers do not lead into the shelter.

* `writeBigFile_guard`, `releaseStorage_guard`.
-/

set_option autoImplicit false

namespace Ouichefs

section Big

variable {p : Shelter} {C : Nat → Prop} {k : Kernel} {idx i ino : Nat} {iocb : Kiocb}
  {data : List UInt8}

/-- The index block `idx` and the blocks behind its pointers may hold anything. -/
structure Owns (p : Shelter) (C : Nat → Prop) (fs : Fs) (idx : Nat) : Prop where
  index : p.Clear C idx
  data : ∀ i < 1024, indexPtr (fs.disk idx) i ≠ 0 →
    p.Clear C (indexPtr (fs.disk idx) i) ∧ indexPtr (fs.disk idx) i ≠ idx

/-- These blocks are in use. -/
structure OwnsUsed (p : Shelter) (C : Nat → Prop) (fs : Fs) (idx : Nat) : Prop extends
    Owns p C fs idx where
  indexUsed : fs.sbi.bfreeBitmap idx = false
  dataUsed : ∀ i < 1024, indexPtr (fs.disk idx) i ≠ 0 →
    fs.sbi.bfreeBitmap (indexPtr (fs.disk idx) i) = false

theorem Owns.setBlock {fs : Fs} {b : Nat} (h : Owns p C fs idx) (hb : b ≠ idx) (nb : Block) :
    Owns p C (fs.setBlock b nb) idx := by
  have hd : (fs.setBlock b nb).disk idx = fs.disk idx := by
    rw [Fs.disk_setBlock, if_neg hb.symm]
  refine ⟨h.index, ?_⟩
  rw [hd]
  exact h.data

theorem OwnsUsed.setBlock {fs : Fs} {b : Nat} (h : OwnsUsed p C fs idx) (hb : b ≠ idx)
    (nb : Block) : OwnsUsed p C (fs.setBlock b nb) idx := by
  have hd : (fs.setBlock b nb).disk idx = fs.disk idx := by
    rw [Fs.disk_setBlock, if_neg hb.symm]
  refine ⟨h.toOwns.setBlock hb nb, h.indexUsed, ?_⟩
  rw [hd]
  exact h.dataUsed

/-- A pointer is filled. -/
theorem OwnsUsed.link {fs : Fs} {b : Nat} (h : OwnsUsed p C fs idx) (hi : i < 1024)
    (hb : p.Clear C b) (hne : b ≠ idx) (hu : fs.sbi.bfreeBitmap b = false)
    (hlt : b < 4294967296) : OwnsUsed p C (fs.linkData idx i b) idx := by
  have hptr : ∀ j, indexPtr ((fs.linkData idx i b).disk idx) j =
      if j = i then b else indexPtr (fs.disk idx) j := by
    intro j
    unfold Fs.linkData
    rw [Fs.disk_setBlock, if_pos rfl, indexPtr_setWord _ hi hlt]
  refine ⟨⟨h.index, fun j hj => ?_⟩, h.indexUsed, fun j hj => ?_⟩
  · rw [hptr]
    split
    · exact fun _ => ⟨hb, hne⟩
    · exact h.data j hj
  · rw [hptr]
    split
    · exact fun _ => hu
    · exact h.dataUsed j hj

/-- What a call needs to write to the big file with index block `idx`. -/
structure Ready (p : Shelter) (C : Nat → Prop) (fs : Fs) (idx : Nat) : Prop where
  guard : Guard p C fs
  fertile : Fertile C fs
  owns : OwnsUsed p C fs idx

/-- An allocation writes no block and frees none. -/
theorem Kernel.getFreeBlock_keeps (h0 : k.fs.sbi.bfreeBitmap 0 = false) :
    k.getFreeBlock.2.fs.disk = k.fs.disk ∧
      (∀ c, k.fs.sbi.bfreeBitmap c = false → k.getFreeBlock.2.fs.sbi.bfreeBitmap c = false) ∧
      (k.getFreeBlock.1 ≠ 0 → k.fs.sbi.bfreeBitmap k.getFreeBlock.1 = true) := by
  rcases Kernel.getFreeBlock_bits h0 with ⟨b, -, -, hfree, -, heq⟩ | ⟨-, heq⟩
  · rw [heq]
    refine ⟨rfl, fun c hc => ?_, fun _ => hfree⟩
    show Function.update k.fs.sbi.bfreeBitmap b false c = false
    rw [Function.update_apply]
    split
    · rfl
    · exact hc
  · rw [heq]
    exact ⟨rfl, fun _ => id, fun hc => absurd rfl hc⟩

theorem Ready.getFreeBlock (h : Ready p C k.fs idx) : Ready p C k.getFreeBlock.2.fs idx ∧
    (k.getFreeBlock.1 ≠ 0 → Fresh p C k.getFreeBlock.2.fs k.getFreeBlock.1 ∧
      k.getFreeBlock.1 ≠ idx) := by
  obtain ⟨hg, hf, hfresh⟩ := h.guard.getFreeBlock h.fertile
  obtain ⟨hd, hbits, hfree⟩ := Kernel.getFreeBlock_keeps h.fertile.bit0
  refine ⟨⟨hg, hf, ⟨⟨h.owns.index, ?_⟩, hbits idx h.owns.indexUsed, fun i hi hp => hbits _ ?_⟩⟩,
    fun hb => ⟨hfresh hb, ?_⟩⟩
  · rw [hd]
    exact h.owns.data
  · rw [hd] at hp ⊢
    exact h.owns.dataUsed i hi hp
  · intro he
    have := hfree hb
    rw [he, h.owns.indexUsed] at this
    cases this

theorem Ready.setData {fs : Fs} {b : Nat} (h : Ready p C fs idx) (hb : p.Clear C b) (hne : b ≠ idx)
    (hu : fs.sbi.bfreeBitmap b = false) (nb : Block) : Ready p C (fs.setBlock b nb) idx :=
  ⟨h.guard.setClear hb nb, h.fertile.setBlock hu nb, h.owns.setBlock hne nb⟩

/-- The block behind a pointer, or a new one. -/
theorem getDataBlock_guard (h : Ready p C k.fs idx) (hi : i < 1024) :
    ∃ b k', getDataBlock k idx i = (b, k') ∧ Ready p C k'.fs idx ∧
      (b ≠ 0 → p.Clear C b ∧ b ≠ idx ∧ k'.fs.sbi.bfreeBitmap b = false) := by
  unfold getDataBlock
  simp only
  split
  · rename_i hptr
    have hget := h.getFreeBlock
    generalize k.getFreeBlock = a at hget
    obtain ⟨b, k₁⟩ := a
    obtain ⟨h₁, hfresh⟩ := hget
    cases b with
    | zero => exact ⟨0, k₁, rfl, h₁, fun hc => absurd rfl hc⟩
    | succ b =>
        obtain ⟨hnew, hne⟩ := hfresh (Nat.succ_ne_zero b)
        have hlt : b + 1 < 4294967296 := Nat.lt_trans hnew.lt h₁.fertile.lt
        exact ⟨b + 1, _, rfl, ⟨h₁.guard.setClear h₁.owns.index _,
          h₁.fertile.setBlock h₁.owns.indexUsed _, h₁.owns.link hi hnew.toClear hne hnew.used hlt⟩,
          fun _ => ⟨hnew.toClear, hne, hnew.used⟩⟩
  · rename_i hptr
    obtain ⟨hclear, hne⟩ := h.owns.data i hi hptr
    exact ⟨_, k, rfl, h, fun _ => ⟨hclear, hne, h.owns.dataUsed i hi hptr⟩⟩

/-- One block of the file is read, zeroed in the gap and filled with the user's data. -/
theorem Ready.copied {b n o : Nat} {k₁ k₂ : Kernel} {nb : Block} {copied : List UInt8} {ok : Bool}
    (h : Ready p C k.fs idx)
    (hb : p.Clear C b ∧ b ≠ idx ∧ k.fs.sbi.bfreeBitmap b = false)
    (hread : k.sbBread b = (ok, k₁))
    (hcopy : (k₁.setBlock b nb).copyFromIter n data = (copied, k₂)) :
    Ready p C (k₂.setBlock b ((k₂.fs.disk b).blit o copied)).fs idx := by
  obtain ⟨hclear, hne, hused⟩ := hb
  rw [← Kernel.sbBread_same hread] at h hused
  have h₁ := h.setData hclear hne hused nb
  have hused₁ : (k₁.setBlock b nb).fs.sbi.bfreeBitmap b = false := hused
  have h₁ : Ready p C (k₁.setBlock b nb).fs idx := h₁
  rw [← (Kernel.copyFromIter_same hcopy).1] at h₁ hused₁
  exact h₁.setData hclear hne hused₁ _

/-- The copy loop, with any answers. -/
theorem writeBigLoop_guard (iSize : Nat) : ∀ (fuel : Nat) (k : Kernel) (pos : Nat)
    (data : List UInt8), Ready p C k.fs idx →
    Guards p (fun _ k' => Guard p C k'.fs) (writeBigLoop iSize idx fuel k pos data) := by
  intro fuel
  induction fuel with
  | zero =>
      intro k pos data h
      cases data with
      | nil => exact h.guard
      | cons x xs => exact h.guard.toUnharmed
  | succ fuel ih =>
      intro k pos data h
      cases data with
      | nil => exact h.guard
      | cons x xs =>
          have hblk : ¬pos / 4096 ≥ 1024 → _ := fun hi =>
            getDataBlock_guard (i := pos / 4096) h (Nat.not_le.1 hi)
          cases (writeBigLoop_exits iSize idx fuel k pos x xs).1 rfl with
          | tooBig hpos eq =>
              rw [eq]
              exact h.guard
          | noBlock hpos hblock eq =>
              obtain ⟨b, k₁, heq, h₁, -⟩ := hblk hpos
              rw [heq] at hblock
              cases hblock
              rw [eq]
              exact h₁.guard
          | unread hpos hblock hread eq =>
              obtain ⟨b, k₁, heq, h₁, -⟩ := hblk hpos
              rw [heq] at hblock
              cases hblock
              rw [← Kernel.sbBread_same hread] at h₁
              rw [eq]
              exact h₁.guard
          | fault hpos hblock hread hcopy hlen eq =>
              obtain ⟨b, k₁, heq, h₁, hb⟩ := hblk hpos
              rw [heq] at hblock
              cases hblock
              rw [eq]
              exact (h₁.copied (hb (Nat.succ_ne_zero _)) hread hcopy).guard
          | copied hpos hblock hread hcopy hlen eq =>
              obtain ⟨b, k₁, heq, h₁, hb⟩ := hblk hpos
              rw [heq] at hblock
              cases hblock
              rw [eq]
              exact ih _ _ _ (h₁.copied (hb (Nat.succ_ne_zero _)) hread hcopy)

/-- The index block, or a new one. -/
theorem ensureIndexBlock_guard (h : Guard p C k.fs) (hf : Fertile C k.fs)
    (ho : (k.inode ino).indexBlock = 0 ∨ OwnsUsed p C k.fs (k.inode ino).indexBlock) :
    ∃ ok k₁, ensureIndexBlock k ino = (ok, k₁) ∧ Guard p C k₁.fs ∧
      (ok = true → Ready p C k₁.fs (k₁.inode ino).indexBlock) := by
  have hget := h.getFreeBlock hf
  cases (ensureIndexBlock_exits k ino).1 rfl with
  | kept h0 eq => exact ⟨_, _, eq, h, fun _ => ⟨h, hf, ho.resolve_left h0⟩⟩
  | noBlock h0 hnone eq =>
      rw [hnone] at hget
      exact ⟨_, _, eq, hget.1, fun hc => by cases hc⟩
  | @new b k₁ h0 hnew eq =>
      rw [hnew] at hget
      obtain ⟨h₁, hf₁, hfresh⟩ := hget
      have hnew := hfresh (Nat.succ_ne_zero b)
      refine ⟨_, _, eq, h₁.setInode ino _, fun _ => ?_⟩
      have hino : ∀ ci : Inode, (k₁.setInode ino ci).inode ino = ci := fun ci => by
        simp [Kernel.inode]
      rw [hino]
      have hptr : ∀ j, indexPtr (k₁.fs.disk (b + 1)) j = 0 := by
        intro j
        rw [show k₁.fs.disk (b + 1) = Page.zero from hnew.zero]
        exact (Page.word_eq_zero_iff _ _).2 fun y _ => Page.get_zero _
      exact ⟨h₁.setInode ino _, hf₁.setInode ino _, ⟨⟨hnew.toClear,
        fun j _ hp => absurd (hptr j) hp⟩, hnew.used, fun j _ hp => absurd (hptr j) hp⟩⟩

/-- **`write_big_file`, with any answers.** -/
theorem writeBigFile_guard (h : Guard p C k.fs) (hf : Fertile C k.fs)
    (ho : (k.inode ino).indexBlock = 0 ∨ OwnsUsed p C k.fs (k.inode ino).indexBlock) :
    Guards p (fun _ k' => Guard p C k'.fs) (writeBigFile k ino iocb data) := by
  obtain ⟨ok, k₁, heq, h₁, hready⟩ := ensureIndexBlock_guard h hf ho
  -- the index block is read, then the loop runs
  have hloop' : ∀ {k₂ : Kernel} {run : Outcome (Except Int Nat)}, ok = true →
      k₁.sbBread (k₁.inode ino).indexBlock = (true, k₂) →
      writeBigLoop (k.inode ino).iSize (k₁.inode ino).indexBlock data.length k₂
        (iocb.startPos (k.inode ino)) data = run →
      Guards p (fun _ k' => Guard p C k'.fs) run := fun hok hread hrun => by
    have hr := hready hok
    rw [← Kernel.sbBread_same hread] at hr
    exact hrun ▸ writeBigLoop_guard _ _ _ _ _ hr
  cases (writeBigFile_exits k ino iocb data).1 rfl with
  | noIndex hindex eq =>
      rw [heq] at hindex
      cases hindex
      rw [eq]
      exact h₁
  | noSpace hindex hspace eq =>
      rw [heq] at hindex
      cases hindex
      rw [eq]
      exact h₁
  | unread hindex hspace hread eq =>
      rw [heq] at hindex
      cases hindex
      rw [← Kernel.sbBread_same hread] at h₁
      rw [eq]
      exact h₁
  | stopped hindex hspace hread hloop eq =>
      rw [heq] at hindex
      cases hindex
      rw [eq]
      exact hloop' rfl hread hloop
  | failed hindex hspace hread hloop eq =>
      rw [heq] at hindex
      cases hindex
      rw [eq]
      exact hloop' rfl hread hloop
  | written hindex hspace hread hloop eq =>
      rw [heq] at hindex
      cases hindex
      rw [eq]
      exact (hloop' rfl hread hloop).setInode ino _

/-- A big write through an index block behind the end of the device fails. -/
theorem writeBigFile_outside (h0 : (k.inode ino).indexBlock ≠ 0)
    (hidx : k.fs.sbi.nrBlocks ≤ (k.inode ino).indexBlock) :
    ∃ r k', writeBigFile k ino iocb data = .ok ((r, iocb), k') ∧ r ≤ 0 ∧ k'.fs = k.fs := by
  have hindex := ensureIndexBlock_keeps h0
  cases hspace : enoughBlocks k ino
      (max (iocb.startPos (k.inode ino) + data.length) (k.inode ino).iSize) with
  | false =>
      rw [(writeBigFile_exits k ino iocb data).2 (.noSpace hindex hspace rfl)]
      exact ⟨_, _, rfl, by decide, rfl⟩
  | true =>
      have hread : k.sbBread (k.inode ino).indexBlock = (false, k) := by
        unfold Kernel.sbBread
        rw [if_pos hidx]
      rw [(writeBigFile_exits k ino iocb data).2 (.unread hindex hspace hread rfl)]
      exact ⟨_, _, rfl, by decide, rfl⟩

/-- A conversion through such a block changes no block. -/
theorem convertSmallToBig_guard (h : Guard p C k.fs) (h0 : (k.inode ino).indexBlock ≠ 0)
    (hidx : k.fs.sbi.nrBlocks ≤ (k.inode ino).indexBlock) :
    Guards p (fun _ k' => Guard p C k'.fs) (convertSmallToBig k ino iocb data) := by
  cases (convertSmallToBig_exits k ino iocb data).1 rfl with
  | unread hread eq =>
      rw [← Kernel.sbBread_same hread] at h
      rw [eq]
      exact h
  | noCopy hread hmalloc eq =>
      rw [← Kernel.sbBread_same hread, ← Kernel.kmalloc_same hmalloc] at h
      rw [eq]
      exact h
  | fault hread hmalloc hcopy hlen eq =>
      rw [← Kernel.sbBread_same hread, ← Kernel.kmalloc_same hmalloc] at h
      have hfs := (Kernel.copyFromIter_same hcopy).1
      rw [Kernel.fs_brelse] at hfs
      rw [← hfs] at h
      rw [eq]
      exact h
  | noBuffer hread hmalloc hcopy hlen hmalloc' eq =>
      rw [← Kernel.sbBread_same hread, ← Kernel.kmalloc_same hmalloc] at h
      have hfs := (Kernel.copyFromIter_same hcopy).1
      rw [Kernel.fs_brelse] at hfs
      rw [← hfs, ← Kernel.kmalloc_same hmalloc'] at h
      rw [eq]
      exact h
  | @combined k₁ k₂ k₃ k₄ copied hread hmalloc hcopy hlen hmalloc' eq =>
      have hfs : k₄.fs = k.fs := by
        rw [Kernel.kmalloc_same hmalloc', (Kernel.copyFromIter_same hcopy).1, Kernel.fs_brelse,
          Kernel.kmalloc_same hmalloc, Kernel.sbBread_same hread]
      have hino : (k₄.setInode ino { k.inode ino with iSize := 0 }).inode ino =
          { k.inode ino with iSize := 0 } := by simp [Kernel.inode]
      obtain ⟨r, k₅, hrun, hr, hfs₅⟩ := @writeBigFile_outside
        (k₄.setInode ino { k.inode ino with iSize := 0 }) ino ⟨0, false⟩
        (combinedBuf ((k₂.fs.disk (k.inode ino).getBno).bytes
          ((k.inode ino).getSlice * 128) (k.inode ino).iSize)
          (iocb.startPos (k.inode ino)) copied) (by rw [hino]; exact h0)
        (by rw [hino]; show k₄.fs.sbi.nrBlocks ≤ _; rw [hfs]; exact hidx)
      rw [eq, (finishConversion_exits _ _ _ _ _ _ _).2 (.restored hrun hr rfl)]
      have h₅ : Guard p C k₅.fs := by
        rw [hfs₅]
        exact Guard.setInode (hfs ▸ h) ino _
      exact h₅.setInode ino _

/-! ## Release -/

/-- The loop over the pointers, with any answers. -/
theorem releaseData_guard : ∀ (n i : Nat) (k : Kernel), Guard p C k.fs → Owns p C k.fs idx →
    Guards p (fun _ k' => Guard p C k'.fs) (releaseData idx n i k) := by
  intro n
  induction n with
  | zero => exact fun i k h _ => h
  | succ n ih =>
      intro i k h ho
      unfold releaseData
      split
      · exact h.toUnharmed
      rename_i hi
      simp only
      split
      · exact ih (i + 1) k h ho
      rename_i hptr
      obtain ⟨hclear, hne⟩ := ho.data i (by omega) hptr
      generalize hread : k.sbBread (indexPtr (k.fs.disk idx) i) = a
      obtain ⟨ok, k₁⟩ := a
      have hfs := Kernel.sbBread_same hread
      have h₁ : Guard p C k₁.fs := by rwa [hfs]
      have ho₁ : Owns p C k₁.fs idx := by rwa [hfs]
      cases ok with
      | false =>
          simp only [hfs]
          exact ih (i + 1) _ (h₁.putBlock hclear.block hclear.slice)
            ⟨ho₁.index, ho₁.data⟩
      | true =>
          have hd : ((k₁.setBlock (indexPtr (k.fs.disk idx) i) Page.zero).brelse
              (indexPtr (k.fs.disk idx) i)).fs.disk idx = k.fs.disk idx := by
            show (k₁.fs.setBlock _ _).disk idx = _
            rw [Fs.disk_setBlock, if_neg (Ne.symm hne), hfs]
          have ho₂ := ho₁.setBlock hne Page.zero
          simp only [hd]
          exact ih (i + 1) _ (Guard.putBlock (h₁.setClear hclear Page.zero) hclear.block
            hclear.slice) ⟨ho₂.index, ho₂.data⟩

/-- What the storage of the inode `ino` needs to be released. -/
structure Releasable (p : Shelter) (C : Nat → Prop) (fs : Fs) (ino : Nat) : Prop where
  small : (fs.inode ino).iBlocks = 0 → sIsDir (fs.inode ino).iMode = false →
    (fs.inode ino).getBno = 0 ∨
      p.Slices C (fs.inode ino).getBno (fs.inode ino).getSlice (fs.inode ino).numSlices
  block : (fs.inode ino).indexBlock ≠ 0 →
    ((fs.inode ino).iBlocks ≠ 0 ∨ sIsDir (fs.inode ino).iMode = true) →
    p.Clear C (fs.inode ino).indexBlock
  data : (fs.inode ino).iBlocks ≠ 0 → sIsDir (fs.inode ino).iMode = false →
    Owns p C fs (fs.inode ino).indexBlock

/-- **The storage of an unlinked inode, with any answers.** -/
theorem releaseStorage_guard (h : Guard p C k.fs) (hr : Releasable p C k.fs ino) :
    Guards p (fun _ k' => Guard p C k'.fs) (releaseStorage k ino) := by
  have hi : k.inode ino = k.fs.inode ino := rfl
  unfold releaseStorage
  simp only [hi]
  split
  · rename_i hsmall
    have hdel := deleteSlice_guard h (hr.small hsmall.1 hsmall.2)
    unfold deleteSliceAndClearInode
    simp only [hi]
    generalize deleteSlice k _ _ _ = run at hdel
    cases run with
    | error e => exact hdel
    | ok r =>
        obtain ⟨r, k₁⟩ := r
        by_cases hneg : r < 0
        · simp only [hneg, if_true]
          exact hdel
        · simp only [hneg, if_false]
          exact hdel.setInode ino _
  rename_i hbig
  split
  · exact h.toUnharmed
  rename_i h0
  have hcase : (k.fs.inode ino).iBlocks ≠ 0 ∨ sIsDir (k.fs.inode ino).iMode = true := by
    cases hd : sIsDir (k.fs.inode ino).iMode with
    | true => exact Or.inr rfl
    | false => exact Or.inl fun hb => hbig ⟨hb, hd⟩
  have hclear := hr.block h0 hcase
  generalize hread : k.sbBread (k.fs.inode ino).indexBlock = a
  obtain ⟨ok, k₁⟩ := a
  have hfs := Kernel.sbBread_same hread
  have h₁ : Guard p C k₁.fs := by rwa [hfs]
  cases ok with
  | false => exact h₁
  | true =>
      simp only
      split
      · exact h₁.setClear hclear Page.zero
      · rename_i hd
        have hd : sIsDir (k.fs.inode ino).iMode = false := by simpa using hd
        have ho : Owns p C k₁.fs (k.fs.inode ino).indexBlock := by
          rw [hfs]
          exact hr.data (hcase.resolve_right (by rw [hd]; decide)) hd
        have hrel := releaseData_guard (pred64 (k.fs.inode ino).iBlocks) 0 k₁ h₁ ho
        generalize releaseData _ _ _ _ = run at hrel
        cases run with
        | error e => exact hrel
        | ok r => exact hrel.setClear hclear Page.zero

/-- The inode is given back. -/
theorem cleanInode_guard {bno : Nat} {small : Bool} (h : Guard p C k.fs)
    (hb : bno ≠ 0 → small = false → p.Clear C bno) :
    Guard p C (cleanInode k ino bno small).fs := by
  unfold cleanInode Kernel.putInode
  simp only
  generalize hci : ({ k.inode ino with
    iBlocks := 0, indexBlock := 0, iSize := 0, iUid := 0, iGid := 0, iMode := 0,
    iCtime := ⟨0, 0⟩, iMtime := ⟨0, 0⟩, iAtime := ⟨0, 0⟩,
    iNlink := sub32 (k.inode ino).iNlink 1 } : Inode) = ci
  have h₁ : Guard p C (k.setInode ino ci).fs := h.setInode ino ci
  have h₂ : Guard p C (if bno ≠ 0 ∧ small = false then (k.setInode ino ci).putBlock bno
      else k.setInode ino ci).fs := by
    split
    · rename_i hc
      exact h₁.putBlock (hb hc.1 hc.2).block (hb hc.1 hc.2).slice
    · exact h₁
  generalize (if bno ≠ 0 ∧ small = false then (k.setInode ino ci).putBlock bno
      else k.setInode ino ci) = k₂ at h₂
  refine h₂.setSbi ?_ ?_
  · unfold SbInfo.putInode
    split <;> rfl
  · have hh : (k₂.fs.sbi.putInode ino).sFreeSlicedBlocks = k₂.fs.sbi.sFreeSlicedBlocks := by
      unfold SbInfo.putInode
      split <;> rfl
    rw [hh]
    exact h₂.head

end Big

end Ouichefs
