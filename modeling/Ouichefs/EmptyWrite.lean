import Ouichefs.WriteLaws
import Ouichefs.BigErrors

/-!
# Writes of no bytes

`custom_write_iter` does not look for an empty buffer: a file without storage is given some, a small
file is charged for its slices a second time, and a position behind the end still moves the end.
Only a big file, at a position that it reaches, is left as it was, and then no later write can tell
the difference (`emptyWrite_noEffect_iff`).  Everything here holds for all answers of the
environment.
-/

set_option autoImplicit false

namespace Ouichefs

variable {k k' : Kernel} {chain : List Nat} {ino : Nat} {iocb iocb' : Kiocb} {data : List UInt8}

/-! ## What the write functions return -/

/-- A first write in slices returns an error, or gives the file an `index_block`. -/
theorem writeSmallFileNew_result {r : Int}
    (h : writeSmallFileNew k ino iocb data = .ok ((r, iocb'), k')) :
    r < 0 ∨ r = data.length ∧ (k'.inode ino).indexBlock ≠ 0 ∧
      (k'.inode ino).iSize =
        max (iocb.startPos (k.inode ino) + data.length) (k.inode ino).iSize := by
  cases (writeSmallFileNew_exits k ino iocb data).1 h with
  | stopped hplace eq => cases eq
  | noPlace hplace eq =>
      cases eq
      exact Or.inl (placeSlices_error ino k hplace)
  | placed hplace eq =>
      obtain ⟨h1, h32⟩ := placeSlices_valid ino k hplace
      rcases copyToSlices_result _ _ eq.symm with hneg | ⟨hr, -, hidx, hsize, -⟩
      · exact Or.inl hneg
      · refine Or.inr ⟨hr, ?_, hsize⟩
        rw [hidx]
        unfold add32
        omega

theorem Touch.inode_eq {i : Nat} (h : Touch i k k') (hi : ino ≠ i) : k'.inode ino = k.inode ino :=
  congrArg (·.getD Inode.blank) (h.others ino hi)

/-- The copy loop leaves every inode alone. -/
theorem writeBigLoop_inode {iSize idx fuel pos : Nat} {r : Except Int Nat}
    (h : writeBigLoop iSize idx fuel k pos data = .ok (r, k')) : k'.inode ino = k.inode ino := by
  have hquiet := writeBigLoop_quiet (ino + 1) iSize idx fuel k pos data
  rw [h] at hquiet
  exact hquiet.inode_eq (by omega)

/-- `write_big_file` returns an error, or the file has an index block. -/
theorem writeBigFile_result {r : Int}
    (h : writeBigFile k ino iocb data = .ok ((r, iocb'), k')) :
    r < 0 ∨ r = data.length ∧ (k'.inode ino).indexBlock ≠ 0 ∧
      ((k.inode ino).indexBlock ≠ 0 → (k'.inode ino).indexBlock = (k.inode ino).indexBlock) ∧
      (k'.inode ino).numSlices = (k.inode ino).numSlices ∧ (k'.inode ino).BlocksExact ∧
      (data = [] → (k'.inode ino).iSize =
        max (iocb.startPos (k.inode ino)) (k.inode ino).iSize) := by
  have hens : ∀ k₁, ensureIndexBlock k ino = (true, k₁) → (k₁.inode ino).indexBlock ≠ 0 ∧
      ((k.inode ino).indexBlock ≠ 0 → (k₁.inode ino).indexBlock = (k.inode ino).indexBlock) ∧
      (k₁.inode ino).numSlices = (k.inode ino).numSlices := by
    intro k₁ he
    cases (ensureIndexBlock_exits k ino).1 he with
    | kept h0 eq =>
        cases eq
        exact ⟨h0, fun _ => rfl, rfl⟩
    | noBlock h0 hget eq => cases eq
    | @new b k₂ h0 hget eq =>
        have hino : k₂.inode ino = k.inode ino :=
          ((Quiet.getFreeBlock (ino + 1) k).to hget).inode_eq (by omega)
        cases eq
        refine ⟨by simp [Kernel.inode], fun hne => absurd h0 hne, ?_⟩
        rw [← hino]
        simp [Kernel.inode]
  cases (writeBigFile_exits k ino iocb data).1 h with
  | noIndex hindex eq =>
      cases eq
      exact Or.inl (by decide)
  | noSpace hindex hspace eq =>
      cases eq
      exact Or.inl (by decide)
  | unread hindex hspace hread eq =>
      cases eq
      exact Or.inl (by decide)
  | stopped hindex hspace hread hloop eq => cases eq
  | failed hindex hspace hread hloop eq =>
      cases eq
      exact Or.inl (writeBigLoop_error _ _ _ _ _ _ hloop)
  | @written k₁ k₂ k₃ endPos hindex hspace hread hloop eq =>
      obtain ⟨h0, hidx, hnum⟩ := hens k₁ hindex
      have hino : k₂.inode ino = k₁.inode ino :=
        congrArg (Fs.inode · ino) (Kernel.sbBread_true hread)
      have hloopIno : k₃.inode ino = k₂.inode ino := writeBigLoop_inode hloop
      cases eq
      have hset : ∀ ci b, ((k₃.setInode ino ci).brelse b).inode ino = ci := fun ci b => by
        simp [Kernel.inode]
      rw [hset, hloopIno, hino]
      refine Or.inr ⟨rfl, h0, hidx, hnum, rfl, fun hnil => ?_⟩
      subst hnil
      cases hloop
      rfl

theorem deleteSlice_inode {bno s n : Nat} {ret : Int}
    (h : deleteSlice k bno s n = .ok (ret, k')) : k'.inode ino = k.inode ino := by
  have ht := deleteSlice_touch (ino + 1) k bno s n
  rw [h] at ht
  exact ht.inode_eq (by omega)

/-- A deletion that returns 0 has taken the slices off the counter. -/
theorem deleteSlice_zero {bno s n : Nat} (h0 : bno ≠ 0) (hn : n ≠ 0)
    (h : deleteSlice k bno s n = .ok (0, k')) :
    k'.fs.sbi.nrUsedSlices = sub32 k.fs.sbi.nrUsedSlices n := by
  cases (deleteSlice_exits k bno s n).1 h with
  | nothing hnone eq => exact absurd hnone (not_or.2 ⟨h0, hn⟩)
  | unread hb hn' hread eq => cases eq
  | @walked k₁ hb hn' hread eq =>
      have hk : (pruneChain _ _ _ _).kernel = k' := congrArg Outcome.kernel eq.symm
      rw [← hk, (pruneChain_quiet 0 _ _ _ _).slices]
      show sub32 k₁.fs.sbi.nrUsedSlices n = _
      rw [Kernel.sbBread_true hread]

theorem add32_ne {a n : Nat} (h1 : 1 ≤ n) (h2 : n < 4294967296) : add32 a n ≠ a := by
  unfold add32
  omega

theorem sub32_ne {a n : Nat} (h1 : 1 ≤ n) (h2 : n < 4294967296) : sub32 a n ≠ a := by
  unfold sub32
  omega

/-! ## An empty write that returns 0 -/

/-- A new file gets an `index_block`. -/
theorem customWriteIter_empty_fresh (hk : (k.inode ino).kind = .fresh)
    (h : customWriteIter k ino iocb [] = .ok ((0, iocb'), k')) :
    (k'.inode ino).indexBlock ≠ (k.inode ino).indexBlock := by
  obtain ⟨-, -, h0⟩ := Inode.kind_fresh.1 hk
  have hnew : isNew (k.inode ino).indexBlock = true := by
    rw [h0]
    rfl
  unfold customWriteIter at h
  simp only [hnew, if_true] at h
  rw [h0]
  split at h
  · rw [writeSmallFile_new _ _ h0] at h
    rcases writeSmallFileNew_result h with hneg | ⟨-, hidx, -⟩
    · exact absurd hneg (by decide)
    · exact hidx
  · rcases writeBigFile_result h with hneg | ⟨-, hidx, -⟩
    · exact absurd hneg (by decide)
    · exact hidx

/-- A relocation that returns 0 has written its buffer. -/
theorem finishRelocation_zero {old : Inode} {pos : Nat} {buf : List UInt8} (hbuf : 0 < buf.length)
    (hsize : (k.inode ino).iSize = 0)
    (h : finishRelocation old ino pos 0 (writeSmallFileNew k ino ⟨0, false⟩ buf) =
      .ok ((0, iocb'), k')) : (k'.inode ino).iSize = buf.length := by
  cases (finishRelocation_exits ..).1 h with
  | stopped hrun eq => cases eq
  | kept hrun hret eq =>
      cases eq
      rcases writeSmallFileNew_result hrun with hneg | ⟨hr, -, -⟩
      · exact absurd hneg (by decide)
      · omega
  | stuck hrun hret hdel eq => cases eq
  | moved hrun hret hdel eq =>
      cases eq
      rcases writeSmallFileNew_result hrun with hneg | ⟨hr, -, hsz⟩
      · omega
      · rw [deleteSlice_inode hdel, hsz, hsize]
        simp [Kiocb.startPos]

/-- A small file is charged again for its slices, or changes its size. -/
theorem rewriteSmallFile_empty (hn : (k.inode ino).numSlices = divRoundUp (k.inode ino).iSize 128)
    (h31 : (k.inode ino).numSlices ≤ 31)
    (h : rewriteSmallFile k ino iocb [] = .ok ((0, iocb'), k')) :
    (k'.inode ino).iSize ≠ (k.inode ino).iSize ∨
      k'.fs.sbi.nrUsedSlices ≠ k.fs.sbi.nrUsedSlices := by
  cases (rewriteSmallFile_exits k ino iocb []).1 h with
  | noSlices hzero eq => cases eq
  | noPlace hnz hb eq => cases eq
  | unread hnz hb hread eq => cases eq
  | inPlace hnz hb hread hsame eq =>
      -- the slices are counted a second time
      rcases copyToSlices_result _ _ eq.symm with hneg | ⟨-, -, -, -, hused⟩
      · exact absurd hneg (by decide)
      · refine Or.inr ?_
        rw [hused, ← hsame, Kernel.sbBread_true hread]
        exact add32_ne (by omega) (by omega)
  | fromStart hreloc hpos eq =>
      have hmoves := hreloc.moves
      rw [hpos] at hmoves
      exact absurd (hn.trans (by simp)) hmoves
  | noCopy hreloc hpos hmalloc eq => cases eq
  | fault hreloc hpos hmalloc hcopy hlen eq => cases eq
  | noBuffer hreloc hpos hmalloc hcopy hlen hmalloc' eq => cases eq
  | @combined k₁ k₂ k₃ k₄ copied hreloc hpos hmalloc hcopy hlen hmalloc' eq =>
      have hquiet : Quiet (ino + 1) (k₁.setInode ino (k.inode ino).detached) k₄ :=
        ((Quiet.kmalloc _ _).to hmalloc).trans
          (((Quiet.copyFromIter _ _ _ _).to hcopy).trans ((Quiet.kmalloc _ _).to hmalloc'))
      have hsize : (k₄.inode ino).iSize = 0 := by
        rw [hquiet.inode_eq (by omega)]
        simp [Kernel.inode, Inode.detached]
      have hgrow : (k.inode ino).iSize < iocb.startPos (k.inode ino) := by
        by_contra hle
        refine hreloc.moves ?_
        rw [Nat.max_eq_right (by simpa using hle)]
        exact hn
      have hempty : copied.length = 0 := hlen
      have hbuf := finishRelocation_zero ?_ hsize eq.symm
      · left
        rw [hbuf, combinedBuf_length, Page.bytes_length, hempty]
        omega
      · rw [combinedBuf_length, hempty]
        omega

/-- A conversion takes the slices off the counter. -/
theorem convertSmallToBig_empty (h1 : 1 ≤ (k.inode ino).iSize) (h0 : (k.inode ino).numSlices ≠ 0)
    (h31 : (k.inode ino).numSlices ≤ 31) (hb : (k.inode ino).getBno ≠ 0)
    (h : convertSmallToBig k ino iocb [] = .ok ((0, iocb'), k')) :
    k'.fs.sbi.nrUsedSlices ≠ k.fs.sbi.nrUsedSlices := by
  have hidx : (k.inode ino).indexBlock ≠ 0 := by
    intro h0
    rw [Inode.getBno, h0] at hb
    exact hb rfl
  cases (convertSmallToBig_exits k ino iocb []).1 h with
  | unread hread eq => cases eq
  | noCopy hread hmalloc eq => cases eq
  | fault hread hmalloc hcopy hlen eq => cases eq
  | noBuffer hread hmalloc hcopy hlen hmalloc' eq => cases eq
  | @combined k₁ k₂ k₃ k₄ copied hread hmalloc hcopy hlen hmalloc' eq =>
      have hquiet : Quiet (ino + 1) k k₄ :=
        ((Quiet.sbBread _ _ _).to hread).trans (((Quiet.kmalloc _ _).to hmalloc).trans
          ((Quiet.brelse _ _ _).trans (((Quiet.copyFromIter _ _ _ _).to hcopy).trans
            ((Quiet.kmalloc _ _).to hmalloc'))))
      generalize hset : k₄.setInode ino { k.inode ino with iSize := 0 } = k₅ at eq
      have hino : k₅.inode ino = { k.inode ino with iSize := 0 } := by
        rw [← hset]
        simp [Kernel.inode]
      have hused : k₅.fs.sbi.nrUsedSlices = k.fs.sbi.nrUsedSlices := by
        rw [← hset]
        exact hquiet.slices
      have hlength : 0 < (combinedBuf ((k₂.fs.disk (k.inode ino).getBno).bytes
          ((k.inode ino).getSlice * 128) (k.inode ino).iSize) (iocb.startPos (k.inode ino))
          copied).length := by
        rw [combinedBuf_length, Page.bytes_length]
        omega
      generalize combinedBuf _ _ copied = buf at eq hlength
      have hw := writeBigFile_quiet ino k₅ ⟨0, false⟩ buf
      cases (finishConversion_exits ..).1 eq.symm with
      | stopped hrun eq => cases eq
      | restored hrun hret eq =>
          cases eq
          rcases writeBigFile_result hrun with hneg | ⟨hr, -⟩
          · exact absurd hneg (by decide)
          · omega
      | stuck hrun hret hdel eq => cases eq
      | @converted ret r io k₆ k₇ hrun hret hdel eq =>
          cases eq
          rw [hrun] at hw
          rcases writeBigFile_result hrun with hneg | ⟨hr, -, hsame, hnum, -⟩
          · omega
          · rw [hino] at hsame hnum
            have hbno : (k₆.inode ino).getBno = (k.inode ino).getBno :=
              congrArg (· / 32) (hsame hidx)
            rw [hbno, hnum] at hdel
            rw [deleteSlice_zero hb h0 hdel, show k₆.fs.sbi.nrUsedSlices = _ from hw.slices, hused]
            exact sub32_ne (by omega) (by omega)

/-- A small file does not keep both its size and the count of used slices. -/
theorem customWriteIter_empty_small (hs : k.fs.Is ino .small) (hok : SmallOk k.fs chain ino)
    (hb : (k.inode ino).getBno ≠ 0)
    (h : customWriteIter k ino iocb [] = .ok ((0, iocb'), k')) :
    (k'.inode ino).iSize ≠ (k.inode ino).iSize ∨
      k'.fs.sbi.nrUsedSlices ≠ k.fs.sbi.nrUsedSlices := by
  obtain ⟨-, hblocks, hidx, hnum⟩ : _ ∧ (k.inode ino).iBlocks = 0 ∧
      (k.inode ino).indexBlock ≠ 0 ∧ (k.inode ino).numSlices ≠ 0 := Inode.kind_small.1 hs.2
  have hslices : (k.inode ino).numSlices = divRoundUp (k.inode ino).iSize 128 := hok.slices
  have h31 : (k.inode ino).numSlices ≤ 31 := by
    have hfits : (k.inode ino).getSlice + (k.inode ino).numSlices ≤ 32 := hok.fits
    have hpos : 1 ≤ (k.inode ino).getSlice := hok.slice_pos
    omega
  have hsize : 1 ≤ (k.inode ino).iSize := by
    by_contra h0
    rw [show (k.inode ino).iSize = 0 by omega] at hslices
    exact hnum hslices
  have hnew : isNew (k.inode ino).indexBlock = false := by
    simpa [isNew] using hidx
  have hsmall : isSmallFile (k.inode ino) = true := by
    simpa [isSmallFile] using hblocks
  unfold customWriteIter at h
  simp only [hnew, hsmall, Bool.false_eq_true, if_false, Bool.not_true] at h
  split at h
  · rw [writeSmallFile_rewrite _ _ hidx] at h
    exact rewriteSmallFile_empty hslices h31 h
  · exact Or.inr (convertSmallToBig_empty hsize hnum h31 hb h)

/-! ## The copy loop beside other inodes -/

/-- `k` with other inodes and a longer past. -/
def Kernel.beside (k : Kernel) (icache : Nat → Option Inode) (past : List Event) : Kernel :=
  { k with fs := { k.fs with icache := icache }, trace := past ++ k.trace }

/-- The outcome of a call beside other inodes. -/
def Outcome.beside {α : Type} (icache : Nat → Option Inode) (past : List Event) :
    Outcome α → Outcome α
  | .ok (a, k) => .ok (a, k.beside icache past)
  | .error (c, k) => .error (c, k.beside icache past)

section Beside

variable (c : Nat → Option Inode) (p : List Event)

@[simp] theorem Kernel.sbi_beside (k : Kernel) : (k.beside c p).fs.sbi = k.fs.sbi := rfl
@[simp] theorem Kernel.disk_beside (k : Kernel) : (k.beside c p).fs.disk = k.fs.disk := rfl
@[simp] theorem Kernel.faults_beside (k : Kernel) : (k.beside c p).faults = k.faults := rfl

@[simp] theorem Kernel.setBlock_beside (k : Kernel) (b : Nat) (nb : Block) :
    (k.beside c p).setBlock b nb = (k.setBlock b nb).beside c p := rfl

@[simp] theorem Kernel.log_beside (k : Kernel) (e : Event) :
    (k.beside c p).log e = (k.log e).beside c p := by
  simp [Kernel.beside, Kernel.log]

@[simp] theorem Kernel.brelse_beside (k : Kernel) (b : Nat) :
    (k.beside c p).brelse b = (k.brelse b).beside c p := Kernel.log_beside c p k _

theorem Kernel.sbBread_beside (k : Kernel) (b : Nat) :
    (k.beside c p).sbBread b = ((k.sbBread b).1, (k.sbBread b).2.beside c p) := by
  unfold Kernel.sbBread
  rw [Kernel.sbi_beside, Kernel.faults_beside]
  split
  · rfl
  · split
    · rw [Kernel.log_beside]
    · rw [Kernel.log_beside]
      rfl
    · rfl

theorem Kernel.copyFromIter_beside (k : Kernel) (n : Nat) (iter : List UInt8) :
    (k.beside c p).copyFromIter n iter =
      ((k.copyFromIter n iter).1, (k.copyFromIter n iter).2.beside c p) := by
  unfold Kernel.copyFromIter
  rw [Kernel.faults_beside]
  split <;> rfl

theorem Kernel.getFreeBlock_beside (k : Kernel) :
    (k.beside c p).getFreeBlock = (k.getFreeBlock.1, k.getFreeBlock.2.beside c p) := by
  unfold Kernel.getFreeBlock
  rw [Kernel.sbi_beside]
  generalize k.fs.sbi.getFreeBlock = r
  obtain ⟨b, sbi⟩ := r
  by_cases h : b = 0
  · simp only [h, if_true]
    exact congrArg (Prod.mk 0) (Kernel.log_beside c p (k.setSbi sbi) _)
  · simp only [h, if_false]
    rfl

theorem getDataBlock_beside (k : Kernel) (idx i : Nat) :
    getDataBlock (k.beside c p) idx i =
      ((getDataBlock k idx i).1, (getDataBlock k idx i).2.beside c p) := by
  unfold getDataBlock
  by_cases h : indexPtr (k.fs.disk idx) i = 0
  · simp only [Kernel.disk_beside, h, if_true, Kernel.getFreeBlock_beside]
    obtain ⟨b, k⟩ := k.getFreeBlock
    cases b <;> rfl
  · simp only [Kernel.disk_beside, h, if_false]

theorem writeBigLoop_beside (iSize idx : Nat) : ∀ (fuel : Nat) (k : Kernel) (pos : Nat)
    (data : List UInt8), writeBigLoop iSize idx fuel (k.beside c p) pos data =
      (writeBigLoop iSize idx fuel k pos data).beside c p := by
  intro fuel
  induction fuel with
  | zero =>
      intro k pos data
      cases data <;> rfl
  | succ fuel ih =>
      intro k pos data
      cases data with
      | nil => rfl
      | cons x xs =>
          rw [writeBigLoop, writeBigLoop]
          simp only
          split
          · rfl
          rw [getDataBlock_beside]
          obtain ⟨b, k⟩ := getDataBlock k idx (pos / 4096)
          cases b with
          | zero => rfl
          | succ b =>
              simp only [Kernel.sbBread_beside]
              obtain ⟨ok, k⟩ := k.sbBread (b + 1)
              cases ok with
              | false => rfl
              | true =>
                  simp only [Kernel.disk_beside, Kernel.setBlock_beside,
                    Kernel.copyFromIter_beside]
                  generalize k.setBlock (b + 1) _ = k₁
                  obtain ⟨copied, k₂⟩ := k₁.copyFromIter _ (x :: xs)
                  simp only [Kernel.brelse_beside]
                  split
                  · rfl
                  · exact ih _ _ _

end Beside

/-! ## Later writes -/

/-- The kernels differ in the times of inode `ino` at most; traces are not compared. -/
structure SameButTimes (ino : Nat) (k k' : Kernel) : Prop where
  sbi : k'.fs.sbi = k.fs.sbi
  disk : k'.fs.disk = k.fs.disk
  others : ∀ i, i ≠ ino → k'.fs.icache i = k.fs.icache i
  inode : ∃ m c, k'.inode ino = { k.inode ino with iMtime := m, iCtime := c }

/-- A write to a file: the handle, the bytes, the caller and the answers of the environment. -/
structure WriteCall where
  iocb : Kiocb
  data : List UInt8
  now : Timespec
  fsuid : Nat
  fsgid : Nat
  answers : List Answer

def WriteCall.exec (ino : Nat) (k : Kernel) (w : WriteCall) : Outcome (Int × Kiocb) :=
  customWriteIter { k.setCaller w.now w.fsuid w.fsgid with faults := w.answers } ino w.iocb w.data

/-- Crashes of the same kind in states that differ in the times at most. -/
def SameCrash (ino : Nat) (e e' : Crash × Kernel) : Prop := e.1 = e'.1 ∧ SameButTimes ino e.2 e'.2

/-- And `ino` is a big file in both. -/
structure BigTwins (ino : Nat) (k k' : Kernel) : Prop extends SameButTimes ino k k' where
  index : (k.inode ino).indexBlock ≠ 0
  blocks : (k.inode ino).iBlocks ≠ 0

theorem BigTwins.setInode {k₁ k₂ : Kernel} (h : BigTwins ino k₁ k₂) {ci : Inode}
    (h0 : ci.indexBlock ≠ 0) (hb : ci.iBlocks ≠ 0) (b : Nat) :
    BigTwins ino ((k₁.setInode ino ci).brelse b) ((k₂.setInode ino ci).brelse b) := by
  have hino : ∀ k : Kernel, ((k.setInode ino ci).brelse b).inode ino = ci := fun k => by
    simp [Kernel.inode]
  refine ⟨⟨h.sbi, h.disk, fun i hi => ?_, ci.iMtime, ci.iCtime, ?_⟩, ?_, ?_⟩
  · simp only [Kernel.fs_brelse, Kernel.fs_setInode, Fs.icache_setInode_of_ne _ _ _ hi]
    exact h.others i hi
  · rw [hino, hino]
  · rwa [hino]
  · rwa [hino]

/-- The same kernel beside two caches that agree but for the times. -/
theorem writeBigFile_beside {m : Kernel} {c₁ c₂ : Nat → Option Inode} {p₁ p₂ : List Event}
    (h : BigTwins ino (m.beside c₁ p₁) (m.beside c₂ p₂)) (iocb : Kiocb) (data : List UInt8) :
    Matched (BigTwins ino) (SameCrash ino) (writeBigFile (m.beside c₁ p₁) ino iocb data)
      (writeBigFile (m.beside c₂ p₂) ino iocb data) := by
  obtain ⟨mt, ct, hino⟩ := h.inode
  have hbeside : ∀ k : Kernel, BigTwins ino (k.beside c₁ p₁) (k.beside c₂ p₂) := fun k =>
    ⟨⟨rfl, rfl, h.others, h.inode⟩, h.index, h.blocks⟩
  have hinoOf : ∀ k : Kernel, (k.beside c₂ p₂).inode ino =
      { (k.beside c₁ p₁).inode ino with iMtime := mt, iCtime := ct } := fun k => hino
  have hidx : ((m.beside c₂ p₂).inode ino).indexBlock = ((m.beside c₁ p₁).inode ino).indexBlock := by
    rw [hino]
  have hsize : ((m.beside c₂ p₂).inode ino).iSize = ((m.beside c₁ p₁).inode ino).iSize := by
    rw [hino]
  have hpos : iocb.startPos ((m.beside c₂ p₂).inode ino) =
      iocb.startPos ((m.beside c₁ p₁).inode ino) := by
    unfold Kiocb.startPos
    rw [hsize]
  have henough : ∀ n, enoughBlocks (m.beside c₂ p₂) ino n = enoughBlocks (m.beside c₁ p₁) ino n := by
    intro n
    unfold enoughBlocks
    rw [hino]
    rfl
  unfold writeBigFile
  rw [ensureIndexBlock_keeps h.index, ensureIndexBlock_keeps (hidx ▸ h.index)]
  simp only [hpos, hsize, henough, hidx]
  split
  · exact ⟨rfl, hbeside m⟩
  simp only [Kernel.sbBread_beside]
  obtain ⟨ok, k⟩ := m.sbBread ((m.beside c₁ p₁).inode ino).indexBlock
  cases ok with
  | false => exact ⟨rfl, hbeside k⟩
  | true =>
      simp only [writeBigLoop_beside]
      generalize writeBigLoop _ _ data.length k _ data = run
      match run with
      | .error (c, k) => exact ⟨rfl, (hbeside k).toSameButTimes⟩
      | .ok (.error ret, k) =>
          simp only [Outcome.beside, Kernel.brelse_beside]
          exact ⟨rfl, hbeside _⟩
      | .ok (.ok endPos, k) =>
          simp only [Outcome.beside]
          refine ⟨rfl, ?_⟩
          rw [hinoOf k]
          refine (hbeside k).setInode ?_ ?_ _
          · exact h.index
          · exact Nat.succ_ne_zero _

/-- **A write to a big file does not see the times of its inode.** -/
theorem WriteCall.exec_matched {k₁ k₂ : Kernel} (h : BigTwins ino k₁ k₂) (w : WriteCall) :
    Matched (BigTwins ino) (SameCrash ino) (w.exec ino k₁) (w.exec ino k₂) := by
  have hwrite : ∀ k : Kernel, (k.inode ino).indexBlock ≠ 0 → (k.inode ino).iBlocks ≠ 0 →
      w.exec ino k = writeBigFile { k.setCaller w.now w.fsuid w.fsgid with faults := w.answers }
        ino w.iocb w.data := by
    intro k h0 hb
    have hnew : isNew (k.inode ino).indexBlock = false := by simpa [isNew] using h0
    have hsmall : isSmallFile (k.inode ino) = false := by simpa [isSmallFile] using hb
    unfold WriteCall.exec customWriteIter
    simp only [show ({ k.setCaller w.now w.fsuid w.fsgid with faults := w.answers } : Kernel).inode
      ino = k.inode ino from rfl, hnew, hsmall, Bool.false_eq_true, if_false, Bool.not_false,
      if_true]
  obtain ⟨m, c, hino⟩ := h.inode
  rw [hwrite k₁ h.index h.blocks, hwrite k₂ (by rw [hino]; exact h.index)
    (by rw [hino]; exact h.blocks)]
  -- both kernels are the first one with an empty past, beside their own inodes
  generalize hbase : ({ k₁.setCaller w.now w.fsuid w.fsgid with
    faults := w.answers, trace := [] } : Kernel) = base
  have h₁ : { k₁.setCaller w.now w.fsuid w.fsgid with faults := w.answers } =
      base.beside k₁.fs.icache k₁.trace := by
    subst hbase
    simp [Kernel.beside, Kernel.setCaller]
  have h₂ : { k₂.setCaller w.now w.fsuid w.fsgid with faults := w.answers } =
      base.beside k₂.fs.icache k₂.trace := by
    subst hbase
    simp [Kernel.beside, Kernel.setCaller, ← h.sbi, ← h.disk]
  rw [h₁, h₂]
  refine writeBigFile_beside ?_ _ _
  rw [← h₁, ← h₂]
  exact ⟨⟨h.sbi, h.disk, h.others, h.inode⟩, h.index, h.blocks⟩

/-! ## The law -/

/-- What an empty write may not change: the file, the chain, the bitmaps and the counters. -/
structure SameFile (fs fs' : Fs) (chain : List Nat) (ino : Nat) : Prop where
  iSize : (fs'.inode ino).iSize = (fs.inode ino).iSize
  indexBlock : (fs'.inode ino).indexBlock = (fs.inode ino).indexBlock
  numSlices : (fs'.inode ino).numSlices = (fs.inode ino).numSlices
  content : fs'.content ino = fs.content ino
  isChain : IsLinked fs'.next fs'.sbi.sFreeSlicedBlocks chain
  slices : ∀ b ∈ chain, sliceBitmap (fs'.disk b) = sliceBitmap (fs.disk b)
  ifree : fs'.sbi.ifreeBitmap = fs.sbi.ifreeBitmap
  bfree : fs'.sbi.bfreeBitmap = fs.sbi.bfreeBitmap
  nrSlicedBlocks : fs'.sbi.nrSlicedBlocks = fs.sbi.nrSlicedBlocks
  nrFreeInodes : fs'.sbi.nrFreeInodes = fs.sbi.nrFreeInodes
  nrFreeBlocks : fs'.sbi.nrFreeBlocks = fs.sbi.nrFreeBlocks
  nrUsedSlices : fs'.sbi.nrUsedSlices = fs.sbi.nrUsedSlices

/-- An empty write that returns 0, changes nothing, and is not noticed by any later write. -/
def NoEffect (k : Kernel) (chain : List Nat) (ino : Nat) (iocb : Kiocb) : Prop :=
  ∃ iocb' k', customWriteIter k ino iocb [] = .ok ((0, iocb'), k') ∧
    SameFile k.fs k'.fs chain ino ∧
    ∀ ws : List WriteCall,
      transcript (WriteCall.exec ino) k ws = transcript (WriteCall.exec ino) k' ws ∧
      MatchedEnd (SameButTimes ino) (SameCrash ino) (runAll (WriteCall.exec ino) k ws)
        (runAll (WriteCall.exec ino) k' ws)

/-- An empty write inside a big file whose index block can be read, and whose `i_blocks` is what
the write will compute. -/
theorem customWriteIter_empty_big {Z : Prop} (h : WF k.fs chain Z) (hk : k.fs.Is ino .big)
    (hexact : (k.inode ino).BlocksExact)
    (hpos : iocb.startPos (k.inode ino) ≤ (k.inode ino).iSize)
    (hread : (k.sbBread (k.inode ino).indexBlock).1 = true) :
    ∃ iocb' k', customWriteIter k ino iocb [] = .ok ((0, iocb'), k') ∧ BigTwins ino k k' := by
  obtain ⟨-, h0⟩ := fileOk_of_owned h.owned h.sb.blocks_lt hk
  have hsz : (k.inode ino).iSize ≤ 4194304 := (h.inodes.big ino hk).size_le
  have hblk : (k.inode ino).iBlocks = divRoundUp (k.inode ino).iSize 4096 + 1 := hexact
  have hidx : (k.inode ino).indexBlock ≠ 0 := h0
  have hnew : isNew (k.inode ino).indexBlock = false := by simpa [isNew] using hidx
  have hsmall : isSmallFile (k.inode ino) = false := by simp [isSmallFile, hblk]
  have hmax : max (iocb.startPos (k.inode ino) + 0) (k.inode ino).iSize = (k.inode ino).iSize := by
    omega
  have henough : enoughBlocks k ino (k.inode ino).iSize = true := by
    unfold enoughBlocks
    rw [if_neg]
    rw [hblk, Nat.not_lt]
    unfold pred64 divRoundUp
    omega
  obtain ⟨k₁, hb⟩ : ∃ k₁, k.sbBread (k.inode ino).indexBlock = (true, k₁) :=
    ⟨_, Prod.ext hread rfl⟩
  have hfs : k₁.fs = k.fs := Kernel.sbBread_true hb
  have hino : k₁.inode ino = k.inode ino := congrArg (Fs.inode · ino) hfs
  refine ⟨{ iocb with kiPos := iocb.startPos (k.inode ino) },
    (k₁.setInode ino { k.inode ino with iMtime := k₁.now, iCtime := k₁.now }).brelse
      (k.inode ino).indexBlock, ?_, ?_⟩
  · unfold customWriteIter
    simp only [hnew, hsmall, Bool.false_eq_true, if_false, Bool.not_false, if_true]
    rw [(writeBigFile_exits k ino iocb []).2 (.written (ensureIndexBlock_keeps hidx)
      (by rw [List.length_nil, hmax]; exact henough) hb rfl rfl), hino, Nat.max_eq_right hpos,
      ← hblk]
    rfl
  · have hinoOf : ∀ ci b, ((k₁.setInode ino ci).brelse b).inode ino = ci := fun ci b => by
      simp [Kernel.inode]
    refine ⟨⟨show k₁.fs.sbi = _ by rw [hfs], show k₁.fs.disk = _ by rw [hfs], fun i hi => ?_,
      k₁.now, k₁.now, ?_⟩, hidx, ?_⟩
    · rw [Kernel.fs_brelse, Kernel.fs_setInode, Fs.icache_setInode_of_ne _ _ _ hi, hfs]
    · rw [hinoOf]
    · rw [hblk]
      exact Nat.succ_ne_zero _

theorem SameButTimes.sameFile (h : SameButTimes ino k k')
    (hc : IsLinked k.fs.next k.fs.sbi.sFreeSlicedBlocks chain) :
    SameFile k.fs k'.fs chain ino := by
  obtain ⟨m, c, hino⟩ := h.inode
  have hino' : k'.fs.inode ino = { k.fs.inode ino with iMtime := m, iCtime := c } := hino
  refine ⟨by rw [hino'], by rw [hino'], by rw [hino'], ?_, ?_, fun b _ => by rw [h.disk],
    by rw [h.sbi], by rw [h.sbi], by rw [h.sbi], by rw [h.sbi], by rw [h.sbi], by rw [h.sbi]⟩
  · have hkind : (k'.fs.inode ino).kind = (k.fs.inode ino).kind := by
      rw [hino']
      rfl
    have hold : k'.fs.oldBytes ino = k.fs.oldBytes ino := by
      unfold Fs.oldBytes Fs.smallBytes
      rw [hkind, hino', h.disk]
      rfl
    have hbyte : k'.fs.bigByte ino = k.fs.bigByte ino := by
      funext x
      unfold Fs.bigByte Fs.indexOf
      rw [hino', h.disk]
    unfold Fs.content Fs.bigBytes
    rw [hkind, hold, hbyte, hino']
  · rw [h.sbi]
    refine IsSeg.congr (fun b _ => ?_) hc
    unfold Fs.next
    rw [h.disk]

/-- What an empty write computes for a big file. -/
theorem customWriteIter_empty_size (hk : (k.inode ino).kind = .big)
    (h0 : (k.inode ino).indexBlock ≠ 0)
    (h : customWriteIter k ino iocb [] = .ok ((0, iocb'), k')) :
    (k'.inode ino).iSize = max (iocb.startPos (k.inode ino)) (k.inode ino).iSize ∧
      (k'.inode ino).BlocksExact ∧ (k.sbBread (k.inode ino).indexBlock).1 = true := by
  obtain ⟨-, hblk⟩ := Inode.kind_big.1 hk
  have hnew : isNew (k.inode ino).indexBlock = false := by simpa [isNew] using h0
  have hsmall : isSmallFile (k.inode ino) = false := by simpa [isSmallFile] using hblk
  unfold customWriteIter at h
  simp only [hnew, hsmall, Bool.false_eq_true, if_false, Bool.not_false, if_true] at h
  have hread : (k.sbBread (k.inode ino).indexBlock).1 = true := by
    cases (writeBigFile_exits k ino iocb []).1 h with
    | @written k₁ k₂ k₃ endPos hindex hspace hread hloop eq =>
        rw [ensureIndexBlock_keeps h0] at hindex
        cases hindex
        rw [hread]
    | failed hindex hspace hread hloop eq => cases hloop
    | _ =>
        rename_i eq
        cases eq
  rcases writeBigFile_result h with hneg | ⟨-, -, -, -, hexact, hsize⟩
  · exact absurd hneg (by decide)
  · exact ⟨hsize rfl, hexact, hread⟩

/-- **An empty write has no effect** exactly on a big file whose `i_blocks` is what its size asks
for, at a position that the file reaches, when its index block can be read. -/
theorem emptyWrite_noEffect_iff {Z : Prop} (h : WF k.fs chain Z)
    (hk : k.fs.Is ino .fresh ∨ k.fs.Is ino .small ∨ k.fs.Is ino .big) :
    NoEffect k chain ino iocb ↔ k.fs.Is ino .big ∧ (k.inode ino).BlocksExact ∧
      iocb.startPos (k.inode ino) ≤ (k.inode ino).iSize ∧
      (k.sbBread (k.inode ino).indexBlock).1 = true := by
  constructor
  · rintro ⟨io, k', hrun, hsame, hlater⟩
    rcases hk with hk | hk | hk
    · exact absurd hsame.indexBlock (customWriteIter_empty_fresh hk.2 hrun)
    · have hok := h.slices.file ino hk
      have hb : (k.inode ino).getBno ≠ 0 := h.isChain.ne_zero _ hok.mem
      rcases customWriteIter_empty_small hk hok hb hrun with hne | hne
      · exact absurd hsame.iSize hne
      · exact absurd hsame.nrUsedSlices hne
    · obtain ⟨-, h0⟩ := fileOk_of_owned h.owned h.sb.blocks_lt hk
      obtain ⟨hsize, hexact, hread⟩ := customWriteIter_empty_size hk.2 h0 hrun
      have hkeep : (k'.inode ino).iSize = (k.inode ino).iSize := hsame.iSize
      -- before any later write the two inodes differ in their times only
      obtain ⟨m, c, hino⟩ := SameButTimes.inode (hlater []).2
      rw [hino] at hexact
      exact ⟨hk, hexact, by omega, hread⟩
  · rintro ⟨hbig, hexact, hpos, hread⟩
    obtain ⟨io, k', hrun, htwins⟩ := customWriteIter_empty_big h hbig hexact hpos hread
    refine ⟨io, k', hrun, htwins.toSameButTimes.sameFile h.isChain, fun ws => ?_⟩
    obtain ⟨htr, hend⟩ := runs_matched (fun s t w hst => WriteCall.exec_matched hst w) ws k k' htwins
    refine ⟨htr, ?_⟩
    generalize runAll (WriteCall.exec ino) k ws = a at hend
    generalize runAll (WriteCall.exec ino) k' ws = b at hend
    match a, b, hend with
    | .ok s, .ok t, hend => exact hend.toSameButTimes
    | .error e, .error e', hend => exact hend

/-- An empty write to a big file, and one behind its end. -/
theorem emptyWrite_noEffect_iff_hole : ∃ k chain, WF k.fs chain ∧ k.fs.Is 2 .big ∧
    NoEffect k chain 2 ⟨4099, false⟩ ∧ ¬NoEffect k chain 2 ⟨4100, false⟩ := by
  have hrun : ∃ chain, PlainInv ((emptyImage 8 8).after holeFile) chain :=
    emptyImage_after (by decide +kernel)
  obtain ⟨chain, hinv⟩ := hrun
  have hbig : ((emptyImage 8 8).after holeFile).fs.Is 2 .big := by decide +kernel
  exact ⟨_, chain, hinv.wf, hbig,
    (emptyWrite_noEffect_iff hinv.wf (Or.inr (Or.inr hbig))).2
      ⟨hbig, by decide +kernel, by decide +kernel, by decide +kernel⟩,
    fun hno => absurd ((emptyWrite_noEffect_iff hinv.wf (Or.inr (Or.inr hbig))).1 hno).2.2.1
      (by decide +kernel)⟩

/-- After an empty write to a new file no write to it succeeds. -/
theorem customWriteIter_empty_newFile : ∃ chain io io' k', WF newFile.fs chain ∧
    newFile.fs.Is 2 .fresh ∧ customWriteIter newFile 2 ⟨0, false⟩ [] = .ok ((0, io), k') ∧
    (customWriteIter newFile 2 ⟨0, false⟩ [7]).value? = some (1, io') ∧
    (customWriteIter k' 2 ⟨0, false⟩ [7]).value? = some (- EIO, ⟨0, false⟩) ∧
    ¬NoEffect newFile chain 2 ⟨0, false⟩ := by
  have hrun : ∃ chain, PlainInv newFile chain :=
    emptyImage_after (by decide +kernel)
  obtain ⟨chain, hinv⟩ := hrun
  have hval : (customWriteIter newFile 2 ⟨0, false⟩ []).value? = some (0, ⟨0, false⟩) := by
    decide +kernel
  refine ⟨chain, _, ⟨0, false⟩, _, hinv.wf, by decide +kernel, Outcome.eq_ok hval,
    by decide +kernel, by decide +kernel, ?_⟩
  rintro ⟨io, k', hempty, hsame, -⟩
  rw [Outcome.eq_ok hval] at hempty
  cases hempty
  exact absurd hsame.indexBlock (by decide +kernel)

end Ouichefs
