import Ouichefs.SmallRuns
import Ouichefs.Sysfs

/-!
# The slice counters

`sbi->nr_used_slices` should be the number of slices of the live small files, and the number of
free slices that sysfs shows the number of set bits in the chain.  A first write adds the slices of
the file and a relocation swaps the old ones for the new ones, but a write in place adds the slices
of the file once more.  `sliceCounters_run`: without writes in place the counters are exact after
every run.
-/

set_option autoImplicit false

namespace Ouichefs

variable {k k' : Kernel} {chain : List Nat} {ino : Nat}

/-! ## What the calls do to the counter -/

/-- The slices of inode `i`, if it is a small file. -/
def Fs.slicesOf (fs : Fs) (i : Nat) : Nat := if fs.Is i .small then (fs.inode i).numSlices else 0

/-- Releasing a file without blocks takes its slices off the counter. -/
theorem releaseStorage_slices {k₄ : Kernel} (hf : k.faults = [])
    (hd : sIsDir (k.inode ino).iMode = false) (hb : (k.inode ino).iBlocks = 0)
    (hbno : (k.inode ino).getBno < k.fs.sbi.nrBlocks)
    (hidx : (k.inode ino).getBno = 0 → (k.inode ino).numSlices = 0)
    (hrun : releaseStorage k ino = .ok ((), k₄)) :
    k₄.fs.sbi.nrUsedSlices = if (k.inode ino).numSlices = 0 then k.fs.sbi.nrUsedSlices
      else sub32 k.fs.sbi.nrUsedSlices (k.inode ino).numSlices := by
  have hdel : (deleteSlice k (k.inode ino).getBno (k.inode ino).getSlice
      (k.inode ino).numSlices).kernel.fs.sbi.nrUsedSlices =
      if (k.inode ino).numSlices = 0 then k.fs.sbi.nrUsedSlices
      else sub32 k.fs.sbi.nrUsedSlices (k.inode ino).numSlices := by
    by_cases hn : (k.inode ino).numSlices = 0
    · rw [if_pos hn, (deleteSlice_exits _ _ _ _).2 (.nothing (Or.inr hn) rfl)]
      rfl
    · rw [if_neg hn]
      exact deleteSlice_slices (fun h0 => hn (hidx h0)) hn hf hbno
  unfold releaseStorage deleteSliceAndClearInode at hrun
  simp only [hb, hd, and_self, if_true] at hrun
  generalize deleteSlice k (k.inode ino).getBno (k.inode ino).getSlice (k.inode ino).numSlices = run
    at hdel hrun
  cases run with
  | error e => cases hrun
  | ok p =>
      obtain ⟨ret, k₁⟩ := p
      rw [← hdel]
      simp only at hrun
      split at hrun
      · cases hrun
      · rename_i heq
        obtain ⟨-, rfl⟩ := Prod.mk.inj (Except.ok.inj hrun)
        split at heq
        · cases heq
          rfl
        · cases heq
          rfl

theorem Fs.slicesOf_eq {fs : Fs} (h : WF fs chain) (hino : fs.Is ino .fresh ∨ fs.Is ino .small) :
    fs.slicesOf ino = (fs.inode ino).numSlices := by
  unfold Fs.slicesOf
  rcases hino with hi | hi
  · rw [if_neg fun hs => (by cases hi.kind_unique hs), (h.fresh ino hi).2]
  · rw [if_pos hi]

/-- Removing a file takes its slices off the counter. -/
theorem ouichefsUnlink_slices {dir : Nat} (hf : k.faults = []) (h : WF k.fs chain)
    (hd : k.fs.Is dir .dir) (hino : k.fs.Is ino .fresh ∨ k.fs.Is ino .small)
    (hrun : ouichefsUnlink k dir ino = .ok (0, k')) :
    k'.fs.sbi.nrUsedSlices = if k.fs.slicesOf ino = 0 then k.fs.sbi.nrUsedSlices
      else sub32 k.fs.sbi.nrUsedSlices (k.fs.slicesOf ino) := by
  have hne : ino ≠ dir := by
    rintro rfl
    rcases hino with hi | hi <;> cases hd.kind_unique hi
  have hfile : sIsDir (k.fs.inode ino).iMode = false ∧ (k.fs.inode ino).iBlocks = 0 ∧
      (k.fs.inode ino).getBno < k.fs.sbi.nrBlocks ∧
      ((k.fs.inode ino).getBno = 0 → (k.fs.inode ino).numSlices = 0) := by
    rcases hino with hi | hi
    · obtain ⟨h1, h2, h3⟩ := Inode.kind_fresh.1 hi.2
      refine ⟨h1, h2, ?_, fun _ => (h.fresh ino hi).2⟩
      unfold Inode.getBno
      rw [h3]
      exact Nat.lt_of_le_of_lt (Nat.zero_le _) h.sb.meta_lt
    · obtain ⟨h1, h2, -⟩ := Inode.kind_small.1 hi.2
      have hm := (h.slices.file ino hi).mem
      exact ⟨h1, h2, (h.toCore.chain_used hm).1, fun h0 => absurd h0 (h.isChain.ne_zero _ hm)⟩
  obtain ⟨hmode, hblocks, hbno, hzero⟩ := hfile
  rcases ouichefsUnlink_stages hrun with ⟨hneg, -⟩ | ⟨-, k₂, k₄, hq, hrel, rfl⟩
  · exact absurd hneg (by decide)
  have hlt : ino < k.fs.sbi.nrInodes := by
    rcases hino with hi | hi
    · exact hi.1.2.1
    · exact hi.1.2.1
  generalize (fun n => if sIsDir (k.inode ino).iMode then sub32 n 1 else n) = fn at hrel
  have hin : (touchDir k₂ dir fn).inode ino = k.fs.inode ino := by
    refine (touchDir_other k₂ fn hne).trans ?_
    unfold Fs.inode
    rw [(hq (ino + 1)).others ino (by omega)]
  have hsbi : (touchDir k₂ dir fn).fs.sbi = k₂.fs.sbi := rfl
  have hf₃ : (touchDir k₂ dir fn).faults = [] := (hq 0).faults hf
  generalize touchDir k₂ dir fn = k₃ at hrel hin hsbi hf₃
  have hs := releaseStorage_slices hf₃ (by rw [hin]; exact hmode) (by rw [hin]; exact hblocks)
    (by rw [hin, hsbi, (hq 0).geom.nrBlocks]; exact hbno) (by rw [hin]; exact hzero) hrel
  have ht := releaseStorage_touch ino k₃
  rw [hrel] at ht
  have hg : k₄.fs.sbi.nrInodes = k₃.fs.sbi.nrInodes := ht.geom.nrInodes
  rw [(cleanInode_cleared _ _ (by rw [hg, hsbi, (hq 0).geom.nrInodes]; exact hlt)).slices, hs, hin, hsbi,
    (hq 0).slices, Fs.slicesOf_eq h hino]

/-- A first write adds the slices of the file. -/
theorem writeSmallFile_slices_first {iocb io : Kiocb} {data : List UInt8} {r : Int}
    (hino : k.fs.Is ino .fresh) (hrun : writeSmallFile k ino iocb data = .ok ((r, io), k'))
    (hr : 0 < r) : k'.fs.sbi.nrUsedSlices = add32 k.fs.sbi.nrUsedSlices
      (divRoundUp (max (iocb.startPos (k.inode ino) + data.length) (k.inode ino).iSize) 128) := by
  rw [writeSmallFile_new _ _ (Inode.kind_fresh.1 hino.2).2.2] at hrun
  exact writeSmallFileNew_slices ino k hrun hr

theorem finishRelocation_slices {old : Inode} {pos count : Nat} {run : Outcome (Int × Kiocb)}
    {res : Int × Kiocb} (h0 : old.getBno ≠ 0) (hn : old.numSlices ≠ 0)
    (hf : run.kernel.faults = []) (hb : old.getBno < run.kernel.fs.sbi.nrBlocks)
    (hrun : finishRelocation old ino pos count run = .ok (res, k')) (hr : 0 < res.1) :
    ∃ ret io k₁, run = .ok ((ret, io), k₁) ∧ 0 < ret ∧
      k'.fs.sbi.nrUsedSlices = sub32 k₁.fs.sbi.nrUsedSlices old.numSlices := by
  cases (finishRelocation_exits ..).1 hrun with
  | stopped hrun' eq => cases eq
  | kept hrun' hret eq =>
      cases eq
      omega
  | stuck hrun' hret hdel eq => cases eq
  | @moved ret r io k₁ k₂ hrun' hret hdel eq =>
      cases eq
      have hd := deleteSlice_slices (s := old.getSlice) h0 hn hf hb
      rw [hrun', show (Outcome.kernel (Except.ok ((ret, io), k₁))) = k₁ from rfl, hdel] at hd
      exact ⟨ret, io, k₁, hrun', hret, hd⟩

/-- A relocation swaps the old slices for the new ones. -/
theorem writeSmallFile_slices_relocate (iocb : Kiocb) (data : List UInt8) {io : Kiocb} {pos : Nat}
    {r : Int} (hf : k.faults = []) (h : WF k.fs chain) (hino : k.fs.Is ino .small)
    (hpos : iocb.startPos (k.inode ino) = pos)
    (hslices : (k.inode ino).numSlices ≠
      divRoundUp (max (pos + data.length) (k.inode ino).iSize) 128)
    (hrun : writeSmallFile k ino iocb data = .ok ((r, io), k')) (hr : 0 < r) :
    k'.fs.sbi.nrUsedSlices = sub32 (add32 k.fs.sbi.nrUsedSlices
      (divRoundUp (max (pos + data.length) (k.inode ino).iSize) 128)) (k.inode ino).numSlices := by
  have hok := h.slices.file ino hino
  obtain ⟨hn, hz, -⟩ := rewriteSmallFile_eq hf h.toCore hino
  have hbno : (k.inode ino).getBno < k.fs.sbi.nrBlocks := (h.toCore.chain_used hok.mem).1
  obtain ⟨hgrow, iocb', hstart, heq⟩ := writeSmallFile_moves hf h.toCore hino hpos hslices
  rw [heq] at hrun
  generalize hbuf : combinedBuf (k.fs.smallBytes ino) pos data = buf at hrun
  have hlen : buf.length = pos + data.length := by
    rw [← hbuf, combinedBuf_length, Fs.smallBytes_length]
    omega
  have ht := writeSmallFileNew_touch ino (k.detach ino) iocb' buf
  obtain ⟨ret, io', k₁, hnew, hret, hused⟩ := finishRelocation_slices
    (fun h0 => hz (Or.inl h0)) hn (ht.faults hf) (by rw [ht.geom.nrBlocks]; exact hbno) hrun hr
  have hzero : ((k.detach ino).inode ino).iSize = 0 := (Fs.detach_unplaced hino).size
  rw [hused, writeSmallFileNew_slices ino (k.detach ino) hnew hret, hstart, hzero, hlen,
    Nat.zero_add, Nat.max_zero, Nat.max_eq_left (show (k.inode ino).iSize ≤ pos + data.length from
      Nat.le_of_lt hgrow)]
  rfl

/-! ## Counting slices -/

/-- The slices of all small files. -/
def Fs.usedSlices (fs : Fs) : Nat := ∑ i ∈ Finset.range fs.sbi.nrInodes, fs.slicesOf i

/-- The set bits of the bitmaps in the chain. -/
def Fs.freeBits (fs : Fs) (chain : List Nat) : Nat :=
  (chain.map fun b => (List.range 32).countP fun j => (sliceBitmap (fs.disk b)).getLsbD j).sum

/-- The places of the slices of file `i`. -/
def Fs.places (fs : Fs) (i : Nat) : Finset (Nat × Nat) :=
  if fs.Is i .small then
    {(fs.inode i).getBno} ×ˢ
      Finset.Ico (fs.inode i).getSlice ((fs.inode i).getSlice + (fs.inode i).numSlices)
  else ∅

theorem Fs.mem_places (fs : Fs) (i : Nat) (p : Nat × Nat) :
    p ∈ fs.places i ↔ fs.OwnsSlice i p.1 p.2 := by
  unfold Fs.places Fs.OwnsSlice
  by_cases hs : fs.Is i .small
  · rw [if_pos hs, Finset.mem_product, Finset.mem_singleton, Finset.mem_Ico]
    constructor
    · rintro ⟨h1, h2⟩
      exact ⟨hs, h1.symm, h2⟩
    · rintro ⟨-, h1, h2⟩
      exact ⟨h1.symm, h2⟩
  · rw [if_neg hs]
    constructor
    · intro hp
      cases hp
    · exact fun hp => absurd hp.1 hs

theorem Fs.card_places (fs : Fs) (i : Nat) : (fs.places i).card = fs.slicesOf i := by
  unfold Fs.places Fs.slicesOf
  split
  · rw [Finset.card_product, Finset.card_singleton, Nat.card_Ico, Nat.one_mul,
      Nat.add_sub_cancel_left]
  · rfl

/-- The taken slices of the chain. -/
def Fs.takenSlices (fs : Fs) (chain : List Nat) : Finset (Nat × Nat) :=
  (chain.toFinset ×ˢ Finset.Ico 1 32).filter fun p =>
    (sliceBitmap (fs.disk p.1)).getLsbD p.2 = false

/-- The taken slices are those of the small files. -/
theorem PlainInv.card_taken (h : PlainInv k chain) :
    (k.fs.takenSlices chain).card = k.fs.usedSlices := by
  have hunion : k.fs.takenSlices chain =
      (Finset.range k.fs.sbi.nrInodes).biUnion k.fs.places := by
    ext ⟨b, j⟩
    unfold Fs.takenSlices
    rw [Finset.mem_filter, Finset.mem_product, List.mem_toFinset, Finset.mem_Ico,
      Finset.mem_biUnion]
    constructor
    · rintro ⟨⟨hb, h1, h2⟩, hbit⟩
      obtain ⟨i, hi⟩ := (h.tight.bits b hb j h1 h2 hbit).resolve_left id
      exact ⟨i, Finset.mem_range.2 hi.1.1.2.1, (k.fs.mem_places i _).2 hi⟩
    · rintro ⟨i, -, hi⟩
      obtain ⟨hs, hb, h1, h2⟩ := (k.fs.mem_places i _).1 hi
      simp only at hb h1 h2
      have hok := h.wf.slices.file i hs
      have hfits := hok.fits
      have hpos := hok.slice_pos
      refine ⟨⟨hb ▸ hok.mem, by omega, by omega⟩, ?_⟩
      rw [← hb]
      exact hok.taken j h1 h2
  have hdisj : ((Finset.range k.fs.sbi.nrInodes : Finset Nat) : Set Nat).PairwiseDisjoint
      k.fs.places := by
    intro i _ i' _ hne
    refine Finset.disjoint_left.2 fun p hp hp' => hne ?_
    exact h.wf.slices.disjoint ((k.fs.mem_places i p).1 hp) ((k.fs.mem_places i' p).1 hp')
  rw [hunion, Finset.card_biUnion hdisj]
  exact Finset.sum_congr rfl fun i _ => k.fs.card_places i

/-- Free and taken slices of one block. -/
theorem countP_bits (b : BitVec 32) (h0 : b.getLsbD 0 = false) :
    ((List.range 32).countP fun j => b.getLsbD j) +
      ((Finset.Ico 1 32).filter fun j => b.getLsbD j = false).card = 31 := by
  have hcard := card_clear (fun j => b.getLsbD j) 32
  have hinsert : (Finset.range 32).filter (fun j => b.getLsbD j = false) =
      insert 0 ((Finset.Ico 1 32).filter fun j => b.getLsbD j = false) := by
    ext j
    rw [Finset.mem_insert, Finset.mem_filter, Finset.mem_filter, Finset.mem_range, Finset.mem_Ico]
    constructor
    · rintro ⟨hj, hb⟩
      by_cases h : j = 0
      · exact Or.inl h
      · exact Or.inr ⟨⟨by omega, hj⟩, hb⟩
    · rintro (rfl | ⟨⟨-, hj⟩, hb⟩)
      · exact ⟨by decide, h0⟩
      · exact ⟨hj, hb⟩
  rw [hinsert, Finset.card_insert_of_notMem (by simp)] at hcard
  unfold FreeMap.countBits at hcard
  omega

/-- **Every slice of the chain is free or belongs to a file.** -/
theorem PlainInv.freeBits_add (h : PlainInv k chain) :
    k.fs.freeBits chain + k.fs.usedSlices = 31 * chain.length := by
  have htaken : k.fs.usedSlices = (chain.map fun b =>
      ((Finset.Ico 1 32).filter fun j => (sliceBitmap (k.fs.disk b)).getLsbD j = false).card).sum := by
    rw [← h.card_taken, ← List.sum_toFinset _ h.wf.nodup]
    unfold Fs.takenSlices
    rw [Finset.card_filter, Finset.sum_product]
    exact Finset.sum_congr rfl fun b _ => (Finset.card_filter _ _).symm
  have hheader := h.wf.slices.header
  rw [htaken]
  unfold Fs.freeBits
  generalize k.fs.disk = disk at hheader
  clear htaken h
  induction chain with
  | nil => rfl
  | cons b chain ih =>
      have hb := countP_bits (sliceBitmap (disk b)) (hheader b List.mem_cons_self)
      have hrest := ih fun c hc => hheader c (List.mem_cons_of_mem _ hc)
      simp only [List.map_cons, List.sum_cons, List.length_cons]
      omega

/-- A call that changes the slices of one inode. -/
theorem Fs.usedSlices_change {fs fs' : Fs} (hg : fs'.sbi.nrInodes = fs.sbi.nrInodes)
    (hlt : ino < fs.sbi.nrInodes) (hi : ∀ i, i ≠ ino → fs'.slicesOf i = fs.slicesOf i) :
    fs'.usedSlices + fs.slicesOf ino = fs.usedSlices + fs'.slicesOf ino := by
  have hmem : ino ∈ Finset.range fs.sbi.nrInodes := Finset.mem_range.2 hlt
  unfold Fs.usedSlices
  rw [hg, ← Finset.add_sum_erase _ _ hmem, ← Finset.add_sum_erase _ fs.slicesOf hmem]
  have hrest : ∑ i ∈ (Finset.range fs.sbi.nrInodes).erase ino, fs'.slicesOf i =
      ∑ i ∈ (Finset.range fs.sbi.nrInodes).erase ino, fs.slicesOf i :=
    Finset.sum_congr rfl fun i hx => hi i (Finset.ne_of_mem_erase hx)
  rw [hrest]
  omega

theorem Fs.slicesOf_view {fs fs' : Fs} {i : Nat} (hl : fs'.Live i ↔ fs.Live i)
    (hv : fs.Live i → SameView (fs.inode i) (fs'.inode i)) : fs'.slicesOf i = fs.slicesOf i := by
  have hiff : fs'.Is i .small ↔ fs.Is i .small := by
    constructor
    · intro h
      have hi := hl.1 h.1
      exact ⟨hi, by rw [← (hv hi).kind]; exact h.2⟩
    · intro h
      exact ⟨hl.2 h.1, by rw [(hv h.1).kind]; exact h.2⟩
  unfold Fs.slicesOf
  by_cases h : fs.Is i .small
  · rw [if_pos h, if_pos (hiff.2 h), (hv h.1).numSlices]
  · rw [if_neg h, if_neg (mt hiff.1 h)]

/-! ## Runs -/

/-- The counters are exact. -/
structure SliceCounters (k : Kernel) (chain : List Nat) : Prop where
  isChain : IsLinked k.fs.next k.fs.sbi.sFreeSlicedBlocks chain
  used : k.fs.sbi.nrUsedSlices = k.fs.usedSlices
  shown : totalFreeSlicesShow k.fs.sbi = k.fs.freeBits chain
  noWrap : k.fs.sbi.nrUsedSlices ≤ 31 * k.fs.sbi.nrSlicedBlocks ∧
    31 * k.fs.sbi.nrSlicedBlocks < 4294967296

/-- A write that needs as many slices as the file has. -/
def Op.InPlace (fs : Fs) : Op → Prop
  | .write ino pos data => fs.Is ino .small ∧ (fs.inode ino).numSlices = fs.slicesFor ino pos data
  | _ => False

instance (fs : Fs) : (op : Op) → Decidable (op.InPlace fs)
  | .create .. => inferInstanceAs (Decidable False)
  | .mkdir .. => inferInstanceAs (Decidable False)
  | .unlink .. => inferInstanceAs (Decidable False)
  | .rmdir .. => inferInstanceAs (Decidable False)
  | .rename .. => inferInstanceAs (Decidable False)
  | .write .. => inferInstanceAs (Decidable (_ ∧ _))
  | .append .. => inferInstanceAs (Decidable False)

/-- A call over small files that does not write in place. -/
def ExactCall (k : Kernel) (c : Call) : Prop := SmallCall k c ∧ ¬c.op.InPlace k.fs

instance (k : Kernel) (c : Call) : Decidable (ExactCall k c) := inferInstanceAs (Decidable (_ ∧ _))

/-- What holds between the calls. -/
structure CountInv (k : Kernel) (chain : List Nat) : Prop extends SmallInv k chain where
  used : k.fs.sbi.nrUsedSlices = k.fs.usedSlices
  stat : StatInv k

theorem PlainInv.slices_lt (h : PlainInv k chain) : 31 * chain.length < 4294967296 := by
  have hlen : chain.length ≤ k.fs.sbi.nrBlocks := by
    have hsub : chain ⊆ List.range k.fs.sbi.nrBlocks := fun b hb =>
      List.mem_range.2 (h.wf.toCore.chain_used hb).1
    simpa using (List.subperm_of_subset h.wf.nodup hsub).length_le
  have hmax := h.wf.sb.blocks_le trivial
  omega

theorem CountInv.counters (h : CountInv k chain) : SliceCounters k chain := by
  have hadd := h.toSmallInv.toPlainInv.freeBits_add
  have hlt := h.toSmallInv.toPlainInv.slices_lt
  refine ⟨h.wf.isChain, h.used, ?_, ?_⟩
  · unfold totalFreeSlicesShow
    rw [h.wf.sliced, h.used]
    split
    · rename_i h0
      have hnil : chain = [] := by
        cases hc : chain with
        | nil => rfl
        | cons b l =>
            have hs := h.wf.isChain
            rw [hc, h0] at hs
            exact absurd hs.1.symm hs.2.1
      rw [hnil]
      rfl
    · rw [Nat.mod_eq_of_lt hlt, sub32_of_le hlt (by omega)]
      omega
  · rw [h.wf.sliced, h.used]
    exact ⟨by omega, hlt⟩

/-- The calls of these runs are calls the VFS makes. -/
theorem Op.Small.vfs {op : Op} (h : WF k.fs chain) (hop : op.Small k.fs) : op.Vfs k.fs := by
  cases op with
  | create dir name mode => exact hop.1
  | unlink dir name ino =>
      obtain ⟨⟨hd, h0, f, hs⟩, hnd⟩ := hop
      exact ⟨hd, hs ▸ (h.dirs.tree.entry hd (hs ▸ h0)).1, hnd⟩
  | write ino pos data =>
      obtain ⟨-, hi | hi, -⟩ := hop
      · exact ⟨hi.1, fun hd => by cases hi.kind_unique hd⟩
      · exact ⟨hi.1, fun hd => by cases hi.kind_unique hd⟩
  | mkdir | rmdir | rename | append => exact hop.elim

/-- The slices of a file that was just written. -/
theorem Written.slicesOf {chain' : List Nat} {content : List UInt8}
    (hw : Written k k' chain chain' ino content) :
    k'.fs.slicesOf ino = divRoundUp content.length 128 := by
  have hlen : (k'.fs.inode ino).iSize = content.length := by
    rw [← hw.bytes, Fs.smallBytes_length]
  unfold Fs.slicesOf
  rw [if_pos hw.small, (hw.wf.slices.file ino hw.small).slices, hlen]

theorem Written.slicesOf_other {chain' : List Nat} {content : List UInt8}
    (hw : Written k k' chain chain' ino content) {i : Nat} (hi : i ≠ ino) :
    k'.fs.slicesOf i = k.fs.slicesOf i :=
  Fs.slicesOf_view (hw.owners.live i) fun _ => .of_eq (hw.kept i hi).inode

/-- A write that is not in place keeps the counter exact. -/
theorem CountInv.write {pos : Nat} {data : List UInt8} (h : CountInv k chain)
    (hop : Op.Small k.fs (.write ino pos data)) (hplace : ¬Op.InPlace k.fs (.write ino pos data))
    (hroom : ¬(Op.exec k (.write ino pos data)).kernel.AllocFailed) :
    ∃ r k' chain', Op.exec k (.write ino pos data) = .ok (r, k') ∧
      k'.fs.sbi.nrUsedSlices = k'.fs.usedSlices ∧ SmallInv k' chain' := by
  obtain ⟨hlen, hino, hsize⟩ := hop
  rcases Op.write_small h.faults h.wf hino hlen hsize with ⟨k', chain', hrun, hw⟩ | ⟨-, hfail, -⟩
  swap
  · exact absurd hfail hroom
  have hinv := hw.smallInv h.toSmallInv
  refine ⟨_, k', chain', hrun, ?_, hinv⟩
  have hlt : ino < k.fs.sbi.nrInodes := by
    rcases hino with hi | hi
    · exact hi.1.2.1
    · exact hi.1.2.1
  have hsum := Fs.usedSlices_change hw.owners.geom.nrInodes hlt fun i hi => hw.slicesOf_other hi
  have hbound := hinv.toPlainInv.freeBits_add
  have hmax := hinv.toPlainInv.slices_lt
  have holen : (k.fs.oldBytes ino).length = (k.fs.inode ino).iSize := by
    unfold Fs.oldBytes
    rcases hino with hi | hi
    · rw [if_neg (by rw [hi.2]; decide), (h.wf.fresh ino hi).1]
      rfl
    · rw [if_pos hi.2, Fs.smallBytes_length]
  rw [hw.slicesOf, combinedBuf_length, holen] at hsum
  -- the write function behind the call
  have hfun : ∃ io, writeSmallFile k ino { kiPos := pos, append := false } data =
      .ok (((data.length : Int), io), k') := by
    have hcall : Op.exec k (.write ino pos data) =
        writeResult (writeSmallFile k ino { kiPos := pos, append := false } data) :=
      congrArg writeResult (customWriteIter_small hino hsize)
    rw [hcall] at hrun
    cases hres : writeSmallFile k ino { kiPos := pos, append := false } data with
    | error e =>
        rw [hres] at hrun
        cases hrun
    | ok p =>
        obtain ⟨⟨ret, io⟩, k₁⟩ := p
        rw [hres] at hrun
        cases hrun
        exact ⟨io, rfl⟩
  obtain ⟨io, hfun⟩ := hfun
  have hpos : (0 : Int) < (data.length : Int) := by omega
  rcases hino with hi | hi
  · have hs := writeSmallFile_slices_first hi hfun hpos
    have h0 : k.fs.slicesOf ino = 0 := by
      rw [Fs.slicesOf_eq h.wf (Or.inl hi), (h.wf.fresh ino hi).2]
    have hs' : k'.fs.sbi.nrUsedSlices = add32 k.fs.sbi.nrUsedSlices
        (divRoundUp (max (pos + data.length) (k.fs.inode ino).iSize) 128) := hs
    rw [hs', h.used, add32_of_lt (by omega)]
    omega
  · have hs := writeSmallFile_slices_relocate { kiPos := pos, append := false } data h.faults
      h.wf hi rfl
      (fun he => hplace ⟨hi, he⟩) hfun hpos
    have hs' : k'.fs.sbi.nrUsedSlices = sub32 (add32 k.fs.sbi.nrUsedSlices
        (divRoundUp (max (pos + data.length) (k.fs.inode ino).iSize) 128))
        (k.fs.inode ino).numSlices := hs
    rw [Fs.slicesOf_eq h.wf (Or.inr hi)] at hsum
    rw [hs', h.used]
    generalize divRoundUp (max (pos + data.length) (k.fs.inode ino).iSize) 128 = n at hsum
    unfold sub32 add32
    omega

/-- **One call that does not write in place keeps the counters exact.** -/
theorem ExactCall.step {c : Call} (h : CountInv k chain) (hc : ExactCall k c) :
    ∃ r k' chain', c.exec k = .ok (r, k') ∧ CountInv k' chain' := by
  obtain ⟨⟨hop, hroom⟩, hplace⟩ := hc
  have hvfs := hop.vfs h.wf
  suffices hmain : ∃ r k' chain', c.exec k = .ok (r, k') ∧
      k'.fs.sbi.nrUsedSlices = k'.fs.usedSlices ∧ SmallInv k' chain' by
    obtain ⟨r, k', chain', hrun, hu, hi⟩ := hmain
    exact ⟨r, k', chain', hrun, hi, hu, h.stat.call hvfs hrun⟩
  obtain ⟨op, now, uid, gid⟩ := c
  have hk : CountInv (k.setCaller now uid gid) chain :=
    ⟨⟨⟨h.faults, h.wf, h.tight⟩, h.noBig⟩, h.used,
      h.stat.kept h.faults (.refl _) rfl rfl fun _ _ => rfl⟩
  have hst := hk.stat
  unfold Call.exec at hroom ⊢
  simp only at hop hroom hplace ⊢
  rw [← Kernel.fs_setCaller k now uid gid] at hop hplace
  generalize k.setCaller now uid gid = k₀ at hop hroom hplace hk hst ⊢
  cases op with
  | create dir name mode =>
      have hlt : k₀.fs.sbi.nrFreeInodes < 4294967296 := hst.free_lt
      obtain ⟨r, k', hrun, hf', -, ⟨hneg, hsame, -⟩ | ⟨hr, ino, n, hcr⟩⟩ :=
        ouichefsCreate_spec hk.faults hk.wf hop.1 name mode
      · refine ⟨r, k', chain, hrun, by rw [hsame]; exact hk.used, ⟨hf', hsame ▸ hk.wf,
          hsame ▸ hk.tight⟩, hsame ▸ hk.noBig⟩
      · refine ⟨r, k', chain, hrun, ?_, hcr.smallInv hk.toSmallInv hf'⟩
        have hslices : k'.fs.sbi.nrUsedSlices = k₀.fs.sbi.nrUsedSlices := by
          rcases ouichefsCreate_effect hk.faults hst.bit0 hlt hop.1.1.2.2 hrun with
            hi | ⟨_, -, he⟩
          · exact hi.slices
          · exact he.slices
        have hother : ∀ i, i ≠ ino → k'.fs.slicesOf i = k₀.fs.slicesOf i := fun i hi =>
          Fs.slicesOf_view ((hcr.live i).trans (or_iff_left hi)) (hcr.view i)
        have hnew : k'.fs.slicesOf ino = 0 :=
          if_neg fun hs => by simpa [hop.2] using hs.kind_unique hcr.kind
        have hold : k₀.fs.slicesOf ino = 0 := if_neg fun hs => hcr.dead hs.1
        have hsum := Fs.usedSlices_change hcr.geom.nrInodes hcr.lt hother
        rw [hslices, hk.used]
        omega
  | unlink dir name ino =>
      obtain ⟨⟨hd, h0, f, hs⟩, hnd⟩ := hop
      have hl : k₀.fs.Live ino := hs ▸ (hk.wf.dirs.tree.entry hd (hs ▸ h0)).1
      have hkind := hk.toSmallInv.file_kind ⟨hl, Fs.not_dir hl hnd⟩
      obtain ⟨k', chain', n, hrun, hf', -, hr⟩ :=
        ouichefsUnlink_spec hk.faults hk.wf hd hs h0 fun hx => absurd hx hnd
      refine ⟨0, k', chain', hrun, ?_, hr.smallInv hk.toSmallInv hf'⟩
      have hslices := ouichefsUnlink_slices hk.faults hk.wf hd hkind hrun
      have hother : ∀ i, i ≠ ino → k'.fs.slicesOf i = k₀.fs.slicesOf i := fun i hi =>
        Fs.slicesOf_view ((hr.live i).trans (and_iff_left hi)) fun hx => hr.view i hx hi
      have hnew : k'.fs.slicesOf ino = 0 := if_neg fun hx => ((hr.live ino).1 hx.1).2 rfl
      have hsum := Fs.usedSlices_change hr.geom.nrInodes hl.2.1 hother
      have hbound := hk.toSmallInv.toPlainInv.freeBits_add
      have hmax := hk.toSmallInv.toPlainInv.slices_lt
      rw [hslices, hk.used]
      split
      · omega
      · rw [sub32_of_le (by omega) (by omega)]
        omega
  | write ino pos data => exact hk.write hop hplace hroom
  | mkdir | rmdir | rename | append => exact hop.elim

theorem Formatted.countInv (hf : k.faults = []) (h : Formatted k.fs) (hz : k.fs.Blank) :
    CountInv k [] := by
  refine ⟨h.smallInv hf hz, ?_, h.statInv hf⟩
  rw [h.nrUsedSlices]
  refine (Finset.sum_eq_zero fun i _ => if_neg fun hs => ?_).symm
  cases ((h.is_iff i _).1 hs).2

/-- **Without writes in place the slice counters are exact after every run.** -/
theorem sliceCounters_run {cs : List Call} (hf : k.faults = []) (h : Formatted k.fs)
    (hz : k.fs.Blank) (ha : Admissible Call.exec ExactCall k cs) :
    ∃ k', runAll Call.exec k cs = .ok k' ∧ ∃ chain, SliceCounters k' chain := by
  obtain ⟨k', hrun, chain, hinv⟩ := runAll_invariant (I := fun k => ∃ chain, CountInv k chain)
    (fun k c ⟨chain, hi⟩ hc => by
      obtain ⟨r, k', chain', he, hi'⟩ := hc.step hi
      exact ⟨r, k', he, chain', hi'⟩) cs k ⟨[], h.countInv hf hz⟩ ha
  exact ⟨k', hrun, chain, hinv.counters⟩

theorem sliceCounters_run_smallRun : ∃ k', runAll Call.exec (emptyImage 8 8) smallRun = .ok k' ∧
    ∃ chain, SliceCounters k' chain :=
  sliceCounters_run rfl (emptyImage_formatted (by decide) (by decide) (by decide) (by decide))
    (emptyImage_blank (by decide)) (by decide +kernel)

/-- A file of one byte that is written again. -/
def rewriteRun : List Call :=
  [(Op.create 1 [97] 0o100644).call, (Op.write 2 0 [1]).call, (Op.write 2 0 [2]).call]

/-- One slice is in use and two are counted. -/
theorem sliceCounters_rewriteRun : Formatted (emptyImage 8 8).fs ∧ (emptyImage 8 8).fs.Blank ∧
    (emptyImage 8 8).faults = [] ∧
    Admissible Call.exec SmallCall (emptyImage 8 8) rewriteRun ∧
    ¬∃ chain, SliceCounters ((emptyImage 8 8).after rewriteRun) chain := by
  refine ⟨emptyImage_formatted (by decide) (by decide) (by decide) (by decide),
    emptyImage_blank (by decide), rfl, by decide +kernel, ?_⟩
  rintro ⟨chain, h⟩
  have hused := h.used
  revert hused
  decide +kernel

end Ouichefs
