import Ouichefs.FileFrame
import Ouichefs.Release

/-!
# No sliced block without a file

A block joins the chain for the file that is stored in it, and leaves the chain with the last file
it holds.  `Fs.Occupied` says that every block of the chain holds a small file.

* `writeSmallFile_occupied`: kept by the first write, the write in place and the relocation.
* `ouichefsUnlink_occupied`, `ouichefsRmdir_occupied`: kept by the removal of any inode.
-/

set_option autoImplicit false

namespace Ouichefs

/-- Every sliced block holds a small file. -/
def Fs.Occupied (fs : Fs) (chain : List Nat) : Prop :=
  ∀ b ∈ chain, ∃ i, fs.Is i .small ∧ (fs.inode i).getBno = b

section Occupied

variable {fs fs' : Fs} {chain chain' : List Nat} {ino : Nat}

theorem Fs.Occupied.not_allFree (h : fs.Occupied chain) (hs : SliceInv fs chain) :
    ∀ b ∈ chain, allFree (fs.disk b) = false := by
  intro b hb
  obtain ⟨i, hi, rfl⟩ := h b hb
  exact hs.not_allFree hi

/-- Where no slice is leaked, a block with a slice in use holds a file. -/
theorem Fs.Occupied.of_not_allFree (hs : SliceInv fs chain) (ht : Tight fs chain)
    (h : ∀ b ∈ chain, allFree (fs.disk b) = false) : fs.Occupied chain := by
  intro b hb
  by_contra hnone
  have hall : sliceBitmap (fs.disk b) = bitmapAllFree := by
    refine eq_bitmapAllFree (hs.header b hb) fun j h1 h32 => ?_
    cases hbit : (sliceBitmap (fs.disk b)).getLsbD j with
    | true => rfl
    | false =>
        obtain ⟨i, hi, hbno, -⟩ := (ht.bits b hb j h1 h32 hbit).resolve_left id
        exact absurd ⟨i, hi, hbno⟩ hnone
  have hused := h b hb
  unfold allFree at hused
  rw [decide_eq_false_iff_not] at hused
  exact hused hall

/-- The small files stay where they are, and no block joins the chain. -/
theorem Fs.Occupied.mono (h : fs.Occupied chain) (hsub : ∀ b ∈ chain', b ∈ chain)
    (hk : ∀ i, fs.Is i .small → fs'.Live i ∧ SameView (fs.inode i) (fs'.inode i)) :
    fs'.Occupied chain' := by
  intro b hb
  obtain ⟨i, hi, hbno⟩ := h b (hsub b hb)
  obtain ⟨hl, hv⟩ := hk i hi
  exact ⟨i, ⟨hl, hv.kind.trans hi.2⟩, hv.getBno.trans hbno⟩

/-- A write to a file that is not small, to blocks outside the chain. -/
theorem FileWrite.occupied (hw : FileWrite fs fs' chain chain' ino) (ho : fs.Occupied chain)
    (hsub : ∀ b ∈ chain', b ∈ chain) (hns : ¬fs.Is ino .small) : fs'.Occupied chain' := by
  refine ho.mono hsub fun i hi => ⟨(hw.live i).2 hi.1, .of_eq (hw.inode i ?_)⟩
  rintro rfl
  exact hns hi

end Occupied

/-! ## Writing a small file -/

section Write

variable {k k' : Kernel} {chain chain' : List Nat} {ino pos : Nat} {iocb : Kiocb}
  {data : List UInt8} {res : Int × Kiocb}

/-- The block a file is stored in. -/
theorem Core.store_bno {fs : Fs} {b s : Nat} {t : Timespec} (h : Core fs chain)
    (hino : fs.Unplaced ino) (hb : b ∈ chain) (hs : 1 ≤ s) (h1 : 1 ≤ pos + data.length)
    (hfit : s + divRoundUp (pos + data.length) 128 ≤ 32)
    (hrun : HasRun (sliceBitmap (fs.disk b)) (divRoundUp (pos + data.length) 128) s) :
    ((fs.storeSmall ino t data pos b s).inode ino).getBno = b := by
  have hblt : b < 134217728 := by
    have := (h.chain_used hb).1
    have := h.sb.blocks_le trivial
    omega
  have he := @Fs.storeSmall_eff fs ino pos b s t data hblt hs h1 hfit (h.run_zero hb hs hfit hrun)
  have hn : divRoundUp (pos + data.length) 128 ≠ 0 := by
    unfold divRoundUp
    omega
  exact (he.inode_self (h.placeOk_run hino.fresh hb hs hfit hn rfl hrun)).2.1

theorem Stored.occupied {fs fs' : Fs} {content : List UInt8}
    (hst : Stored fs fs' chain chain' ino content) (hino : fs.Unplaced ino)
    (ho : fs.Occupied chain) (hnew : ∀ c ∈ chain', c ∉ chain → (fs'.inode ino).getBno = c) :
    fs'.Occupied chain' := by
  intro c hc
  by_cases hold : c ∈ chain
  · obtain ⟨i, hi, hbno⟩ := ho c hold
    have hne : i ≠ ino := by
      rintro rfl
      cases hino.fresh.kind_unique hi
    have hinode := (hst.kept i hne).inode
    exact ⟨i, ⟨(hst.owners.live i).2 hi.1, by rw [hinode]; exact hi.2⟩, by rw [hinode]; exact hbno⟩
  · exact ⟨ino, hst.small, hnew c hc hold⟩

/-- A new sliced block and the file stored in it. -/
theorem Core.growStore_bno {fs : Fs} {b : Nat} {t : Timespec} (h : Core fs chain)
    (hino : fs.Unplaced ino) (hb : 0 < b) (hlt : b < fs.sbi.nrBlocks)
    (hfree : fs.sbi.bfreeBitmap b = true) (h1 : 1 ≤ pos + data.length)
    (h2 : pos + data.length ≤ 3968) :
    (((fs.growChain chain.getLast? b).storeSmall ino t data pos b 1).inode ino).getBno = b := by
  have hn := (divRoundUp_128 h1 h2).2
  have hinode : (fs.growChain chain.getLast? b).inode = fs.inode := by
    funext i
    simp [Fs.inode, Fs.growChain_icache]
  have hino' : (fs.growChain chain.getLast? b).Unplaced ino :=
    ⟨⟨((h.grow_owners hfree).live ino).2 hino.fresh.1, hinode ▸ hino.fresh.2⟩, hinode ▸ hino.size⟩
  have hbm : sliceBitmap ((fs.growChain chain.getLast? b).disk b) = bitmapAllFree := by
    rw [h.growChain_disk hfree, if_pos rfl, sliceBitmap_setSliceBitmap]
  refine (h.grow hb hlt hfree).store_bno hino' (by simp) (Nat.le_refl 1) h1 (by omega) ?_
  rw [hbm]
  exact bitmapAllFree_hasRun hn

/-- The first write of a file. -/
theorem writeSmallFileNew_occupied (hf : k.faults = []) (h : Core k.fs chain)
    (hino : k.fs.Unplaced ino) (hpos : iocb.startPos (k.inode ino) = pos)
    (h1 : 1 ≤ pos + data.length) (h2 : pos + data.length ≤ 3968) (ho : k.fs.Occupied chain)
    (h' : Core k'.fs chain') (hrun : writeSmallFileNew k ino iocb data = .ok (res, k'))
    (hr : 0 < res.1) : k'.fs.Occupied chain' := by
  cases writeSmallFileNew_spec hf h.chainOk hino.size hpos h2 with
  | found b s t k₁ hb hs heq hf' ha hfs =>
      rw [hrun] at heq
      cases heq
      have hst := @Core.store _ _ _ _ _ _ t data h hino hb hs.pos h1 hs.fits hs.run
      rw [← hfs] at hst
      obtain rfl := hst.core.isChain.unique h'.isChain
      exact hst.occupied hino ho fun c hc hnew => absurd hc hnew
  | grown b t k₁ hnone hb hlt hfree heq hf' ha hfs =>
      rw [hrun] at heq
      cases heq
      have hst := @Core.growStore _ _ _ _ _ t data h hino hb hlt hfree h1 h2
      have hbno := @Core.growStore_bno _ _ _ data _ _ t h hino hb hlt hfree h1 h2
      rw [← hfs] at hst hbno
      obtain rfl := hst.core.isChain.unique h'.isChain
      refine hst.occupied hino ho fun c hc hnew => ?_
      rw [List.mem_singleton.1 ((List.mem_append.1 hc).resolve_left hnew)]
      exact hbno
  | full hnone hfull hfail hbit hnonpos =>
      have := hnonpos res k' hrun
      omega

/-- A write in place leaves the file in its block. -/
theorem writeSmallFile_inPlace_bno (hf : k.faults = []) (h : Core k.fs chain)
    (hino : k.fs.Is ino .small) (hpos : iocb.startPos (k.inode ino) = pos)
    (hslices : (k.inode ino).numSlices =
      divRoundUp (max (pos + data.length) (k.inode ino).iSize) 128)
    (hrun : writeSmallFile k ino iocb data = .ok (res, k')) :
    (k'.fs.inode ino).getBno = (k.fs.inode ino).getBno := by
  have hok := h.slices.file ino hino
  have hlt : (k.fs.inode ino).getSlice < 32 := Nat.mod_lt _ (by decide)
  have hk3 := (Inode.kind_small.1 hino.2).2.2.1
  obtain ⟨hn, hz, hread⟩ := rewriteSmallFile_eq hf h hino
  obtain ⟨k₁, hcopy, -, -, hfs⟩ := copyToSlices_ok
    (k := k.log (.bread (k.inode ino).getBno)) (by simpa using hf) ino iocb data pos
    (max (pos + data.length) (k.inode ino).iSize) (k.inode ino).getBno (k.inode ino).getSlice
  rw [writeSmallFile_rewrite _ _ hk3, (rewriteSmallFile_exits k ino iocb data).2
    (.inPlace hn hz hread (by rw [hpos]; exact hslices) rfl), hpos, hcopy] at hrun
  cases hrun
  have hblt : (k.fs.inode ino).getBno < 134217728 := by
    have := (h.chain_used hok.mem).1
    have := h.sb.blocks_le trivial
    omega
  have hidx : (k'.fs.inode ino).indexBlock =
      32 * (k.fs.inode ino).getBno + (k.fs.inode ino).getSlice := by
    rw [hfs]
    unfold Fs.fillSlices
    rw [Fs.inode_setInode, if_pos rfl]
    exact add32_of_lt (by
      show 32 * (k.fs.inode ino).getBno + (k.fs.inode ino).getSlice < 4294967296
      omega)
  exact (Inode.decode hidx (by omega)).1

/-- The chain that `delete_slice` leaves. -/
theorem deleteSlice_not_allFree {bno s n : Nat} {r : Int} {Z : Prop} (hf : k.faults = [])
    (h : Core k.fs chain Z) (hb : bno ∈ chain) (hs : 1 ≤ s) (hn : n ≠ 0)
    (hrun : deleteSlice k bno s n = .ok (r, k'))
    (h' : IsLinked k'.fs.next k'.fs.sbi.sFreeSlicedBlocks chain') :
    ∀ b ∈ chain', allFree (k'.fs.disk b) = false := by
  obtain ⟨k₁, hdel, -, -, he⟩ := deleteSlice_spec hf h.pruneInv hb hs hn
  rw [hrun] at hdel
  cases hdel
  obtain rfl := he.isChain.unique h'
  intro b hb
  obtain ⟨hm, hk⟩ := List.mem_filter.1 hb
  have hused : allFree ((k.fs.markFree bno s n).disk b) = false := by simpa using hk
  have hbits := (he.restSame b hm hused).sliceBitmap
  unfold allFree at hused ⊢
  rwa [hbits]

/-- A relocation ends with the release of the old slices. -/
theorem writeSmallFile_relocate_delete (hf : k.faults = []) (h : Core k.fs chain)
    (hino : k.fs.Is ino .small) (hpos : iocb.startPos (k.inode ino) = pos)
    (h2 : pos + data.length ≤ 3968)
    (hslices : (k.inode ino).numSlices ≠
      divRoundUp (max (pos + data.length) (k.inode ino).iSize) 128)
    (hrun : writeSmallFile k ino iocb data = .ok (res, k')) (hr : 0 < res.1) :
    ∃ k₁ chain₁ d, k₁.faults = [] ∧ Core k₁.fs chain₁ ∧ (k.fs.inode ino).getBno ∈ chain₁ ∧
      deleteSlice k₁ (k.fs.inode ino).getBno (k.fs.inode ino).getSlice
        (k.fs.inode ino).numSlices = .ok (d, k') := by
  have hok := h.slices.file ino hino
  obtain ⟨hgrow, io, hstart, heq⟩ := writeSmallFile_moves hf h hino hpos hslices
  have hcap : (combinedBuf (k.fs.smallBytes ino) pos data).length = pos + data.length := by
    rw [combinedBuf_length, Fs.smallBytes_length]
    omega
  have hnew := @writeSmallFileNew_core (k.detach ino) chain ino io
    (combinedBuf (k.fs.smallBytes ino) pos data) 0 hf (h.detach hino) (Fs.detach_unplaced hino)
    hstart (by omega) (by omega)
  rw [heq] at hrun
  cases (finishRelocation_exits ..).1 hrun with
  | stopped hrun' eq => cases eq
  | kept hrun' hret eq =>
      cases eq
      exact absurd hr (Int.not_lt.2 hret)
  | stuck hrun' hret hdel eq => cases eq
  | moved hrun' hret hdel eq =>
      cases eq
      rcases hnew with ⟨k₁, chain₁, hnew, hf₁, -, hst⟩ | ⟨-, hover⟩
      · rw [hnew] at hrun'
        cases hrun'
        exact ⟨_, chain₁, _, hf₁, hst.core, hst.sub _ hok.mem, hdel⟩
      · -- without room the result is not positive
        exact absurd (hover.nonpos _ _ hrun') (Int.not_le.2 hret)

/-- **A small write leaves no sliced block without a file.** -/
theorem writeSmallFile_occupied (hf : k.faults = []) (h : WF k.fs chain)
    (hino : k.fs.Is ino .fresh ∨ k.fs.Is ino .small) (hpos : iocb.startPos (k.inode ino) = pos)
    (hlen : 1 ≤ data.length) (h2 : pos + data.length ≤ 3968) (ho : k.fs.Occupied chain)
    (h' : Core k'.fs chain') (ht' : Tight k'.fs chain')
    (hrun : writeSmallFile k ino iocb data = .ok (res, k')) (hr : 0 < res.1) :
    k'.fs.Occupied chain' := by
  rcases hino with hino | hino
  · have hidx : (k.inode ino).indexBlock = 0 := (Inode.kind_fresh.1 hino.2).2.2
    rw [writeSmallFile_new _ _ hidx] at hrun
    exact writeSmallFileNew_occupied hf h.toCore ⟨hino, (h.fresh ino hino).1⟩ hpos (by omega) h2 ho
      h' hrun hr
  by_cases hslices : (k.inode ino).numSlices =
      divRoundUp (max (pos + data.length) (k.inode ino).iSize) 128
  · have hbno := writeSmallFile_inPlace_bno hf h.toCore hino hpos hslices hrun
    obtain ⟨k₁, hrun', hl⟩ := @writeSmallFile_inPlace _ _ _ _ data _ hf h.toCore hino hpos hslices
    rw [hrun] at hrun'
    cases hrun'
    obtain rfl := hl.core.isChain.unique h'.isChain
    intro b hb
    obtain ⟨i, hi, hib⟩ := ho b hb
    by_cases hin : i = ino
    · rw [hin] at hib
      exact ⟨ino, hl.small, hbno.trans hib⟩
    · have hinode := (hl.kept i hin).inode
      exact ⟨i, ⟨(hl.owners.live i).2 hi.1, by rw [hinode]; exact hi.2⟩,
        by rw [hinode]; exact hib⟩
  · have hok := h.slices.file ino hino
    obtain ⟨k₁, chain₁, d, hf₁, hc₁, hmem, hdel⟩ :=
      writeSmallFile_relocate_delete hf h.toCore hino hpos h2 hslices hrun hr
    exact .of_not_allFree h'.slices ht' (deleteSlice_not_allFree hf₁ hc₁ hmem hok.slice_pos
      (Inode.kind_small.1 hino.2).2.2.2 hdel h'.isChain)

end Write

/-! ## Removing an inode -/

section Remove

variable {k k' : Kernel} {chain chain' : List Nat} {dir ino f n : Nat} {r : Int}

/-- A directory has no sliced block. -/
theorem releaseStorage_dir_links {Z : Prop} (hf : k.faults = []) (h : Core k.fs chain Z)
    (hk : k.fs.Is ino .dir) (bno : Nat) (small : Bool) :
    ∃ k₁, releaseStorage k ino = .ok ((), k₁) ∧
      IsLinked (cleanInode k₁ ino bno small).fs.next
        (cleanInode k₁ ino bno small).fs.sbi.sFreeSlicedBlocks chain := by
  have hmode : sIsDir (k.inode ino).iMode = true := Inode.kind_dir.1 hk.2
  have h0 : (k.inode ino).indexBlock ≠ 0 := h.index_ne_zero (Or.inl hk)
  have hu : (k.inode ino).indexBlock < k.fs.sbi.nrBlocks := (h.dir_used hk).1
  refine ⟨((k.log (.bread (k.inode ino).indexBlock)).setBlock (k.inode ino).indexBlock
    Page.zero).brelse (k.inode ino).indexBlock, ?_, ?_⟩
  · unfold releaseStorage
    simp [hmode, h0, Kernel.sbBread_ok hf hu]
  · obtain ⟨hdisk, hhead, -⟩ := cleanInode_blocks (((k.log (.bread (k.inode ino).indexBlock)).setBlock
      (k.inode ino).indexBlock Page.zero).brelse (k.inode ino).indexBlock) ino bno small
    rw [hhead]
    refine h.isChain.congr fun b hb => ?_
    unfold Fs.next
    rw [hdisk, Kernel.fs_brelse, Kernel.fs_setBlock, Fs.disk_setBlock, if_neg]
    · rfl
    · rintro rfl
      exact h.dir_notin_chain (Or.inl hk) hb

/-- The chain after the storage of an inode was released: the block that only it used is gone. -/
theorem releaseStorage_links (hf : k.faults = []) (h : Core k.fs chain) (hl : k.fs.Live ino)
    (ht : Tight k.fs chain) (ho : k.fs.Occupied chain) :
    ∃ k₁, releaseStorage k ino = .ok ((), k₁) ∧
      let k' := cleanInode k₁ ino (k.inode ino).indexBlock
        (decide ((k.inode ino).iBlocks = 0) && !sIsDir (k.inode ino).iMode)
      IsLinked k'.fs.next k'.fs.sbi.sFreeSlicedBlocks
        (chain.filter (· ∉ k.fs.ownBlocks ino)) := by
  have hk := hl.is
  cases hκ : (k.fs.inode ino).kind with
  | dir =>
      rw [hκ] at hk
      obtain ⟨k₁, hrel, hlinks⟩ := releaseStorage_dir_links hf h hk (k.inode ino).indexBlock
        (decide ((k.inode ino).iBlocks = 0) && !sIsDir (k.inode ino).iMode)
      have hown : k.fs.ownBlocks ino = ∅ := by
        unfold Fs.ownBlocks
        rw [hκ]
      refine ⟨k₁, hrel, ?_⟩
      rw [hown, List.filter_eq_self.2 (by simp)]
      exact hlinks
  | fresh =>
      rw [hκ] at hk
      obtain ⟨h1, h2, -⟩ := Inode.kind_fresh.1 hk.2
      have hsmall : (decide ((k.inode ino).iBlocks = 0) && !sIsDir (k.inode ino).iMode) = true := by
        simp [Kernel.inode, h1, h2]
      obtain ⟨k₁, hrel, hst⟩ := releaseStorage_fresh_exact h hk (k.inode ino).indexBlock
      rw [hsmall]
      exact ⟨k₁, hrel, hst.links⟩
  | small =>
      rw [hκ] at hk
      obtain ⟨h1, h2, -⟩ := Inode.kind_small.1 hk.2
      have hsmall : (decide ((k.inode ino).iBlocks = 0) && !sIsDir (k.inode ino).iMode) = true := by
        simp [Kernel.inode, h1, h2]
      obtain ⟨k₁, hrel, hst⟩ := releaseStorage_small_exact hf h hk (ho.not_allFree h.slices)
        (fun j h1 h32 hbit =>
          (ht.bits _ (h.slices.file ino hk).mem j h1 h32 hbit).resolve_left id)
        (k.inode ino).indexBlock
      rw [hsmall]
      exact ⟨k₁, hrel, hst.links⟩
  | big =>
      rw [hκ] at hk
      obtain ⟨h1, h2⟩ := Inode.kind_big.1 hk.2
      have hsmall : (decide ((k.inode ino).iBlocks = 0) && !sIsDir (k.inode ino).iMode) = false := by
        simp [Kernel.inode, h2]
      obtain ⟨k₁, hrel, hst⟩ := releaseStorage_big_exact hf h hk (ht.ptrs ino hk)
      rw [hsmall]
      exact ⟨k₁, hrel, hst.links⟩
  | stray => exact absurd (hκ ▸ hk) (ht.noStray ino)

/-- **Removing an inode leaves no sliced block without a file.** -/
theorem ouichefsUnlink_occupied (hf : k.faults = []) (h : WF k.fs chain) (ht : Tight k.fs chain)
    (ho : k.fs.Occupied chain) (hd : k.fs.Is dir .dir) (h0 : ino ≠ 0)
    (hrun : ouichefsUnlink k dir ino = .ok (r, k'))
    (hr : Removed k.fs k'.fs chain chain' dir ino f n) : k'.fs.Occupied chain' := by
  have hne := hr.notDir
  obtain ⟨hu, hnc, hbig, -⟩ := h.toCore.dir_block_alone hd
  have hlive : k.fs.Live ino := hr.slot ▸ (h.dirs.tree.entry (i := f) hd (by rw [hr.slot]; exact h0)).1
  obtain ⟨k₁, hdrop, heq⟩ := ouichefsUnlink_entry hf h hd hr.slot h0 hr.compact hr.cap
  have hag := hdrop.agree
  generalize hfs₁ : k.fs.setBlock (k.fs.inode dir).indexBlock
    (removeSlot (k.fs.indexOf dir) f n) = fs₁ at hag
  have hcore : Core k₁.fs chain := hag.core
    (hfs₁ ▸ h.toCore.setBlock (fun _ => hu) hnc hbig (removeSlot (k.fs.indexOf dir) f n))
  have htight : Tight k₁.fs chain := hag.tight (hfs₁ ▸ TightBut.setBlock ht hnc hbig _)
  have hview : ∀ i, k.fs.Live i → k₁.fs.Live i ∧ SameView (k.fs.inode i) (k₁.fs.inode i) := by
    intro i hi
    have hi₁ : fs₁.Live i := hfs₁ ▸ hi
    have hv := hag.view i hi₁
    rw [← hfs₁] at hv
    exact ⟨(hag.live i).2 hi₁, hv⟩
  have hocc : k₁.fs.Occupied chain := ho.mono (fun _ => id) fun i hi => hview i hi.1
  obtain ⟨k₂, hrel, hlinks⟩ := releaseStorage_links hdrop.faults hcore (hview ino hlive).1 htight hocc
  rw [hrel] at heq
  rw [heq] at hrun
  cases hrun
  rw [hdrop.inode hne] at hlinks
  obtain rfl := hlinks.unique hr.wf.isChain
  intro b hb
  obtain ⟨hm, hnot⟩ := List.mem_filter.1 hb
  have hnot' : b ∉ k₁.fs.ownBlocks ino := by simpa using hnot
  -- a small file in the block that stays
  obtain ⟨i, hin, hi, hbno⟩ : ∃ i, i ≠ ino ∧ k₁.fs.Is i .small ∧ (k₁.fs.inode i).getBno = b := by
    obtain ⟨i, hi, hbno⟩ := hocc b hm
    by_cases hin : i = ino
    · subst hin
      have halone : ¬k₁.fs.Alone i := by
        intro halone
        apply hnot'
        unfold Fs.ownBlocks
        rw [hi.2]
        simp [halone, hbno]
      unfold Fs.Alone at halone
      simp only [not_forall, not_not] at halone
      obtain ⟨j, -, hji, hj, hjb⟩ := halone
      exact ⟨j, hji, hj, hjb.trans hbno⟩
    · exact ⟨i, hin, hi, hbno⟩
  have hold : k.fs.Live i := by
    have := (hag.live i).1 hi.1
    rwa [← hfs₁] at this
  have hv₁ := (hview i hold).2
  have hv := hr.view i hold hin
  exact ⟨i, ⟨(hr.live i).2 ⟨hold, hin⟩, hv.kind.trans (hv₁.kind.symm.trans hi.2)⟩,
    hv.getBno.trans (hv₁.getBno.symm.trans hbno)⟩

theorem ouichefsRmdir_occupied (hf : k.faults = []) (h : WF k.fs chain) (ht : Tight k.fs chain)
    (ho : k.fs.Occupied chain) (hd : k.fs.Is dir .dir) (h0 : ino ≠ 0) (hi : k.fs.Is ino .dir)
    (hrun : ouichefsRmdir k dir ino = .ok (r, k'))
    (hr : Removed k.fs k'.fs chain chain' dir ino f n) : k'.fs.Occupied chain' := by
  have hib : (k.inode ino).indexBlock < k.fs.sbi.nrBlocks := (h.toCore.dir_used hi).1
  -- the inode is gone, so the call did not stop early
  have hchanged : k'.fs ≠ k.fs := by
    intro hfs
    have hlive := hi.1
    rw [← hfs] at hlive
    exact ((hr.live ino).1 hlive).2 rfl
  unfold ouichefsRmdir at hrun
  simp only at hrun
  split at hrun
  · cases hrun
    exact absurd rfl hchanged
  simp only [Kernel.sbBread_ok hf hib] at hrun
  split at hrun
  · cases hrun
    exact absurd rfl hchanged
  · exact ouichefsUnlink_occupied
      (k := (k.log (.bread (k.inode ino).indexBlock)).brelse (k.inode ino).indexBlock)
      (by simpa using hf) h ht ho hd h0 hrun hr

end Remove

end Ouichefs
