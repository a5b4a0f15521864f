import Ouichefs.RewriteErrors
import Ouichefs.SliceCount
import Ouichefs.Truncate

/-!
# What unlinking a file releases

`ouichefs_unlink` on a regular file, to the block and to the slice.

* `StorageFreed`: the blocks and slices of the file are freed, nothing else is touched.
* `ouichefsUnlink_exact`: the whole effect of the call on the file system.
* `ouichefsUnlink_lostSlice`: a slice that belongs to no file keeps its block.
-/

set_option autoImplicit false

namespace Ouichefs

variable {Z : Prop}

/-! ## The storage of one file -/

/-- No other small file has slices in the sliced block of `ino`. -/
def Fs.Alone (fs : Fs) (ino : Nat) : Prop :=
  ∀ i < fs.sbi.nrInodes, i ≠ ino → fs.Is i .small → (fs.inode i).getBno ≠ (fs.inode ino).getBno

instance (fs : Fs) (ino : Nat) : Decidable (fs.Alone ino) :=
  inferInstanceAs (Decidable (∀ i < fs.sbi.nrInodes, _ → _ → _))

/-- The blocks that belong to the file `ino` alone. -/
def Fs.ownBlocks (fs : Fs) (ino : Nat) : Finset Nat :=
  match (fs.inode ino).kind with
  | .small => if fs.Alone ino then {(fs.inode ino).getBno} else ∅
  | .big => insert (fs.inode ino).indexBlock (fs.dataBlocks ino)
  | _ => ∅

/-- The storage of the file `ino`, and only that, is free. -/
structure StorageFreed (fs fs' : Fs) (chain : List Nat) (ino : Nat) : Prop where
  bits : ∀ b, fs'.sbi.bfreeBitmap b = true ↔
    fs.sbi.bfreeBitmap b = true ∨ b ∈ fs.ownBlocks ino
  zero : ∀ b ∈ fs.ownBlocks ino, fs'.disk b = Page.zero
  outside : ∀ b, b ∉ chain → b ∉ fs.ownBlocks ino → fs'.disk b = fs.disk b
  links : IsLinked fs'.next fs'.sbi.sFreeSlicedBlocks (chain.filter (· ∉ fs.ownBlocks ino))
  slices : ∀ b ∈ chain, b ∉ fs.ownBlocks ino → ∀ j < 32,
    ((sliceBitmap (fs'.disk b)).getLsbD j = true ↔
      (sliceBitmap (fs.disk b)).getLsbD j = true ∨ fs.OwnsSlice ino b j)
  bytes : ∀ b ∈ chain, b ∉ fs.ownBlocks ino → ∀ x, 128 ≤ x → ¬fs.OwnsSlice ino b (x / 128) →
    (fs'.disk b).get x = (fs.disk b).get x
  used : fs'.sbi.nrUsedSlices = if (fs.inode ino).kind = .small then
    sub32 fs.sbi.nrUsedSlices (fs.inode ino).numSlices else fs.sbi.nrUsedSlices

/-- What `clean_inode` does to blocks. -/
theorem cleanInode_blocks (k : Kernel) (ino bno : Nat) (small : Bool) :
    (cleanInode k ino bno small).fs.disk = k.fs.disk ∧
    (cleanInode k ino bno small).fs.sbi.sFreeSlicedBlocks = k.fs.sbi.sFreeSlicedBlocks ∧
    (cleanInode k ino bno small).fs.sbi.nrUsedSlices = k.fs.sbi.nrUsedSlices ∧
    ∀ b, (cleanInode k ino bno small).fs.sbi.bfreeBitmap b =
      if b = bno ∧ bno ≤ k.fs.sbi.nrBlocks ∧ bno ≠ 0 ∧ small = false then true
      else k.fs.sbi.bfreeBitmap b := by
  have hinode : ∀ (k : Kernel), (k.putInode ino).fs.disk = k.fs.disk ∧
      (k.putInode ino).fs.sbi.sFreeSlicedBlocks = k.fs.sbi.sFreeSlicedBlocks ∧
      (k.putInode ino).fs.sbi.nrUsedSlices = k.fs.sbi.nrUsedSlices ∧
      (k.putInode ino).fs.sbi.bfreeBitmap = k.fs.sbi.bfreeBitmap := by
    intro k
    unfold Kernel.putInode SbInfo.putInode
    split <;> exact ⟨rfl, rfl, rfl, rfl⟩
  unfold cleanInode
  simp only
  split
  · rename_i hc
    rw [(hinode _).1, (hinode _).2.1, (hinode _).2.2.1]
    refine ⟨rfl, ?_, ?_, fun b => ?_⟩
    · unfold Kernel.putBlock SbInfo.putBlock
      split <;> rfl
    · unfold Kernel.putBlock SbInfo.putBlock
      split <;> rfl
    · rw [(hinode _).2.2.2, Kernel.putBlock_bit]
      by_cases hb : b = bno ∧ bno ≤ k.fs.sbi.nrBlocks
      · exact (if_pos hb).trans (if_pos ⟨hb.1, hb.2, hc⟩).symm
      · exact (if_neg hb).trans (if_neg fun h => hb ⟨h.1, h.2.1⟩).symm
  · rename_i hc
    rw [(hinode _).1, (hinode _).2.1, (hinode _).2.2.1, (hinode _).2.2.2]
    refine ⟨rfl, rfl, rfl, fun b => ?_⟩
    rw [if_neg fun h => hc h.2.2]
    rfl

section Storage

variable {k : Kernel} {chain : List Nat} {ino : Nat}

/-- A file that was never written has no storage. -/
theorem releaseStorage_fresh_exact (h : Core k.fs chain Z) (hk : k.fs.Is ino .fresh) (bno : Nat) :
    ∃ k₁, releaseStorage k ino = .ok ((), k₁) ∧
      StorageFreed k.fs (cleanInode k₁ ino bno true).fs chain ino := by
  obtain ⟨h1, h2, h3⟩ := Inode.kind_fresh.1 hk.2
  have hdel : deleteSlice k (k.inode ino).getBno (k.inode ino).getSlice (k.inode ino).numSlices =
      .ok (0, k) :=
    (deleteSlice_exits _ _ _ _).2 (.nothing (Or.inl (by simp [Inode.getBno, Kernel.inode, h3])) rfl)
  have hown : k.fs.ownBlocks ino = ∅ := by
    unfold Fs.ownBlocks
    rw [hk.2]
  have hno : ∀ b j, ¬k.fs.OwnsSlice ino b j := by
    rintro b j ⟨hs, -⟩
    cases hk.kind_unique hs
  refine ⟨_, releaseStorage_sliced h2 h1 hdel, ?_⟩
  obtain ⟨hdisk, hhead, hused, hbits⟩ :=
    cleanInode_blocks (k.setInode ino (k.inode ino).detached) ino bno true
  have hdisk' : (cleanInode (k.setInode ino (k.inode ino).detached) ino bno true).fs.disk =
      k.fs.disk := hdisk
  refine ⟨fun b => ?_, fun b hb => ?_, fun b _ _ => by rw [hdisk'], ?_, fun b _ _ j _ => ?_,
    fun b _ _ x _ _ => by rw [hdisk'], ?_⟩
  · rw [hbits, if_neg (by simp), hown]
    simp
  · rw [hown] at hb
    simp at hb
  · rw [hown, hhead, List.filter_eq_self.2 (by simp)]
    refine h.isChain.congr fun b _ => ?_
    unfold Fs.next
    rw [hdisk']
  · rw [hdisk']
    simp [hno]
  · rw [hused, if_neg (by rw [hk.2]; decide)]
    rfl

/-- After the slices of `ino` were marked free its block is empty iff no other file is in it. -/
theorem Core.freeSlices_allFree (h : Core k.fs chain Z) (hk : k.fs.Is ino .small)
    (hexact : ∀ j, 1 ≤ j → j < 32 →
      (sliceBitmap (k.fs.disk (k.fs.inode ino).getBno)).getLsbD j = false →
      ∃ i, k.fs.OwnsSlice i (k.fs.inode ino).getBno j) :
    allFree (freeSlices (k.fs.disk (k.fs.inode ino).getBno) (k.fs.inode ino).getSlice
      (k.fs.inode ino).numSlices) = true ↔ k.fs.Alone ino := by
  have hok := h.slices.file ino hk
  have hbit := fun j hj => getLsbD_freeSlices (k.fs.disk (k.fs.inode ino).getBno) hok.slice_pos
    hok.fits (j := j) hj
  unfold allFree
  rw [decide_eq_true_eq]
  constructor
  · intro hall i hi hne hs hbno
    have hoki := h.slices.file i hs
    have hfits := hoki.fits
    have hpos := hoki.slice_pos
    have hnum : 0 < (k.fs.inode i).numSlices :=
      Nat.pos_of_ne_zero (Inode.kind_small.1 hs.2).2.2.2
    -- the first slice of the other file is taken
    have hown : k.fs.OwnsSlice i (k.fs.inode ino).getBno (k.fs.inode i).getSlice :=
      ⟨hs, hbno, Nat.le_refl _, by omega⟩
    have htaken := hoki.taken (k.fs.inode i).getSlice (Nat.le_refl _) (by omega)
    rw [hbno] at htaken
    have hget := hbit (k.fs.inode i).getSlice (by omega)
    rw [hall, bitmapAllFree_getLsbD (by omega), htaken, decide_eq_true hpos, Bool.false_or] at hget
    obtain ⟨hlow, hhigh⟩ := of_decide_eq_true hget.symm
    exact hne (h.slices.disjoint hown ⟨hk, rfl, hlow, hhigh⟩)
  · intro halone
    refine eq_bitmapAllFree ?_ fun j h1 h32 => ?_
    · rw [hbit 0 (by decide), h.slices.header _ hok.mem]
      have hpos := hok.slice_pos
      simp only [Bool.false_or, decide_eq_false_iff_not]
      omega
    · rw [hbit j h32]
      cases hold : (sliceBitmap (k.fs.disk (k.fs.inode ino).getBno)).getLsbD j with
      | true => rfl
      | false =>
          obtain ⟨i, hs, hbno, hlow, hhigh⟩ := hexact j h1 h32 hold
          by_cases hi : i = ino
          · subst hi
            simp [hlow, hhigh]
          · exact absurd hbno (halone i hs.1.2.1 hi hs)

/-- A small file gives back its slices, and its block if that was all it held. -/
theorem releaseStorage_small_exact (hf : k.faults = []) (h : Core k.fs chain Z)
    (hk : k.fs.Is ino .small) (hfree : ∀ b ∈ chain, allFree (k.fs.disk b) = false)
    (hexact : ∀ j, 1 ≤ j → j < 32 →
      (sliceBitmap (k.fs.disk (k.fs.inode ino).getBno)).getLsbD j = false →
      ∃ i, k.fs.OwnsSlice i (k.fs.inode ino).getBno j) (bno : Nat) :
    ∃ k₁, releaseStorage k ino = .ok ((), k₁) ∧
      StorageFreed k.fs (cleanInode k₁ ino bno true).fs chain ino := by
  have hok := h.slices.file ino hk
  obtain ⟨h1, h2, -, h4⟩ := Inode.kind_small.1 hk.2
  obtain ⟨k₁, hdel, -, -, he⟩ := deleteSlice_spec hf h.pruneInv hok.mem hok.slice_pos h4
  refine ⟨_, releaseStorage_sliced h2 h1 hdel, ?_⟩
  obtain ⟨hdisk, hhead, hused, hbits⟩ :=
    cleanInode_blocks (k₁.setInode ino (k₁.inode ino).detached) ino bno true
  generalize cleanInode (k₁.setInode ino _) ino bno true = k₂ at hdisk hhead hused hbits
  have hdisk' : k₂.fs.disk = k₁.fs.disk := hdisk
  have hbits' : k₂.fs.sbi.bfreeBitmap = k₁.fs.sbi.bfreeBitmap := by
    funext b
    rw [hbits, if_neg (by simp)]
    rfl
  have hM := fun c => @Fs.markFree_disk k.fs (k.fs.inode ino).getBno (k.fs.inode ino).getSlice
    (k.fs.inode ino).numSlices c
  -- the only block that can become empty is the block of the file
  have hown : ∀ b, b ∈ k.fs.ownBlocks ino ↔ b = (k.fs.inode ino).getBno ∧ k.fs.Alone ino := by
    intro b
    unfold Fs.ownBlocks
    rw [hk.2]
    by_cases halone : k.fs.Alone ino <;> simp [halone]
  have hempty : ∀ b ∈ chain, (allFree ((k.fs.markFree (k.fs.inode ino).getBno
      (k.fs.inode ino).getSlice (k.fs.inode ino).numSlices).disk b) = true ↔
      b ∈ k.fs.ownBlocks ino) := by
    intro b hb
    rw [hown, hM]
    by_cases hbno : b = (k.fs.inode ino).getBno
    · rw [if_pos hbno, h.freeSlices_allFree hk hexact]
      simp [hbno]
    · rw [if_neg hbno, hfree b hb]
      simp [hbno]
  have hchain : ∀ b ∈ k.fs.ownBlocks ino, b ∈ chain := by
    intro b hb
    rw [((hown b).1 hb).1]
    exact hok.mem
  have hsame : ∀ b ∈ chain, b ∉ k.fs.ownBlocks ino → SameButNext ((k.fs.markFree
      (k.fs.inode ino).getBno (k.fs.inode ino).getSlice (k.fs.inode ino).numSlices).disk b)
      (k₂.fs.disk b) := by
    intro b hb hnot
    rw [hdisk']
    exact he.restSame b hb (by rw [← Bool.not_eq_true, hempty b hb]; exact hnot)
  refine ⟨fun b => ?_, fun b hb => ?_, fun b hb _ => ?_, ?_, fun b hb hnot j hj => ?_,
    fun b hb hnot x hx hno => ?_, ?_⟩
  · rw [hbits', he.bfree]
    refine or_congr Iff.rfl ⟨fun hc => (hempty b hc.1).1 hc.2, fun hb => ?_⟩
    exact ⟨hchain b hb, (hempty b (hchain b hb)).2 hb⟩
  · rw [hdisk']
    exact he.gone b (hchain b hb) ((hempty b (hchain b hb)).2 hb)
  · rw [hdisk', he.outside b (by simp) hb, hM, if_neg]
    rintro rfl
    exact hb hok.mem
  · have hlinked := he.isChain
    rw [List.nil_append] at hlinked
    have hkeep : keepUsed (k.fs.markFree (k.fs.inode ino).getBno (k.fs.inode ino).getSlice
        (k.fs.inode ino).numSlices) chain = chain.filter (· ∉ k.fs.ownBlocks ino) := by
      refine List.filter_congr fun b hb => ?_
      have := hempty b hb
      by_cases hin : b ∈ k.fs.ownBlocks ino
      · simp [hin, this.2 hin]
      · simp [hin, Bool.eq_false_iff.2 fun hc => hin (this.1 hc)]
    rw [hkeep] at hlinked
    rw [hhead]
    refine hlinked.congr fun b _ => ?_
    unfold Fs.next
    rw [hdisk']
  · rw [(hsame b hb hnot).sliceBitmap, hM]
    by_cases hbno : b = (k.fs.inode ino).getBno
    · rw [if_pos hbno, getLsbD_freeSlices _ hok.slice_pos hok.fits hj, Bool.or_eq_true,
        decide_eq_true_eq, hbno]
      exact or_congr Iff.rfl ⟨fun hr => ⟨hk, rfl, hr.1, hr.2⟩, fun ho => ⟨ho.2.2.1, ho.2.2.2⟩⟩
    · rw [if_neg hbno]
      exact ⟨Or.inl, fun hc => hc.resolve_right fun ho => hbno ho.2.1.symm⟩
  · rw [hsame b hb hnot x (by omega), hM]
    by_cases hbno : b = (k.fs.inode ino).getBno
    · rw [if_pos hbno, get_freeSlices _ (by omega), if_neg, hbno]
      rintro ⟨hlow, hhigh⟩
      exact hno ⟨hk, hbno.symm, by omega, by omega⟩
    · rw [if_neg hbno]
  · rw [hused, if_pos hk.2, Kernel.fs_setInode, Fs.sbi_setInode, he.sbi]
    rfl

/-- A big file gives back its data blocks and its index block, all of them cleared. -/
theorem releaseStorage_big_exact (hf : k.faults = []) (h : Core k.fs chain Z)
    (hk : k.fs.Is ino .big) (hptrs : ∀ i, (k.fs.inode ino).iBlocks - 1 ≤ i → i < 1024 →
      indexPtr (k.fs.indexOf ino) i = 0) :
    ∃ k₁, releaseStorage k ino = .ok ((), k₁) ∧
      StorageFreed k.fs (cleanInode k₁ ino (k.fs.inode ino).indexBlock false).fs chain ino := by
  obtain ⟨k₁, hrel, -, -, hfs₁⟩ := releaseStorage_big hf h hk
  refine ⟨k₁, hrel, ?_⟩
  have h0 : (k.fs.inode ino).indexBlock ≠ 0 := h.index_ne_zero (Or.inr hk)
  have hu := h.big_used hk
  obtain ⟨hdisk, hhead, hused, hbits⟩ := cleanInode_blocks k₁ ino (k.fs.inode ino).indexBlock false
  generalize cleanInode k₁ ino (k.fs.inode ino).indexBlock false = k₂ at hdisk hhead hused hbits
  have hdata : ∀ b, b ∈ k.fs.dataBlocks ino ↔
      b ∈ ptrsFrom (k.fs.indexOf ino) 0 ((k.inode ino).iBlocks - 1) := by
    intro b
    have hle := (h.big_blocks hk).2.2
    rw [Fs.mem_dataBlocks, mem_ptrsFrom]
    refine and_congr_right fun hne => ⟨?_, ?_⟩
    · rintro ⟨i, hi, rfl⟩
      refine ⟨i, Nat.zero_le i, ?_, rfl⟩
      rw [Nat.zero_add]
      by_contra hge
      exact hne (hptrs i (Nat.le_of_not_lt hge) hi)
    · rintro ⟨i, -, hi, rfl⟩
      exact ⟨i, by omega, rfl⟩
  have hmem : ∀ b ∈ ptrsFrom (k.fs.indexOf ino) 0 ((k.inode ino).iBlocks - 1),
      ∃ r, Refers k.fs chain r b ∧ r.By ino := by
    intro b hb
    obtain ⟨j, -, hj⟩ := h.mem_bigPtrs hk hb
    exact ⟨_, hj, rfl⟩
  have hidx : (k.inode ino).indexBlock = (k.fs.inode ino).indexBlock := rfl
  rw [hidx] at hfs₁
  generalize ptrsFrom (k.fs.indexOf ino) 0 ((k.inode ino).iBlocks - 1) = l at hfs₁ hdata hmem
  have hown : ∀ b, b ∈ k.fs.ownBlocks ino ↔ b = (k.fs.inode ino).indexBlock ∨ b ∈ l := by
    intro b
    unfold Fs.ownBlocks
    rw [hk.2]
    simp only [Finset.mem_insert, hdata]
  have hdisk' : ∀ b, k₂.fs.disk b = if b = (k.fs.inode ino).indexBlock then Page.zero
      else (l.foldl Fs.scrub k.fs).disk b := by
    intro b
    rw [hdisk, hfs₁, Fs.disk_setBlock]
  have houtside : ∀ b, b ∉ k.fs.ownBlocks ino → k₂.fs.disk b = k.fs.disk b := by
    intro b hb
    rw [hown, not_or] at hb
    rw [hdisk', if_neg hb.1, Fs.scrubAll_disk _ _ hb.2]
  -- no block of the chain belongs to the file
  have hchain : ∀ b ∈ chain, b ∉ k.fs.ownBlocks ino := by
    intro b hb
    rw [hown]
    rintro (rfl | hl)
    · exact h.dir_notin_chain (Or.inr hk) hb
    · obtain ⟨r, hr, hby⟩ := hmem b hl
      exact h.by_notin_chain hby hr hb
  have hno : ∀ b j, ¬k.fs.OwnsSlice ino b j := by
    rintro b j ⟨hs, -⟩
    cases hk.kind_unique hs
  refine ⟨fun b => ?_, fun b hb => ?_, fun b _ hb => houtside b hb, ?_, fun b hb hnot j _ => ?_,
    fun b hb hnot x _ _ => by rw [houtside b hnot], ?_⟩
  · have hnr : k₁.fs.sbi.nrBlocks = k.fs.sbi.nrBlocks := by
      rw [hfs₁, Fs.sbi_setBlock, Fs.scrubAll_nrBlocks]
    have hbit₁ : k₁.fs.sbi.bfreeBitmap b = true ↔ k.fs.sbi.bfreeBitmap b = true ∨ b ∈ l := by
      rw [hfs₁, Fs.sbi_setBlock, Fs.scrubAll_bits]
    rw [hbits, hown]
    by_cases hb : b = (k.fs.inode ino).indexBlock
    · rw [if_pos ⟨hb, by rw [hnr]; exact Nat.le_of_lt hu.1, h0, rfl⟩]
      simp [hb]
    · rw [if_neg fun hc => hb hc.1, hbit₁]
      simp [hb]
  · rw [hdisk']
    split
    · rfl
    · rename_i hne
      exact Fs.scrubAll_zero _ _ (((hown b).1 hb).resolve_left hne)
  · rw [List.filter_eq_self.2 fun b hb => by simp [hchain b hb], hhead, hfs₁, Fs.sbi_setBlock,
      (Fs.scrubAll_slices _ _).1]
    refine h.isChain.congr fun b hb => ?_
    unfold Fs.next
    rw [houtside b (hchain b hb)]
  · rw [houtside b hnot]
    simp [hno]
  · rw [hused, hfs₁, Fs.sbi_setBlock, (Fs.scrubAll_slices _ _).2, if_neg (by rw [hk.2]; decide)]

end Storage

/-! ## The call -/

/-- What the file `ino` owns does not depend on other inodes than small files. -/
theorem Agree.ownBlocks {fs fs' : Fs} (h : Agree fs fs') {ino : Nat} (hl : fs.Live ino) :
    fs'.ownBlocks ino = fs.ownBlocks ino := by
  have hv := h.view ino hl
  have halone : fs'.Alone ino ↔ fs.Alone ino := by
    unfold Fs.Alone
    rw [h.geom.nrInodes]
    refine forall_congr' fun i => forall_congr' fun _ => forall_congr' fun _ => ?_
    rw [h.is]
    refine forall_congr' fun hs => ?_
    rw [(h.view i hs.1).getBno, hv.getBno]
  unfold Fs.ownBlocks Fs.dataBlocks
  rw [hv.kind, hv.getBno, hv.indexBlock, h.indexOf hl]
  simp only [halone]

/-- The effect of `ouichefs_unlink` on the regular file `ino`, entry `f` of directory `dir`. -/
structure Unlinked (fs fs' : Fs) (chain : List Nat) (dir ino f : Nat) : Prop where
  bits : ∀ b, fs'.sbi.bfreeBitmap b = true ↔
    fs.sbi.bfreeBitmap b = true ∨ b ∈ fs.ownBlocks ino
  nrFree : fs'.sbi.nrFreeBlocks = fs.sbi.nrFreeBlocks + (fs.ownBlocks ino).card
  zero : ∀ b ∈ fs.ownBlocks ino, fs'.disk b = Page.zero
  links : IsLinked fs'.next fs'.sbi.sFreeSlicedBlocks (chain.filter (· ∉ fs.ownBlocks ino))
  slices : ∀ b ∈ chain, b ∉ fs.ownBlocks ino → ∀ j < 32,
    ((sliceBitmap (fs'.disk b)).getLsbD j = true ↔
      (sliceBitmap (fs.disk b)).getLsbD j = true ∨ fs.OwnsSlice ino b j)
  nrUsed : fs'.sbi.nrUsedSlices = if (fs.inode ino).kind = .small then
    sub32 fs.sbi.nrUsedSlices (fs.inode ino).numSlices else fs.sbi.nrUsedSlices
  ifree : fs'.sbi.ifreeBitmap = Function.update fs.sbi.ifreeBitmap ino true
  nrFreeInodes : fs'.sbi.nrFreeInodes = add32 fs.sbi.nrFreeInodes 1
  entries : ∀ j, slotInode (fs'.indexOf dir) j = dropSlot (slotInode (fs.indexOf dir)) f j ∧
    slotName (fs'.indexOf dir) j = dropSlot (slotName (fs.indexOf dir)) f j
  otherDirs : ∀ d, fs.Is d .dir → d ≠ dir → fs'.indexOf d = fs.indexOf d
  others : ∀ i, i ≠ ino → fs.Live i → ¬fs.Is i .dir → Untouched fs fs' chain i

section Call

variable {k : Kernel} {chain : List Nat} {dir ino f : Nat}

/-- The blocks of a file are its sliced block, or the blocks it refers to. -/
theorem Core.ownBlocks_cases {fs : Fs} (h : Core fs chain Z) (hl : fs.Live ino) {b : Nat}
    (hb : b ∈ fs.ownBlocks ino) :
    (fs.Is ino .small ∧ fs.Alone ino ∧ b = (fs.inode ino).getBno ∧ b ∈ chain) ∨
      b ∉ chain ∧ ∃ r : Ref, r.By ino ∧ Refers fs chain r b := by
  unfold Fs.ownBlocks at hb
  split at hb
  · rename_i hk
    split at hb
    · rename_i halone
      have hbno := Finset.mem_singleton.1 hb
      have hmem := (h.slices.file ino ⟨hl, hk⟩).mem
      exact Or.inl ⟨⟨hl, hk⟩, halone, hbno, hbno ▸ hmem⟩
    · simp at hb
  · rename_i hk
    have hown : ∀ r : Ref, r.By ino → Refers fs chain r b →
        b ∉ chain ∧ ∃ r : Ref, r.By ino ∧ Refers fs chain r b :=
      fun r hby hr => ⟨h.by_notin_chain hby hr, r, hby, hr⟩
    rcases Finset.mem_insert.1 hb with rfl | hdata
    · exact Or.inr (hown (.index ino) rfl ⟨Or.inr ⟨hl, hk⟩, rfl⟩)
    · obtain ⟨hne, j, hj, rfl⟩ := Fs.mem_dataBlocks.1 hdata
      exact Or.inr (hown (.data ino j) rfl ⟨⟨hl, hk⟩, hj, rfl, hne⟩)
  · simp at hb

/-- What belongs to another file survives. -/
theorem StorageFreed.untouched {fs fs₁ fs' : Fs} {nb : Block}
    (hst : StorageFreed fs₁ fs' chain ino) (h : WF fs chain Z) (hino : fs.Live ino)
    (hd : fs.Is dir .dir) (hag : Agree (fs.setBlock (fs.inode dir).indexBlock nb) fs₁)
    (hown : fs₁.ownBlocks ino = fs.ownBlocks ino) {i : Nat} (hi : i ≠ ino) (hl : fs.Live i)
    (hnd : ¬fs.Is i .dir) (hinode : fs'.inode i = fs.inode i) : Untouched fs fs' chain i := by
  have hdisk : ∀ b, b ≠ (fs.inode dir).indexBlock → fs₁.disk b = fs.disk b := by
    intro b hb
    rw [hag.disk, Fs.disk_setBlock, if_neg hb]
  have hbit : ∀ b, b ∉ fs.ownBlocks ino →
      fs'.sbi.bfreeBitmap b = fs.sbi.bfreeBitmap b := by
    intro b hb
    rw [Bool.eq_iff_iff, hst.bits, hown, hag.bfree]
    simp only [hb, or_false]
    rfl
  have hblocks : ∀ r c, r.By i → Refers fs chain r c →
      fs'.disk c = fs.disk c ∧ fs'.sbi.bfreeBitmap c = fs.sbi.bfreeBitmap c := by
    intro r c hby hr
    have hchain := h.toCore.by_notin_chain hby hr
    have hdir : c ≠ (fs.inode dir).indexBlock := by
      rintro rfl
      rw [h.owned.inj hr (show Refers fs chain (.index dir) _ from ⟨Or.inl hd, rfl⟩)] at hby
      exact hnd (hby ▸ hd)
    have hnot : c ∉ fs.ownBlocks ino := by
      intro hc
      rcases h.toCore.ownBlocks_cases hino hc with ⟨-, -, -, hm⟩ | ⟨-, r', hby', hr'⟩
      · exact hchain hm
      · rw [h.owned.inj hr hr'] at hby
        cases r' with
        | index j => exact hi (hby.symm.trans hby')
        | data j x => exact hi (hby.symm.trans hby')
        | header c => exact hby
        | sliced c => exact hby
    exact ⟨(hst.outside c hchain (by rwa [hown])).trans (hdisk c hdir), hbit c hnot⟩
  have hslices : ∀ b j, fs.OwnsSlice i b j →
      (∀ x, 128 * j ≤ x → x < 128 * j + 128 → (fs'.disk b).get x = (fs.disk b).get x) ∧
        (sliceBitmap (fs'.disk b)).getLsbD j = (sliceBitmap (fs.disk b)).getLsbD j ∧
        fs'.sbi.bfreeBitmap b = fs.sbi.bfreeBitmap b := by
    intro b j howns
    obtain ⟨hs, hbno, hlow, hhigh⟩ := howns
    have hok := h.slices.file i hs
    have hmem : b ∈ chain := hbno ▸ hok.mem
    have hpos := hok.slice_pos
    have hfits := hok.fits
    have hnot : b ∉ fs.ownBlocks ino := by
      intro hc
      rcases h.toCore.ownBlocks_cases hino hc with ⟨-, halone, hb, -⟩ | ⟨hnm, -⟩
      · exact halone i hl.2.1 hi hs (hbno.trans hb)
      · exact hnm hmem
    have hdir : b ≠ (fs.inode dir).indexBlock := by
      rintro rfl
      exact h.toCore.dir_notin_chain (Or.inl hd) hmem
    have hno : ∀ y, y = j → ¬fs₁.OwnsSlice ino b y := by
      rintro y rfl howns'
      exact hi (h.slices.disjoint ⟨hs, hbno, hlow, hhigh⟩ ((hag.owns ino b y).1 howns'))
    refine ⟨fun x hx1 hx2 => ?_, ?_, hbit b hnot⟩
    · rw [hst.bytes b hmem (by rwa [hown]) x (by omega) (hno _ (by omega)), hdisk b hdir]
    · have htaken := hok.taken j hlow hhigh
      rw [hbno] at htaken
      rw [Bool.eq_iff_iff, hst.slices b hmem (by rwa [hown]) j (by omega), hdisk b hdir, htaken]
      simp only [Bool.false_eq_true, false_or, iff_false]
      exact hno j rfl
  exact ⟨hinode, hblocks, hslices, Untouched.content_eq h hl hinode
    (fun r c hby hr => (hblocks r c hby hr).1) fun b j howns => (hslices b j howns).1⟩

/-- Every block of the file was in use. -/
theorem Core.ownBlocks_used {fs : Fs} (h : Core fs chain Z) (hl : fs.Live ino) {b : Nat}
    (hb : b ∈ fs.ownBlocks ino) : fs.Used b := by
  rcases h.ownBlocks_cases hl hb with ⟨-, -, -, hm⟩ | ⟨-, r, -, hr⟩
  · exact h.chain_used hm
  · exact h.owned.used hr

/-- **Unlinking a file frees exactly what the file owns.** -/
theorem ouichefsUnlink_exact (hf : k.faults = []) (h : WF k.fs chain Z) (hd : k.fs.Is dir .dir)
    (hs : slotInode (k.fs.indexOf dir) f = ino)
    (hino : k.fs.Is ino .fresh ∨ k.fs.Is ino .small ∨ k.fs.Is ino .big)
    (hfree : ∀ b ∈ chain, allFree (k.fs.disk b) = false)
    (hexact : k.fs.Is ino .small → ∀ j, 1 ≤ j → j < 32 →
      (sliceBitmap (k.fs.disk (k.fs.inode ino).getBno)).getLsbD j = false →
      ∃ i, k.fs.OwnsSlice i (k.fs.inode ino).getBno j)
    (hptrs : k.fs.Is ino .big → ∀ i, (k.fs.inode ino).iBlocks - 1 ≤ i → i < 1024 →
      indexPtr (k.fs.indexOf ino) i = 0) :
    ∃ k', ouichefsUnlink k dir ino = .ok (0, k') ∧ Unlinked k.fs k'.fs chain dir ino f := by
  have hl : k.fs.Live ino := by
    rcases hino with hi | hi | hi <;> exact hi.1
  have hnd : ¬k.fs.Is ino .dir := by
    intro hc
    rcases hino with hi | hi | hi <;> cases hc.kind_unique hi
  have hne : ino ≠ dir := by
    rintro rfl
    exact hnd hd
  obtain ⟨n, hle, hn⟩ := h.dirs.tree.compact dir hd
  have hfn : f < n := hn.lt_iff.2 (by rw [hs]; exact hl.1)
  obtain ⟨k₁, hdrop, hrun⟩ := ouichefsUnlink_entry hf h hd hs hl.1 hn hle
  have hag := hdrop.agree
  obtain ⟨hu, hc, hbig, -⟩ := h.toCore.dir_block_alone hd
  have hcore₁ : Core k₁.fs chain Z := hag.core (h.toCore.setBlock (fun _ => hu) hc hbig _)
  have hl₁ : k₁.fs.Live ino := (hag.live ino).2 hl
  have hinode₁ : k₁.fs.inode ino = k.fs.inode ino := hdrop.inode hne
  have hdisk₁ : ∀ b ∈ chain, k₁.fs.disk b = k.fs.disk b := by
    intro b hb
    rw [hag.disk, Fs.disk_setBlock, if_neg]
    rintro rfl
    exact h.toCore.dir_notin_chain (Or.inl hd) hb
  have hindex₁ : k.fs.Is ino .big → k₁.fs.indexOf ino = k.fs.indexOf ino := by
    intro hi
    unfold Fs.indexOf
    rw [hinode₁, hag.disk, Fs.disk_setBlock, if_neg (hbig ino hi)]
  have hown₁ : k₁.fs.ownBlocks ino = k.fs.ownBlocks ino := by
    rw [hag.ownBlocks hl]
    unfold Fs.ownBlocks
    rcases hino with hi | hi | hi
    · rw [Fs.inode_setBlock, hi.2]
    · rw [Fs.inode_setBlock, hi.2]
      rfl
    · rw [Fs.inode_setBlock, hi.2]
      unfold Fs.dataBlocks Fs.indexOf
      rw [Fs.inode_setBlock, Fs.disk_setBlock, if_neg (hbig ino hi)]
  -- the storage
  obtain ⟨k₂, hrel, hst⟩ : ∃ k₂, releaseStorage k₁ ino = .ok ((), k₂) ∧
      StorageFreed k₁.fs (cleanInode k₂ ino (k.inode ino).indexBlock
        (decide ((k.inode ino).iBlocks = 0) && !sIsDir (k.inode ino).iMode)).fs chain ino := by
    have hidx : (k.inode ino).indexBlock = (k₁.fs.inode ino).indexBlock := by rw [hinode₁]; rfl
    rcases hino with hi | hi | hi
    · obtain ⟨h1, h2, -⟩ := Inode.kind_fresh.1 hi.2
      have hsmall : (decide ((k.inode ino).iBlocks = 0) && !sIsDir (k.inode ino).iMode) = true := by
        simp [Kernel.inode, h1, h2]
      rw [hsmall]
      exact releaseStorage_fresh_exact hcore₁ ((hag.is ino .fresh).2 hi) _
    · obtain ⟨h1, h2, -⟩ := Inode.kind_small.1 hi.2
      have hsmall : (decide ((k.inode ino).iBlocks = 0) && !sIsDir (k.inode ino).iMode) = true := by
        simp [Kernel.inode, h1, h2]
      rw [hsmall]
      refine releaseStorage_small_exact hdrop.faults hcore₁ ((hag.is ino .small).2 hi)
        (fun b hb => by rw [hdisk₁ b hb]; exact hfree b hb) (fun j h1 h32 hbit => ?_) _
      rw [hinode₁, hdisk₁ _ (h.slices.file ino hi).mem] at hbit
      obtain ⟨i, hi'⟩ := hexact hi j h1 h32 hbit
      rw [hinode₁]
      exact ⟨i, (hag.owns i _ j).2 hi'⟩
    · obtain ⟨h1, h2⟩ := Inode.kind_big.1 hi.2
      have hsmall : (decide ((k.inode ino).iBlocks = 0) && !sIsDir (k.inode ino).iMode) = false := by
        simp [Kernel.inode, h2]
      rw [hsmall, hidx]
      refine releaseStorage_big_exact hdrop.faults hcore₁ ((hag.is ino .big).2 hi) fun i h1 h2 => ?_
      rw [hinode₁] at h1
      rw [hindex₁ hi]
      exact hptrs hi i h1 h2
  rw [hrel] at hrun
  have htouch := releaseStorage_touch ino k₁
  rw [hrel] at htouch
  have hlt : ino < k₂.fs.sbi.nrInodes := by
    have hg : k₂.fs.sbi.nrInodes = k₁.fs.sbi.nrInodes := htouch.geom.nrInodes
    rw [hg]
    exact hl₁.2.1
  have hclear := cleanInode_cleared (k.inode ino).indexBlock
    (decide ((k.inode ino).iBlocks = 0) && !sIsDir (k.inode ino).iMode) hlt
  obtain ⟨k', chain', n', hrun', -, -, hrem⟩ := ouichefsUnlink_spec hf h hd hs hl.1
    fun hc => absurd hc hnd
  rw [hrun] at hrun'
  cases hrun'
  refine ⟨_, hrun, ?_⟩
  generalize cleanInode k₂ ino (k.inode ino).indexBlock _ = k' at hst hclear hrem ⊢
  have hsbi := hdrop.sbi
  have hinode : ∀ i, i ≠ ino → i ≠ dir → k'.fs.inode i = k.fs.inode i := by
    intro i hi hid
    have h2 : k₂.fs.icache i = k₁.fs.icache i := htouch.others i hi
    unfold Fs.inode
    rw [hclear.others i hi, h2, hdrop.icache i hid]
  have hbits : ∀ b, k'.fs.sbi.bfreeBitmap b = true ↔
      k.fs.sbi.bfreeBitmap b = true ∨ b ∈ k.fs.ownBlocks ino := by
    intro b
    rw [hst.bits, hown₁, hsbi]
  refine ⟨hbits, ?_, ?_, ?_, ?_, ?_, ?_, ?_, ?_, fun d hdd hdne => ?_, fun i hi hli hnd' => ?_⟩
  · have hcount := @FreeMap.countBits_union k.fs.sbi.bfreeBitmap k.fs.sbi.nrBlocks _ _
      (fun b hb => h.toCore.ownBlocks_used hl hb) fun b _ => hbits b
    rw [hrem.wf.sb.count, hrem.geom.nrBlocks, h.sb.count, hcount]
  · rw [← hown₁]
    exact hst.zero
  · rw [← hown₁]
    exact hst.links
  · intro b hb hnot j hj
    rw [hst.slices b hb (by rwa [hown₁]) j hj, hdisk₁ b hb, hag.owns]
    exact Iff.rfl
  · rw [hst.used, hinode₁, hsbi]
  · have hi₂ : k₂.fs.sbi.ifreeBitmap = k₁.fs.sbi.ifreeBitmap := htouch.ifree
    rw [hclear.ifree, hi₂, hsbi]
  · have hi₂ : k₂.fs.sbi.nrFreeInodes = k₁.fs.sbi.nrFreeInodes := htouch.nrFreeInodes
    rw [hclear.nrFreeInodes, hi₂, hsbi]
  · intro j
    have hclean := h.dirs.clean dir hd
    rw [hrem.block]
    exact ⟨slotInode_removeSlot hclean hrem.compact hrem.lt hrem.cap j,
      slotName_removeSlot hclean hrem.compact hrem.lt hrem.cap j⟩
  · refine hrem.others d hdd hdne ?_
    rintro rfl
    exact hnd hdd
  · refine hst.untouched h hl hd hag hown₁ hi hli hnd' (hinode i hi ?_)
    rintro rfl
    exact hnd' hd

/-- Two files of one byte in one sliced block. -/
def sharedBlock : List Call :=
  [(Op.create 1 [97] 0o100644).call, (Op.create 1 [98] 0o100644).call, (Op.write 2 0 [7]).call,
    (Op.write 3 0 [8]).call]

/-- The block stays, because the other file is still in it. -/
theorem ouichefsUnlink_exact_sharedBlock : ∃ k chain k', ouichefsUnlink k 1 2 = .ok (0, k') ∧
    k.fs.ownBlocks 2 = ∅ ∧ Unlinked k.fs k'.fs chain 1 2 0 := by
  have hrun : ∃ chain, PlainInv ((emptyImage 8 8).after sharedBlock) chain :=
    emptyImage_after (by decide +kernel)
  obtain ⟨chain, hinv⟩ := hrun
  have hlinked : IsLinked ((emptyImage 8 8).after sharedBlock).fs.next
      ((emptyImage 8 8).after sharedBlock).fs.sbi.sFreeSlicedBlocks [5] := by
    show _ = 5 ∧ 5 ≠ 0 ∧ _ = 0
    decide +kernel
  obtain rfl := hinv.wf.isChain.unique hlinked
  have hsmall : ((emptyImage 8 8).after sharedBlock).fs.Is 2 .small := by decide +kernel
  have hother : ((emptyImage 8 8).after sharedBlock).fs.Is 3 .small := by decide +kernel
  have hbits : ∀ j < 32, 1 ≤ j → (sliceBitmap (((emptyImage 8 8).after sharedBlock).fs.disk
      (((emptyImage 8 8).after sharedBlock).fs.inode 2).getBno)).getLsbD j = false →
      j = 1 ∨ j = 2 := by decide +kernel
  have hexact : ∀ j, 1 ≤ j → j < 32 → (sliceBitmap (((emptyImage 8 8).after sharedBlock).fs.disk
      (((emptyImage 8 8).after sharedBlock).fs.inode 2).getBno)).getLsbD j = false →
      ∃ i, ((emptyImage 8 8).after sharedBlock).fs.OwnsSlice i
        (((emptyImage 8 8).after sharedBlock).fs.inode 2).getBno j := by
    intro j h1 h32 hbit
    rcases hbits j h32 h1 hbit with rfl | rfl
    · exact ⟨2, hsmall, rfl, by decide +kernel, by decide +kernel⟩
    · exact ⟨3, hother, by decide +kernel, by decide +kernel, by decide +kernel⟩
  obtain ⟨k', hcall, heff⟩ := @ouichefsUnlink_exact True ((emptyImage 8 8).after sharedBlock) [5] 1 2
    0 hinv.faults hinv.wf (by decide +kernel) (by decide +kernel) (Or.inr (Or.inl hsmall))
    (by decide +kernel) (fun _ => hexact) (fun hb => by cases hb.kind_unique hsmall)
  exact ⟨(emptyImage 8 8).after sharedBlock, [5], k', hcall, by decide +kernel, heff⟩

end Call

/-! ## A lost slice -/

/-- A write that would move a file of one slice: it lets go of the slice, then `kmalloc` fails. -/
theorem rewriteSmallFile_lets_go {k : Kernel} {ino : Nat} {iocb : Kiocb} {data : List UInt8}
    {k₁ k₂ : Kernel} (hnum : (k.inode ino).numSlices ≠ 0)
    (hbno : ¬((k.inode ino).getBno = 0 ∨ (k.inode ino).getSlice = 0))
    (hmoves : (k.inode ino).numSlices ≠
      divRoundUp (max (iocb.startPos (k.inode ino) + data.length) (k.inode ino).iSize) 128)
    (hpos : iocb.startPos (k.inode ino) ≠ 0)
    (hread : k.sbBread (k.inode ino).getBno = (true, k₁)) (hfs₁ : k₁.fs = k.fs)
    (hmalloc : (k₁.setInode ino (k.inode ino).detached).kmalloc = (false, k₂)) :
    rewriteSmallFile k ino iocb data =
      .ok ((-ENOMEM, iocb), k₂.brelse (k.inode ino).getBno) ∧ k₂.fs = k.fs.detach ino := by
  constructor
  · exact (rewriteSmallFile_exits k ino iocb data).2
      (.noCopy ⟨hnum, hbno, hread, hmoves⟩ hpos hmalloc rfl)
  · have hfs := Kernel.fs_kmalloc (k₁.setInode ino (k.inode ino).detached)
    rw [hmalloc] at hfs
    rw [hfs, Kernel.fs_setInode, hfs₁]
    rfl

/-- Two calls on a file of 3 bytes: a write of 200 bytes at 1 gets no memory, a write of 1 byte at 0
finds the next slice. -/
def firstTry : Kernel :=
  (customWriteIter (threeBytesAnd [.success, .failure 0]) 2 ⟨1, false⟩ (List.replicate 200 7)).kernel

def secondTry : Kernel := (customWriteIter firstTry 2 ⟨0, false⟩ [7]).kernel

theorem firstTry_eq : customWriteIter (threeBytesAnd [.success, .failure 0]) 2 ⟨1, false⟩
      (List.replicate 200 7) = .ok ((-ENOMEM, ⟨1, false⟩), firstTry) ∧ firstTry.faults = [] ∧
    firstTry.fs = (threeBytesAnd [.success, .failure 0]).fs.detach 2 := by
  have hval : (customWriteIter (threeBytesAnd [.success, .failure 0]) 2 ⟨1, false⟩
      (List.replicate 200 7)).value? = some (-ENOMEM, ⟨1, false⟩) := by decide +kernel
  refine ⟨Outcome.eq_ok hval, by decide +kernel, ?_⟩
  have hs : (threeBytesAnd [.success, .failure 0]).fs.Is 2 .small := by decide +kernel
  obtain ⟨k₁, hread, hfs₁, hf₁⟩ := @Kernel.sbBread_answered
    (threeBytesAnd [.success, .failure 0]) ((threeBytesAnd [.success, .failure 0]).inode 2).getBno
    (by decide +kernel) (not_failing_success _)
  have hf : (k₁.setInode 2 ((threeBytesAnd [.success, .failure 0]).inode 2).detached).faults =
      [.failure 0] := hf₁
  obtain ⟨k₂, hmalloc, -⟩ := Kernel.kmalloc_failing (by rw [hf]; exact failing_failure 0 [])
  obtain ⟨hrun, hfs⟩ := @rewriteSmallFile_lets_go _ 2 ⟨1, false⟩ (List.replicate 200 7) _ _
    (by decide +kernel) (by decide +kernel) (by decide +kernel) (by decide +kernel) hread hfs₁
    hmalloc
  unfold firstTry
  rw [customWriteIter_small (Or.inr hs) (by decide +kernel), writeSmallFile,
    if_neg (by decide +kernel), hrun]
  exact hfs

/-- The second write succeeds; the slice of the first is lost. -/
theorem secondTry_wf : secondTry.faults = [] ∧ WF secondTry.fs [5] := by
  obtain ⟨chain, h, -⟩ := threeBytesAnd_inv [.success, .failure 0]
  obtain ⟨-, hf₁, hfs₁⟩ := firstTry_eq
  have hs : (threeBytesAnd [.success, .failure 0]).fs.Is 2 .small := by decide +kernel
  have hcore : Core firstTry.fs chain := hfs₁ ▸ h.toCore.detach hs
  have hfresh : firstTry.fs.Is 2 .fresh := by decide +kernel
  have hplace : firstTry.fs.Unplaced 2 := ⟨hfresh, by decide +kernel⟩
  rcases @writeSmallFile_first _ _ 2 ⟨0, false⟩ [7] _ hf₁ hcore hplace rfl (by decide)
    (by decide) with ⟨k', chain', heq, hl⟩ | ⟨-, hover⟩
  · have hrun : secondTry = k' := by
      unfold secondTry
      rw [customWriteIter_small (Or.inl hfresh) (by decide +kernel), heq]
      rfl
    rw [hrun]
    refine ⟨hl.faults, ?_⟩
    have howners : SameOwners (threeBytesAnd [.success, .failure 0]).fs k'.fs :=
      (Fs.detach_owners hs).trans (hfs₁ ▸ hl.owners)
    have hwf := h.of_small hl.core howners (fun i hi =>
      (Fs.detach_kept _ hi).trans (Fs.detach_owners hs) (hfs₁ ▸ hl.kept i hi)) hl.small
    have hlinked : IsLinked secondTry.fs.next secondTry.fs.sbi.sFreeSlicedBlocks [5] := by
      show _ = 5 ∧ 5 ≠ 0 ∧ _ = 0
      decide +kernel
    rw [hrun] at hlinked
    rwa [hwf.isChain.unique hlinked] at hwf
  · have hval : (writeSmallFile firstTry 2 ⟨0, false⟩ [7]).value? = some (1, ⟨0, false⟩) := by
      decide +kernel
    have hpos := hover.nonpos _ _ (Outcome.eq_ok hval)
    exact absurd hpos (by decide)

/-- The block of a file that is alone in it stays in use: a slice in it was lost. -/
theorem ouichefsUnlink_lostSlice :
    customWriteIter (threeBytesAnd [.success, .failure 0]) 2 ⟨1, false⟩ (List.replicate 200 7) =
      .ok ((-ENOMEM, ⟨1, false⟩), firstTry) ∧
    customWriteIter firstTry 2 ⟨0, false⟩ [7] = .ok ((1, ⟨0, false⟩), secondTry) ∧
    secondTry.faults = [] ∧ WF secondTry.fs [5] ∧ secondTry.fs.Is 1 .dir ∧
    slotInode (secondTry.fs.indexOf 1) 0 = 2 ∧ secondTry.fs.Is 2 .small ∧
    (∀ b ∈ [5], allFree (secondTry.fs.disk b) = false) ∧ secondTry.fs.ownBlocks 2 = {5} ∧
    ∃ k', ouichefsUnlink secondTry 1 2 = .ok (0, k') ∧ k'.fs.sbi.bfreeBitmap 5 = false ∧
      ¬Unlinked secondTry.fs k'.fs [5] 1 2 0 := by
  have hval : (customWriteIter firstTry 2 ⟨0, false⟩ [7]).value? = some (1, ⟨0, false⟩) := by
    decide +kernel
  have hret : (ouichefsUnlink secondTry 1 2).value? = some 0 := by decide +kernel
  have hown : secondTry.fs.ownBlocks 2 = {5} := by decide +kernel
  have hbit : (ouichefsUnlink secondTry 1 2).kernel.fs.sbi.bfreeBitmap 5 = false := by decide +kernel
  refine ⟨firstTry_eq.1, Outcome.eq_ok hval, secondTry_wf.1, secondTry_wf.2, by decide +kernel,
    by decide +kernel, by decide +kernel, by decide +kernel, hown, _, Outcome.eq_ok hret, hbit, ?_⟩
  intro hu
  have hfreed := (hu.bits 5).2 (Or.inr (by rw [hown]; exact Finset.mem_singleton_self 5))
  rw [hbit] at hfreed
  cases hfreed

end Ouichefs
