import Ouichefs.Frame
import Ouichefs.Place

/-!
# Small files and the invariant

The four ways in which writing and deleting a small file changes the state, and that each of them
keeps the invariant: slices are taken and rewritten (`PlaceEff`), the chain grows by one block
(`Fs.growChain`), an inode lets go of its slices (`Fs.detach`), slices that belong to nobody are
freed and emptied blocks leave the chain (`PruneEff`).  Each also comes with what it does to the
leaked slices.
-/

set_option autoImplicit false

namespace Ouichefs

open FreeMap

/-! ## Taking and rewriting slices -/

/-- Slices `s … s + n - 1` of `ob` are taken and rewritten; the rest of the block is unchanged. -/
structure Rewritten (ob nb : Block) (s n : Nat) : Prop where
  bitmap : ∀ j < 32, (sliceBitmap nb).getLsbD j =
    ((sliceBitmap ob).getLsbD j && !decide (s ≤ j ∧ j < s + n))
  next : sliceNext nb = sliceNext ob
  outside : ∀ i, 8 ≤ i → ¬(s * 128 ≤ i ∧ i < (s + n) * 128) → nb.get i = ob.get i

/-- File `ino` gets the slices `s … s + n - 1` of block `b` and the size `size`. -/
structure PlaceEff (fs fs' : Fs) (ino b s n size : Nat) : Prop where
  sbi : ∃ u, fs'.sbi = { fs.sbi with nrUsedSlices := u }
  disk : ∀ c, c ≠ b → fs'.disk c = fs.disk c
  block : Rewritten (fs.disk b) (fs'.disk b) s n
  tail : ∀ i, size ≤ i → i < n * 128 → (fs'.disk b).get (s * 128 + i) = 0
  inode : ∃ ci, fs'.icache = Function.update fs.icache ino (some ci) ∧
    ci.iMode = (fs.inode ino).iMode ∧ ci.iBlocks = (fs.inode ino).iBlocks ∧
    ci.indexBlock = 32 * b + s ∧ ci.numSlices = n ∧ ci.iSize = size

/-- What makes a placement admissible. -/
structure PlaceOk (fs : Fs) (chain : List Nat) (ino b s n size : Nat) : Prop where
  live : fs.Live ino
  file : sIsDir (fs.inode ino).iMode = false
  unblocked : (fs.inode ino).iBlocks = 0
  mem : b ∈ chain
  pos : 1 ≤ s
  fits : s + n ≤ 32
  some : n ≠ 0
  size : n = divRoundUp size 128
  avail : ∀ i, i ≠ ino → ∀ j, s ≤ j → j < s + n → ¬fs.OwnsSlice i b j

section Place

variable {fs fs' : Fs} {chain : List Nat} {ino b s n size : Nat}

theorem PlaceEff.inode_other (he : PlaceEff fs fs' ino b s n size) {i : Nat} (hi : i ≠ ino) :
    fs'.inode i = fs.inode i := by
  obtain ⟨ci, hic, -⟩ := he.inode
  simp [Fs.inode, hic, Function.update_of_ne hi]

theorem PlaceEff.inode_self (he : PlaceEff fs fs' ino b s n size)
    (hok : PlaceOk fs chain ino b s n size) :
    (fs'.inode ino).kind = .small ∧ (fs'.inode ino).getBno = b ∧ (fs'.inode ino).getSlice = s ∧
      (fs'.inode ino).numSlices = n ∧ (fs'.inode ino).iSize = size := by
  obtain ⟨ci, hic, hm, hb, hidx, hn, hs⟩ := he.inode
  have hself : fs'.inode ino = ci := by simp [Fs.inode, hic]
  have hfits := hok.fits
  have hpos := hok.pos
  have hsome := hok.some
  rw [hself]
  refine ⟨?_, ?_, ?_, hn, hs⟩
  · rw [Inode.kind_small, hm, hb, hidx, hn]
    exact ⟨hok.file, hok.unblocked, by omega, hsome⟩
  · exact (Inode.decode hidx (by omega)).1
  · exact (Inode.decode hidx (by omega)).2

theorem PlaceEff.owners (he : PlaceEff fs fs' ino b s n size) (hok : PlaceOk fs chain ino b s n size)
    (h : Core fs chain) : SameOwners fs fs' := by
  obtain ⟨ci, hic, hm, hb, hidx, hn, hs⟩ := he.inode
  obtain ⟨u, hsbi⟩ := he.sbi
  have hsl : ∀ ci' : Inode, sIsDir ci'.iMode = false → ci'.iBlocks = 0 → ci'.Sliced := by
    intro ci' h1 h2
    refine ⟨fun hk => ?_, fun hk => ?_⟩
    · rw [Inode.kind_dir, h1] at hk; cases hk
    · exact (Inode.kind_big.1 hk).2 h2
  refine .of_set (by rw [hsbi]; exact ⟨rfl, rfl, rfl, rfl, rfl⟩) (by rw [hsbi]) hic hm
    (hsl _ hok.file hok.unblocked) (hsl _ (hm ▸ hok.file) (hb.trans hok.unblocked)) ?_
  intro d hd
  refine he.disk _ ?_
  rintro rfl
  exact h.dir_notin_chain hd hok.mem

/-- Files other than the one placed keep their slices. -/
theorem PlaceEff.owns_other (he : PlaceEff fs fs' ino b s n size)
    (hok : PlaceOk fs chain ino b s n size) (h : Core fs chain) {i c j : Nat} (hi : i ≠ ino) :
    fs'.OwnsSlice i c j ↔ fs.OwnsSlice i c j := by
  unfold Fs.OwnsSlice Fs.Is
  rw [(he.owners hok h).live, he.inode_other hi]

theorem PlaceEff.owns_self (he : PlaceEff fs fs' ino b s n size)
    (hok : PlaceOk fs chain ino b s n size) (h : Core fs chain) {c j : Nat} :
    fs'.OwnsSlice ino c j ↔ c = b ∧ s ≤ j ∧ j < s + n := by
  obtain ⟨hk, hb, hs, hn, -⟩ := he.inode_self hok
  unfold Fs.OwnsSlice Fs.Is
  rw [(he.owners hok h).live, hk, hb, hs, hn]
  simp [hok.live, eq_comm]

theorem PlaceEff.slices (he : PlaceEff fs fs' ino b s n size)
    (hok : PlaceOk fs chain ino b s n size) (h : Core fs chain) : SliceInv fs' chain := by
  have hpos := hok.pos
  have hown := he.owners hok h
  refine ⟨?_, ?_, ?_, ?_⟩
  · intro c hc
    by_cases hcb : c = b
    · subst hcb
      rw [he.block.bitmap 0 (by decide), h.slices.header c hc]
      rfl
    · rw [he.disk c hcb]
      exact h.slices.header c hc
  · intro c hc i h1 h2 hbit
    by_cases hcb : c = b
    · subst hcb
      rw [he.block.bitmap _ (by omega)] at hbit
      simp only [Bool.and_eq_true, Bool.not_eq_true', decide_eq_false_iff_not] at hbit
      rw [he.block.outside i (by omega) (by omega)]
      exact h.slices.freeZero c hc i h1 h2 hbit.1
    · rw [he.disk c hcb] at hbit ⊢
      exact h.slices.freeZero c hc i h1 h2 hbit
  · intro i hi
    by_cases hin : i = ino
    · subst hin
      obtain ⟨-, hb, hs, hn, hsize⟩ := he.inode_self hok
      refine ⟨?_, ?_, ?_, ?_, ?_, ?_⟩
      · rw [hb]; exact hok.mem
      · rw [hs]; exact hpos
      · rw [hs, hn]; exact hok.fits
      · rw [hn, hsize]; exact hok.size
      · rw [hb, hs, hn]
        intro j h1 h2
        have := hok.fits
        rw [he.block.bitmap j (by omega)]
        simp [h1, h2]
      · rw [hb, hs, hn, hsize]
        exact he.tail
    · have hi' : fs.Is i .small := ⟨(hown.live i).1 hi.1, by rw [← he.inode_other hin]; exact hi.2⟩
      have hok' := h.slices.file i hi'
      have hdis := hok.avail i hin
      refine hok'.frame (.of_eq (he.inode_other hin)) ?_ ?_
      · intro j h1 h2 hj
        by_cases hcb : (fs.inode i).getBno = b
        · have := hok'.fits
          rw [hcb] at hj ⊢
          rw [he.block.bitmap j (by omega), hj]
          rfl
        · rw [he.disk _ hcb]; exact hj
      · intro x h1 h2
        by_cases hcb : (fs.inode i).getBno = b
        · have := hok'.slice_pos
          rw [hcb]
          refine he.block.outside x (by omega) ?_
          -- byte `x` lies in slice `x / 128`, which belongs to file `i`
          rintro ⟨h3, h4⟩
          exact hdis (x / 128) (by omega) (by omega) ⟨hi', hcb, by omega, by omega⟩
        · rw [he.disk _ hcb]
  · intro i i' c j h1 h2
    by_cases hi : i = ino <;> by_cases hi' : i' = ino
    · rw [hi, hi']
    · subst hi
      rw [he.owns_self hok h] at h1
      rw [he.owns_other hok h hi', h1.1] at h2
      exact absurd h2 (hok.avail i' hi' j h1.2.1 h1.2.2)
    · subst hi'
      rw [he.owns_self hok h] at h2
      rw [he.owns_other hok h hi, h2.1] at h1
      exact absurd h1 (hok.avail i hi j h2.2.1 h2.2.2)
    · rw [he.owns_other hok h hi] at h1
      rw [he.owns_other hok h hi'] at h2
      exact h.slices.disjoint h1 h2

/-- **Placing a file keeps the invariant.** -/
theorem Core.place (h : Core fs chain) (hok : PlaceOk fs chain ino b s n size)
    (he : PlaceEff fs fs' ino b s n size) : Core fs' chain := by
  have hown := he.owners hok h
  obtain ⟨u, hsbi⟩ := he.sbi
  have hused : fs'.Used = fs.Used := by unfold Fs.Used; rw [hsbi]
  have hbu := h.chain_used hok.mem
  refine ⟨hown.sb h.sb (by rw [hsbi]; exact h.sb.count), ?_, h.nodup, ?_, ?_, ?_,
    he.slices hok h, hown.inodes h.inodes⟩
  · rw [hsbi]
    refine h.isChain.congr fun c _ => ?_
    unfold Fs.next
    by_cases hcb : c = b
    · rw [hcb, he.block.next]
    · rw [he.disk c hcb]
  · rw [hsbi]; exact h.sliced
  · rw [hused]
    exact h.owned.mono (fun r a => (hown.refers chain r a).1) fun _ _ _ => id
  · rw [hsbi]
    intro _ c hc hfree
    rw [he.disk c, h.zero trivial c hc hfree]
    rintro rfl
    rw [hbu.2] at hfree
    cases hfree

theorem TightBut.place {lost : Nat → Prop} {leak : Nat → Nat → Prop}
    (ht : TightBut fs chain lost leak) (h : Core fs chain)
    (hok : PlaceOk fs chain ino b s n size) (he : PlaceEff fs fs' ino b s n size)
    (hold : ∀ c j, fs.OwnsSlice ino c j → c = b ∧ s ≤ j ∧ j < s + n) :
    TightBut fs' chain lost leak := by
  have hown := he.owners hok h
  obtain ⟨u, hsbi⟩ := he.sbi
  have hused : fs'.Used = fs.Used := by unfold Fs.Used; rw [hsbi]
  refine ⟨?_, ?_, ?_, ?_, ?_⟩
  · intro a ha
    rw [hused] at ha
    obtain ⟨r, hr⟩ := ht.covered a ha
    exact ⟨r, (hown.refers chain r a).2 hr⟩
  · intro c hc j h1 h2 hbit
    by_cases hin : c = b ∧ s ≤ j ∧ j < s + n
    · exact Or.inr ⟨ino, (he.owns_self hok h).2 hin⟩
    · have hbit' : (sliceBitmap (fs.disk c)).getLsbD j = false := by
        by_cases hcb : c = b
        · subst hcb
          rw [he.block.bitmap j h2] at hbit
          simpa [show ¬(s ≤ j ∧ j < s + n) from fun h => hin ⟨rfl, h⟩] using hbit
        · rw [he.disk c hcb] at hbit; exact hbit
      rcases ht.bits c hc j h1 h2 hbit' with hl | ⟨i, hi⟩
      · exact Or.inl hl
      · have hne : i ≠ ino := by
          rintro rfl
          exact hin (hold c j hi)
        exact Or.inr ⟨i, (he.owns_other hok h hne).2 hi⟩
  · intro i hi
    by_cases hin : i = ino
    · subst hin
      have := (he.inode_self hok).1.symm.trans hi.2
      cases this
    · exact ht.noStray i ⟨(hown.live i).1 hi.1, by rw [← he.inode_other hin]; exact hi.2⟩
  · intro i hi
    have hb := (hown.is_big i).1 hi
    rw [(hown.view i (by simp [hi])).iBlocks, hown.index i (Or.inr hb)]
    exact ht.ptrs i hb
  · intro i hi
    exact (hown.view i (by simp [hi])).blocksExact.2 (ht.blocks i ((hown.is_big i).1 hi))

end Place

/-! ## Growing the chain -/

theorem Core.chainOk {fs : Fs} {chain : List Nat} (h : Core fs chain) : ChainOk fs chain :=
  ⟨⟨h.bit0, h.sb.blocks_le trivial, h.sb.count⟩, h.isChain, h.nodup, fun _ hb => h.chain_used hb, h.sliced⟩

section Grow

variable {fs : Fs} {chain : List Nat} {b : Nat}

theorem Fs.growChain_icache (last : Option Nat) : (fs.growChain last b).icache = fs.icache := by
  cases last <;> rfl

theorem Fs.growChain_sbi (last : Option Nat) : (fs.growChain last b).sbi = { fs.sbi with
    bfreeBitmap := Function.update fs.sbi.bfreeBitmap b false,
    nrFreeBlocks := fs.sbi.nrFreeBlocks - 1,
    nrSlicedBlocks := add32 fs.sbi.nrSlicedBlocks 1,
    sFreeSlicedBlocks := if last = none then b else fs.sbi.sFreeSlicedBlocks } := by
  cases last <;> simp [Fs.growChain]

theorem Fs.growChain_disk (last : Option Nat) (hb : last ≠ some b) (c : Nat) :
    (fs.growChain last b).disk c =
      if c = b then setSliceBitmap (fs.disk b) bitmapAllFree
      else if some c = last then setSliceNext (fs.disk c) b
      else fs.disk c := by
  cases last with
  | none => simp [Fs.growChain]
  | some p =>
      have hpb : p ≠ b := fun h => hb (by rw [h])
      by_cases hc : c = p
      · subst hc; simp [Fs.growChain, hpb]
      · simp [Fs.growChain, hc]

/-- The parts of `Core.grow` that the free block alone decides. -/
theorem Core.growChain_disk (h : Core fs chain) (hfree : fs.sbi.bfreeBitmap b = true) (c : Nat) :
    (fs.growChain chain.getLast? b).disk c =
      if c = b then setSliceBitmap (fs.disk b) bitmapAllFree
      else if some c = chain.getLast? then setSliceNext (fs.disk c) b
      else fs.disk c := by
  refine Fs.growChain_disk _ (fun hl => ?_) c
  rw [(h.chain_used (List.mem_of_getLast? hl)).2] at hfree
  cases hfree

theorem Core.grow_same (h : Core fs chain) (hfree : fs.sbi.bfreeBitmap b = true) {c : Nat}
    (hc : c ≠ b) : SameButNext (fs.disk c) ((fs.growChain chain.getLast? b).disk c) := by
  rw [h.growChain_disk hfree, if_neg hc]
  split
  · exact sameButNext_setSliceNext _ _
  · exact .refl _

theorem Core.grow_owners (h : Core fs chain) (hfree : fs.sbi.bfreeBitmap b = true) :
    SameOwners fs (fs.growChain chain.getLast? b) := by
  refine .of_icache (by rw [Fs.growChain_sbi]; exact ⟨rfl, rfl, rfl, rfl, rfl⟩)
    (by rw [Fs.growChain_sbi]) (Fs.growChain_icache _) fun d hd => ?_
  rw [h.growChain_disk hfree, if_neg, if_neg]
  · intro hl
    exact h.dir_notin_chain hd (List.mem_of_getLast? hl.symm)
  · rintro rfl
    exact h.free_unref hfree (.index d) ⟨hd, rfl⟩

theorem Core.grow_isChain (h : Core fs chain) (hb : 0 < b) (hlt : b < fs.sbi.nrBlocks)
    (hfree : fs.sbi.bfreeBitmap b = true) :
    IsLinked (fs.growChain chain.getLast? b).next
      (fs.growChain chain.getLast? b).sbi.sFreeSlicedBlocks (chain ++ [b]) := by
  have hnb : b ∉ chain := fun hm => by
    rw [(h.chain_used hm).2] at hfree
    cases hfree
  have hble := h.sb.blocks_le trivial
  -- a free block is zero-filled, so its next word already ends the chain
  have hend : (fs.growChain chain.getLast? b).next b = 0 := by
    unfold Fs.next
    rw [h.growChain_disk hfree, if_pos rfl, sliceNext_setSliceBitmap, h.zero trivial b hlt hfree,
      sliceNext_zero]
  have hch : IsLinked _ _ chain := h.isChain
  rw [Fs.growChain_sbi]
  rcases List.eq_nil_or_concat chain with rfl | ⟨l, p, rfl⟩
  · exact ⟨rfl, by omega, hend⟩
  · rw [List.concat_eq_append] at *
    have hlast : (l ++ [p]).getLast? = some p := by simp
    rw [hlast] at hend ⊢
    simp only [reduceCtorEq, if_false]
    have hnd := List.nodup_append.1 h.nodup
    have hpl : p ∉ l := fun hm => hnd.2.2 p hm p (by simp) rfl
    have hdisk := h.growChain_disk hfree
    rw [hlast] at hdisk
    have hseg : IsSeg (fs.growChain (some p) b).next fs.sbi.sFreeSlicedBlocks (l ++ [p]) b := by
      refine hch.relink hpl ?_ ?_
      · intro c hc
        unfold Fs.next
        rw [hdisk, if_neg, if_neg]
        · rintro ⟨⟩; exact hpl hc
        · rintro rfl; exact hnb (by simp [hc])
      · unfold Fs.next
        rw [hdisk, if_neg, if_pos rfl, sliceNext_setSliceNext _ (by omega)]
        rintro rfl; exact hnb (by simp)
    exact IsSeg.append_iff.2 ⟨b, hseg, rfl, by omega, hend⟩

theorem Core.grow_slices (h : Core fs chain) (hlt : b < fs.sbi.nrBlocks)
    (hfree : fs.sbi.bfreeBitmap b = true) :
    SliceInv (fs.growChain chain.getLast? b) (chain ++ [b]) := by
  have hnb : ∀ c ∈ chain, c ≠ b := by
    rintro c hm rfl
    rw [(h.chain_used hm).2] at hfree
    cases hfree
  have hinode : (fs.growChain chain.getLast? b).inode = fs.inode := by
    funext i; simp [Fs.inode, Fs.growChain_icache]
  have hown := h.grow_owners hfree
  have hold : SliceInv (fs.growChain chain.getLast? b) chain :=
    h.slices.frame (fun c hc => h.grow_same hfree (hnb c hc)) fun i hi =>
      ⟨⟨(hown.live i).1 hi.1, hinode ▸ hi.2⟩, .of_eq (by rw [hinode])⟩
  have hnew : (fs.growChain chain.getLast? b).disk b = setSliceBitmap Page.zero bitmapAllFree := by
    rw [h.growChain_disk hfree, if_pos rfl, h.zero trivial b hlt hfree]
  refine ⟨?_, ?_, fun i hi => ?_, hold.disjoint⟩
  · intro c hc
    rcases List.mem_append.1 hc with hc | hc
    · exact hold.header c hc
    · rw [List.mem_singleton.1 hc, hnew, sliceBitmap_setSliceBitmap]
      decide
  · intro c hc i h1 h2 hbit
    rcases List.mem_append.1 hc with hc | hc
    · exact hold.freeZero c hc i h1 h2 hbit
    · rw [List.mem_singleton.1 hc, hnew, get_setSliceBitmap _ _ (by omega), Page.get_zero]
  · exact { hold.file i hi with mem := List.mem_append_left _ (hold.file i hi).mem }

/-- **Appending a free block to the chain keeps the invariant.** -/
theorem Core.grow (h : Core fs chain) (hb : 0 < b) (hlt : b < fs.sbi.nrBlocks)
    (hfree : fs.sbi.bfreeBitmap b = true) :
    Core (fs.growChain chain.getLast? b) (chain ++ [b]) := by
  have hown := h.grow_owners hfree
  have hnb : b ∉ chain := fun hm => by
    rw [(h.chain_used hm).2] at hfree
    cases hfree
  have hsbi := @Fs.growChain_sbi fs b chain.getLast?
  have hlen := h.length_le
  have hble := h.sb.blocks_le trivial
  refine ⟨hown.sb h.sb ?_, h.grow_isChain hb hlt hfree, ?_, ?_, ?_, ?_,
    h.grow_slices hlt hfree, hown.inodes h.inodes⟩
  · rw [hsbi]
    have := countBits_clear hlt hfree
    have := h.sb.count
    simp only
    omega
  · rw [List.nodup_append]
    refine ⟨h.nodup, by simp, ?_⟩
    rintro c hc d hd rfl
    exact hnb (by rwa [List.mem_singleton.1 hd] at hc)
  · rw [hsbi]
    simp only [List.length_append, List.length_singleton]
    rw [h.sliced, add32_of_lt (by omega)]
  · refine h.owned.link (s := .sliced b) (c := b) (h.free_unref hfree) ?_ ?_ ?_
    · intro r a hr
      cases r with
      | sliced c =>
          obtain ⟨rfl, hc⟩ := hr
          rcases List.mem_append.1 hc with hc | hc
          · exact Or.inl ⟨rfl, hc⟩
          · rw [List.mem_singleton.1 hc]; exact Or.inr ⟨rfl, rfl⟩
      | header c => exact Or.inl ((hown.refers chain (.header c) a).1 hr)
      | index i => exact Or.inl ((hown.refers chain (.index i) a).1 hr)
      | data i j => exact Or.inl ((hown.refers chain (.data i j) a).1 hr)
    · rintro a ⟨h1, h2⟩
      refine ⟨hown.geom.nrBlocks ▸ h1, ?_⟩
      rw [hsbi]
      simp only [Function.update_apply]
      split
      · rfl
      · exact h2
    · refine ⟨hown.geom.nrBlocks ▸ hlt, ?_⟩
      rw [hsbi]
      simp
  · intro _ c hc hcf
    rw [hsbi] at hc hcf
    simp only [Function.update_apply] at hcf
    split at hcf
    · cases hcf
    · rename_i hcb
      rw [h.growChain_disk hfree, if_neg hcb, if_neg, h.zero trivial c hc hcf]
      intro hl
      rw [(h.chain_used (List.mem_of_getLast? hl.symm)).2] at hcf
      cases hcf

theorem TightBut.grow {lost : Nat → Prop} {leak : Nat → Nat → Prop}
    (ht : TightBut fs chain lost leak) (h : Core fs chain) (hfree : fs.sbi.bfreeBitmap b = true) :
    TightBut (fs.growChain chain.getLast? b) (chain ++ [b]) lost leak := by
  have hown := h.grow_owners hfree
  have hnb : ∀ c ∈ chain, c ≠ b := by
    rintro c hm rfl
    rw [(h.chain_used hm).2] at hfree
    cases hfree
  have hinode : (fs.growChain chain.getLast? b).inode = fs.inode := by
    funext i; simp [Fs.inode, Fs.growChain_icache]
  refine ⟨?_, ?_, ?_, ?_, ?_⟩
  · rintro a ⟨⟨h1, h2⟩, hl⟩
    rw [Fs.growChain_sbi] at h1 h2
    simp only [Function.update_apply] at h2
    split at h2
    · rename_i hab
      exact ⟨.sliced b, hab, by simp⟩
    · obtain ⟨r, hr⟩ := ht.covered a ⟨⟨h1, h2⟩, hl⟩
      refine ⟨r, ?_⟩
      cases r with
      | sliced c => exact ⟨hr.1, List.mem_append_left _ hr.2⟩
      | header c => exact (hown.refers chain (.header c) a).2 hr
      | index i => exact (hown.refers chain (.index i) a).2 hr
      | data i j => exact (hown.refers chain (.data i j) a).2 hr
  · intro c hc j h1 h2 hbit
    rcases List.mem_append.1 hc with hc | hc
    · rw [(h.grow_same hfree (hnb c hc)).sliceBitmap] at hbit
      rcases ht.bits c hc j h1 h2 hbit with hl | ⟨i, hi⟩
      · exact Or.inl hl
      · refine Or.inr ⟨i, ?_⟩
        unfold Fs.OwnsSlice Fs.Is at hi ⊢
        rw [hown.live, hinode]
        exact hi
    · rw [List.mem_singleton.1 hc, h.growChain_disk hfree, if_pos rfl,
        sliceBitmap_setSliceBitmap, bitmapAllFree_getLsbD h2] at hbit
      simp only [decide_eq_false_iff_not] at hbit
      omega
  · intro i hi
    exact ht.noStray i ⟨(hown.live i).1 hi.1, hinode ▸ hi.2⟩
  · intro i hi
    have hb := (hown.is_big i).1 hi
    rw [hinode, hown.index i (Or.inr hb)]
    exact ht.ptrs i hb
  · intro i hi
    exact (hown.view i (by simp [hi])).blocksExact.2 (ht.blocks i ((hown.is_big i).1 hi))

end Grow

end Ouichefs
