import Ouichefs.SmallInv

/-!
# Releasing slices and the invariant

An inode lets go of its slices (`Fs.detach`), the slices are freed and zeroed (`Fs.markFree`),
emptied blocks leave the chain (`PruneEff`).  Between the first and the second step the slices
are leaked; `TightBut` keeps track of that.
-/

set_option autoImplicit false

namespace Ouichefs

open FreeMap

variable {Z : Prop}

/-- `ino` in the never-written state. -/
def Fs.detach (fs : Fs) (ino : Nat) : Fs := fs.setInode ino (fs.inode ino).detached

section Detach

variable {fs : Fs} {chain : List Nat} {ino : Nat}

theorem Fs.detach_kind (hs : fs.Is ino .small) : ((fs.detach ino).inode ino).kind = .fresh := by
  obtain ⟨h1, h2, -⟩ := Inode.kind_small.1 hs.2
  rw [Inode.kind_fresh]
  simpa [Fs.detach, Inode.detached] using ⟨h1, h2⟩

theorem Fs.detach_other {i : Nat} (hi : i ≠ ino) : (fs.detach ino).inode i = fs.inode i := by
  simp [Fs.detach, hi]

theorem Fs.detach_owners (hs : fs.Is ino .small) : SameOwners fs (fs.detach ino) := by
  refine .of_set ⟨rfl, rfl, rfl, rfl, rfl⟩ rfl rfl rfl
    ⟨?_, ?_⟩ ⟨?_, ?_⟩ fun _ _ => rfl
  · rw [hs.2]; decide
  · rw [hs.2]; decide
  all_goals
    have := Fs.detach_kind hs
    simp only [Fs.detach, Fs.inode_setInode, if_true] at this
    rw [this]
    decide

/-- The small files that remain. -/
theorem Fs.detach_small (hs : fs.Is ino .small) (i : Nat) :
    (fs.detach ino).Is i .small ↔ i ≠ ino ∧ fs.Is i .small := by
  by_cases hi : i = ino
  · subst hi
    simp only [ne_eq, not_true_eq_false, false_and, iff_false]
    intro h
    have := (Fs.detach_kind hs).symm.trans h.2
    cases this
  · unfold Fs.Is
    rw [(Fs.detach_owners hs).live, Fs.detach_other hi]
    simp [hi]

theorem Fs.detach_owns (hs : fs.Is ino .small) (i b j : Nat) :
    (fs.detach ino).OwnsSlice i b j ↔ i ≠ ino ∧ fs.OwnsSlice i b j := by
  unfold Fs.OwnsSlice
  rw [Fs.detach_small hs]
  by_cases hi : i = ino
  · simp [hi]
  · rw [Fs.detach_other hi]
    simp [hi]

/-- **A small file may let go of its slices.** -/
theorem Core.detach (h : Core fs chain Z) (hs : fs.Is ino .small) : Core (fs.detach ino) chain Z := by
  have hown := Fs.detach_owners hs
  refine ⟨hown.sb h.sb h.sb.count, h.isChain, h.nodup, h.sliced, ?_, h.zero, ?_,
    hown.inodes h.inodes⟩
  · exact h.owned.mono (fun r a => (hown.refers chain r a).1) fun _ _ _ => id
  · refine h.slices.frame (fun _ _ => .refl _) fun i hi => ?_
    obtain ⟨hne, hi'⟩ := (Fs.detach_small hs i).1 hi
    exact ⟨hi', .of_eq (Fs.detach_other hne)⟩

theorem TightBut.detach {lost : Nat → Prop} {leak : Nat → Nat → Prop}
    (ht : TightBut fs chain lost leak)
    (hs : fs.Is ino .small) :
    TightBut (fs.detach ino) chain lost fun b j => leak b j ∨ fs.OwnsSlice ino b j := by
  have hown := Fs.detach_owners hs
  refine ⟨?_, ?_, ?_, ?_, ?_⟩
  · intro a ha
    obtain ⟨r, hr⟩ := ht.covered a ha
    exact ⟨r, (hown.refers chain r a).2 hr⟩
  · intro b hb j h1 h2 hbit
    rcases ht.bits b hb j h1 h2 hbit with hl | ⟨i, hi⟩
    · exact Or.inl (Or.inl hl)
    · by_cases hin : i = ino
      · exact Or.inl (Or.inr (hin ▸ hi))
      · exact Or.inr ⟨i, (Fs.detach_owns hs i b j).2 ⟨hin, hi⟩⟩
  · intro i hi
    by_cases hin : i = ino
    · subst hin
      have := (Fs.detach_kind hs).symm.trans hi.2
      cases this
    · exact ht.noStray i ⟨(hown.live i).1 hi.1, by rw [← Fs.detach_other hin]; exact hi.2⟩
  · intro i hi
    have hb := (hown.is_big i).1 hi
    rw [(hown.view i (by simp [hi])).iBlocks, hown.index i (Or.inr hb)]
    exact ht.ptrs i hb
  · intro i hi
    exact (hown.view i (by simp [hi])).blocksExact.2 (ht.blocks i ((hown.is_big i).1 hi))

end Detach

/-! ## Freeing slices -/

section MarkFree

variable {fs : Fs} {chain : List Nat} {bno s n : Nat}

theorem Core.markFree_owners (h : Core fs chain Z) (hb : bno ∈ chain) :
    SameOwners fs (fs.markFree bno s n) := by
  refine .of_icache ⟨rfl, rfl, rfl, rfl, rfl⟩ rfl rfl fun d hd => ?_
  rw [Fs.markFree_disk, if_neg]
  rintro rfl
  exact h.dir_notin_chain hd hb

theorem SliceInv.markFree (h : SliceInv fs chain) (hs : 1 ≤ s) (hn : s + n ≤ 32)
    (hfree : ∀ i j, s ≤ j → j < s + n → ¬fs.OwnsSlice i bno j) :
    SliceInv (fs.markFree bno s n) chain := by
  refine ⟨?_, ?_, ?_, h.disjoint⟩
  · intro c hc
    rw [Fs.markFree_disk]
    split
    · rename_i hcb
      rw [getLsbD_freeSlices _ hs hn (by decide), ← hcb, h.header c hc]
      simp only [Bool.false_or, decide_eq_false_iff_not]
      omega
    · exact h.header c hc
  · intro c hc i h1 h2 hbit
    rw [Fs.markFree_disk] at hbit ⊢
    split at hbit
    · rename_i hcb
      rw [if_pos hcb, get_freeSlices _ (by omega)]
      split
      · rfl
      · rename_i hout
        rw [getLsbD_freeSlices _ hs hn (by omega)] at hbit
        have hout' : ¬(s ≤ i / 128 ∧ i / 128 < s + n) := by omega
        simp only [hout', decide_false, Bool.or_false] at hbit
        rw [← hcb] at hbit ⊢
        exact h.freeZero c hc i h1 h2 hbit
    · rename_i hcb
      rw [if_neg hcb]
      exact h.freeZero c hc i h1 h2 hbit
  · intro i hi
    have hi' : fs.Is i .small := hi
    have hok := h.file i hi'
    have hpos := hok.slice_pos
    have hfits := hok.fits
    refine hok.frame (.refl _) ?_ ?_
    · intro j h1 h2 hj
      rw [Fs.markFree_disk]
      split
      · rename_i hcb
        rw [getLsbD_freeSlices _ hs hn (by omega), ← hcb, hj]
        simp only [Bool.false_or, decide_eq_false_iff_not]
        rintro ⟨h3, h4⟩
        exact hfree i j h3 h4 ⟨hi', hcb, h1, h2⟩
      · exact hj
    · intro x h1 h2
      rw [Fs.markFree_disk]
      split
      · rename_i hcb
        rw [get_freeSlices _ (by omega), ← hcb, if_neg]
        rintro ⟨h3, h4⟩
        exact hfree i (x / 128) (by omega) (by omega) ⟨hi', hcb, by omega, by omega⟩
      · rfl

theorem Core.markFree (h : Core fs chain Z) (hb : bno ∈ chain) (hs : 1 ≤ s) (hn : s + n ≤ 32)
    (hfree : ∀ i j, s ≤ j → j < s + n → ¬fs.OwnsSlice i bno j) :
    Core (fs.markFree bno s n) chain Z := by
  have hown := h.markFree_owners (s := s) (n := n) hb
  refine ⟨hown.sb h.sb h.sb.count, ?_, h.nodup, h.sliced, ?_, ?_,
    h.slices.markFree hs hn hfree, hown.inodes h.inodes⟩
  · refine h.isChain.congr fun c _ => ?_
    unfold Fs.next
    rw [Fs.markFree_disk]
    split
    · rename_i hcb
      rw [sliceNext_freeSlices _ hs, hcb]
    · rfl
  · exact h.owned.mono (fun r a => (hown.refers chain r a).1) fun _ _ _ => id
  · intro hZ c hc hcf
    rw [Fs.markFree_disk, if_neg, h.zero hZ c hc hcf]
    rintro rfl
    have hu := (h.chain_used hb).2
    rw [show fs.sbi.bfreeBitmap c = true from hcf] at hu
    cases hu

theorem TightBut.markFree {lost : Nat → Prop} {leak : Nat → Nat → Prop}
    (ht : TightBut fs chain lost leak)
    (h : Core fs chain Z) (hb : bno ∈ chain) (hs : 1 ≤ s) (hn : s + n ≤ 32)
    (hleak : ∀ c j, leak c j → c = bno ∧ s ≤ j ∧ j < s + n) :
    TightBut (fs.markFree bno s n) chain lost fun _ _ => False := by
  have hown := h.markFree_owners (s := s) (n := n) hb
  refine ⟨?_, ?_, fun i hi => ht.noStray i hi, ?_, ?_⟩
  · intro a ha
    obtain ⟨r, hr⟩ := ht.covered a ha
    exact ⟨r, (hown.refers chain r a).2 hr⟩
  · intro c hc j h1 h2 hbit
    rw [Fs.markFree_disk] at hbit
    have hbit' : (sliceBitmap (fs.disk c)).getLsbD j = false ∧ ¬(c = bno ∧ s ≤ j ∧ j < s + n) := by
      split at hbit
      · rename_i hcb
        rw [getLsbD_freeSlices _ hs hn h2, ← hcb] at hbit
        simp only [Bool.or_eq_false_iff, decide_eq_false_iff_not] at hbit
        exact ⟨hbit.1, fun hin => hbit.2 hin.2⟩
      · rename_i hcb
        exact ⟨hbit, fun hin => hcb hin.1⟩
    rcases ht.bits c hc j h1 h2 hbit'.1 with hl | hi
    · exact absurd (hleak c j hl) hbit'.2
    · exact Or.inr hi
  · intro i hi
    have hb' := (hown.is_big i).1 hi
    rw [hown.index i (Or.inr hb')]
    exact ht.ptrs i hb'
  · intro i hi
    exact (hown.view i (by simp [hi])).blocksExact.2 (ht.blocks i ((hown.is_big i).1 hi))

end MarkFree

/-! ## Pruning the chain -/

section Prune

variable {fs fs' : Fs} {chain : List Nat}

/-- A block that holds a small file is not all free. -/
theorem SliceInv.not_allFree (h : SliceInv fs chain) {ino : Nat} (hs : fs.Is ino .small) :
    allFree (fs.disk (fs.inode ino).getBno) = false := by
  have hok := h.file ino hs
  have hpos := hok.slice_pos
  have hfits := hok.fits
  have hn := (Inode.kind_small.1 hs.2).2.2.2
  have htaken := hok.taken (fs.inode ino).getSlice (Nat.le_refl _) (by omega)
  unfold allFree
  rw [decide_eq_false_iff_not]
  intro hall
  rw [hall, bitmapAllFree_getLsbD (by omega)] at htaken
  simp only [decide_eq_false_iff_not] at htaken
  omega

theorem SliceInv.keepUsed (h : SliceInv fs chain) : SliceInv fs (keepUsed fs chain) := by
  have hsub : ∀ c ∈ Ouichefs.keepUsed fs chain, c ∈ chain := fun c hc => (List.mem_filter.1 hc).1
  refine ⟨fun c hc => h.header c (hsub c hc), fun c hc => h.freeZero c (hsub c hc), fun i hi => ?_,
    h.disjoint⟩
  refine { h.file i hi with mem := List.mem_filter.2 ⟨(h.file i hi).mem, ?_⟩ }
  simp [h.not_allFree hi]

theorem PruneEff.inode (he : PruneEff fs fs' [] chain) : fs'.inode = fs.inode := by
  funext i
  simp [Fs.inode, he.icache]

theorem PruneEff.owners (he : PruneEff fs fs' [] chain) (h : Core fs chain Z) :
    SameOwners fs fs' := by
  refine .of_icache (by rw [he.sbi]; exact ⟨rfl, rfl, rfl, rfl, rfl⟩) (by rw [he.sbi]) he.icache
    fun d hd => he.outside _ (by simp) (h.dir_notin_chain hd)

theorem PruneEff.used_iff (he : PruneEff fs fs' [] chain) (a : Nat) :
    fs'.Used a ↔ fs.Used a ∧ ¬(a ∈ chain ∧ allFree (fs.disk a) = true) := by
  unfold Fs.Used
  have hb := he.bfree a
  rw [he.sbi] at hb ⊢
  simp only at hb ⊢
  rw [Bool.eq_false_iff, Bool.eq_false_iff, ne_eq, ne_eq, hb]
  tauto

/-- The references that remain after pruning. -/
theorem PruneEff.refers (he : PruneEff fs fs' [] chain) (h : Core fs chain Z) (r : Ref) (a : Nat) :
    Refers fs' (keepUsed fs chain) r a ↔
      Refers fs chain r a ∧ ¬(a ∈ chain ∧ allFree (fs.disk a) = true) := by
  have hown := he.owners h
  have hrest : ∀ r, Refers fs chain r a → (∀ c, r ≠ .sliced c) → a ∉ chain := by
    intro r hr hne hm
    exact h.ne_of_refs hr (s := .sliced a) ⟨rfl, hm⟩ (hne a) rfl
  cases r with
  | sliced c =>
      constructor
      · rintro ⟨rfl, hm⟩
        obtain ⟨hm, hk⟩ := List.mem_filter.1 hm
        refine ⟨⟨rfl, hm⟩, fun hall => ?_⟩
        rw [hall.2] at hk
        cases hk
      · rintro ⟨⟨rfl, hm⟩, hall⟩
        refine ⟨rfl, List.mem_filter.2 ⟨hm, ?_⟩⟩
        by_contra hk
        exact hall ⟨hm, by simpa using hk⟩
  | header c =>
      rw [← hown.refers chain]
      exact ⟨fun hr => ⟨hr, fun ha =>
        hrest _ ((hown.refers chain (.header c) a).1 hr) (by simp) ha.1⟩, fun hr => hr.1⟩
  | index i =>
      rw [← hown.refers chain]
      exact ⟨fun hr => ⟨hr, fun ha =>
        hrest _ ((hown.refers chain (.index i) a).1 hr) (by simp) ha.1⟩, fun hr => hr.1⟩
  | data i j =>
      rw [← hown.refers chain]
      exact ⟨fun hr => ⟨hr, fun ha =>
        hrest _ ((hown.refers chain (.data i j) a).1 hr) (by simp) ha.1⟩, fun hr => hr.1⟩

/-- **Removing the emptied blocks keeps the invariant.** -/
theorem Core.prune (h : Core fs chain Z) (he : PruneEff fs fs' [] chain) :
    Core fs' (keepUsed fs chain) Z := by
  have hown := he.owners h
  refine ⟨hown.sb h.sb (he.count h.sb.count), he.isChain, h.nodup.filter _, he.sliced, ?_, ?_, ?_,
    hown.inodes h.inodes⟩
  · refine h.owned.mono (fun r a hr => ((he.refers h r a).1 hr).1) fun r a hr hu => ?_
    exact (he.used_iff a).2 ⟨hu, ((he.refers h r a).1 hr).2⟩
  · intro hZ c hc hcf
    rw [he.sbi] at hc
    rcases (he.bfree c).1 hcf with hf | ⟨hm, hall⟩
    · rw [he.outside c (by simp) fun hm => ?_, h.zero hZ c hc hf]
      rw [(h.chain_used hm).2] at hf
      cases hf
    · exact he.gone c hm hall
  · refine h.slices.keepUsed.frame (fun c hc => ?_) fun i hi => ?_
    · obtain ⟨hm, hk⟩ := List.mem_filter.1 hc
      exact he.restSame c hm (by simpa using hk)
    · exact ⟨⟨(hown.live i).1 hi.1, he.inode ▸ hi.2⟩, .of_eq (by rw [he.inode])⟩

theorem TightBut.prune {lost : Nat → Prop} {leak : Nat → Nat → Prop}
    (ht : TightBut fs chain lost leak) (h : Core fs chain Z) (he : PruneEff fs fs' [] chain) :
    TightBut fs' (keepUsed fs chain) lost leak := by
  have hown := he.owners h
  refine ⟨?_, ?_, ?_, ?_, ?_⟩
  · intro a ha
    obtain ⟨hu, hall⟩ := (he.used_iff a).1 ha.1
    obtain ⟨r, hr⟩ := ht.covered a ⟨hu, ha.2⟩
    exact ⟨r, (he.refers h r a).2 ⟨hr, hall⟩⟩
  · intro c hc j h1 h2 hbit
    obtain ⟨hm, hk⟩ := List.mem_filter.1 hc
    rw [(he.restSame c hm (by simpa using hk)).sliceBitmap] at hbit
    rcases ht.bits c hm j h1 h2 hbit with hl | ⟨i, hi⟩
    · exact Or.inl hl
    · refine Or.inr ⟨i, ?_⟩
      unfold Fs.OwnsSlice Fs.Is at hi ⊢
      rw [hown.live, he.inode]
      exact hi
  · intro i hi
    exact ht.noStray i ⟨(hown.live i).1 hi.1, he.inode ▸ hi.2⟩
  · intro i hi
    have hb := (hown.is_big i).1 hi
    rw [he.inode, hown.index i (Or.inr hb)]
    exact ht.ptrs i hb
  · intro i hi
    exact (hown.view i (by simp [hi])).blocksExact.2 (ht.blocks i ((hown.is_big i).1 hi))

theorem Core.pruneInv (h : Core fs chain Z) : PruneInv fs [] chain fs.sbi.sFreeSlicedBlocks := by
  have hlen := h.length_le
  have hble := h.sb.blocks_lt
  have hsl := h.sliced
  have hfree := countBits_le fs.sbi.bfreeBitmap fs.sbi.nrBlocks
  rw [← h.sb.count] at hfree
  exact ⟨rfl, h.isChain, h.nodup, fun b hb => h.chain_used hb, by omega, h.sliced, by omega,
    by omega⟩

end Prune

end Ouichefs
