import Ouichefs.SmallWrite

/-!
# Storage that no failure reaches

A call about one file must not write to the others, also when the calls it makes fail.  A `Shelter`
is what it must leave alone: whole blocks and single slices.  `Guard` is what protects them while
the call runs, whatever the buffer cache, the allocator and the user's buffer answer: their blocks
are not free, and the chain of sliced blocks does not lead to them.

* `deleteSlice_guard`, `placeSlices_guard`: the functions that walk the chain.
-/

set_option autoImplicit false

namespace Ouichefs

open FreeMap

/-- Blocks and slices that a call must leave alone, with their content in `base`.  Block 0 is not
one of them: a failed allocation marks it free. -/
structure Shelter where
  base : Fs
  block : Nat → Prop
  slice : Nat → Nat → Prop
  block_zero : ¬block 0
  slice_zero : ∀ j, ¬slice 0 j

/-- The content of the shelter is as it was. -/
structure Unharmed (p : Shelter) (fs : Fs) : Prop where
  block : ∀ b, p.block b → fs.disk b = p.base.disk b
  slice : ∀ b j, p.slice b j → ∀ o < 128,
    (fs.disk b).get (128 * j + o) = (p.base.disk b).get (128 * j + o)

/-- Nothing that allocates, frees or follows the chain of blocks `C` reaches the shelter. -/
structure Guard (p : Shelter) (C : Nat → Prop) (fs : Fs) : Prop extends Unharmed p fs where
  used : ∀ b, p.block b → fs.sbi.bfreeBitmap b = false
  taken : ∀ b j, p.slice b j → fs.sbi.bfreeBitmap b = false ∧ 1 ≤ j ∧ j < 32 ∧
    (sliceBitmap (fs.disk b)).getLsbD j = false
  apart : ∀ b, C b → ¬p.block b
  head : fs.sbi.sFreeSlicedBlocks = 0 ∨ C fs.sbi.sFreeSlicedBlocks
  next : ∀ b, C b → fs.next b = 0 ∨ C (fs.next b)

/-- Free blocks are empty and in no chain: they may be handed out. -/
structure Fertile (C : Nat → Prop) (fs : Fs) : Prop where
  lt : fs.sbi.nrBlocks < 4294967296
  bit0 : fs.sbi.bfreeBitmap 0 = false
  zero : ∀ b < fs.sbi.nrBlocks, fs.sbi.bfreeBitmap b = true → fs.disk b = Page.zero
  used : ∀ b, C b → fs.sbi.bfreeBitmap b = false

/-- Block `b` may hold anything. -/
structure Shelter.Clear (p : Shelter) (C : Nat → Prop) (b : Nat) : Prop where
  block : ¬p.block b
  slice : ∀ j, ¬p.slice b j
  chain : ¬C b

/-- Slices `s … s + n - 1` of the chain block `b` may hold anything. -/
structure Shelter.Slices (p : Shelter) (C : Nat → Prop) (b s n : Nat) : Prop where
  chain : C b
  pos : 1 ≤ s
  fits : s + n ≤ 32
  free : ∀ j, s ≤ j → j < s + n → ¬p.slice b j

/-- What is left when a call returns, or when it does not. -/
def Guards {α : Type} (p : Shelter) (post : α → Kernel → Prop) : Outcome α → Prop
  | .ok (a, k) => post a k
  | .error (_, k) => Unharmed p k.fs

theorem Guards.mono {α : Type} {p : Shelter} {post post' : α → Kernel → Prop} {run : Outcome α}
    (h : Guards p post run) (himp : ∀ a k, post a k → post' a k) : Guards p post' run := by
  cases run with
  | error e => exact h
  | ok r => exact himp r.1 r.2 h

/-! ## Elementary steps -/

section Steps

variable {p : Shelter} {C : Nat → Prop} {fs fs' : Fs} {b : Nat} {nb : Block}

/-- The chain gets another first block. -/
theorem Guard.setHead (h : Guard p C fs) (hd : fs'.disk = fs.disk)
    (hf : fs'.sbi.bfreeBitmap = fs.sbi.bfreeBitmap)
    (hh : fs'.sbi.sFreeSlicedBlocks = 0 ∨ C fs'.sbi.sFreeSlicedBlocks) : Guard p C fs' := by
  have hn : fs'.next = fs.next := by
    unfold Fs.next
    rw [hd]
  refine ⟨⟨?_, ?_⟩, ?_, ?_, h.apart, hh, ?_⟩
  · rw [hd]
    exact h.block
  · rw [hd]
    exact h.slice
  · rw [hf]
    exact h.used
  · rw [hf, hd]
    exact h.taken
  · rw [hn]
    exact h.next

theorem Guard.congr (h : Guard p C fs) (hd : fs'.disk = fs.disk)
    (hf : fs'.sbi.bfreeBitmap = fs.sbi.bfreeBitmap)
    (hh : fs'.sbi.sFreeSlicedBlocks = fs.sbi.sFreeSlicedBlocks) : Guard p C fs' :=
  h.setHead hd hf (by rw [hh]; exact h.head)

theorem Guard.setSbi {s : SbInfo} (h : Guard p C fs) (hf : s.bfreeBitmap = fs.sbi.bfreeBitmap)
    (hh : s.sFreeSlicedBlocks = 0 ∨ C s.sFreeSlicedBlocks) : Guard p C (fs.setSbi s) :=
  h.setHead rfl hf hh

theorem Fertile.congr (h : Fertile C fs) (hd : fs'.disk = fs.disk)
    (hf : fs'.sbi.bfreeBitmap = fs.sbi.bfreeBitmap) (hn : fs'.sbi.nrBlocks = fs.sbi.nrBlocks) :
    Fertile C fs' := by
  refine ⟨?_, ?_, ?_, ?_⟩
  · rw [hn]
    exact h.lt
  · rw [hf]
    exact h.bit0
  · rw [hf, hd, hn]
    exact h.zero
  · rw [hf]
    exact h.used

theorem Fertile.setSbi {s : SbInfo} (h : Fertile C fs) (hf : s.bfreeBitmap = fs.sbi.bfreeBitmap)
    (hn : s.nrBlocks = fs.sbi.nrBlocks) : Fertile C (fs.setSbi s) := h.congr rfl hf hn

theorem Guard.setInode (h : Guard p C fs) (ino : Nat) (ci : Inode) :
    Guard p C (fs.setInode ino ci) := h.congr rfl rfl rfl

theorem Fertile.setInode (h : Fertile C fs) (ino : Nat) (ci : Inode) :
    Fertile C (fs.setInode ino ci) := h.congr rfl rfl rfl

/-- **A block outside the shelter is written.** -/
theorem Guard.setBlock (h : Guard p C fs) (hb : ¬p.block b)
    (hs : ∀ j, p.slice b j → (sliceBitmap nb).getLsbD j = false ∧
      ∀ o < 128, nb.get (128 * j + o) = (fs.disk b).get (128 * j + o))
    (hn : C b → sliceNext nb = 0 ∨ C (sliceNext nb)) : Guard p C (fs.setBlock b nb) := by
  refine ⟨⟨fun c hc => ?_, fun c j hc o ho => ?_⟩, h.used, fun c j hc => ?_, h.apart, h.head,
    fun c hc => ?_⟩
  · rw [Fs.disk_setBlock, if_neg]
    · exact h.block c hc
    · rintro rfl
      exact hb hc
  · rw [Fs.disk_setBlock]
    split
    · rename_i hcb
      subst hcb
      rw [(hs j hc).2 o ho]
      exact h.slice c j hc o ho
    · exact h.slice c j hc o ho
  · obtain ⟨h1, h2, h3, h4⟩ := h.taken c j hc
    refine ⟨h1, h2, h3, ?_⟩
    rw [Fs.disk_setBlock]
    split
    · rename_i hcb
      subst hcb
      exact (hs j hc).1
    · exact h4
  · unfold Fs.next
    rw [Fs.disk_setBlock]
    split
    · rename_i hcb
      subst hcb
      exact hn hc
    · exact h.next c hc

theorem Guard.setClear (h : Guard p C fs) (hb : p.Clear C b) (nb : Block) :
    Guard p C (fs.setBlock b nb) :=
  h.setBlock hb.block (fun j hj => absurd hj (hb.slice j)) fun hc => absurd hc hb.chain

theorem Fertile.setBlock (h : Fertile C fs) (hb : fs.sbi.bfreeBitmap b = false) (nb : Block) :
    Fertile C (fs.setBlock b nb) := by
  refine ⟨h.lt, h.bit0, fun c hlt hc => ?_, h.used⟩
  rw [Fs.disk_setBlock, if_neg, h.zero c hlt hc]
  rintro rfl
  rw [Fs.sbi_setBlock, hb] at hc
  cases hc

/-- The link of a chain block is changed. -/
theorem Guard.setNext (h : Guard p C fs) (hb : C b) {v : Nat} (hv : v = 0 ∨ C v)
    (hlt : v < 4294967296) : Guard p C (fs.setBlock b (setSliceNext (fs.disk b) v)) := by
  refine h.setBlock (h.apart b hb) (fun j hj => ⟨?_, fun o _ => ?_⟩) fun _ => ?_
  · rw [sliceBitmap_setSliceNext]
    exact (h.taken b j hj).2.2.2
  · have hj := (h.taken b j hj).2.1
    exact get_setSliceNext _ _ (by omega)
  · rw [sliceNext_setSliceNext _ hlt]
    exact hv

/-- A block outside the shelter is freed. -/
theorem Guard.putBlock {k : Kernel} (h : Guard p C k.fs) (hb : ¬p.block b)
    (hs : ∀ j, ¬p.slice b j) : Guard p C (k.putBlock b).fs := by
  have hbit : ∀ c, c ≠ b →
      (k.putBlock b).fs.sbi.bfreeBitmap c = k.fs.sbi.bfreeBitmap c := by
    intro c hc
    unfold Kernel.putBlock SbInfo.putBlock putFreeBit
    split
    · rfl
    · rename_i heq
      split at heq
      · cases heq
      · cases heq
        exact Function.update_of_ne hc _ _
  have hhead : (k.putBlock b).fs.sbi.sFreeSlicedBlocks = k.fs.sbi.sFreeSlicedBlocks := by
    unfold Kernel.putBlock SbInfo.putBlock
    split <;> rfl
  refine ⟨⟨h.block, h.slice⟩, fun c hc => ?_, fun c j hc => ?_, h.apart, ?_, h.next⟩
  · rw [hbit c]
    · exact h.used c hc
    · rintro rfl
      exact hb hc
  · rw [hbit c]
    · exact h.taken c j hc
    · rintro rfl
      exact hs j hc
  · rw [hhead]
    exact h.head

/-- The chain gets longer. -/
theorem Guard.grow (h : Guard p C fs) (hb : ¬p.block b) (hn : fs.next b = 0) :
    Guard p (fun c => C c ∨ c = b) fs := by
  refine ⟨h.toUnharmed, h.used, h.taken, ?_, h.head.imp_right Or.inl, ?_⟩
  · rintro c (hc | rfl)
    · exact h.apart c hc
    · exact hb
  · rintro c (hc | rfl)
    · exact (h.next c hc).imp_right Or.inl
    · exact Or.inl hn

theorem Fertile.grow (h : Fertile C fs) (hb : fs.sbi.bfreeBitmap b = false) :
    Fertile (fun c => C c ∨ c = b) fs := by
  refine ⟨h.lt, h.bit0, h.zero, ?_⟩
  rintro c (hc | rfl)
  · exact h.used c hc
  · exact hb

/-- A block that was just allocated. -/
structure Fresh (p : Shelter) (C : Nat → Prop) (fs : Fs) (b : Nat) : Prop extends
    p.Clear C b where
  pos : 0 < b
  lt : b < fs.sbi.nrBlocks
  zero : fs.disk b = Page.zero
  used : fs.sbi.bfreeBitmap b = false

/-- **Allocation never reaches the shelter.** -/
theorem Guard.getFreeBlock {k : Kernel} (h : Guard p C k.fs) (hf : Fertile C k.fs) :
    Guard p C k.getFreeBlock.2.fs ∧ Fertile C k.getFreeBlock.2.fs ∧
      (k.getFreeBlock.1 ≠ 0 → Fresh p C k.getFreeBlock.2.fs k.getFreeBlock.1) := by
  rcases Kernel.getFreeBlock_bits hf.bit0 with ⟨b, hpos, hlt, hfree, -, heq⟩ | ⟨-, heq⟩
  · rw [heq]
    have hbit : ∀ c, k.fs.sbi.bfreeBitmap c = false →
        Function.update k.fs.sbi.bfreeBitmap b false c = false := by
      intro c hc
      rw [Function.update_apply]
      split
      · rfl
      · exact hc
    have hne : ∀ c, k.fs.sbi.bfreeBitmap c = false → c ≠ b := by
      rintro c hc rfl
      rw [hfree] at hc
      cases hc
    refine ⟨⟨⟨h.block, h.slice⟩, fun c hc => hbit c (h.used c hc), fun c j hc => ?_, h.apart,
      h.head, h.next⟩,
      ⟨hf.lt, hbit 0 hf.bit0, fun c hc hcf => ?_, fun c hc => hbit c (hf.used c hc)⟩,
      fun _ => ⟨⟨?_, fun j hj => ?_, ?_⟩, hpos, hlt, hf.zero b hlt hfree, ?_⟩⟩
    · obtain ⟨h1, h2⟩ := h.taken c j hc
      exact ⟨hbit c h1, h2⟩
    · refine hf.zero c hc ?_
      have hcf' : Function.update k.fs.sbi.bfreeBitmap b false c = true := hcf
      rw [Function.update_apply] at hcf'
      split at hcf'
      · cases hcf'
      · exact hcf'
    · exact fun hb => hne b (h.used b hb) rfl
    · exact hne b (h.taken b j hj).1 rfl
    · exact fun hb => hne b (hf.used b hb) rfl
    · show Function.update k.fs.sbi.bfreeBitmap b false b = false
      rw [Function.update_self]
  · rw [heq]
    exact ⟨h, hf, fun hc => absurd rfl hc⟩

/-- Reading a block changes nothing. -/
theorem Kernel.sbBread_same {k k' : Kernel} {ok : Bool} (h : k.sbBread b = (ok, k')) :
    k'.fs = k.fs := by
  have hfs := k.fs_sbBread b
  rw [h] at hfs
  exact hfs

end Steps

/-! ## Deletion of slices -/

section Delete

variable {p : Shelter} {C : Nat → Prop} {k : Kernel}

/-- A block without used slices holds no part of the shelter. -/
theorem Guard.not_slice {fs : Fs} {b : Nat} (h : Guard p C fs)
    (hb : sliceBitmap (fs.disk b) = bitmapAllFree) (j : Nat) : ¬p.slice b j := by
  intro hj
  obtain ⟨-, h1, h32, hbit⟩ := h.taken b j hj
  rw [hb, bitmapAllFree_getLsbD h32] at hbit
  simp at hbit
  omega

theorem Guard.unlinkBlock {b : Nat} {prev : Option Nat} (h : Guard p C k.fs) (hb : C b)
    (hs : ∀ j, ¬p.slice b j) (hprev : ∀ q, prev = some q → C q) :
    Guard p C (unlinkBlock k b prev).fs := by
  have hnext : sliceNext (k.fs.disk b) = 0 ∨ C (sliceNext (k.fs.disk b)) := h.next b hb
  have hzero : ∀ k₁ : Kernel, Guard p C k₁.fs →
      Guard p C ((k₁.setBlock b Page.zero).putBlock b).fs := fun k₁ h₁ =>
    Guard.putBlock (h₁.setBlock (h.apart b hb) (fun j hj => absurd hj (hs j))
      fun _ => Or.inl sliceNext_zero) (h.apart b hb) hs
  unfold Ouichefs.unlinkBlock
  refine hzero _ ?_
  cases prev with
  | none =>
      exact (h.setSbi (s := { k.fs.sbi with sFreeSlicedBlocks := sliceNext (k.fs.disk b) })
        rfl hnext).congr rfl rfl rfl
  | some q => exact (h.setNext (hprev q rfl) hnext (sliceNext_lt _)).congr rfl rfl rfl

/-- The loop over the chain, with any answers. -/
theorem pruneChain_guard : ∀ (fuel : Nat) (k : Kernel) (cur : Nat) (prev : Option Nat),
    Guard p C k.fs → (cur = 0 ∨ C cur) → (∀ q, prev = some q → C q) →
    Guards p (fun _ k' => Guard p C k'.fs) (pruneChain fuel k cur prev) := by
  intro fuel
  induction fuel with
  | zero =>
      intro k cur prev h _ _
      cases cur with
      | zero =>
          simp only [pruneChain_zero, Guards, brelsePrev_fs]
          exact h
      | succ cur => exact h.toUnharmed
  | succ fuel ih =>
      intro k cur prev h hcur hprev
      cases cur with
      | zero =>
          simp only [pruneChain_zero, Guards, brelsePrev_fs]
          exact h
      | succ cur =>
          have hc : C (cur + 1) := hcur.resolve_left (Nat.succ_ne_zero _)
          unfold pruneChain
          generalize hread : k.sbBread (cur + 1) = a
          obtain ⟨ok, k₁⟩ := a
          have hfs := Kernel.sbBread_same hread
          have h₁ : Guard p C k₁.fs := by rwa [hfs]
          have hnext : sliceNext (k₁.fs.disk (cur + 1)) = 0 ∨
              C (sliceNext (k₁.fs.disk (cur + 1))) := h₁.next _ hc
          cases ok with
          | false =>
              simp only [Guards, brelsePrev_fs]
              exact h₁
          | true =>
              simp only
              split
              · rename_i hall
                exact ih (Ouichefs.unlinkBlock k₁ (cur + 1) prev) _ _
                  (h₁.unlinkBlock hc (h₁.not_slice hall) hprev) hnext hprev
              · refine ih _ _ _ (by rwa [brelsePrev_fs]) ?_ ?_
                · exact hnext
                · rintro q ⟨⟩
                  exact hc

/-- **`delete_slice` frees its own slices and whole blocks without used slices.** -/
theorem deleteSlice_guard {bno s n : Nat} (h : Guard p C k.fs)
    (hs : bno = 0 ∨ p.Slices C bno s n) :
    Guards p (fun _ k' => Guard p C k'.fs) (deleteSlice k bno s n) := by
  cases (deleteSlice_exits k bno s n).1 rfl with
  | nothing _ eq =>
      rw [eq]
      exact h
  | unread h0 hn hread eq =>
      rw [eq]
      rwa [← Kernel.sbBread_same hread] at h
  | @walked k₁ h0 hn hread eq =>
      rw [eq]
      rw [← Kernel.sbBread_same hread] at h
      have hs := hs.resolve_left h0
      have hpos := hs.pos
      have hfits := hs.fits
      have h₂ : Guard p C (k₁.fs.setBlock bno (freeSlices (k₁.fs.disk bno) s n)) := by
        refine h.setBlock (h.apart bno hs.chain) (fun j hj => ?_) fun _ => ?_
        · obtain ⟨-, h1, h32, hbit⟩ := h.taken bno j hj
          have hout : ¬(s ≤ j ∧ j < s + n) := fun hc => hs.free j hc.1 hc.2 hj
          refine ⟨?_, fun o ho => ?_⟩
          · rw [getLsbD_freeSlices _ hpos hfits h32, hbit, decide_eq_false hout]
            rfl
          · rw [get_freeSlices _ (by omega), if_neg (by omega)]
        · rw [sliceNext_freeSlices _ hpos]
          exact h.next bno hs.chain
      have h₃ := h₂.setSbi (s := { k₁.fs.sbi with
        nrUsedSlices := sub32 k₁.fs.sbi.nrUsedSlices n }) rfl h₂.head
      exact pruneChain_guard _ _ _ none h₃ h₃.head fun q hq => by cases hq

end Delete

/-! ## The search for slices -/

section Search

variable {p : Shelter} {C : Nat → Prop} {k : Kernel}

/-- A new sliced block, or nothing. -/
theorem allocateAndInitSliceBlock_guard (h : Guard p C k.fs) (hf : Fertile C k.fs) :
    ∃ r k', allocateAndInitSliceBlock k = (r, k') ∧ Guard p C k'.fs ∧
      (0 < r → ∃ b : Nat, r = b ∧ b < 4294967296 ∧ ¬p.block b ∧ ¬C b ∧ k'.fs.next b = 0 ∧
        k'.fs.sbi.bfreeBitmap b = false ∧ Fertile C k'.fs) := by
  have hgetBlock := h.getFreeBlock hf
  have hclear : ∀ b k₁, k.getFreeBlock = (b, k₁) → ¬p.block b ∧ ∀ j, ¬p.slice b j := by
    intro b k₁ hget
    rw [hget] at hgetBlock
    by_cases hb : b = 0
    · rw [hb]
      exact ⟨p.block_zero, p.slice_zero⟩
    · exact ⟨(hgetBlock.2.2 hb).block, (hgetBlock.2.2 hb).slice⟩
  cases (allocateAndInitSliceBlock_exits k).1 rfl with
  | noBlock hget hb eq =>
      rw [hget] at hgetBlock
      obtain ⟨hblock, hslice⟩ := hclear _ _ hget
      exact ⟨_, _, eq, hgetBlock.1.putBlock hblock hslice, fun hc => absurd hc (by decide)⟩
  | unread hget hb hread eq =>
      rw [hget, ← Kernel.sbBread_same hread] at hgetBlock
      obtain ⟨hblock, hslice⟩ := hclear _ _ hget
      exact ⟨_, _, eq, hgetBlock.1.putBlock hblock hslice, fun hc => absurd hc (by decide)⟩
  | @initialised b k₁ k₂ hget hb hread eq =>
      have hfs := Kernel.sbBread_same hread
      rw [hget] at hgetBlock
      obtain ⟨h₁, hf₁, hfresh⟩ := hgetBlock
      have hnew := hfresh fun hc => hb (Or.inl hc)
      have h₂ : Guard p C k₂.fs := by rwa [hfs]
      have h₃ := h₂.setClear hnew.toClear (setSliceBitmap (k₂.fs.disk b) bitmapAllFree)
      refine ⟨_, _, eq, h₃.congr rfl rfl rfl, fun _ => ⟨b, rfl, by omega, hnew.block, hnew.chain,
        ?_, ?_, ?_⟩⟩
      · show sliceNext ((k₂.fs.setBlock b _).disk b) = 0
        rw [Fs.disk_setBlock, if_pos rfl, sliceNext_setSliceBitmap, hfs, hnew.zero, sliceNext_zero]
      · show k₂.fs.sbi.bfreeBitmap b = false
        rw [hfs]
        exact hnew.used
      · have hf₂ : Fertile C k₂.fs := by rwa [hfs]
        exact (hf₂.setBlock (by rw [hfs]; exact hnew.used) _).congr rfl rfl rfl

/-- Slices found in a chain block. -/
theorem getConsequitiveFreeSlices_guard {cur size : Nat} (ino : Nat) (h2 : size ≤ 3968)
    (h : Guard p C k.fs) (hc : C cur) :
    ∃ s k', getConsequitiveFreeSlices k cur ino size = (s, k') ∧ Guard p C k'.fs ∧
      (s = 0 → k' = k) ∧ (s ≠ 0 → p.Slices C cur s (divRoundUp size 128)) := by
  rcases getConsequitiveFreeSlices_cases k cur ino h2 with ⟨s, hs, heq⟩ | ⟨-, heq⟩
  · have hpos := hs.pos
    have hfits := hs.fits
    refine ⟨s, _, heq, ?_, fun hc => absurd hc (by omega), fun _ => ⟨hc, hpos, hfits, ?_⟩⟩
    · refine Guard.setInode ?_ ino _
      refine h.setBlock (h.apart cur hc) (fun j hj => ?_) fun _ => ?_
      · obtain ⟨-, h1, h32, hbit⟩ := h.taken cur j hj
        refine ⟨?_, fun o _ => get_setSliceBitmap _ _ (by omega)⟩
        rw [sliceBitmap_setSliceBitmap, BitVec.getLsbD_and, hbit, Bool.false_and]
      · rw [sliceNext_setSliceBitmap]
        exact h.next cur hc
    · intro j h1 h2 hj
      obtain ⟨-, -, h32, hbit⟩ := h.taken cur j hj
      have := hs.run j h1 h2
      rw [hbit] at this
      cases this
  · exact ⟨0, k, heq, h, fun _ => rfl, fun hc => absurd rfl hc⟩

/-- What a search leaves: a chain that may have grown, and slices outside the shelter. -/
structure Placed (p : Shelter) (n : Nat) (r : Except Int (Nat × Nat)) (k' : Kernel)
    (C C' : Nat → Prop) : Prop where
  guard : Guard p C' k'.fs
  grown : ∀ b, C b → C' b
  slices : ∀ b s, r = .ok (b, s) → p.Slices C' b s n

/-- The search loop, with any answers. -/
theorem searchChain_guard {size : Nat} (ino : Nat) (h2 : size ≤ 3968) :
    ∀ (fuel : Nat) (k : Kernel) (C : Nat → Prop) (cur : Nat), Guard p C k.fs → Fertile C k.fs →
      C cur → Guards p (fun r k' => ∃ C', Placed p (divRoundUp size 128) r k' C C')
        (searchChain fuel k ino size cur) := by
  intro fuel
  induction fuel with
  | zero => exact fun k C cur h _ _ => h.toUnharmed
  | succ fuel ih =>
      intro k C cur h hf hc
      obtain ⟨s, k₁, hslice, h₁, hsame, hslices⟩ := getConsequitiveFreeSlices_guard ino h2 h hc
      cases (searchChain_exits fuel k ino size cur).1 rfl with
      | found hs hget eq =>
          rw [hslice] at hget
          cases hget
          rw [eq]
          refine ⟨C, h₁, fun _ => id, fun b s' hr => ?_⟩
          cases hr
          exact hslices hs
      | noBlock hget hnext halloc hret eq =>
          rw [hslice] at hget
          cases hget
          obtain rfl := hsame rfl
          obtain ⟨r, k₂, hal, h₂, -⟩ := allocateAndInitSliceBlock_guard h hf
          rw [hal] at halloc
          cases halloc
          rw [eq]
          exact ⟨C, h₂, fun _ => id, fun b s' hr => by cases hr⟩
      | @linked _ k₂ _ hget hnext halloc hret eq =>
          rw [hslice] at hget
          cases hget
          obtain rfl := hsame rfl
          obtain ⟨r, _, hal, h₂, hnew⟩ := allocateAndInitSliceBlock_guard h hf
          rw [hal] at halloc
          cases halloc
          rw [eq]
          obtain ⟨b, rfl, hlt, hb, -, hzero, hused, hf₂⟩ := hnew hret
          have hg := h₂.grow hb hzero
          have hf' := hf₂.grow hused
          rw [Int.toNat_natCast]
          have hrec := ih ((k₂.setBlock cur (setSliceNext (k₂.fs.disk cur) b)).brelse cur) _ b
            (hg.setNext (Or.inl hc) (Or.inr (Or.inr rfl)) hlt)
            (hf'.setBlock (hf'.used cur (Or.inl hc)) _) (Or.inr rfl)
          refine hrec.mono fun r k' hp => ?_
          obtain ⟨C', hp⟩ := hp
          exact ⟨C', hp.guard, fun c hc => hp.grown c (Or.inl hc), hp.slices⟩
      | unread hget hnext hread eq =>
          rw [hslice] at hget
          cases hget
          rw [← Kernel.sbBread_same hread] at h₁
          rw [eq]
          exact ⟨C, h₁, fun _ => id, fun b s' hr => by cases hr⟩
      | @next k₁ k₂ hget hnext hread eq =>
          rw [hslice] at hget
          cases hget
          obtain rfl := hsame rfl
          have hcn := (h.next cur hc).resolve_left hnext
          rw [← Kernel.sbBread_same hread] at h hf
          rw [eq]
          exact ih (k₂.brelse cur) C _ h hf hcn

/-- Slices for a file that has none. -/
theorem placeSlices_guard {size : Nat} (ino : Nat) (h2 : size ≤ 3968) (h : Guard p C k.fs)
    (hf : Fertile C k.fs) :
    Guards p (fun r k' => ∃ C', Placed p (divRoundUp size 128) r k' C C')
      (placeSlices k ino size) := by
  cases (placeSlices_exits k ino size).1 rfl with
  | noBlock hhead halloc hret eq =>
      obtain ⟨r, k₁, hal, h₁, -⟩ := allocateAndInitSliceBlock_guard h hf
      rw [hal] at halloc
      cases halloc
      rw [eq]
      exact ⟨C, h₁, fun _ => id, fun b s hr => by cases hr⟩
  | badHead hhead halloc hret hneg eq =>
      obtain ⟨r, k₁, hal, h₁, -⟩ := allocateAndInitSliceBlock_guard h hf
      rw [hal] at halloc
      cases halloc
      rw [eq]
      exact ⟨h₁.block, h₁.slice⟩
  | @newHead k₁ _ hhead halloc hret hpos eq =>
      obtain ⟨r, _, hal, h₁, hnew⟩ := allocateAndInitSliceBlock_guard h hf
      rw [hal] at halloc
      cases halloc
      rw [eq]
      obtain ⟨b, rfl, hlt, hb, -, hnext, hused, hf₁⟩ := hnew hpos
      have hmod : ((b : Int) % 4294967296).toNat = b := by omega
      rw [hmod]
      have hg := (h₁.grow hb hnext).setSbi (s := { k₁.fs.sbi with sFreeSlicedBlocks := b }) rfl
        (Or.inr (Or.inr rfl))
      have hf' := (hf₁.grow hused).setSbi (s := { k₁.fs.sbi with sFreeSlicedBlocks := b }) rfl rfl
      refine (searchChain_guard ino h2 _ (k₁.setSbi { k₁.fs.sbi with sFreeSlicedBlocks := b }) _ b
        hg hf' (Or.inr rfl)).mono fun r k' hp => ?_
      obtain ⟨C', hp⟩ := hp
      exact ⟨C', hp.guard, fun c hc => hp.grown c (Or.inl hc), hp.slices⟩
  | unread hhead hread eq =>
      rw [← Kernel.sbBread_same hread] at h
      rw [eq]
      exact ⟨C, h, fun _ => id, fun b s hr => by cases hr⟩
  | @searched k₁ hhead hread eq =>
      have hc := h.head.resolve_left hhead
      rw [eq]
      rw [← Kernel.sbBread_same hread] at h hf
      exact searchChain_guard ino h2 _ k₁ C _ h hf hc

end Search

/-! ## Small files -/

section Small

variable {p : Shelter} {C : Nat → Prop} {k : Kernel} {ino : Nat} {iocb : Kiocb} {data : List UInt8}

theorem Shelter.Slices.mono {C' : Nat → Prop} {b s n : Nat} (h : p.Slices C b s n)
    (hc : ∀ b, C b → C' b) : p.Slices C' b s n := ⟨hc b h.chain, h.pos, h.fits, h.free⟩

theorem Kernel.kmalloc_same {k' : Kernel} {ok : Bool} (h : k.kmalloc = (ok, k')) :
    k'.fs = k.fs := by
  have hfs := k.fs_kmalloc
  rwa [h] at hfs

theorem Kernel.copyFromIter_same {k' : Kernel} {n : Nat} {copied : List UInt8}
    (h : k.copyFromIter n data = (copied, k')) :
    k'.fs = k.fs ∧ copied.length ≤ data.length := by
  unfold Kernel.copyFromIter at h
  split at h <;> cases h <;> exact ⟨rfl, List.length_take_le' _ _⟩

/-- Data go to slices outside the shelter. -/
theorem copyToSlices_guard {pos size block slice n : Nat} (h : Guard p C k.fs)
    (hs : p.Slices C block slice n) (hn : pos + data.length ≤ 128 * n) :
    Guards p (fun _ k' => Guard p C k'.fs) (copyToSlices k ino iocb data pos size block slice) := by
  have hpos := hs.pos
  have hfits := hs.fits
  -- the user's data lie inside the slices
  have hblit : ∀ copied k₁, k.copyFromIter data.length data = (copied, k₁) →
      Guard p C (k₁.fs.setBlock block ((k₁.fs.disk block).blit (slice * 128 + pos) copied)) := by
    intro copied k₁ hcopy
    obtain ⟨hfs, hlen⟩ := Kernel.copyFromIter_same hcopy
    have hg : Guard p C k₁.fs := by rwa [hfs]
    have hin : slice * 128 + pos + copied.length ≤ 4096 := by omega
    refine hg.setBlock (hg.apart block hs.chain) (fun j hj => ?_) fun _ => ?_
    · obtain ⟨-, h1, h32, hbit⟩ := hg.taken block j hj
      have hout : ¬(slice ≤ j ∧ j < slice + n) := fun hc => hs.free j hc.1 hc.2 hj
      refine ⟨?_, fun o ho => ?_⟩
      · rw [sliceBitmap_congr (b := k₁.fs.disk block)]
        · exact hbit
        · intro i hi
          rw [Page.get_blit _ hin, if_neg (by omega)]
      · rw [Page.get_blit _ hin, if_neg (by omega)]
    · rw [sliceNext_congr (b := k₁.fs.disk block)]
      · exact hg.next block hs.chain
      · intro i _ hi
        rw [Page.get_blit _ hin, if_neg (by omega)]
  cases (copyToSlices_exits k ino iocb data pos size block slice).1 rfl with
  | fault hcopy hlen eq =>
      rw [eq]
      exact hblit _ _ hcopy
  | @copied k₁ copied hcopy hlen eq =>
      have h₁ := hblit _ _ hcopy
      rw [eq]
      exact (h₁.setSbi (s := { k₁.fs.sbi with
        nrUsedSlices := add32 k₁.fs.sbi.nrUsedSlices (divRoundUp size 128) }) rfl h₁.head).setInode
          ino _

/-- The shelter is guarded, and the chain may have grown. -/
def Grown (p : Shelter) (C : Nat → Prop) (fs : Fs) : Prop :=
  ∃ C' : Nat → Prop, (∀ b, C b → C' b) ∧ Guard p C' fs

theorem Guard.grown {fs : Fs} (h : Guard p C fs) : Grown p C fs := ⟨C, fun _ => id, h⟩

theorem Grown.unharmed {fs : Fs} (h : Grown p C fs) : Unharmed p fs := by
  obtain ⟨C', -, h⟩ := h
  exact h.toUnharmed

theorem le_divRoundUp (n : Nat) : n ≤ 128 * divRoundUp n 128 := by
  unfold divRoundUp
  omega

/-- A write to a file without slices, with any answers. -/
theorem writeSmallFileNew_guard (h : Guard p C k.fs) (hf : Fertile C k.fs)
    (h2 : max (iocb.startPos (k.inode ino) + data.length) (k.inode ino).iSize ≤ 3968) :
    Guards p (fun _ k' => Grown p C k'.fs) (writeSmallFileNew k ino iocb data) := by
  have hplace := placeSlices_guard ino h2 h hf
  have hle := le_divRoundUp (max (iocb.startPos (k.inode ino) + data.length) (k.inode ino).iSize)
  cases (writeSmallFileNew_exits k ino iocb data).1 rfl with
  | stopped hpl eq =>
      rw [hpl] at hplace
      rw [eq]
      exact hplace
  | noPlace hpl eq =>
      rw [hpl] at hplace
      obtain ⟨C', hp⟩ := hplace
      rw [eq]
      exact ⟨C', hp.grown, hp.guard⟩
  | @placed block slice k₁ hpl eq =>
      rw [hpl] at hplace
      obtain ⟨C', hp⟩ := hplace
      rw [eq]
      exact (copyToSlices_guard hp.guard (hp.slices block slice rfl) (by omega)).mono
        fun _ _ h' => ⟨C', hp.grown, h'⟩

/-- The end of a relocation. -/
theorem finishRelocation_guard {old : Inode} {pos count : Nat} {run : Outcome (Int × Kiocb)}
    (hs : p.Slices C old.getBno old.getSlice old.numSlices)
    (hrun : Guards p (fun _ k' => Grown p C k'.fs) run) :
    Guards p (fun _ k' => Grown p C k'.fs) (finishRelocation old ino pos count run) := by
  cases (finishRelocation_exits old ino pos count run).1 rfl with
  | stopped ho eq =>
      rw [eq]
      rwa [ho] at hrun
  | kept ho hret eq =>
      rw [ho] at hrun
      obtain ⟨C', hgrown, h₁⟩ := hrun
      rw [eq]
      exact ⟨C', hgrown, h₁.setInode ino _⟩
  | stuck ho hret hdel eq =>
      rw [ho] at hrun
      obtain ⟨C', hgrown, h₁⟩ := hrun
      have hd := deleteSlice_guard h₁ (Or.inr (hs.mono hgrown))
      rw [hdel] at hd
      rw [eq]
      exact hd
  | moved ho hret hdel eq =>
      rw [ho] at hrun
      obtain ⟨C', hgrown, h₁⟩ := hrun
      have hd := deleteSlice_guard h₁ (Or.inr (hs.mono hgrown))
      rw [hdel] at hd
      rw [eq]
      exact ⟨C', hgrown, hd⟩

/-- A write to a file that has slices, with any answers. -/
theorem rewriteSmallFile_guard (h : Guard p C k.fs) (hf : Fertile C k.fs)
    (hs : p.Slices C (k.inode ino).getBno (k.inode ino).getSlice (k.inode ino).numSlices)
    (h2 : max (iocb.startPos (k.inode ino) + data.length) (k.inode ino).iSize ≤ 3968) :
    Guards p (fun _ k' => Grown p C k'.fs) (rewriteSmallFile k ino iocb data) := by
  -- the inode without its slices
  have hdetached : ∀ {k₁ : Kernel}, k.sbBread (k.inode ino).getBno = (true, k₁) →
      Guard p C (k₁.setInode ino (k.inode ino).detached).fs ∧
        Fertile C (k₁.setInode ino (k.inode ino).detached).fs := fun hread => by
    rw [← Kernel.sbBread_same hread] at h hf
    exact ⟨h.setInode ino _, hf.setInode ino _⟩
  cases (rewriteSmallFile_exits k ino iocb data).1 rfl with
  | noSlices hn eq =>
      rw [eq]
      exact h.grown
  | noPlace hn hb eq =>
      rw [eq]
      exact h.grown
  | unread hn hb hread eq =>
      rw [← Kernel.sbBread_same hread] at h
      rw [eq]
      exact h.grown
  | inPlace hn hb hread hsame eq =>
      rw [← Kernel.sbBread_same hread] at h
      rw [eq]
      refine (copyToSlices_guard h hs ?_).mono fun _ _ h' => h'.grown
      have := le_divRoundUp (max (iocb.startPos (k.inode ino) + data.length) (k.inode ino).iSize)
      rw [hsame]
      omega
  | @fromStart k₁ hr hpos eq =>
      obtain ⟨h₂, hf₂⟩ := hdetached hr.read
      rw [eq]
      refine finishRelocation_guard hs (writeSmallFileNew_guard h₂ hf₂ ?_)
      have hino : (k₁.setInode ino (k.inode ino).detached).inode ino = (k.inode ino).detached := by
        simp [Kernel.inode]
      have hsize : (k.inode ino).detached.iSize = 0 := rfl
      have hstart : iocb.startPos (k.inode ino).detached = 0 := by
        unfold Kiocb.startPos at hpos ⊢
        split
        · exact hsize
        · rename_i ha
          rwa [if_neg ha] at hpos
      rw [hino, hstart, hsize]
      omega
  | noCopy hr hpos hmalloc eq =>
      obtain ⟨h₂, -⟩ := hdetached hr.read
      rw [← Kernel.kmalloc_same hmalloc] at h₂
      rw [eq]
      exact h₂.grown
  | fault hr hpos hmalloc hcopy hlen eq =>
      obtain ⟨h₂, -⟩ := hdetached hr.read
      rw [← Kernel.kmalloc_same hmalloc, ← (Kernel.copyFromIter_same hcopy).1] at h₂
      rw [eq]
      exact h₂.grown
  | noBuffer hr hpos hmalloc hcopy hlen hmalloc' eq =>
      obtain ⟨h₂, -⟩ := hdetached hr.read
      rw [← Kernel.kmalloc_same hmalloc, ← (Kernel.copyFromIter_same hcopy).1,
        ← Kernel.kmalloc_same hmalloc'] at h₂
      rw [eq]
      exact h₂.grown
  | @combined k₁ k₂ k₃ k₄ copied hr hpos hmalloc hcopy hlen hmalloc' eq =>
      obtain ⟨h₂, hf₂⟩ := hdetached hr.read
      have hfs : k₄.fs = (k₁.setInode ino (k.inode ino).detached).fs := by
        rw [Kernel.kmalloc_same hmalloc', (Kernel.copyFromIter_same hcopy).1,
          Kernel.kmalloc_same hmalloc]
      have hsize : (k₄.inode ino).iSize = 0 := by
        unfold Kernel.inode
        rw [hfs]
        simp [Inode.detached]
      rw [← hfs] at h₂ hf₂
      rw [eq]
      refine finishRelocation_guard hs (writeSmallFileNew_guard h₂ hf₂ ?_)
      have hstart : Kiocb.startPos ⟨0, false⟩ (k₄.inode ino) = 0 := rfl
      rw [hsize, hstart, combinedBuf_length, Page.bytes_length]
      omega

/-- **`write_small_file`, with any answers.** -/
theorem writeSmallFile_guard (h : Guard p C k.fs) (hf : Fertile C k.fs)
    (hs : (k.inode ino).indexBlock = 0 ∨
      p.Slices C (k.inode ino).getBno (k.inode ino).getSlice (k.inode ino).numSlices)
    (h2 : max (iocb.startPos (k.inode ino) + data.length) (k.inode ino).iSize ≤ 3968) :
    Guards p (fun _ k' => Grown p C k'.fs) (writeSmallFile k ino iocb data) := by
  unfold writeSmallFile
  split
  · exact writeSmallFileNew_guard h hf h2
  · rename_i h0
    exact rewriteSmallFile_guard h hf (hs.resolve_left h0) h2

end Small

end Ouichefs
