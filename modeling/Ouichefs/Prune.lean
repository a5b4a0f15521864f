import Mathlib.Data.List.Perm.Subperm
import Ouichefs.Exits
import Ouichefs.SliceSearch
import Ouichefs.Lib.Chain

/-!
# Deleting slices and pruning the chain (`delete_slice`)

`delete_slice` frees and zeroes a range of slices and then walks the whole chain, unlinking every
block whose slices are all free.  `pruneChain_spec` is the loop: by induction on the blocks still
to visit, the blocks already kept followed by the rest form the chain.  `DeleteEff` records
everything `deleteSlice` does to disk and superblock; it does not look at inodes.
-/

set_option autoImplicit false

namespace Ouichefs

open FreeMap

/-- Every slice of the block is free. -/
def allFree (b : Block) : Bool := decide (sliceBitmap b = bitmapAllFree)

/-- The two blocks agree outside the next word. -/
def SameButNext (b b' : Block) : Prop := ∀ i, ¬(4 ≤ i ∧ i < 8) → b'.get i = b.get i

theorem SameButNext.refl (b : Block) : SameButNext b b := fun _ _ => rfl

theorem SameButNext.trans {a b c : Block} (h : SameButNext a b) (h' : SameButNext b c) :
    SameButNext a c := fun i hi => (h' i hi).trans (h i hi)

theorem SameButNext.sliceBitmap {b b' : Block} (h : SameButNext b b') :
    sliceBitmap b' = sliceBitmap b :=
  sliceBitmap_congr fun i hi => h i (by omega)

theorem sameButNext_setSliceNext (b : Block) (v : Nat) : SameButNext b (setSliceNext b v) :=
  fun _ hi => get_setSliceNext b v hi

/-- The chain blocks that hold a slice in use. -/
def keepUsed (fs : Fs) (l : List Nat) : List Nat := l.filter fun b => !allFree (fs.disk b)

/-- Effect of the walk over `rest`, the blocks `kept` having been passed already. -/
structure PruneEff (fs fs' : Fs) (kept rest : List Nat) : Prop where
  isChain : IsLinked fs'.next fs'.sbi.sFreeSlicedBlocks (kept ++ keepUsed fs rest)
  outside : ∀ b, b ∉ kept → b ∉ rest → fs'.disk b = fs.disk b
  keptSame : ∀ b ∈ kept, SameButNext (fs.disk b) (fs'.disk b)
  restSame : ∀ b ∈ rest, allFree (fs.disk b) = false → SameButNext (fs.disk b) (fs'.disk b)
  gone : ∀ b ∈ rest, allFree (fs.disk b) = true → fs'.disk b = Page.zero
  bfree : ∀ b, fs'.sbi.bfreeBitmap b = true ↔
    fs.sbi.bfreeBitmap b = true ∨ b ∈ rest ∧ allFree (fs.disk b) = true
  sliced : fs'.sbi.nrSlicedBlocks = (kept ++ keepUsed fs rest).length
  freeBlocks : fs'.sbi.nrFreeBlocks =
    (fs.sbi.nrFreeBlocks + rest.countP fun b => allFree (fs.disk b)) % 4294967296
  count : fs.sbi.nrFreeBlocks = countBits fs.sbi.bfreeBitmap fs.sbi.nrBlocks →
    fs'.sbi.nrFreeBlocks = countBits fs'.sbi.bfreeBitmap fs'.sbi.nrBlocks
  sbi : fs'.sbi = { fs.sbi with
    sFreeSlicedBlocks := fs'.sbi.sFreeSlicedBlocks, nrSlicedBlocks := fs'.sbi.nrSlicedBlocks,
    bfreeBitmap := fs'.sbi.bfreeBitmap, nrFreeBlocks := fs'.sbi.nrFreeBlocks }
  icache : fs'.icache = fs.icache

/-- What the walk needs to know about the chain: `kept` then `rest`, the cursor being `cur`. -/
structure PruneInv (fs : Fs) (kept rest : List Nat) (cur : Nat) : Prop where
  keptSeg : IsSeg fs.next fs.sbi.sFreeSlicedBlocks kept cur
  restSeg : IsSeg fs.next cur rest 0
  nodup : (kept ++ rest).Nodup
  inUse : ∀ b ∈ rest, b < fs.sbi.nrBlocks ∧ fs.sbi.bfreeBitmap b = false
  blocks : fs.sbi.nrBlocks < 4294967296
  sliced : fs.sbi.nrSlicedBlocks = (kept ++ rest).length
  slicedLt : fs.sbi.nrSlicedBlocks < 4294967296
  freeLt : fs.sbi.nrFreeBlocks < 4294967296

/-- The state after block `b` was unlinked behind `prev` and released. -/
def unlinkBlock (k : Kernel) (b : Nat) (prev : Option Nat) : Kernel :=
  let next := sliceNext (k.fs.disk b)
  let k :=
    match prev with
    | some p => k.setBlock p (setSliceNext (k.fs.disk p) next)
    | none => k.setSbi { k.fs.sbi with sFreeSlicedBlocks := next }
  let k := k.setSbi { k.fs.sbi with nrSlicedBlocks := sub32 k.fs.sbi.nrSlicedBlocks 1 }
  let k := k.setBlock b Page.zero
  (k.putBlock b).brelse b

@[simp] theorem pruneChain_zero (fuel : Nat) (k : Kernel) (prev : Option Nat) :
    pruneChain fuel k 0 prev = .ok (0, brelsePrev k prev) := by
  cases fuel <;> rfl

/-- One iteration with a readable block. -/
theorem pruneChain_succ {fuel : Nat} {k : Kernel} {cur : Nat} {prev : Option Nat}
    (hf : k.faults = []) (h0 : cur ≠ 0) (hb : cur < k.fs.sbi.nrBlocks) :
    pruneChain (fuel + 1) k cur prev =
      if allFree (k.fs.disk cur) then
        pruneChain fuel (unlinkBlock (k.log (.bread cur)) cur prev) (sliceNext (k.fs.disk cur)) prev
      else
        pruneChain fuel (brelsePrev (k.log (.bread cur)) prev) (sliceNext (k.fs.disk cur))
          (some cur) := by
  obtain ⟨c, rfl⟩ := Nat.exists_eq_succ_of_ne_zero h0
  rw [Nat.succ_eq_add_one] at *
  rw [pruneChain, Kernel.sbBread_ok hf hb]
  by_cases h : sliceBitmap (k.fs.disk (c + 1)) = bitmapAllFree
  · have hd : allFree (k.fs.disk (c + 1)) = true := decide_eq_true h
    simp only [Kernel.fs_log, h, hd, if_true]
    rfl
  · have hd : allFree (k.fs.disk (c + 1)) = false := decide_eq_false h
    simp only [Kernel.fs_log, h, hd, if_false]
    rfl

section Unlink

variable {k : Kernel} {b : Nat} {prev : Option Nat}

theorem unlinkBlock_faults : (unlinkBlock k b prev).faults = k.faults := by
  cases prev <;> simp [unlinkBlock, Kernel.putBlock]

theorem unlinkBlock_allocFailed : (unlinkBlock k b prev).AllocFailed ↔ k.AllocFailed := by
  cases prev <;> simp [unlinkBlock, Kernel.putBlock]

theorem unlinkBlock_icache : (unlinkBlock k b prev).fs.icache = k.fs.icache := by
  cases prev <;> simp [unlinkBlock, Kernel.putBlock]

theorem unlinkBlock_disk (c : Nat) :
    (unlinkBlock k b prev).fs.disk c =
      if c = b then Page.zero
      else if some c = prev then setSliceNext (k.fs.disk c) (sliceNext (k.fs.disk b))
      else k.fs.disk c := by
  cases prev with
  | none => simp [unlinkBlock, Kernel.putBlock]
  | some p =>
      simp only [unlinkBlock, Kernel.putBlock, Kernel.fs_brelse, Kernel.fs_setSbi,
        Fs.disk_setSbi, Kernel.fs_setBlock, Fs.disk_setBlock, Option.some.injEq]
      by_cases hb : c = b
      · simp [hb]
      · by_cases hp : c = p
        · subst hp; simp [hb]
        · simp [hb, hp]

theorem unlinkBlock_sbi (hb : b ≤ k.fs.sbi.nrBlocks) :
    (unlinkBlock k b prev).fs.sbi = { k.fs.sbi with
      sFreeSlicedBlocks :=
        if prev = none then sliceNext (k.fs.disk b) else k.fs.sbi.sFreeSlicedBlocks,
      nrSlicedBlocks := sub32 k.fs.sbi.nrSlicedBlocks 1,
      bfreeBitmap := Function.update k.fs.sbi.bfreeBitmap b true,
      nrFreeBlocks := add32 k.fs.sbi.nrFreeBlocks 1 } := by
  cases prev with
  | none => simp [unlinkBlock, Kernel.putBlock, SbInfo.putBlock, putFreeBit, Nat.not_lt.2 hb]
  | some p => simp [unlinkBlock, Kernel.putBlock, SbInfo.putBlock, putFreeBit, Nat.not_lt.2 hb]

end Unlink

/-- Unlinking the block under the cursor keeps the loop invariant. -/
theorem PruneInv.unlink {k : Kernel} {kept rest : List Nat} {cur : Nat}
    (h : PruneInv k.fs kept (cur :: rest) cur) :
    PruneInv (unlinkBlock k cur kept.getLast?).fs kept rest (sliceNext (k.fs.disk cur)) := by
  obtain ⟨hcur, hfree⟩ := h.inUse cur List.mem_cons_self
  obtain ⟨-, hne, hrest⟩ := h.restSeg
  have hsbi := @unlinkBlock_sbi k cur kept.getLast? (Nat.le_of_lt hcur)
  have hnd := List.nodup_append.1 h.nodup
  have hcurRest : cur ∉ rest := (List.nodup_cons.1 hnd.2.1).1
  have hcurKept : cur ∉ kept := fun hm => hnd.2.2 cur hm cur List.mem_cons_self rfl
  have hlast : ∀ c, some c = kept.getLast? → c ∈ kept := fun c hc =>
    List.mem_of_getLast? hc.symm
  have hnextRest : ∀ c ∈ rest, (unlinkBlock k cur kept.getLast?).fs.next c = k.fs.next c := by
    intro c hc
    unfold Fs.next
    rw [unlinkBlock_disk, if_neg (by rintro rfl; exact hcurRest hc), if_neg]
    intro hp
    exact hnd.2.2 c (hlast c hp) c (List.mem_cons_of_mem _ hc) rfl
  refine ⟨?_, hrest.congr hnextRest, ?_, ?_, ?_, ?_, ?_, ?_⟩
  · -- the head, or the last kept block, now points behind the removed block
    rcases List.eq_nil_or_concat kept with rfl | ⟨l, p, rfl⟩
    · rw [hsbi]; simp [IsSeg]
    · rw [List.concat_eq_append] at *
      have hp : (l ++ [p]).getLast? = some p := by simp
      rw [hsbi, hp]
      simp only [reduceCtorEq, if_false]
      have hpl : p ∉ l := by
        have := (List.nodup_append.1 hnd.1).2.2
        exact fun hm => this p hm p (by simp) rfl
      refine h.keptSeg.relink hpl ?_ ?_
      · intro c hc
        unfold Fs.next
        rw [unlinkBlock_disk, if_neg, if_neg]
        · rintro ⟨⟩; exact hpl hc
        · rintro rfl; exact hcurKept (by simp [hc])
      · unfold Fs.next
        rw [unlinkBlock_disk, if_neg, if_pos rfl, sliceNext_setSliceNext _ (sliceNext_lt _)]
        rintro rfl; exact hcurKept (by simp)
  · exact List.Nodup.sublist (by simp) h.nodup
  · intro c hc
    obtain ⟨h1, h2⟩ := h.inUse c (List.mem_cons_of_mem _ hc)
    rw [hsbi]
    refine ⟨h1, ?_⟩
    simp only
    rw [Function.update_of_ne (by rintro rfl; exact hcurRest hc)]
    exact h2
  · rw [hsbi]; exact h.blocks
  · rw [hsbi]
    have := h.sliced
    simp only [List.length_append, List.length_cons] at this ⊢
    rw [sub32_of_le h.slicedLt (by omega)]
    omega
  · rw [hsbi]
    have := h.sliced
    have := h.slicedLt
    simp only [List.length_append, List.length_cons] at *
    rw [sub32_of_le (by omega) (by omega)]
    omega
  · rw [hsbi]
    exact Nat.mod_lt _ (by decide)

/-- Unlinking a block in use keeps the count of free blocks. -/
theorem unlinkBlock_count {k : Kernel} {cur : Nat} {prev : Option Nat}
    (hcur : cur < k.fs.sbi.nrBlocks) (hfree : k.fs.sbi.bfreeBitmap cur = false)
    (hlt : k.fs.sbi.nrBlocks < 4294967296)
    (hc : k.fs.sbi.nrFreeBlocks = countBits k.fs.sbi.bfreeBitmap k.fs.sbi.nrBlocks) :
    (unlinkBlock k cur prev).fs.sbi.nrFreeBlocks =
      countBits (unlinkBlock k cur prev).fs.sbi.bfreeBitmap
        (unlinkBlock k cur prev).fs.sbi.nrBlocks := by
  rw [unlinkBlock_sbi (Nat.le_of_lt hcur)]
  simp only
  have hset := countBits_set hcur hfree
  have hle := countBits_le (Function.update k.fs.sbi.bfreeBitmap cur true) k.fs.sbi.nrBlocks
  rw [hset] at hle
  rw [hset, ← hc, add32_of_lt (by omega)]

/-- Keeping the block under the cursor moves it from `rest` to `kept`. -/
theorem PruneInv.keep {fs : Fs} {kept rest : List Nat} {cur : Nat}
    (h : PruneInv fs kept (cur :: rest) cur) :
    PruneInv fs (kept ++ [cur]) rest (sliceNext (fs.disk cur)) := by
  obtain ⟨-, hne, hrest⟩ := h.restSeg
  refine ⟨?_, hrest, ?_, fun b hb => h.inUse b (List.mem_cons_of_mem _ hb), h.blocks, ?_,
    h.slicedLt, h.freeLt⟩
  · rw [IsSeg.append_iff]
    exact ⟨cur, h.keptSeg, rfl, hne, rfl⟩
  · simpa using h.nodup
  · simpa using h.sliced

@[simp] theorem brelsePrev_fs (k : Kernel) (prev : Option Nat) : (brelsePrev k prev).fs = k.fs := by
  cases prev <;> rfl

@[simp] theorem brelsePrev_faults (k : Kernel) (prev : Option Nat) :
    (brelsePrev k prev).faults = k.faults := by
  cases prev <;> rfl

@[simp] theorem brelsePrev_allocFailed (k : Kernel) (prev : Option Nat) :
    (brelsePrev k prev).AllocFailed ↔ k.AllocFailed := by
  cases prev <;> simp [brelsePrev]

theorem PruneEff.nil {fs : Fs} {kept : List Nat} {cur : Nat} (h : PruneInv fs kept [] cur) :
    PruneEff fs fs kept [] := by
  refine ⟨?_, fun _ _ _ => rfl, fun b _ => .refl _, fun b hb => (List.not_mem_nil hb).elim,
    fun b hb => (List.not_mem_nil hb).elim, fun b => by simp, by simpa [keepUsed] using h.sliced,
    (Nat.mod_eq_of_lt h.freeLt).symm, id, rfl, rfl⟩
  have hcur : cur = 0 := h.restSeg
  subst hcur
  simpa [keepUsed, IsLinked] using h.keptSeg

/-- The effect of an iteration that unlinks its block, followed by the rest of the walk. -/
theorem PruneEff.unlink {k : Kernel} {fs' : Fs} {kept rest : List Nat} {cur : Nat}
    (h : PruneInv k.fs kept (cur :: rest) cur) (hfree : allFree (k.fs.disk cur) = true)
    (he : PruneEff (unlinkBlock k cur kept.getLast?).fs fs' kept rest) :
    PruneEff k.fs fs' kept (cur :: rest) := by
  obtain ⟨hcur, hbit⟩ := h.inUse cur List.mem_cons_self
  have hnd := List.nodup_append.1 h.nodup
  have hcurRest : cur ∉ rest := (List.nodup_cons.1 hnd.2.1).1
  have hcurKept : cur ∉ kept := fun hm => hnd.2.2 cur hm cur List.mem_cons_self rfl
  have hlast : ∀ c, some c = kept.getLast? → c ∈ kept := fun c hc =>
    List.mem_of_getLast? hc.symm
  -- the blocks still to visit are the same before and after the iteration
  have hdisk : ∀ c, c ∉ kept → c ≠ cur →
      (unlinkBlock k cur kept.getLast?).fs.disk c = k.fs.disk c := by
    intro c hc hne
    rw [unlinkBlock_disk, if_neg hne, if_neg fun hp => hc (hlast c hp)]
  have hrest : ∀ c ∈ rest, (unlinkBlock k cur kept.getLast?).fs.disk c = k.fs.disk c := by
    intro c hc
    refine hdisk c (fun hm => hnd.2.2 c hm c (List.mem_cons_of_mem _ hc) rfl) ?_
    rintro rfl
    exact hcurRest hc
  have hkeep : keepUsed k.fs (cur :: rest) =
      keepUsed (unlinkBlock k cur kept.getLast?).fs rest := by
    unfold keepUsed
    rw [List.filter_cons_of_neg (by simp [hfree])]
    exact List.filter_congr fun c hc => by rw [hrest c hc]
  have hsbi := @unlinkBlock_sbi k cur kept.getLast? (Nat.le_of_lt hcur)
  refine ⟨?_, ?_, ?_, ?_, ?_, ?_, ?_, ?_, fun hc => he.count ?_, ?_, ?_⟩
  · rw [hkeep]; exact he.isChain
  · intro c hk hr
    rw [he.outside c hk fun hm => hr (List.mem_cons_of_mem _ hm)]
    exact hdisk c hk fun hc => hr (hc ▸ List.mem_cons_self)
  · intro c hc
    refine SameButNext.trans ?_ (he.keptSame c hc)
    rw [unlinkBlock_disk, if_neg (by rintro rfl; exact hcurKept hc)]
    split
    · exact sameButNext_setSliceNext _ _
    · exact .refl _
  · intro c hc hused
    rcases List.mem_cons.1 hc with rfl | hc
    · rw [hfree] at hused; cases hused
    · rw [← hrest c hc] at hused ⊢
      exact he.restSame c hc hused
  · intro c hc hall
    rcases List.mem_cons.1 hc with rfl | hc
    · rw [he.outside _ hcurKept hcurRest, unlinkBlock_disk, if_pos rfl]
    · rw [← hrest c hc] at hall
      exact he.gone c hc hall
  · intro c
    rw [he.bfree, hsbi]
    simp only [Function.update_apply, List.mem_cons]
    by_cases hc : c = cur
    · subst hc; simp [hfree]
    · simp only [hc, if_false, false_or]
      refine or_congr_right (and_congr_right fun hm => ?_)
      rw [hrest c hm]
  · rw [hkeep]; exact he.sliced
  · have hcount : (rest.countP fun c => allFree ((unlinkBlock k cur kept.getLast?).fs.disk c)) =
        rest.countP fun c => allFree (k.fs.disk c) :=
      List.countP_congr fun c hc => by rw [hrest c hc]
    rw [he.freeBlocks, hsbi, hcount, List.countP_cons, hfree, if_pos rfl]
    simp only [add32]
    omega
  · exact unlinkBlock_count hcur hbit h.blocks hc
  · rw [he.sbi, hsbi]
  · rw [he.icache, unlinkBlock_icache]

/-- The effect of an iteration that keeps its block, followed by the rest of the walk. -/
theorem PruneEff.keep {fs fs' : Fs} {kept rest : List Nat} {cur : Nat}
    (hused : allFree (fs.disk cur) = false) (he : PruneEff fs fs' (kept ++ [cur]) rest) :
    PruneEff fs fs' kept (cur :: rest) := by
  have hkeep : kept ++ keepUsed fs (cur :: rest) = (kept ++ [cur]) ++ keepUsed fs rest := by
    unfold keepUsed
    rw [List.filter_cons_of_pos (by simp [hused])]
    simp
  refine ⟨?_, ?_, ?_, ?_, ?_, ?_, ?_, ?_, he.count, he.sbi, he.icache⟩
  · rw [hkeep]; exact he.isChain
  · intro c hk hr
    simp only [List.mem_cons, not_or] at hr
    exact he.outside c (by simp [hk, hr.1]) hr.2
  · exact fun c hc => he.keptSame c (by simp [hc])
  · intro c hc hu
    rcases List.mem_cons.1 hc with rfl | hc
    · exact he.keptSame _ (by simp)
    · exact he.restSame c hc hu
  · intro c hc hall
    rcases List.mem_cons.1 hc with rfl | hc
    · rw [hused] at hall; cases hall
    · exact he.gone c hc hall
  · intro c
    rw [he.bfree, List.mem_cons]
    by_cases hc : c = cur
    · subst hc
      simp [hused]
    · simp [hc]
  · rw [hkeep]; exact he.sliced
  · rw [he.freeBlocks, List.countP_cons_of_neg (by simp [hused])]

/-- **The walk of `delete_slice` ends and removes exactly the blocks that are all free.** -/
theorem pruneChain_spec :
    ∀ (rest kept : List Nat) (fuel : Nat) (k : Kernel) (cur : Nat), k.faults = [] →
      PruneInv k.fs kept rest cur → rest.length ≤ fuel →
      ∃ k', pruneChain fuel k cur kept.getLast? = .ok (0, k') ∧ k'.faults = [] ∧
        (k'.AllocFailed ↔ k.AllocFailed) ∧ PruneEff k.fs k'.fs kept rest := by
  intro rest
  induction rest with
  | nil =>
      intro kept fuel k cur hf h _
      have hcur : cur = 0 := h.restSeg
      subst hcur
      exact ⟨_, pruneChain_zero .., by simpa using hf, by simp, by simpa using PruneEff.nil h⟩
  | cons b rest ih =>
      intro kept fuel k cur hf h hfuel
      obtain ⟨rfl, hne, -⟩ := h.restSeg
      obtain ⟨fuel, rfl⟩ : ∃ n, fuel = n + 1 := ⟨fuel - 1, by simp at hfuel; omega⟩
      have hb := (h.inUse cur List.mem_cons_self).1
      rw [pruneChain_succ hf hne hb]
      by_cases hfree : allFree (k.fs.disk cur) = true
      · rw [if_pos hfree]
        obtain ⟨k', hrun, hf', ha, he⟩ := ih kept fuel
          (unlinkBlock (k.log (.bread cur)) cur kept.getLast?) (sliceNext (k.fs.disk cur))
          (by rw [unlinkBlock_faults]; simpa using hf)
          (PruneInv.unlink (k := k.log (.bread cur)) h) (by simp at hfuel; omega)
        refine ⟨k', hrun, hf', ?_, PruneEff.unlink (k := k.log (.bread cur)) h hfree he⟩
        rw [ha, unlinkBlock_allocFailed]
        simp
      · rw [if_neg hfree]
        have hk : PruneInv (brelsePrev (k.log (.bread cur)) kept.getLast?).fs (kept ++ [cur]) rest
            (sliceNext (k.fs.disk cur)) := by simpa using h.keep
        have hl : (kept ++ [cur]).getLast? = some cur := by simp
        obtain ⟨k', hrun, hf', ha, he⟩ := ih (kept ++ [cur]) fuel
          (brelsePrev (k.log (.bread cur)) kept.getLast?) (sliceNext (k.fs.disk cur))
          (by simpa using hf) hk (by simp at hfuel; omega)
        rw [hl] at hrun
        refine ⟨k', hrun, hf', by rw [ha]; simp, ?_⟩
        simp only [brelsePrev_fs, Kernel.fs_log] at he
        exact PruneEff.keep (by simpa using hfree) he

/-! ## `delete_slice` -/

/-- Block `b` with slices `s … s + n - 1` freed and zeroed. -/
def freeSlices (b : Block) (s n : Nat) : Block :=
  (setSliceBitmap b (sliceBitmap b ||| runMask 32 n s)).fill (s * 128) (n * 128)

/-- The disk after the slices were freed and before the walk. -/
def Fs.markFree (fs : Fs) (bno s n : Nat) : Fs :=
  (fs.setBlock bno (freeSlices (fs.disk bno) s n)).setSbi
    { fs.sbi with nrUsedSlices := sub32 fs.sbi.nrUsedSlices n }

theorem sliceBitmap_freeSlices (b : Block) {s n : Nat} (hs : 1 ≤ s) :
    sliceBitmap (freeSlices b s n) = sliceBitmap b ||| runMask 32 n s := by
  unfold freeSlices
  rw [sliceBitmap_congr (b := setSliceBitmap b (sliceBitmap b ||| runMask 32 n s)),
    sliceBitmap_setSliceBitmap]
  intro i hi
  rw [Page.get_fill, if_neg (by omega)]

theorem sliceNext_freeSlices (b : Block) {s n : Nat} (hs : 1 ≤ s) :
    sliceNext (freeSlices b s n) = sliceNext b := by
  unfold freeSlices
  rw [sliceNext_congr (b := setSliceBitmap b (sliceBitmap b ||| runMask 32 n s)),
    sliceNext_setSliceBitmap]
  intro i h4 h8
  rw [Page.get_fill, if_neg (by omega)]

theorem get_freeSlices (b : Block) {s n i : Nat} (hi : 4 ≤ i) :
    (freeSlices b s n).get i = if s * 128 ≤ i ∧ i < s * 128 + n * 128 then 0 else b.get i := by
  unfold freeSlices
  rw [Page.get_fill, get_setSliceBitmap b _ hi]

theorem getLsbD_freeSlices (b : Block) {s n : Nat} (hs : 1 ≤ s) (hn : s + n ≤ 32) {j : Nat}
    (hj : j < 32) :
    (sliceBitmap (freeSlices b s n)).getLsbD j =
      ((sliceBitmap b).getLsbD j || decide (s ≤ j ∧ j < s + n)) := by
  rw [sliceBitmap_freeSlices b hs, BitVec.getLsbD_or, getLsbD_runMask (by omega) hj]

theorem Fs.markFree_disk (fs : Fs) (bno s n c : Nat) : (fs.markFree bno s n).disk c =
    if c = bno then freeSlices (fs.disk bno) s n else fs.disk c := by
  simp [Fs.markFree]

/-- **`delete_slice` frees the slices and prunes the chain.** -/
theorem deleteSlice_spec {k : Kernel} {chain : List Nat} {bno s n : Nat} (hf : k.faults = [])
    (h : PruneInv k.fs [] chain k.fs.sbi.sFreeSlicedBlocks) (hb : bno ∈ chain) (hs : 1 ≤ s)
    (hn : n ≠ 0) :
    ∃ k', deleteSlice k bno s n = .ok (0, k') ∧ k'.faults = [] ∧
      (k'.AllocFailed ↔ k.AllocFailed) ∧ PruneEff (k.fs.markFree bno s n) k'.fs [] chain := by
  have h0 : bno ≠ 0 := h.restSeg.ne_zero bno hb
  have hlt := (h.inUse bno hb).1
  have hnext : ∀ c, (k.fs.markFree bno s n).next c = k.fs.next c := by
    intro c
    unfold Fs.next Fs.markFree
    rw [Fs.disk_setSbi, Fs.disk_setBlock]
    split
    · rename_i hc; subst hc; exact sliceNext_freeSlices _ hs
    · rfl
  have hinv : PruneInv (k.fs.markFree bno s n) [] chain k.fs.sbi.sFreeSlicedBlocks :=
    ⟨h.keptSeg.congr fun c _ => hnext c, h.restSeg.congr fun c _ => hnext c, h.nodup, h.inUse,
      h.blocks, h.sliced, h.slicedLt, h.freeLt⟩
  have hlen : chain.length ≤ k.fs.sbi.nrBlocks := by
    have hsub : ∀ c ∈ chain, c ∈ List.range k.fs.sbi.nrBlocks := fun c hc =>
      List.mem_range.2 (h.inUse c hc).1
    simpa using (h.nodup.subperm hsub).length_le
  rw [(deleteSlice_exits k bno s n).2 (.walked h0 hn (Kernel.sbBread_ok hf hlt) rfl)]
  obtain ⟨k', hrun, hf', ha, he⟩ := pruneChain_spec chain [] (pruneFuel k.fs.sbi)
    (((k.log (.bread bno)).setBlock bno (freeSlices (k.fs.disk bno) s n)).setSbi
      { k.fs.sbi with nrUsedSlices := sub32 k.fs.sbi.nrUsedSlices n } |>.brelse bno)
    k.fs.sbi.sFreeSlicedBlocks (by simpa using hf) hinv
    (Nat.le_trans hlen (Nat.le_trans (Nat.le_succ _) (Nat.le_mul_of_pos_left _ (Nat.succ_pos _))))
  exact ⟨k', hrun, hf', by rw [ha]; simp, he⟩

/-! ## The exact effect -/

/-- The chain of sliced blocks: distinct blocks in use, each with the bit of its header clear. -/
structure SlicedChain (fs : Fs) (chain : List Nat) : Prop where
  isChain : IsLinked fs.next fs.sbi.sFreeSlicedBlocks chain
  nodup : chain.Nodup
  inUse : ∀ b ∈ chain, b < fs.sbi.nrBlocks ∧ fs.sbi.bfreeBitmap b = false
  header : ∀ b ∈ chain, (sliceBitmap (fs.disk b)).getLsbD 0 = false
  sliced : fs.sbi.nrSlicedBlocks = chain.length

/-- Slice `j` of block `b` is free once slices `s … s + n - 1` of `bno` are. -/
def Fs.freeAfter (fs : Fs) (bno s n b j : Nat) : Bool :=
  (sliceBitmap (fs.disk b)).getLsbD j || decide (b = bno ∧ s ≤ j ∧ j < s + n)

/-- Then every slice of block `b` is free. -/
def Fs.emptied (fs : Fs) (bno s n b : Nat) : Bool :=
  (List.range 31).all fun j => fs.freeAfter bno s n b (j + 1)

/-- `delete_slice` of slices `s … s + n - 1` of `bno`, and nothing else, turned `fs` into `fs'`. -/
structure SlicesDeleted (fs fs' : Fs) (chain : List Nat) (bno s n : Nat) : Prop where
  remaining : SlicedChain fs' (chain.filter fun b => !fs.emptied bno s n b)
  usedSlices : fs'.sbi.nrUsedSlices + n = fs.sbi.nrUsedSlices
  slicedBlocks : fs'.sbi.nrSlicedBlocks + chain.countP (fs.emptied bno s n) = fs.sbi.nrSlicedBlocks
  scrubbed : ∀ b ∈ chain, fs.emptied bno s n b = true → fs'.disk b = Page.zero
  putBack : ∀ b, fs'.sbi.bfreeBitmap b = true ↔
    fs.sbi.bfreeBitmap b = true ∨ b ∈ chain ∧ fs.emptied bno s n b = true
  putOnce : fs'.sbi.nrFreeBlocks =
    (fs.sbi.nrFreeBlocks + chain.countP (fs.emptied bno s n)) % 4294967296
  bits : ∀ b ∈ chain, fs.emptied bno s n b = false → ∀ j < 32,
    (sliceBitmap (fs'.disk b)).getLsbD j = fs.freeAfter bno s n b j
  bytes : ∀ b ∈ chain, fs.emptied bno s n b = false → ∀ i, 8 ≤ i → (fs'.disk b).get i =
    if b = bno ∧ s * 128 ≤ i ∧ i < s * 128 + n * 128 then 0 else (fs.disk b).get i
  untouched : ∀ b, b ∉ chain → fs'.disk b = fs.disk b
  sbi : fs'.sbi = { fs.sbi with
    sFreeSlicedBlocks := fs'.sbi.sFreeSlicedBlocks, nrSlicedBlocks := fs'.sbi.nrSlicedBlocks,
    nrUsedSlices := fs'.sbi.nrUsedSlices, bfreeBitmap := fs'.sbi.bfreeBitmap,
    nrFreeBlocks := fs'.sbi.nrFreeBlocks }
  icache : fs'.icache = fs.icache

section Exact

variable {fs fs' : Fs} {chain : List Nat} {bno s n : Nat}

theorem SlicedChain.pruneInv (h : SlicedChain fs chain) (hblocks : fs.sbi.nrBlocks < 4294967296)
    (hfree : fs.sbi.nrFreeBlocks < 4294967296) :
    PruneInv fs [] chain fs.sbi.sFreeSlicedBlocks := by
  have hsub : ∀ c ∈ chain, c ∈ List.range fs.sbi.nrBlocks := fun c hc =>
    List.mem_range.2 (h.inUse c hc).1
  have hlen : chain.length ≤ fs.sbi.nrBlocks := by
    simpa using (h.nodup.subperm hsub).length_le
  have hsliced := h.sliced
  exact ⟨rfl, h.isChain, h.nodup, h.inUse, hblocks, h.sliced, by omega, hfree⟩

theorem Fs.getLsbD_markFree (hs : 1 ≤ s) (hn : s + n ≤ 32) (b : Nat) {j : Nat} (hj : j < 32) :
    (sliceBitmap ((fs.markFree bno s n).disk b)).getLsbD j = fs.freeAfter bno s n b j := by
  rw [Fs.markFree_disk]
  unfold Fs.freeAfter
  split
  · rename_i hb
    rw [getLsbD_freeSlices _ hs hn hj, hb]
    simp
  · rename_i hb
    simp [hb]

theorem Fs.get_markFree (b : Nat) {i : Nat} (hi : 8 ≤ i) :
    ((fs.markFree bno s n).disk b).get i =
      if b = bno ∧ s * 128 ≤ i ∧ i < s * 128 + n * 128 then 0 else (fs.disk b).get i := by
  rw [Fs.markFree_disk]
  split
  · rename_i hb
    rw [get_freeSlices _ (by omega), hb]
    simp
  · rename_i hb
    simp [hb]

/-- The test of `delete_slice` on a block whose header bit is clear. -/
theorem SlicedChain.allFree_markFree (h : SlicedChain fs chain) (hs : 1 ≤ s) (hn : s + n ≤ 32)
    {b : Nat} (hb : b ∈ chain) :
    allFree ((fs.markFree bno s n).disk b) = fs.emptied bno s n b := by
  have hbit : ∀ j < 32, (sliceBitmap ((fs.markFree bno s n).disk b)).getLsbD j =
      fs.freeAfter bno s n b j := fun j hj => Fs.getLsbD_markFree hs hn b hj
  have h0 : (sliceBitmap ((fs.markFree bno s n).disk b)).getLsbD 0 = false := by
    rw [hbit 0 (by decide)]
    unfold Fs.freeAfter
    rw [h.header b hb, Bool.false_or, decide_eq_false_iff_not]
    omega
  rw [Bool.eq_iff_iff]
  unfold allFree Fs.emptied
  rw [decide_eq_true_iff, List.all_eq_true]
  constructor
  · intro hall j hj
    rw [← hbit (j + 1) (by have := List.mem_range.1 hj; omega), hall,
      bitmapAllFree_getLsbD (by have := List.mem_range.1 hj; omega)]
    simp
  · intro hall
    refine eq_bitmapAllFree h0 fun j h1 h32 => ?_
    rw [hbit j h32]
    have := hall (j - 1) (List.mem_range.2 (by omega))
    rwa [Nat.sub_add_cancel h1] at this

theorem PruneEff.slicesDeleted (he : PruneEff (fs.markFree bno s n) fs' [] chain)
    (h : SlicedChain fs chain) (hbno : bno ∈ chain) (hs : 1 ≤ s) (hn : s + n ≤ 32)
    (hle : n ≤ fs.sbi.nrUsedSlices) (hlt : fs.sbi.nrUsedSlices < 4294967296) :
    SlicesDeleted fs fs' chain bno s n := by
  have hall : ∀ b ∈ chain, allFree ((fs.markFree bno s n).disk b) = fs.emptied bno s n b :=
    fun b hb => h.allFree_markFree hs hn hb
  have hkeep : keepUsed (fs.markFree bno s n) chain =
      chain.filter fun b => !fs.emptied bno s n b :=
    List.filter_congr fun b hb => by rw [hall b hb]
  have hcount : (chain.countP fun b => allFree ((fs.markFree bno s n).disk b)) =
      chain.countP (fs.emptied bno s n) :=
    List.countP_congr fun b hb => by rw [hall b hb]
  have hchain := he.isChain
  have hsliced := he.sliced
  rw [List.nil_append, hkeep] at hchain hsliced
  have hkept : ∀ b ∈ chain, fs.emptied bno s n b = false →
      SameButNext ((fs.markFree bno s n).disk b) (fs'.disk b) := fun b hb hu =>
    he.restSame b hb (by rw [hall b hb, hu])
  have hbits : ∀ b ∈ chain, fs.emptied bno s n b = false → ∀ j < 32,
      (sliceBitmap (fs'.disk b)).getLsbD j = fs.freeAfter bno s n b j := by
    intro b hb hu j hj
    rw [(hkept b hb hu).sliceBitmap, Fs.getLsbD_markFree hs hn b hj]
  have hput : ∀ b, fs'.sbi.bfreeBitmap b = true ↔
      fs.sbi.bfreeBitmap b = true ∨ b ∈ chain ∧ fs.emptied bno s n b = true := by
    intro b
    rw [he.bfree b]
    exact or_congr_right (and_congr_right fun hb => by rw [hall b hb])
  have hremaining : (chain.filter fun b => !fs.emptied bno s n b).length +
      chain.countP (fs.emptied bno s n) = chain.length := by
    rw [← List.countP_eq_length_filter, Nat.add_comm]
    simpa using (List.length_eq_countP_add_countP (fs.emptied bno s n) (l := chain)).symm
  refine ⟨⟨hchain, h.nodup.filter _, ?_, ?_, hsliced⟩, ?_, ?_, ?_, hput, ?_, hbits, ?_, ?_, ?_, ?_⟩
  · intro b hb
    obtain ⟨hm, hu⟩ := List.mem_filter.1 hb
    refine ⟨?_, ?_⟩
    · rw [he.sbi]
      exact (h.inUse b hm).1
    · rw [Bool.eq_false_iff, ne_eq, hput b, (h.inUse b hm).2]
      simpa using fun _ => hu
  · intro b hb
    obtain ⟨hm, hu⟩ := List.mem_filter.1 hb
    rw [hbits b hm (by simpa using hu) 0 (by decide)]
    unfold Fs.freeAfter
    rw [h.header b hm, Bool.false_or, decide_eq_false_iff_not]
    omega
  · rw [he.sbi]
    show sub32 fs.sbi.nrUsedSlices n + n = _
    rw [sub32_of_le hlt hle]
    omega
  · rw [hsliced, h.sliced]
    exact hremaining
  · intro b hb hu
    exact he.gone b hb (by rw [hall b hb, hu])
  · rw [he.freeBlocks, hcount]
    rfl
  · intro b hb hu i hi
    rw [hkept b hb hu i (by omega), Fs.get_markFree b hi]
  · intro b hb
    rw [he.outside b (List.not_mem_nil) hb, Fs.markFree_disk, if_neg]
    rintro rfl
    exact hb hbno
  · rw [he.sbi]
    rfl
  · rw [he.icache]
    rfl

end Exact

/-- **`delete_slice` deletes exactly the slices and the blocks they emptied.** -/
theorem deleteSlice_exact {k : Kernel} {chain : List Nat} {bno s n : Nat} (hf : k.faults = [])
    (h : SlicedChain k.fs chain) (hbno : bno ∈ chain) (hs : 1 ≤ s) (hn : 1 ≤ n) (hsn : s + n ≤ 32)
    (hle : n ≤ k.fs.sbi.nrUsedSlices) (hused : k.fs.sbi.nrUsedSlices < 4294967296)
    (hblocks : k.fs.sbi.nrBlocks < 4294967296) (hfree : k.fs.sbi.nrFreeBlocks < 4294967296) :
    ∃ k', deleteSlice k bno s n = .ok (0, k') ∧ SlicesDeleted k.fs k'.fs chain bno s n := by
  obtain ⟨k', hrun, -, -, he⟩ :=
    deleteSlice_spec hf (h.pruneInv hblocks hfree) hbno hs (Nat.pos_iff_ne_zero.1 hn)
  exact ⟨k', hrun, he.slicesDeleted h hbno hs hsn hle hused⟩

/-- Three sliced blocks; slice 5 is the only one in use in blocks 6 and 7, block 8 has two more. -/
def threeBlocks : Kernel where
  fs :=
    { sbi :=
        { nrBlocks := 16, nrInodes := 8, nrIstoreBlocks := 1, nrIfreeBlocks := 1,
          nrBfreeBlocks := 1, nrSlicedBlocks := 3, nrFreeInodes := 7, nrFreeBlocks := 8,
          nrUsedSlices := 5, sFreeSlicedBlocks := 6,
          ifreeBitmap := fun i => decide (1 ≤ i), bfreeBitmap := fun i => decide (9 ≤ i) }
      disk := fun b =>
        if b = 6 then (Page.zero.setWord 0 0xFFFFFFDE).setWord 4 8
        else if b = 8 then (Page.zero.setWord 0 0xFFFFFF1E).setWord 4 7
        else if b = 7 then Page.zero.setWord 0 0xFFFFFFDE
        else Page.zero
      icache := fun _ => none }
  faults := []
  trace := []
  now := ⟨0, 0⟩
  fsuid := 0
  fsgid := 0

theorem deleteSlice_exact_threeBlocks :
    threeBlocks.fs.emptied 6 5 1 6 = true ∧
    ∃ k', deleteSlice threeBlocks 6 5 1 = .ok (0, k') ∧
      SlicesDeleted threeBlocks.fs k'.fs [6, 8, 7] 6 5 1 := by
  have hchain : SlicedChain threeBlocks.fs [6, 8, 7] :=
    ⟨⟨rfl, by decide, by decide +kernel, by decide, by decide +kernel, by decide,
      by show threeBlocks.fs.next 7 = 0; decide +kernel⟩, by decide, by decide, by decide +kernel,
      rfl⟩
  exact ⟨by decide +kernel, deleteSlice_exact rfl hchain (by decide) (by decide) (by decide)
    (by decide) (by decide) (by decide) (by decide) (by decide)⟩

end Ouichefs
