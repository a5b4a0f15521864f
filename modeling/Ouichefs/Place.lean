import Ouichefs.SmallFile
import Ouichefs.Prune

/-!
# Placing a small file

What the search of `write_small_file` does when every kernel service succeeds: it takes the
lowest fitting run of the first chain block that has one; otherwise it appends one new block to
the chain and takes its first slices; otherwise no block is free, and the failed allocation is
handed back as block 0.
-/

set_option autoImplicit false

namespace Ouichefs

open FreeMap

/-- The block an event reads. -/
def Event.read? : Event → Option Nat
  | .bread b => some b
  | _ => none

/-- The blocks that were read, in order. -/
def Kernel.reads (k : Kernel) : List Nat := k.trace.filterMap Event.read?

section Reads

variable (k : Kernel) (b : Nat)

theorem Kernel.reads_bread : (k.log (.bread b)).reads = k.reads ++ [b] := by
  simp [Kernel.reads, Event.read?]

theorem Kernel.reads_brelse : (k.brelse b).reads = k.reads := by
  simp [Kernel.reads, Event.read?]

variable {k} {b}

theorem Kernel.reads_sbBread {k' : Kernel} (h : k.sbBread b = (true, k')) :
    k'.reads = k.reads ++ [b] := by
  unfold Kernel.sbBread at h
  split at h
  · cases h
  · split at h <;> cases h <;> exact k.reads_bread b

theorem Kernel.reads_getFreeBlock (k : Kernel) : k.getFreeBlock.2.reads = k.reads := by
  unfold Kernel.getFreeBlock
  split
  simp only
  split
  · simp [Kernel.reads, Event.read?]
  · rfl

/-- A new sliced block has been read. -/
theorem allocateAndInitSliceBlock_reads {k' : Kernel} (hb : 0 < b)
    (h : allocateAndInitSliceBlock k = ((b : Int), k')) : k'.reads = k.reads ++ [b] := by
  have hget := k.reads_getFreeBlock
  unfold allocateAndInitSliceBlock at h
  split at h
  rename_i a k₁ heq
  have hget : k₁.reads = k.reads := by
    rw [heq] at hget
    exact hget
  split at h
  · simp only [Prod.mk.injEq] at h
    have : -ENOSPC < 0 := by decide
    omega
  · unfold initSliceBlock at h
    cases hread : k₁.sbBread a with
    | mk ok k₂ =>
        rw [hread] at h
        cases ok with
        | false =>
            simp only [Prod.mk.injEq] at h
            have : - EIO < 0 := by decide
            omega
        | true =>
            simp only [Prod.mk.injEq] at h
            obtain ⟨hab, rfl⟩ := h
            have hab : a = b := by omega
            subst hab
            rw [← hget]
            exact (Kernel.reads_sbBread hread : k₂.reads = _)

end Reads

/-- A new sliced block `b`, linked behind `last` or as the head of the chain. -/
def Fs.growChain (fs : Fs) (last : Option Nat) (b : Nat) : Fs :=
  let fs := fs.setSbi { fs.sbi with
    bfreeBitmap := Function.update fs.sbi.bfreeBitmap b false,
    nrFreeBlocks := fs.sbi.nrFreeBlocks - 1,
    nrSlicedBlocks := add32 fs.sbi.nrSlicedBlocks 1 }
  let fs := fs.setBlock b (setSliceBitmap (fs.disk b) bitmapAllFree)
  match last with
  | some p => fs.setBlock p (setSliceNext (fs.disk p) b)
  | none => fs.setSbi { fs.sbi with sFreeSlicedBlocks := b }

/-- What the allocator needs to know. -/
structure AllocOk (fs : Fs) : Prop where
  bit0 : fs.sbi.bfreeBitmap 0 = false
  blocks : fs.sbi.nrBlocks ≤ 134217728
  count : fs.sbi.nrFreeBlocks = countBits fs.sbi.bfreeBitmap fs.sbi.nrBlocks

/-- `allocate_and_init_slice_block` initialises the least free block; it hands back a block whose
number does not fit `index_block`, and block 0 when no block is free. -/
theorem allocateAndInitSliceBlock_bits {k : Kernel} (hf : k.faults = [])
    (h0 : k.fs.sbi.bfreeBitmap 0 = false) (hlt : k.fs.sbi.nrFreeBlocks < 4294967296) :
    (∃ b k', 0 < b ∧ b < k.fs.sbi.nrBlocks ∧ k.fs.sbi.bfreeBitmap b = true ∧
      (∀ j < b, k.fs.sbi.bfreeBitmap j = false) ∧
      (b ≤ 134217728 ∧ allocateAndInitSliceBlock k = ((b : Int), k') ∧ k'.faults = [] ∧
          (k'.AllocFailed ↔ k.AllocFailed) ∧
          k'.fs = (k.fs.setSbi { k.fs.sbi with
            bfreeBitmap := Function.update k.fs.sbi.bfreeBitmap b false,
            nrFreeBlocks := sub32 k.fs.sbi.nrFreeBlocks 1,
            nrSlicedBlocks := add32 k.fs.sbi.nrSlicedBlocks 1 }).setBlock b
              (setSliceBitmap (k.fs.disk b) bitmapAllFree) ∨
        134217728 < b ∧ allocateAndInitSliceBlock k = (-ENOSPC, k') ∧ k'.fs = k.fs)) ∨
    ((∀ b < k.fs.sbi.nrBlocks, k.fs.sbi.bfreeBitmap b = false) ∧
      allocateAndInitSliceBlock k = (-ENOSPC, (k.log .noFreeBlock).putBlock 0)) := by
  rcases Kernel.getFreeBlock_bits h0 with ⟨b, hpos, hb, hfree, hleast, heq⟩ | ⟨hnone, heq⟩
  · by_cases hle : b ≤ 134217728
    · have hne : ¬(b = 0 ∨ b > 134217728) := by omega
      left
      have hal := (allocateAndInitSliceBlock_exits k).2 (.initialised heq hne
        (Kernel.sbBread_ok (by simpa using hf) (by simpa using hb)) rfl)
      exact ⟨b, _, hpos, hb, hfree, hleast, Or.inl ⟨hle, hal, hf, by simp, rfl⟩⟩
    · have hgt : b = 0 ∨ b > 134217728 := by omega
      left
      refine ⟨b, _, hpos, hb, hfree, hleast, Or.inr ⟨by omega,
        (allocateAndInitSliceBlock_exits k).2 (.noBlock heq hgt rfl), ?_⟩⟩
      rw [Kernel.putBlock_eq (by exact Nat.le_of_lt hb)]
      have hmap : Function.update (Function.update k.fs.sbi.bfreeBitmap b false) b true =
          k.fs.sbi.bfreeBitmap := by
        rw [Function.update_idem, ← hfree, Function.update_eq_self]
      simp only [Kernel.fs_setSbi, Fs.sbi_setSbi, hmap, add32_sub32 hlt]
      rfl
  · right
    exact ⟨hnone, (allocateAndInitSliceBlock_exits k).2 (.noBlock heq (Or.inl rfl) rfl)⟩

/-- Where every block number fits and the counter is exact. -/
theorem allocateAndInitSliceBlock_cases {k : Kernel} (hf : k.faults = []) (h : AllocOk k.fs) :
    (∃ b k', 0 < b ∧ b < k.fs.sbi.nrBlocks ∧ k.fs.sbi.bfreeBitmap b = true ∧
      allocateAndInitSliceBlock k = ((b : Int), k') ∧ k'.faults = [] ∧
      (k'.AllocFailed ↔ k.AllocFailed) ∧
      k'.fs = (k.fs.setSbi { k.fs.sbi with
        bfreeBitmap := Function.update k.fs.sbi.bfreeBitmap b false,
        nrFreeBlocks := k.fs.sbi.nrFreeBlocks - 1,
        nrSlicedBlocks := add32 k.fs.sbi.nrSlicedBlocks 1 }).setBlock b
          (setSliceBitmap (k.fs.disk b) bitmapAllFree)) ∨
    ((∀ b < k.fs.sbi.nrBlocks, k.fs.sbi.bfreeBitmap b = false) ∧
      allocateAndInitSliceBlock k = (-ENOSPC, (k.log .noFreeBlock).putBlock 0)) := by
  have hle := h.blocks
  have hcount := countBits_le k.fs.sbi.bfreeBitmap k.fs.sbi.nrBlocks
  have hlt : k.fs.sbi.nrFreeBlocks < 4294967296 := by have := h.count; omega
  rcases allocateAndInitSliceBlock_bits hf h.bit0 hlt with
    ⟨b, k', hpos, hb, hfree, -, ⟨-, heq, hf', ha', hfs⟩ | ⟨hgt, -⟩⟩ | hnone
  · have hpos' : 0 < k.fs.sbi.nrFreeBlocks := by
      rw [h.count]
      exact countBits_pos_iff.2 ⟨b, hb, hfree⟩
    rw [sub32_of_le hlt hpos'] at hfs
    exact Or.inl ⟨b, k', hpos, hb, hfree, heq, hf', ha', hfs⟩
  · omega
  · exact Or.inr hnone

/-- The outcome of a search in the blocks `l`, the last of which is `last`. -/
inductive PlaceCases (k : Kernel) (l : List Nat) (ino n : Nat)
    (run : Outcome (Except Int (Nat × Nat))) : Prop
  | found (pre post : List Nat) (b s : Nat) (k' : Kernel) (split : l = pre ++ b :: post)
      (none_before : ∀ c ∈ pre, NoRun (sliceBitmap (k.fs.disk c)) n)
      (least : LeastRun (sliceBitmap (k.fs.disk b)) n s) (eq : run = .ok (.ok (b, s), k'))
      (faults : k'.faults = []) (alloc : k'.AllocFailed ↔ k.AllocFailed)
      (fs : k'.fs = k.fs.takeSlices b ino n s)
  | grown (b : Nat) (k' : Kernel) (none_found : ∀ c ∈ l, NoRun (sliceBitmap (k.fs.disk c)) n)
      (pos : 0 < b) (lt : b < k.fs.sbi.nrBlocks) (free : k.fs.sbi.bfreeBitmap b = true)
      (eq : run = .ok (.ok (b, 1), k')) (faults : k'.faults = [])
      (alloc : k'.AllocFailed ↔ k.AllocFailed)
      (fs : k'.fs = (k.fs.growChain l.getLast? b).takeSlices b ino n 1)
  | full (none_found : ∀ c ∈ l, NoRun (sliceBitmap (k.fs.disk c)) n)
      (none_free : ∀ b < k.fs.sbi.nrBlocks, k.fs.sbi.bfreeBitmap b = false)
      (failed : run.kernel.AllocFailed)
      (bit0 : run.kernel.fs.sbi.bfreeBitmap 0 = true)
      (nonpos : ∀ r k', run = .ok (r, k') → ∃ e, e ≤ 0 ∧ r = .error e)

/-- A fresh sliced block offers its first slices. -/
theorem getConsequitiveFreeSlices_fresh {k : Kernel} {bno size : Nat} (ino : Nat)
    (h2 : size ≤ 3968) (hb : sliceBitmap (k.fs.disk bno) = bitmapAllFree) :
    getConsequitiveFreeSlices k bno ino size =
      (1, { k with fs := k.fs.takeSlices bno ino (divRoundUp size 128) 1 }) := by
  have hn := divRoundUp_128_le h2
  have hrun : HasRun (sliceBitmap (k.fs.disk bno)) (divRoundUp size 128) 1 := by
    rw [hb]; exact bitmapAllFree_hasRun hn
  rcases getConsequitiveFreeSlices_cases k bno ino h2 with ⟨s, hs, heq⟩ | ⟨hno, -⟩
  · have : s = 1 := by
      by_contra hne
      exact hs.least 1 (Nat.le_refl _) (by have := hs.pos; omega) hrun
    rw [heq, this]
  · exact absurd hrun (hno 1 (Nat.le_refl _) (by omega))

theorem searchChain_found (fuel : Nat) {k k' : Kernel} {ino size cur s : Nat} (hs : 1 ≤ s)
    (h : getConsequitiveFreeSlices k cur ino size = (s, k')) :
    searchChain (fuel + 1) k ino size cur = .ok (.ok (cur, s), k') :=
  (searchChain_exits _ _ _ _ _).2 (.found (Nat.pos_iff_ne_zero.1 hs) h rfl)

/-- The end of the search: a new block behind `last`, searched next. -/
def appendBlock (fuel : Nat) (k : Kernel) (ino size last : Nat) :
    Outcome (Except Int (Nat × Nat)) :=
  match allocateAndInitSliceBlock k with
  | (freeBlock, k) =>
    if freeBlock ≤ 0 then .ok (.error freeBlock, k.brelse last)
    else
      searchChain fuel ((k.setBlock last (setSliceNext (k.fs.disk last) freeBlock.toNat)).brelse
        last) ino size freeBlock.toNat

theorem searchChain_last (fuel : Nat) {k k' : Kernel} {ino size cur : Nat}
    (h : getConsequitiveFreeSlices k cur ino size = (0, k'))
    (hnext : sliceNext (k'.fs.disk cur) = 0) :
    searchChain (fuel + 1) k ino size cur = appendBlock fuel k' ino size cur := by
  unfold appendBlock
  rcases hal : allocateAndInitSliceBlock k' with ⟨ret, k₁⟩
  by_cases hret : ret ≤ 0
  · simp only [hret, if_true]
    exact (searchChain_exits _ _ _ _ _).2 (.noBlock h hnext hal hret rfl)
  · simp only [hret, if_false]
    exact (searchChain_exits _ _ _ _ _).2 (.linked h hnext hal (Int.not_le.1 hret) rfl)

/-- The outcome of a walk over the blocks `l`: a run of free slices, or the end of the chain, with
nothing changed but the trace. -/
inductive WalkCases (k : Kernel) (l : List Nat) (ino size : Nat)
    (run : Outcome (Except Int (Nat × Nat))) : Prop
  | found (pre post : List Nat) (b s : Nat) (k' : Kernel) (split : l = pre ++ b :: post)
      (none_before : ∀ c ∈ pre, NoRun (sliceBitmap (k.fs.disk c)) (divRoundUp size 128))
      (least : LeastRun (sliceBitmap (k.fs.disk b)) (divRoundUp size 128) s)
      (eq : run = .ok (.ok (b, s), k')) (faults : k'.faults = [])
      (alloc : k'.AllocFailed ↔ k.AllocFailed)
      (fs : k'.fs = k.fs.takeSlices b ino (divRoundUp size 128) s)
      (reads : k'.reads = k.reads ++ (pre ++ [b]).tail)
  | ends (fuel last : Nat) (k' : Kernel)
      (none_found : ∀ c ∈ l, NoRun (sliceBitmap (k.fs.disk c)) (divRoundUp size 128))
      (getLast : l.getLast? = some last) (faults : k'.faults = [])
      (alloc : k'.AllocFailed ↔ k.AllocFailed) (fs : k'.fs = k.fs)
      (eq : run = appendBlock (fuel + 1) k' ino size last) (reads : k'.reads = k.reads ++ l.tail)

/-- The search loop, by induction on the blocks behind `cur`. -/
theorem searchChain_walk (ino : Nat) {size : Nat} (h2 : size ≤ 3968) :
    ∀ (post : List Nat) (fuel : Nat) (k : Kernel) (cur : Nat), k.faults = [] →
      IsSeg k.fs.next cur (cur :: post) 0 → (∀ b ∈ cur :: post, b < k.fs.sbi.nrBlocks) →
      (cur :: post).length + 1 ≤ fuel →
      WalkCases k (cur :: post) ino size (searchChain fuel k ino size cur) := by
  intro post
  induction post with
  | nil =>
      intro fuel k cur hf hseg hin hfuel
      obtain ⟨fuel, rfl⟩ : ∃ n, fuel = n + 2 := ⟨fuel - 2, by simp at hfuel; omega⟩
      obtain ⟨-, hne, hnext⟩ := hseg
      have hnext : sliceNext (k.fs.disk cur) = 0 := hnext
      rcases getConsequitiveFreeSlices_cases k cur ino h2 with ⟨s, hs, heq⟩ | ⟨hno, heq⟩
      · exact .found [] [] cur s _ rfl (by simp) hs (searchChain_found _ hs.pos heq) hf Iff.rfl rfl
          (List.append_nil _).symm
      · exact .ends fuel cur k (by simpa using hno) rfl hf Iff.rfl rfl
          (searchChain_last _ heq hnext) (List.append_nil _).symm
  | cons next post ih =>
      intro fuel k cur hf hseg hin hfuel
      obtain ⟨fuel, rfl⟩ : ∃ n, fuel = n + 1 := ⟨fuel - 1, by simp at hfuel; omega⟩
      obtain ⟨-, hne, hseg⟩ := hseg
      have hnext : sliceNext (k.fs.disk cur) = next := hseg.1
      have hnz : next ≠ 0 := hseg.2.1
      rcases getConsequitiveFreeSlices_cases k cur ino h2 with ⟨s, hs, heq⟩ | ⟨hno, heq⟩
      · exact .found [] _ cur s _ rfl (by simp) hs (searchChain_found _ hs.pos heq) hf Iff.rfl rfl
          (List.append_nil _).symm
      · have hread := Kernel.sbBread_ok hf (hin next (by simp))
        rw [(searchChain_exits fuel k ino size cur).2 (.next heq (by rwa [hnext])
          (by rw [hnext]; exact hread) rfl), hnext]
        have hseg' : IsSeg k.fs.next next (next :: post) 0 := by
          have := hseg
          rw [show k.fs.next cur = next from hnext] at this
          exact this
        have hrec := ih fuel ((k.log (.bread next)).brelse cur) next (by simpa using hf) hseg'
          (fun b hb => hin b (List.mem_cons_of_mem _ hb)) (by simp at hfuel ⊢; omega)
        -- the walk so far changed nothing but the trace
        cases hrec with
        | found pre post' b s k' hsplit hpre hs heq' hf' ha' hfs hreads =>
            refine .found (cur :: pre) post' b s k' (by rw [hsplit]; rfl) ?_ hs heq' hf' ?_ hfs ?_
            · intro c hc
              rcases List.mem_cons.1 hc with rfl | hc
              · exact hno
              · exact hpre c hc
            · rw [ha']; simp
            · rw [hreads, Kernel.reads_brelse, Kernel.reads_bread]
              cases pre with
              | nil => cases hsplit; simp
              | cons a pre => cases hsplit; simp
        | ends fuel' last k' hn hlast hf' ha' hfs heq' hreads =>
            refine .ends fuel' last k' ?_ ?_ hf' ?_ hfs heq' ?_
            · intro c hc
              rcases List.mem_cons.1 hc with rfl | hc
              · exact hno
              · exact hn c hc
            · rw [List.getLast?_cons_cons]; exact hlast
            · rw [ha']; simp
            · rw [hreads, Kernel.reads_brelse, Kernel.reads_bread]; simp

/-- A new block offers its first slices. -/
theorem searchChain_fresh (fuel ino : Nat) {k : Kernel} {size b : Nat}
    (h2 : size ≤ 3968) (hb : sliceBitmap (k.fs.disk b) = bitmapAllFree) :
    searchChain (fuel + 1) k ino size b =
      .ok (.ok (b, 1), { k with fs := k.fs.takeSlices b ino (divRoundUp size 128) 1 }) :=
  searchChain_found fuel (Nat.le_refl 1) (getConsequitiveFreeSlices_fresh ino h2 hb)

/-- The search of a chain of used blocks. -/
theorem searchChain_spec (ino : Nat) {size : Nat} (h2 : size ≤ 3968)
    (post : List Nat) (fuel : Nat) (k : Kernel) (cur : Nat) (hf : k.faults = []) (ha : AllocOk k.fs)
    (hseg : IsSeg k.fs.next cur (cur :: post) 0)
    (hin : ∀ b ∈ cur :: post, b < k.fs.sbi.nrBlocks ∧ k.fs.sbi.bfreeBitmap b = false)
    (hfuel : (cur :: post).length + 1 ≤ fuel) :
    PlaceCases k (cur :: post) ino (divRoundUp size 128) (searchChain fuel k ino size cur) := by
  cases searchChain_walk ino h2 post fuel k cur hf hseg (fun b hb => (hin b hb).1) hfuel with
  | found pre post' b s k' hsplit hpre hs heq hf' ha' hfs =>
      exact .found pre post' b s k' hsplit hpre hs heq hf' ha' hfs
  | ends fuel' last k₁ hnone hlast hf₁ ha₁ hfs₁ heq =>
      rw [heq]
      unfold appendBlock
      rcases allocateAndInitSliceBlock_cases hf₁ (hfs₁.symm ▸ ha) with
        ⟨b, k', hpos, hb, hfree, hal, hf', hal', hfs⟩ | ⟨hfull, hal⟩
      · -- the new block is linked behind `last` and searched next
        rw [hfs₁] at hb hfree hfs
        have hbl : b ≠ last := by
          rintro rfl
          rw [(hin b (List.mem_of_getLast? hlast)).2] at hfree
          cases hfree
        have hnle : ¬((b : Int) ≤ 0) := by omega
        simp only [hal, hnle, if_false, Int.toNat_natCast]
        have hgrow : ((k'.setBlock last (setSliceNext (k'.fs.disk last) b)).brelse last).fs =
            k.fs.growChain (some last) b := by
          simp only [Kernel.fs_brelse, Kernel.fs_setBlock, hfs]
          rfl
        have hrun := searchChain_fresh fuel' ino h2
          (show sliceBitmap (((k'.setBlock last (setSliceNext (k'.fs.disk last) b)).brelse last).fs.disk
            b) = bitmapAllFree by simp [hfs, hbl])
        refine .grown b _ hnone hpos hb hfree hrun hf' ?_ ?_
        · exact Iff.trans (by simpa [Kernel.AllocFailed] using hal') ha₁
        · show Fs.takeSlices _ _ _ _ _ = _
          rw [hgrow, hlast]
      · rw [hfs₁] at hfull
        simp only [hal]
        have hle : -ENOSPC ≤ 0 := by decide
        simp only [hle, if_true]
        refine .full hnone hfull ?_ ?_ ?_
        · simp [Outcome.kernel, Kernel.putBlock]
        · simp [Outcome.kernel, Kernel.putBlock, SbInfo.putBlock, putFreeBit]
        · intro r k' h
          cases h
          exact ⟨_, hle, rfl⟩

/-- What the search needs to know about the chain. -/
structure ChainOk (fs : Fs) (chain : List Nat) : Prop where
  alloc : AllocOk fs
  isChain : IsLinked fs.next fs.sbi.sFreeSlicedBlocks chain
  nodup : chain.Nodup
  inUse : ∀ b ∈ chain, b < fs.sbi.nrBlocks ∧ fs.sbi.bfreeBitmap b = false
  sliced : fs.sbi.nrSlicedBlocks = chain.length

theorem ChainOk.length_le {fs : Fs} {chain : List Nat} (h : ChainOk fs chain) :
    chain.length ≤ fs.sbi.nrBlocks := by
  have hsub : ∀ c ∈ chain, c ∈ List.range fs.sbi.nrBlocks := fun c hc =>
    List.mem_range.2 (h.inUse c hc).1
  simpa using (h.nodup.subperm hsub).length_le

theorem searchFuel_le {sbi : SbInfo} {n : Nat} (h : n ≤ sbi.nrBlocks) :
    n + 1 ≤ searchFuel sbi := by
  have : sbi.nrBlocks + 2 ≤ searchFuel sbi := Nat.le_mul_of_pos_left _ (by omega)
  omega

/-- **The search for slices.** -/
theorem placeSlices_spec {k : Kernel} {chain : List Nat} (ino : Nat) {size : Nat}
    (hf : k.faults = []) (h : ChainOk k.fs chain) (h2 : size ≤ 3968) :
    PlaceCases k chain ino (divRoundUp size 128) (placeSlices k ino size) := by
  have hlen := h.length_le
  cases chain with
  | nil =>
      have h0 : k.fs.sbi.sFreeSlicedBlocks = 0 := h.isChain
      rcases allocateAndInitSliceBlock_cases hf h.alloc with
        ⟨b, k', hpos, hb, hfree, hal, hf', hal', hfs⟩ | ⟨hfull, hal⟩
      · have hble := h.alloc.blocks
        have hmod : ((b : Int) % 4294967296).toNat = b := by omega
        rw [(placeSlices_exits k ino size).2 (.newHead h0 hal (by omega) (by omega) rfl), hmod]
        have hbm : sliceBitmap
            ((k'.setSbi { k'.fs.sbi with sFreeSlicedBlocks := b }).fs.disk b) = bitmapAllFree := by
          simp [hfs]
        obtain ⟨fuel, hfuel⟩ : ∃ n, searchFuel k'.fs.sbi = n + 1 :=
          Nat.exists_eq_succ_of_ne_zero (Nat.ne_of_gt (searchFuel_le (Nat.zero_le _)))
        have hrun := searchChain_found fuel (by decide)
          (getConsequitiveFreeSlices_fresh ino h2 hbm)
        rw [hfuel]
        refine .grown b _ (by simp) hpos hb hfree hrun hf'
          (by simpa [Kernel.AllocFailed] using hal') ?_
        show Fs.takeSlices _ _ _ _ _ = _
        rw [Kernel.fs_setSbi, hfs]
        rfl
      · have hne : (-ENOSPC % 4294967296).toNat ≠ 0 := by decide
        have hle : -ENOSPC ≤ 0 := by decide
        rw [(placeSlices_exits k ino size).2 (.badHead h0 hal hne hle rfl)]
        refine .full (by simp) hfull ?_ ?_ ?_
        · simp [Outcome.kernel, Kernel.putBlock]
        · simp [Outcome.kernel, Kernel.putBlock, SbInfo.putBlock, putFreeBit]
        · intro r k' h
          cases h
  | cons head post =>
      obtain ⟨hhead, hne, hseg⟩ := h.isChain
      have hb := (h.inUse head List.mem_cons_self).1
      rw [(placeSlices_exits k ino size).2 (.searched (by rwa [hhead])
        (Kernel.sbBread_ok hf (by rwa [hhead])) rfl), hhead]
      have hspec := searchChain_spec ino h2 post (searchFuel k.fs.sbi)
        (k.log (.bread head)) head (by simpa using hf) h.alloc ⟨rfl, hne, hseg⟩ h.inUse
        (searchFuel_le hlen)
      cases hspec with
      | found pre post' b s k' hsplit hpre hs heq hf' ha hfs =>
          exact .found pre post' b s k' hsplit hpre hs heq hf' (by rw [ha]; simp) hfs
      | grown b k' hn hpos hlt hfree heq hf' ha hfs =>
          exact .grown b k' hn hpos hlt hfree heq hf' (by rw [ha]; simp) hfs
      | full hn hfull hfail hbit hnonpos => exact .full hn hfull hfail hbit hnonpos

/-! ## Copying the data -/

/-- Data written at `pos` into the slices from `s` on of block `b`, and the inode that goes with
it. -/
def Fs.fillSlices (fs : Fs) (ino : Nat) (now : Timespec) (data : List UInt8)
    (pos newSize b s : Nat) : Fs :=
  ((fs.setBlock b ((fs.disk b).blit (s * 128 + pos) data)).setSbi
    { fs.sbi with nrUsedSlices := add32 fs.sbi.nrUsedSlices (divRoundUp newSize 128) }).setInode ino
    { fs.inode ino with
      iSize := newSize, iMtime := now, iCtime := now, indexBlock := add32 (32 * b) s }

theorem copyToSlices_ok {k : Kernel} (hf : k.faults = []) (ino : Nat) (iocb : Kiocb)
    (data : List UInt8) (pos newSize b s : Nat) :
    ∃ k', copyToSlices k ino iocb data pos newSize b s =
        .ok (((data.length : Int), { iocb with kiPos := pos }), k') ∧
      k'.faults = [] ∧ (k'.AllocFailed ↔ k.AllocFailed) ∧
      k'.fs = k.fs.fillSlices ino k.now data pos newSize b s := by
  have hcopy : k.copyFromIter data.length data = (data, k) := by
    rw [Kernel.copyFromIter_ok hf, List.take_length]
  refine ⟨_, (copyToSlices_exits _ _ _ _ _ _ _ _).2 (.copied hcopy rfl rfl), hf, ?_, ?_⟩
  · simp
  · simp [Fs.fillSlices, Kernel.inode]

/-- Copying into slices reads no block. -/
theorem copyToSlices_reads (k : Kernel) (ino : Nat) (iocb : Kiocb) (data : List UInt8)
    (pos newSize b s : Nat) :
    (copyToSlices k ino iocb data pos newSize b s).kernel.reads = k.reads := by
  have hreads : ∀ copied k₁, k.copyFromIter data.length data = (copied, k₁) →
      k₁.reads = k.reads := by
    intro copied k₁ hcopy
    unfold Kernel.copyFromIter at hcopy
    split at hcopy <;> cases hcopy <;> rfl
  cases (copyToSlices_exits k ino iocb data pos newSize b s).1 rfl with
  | fault hcopy hlen eq =>
      have hk := hreads _ _ hcopy
      rw [eq]
      exact ((Kernel.reads_brelse _ _).trans (Kernel.reads_brelse _ _)).trans hk
  | copied hcopy hlen eq =>
      have hk := hreads _ _ hcopy
      rw [eq]
      exact (Kernel.reads_brelse _ _).trans hk

/-- A small file stored in slices `s …` of block `b`. -/
def Fs.storeSmall (fs : Fs) (ino : Nat) (now : Timespec) (data : List UInt8) (pos b s : Nat) : Fs :=
  (fs.takeSlices b ino (divRoundUp (pos + data.length) 128) s).fillSlices ino now data pos
    (pos + data.length) b s

/-- The outcomes of a first write. -/
inductive StoreCases (k : Kernel) (chain : List Nat) (ino : Nat) (iocb : Kiocb) (data : List UInt8)
    (pos : Nat) (run : Outcome (Int × Kiocb)) : Prop
  | found (b s : Nat) (t : Timespec) (k' : Kernel) (mem : b ∈ chain)
      (least : LeastRun (sliceBitmap (k.fs.disk b)) (divRoundUp (pos + data.length) 128) s)
      (eq : run = .ok (((data.length : Int), { iocb with kiPos := pos }), k'))
      (faults : k'.faults = []) (alloc : k'.AllocFailed ↔ k.AllocFailed)
      (fs : k'.fs = k.fs.storeSmall ino t data pos b s)
  | grown (b : Nat) (t : Timespec) (k' : Kernel)
      (none_found : ∀ c ∈ chain,
        NoRun (sliceBitmap (k.fs.disk c)) (divRoundUp (pos + data.length) 128))
      (hpos : 0 < b) (lt : b < k.fs.sbi.nrBlocks) (free : k.fs.sbi.bfreeBitmap b = true)
      (eq : run = .ok (((data.length : Int), { iocb with kiPos := pos }), k'))
      (faults : k'.faults = []) (alloc : k'.AllocFailed ↔ k.AllocFailed)
      (fs : k'.fs = (k.fs.growChain chain.getLast? b).storeSmall ino t data pos b 1)
  | full (none_found : ∀ c ∈ chain,
        NoRun (sliceBitmap (k.fs.disk c)) (divRoundUp (pos + data.length) 128))
      (none_free : ∀ b < k.fs.sbi.nrBlocks, k.fs.sbi.bfreeBitmap b = false)
      (failed : run.kernel.AllocFailed)
      (bit0 : run.kernel.fs.sbi.bfreeBitmap 0 = true)
      (nonpos : ∀ r k', run = .ok (r, k') → r.1 ≤ 0)

/-- **The first write of a file.** -/
theorem writeSmallFileNew_spec {k : Kernel} {chain : List Nat} {ino : Nat} {iocb : Kiocb}
    {data : List UInt8} {pos : Nat} (hf : k.faults = []) (h : ChainOk k.fs chain)
    (hsize : (k.inode ino).iSize = 0) (hpos : iocb.startPos (k.inode ino) = pos)
    (h2 : pos + data.length ≤ 3968) :
    StoreCases k chain ino iocb data pos (writeSmallFileNew k ino iocb data) := by
  have hplaces := placeSlices_spec ino hf h h2
  have hmax : max (iocb.startPos (k.inode ino) + data.length) (k.inode ino).iSize =
      pos + data.length := by rw [hpos, hsize, Nat.max_zero]
  have hplaced : ∀ {b s : Nat} {k₁ : Kernel},
      placeSlices k ino (pos + data.length) = .ok (.ok (b, s), k₁) →
      writeSmallFileNew k ino iocb data =
        copyToSlices k₁ ino iocb data pos (pos + data.length) b s := fun heq => by
    rw [(writeSmallFileNew_exits k ino iocb data).2 (.placed (by rw [hmax]; exact heq) rfl), hmax,
      hpos]
  cases hplaces with
  | found pre post b s k₁ hsplit hpre hs heq hf₁ ha₁ hfs₁ =>
      obtain ⟨k', hrun, hf', ha', hfs'⟩ :=
        copyToSlices_ok hf₁ ino iocb data pos (pos + data.length) b s
      refine .found b s k₁.now k' (by simp [hsplit]) hs ((hplaced heq).trans hrun) hf'
        (ha'.trans ha₁) ?_
      rw [hfs', hfs₁]
      rfl
  | grown b k₁ hnone hb hlt hfree heq hf₁ ha₁ hfs₁ =>
      obtain ⟨k', hrun, hf', ha', hfs'⟩ :=
        copyToSlices_ok hf₁ ino iocb data pos (pos + data.length) b 1
      refine .grown b k₁.now k' hnone hb hlt hfree ((hplaced heq).trans hrun) hf'
        (ha'.trans ha₁) ?_
      rw [hfs', hfs₁]
      rfl
  | full hnone hfull hfail hbit hnonpos =>
      cases (writeSmallFileNew_exits k ino iocb data).1 rfl with
      | stopped hplace eq =>
          rw [hmax] at hplace
          rw [hplace] at hfail hbit
          rw [eq]
          exact .full hnone hfull hfail hbit fun r k' h => by cases h
      | noPlace hplace eq =>
          rw [hmax] at hplace
          obtain ⟨e, he, hres⟩ := hnonpos _ _ hplace
          cases hres
          rw [hplace] at hfail hbit
          rw [eq]
          refine .full hnone hfull hfail hbit fun r k' h => ?_
          cases h
          exact he
      | placed hplace eq =>
          rw [hmax] at hplace
          obtain ⟨e, he, hres⟩ := hnonpos _ _ hplace
          cases hres

end Ouichefs
