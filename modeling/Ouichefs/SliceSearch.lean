import Ouichefs.Slice

/-!
# Slice bitmaps and the search for free slices

Reading and updating the header of a sliced block, and the specification of
`get_consequitive_free_slices`: it takes the lowest run of free slices that is long enough, and
changes nothing if there is none.
-/

set_option autoImplicit false

namespace Ouichefs

/-! ## The header -/

variable {b b' : Block}

@[simp] theorem sliceBitmap_setSliceBitmap (b : Block) (v : BitVec 32) :
    sliceBitmap (setSliceBitmap b v) = v := by
  unfold sliceBitmap setSliceBitmap
  rw [Page.word_setWord b (by decide)]
  apply BitVec.eq_of_toNat_eq
  have hv : v.toNat < 4294967296 := v.isLt
  simp [hv]

@[simp] theorem setSliceBitmap_self (b : Block) : setSliceBitmap b (sliceBitmap b) = b := by
  have hw : (sliceBitmap b).toNat = b.word 0 := by
    have := b.word_lt 0
    unfold sliceBitmap
    simp only [BitVec.toNat_ofNat]
    omega
  unfold setSliceBitmap
  rw [hw]
  exact b.setWord_word (by decide)

@[simp] theorem sliceNext_setSliceBitmap (b : Block) (v : BitVec 32) :
    sliceNext (setSliceBitmap b v) = sliceNext b :=
  Page.word_setWord_of_disjoint b (by decide) (by decide)

@[simp] theorem sliceBitmap_setSliceNext (b : Block) (v : Nat) :
    sliceBitmap (setSliceNext b v) = sliceBitmap b := by
  unfold sliceBitmap setSliceNext
  rw [Page.word_setWord_of_disjoint b (by decide) (by decide)]

theorem sliceNext_setSliceNext (b : Block) {v : Nat} (h : v < 4294967296) :
    sliceNext (setSliceNext b v) = v := by
  unfold sliceNext setSliceNext
  rw [Page.word_setWord b (by decide), Nat.mod_eq_of_lt h]

theorem get_setSliceBitmap (b : Block) (v : BitVec 32) {i : Nat} (h : 4 ≤ i) :
    (setSliceBitmap b v).get i = b.get i := by
  unfold setSliceBitmap
  rw [Page.get_setWord b (by decide), if_neg (by omega)]

theorem get_setSliceNext (b : Block) (v : Nat) {i : Nat} (h : ¬(4 ≤ i ∧ i < 8)) :
    (setSliceNext b v).get i = b.get i := by
  unfold setSliceNext
  rw [Page.get_setWord b (by decide), if_neg h]

theorem sliceNext_lt (b : Block) : sliceNext b < 4294967296 := Page.word_lt b 4

@[simp] theorem sliceNext_zero : sliceNext Page.zero = 0 := Page.word_zero 4

@[simp] theorem sliceBitmap_zero : sliceBitmap Page.zero = 0 := by
  unfold sliceBitmap
  rw [Page.word_zero]
  rfl

/-- The header is untouched by changes past byte 8. -/
theorem sliceBitmap_congr (h : ∀ i < 4, b'.get i = b.get i) : sliceBitmap b' = sliceBitmap b := by
  have hw : b'.word 0 = b.word 0 := Page.word_congr fun i hi => by simpa using h i hi
  unfold sliceBitmap
  rw [hw]

theorem sliceNext_congr (h : ∀ i, 4 ≤ i → i < 8 → b'.get i = b.get i) :
    sliceNext b' = sliceNext b :=
  Page.word_congr fun i hi => h (4 + i) (by omega) (by omega)

/-! ## Runs of free slices -/

/-- Slices `i … i + n - 1` are free. -/
def HasRun (bitmap : BitVec 32) (n i : Nat) : Prop :=
  ∀ j, i ≤ j → j < i + n → bitmap.getLsbD j = true

theorem bitmapAllFree_getLsbD {j : Nat} (hj : j < 32) :
    bitmapAllFree.getLsbD j = decide (1 ≤ j) := by
  have h : bitmapAllFree = runMask 32 31 1 := by decide
  rw [h, getLsbD_runMask (by decide) hj]
  simp [hj]

theorem bitmapAllFree_hasRun {n : Nat} (hn : n ≤ 31) : HasRun bitmapAllFree n 1 := by
  intro j h1 h2
  rw [bitmapAllFree_getLsbD (by omega)]
  simpa using h1

/-- A bitmap with bit 0 clear and every other bit set is the all-free one. -/
theorem eq_bitmapAllFree {bm : BitVec 32} (h0 : bm.getLsbD 0 = false)
    (h : ∀ j, 1 ≤ j → j < 32 → bm.getLsbD j = true) : bm = bitmapAllFree := by
  apply BitVec.eq_of_getLsbD_eq
  intro j hj
  rw [bitmapAllFree_getLsbD hj]
  by_cases hj1 : 1 ≤ j
  · rw [h j hj1 hj, decide_eq_true hj1]
  · have : j = 0 := by omega
    subst this
    rw [h0]
    rfl

theorem searchSlices_spec {bitmap : BitVec 32} {n : Nat} (hn : n < 32) :
    ∀ m i, i + m + n ≤ 33 →
      (∃ s, i ≤ s ∧ s < i + m ∧ HasRun bitmap n s ∧ (∀ t, i ≤ t → t < s → ¬HasRun bitmap n t) ∧
        searchSlices bitmap m i (runMask 32 n i) = some (s, runMask 32 n s)) ∨
      ((∀ t, i ≤ t → t < i + m → ¬HasRun bitmap n t) ∧
        searchSlices bitmap m i (runMask 32 n i) = none) := by
  intro m
  induction m with
  | zero =>
      intro i _
      exact Or.inr ⟨fun t h1 h2 => by omega, rfl⟩
  | succ m ih =>
      intro i hle
      have hrun : bitmap ||| runMask 32 n i = bitmap ↔ HasRun bitmap n i :=
        or_runMask_eq_iff hn (by omega)
      by_cases hi : HasRun bitmap n i
      · refine Or.inl ⟨i, Nat.le_refl _, by omega, hi, fun t h1 h2 => by omega, ?_⟩
        rw [searchSlices, if_pos (hrun.2 hi)]
      · rw [searchSlices, if_neg (fun h => hi (hrun.1 h)), runMask_shiftLeft_one]
        -- a run cannot start at `i`, so the two alternatives carry over from `i + 1`
        rcases ih (i + 1) (by omega) with ⟨s, h1, h2, h3, h4, h5⟩ | ⟨h1, h2⟩
        · refine Or.inl ⟨s, by omega, by omega, h3, fun t ht1 ht2 => ?_, h5⟩
          by_cases hti : t = i
          · exact hti ▸ hi
          · exact h4 t (by omega) ht2
        · refine Or.inr ⟨fun t ht1 ht2 => ?_, h2⟩
          by_cases hti : t = i
          · exact hti ▸ hi
          · exact h1 t (by omega) (by omega)

theorem divRoundUp_128_le {size : Nat} (h : size ≤ 3968) : divRoundUp size 128 ≤ 31 := by
  unfold divRoundUp
  omega

theorem divRoundUp_128 {size : Nat} (h1 : 1 ≤ size) (h2 : size ≤ 3968) :
    1 ≤ divRoundUp size 128 ∧ divRoundUp size 128 ≤ 31 := by
  unfold divRoundUp
  omega

/-- Slices `s … s + n - 1` of block `bno` taken for inode `ino`. -/
def Fs.takeSlices (fs : Fs) (bno ino n s : Nat) : Fs :=
  (fs.setBlock bno
    (setSliceBitmap (fs.disk bno) (sliceBitmap (fs.disk bno) &&& ~~~runMask 32 n s))).setInode ino
    { fs.inode ino with numSlices := n }

/-- The bitmap has no `n` consecutive free slices. -/
def NoRun (bitmap : BitVec 32) (n : Nat) : Prop := ∀ t, 1 ≤ t → t + n ≤ 32 → ¬HasRun bitmap n t

/-- `s` is the lowest slice at which `n` consecutive slices are free. -/
structure LeastRun (bitmap : BitVec 32) (n s : Nat) : Prop where
  pos : 1 ≤ s
  fits : s + n ≤ 32
  run : HasRun bitmap n s
  least : ∀ t, 1 ≤ t → t < s → ¬HasRun bitmap n t

/-- **The search takes the lowest run that fits, or changes nothing.** -/
theorem getConsequitiveFreeSlices_cases (k : Kernel) (bno ino : Nat) {size : Nat}
    (h2 : size ≤ 3968) :
    (∃ s, LeastRun (sliceBitmap (k.fs.disk bno)) (divRoundUp size 128) s ∧
      getConsequitiveFreeSlices k bno ino size =
        (s, { k with fs := k.fs.takeSlices bno ino (divRoundUp size 128) s })) ∨
    (NoRun (sliceBitmap (k.fs.disk bno)) (divRoundUp size 128) ∧
      getConsequitiveFreeSlices k bno ino size = (0, k)) := by
  have hn := divRoundUp_128_le h2
  unfold getConsequitiveFreeSlices
  rw [if_neg (by omega)]
  rcases searchSlices_spec (n := divRoundUp size 128)
      (by omega) (32 - divRoundUp size 128) 1 (by omega) with
    ⟨s, hs1, hs2, hrun, hmin, hsome⟩ | ⟨hnone, hno⟩
  · refine Or.inl ⟨s, ⟨hs1, by omega, hrun, hmin⟩, ?_⟩
    simp only [hsome]
    rw [Nat.mod_eq_of_lt (by omega : divRoundUp size 128 < 65536)]
    rfl
  · refine Or.inr ⟨fun t ht1 ht2 => hnone t ht1 (by omega), ?_⟩
    simp only [hno]

/-- A size above 3968 bytes fits in no block. -/
theorem getConsequitiveFreeSlices_large (k : Kernel) (bno ino : Nat) {size : Nat}
    (h : 3968 < size) : getConsequitiveFreeSlices k bno ino size = (0, k) := by
  unfold getConsequitiveFreeSlices
  by_cases h4 : size > 4096
  · rw [if_pos h4]
  · have hn : divRoundUp size 128 = 32 := by unfold divRoundUp; omega
    rw [if_neg h4, hn]
    rfl

theorem NoRun.of_large {bitmap : BitVec 32} {n : Nat} (hn : 31 < n) : NoRun bitmap n := by
  intro t h1 h2
  omega

/-- Taking slices clears their bits and no others. -/
theorem Fs.getLsbD_takeSlices (fs : Fs) {bno ino n s : Nat} (hn : n ≤ 31) {j : Nat} (hj : j < 32) :
    (sliceBitmap ((fs.takeSlices bno ino n s).disk bno)).getLsbD j =
      ((sliceBitmap (fs.disk bno)).getLsbD j && !decide (s ≤ j ∧ j < s + n)) := by
  unfold Fs.takeSlices
  rw [Fs.disk_setInode, Fs.disk_setBlock, if_pos rfl, sliceBitmap_setSliceBitmap]
  simp only [BitVec.getLsbD_and, BitVec.getLsbD_not]
  rw [getLsbD_runMask (by omega) hj]
  simp [hj]

/-- **The search is exact.**  A slice is returned iff some run of free slices is long enough; it is
the start of the lowest one, and its bits are the only ones that are cleared. -/
theorem getConsequitiveFreeSlices_exact (k : Kernel) (bno ino size : Nat) :
    let n := divRoundUp size 128
    let bitmap := sliceBitmap (k.fs.disk bno)
    let r := getConsequitiveFreeSlices k bno ino size
    (r.1 = 0 ↔ NoRun bitmap n) ∧ (31 < n → NoRun bitmap n) ∧ (r.1 = 0 → r.2 = k) ∧
      (r.1 ≠ 0 → LeastRun bitmap n r.1 ∧ r.2 = { k with fs := k.fs.takeSlices bno ino n r.1 } ∧
        (r.2.inode ino).numSlices = n ∧
        ∀ j < 32, (sliceBitmap (r.2.fs.disk bno)).getLsbD j =
          (bitmap.getLsbD j && !decide (r.1 ≤ j ∧ j < r.1 + n))) := by
  dsimp only
  by_cases h2 : size ≤ 3968
  · have hn := divRoundUp_128_le h2
    rcases getConsequitiveFreeSlices_cases k bno ino h2 with ⟨s, hs, heq⟩ | ⟨hno, heq⟩
    · have hpos := hs.pos
      rw [heq]
      refine ⟨⟨fun h => ?_, fun h => ?_⟩, NoRun.of_large, fun h => ?_, fun _ => ?_⟩
      · exact absurd h (by omega)
      · exact absurd hs.run (h s hs.pos hs.fits)
      · exact absurd h (by omega)
      · refine ⟨hs, rfl, ?_, fun j hj => k.fs.getLsbD_takeSlices hn hj⟩
        simp [Kernel.inode, Fs.takeSlices]
    · rw [heq]
      exact ⟨⟨fun _ => hno, fun _ => rfl⟩, NoRun.of_large, fun _ => rfl, fun h => absurd rfl h⟩
  · have hn : 31 < divRoundUp size 128 := by
      unfold divRoundUp
      omega
    rw [getConsequitiveFreeSlices_large k bno ino (by omega)]
    exact ⟨⟨fun _ => NoRun.of_large hn, fun _ => rfl⟩, NoRun.of_large, fun _ => rfl,
      fun h => absurd rfl h⟩

end Ouichefs
