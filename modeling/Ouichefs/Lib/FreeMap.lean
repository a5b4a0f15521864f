import Mathlib.Data.Finset.Card
import Mathlib.Data.List.Basic
import Mathlib.Logic.Function.Basic
import Mathlib.Tactic.Common

/-!
# Free maps

A free map is a bitmap `Nat → Bool` in which a set bit marks a free number.  `firstBit` is the
first-fit search over the numbers below a size, `countBits` the number of free numbers below it.
-/

set_option autoImplicit false

namespace FreeMap

/-- The least `i < size` whose bit is set, or `size` if there is none. -/
def firstBit (m : Nat → Bool) (size : Nat) : Nat := ((List.range size).find? m).getD size

/-- How many bits below `size` are set. -/
def countBits (m : Nat → Bool) (size : Nat) : Nat := (List.range size).countP m

variable {m : Nat → Bool} {size i : Nat}

theorem firstBit_lt (h : firstBit m size ≠ size) :
    firstBit m size < size ∧ m (firstBit m size) = true ∧ ∀ j < firstBit m size, m j = false := by
  unfold firstBit at *
  cases hf : (List.range size).find? m with
  | none => rw [hf] at h; exact absurd rfl h
  | some i =>
      rw [List.find?_range_eq_some] at hf
      exact ⟨List.mem_range.1 hf.2.1, hf.1, fun j hj => by simpa using hf.2.2 j hj⟩

theorem firstBit_eq_size_iff : firstBit m size = size ↔ ∀ j < size, m j = false := by
  constructor
  · intro h
    unfold firstBit at h
    cases hf : (List.range size).find? m with
    | none => simpa using hf
    | some i =>
        rw [hf] at h
        rw [List.find?_range_eq_some] at hf
        have := List.mem_range.1 hf.2.1
        simp at h
        omega
  · intro h
    by_contra hne
    obtain ⟨hlt, hset, -⟩ := firstBit_lt hne
    rw [h _ hlt] at hset
    cases hset

theorem firstBit_eq (hi : i < size) (hset : m i = true) (hmin : ∀ j < i, m j = false) :
    firstBit m size = i := by
  have hne : firstBit m size ≠ size := by
    intro h
    rw [firstBit_eq_size_iff.1 h i hi] at hset
    cases hset
  obtain ⟨-, hbit, hbelow⟩ := firstBit_lt hne
  rcases Nat.lt_trichotomy (firstBit m size) i with hlt | heq | hgt
  · rw [hmin _ hlt] at hbit; cases hbit
  · exact heq
  · rw [hbelow _ hgt] at hset; cases hset

/-- Bits at or above the size do not matter. -/
theorem firstBit_congr {m' : Nat → Bool} (h : ∀ j < size, m' j = m j) :
    firstBit m' size = firstBit m size := by
  by_cases hf : firstBit m size = size
  · rw [hf]
    refine firstBit_eq_size_iff.2 fun j hj => ?_
    rw [h j hj]
    exact firstBit_eq_size_iff.1 hf j hj
  · obtain ⟨hlt, hset, hmin⟩ := firstBit_lt hf
    refine firstBit_eq hlt ?_ fun j hj => ?_
    · rw [h _ hlt, hset]
    · rw [h j (by omega), hmin j hj]

/-! ## Counting -/

theorem countBits_succ (m : Nat → Bool) (size : Nat) :
    countBits m (size + 1) = countBits m size + if m size then 1 else 0 := by
  unfold countBits
  rw [List.range_succ, List.countP_append]
  cases h : m size <;> simp [h]

theorem countBits_congr {m' : Nat → Bool} (h : ∀ j < size, m' j = m j) :
    countBits m' size = countBits m size := by
  unfold countBits
  exact List.countP_congr fun j hj => by rw [h j (List.mem_range.1 hj)]

theorem countBits_le (m : Nat → Bool) (size : Nat) : countBits m size ≤ size := by
  simpa [countBits] using List.countP_le_length (p := m) (l := List.range size)

theorem countBits_pos_iff : 0 < countBits m size ↔ ∃ j < size, m j = true := by
  unfold countBits
  rw [List.countP_pos_iff]
  simp

theorem countBits_eq_zero_iff : countBits m size = 0 ↔ ∀ j < size, m j = false := by
  rw [countBits, List.countP_eq_zero]
  simp

theorem countBits_update_of_ge (h : size ≤ i) (v : Bool) :
    countBits (Function.update m i v) size = countBits m size :=
  countBits_congr fun j hj => Function.update_of_ne (by omega) _ _

theorem countBits_set (hi : i < size) (hm : m i = false) :
    countBits (Function.update m i true) size = countBits m size + 1 := by
  induction size with
  | zero => omega
  | succ size ih =>
      rw [countBits_succ, countBits_succ]
      by_cases h : i = size
      · subst h
        rw [countBits_update_of_ge (Nat.le_refl _)]
        simp [hm]
      · rw [ih (by omega), Function.update_of_ne (by omega)]
        omega

theorem countBits_lt (hi : i < size) (hm : m i = false) : countBits m size < size := by
  have h := countBits_set hi hm
  have hle := countBits_le (Function.update m i true) size
  omega

theorem countBits_clear (hi : i < size) (hm : m i = true) :
    countBits (Function.update m i false) size + 1 = countBits m size := by
  have h := countBits_set (m := Function.update m i false) hi (Function.update_self ..)
  rw [Function.update_idem, ← hm, Function.update_eq_self] at h
  exact h.symm

/-- Setting the bits of the numbers in `S`, which were all clear. -/
theorem countBits_union {m' : Nat → Bool} {S : Finset Nat} (hS : ∀ j ∈ S, j < size ∧ m j = false)
    (h : ∀ j < size, (m' j = true ↔ m j = true ∨ j ∈ S)) :
    countBits m' size = countBits m size + S.card := by
  induction S using Finset.induction_on generalizing m' with
  | empty =>
      rw [Finset.card_empty, Nat.add_zero]
      refine countBits_congr fun j hj => ?_
      rw [Bool.eq_iff_iff, h j hj]
      simp
  | insert i S hi ih =>
      obtain ⟨hlt, hm⟩ := hS i (Finset.mem_insert_self i S)
      have hrest : countBits (Function.update m' i false) size = countBits m size + S.card := by
        refine ih (fun j hj => hS j (Finset.mem_insert_of_mem hj)) fun j hj => ?_
        by_cases hji : j = i
        · subst hji
          simp [hm, hi]
        · rw [Function.update_of_ne hji, h j hj, Finset.mem_insert]
          simp [hji]
      have hset : m' i = true := (h i hlt).2 (Or.inr (Finset.mem_insert_self i S))
      rw [Finset.card_insert_of_notMem hi, ← countBits_clear hlt hset, hrest]
      omega

/-- Clearing the bits of the numbers below `k` in an all-set map leaves `size - k` of them. -/
theorem countBits_prefix (k size : Nat) :
    countBits (fun i => decide (k ≤ i)) size = size - k := by
  induction size with
  | zero => simp [countBits]
  | succ size ih =>
      rw [countBits_succ, ih]
      by_cases h : k ≤ size <;> simp [h] <;> omega

end FreeMap
