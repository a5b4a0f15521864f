import Mathlib.Data.Nat.Bitwise
import Mathlib.Tactic.Common

/-!
# Runs of bits

`runMask w n i` is the `w`-bit mask of the `n` bits from position `i` on, built the way C code
builds it: `((1 << n) - 1) << i`.
-/

set_option autoImplicit false

variable {w : Nat}

/-- The mask of bits `i … i + n - 1`. -/
def runMask (w n i : Nat) : BitVec w := ((1#w <<< n) - 1#w) <<< i

theorem getLsbD_ones {n j : Nat} (hn : n < w) :
    ((1#w <<< n) - 1#w).getLsbD j = decide (j < n) := by
  have hpow : 2 ^ n < 2 ^ w := Nat.pow_lt_pow_right (by decide) hn
  have hpos : 0 < 2 ^ n := Nat.two_pow_pos n
  have hval : ((1#w <<< n) - 1#w).toNat = 2 ^ n - 1 := by
    have h1 : (1 : Nat) % 2 ^ w = 1 := Nat.mod_eq_of_lt (by omega)
    rw [BitVec.toNat_sub, BitVec.toNat_shiftLeft, BitVec.toNat_ofNat, h1, Nat.shiftLeft_eq,
      Nat.one_mul, Nat.mod_eq_of_lt hpow]
    rw [show 2 ^ w - 1 + 2 ^ n = (2 ^ n - 1) + 2 ^ w by omega, Nat.add_mod_right]
    exact Nat.mod_eq_of_lt (by omega)
  rw [BitVec.getLsbD, hval, Nat.testBit_two_pow_sub_one]

theorem getLsbD_runMask {n i j : Nat} (hn : n < w) (hj : j < w) :
    (runMask w n i).getLsbD j = decide (i ≤ j ∧ j < i + n) := by
  unfold runMask
  rw [BitVec.getLsbD_shiftLeft, getLsbD_ones hn]
  by_cases hij : i ≤ j
  · have : j - i < n ↔ j < i + n := by omega
    simp [hj, hij, this]
  · simp [hij, Nat.lt_of_not_le hij]

theorem runMask_shiftLeft_one (n i : Nat) : runMask w n i <<< 1 = runMask w n (i + 1) := by
  unfold runMask
  rw [← BitVec.shiftLeft_add]

/-- `b | mask == b`: every bit of the run is set in `b`. -/
theorem or_runMask_eq_iff {b : BitVec w} {n i : Nat} (hn : n < w) (hi : i + n ≤ w) :
    b ||| runMask w n i = b ↔ ∀ j, i ≤ j → j < i + n → b.getLsbD j = true := by
  constructor
  · intro h j hij hjn
    have hj : j < w := by omega
    rw [← h, BitVec.getLsbD_or, getLsbD_runMask hn hj]
    simp [hij, hjn]
  · intro h
    apply BitVec.eq_of_getLsbD_eq
    intro j hj
    rw [BitVec.getLsbD_or, getLsbD_runMask hn hj]
    by_cases hin : i ≤ j ∧ j < i + n
    · simp [h j hin.1 hin.2]
    · simp [hin]
