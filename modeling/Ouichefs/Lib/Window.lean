import Mathlib.Algebra.Ring.Nat
import Mathlib.Tactic.Common

/-!
# Windows of a bit stream

A bitmap is a stream `f : Nat → Bool`; machine words are windows of it, lowest bit first.
`loadBits` reads a window as a number, `storeBits` overwrites one.  A window of two words is the
low word plus the shifted high word (`loadBits_add`), so that the width of the machine word does
not matter for what is stored.
-/

set_option autoImplicit false

variable {f : Nat → Bool} {lo n i : Nat}

/-- The bits `lo`, …, `lo + n - 1`, lowest first. -/
def loadBits (f : Nat → Bool) (lo : Nat) : Nat → Nat
  | 0 => 0
  | n + 1 => (f lo).toNat + 2 * loadBits f (lo + 1) n

/-- Overwrite the bits `lo`, …, `lo + n - 1` with those of `v`. -/
def storeBits (f : Nat → Bool) (lo n v : Nat) : Nat → Bool := fun i =>
  if lo ≤ i ∧ i < lo + n then v.testBit (i - lo) else f i

theorem testBit_loadBits : ∀ (n lo i : Nat),
    (loadBits f lo n).testBit i = (decide (i < n) && f (lo + i)) := by
  intro n
  induction n with
  | zero => intro lo i; simp [loadBits]
  | succ n ih =>
      intro lo i
      unfold loadBits
      cases i with
      | zero =>
          rw [Nat.testBit_zero]
          cases f lo <;> simp
      | succ i =>
          have hdiv : ((f lo).toNat + 2 * loadBits f (lo + 1) n) / 2 = loadBits f (lo + 1) n := by
            cases f lo
            · simp
            · simp
              omega
          rw [Nat.testBit_succ, hdiv, ih]
          congr 1
          · simp
          · congr 1
            omega

theorem loadBits_lt : ∀ (n lo : Nat), loadBits f lo n < 2 ^ n := by
  intro n
  induction n with
  | zero => intro lo; simp [loadBits]
  | succ n ih =>
      intro lo
      have := ih (lo + 1)
      unfold loadBits
      rw [pow_succ]
      cases f lo <;> simp <;> omega

/-- **Two neighbouring windows.** -/
theorem loadBits_add : ∀ (a b lo : Nat),
    loadBits f lo (a + b) = loadBits f lo a + 2 ^ a * loadBits f (lo + a) b := by
  intro a
  induction a with
  | zero => intro b lo; simp [loadBits]
  | succ a ih =>
      intro b lo
      have hlow : loadBits f lo (a + 1) = (f lo).toNat + 2 * loadBits f (lo + 1) a := rfl
      have hall : loadBits f lo (a + b + 1) = (f lo).toNat + 2 * loadBits f (lo + 1) (a + b) := rfl
      rw [show a + 1 + b = a + b + 1 by omega, hall, hlow, ih b (lo + 1), pow_succ,
        show lo + 1 + a = lo + (a + 1) by omega, Nat.mul_add, ← Nat.mul_assoc,
        Nat.mul_comm 2 (2 ^ a), Nat.add_assoc]
