import Mathlib.Algebra.Order.Group.Multiset
import Mathlib.Tactic.Common

/-!
# Loans

Operations on resources `α` that are lent and given back: `(a, true)` takes a reference to `a`,
`(a, false)` gives one back.  `Settles h l h'` says that the operations `l`, made while the
references `h` are held, never give back a reference that is not held, and leave `h'`.  Sequences
compose, and what else is held does not matter.  `Leads` is the same for a trace that grows.
-/

set_option autoImplicit false

variable {α : Type} [DecidableEq α]

/-- From the references `h`, the operations `l` lead to `h'` and never below 0. -/
def Settles (h : Multiset α) (l : List (α × Bool)) (h' : Multiset α) : Prop :=
  (∀ p, p <+: l → ∀ a, p.count (a, false) ≤ h.count a + p.count (a, true)) ∧
    ∀ a, h'.count a + l.count (a, false) = h.count a + l.count (a, true)

namespace Settles

variable {h h₁ h₂ g : Multiset α} {l l' : List (α × Bool)} {a : α}

theorem nil (h : Multiset α) : Settles h [] h := by
  refine ⟨fun p hp b => ?_, fun b => rfl⟩
  rw [List.prefix_nil.1 hp]
  exact Nat.zero_le _

theorem take (h : Multiset α) (a : α) : Settles h [(a, true)] (a ::ₘ h) := by
  refine ⟨fun p hp b => ?_, fun b => ?_⟩
  · have hle := List.IsPrefix.sublist hp |>.count_le (b, false)
    simp only [List.count_cons, List.count_nil, beq_iff_eq, Prod.mk.injEq, reduceCtorEq, and_false,
      if_false] at hle
    omega
  · by_cases hab : a = b
    · subst hab
      simp
    · simp [hab, Ne.symm hab]

theorem give (h : Multiset α) (a : α) : Settles (a ::ₘ h) [(a, false)] h := by
  refine ⟨fun p hp b => ?_, fun b => ?_⟩
  · have hle := List.IsPrefix.sublist hp |>.count_le (b, false)
    by_cases hab : a = b
    · subst hab
      simp only [List.count_cons_self, List.count_nil] at hle
      rw [Multiset.count_cons_self]
      omega
    · simp only [List.count_cons, List.count_nil, beq_iff_eq, Prod.mk.injEq, hab, false_and,
        if_false] at hle
      omega
  · by_cases hab : a = b
    · subst hab
      simp
    · simp [hab, Ne.symm hab]

/-- **Sequences compose.** -/
theorem trans (h₀ : Settles h l h₁) (h₀' : Settles h₁ l' h₂) : Settles h (l ++ l') h₂ := by
  refine ⟨fun p hp b => ?_, fun b => ?_⟩
  · rw [List.prefix_iff_eq_take.1 hp, List.take_append, List.count_append, List.count_append]
    by_cases hlen : p.length ≤ l.length
    · rw [Nat.sub_eq_zero_of_le hlen, List.take_zero]
      exact h₀.1 _ (List.take_prefix _ _) b
    · rw [List.take_of_length_le (by omega)]
      have hlow := h₀'.1 _ (List.take_prefix (p.length - l.length) l') b
      have hend := h₀.2 b
      omega
  · have hend := h₀.2 b
    have hend' := h₀'.2 b
    rw [List.count_append, List.count_append]
    omega

/-- What follows a sequence starts where it ended. -/
theorem rest (h₀ : Settles h l h₁) (h₀' : Settles h (l ++ l') h₂) : Settles h₁ l' h₂ := by
  refine ⟨fun p hp b => ?_, fun b => ?_⟩
  · have hlow := h₀'.1 (l ++ p) ((List.prefix_append_right_inj l).2 hp) b
    have hend := h₀.2 b
    rw [List.count_append, List.count_append] at hlow
    omega
  · have hend := h₀.2 b
    have hend' := h₀'.2 b
    rw [List.count_append, List.count_append] at hend'
    omega

/-- The next reference is taken before the last one is given back. -/
theorem swap (a b : α) : Settles {a} [(b, true), (a, false)] {b} := by
  have hgive := give {b} a
  have hpair : a ::ₘ {b} = b ::ₘ {a} := Multiset.pair_comm a b
  rw [hpair] at hgive
  exact (take {a} b).trans hgive

/-- **What else is held does not matter.** -/
theorem frame (h₀ : Settles h l h₁) (g : Multiset α) : Settles (h + g) l (h₁ + g) := by
  refine ⟨fun p hp b => ?_, fun b => ?_⟩
  · have hlow := h₀.1 p hp b
    rw [Multiset.count_add]
    omega
  · have hend := h₀.2 b
    rw [Multiset.count_add, Multiset.count_add]
    omega

/-- Operations between taking and giving back one reference. -/
theorem bracket (h₀ : Settles 0 l 0) (a : α) : Settles 0 ((a, true) :: l ++ [(a, false)]) 0 := by
  have hmid := h₀.frame {a}
  rw [zero_add] at hmid
  exact ((take 0 a).trans hmid).trans (give 0 a)

/-- Operations that do not give back as often as they take do not settle. -/
theorem count_eq (h₀ : Settles 0 l 0) (a : α) : l.count (a, false) = l.count (a, true) := by
  have hend := h₀.2 a
  simpa using hend

/-- What is not held cannot be given back. -/
theorem not_give (h₀ : Settles h l h₁) (ha : a ∉ h₁) (l' : List (α × Bool)) (h₂ : Multiset α) :
    ¬Settles h (l ++ (a, false) :: l') h₂ := by
  intro hs
  have hlow := hs.1 (l ++ [(a, false)])
    ((List.prefix_append_right_inj l).2 (List.cons_prefix_cons.2 ⟨rfl, List.nil_prefix⟩)) a
  have hend := h₀.2 a
  rw [Multiset.count_eq_zero.2 ha] at hend
  simp only [List.count_append, List.count_cons_self, List.count_nil, List.count_cons, beq_iff_eq,
    Prod.mk.injEq, reduceCtorEq, and_false, if_false] at hlow
  omega

end Settles

/-- The operations `p` have been continued to `p'`, from the references `h` to `h'`. -/
def Leads (h : Multiset α) (p : List (α × Bool)) (h' : Multiset α) (p' : List (α × Bool)) : Prop :=
  ∃ l, p' = p ++ l ∧ Settles h l h'

namespace Leads

variable {h h₁ h₂ : Multiset α} {p p₁ p₂ : List (α × Bool)}

theorem refl (h : Multiset α) (p : List (α × Bool)) : Leads h p h p :=
  ⟨[], (List.append_nil p).symm, .nil h⟩

theorem take (h : Multiset α) (p : List (α × Bool)) (a : α) :
    Leads h p (a ::ₘ h) (p ++ [(a, true)]) := ⟨_, rfl, .take h a⟩

theorem give (h : Multiset α) (p : List (α × Bool)) (a : α) :
    Leads (a ::ₘ h) p h (p ++ [(a, false)]) := ⟨_, rfl, .give h a⟩

theorem trans (h₀ : Leads h p h₁ p₁) (h₀' : Leads h₁ p₁ h₂ p₂) : Leads h p h₂ p₂ := by
  obtain ⟨l, rfl, hl⟩ := h₀
  obtain ⟨l', rfl, hl'⟩ := h₀'
  exact ⟨l ++ l', List.append_assoc .., hl.trans hl'⟩

theorem frame (h₀ : Leads h p h₁ p₁) (g : Multiset α) : Leads (h + g) p (h₁ + g) p₁ := by
  obtain ⟨l, rfl, hl⟩ := h₀
  exact ⟨l, rfl, hl.frame g⟩

/-- Operations that went well and go on well. -/
theorem settles (h₀ : Settles h p h₁) (h₀' : Leads h₁ p h₂ p₁) : Settles h p₁ h₂ := by
  obtain ⟨l, rfl, hl⟩ := h₀'
  exact h₀.trans hl

end Leads
