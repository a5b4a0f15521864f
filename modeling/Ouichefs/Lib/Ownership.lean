import Mathlib.Data.List.Basic
import Mathlib.Tactic.Common

/-!
# Ownership of storage cells

References of some kind `ρ` name storage cells `α`; `R r a` says that reference `r` is present
and names cell `a`.  `Owned used R` is the safety half of the bookkeeping (no cell has two
references, every referenced cell is in use), `Covered used R` the exactness half (every cell in
use is referenced, so nothing is leaked).  The rules follow the life of a cell: it is allocated
and linked, kept, or unlinked and released.
-/

set_option autoImplicit false

variable {ρ α : Type}

/-- Every referenced cell is in use and no cell has two references. -/
structure Owned (used : α → Prop) (R : ρ → α → Prop) : Prop where
  used : ∀ {r a}, R r a → used a
  inj : ∀ {r r' a}, R r a → R r' a → r = r'

/-- Every cell in use is referenced. -/
def Covered (used : α → Prop) (R : ρ → α → Prop) : Prop := ∀ a, used a → ∃ r, R r a

namespace Owned

variable {used used' : α → Prop} {R R' : ρ → α → Prop}

/-- References may disappear, as long as the cells still referenced stay in use. -/
theorem mono (h : Owned used R) (hsub : ∀ r a, R' r a → R r a)
    (hu : ∀ r a, R' r a → used a → used' a) : Owned used' R' :=
  ⟨fun hr => hu _ _ hr (h.used (hsub _ _ hr)), fun hr hr' => h.inj (hsub _ _ hr) (hsub _ _ hr')⟩

/-- A cell without reference may get one, if it is in use afterwards. -/
theorem link (h : Owned used R) {s : ρ} {c : α} (hfree : ∀ r, ¬R r c)
    (hsub : ∀ r a, R' r a → R r a ∨ (r = s ∧ a = c)) (hu : ∀ a, used a → used' a)
    (ha : used' c) : Owned used' R' := by
  constructor
  · intro r a hr
    rcases hsub r a hr with hold | ⟨-, rfl⟩
    · exact hu a (h.used hold)
    · exact ha
  · intro r r' a hr hr'
    rcases hsub r a hr with hold | ⟨rfl, rfl⟩ <;> rcases hsub r' a hr' with hold' | ⟨hr'', ha'⟩
    · exact h.inj hold hold'
    · subst ha'; exact absurd hold (hfree r)
    · exact absurd hold' (hfree r')
    · exact hr''.symm

end Owned
