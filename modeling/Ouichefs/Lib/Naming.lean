import Mathlib.Data.List.Basic
import Mathlib.Logic.Function.Basic
import Mathlib.Tactic.Common

/-!
# Compact tables that name a set of objects

Tables `d`, given by `D d`, have slots `slot d i`; `0` is an empty slot.  `Naming cap D L root slot`
says that every table is compact (its used slots come first, at most `cap` of them) and that every
object in `L` other than `root` stands in exactly one slot of exactly one table.  The rules: append
an object to a table, take one out and close the gap, add or drop an empty table.
-/

set_option autoImplicit false

/-- Slot `i` taken out, the later slots moved down. -/
def dropSlot {α : Type} (f : Nat → α) (i j : Nat) : α := if j < i then f j else f (j + 1)

/-- The used slots of `f` are the first `n`. -/
structure Compact (f : Nat → Nat) (n : Nat) : Prop where
  used : ∀ i < n, f i ≠ 0
  empty : ∀ i, n ≤ i → f i = 0

structure Naming (cap : Nat) (D L : Nat → Prop) (root : Nat) (slot : Nat → Nat → Nat) : Prop where
  pos : ¬L 0
  compact : ∀ d, D d → ∃ n ≤ cap, Compact (slot d) n
  entry : ∀ {d i}, D d → slot d i ≠ 0 → L (slot d i) ∧ slot d i ≠ root
  unique : ∀ {d d' i i'}, D d → D d' → slot d i = slot d' i' → slot d i ≠ 0 → d = d' ∧ i = i'
  named : ∀ x, L x → x ≠ root → ∃ d i, D d ∧ slot d i = x

namespace Compact

variable {f : Nat → Nat} {n i : Nat}

theorem lt_iff (h : Compact f n) : i < n ↔ f i ≠ 0 := by
  refine ⟨h.used i, fun hne => ?_⟩
  by_contra hle
  exact hne (h.empty i (by omega))

theorem lt_cap (h : Compact f n) {cap : Nat} (hle : n ≤ cap) (i : Nat) (hi : f i ≠ 0) : i < cap :=
  Nat.lt_of_lt_of_le (h.lt_iff.2 hi) hle

theorem append (h : Compact f n) {x : Nat} (hx : x ≠ 0) :
    Compact (Function.update f n x) (n + 1) := by
  constructor
  · intro i hi
    by_cases hin : i = n
    · rw [hin, Function.update_self]; exact hx
    · rw [Function.update_of_ne hin]; exact h.used i (by omega)
  · intro i hi
    rw [Function.update_of_ne (by omega)]
    exact h.empty i (by omega)

theorem drop (h : Compact f n) (hi : i < n) : Compact (dropSlot f i) (n - 1) := by
  constructor
  · intro j hj
    unfold dropSlot
    split
    · exact h.used j (by omega)
    · exact h.used (j + 1) (by omega)
  · intro j hj
    unfold dropSlot
    rw [if_neg (by omega)]
    exact h.empty (j + 1) (by omega)

end Compact

namespace Naming

variable {cap root : Nat} {D D' L L' : Nat → Prop} {slot slot' : Nat → Nat → Nat}

theorem congr (h : Naming cap D L root slot) (hD : ∀ d, D' d ↔ D d) (hL : ∀ x, L' x ↔ L x)
    (hs : ∀ d, D d → ∀ i, slot' d i = slot d i) : Naming cap D' L' root slot' := by
  have hs' : ∀ d, D' d → slot' d = slot d := fun d hd => funext (hs d ((hD d).1 hd))
  refine ⟨fun h0 => h.pos ((hL 0).1 h0), ?_, ?_, ?_, ?_⟩
  · intro d hd
    rw [hs' d hd]
    exact h.compact d ((hD d).1 hd)
  · intro d i hd
    rw [hs' d hd, hL]
    exact h.entry ((hD d).1 hd)
  · intro d d' i i' hd hd'
    rw [hs' d hd, hs' d' hd']
    exact h.unique ((hD d).1 hd) ((hD d').1 hd')
  · intro x hx hr
    obtain ⟨d, i, hd, hi⟩ := h.named x ((hL x).1 hx) hr
    exact ⟨d, i, (hD d).2 hd, by rw [hs d hd]; exact hi⟩

/-- A new object is appended to table `d`. -/
theorem insert (h : Naming cap D L root slot) {d n x : Nat} (hd : D d) (hc : Compact (slot d) n)
    (hn : n < cap) (hx : ¬L x) (h0 : x ≠ 0) (hr : x ≠ root) :
    Naming cap D (fun y => L y ∨ y = x) root
      (Function.update slot d (Function.update (slot d) n x)) := by
  -- a slot is the new one or an old one
  have hslot : ∀ {e i}, D e → (Function.update slot d (Function.update (slot d) n x) e i = x ∧
      e = d ∧ i = n) ∨ (Function.update slot d (Function.update (slot d) n x) e i = slot e i ∧
      slot e i ≠ x) := by
    intro e i he
    have hne : slot e i ≠ x := by
      intro heq
      exact hx (heq ▸ (h.entry he (by rw [heq]; exact h0)).1)
    by_cases hed : e = d
    · subst hed
      rw [Function.update_self]
      by_cases hin : i = n
      · subst hin; exact Or.inl ⟨Function.update_self .., rfl, rfl⟩
      · exact Or.inr ⟨Function.update_of_ne hin .., hne⟩
    · exact Or.inr ⟨by rw [Function.update_of_ne hed], hne⟩
  refine ⟨?_, ?_, ?_, ?_, ?_⟩
  · rintro (hl | hz)
    · exact h.pos hl
    · exact h0 hz.symm
  · intro e he
    by_cases hed : e = d
    · subst hed
      rw [Function.update_self]
      exact ⟨n + 1, hn, hc.append h0⟩
    · rw [Function.update_of_ne hed]
      exact h.compact e he
  · intro e i he hne
    rcases hslot (i := i) he with ⟨hs, -, -⟩ | ⟨hs, -⟩
    · rw [hs]; exact ⟨Or.inr rfl, hr⟩
    · rw [hs] at hne ⊢
      exact ⟨Or.inl (h.entry he hne).1, (h.entry he hne).2⟩
  · intro e e' i i' he he' heq hne
    rcases hslot (i := i) he with ⟨hs, rfl, rfl⟩ | ⟨hs, hxs⟩ <;>
      rcases hslot (i := i') he' with ⟨hs', rfl, rfl⟩ | ⟨hs', hxs'⟩
    · exact ⟨rfl, rfl⟩
    · rw [hs, hs'] at heq; exact absurd heq.symm hxs'
    · rw [hs, hs'] at heq; exact absurd heq hxs
    · rw [hs, hs'] at heq
      rw [hs] at hne
      exact h.unique he he' heq hne
  · rintro y (hy | rfl) hyr
    · obtain ⟨e, i, he, hi⟩ := h.named y hy hyr
      refine ⟨e, i, he, ?_⟩
      by_cases hed : e = d
      · subst hed
        rw [Function.update_self, Function.update_of_ne, hi]
        rintro rfl
        exact h.pos (((hc.empty i (Nat.le_refl _)).symm.trans hi) ▸ hy)
      · rw [Function.update_of_ne hed, hi]
    · exact ⟨d, n, hd, by rw [Function.update_self, Function.update_self]⟩

/-- Object `x` is taken out of table `d`. -/
theorem remove (h : Naming cap D L root slot) {d i x : Nat} (hd : D d) (hi : slot d i = x)
    (h0 : x ≠ 0) :
    Naming cap D (fun y => L y ∧ y ≠ x) root (Function.update slot d (dropSlot (slot d) i)) := by
  -- every slot of the result is an old one, and never the one taken out
  have hslot : ∀ e j, ∃ j', Function.update slot d (dropSlot (slot d) i) e j = slot e j' ∧
      ¬(e = d ∧ j' = i) ∧ (e = d → j' = if j < i then j else j + 1) ∧ (e ≠ d → j' = j) := by
    intro e j
    by_cases hed : e = d
    · subst hed
      refine ⟨if j < i then j else j + 1, ?_, ?_, fun _ => rfl, fun hne => absurd rfl hne⟩
      · rw [Function.update_self]
        unfold dropSlot
        split <;> rfl
      · rintro ⟨-, hj⟩
        split at hj <;> omega
    · exact ⟨j, by rw [Function.update_of_ne hed], fun hc => hed hc.1, fun hc => absurd hc hed,
        fun _ => rfl⟩
  refine ⟨fun hl => h.pos hl.1, ?_, ?_, ?_, ?_⟩
  · intro e he
    obtain ⟨n, hn, hc⟩ := h.compact e he
    by_cases hed : e = d
    · subst hed
      rw [Function.update_self]
      exact ⟨n - 1, by omega, hc.drop (hc.lt_iff.2 (by rw [hi]; exact h0))⟩
    · rw [Function.update_of_ne hed]
      exact ⟨n, hn, hc⟩
  · intro e j he hne
    obtain ⟨j', hs, hnot, -⟩ := hslot e j
    rw [hs] at hne ⊢
    refine ⟨⟨(h.entry he hne).1, fun heq => hnot ?_⟩, (h.entry he hne).2⟩
    exact h.unique he hd (heq.trans hi.symm) hne
  · intro e e' j j' he he' heq hne
    obtain ⟨m, hs, -, hm, hm'⟩ := hslot e j
    obtain ⟨m', hs', -, hn, hn'⟩ := hslot e' j'
    rw [hs, hs'] at heq
    rw [hs] at hne
    obtain ⟨rfl, rfl⟩ := h.unique he he' heq hne
    refine ⟨rfl, ?_⟩
    by_cases hed : e = d
    · have := (hm hed).symm.trans (hn hed)
      split at this <;> split at this <;> omega
    · exact (hm' hed).symm.trans (hn' hed)
  · rintro y ⟨hy, hyx⟩ hyr
    obtain ⟨e, j, he, hj⟩ := h.named y hy hyr
    by_cases hed : e = d
    · subst hed
      have hji : j ≠ i := by
        rintro rfl
        exact hyx (hj.symm.trans hi)
      refine ⟨e, if j < i then j else j - 1, he, ?_⟩
      rw [Function.update_self]
      unfold dropSlot
      by_cases hlt : j < i
      · simp only [hlt, if_true]; exact hj
      · simp only [hlt, if_false]
        rw [if_neg (by omega), show j - 1 + 1 = j by omega]
        exact hj
    · exact ⟨e, j, he, by rw [Function.update_of_ne hed]; exact hj⟩

/-- An empty table may become one of the tables. -/
theorem addTable (h : Naming cap D L root slot) {x : Nat} (hx : ∀ i, slot x i = 0) :
    Naming cap (fun d => D d ∨ d = x) L root slot := by
  have hD : ∀ {d i}, (D d ∨ d = x) → slot d i ≠ 0 → D d := by
    rintro d i (hd | rfl) hne
    · exact hd
    · exact absurd (hx i) hne
  refine ⟨h.pos, ?_, fun hd hne => h.entry (hD hd hne) hne, fun hd hd' heq hne =>
    h.unique (hD hd hne) (hD hd' (heq ▸ hne)) heq hne, fun y hy hyr => ?_⟩
  · rintro d (hd | rfl)
    · exact h.compact d hd
    · exact ⟨0, Nat.zero_le _, fun i hi => absurd hi (Nat.not_lt_zero _), fun i _ => hx i⟩
  · obtain ⟨d, i, hd, hi⟩ := h.named y hy hyr
    exact ⟨d, i, Or.inl hd, hi⟩

/-- An empty table may be dropped. -/
theorem dropTable (h : Naming cap D L root slot) {x : Nat} (hx : ∀ i, slot x i = 0) :
    Naming cap (fun d => D d ∧ d ≠ x) L root slot := by
  refine ⟨h.pos, fun d hd => h.compact d hd.1, fun hd => h.entry hd.1, fun hd hd' =>
    h.unique hd.1 hd'.1, fun y hy hyr => ?_⟩
  obtain ⟨d, i, hd, hi⟩ := h.named y hy hyr
  refine ⟨d, i, ⟨hd, ?_⟩, hi⟩
  rintro rfl
  exact h.pos (((hx i).symm.trans hi) ▸ hy)

end Naming
