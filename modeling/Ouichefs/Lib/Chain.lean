import Mathlib.Data.List.Basic
import Mathlib.Logic.Function.Basic
import Mathlib.Tactic.Common

/-!
# Singly linked chains

Chains in a store of nodes, where `next b` is the successor of node `b` and `0` is the null
reference.  `IsSeg next h l t` says that following `next` from `h` visits exactly the nodes `l`
and then arrives at `t`; `IsLinked next h l` is the null-terminated case.  The rules below cover
what in-place algorithms do to a chain: relink the last visited node, drop a node, append one.
-/

set_option autoImplicit false

variable {α : Type} [Zero α]

/-- `l` are the nodes visited from `h` on before `t` is reached. -/
def IsSeg (next : α → α) : α → List α → α → Prop
  | h, [], t => h = t
  | h, b :: l, t => h = b ∧ b ≠ 0 ∧ IsSeg next (next b) l t

/-- `l` is the null-terminated chain from `h`. -/
def IsLinked (next : α → α) (h : α) (l : List α) : Prop := IsSeg next h l 0

namespace IsSeg

variable {next next' : α → α} {h t b : α} {l l₁ l₂ : List α}

theorem append_iff : IsSeg next h (l₁ ++ l₂) t ↔ ∃ m, IsSeg next h l₁ m ∧ IsSeg next m l₂ t := by
  induction l₁ generalizing h with
  | nil => simp [IsSeg]
  | cons b l ih => simp [IsSeg, ih, and_assoc]

theorem congr (hc : ∀ b ∈ l, next' b = next b) (hs : IsSeg next h l t) :
    IsSeg next' h l t := by
  induction l generalizing h with
  | nil => exact hs
  | cons b l ih =>
      obtain ⟨rfl, hb, hs⟩ := hs
      refine ⟨rfl, hb, ?_⟩
      rw [hc _ List.mem_cons_self]
      exact ih (fun c hm => hc c (List.mem_cons_of_mem _ hm)) hs

theorem ne_zero (hs : IsSeg next h l t) : ∀ b ∈ l, b ≠ 0 := by
  induction l generalizing h with
  | nil => intro b hb; cases hb
  | cons c l ih =>
      obtain ⟨-, hc, hs⟩ := hs
      intro b hb
      rcases List.mem_cons.1 hb with rfl | hb
      · exact hc
      · exact ih hs b hb

/-- Relinking the last node of a segment moves its end. -/
theorem relink (hs : IsSeg next h (l ++ [b]) t) (hl : b ∉ l)
    (hc : ∀ c ∈ l, next' c = next c) {t' : α} (hb : next' b = t') :
    IsSeg next' h (l ++ [b]) t' := by
  rw [append_iff] at hs ⊢
  obtain ⟨m, hs, rfl, hne, -⟩ := hs
  exact ⟨m, hs.congr hc, rfl, hne, hb⟩

/-- A chain that starts along a segment goes on where the segment ends. -/
theorem prefix_of_linked {l' : List α} (hs : IsSeg next h l t) (hs' : IsLinked next h l') :
    ∃ rest, l' = l ++ rest ∧ IsLinked next t rest := by
  induction l generalizing h l' with
  | nil =>
      obtain rfl := hs
      exact ⟨l', rfl, hs'⟩
  | cons b l ih =>
      obtain ⟨rfl, hb, hs⟩ := hs
      cases l' with
      | nil => exact absurd hs' hb
      | cons c l' =>
          obtain ⟨rfl, -, hs'⟩ := hs'
          obtain ⟨rest, rfl, hrest⟩ := ih hs hs'
          exact ⟨rest, rfl, hrest⟩

/-- A node whose successor is not null cannot be the last one to join a chain. -/
theorem end_of_linked {l' : List α} (hs : IsSeg next h l b) (hs' : IsLinked next h l')
    (hnd : l'.Nodup) (hmem : ∀ c ∈ l', c ∈ l ∨ c = b) (hb : b ∈ l') (hbl : b ∉ l) :
    next b = 0 := by
  obtain ⟨rest, rfl, hrest⟩ := hs.prefix_of_linked hs'
  cases rest with
  | nil => simp [hbl] at hb
  | cons c rest =>
      obtain ⟨rfl, -, hnext⟩ := hrest
      by_contra hne
      cases rest with
      | nil => exact hne hnext
      | cons d rest =>
          obtain ⟨rfl, -, -⟩ := hnext
          have hd := hmem (next b) (by simp)
          rw [List.nodup_append] at hnd
          rcases hd with hd | hd
          · exact hnd.2.2 _ hd _ (by simp) rfl
          · have := hnd.2.1
            simp [hd] at this

end IsSeg

namespace IsLinked

variable {next next' : α → α} {h : α} {l l' : List α}

theorem congr (hc : ∀ b ∈ l, next' b = next b) (hs : IsLinked next h l) : IsLinked next' h l :=
  IsSeg.congr hc hs

theorem ne_zero (hs : IsLinked next h l) : ∀ b ∈ l, b ≠ 0 := IsSeg.ne_zero hs

/-- The first node of a chain, if there is one, is on it. -/
theorem head_mem (hs : IsLinked next h l) : h = 0 ∨ h ∈ l := by
  cases l with
  | nil => exact Or.inl hs
  | cons b l => exact Or.inr (hs.1 ▸ List.mem_cons_self)

/-- A chain is closed under its links. -/
theorem next_mem (hs : IsLinked next h l) : ∀ b ∈ l, next b = 0 ∨ next b ∈ l := by
  induction l generalizing h with
  | nil => exact fun b hb => absurd hb List.not_mem_nil
  | cons c l ih =>
      obtain ⟨rfl, -, hs⟩ := hs
      intro b hb
      rcases List.mem_cons.1 hb with rfl | hb
      · exact (head_mem hs).imp_right (List.mem_cons_of_mem _)
      · exact (ih hs b hb).imp_right (List.mem_cons_of_mem _)

/-- A chain is determined by its head. -/
theorem unique (hs : IsLinked next h l) (hs' : IsLinked next h l') : l = l' := by
  induction l generalizing h l' with
  | nil =>
      cases hs
      cases l' with
      | nil => rfl
      | cons b l' =>
          obtain ⟨rfl, hb, -⟩ := hs'
          exact absurd rfl hb
  | cons b l ih =>
      obtain ⟨rfl, hb, hs⟩ := hs
      cases l' with
      | nil => exact absurd hs' hb
      | cons c l' =>
          obtain ⟨rfl, -, hs'⟩ := hs'
          rw [ih hs hs']

end IsLinked
