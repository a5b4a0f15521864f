import Mathlib.Data.Set.Lattice
import Mathlib.Order.Bounds.Basic
import Mathlib.Order.CompletePartialOrder

/-!
# A pool of names

`free` holds the names that can be handed out and `held` those that were handed out and not
returned.  `PoolStep` is what a first-fit allocator may do: hand out the least free name, refuse
when none is free, or take back a held name.  `PoolRun` chains the steps of a history.
-/

set_option autoImplicit false

variable {α : Type}

/-- The free names and the names that were handed out. -/
structure Pool (α : Type) where
  free : Set α
  held : Set α

/-- No name is free and handed out at the same time. -/
def Pool.Apart (p : Pool α) : Prop := Disjoint p.free p.held

theorem Pool.apart_fresh (s : Set α) : Pool.Apart ⟨s, ∅⟩ := Set.disjoint_empty s

inductive PoolCall (α : Type) where
  | get
  | put (a : α)
  deriving DecidableEq

variable [LinearOrder α]

/-- One call, with its answer. -/
inductive PoolStep : Pool α → PoolCall α → Option α → Pool α → Prop
  | got {p : Pool α} {a : α} (h : IsLeast p.free a) :
      PoolStep p .get (some a) ⟨p.free \ {a}, insert a p.held⟩
  | refused {p : Pool α} (h : p.free = ∅) : PoolStep p .get none p
  | put {p : Pool α} {a : α} (h : a ∈ p.held) :
      PoolStep p (.put a) none ⟨insert a p.free, p.held \ {a}⟩

/-- A history of calls and answers. -/
inductive PoolRun : Pool α → List (PoolCall α × Option α) → Pool α → Prop
  | nil {p : Pool α} : PoolRun p [] p
  | cons {p q r : Pool α} {c : PoolCall α} {a : Option α} {h : List (PoolCall α × Option α)}
      (hs : PoolStep p c a q) (hr : PoolRun q h r) : PoolRun p ((c, a) :: h) r

variable {p q r : Pool α} {c : PoolCall α} {a : α} {o : Option α}
  {h h₁ h₂ h₃ : List (PoolCall α × Option α)}

theorem PoolStep.apart (hs : PoolStep p c o q) (hp : p.Apart) : q.Apart := by
  unfold Pool.Apart at *
  rw [Set.disjoint_left] at *
  cases hs with
  | got hleast =>
      rintro x ⟨hx, hne⟩ hx'
      rcases hx' with rfl | hheld
      · exact hne rfl
      · exact hp hx hheld
  | refused hempty => exact hp
  | put hheld =>
      rintro x (rfl | hx) ⟨hx', hne⟩
      · exact hne rfl
      · exact hp hx hx'

theorem PoolRun.apart (hr : PoolRun p h q) (hp : p.Apart) : q.Apart := by
  induction hr with
  | nil => exact hp
  | cons hs _ ih => exact ih (hs.apart hp)

/-- A run over two histories is two runs. -/
theorem PoolRun.split (hr : PoolRun p (h₁ ++ h₂) r) : ∃ q, PoolRun p h₁ q ∧ PoolRun q h₂ r := by
  induction h₁ generalizing p with
  | nil => exact ⟨p, .nil, hr⟩
  | cons e h₁ ih =>
      cases hr with
      | cons hs hr =>
          obtain ⟨q, h, h'⟩ := ih hr
          exact ⟨q, .cons hs h, h'⟩

/-- A handed-out name stays out until it is put back. -/
theorem PoolRun.held_of_not_put (hr : PoolRun p h q) (ha : a ∈ p.held)
    (hput : ∀ o, (PoolCall.put a, o) ∉ h) : a ∈ q.held := by
  induction hr with
  | nil => exact ha
  | cons hs _ ih =>
      refine ih ?_ fun o ho => hput o (List.mem_cons_of_mem _ ho)
      cases hs with
      | got hleast => exact Set.mem_insert_of_mem _ ha
      | refused hempty => exact ha
      | @put b hheld =>
          refine ⟨ha, fun hab => hput none ?_⟩
          rw [Set.mem_singleton_iff.1 hab]
          exact List.mem_cons_self

/-- **Between two gets of one name it was put back.** -/
theorem PoolRun.put_between (hp : p.Apart)
    (hr : PoolRun p (h₁ ++ (.get, some a) :: h₂ ++ (.get, some a) :: h₃) q) :
    ∃ o, (PoolCall.put a, o) ∈ h₂ := by
  by_contra hno
  rw [not_exists] at hno
  rw [List.append_assoc, List.cons_append] at hr
  obtain ⟨q₁, hr₁, hr'⟩ := hr.split
  cases hr' with
  | cons hs hrest =>
      obtain ⟨q₂, hr₂, hr₃⟩ := hrest.split
      have hap := hr₂.apart (hs.apart (hr₁.apart hp))
      cases hs with
      | got hleast =>
          have hheld := hr₂.held_of_not_put (Set.mem_insert _ _) hno
          cases hr₃ with
          | cons hs' _ =>
              cases hs' with
              | got hleast' => exact Set.disjoint_left.1 hap hleast'.1 hheld
