import Mathlib.Data.List.Induction
import Mathlib.Logic.Function.Basic
import Mathlib.Tactic.Common

/-!
# Trees of named edges

`g v l` is the node that label `l` leads to from `v`.  `Rooted g root S` says that the nodes `S` are
a tree: every node has one edge into it, the root none, and every node is reached from the root.  The
rules: a new leaf, a leaf taken out, a subtree moved to a place that is not below it.

* `Rooted.existsUnique_walk`: to every node of the tree leads one path.
-/

set_option autoImplicit false

namespace Forest

variable {V L : Type}

/-- Where a path leads. -/
def walk (g : V → L → Option V) : V → List L → Option V
  | v, [] => some v
  | v, l :: p => (g v l).bind fun w => walk g w p

/-- A path leads from `v` to `w`. -/
def Below (g : V → L → Option V) (v w : V) : Prop := ∃ p, walk g v p = some w

/-- The edges with the one from `v` under `l` replaced. -/
def setEdge [DecidableEq V] [DecidableEq L] (g : V → L → Option V) (v : V) (l : L) (o : Option V) :
    V → L → Option V := Function.update g v (Function.update (g v) l o)

/-- The nodes `S` are a tree with root `root`. -/
structure Rooted (g : V → L → Option V) (root : V) (S : V → Prop) : Prop where
  top : S root
  node : ∀ {v l w}, g v l = some w → S v ∧ S w ∧ w ≠ root
  unique : ∀ {v v' l l' w}, g v l = some w → g v' l' = some w → v = v' ∧ l = l'
  reach : ∀ v, S v → Below g root v

section Walk

variable {g g' : V → L → Option V} {u v w : V} {l : L} {p q : List L}

@[simp] theorem walk_nil (g : V → L → Option V) (v : V) : walk g v [] = some v := rfl

theorem walk_append (g : V → L → Option V) : ∀ (v : V) (p q : List L),
    walk g v (p ++ q) = (walk g v p).bind fun w => walk g w q := by
  intro v p
  induction p generalizing v with
  | nil => exact fun q => rfl
  | cons l p ih =>
      intro q
      show (g v l).bind _ = ((g v l).bind _).bind _
      cases g v l with
      | none => rfl
      | some w => exact ih w q

theorem walk_snoc : walk g v (p ++ [l]) = some w ↔ ∃ u, walk g v p = some u ∧ g u l = some w := by
  rw [walk_append]
  cases walk g v p with
  | none => simp
  | some u =>
      show (g u l).bind some = some w ↔ ∃ u', some u = some u' ∧ g u' l = some w
      simp

theorem Below.refl (g : V → L → Option V) (v : V) : Below g v v := ⟨[], rfl⟩

theorem Below.trans (h : Below g u v) (h' : Below g v w) : Below g u w := by
  obtain ⟨p, hp⟩ := h
  obtain ⟨q, hq⟩ := h'
  refine ⟨p ++ q, ?_⟩
  rw [walk_append, hp]
  exact hq

theorem Below.edge (h : Below g u v) (he : g v l = some w) : Below g u w := by
  obtain ⟨p, hp⟩ := h
  exact ⟨p ++ [l], walk_snoc.2 ⟨v, hp, he⟩⟩

/-- Induction over what is below a node, from the top. -/
theorem Below.induction {motive : V → Prop} (h : Below g v w) (top : motive v)
    (edge : ∀ u l w, Below g v u → motive u → g u l = some w → motive w) : motive w := by
  obtain ⟨p, hp⟩ := h
  induction p using List.reverseRecOn generalizing w with
  | nil =>
      cases hp
      exact top
  | append_singleton p l ih =>
      obtain ⟨u, hu, he⟩ := walk_snoc.1 hp
      exact edge u l w ⟨p, hu⟩ (ih hu) he

/-- A path is made of labels of edges. -/
theorem labels_of_walk {P : L → Prop} (h : ∀ {v l w}, g v l = some w → P l) :
    ∀ (p : List L) (v : V), walk g v p = some w → ∀ l ∈ p, P l := by
  intro p
  induction p with
  | nil => exact fun _ _ l hl => absurd hl List.not_mem_nil
  | cons l p ih =>
      intro v hw l' hl'
      obtain ⟨u, hu, hp⟩ := Option.bind_eq_some_iff.1 hw
      rcases List.mem_cons.1 hl' with rfl | hl'
      · exact h hu
      · exact ih u hp l' hl'

/-- A node without edges leads only to itself. -/
theorem Below.eq_of_leaf (h : Below g v w) (hv : ∀ l, g v l = none) : w = v := by
  obtain ⟨p, hp⟩ := h
  cases p with
  | nil => exact (Option.some.inj hp).symm
  | cons l p =>
      have hn : (g v l).bind _ = some w := hp
      rw [hv l] at hn
      cases hn

end Walk

section SetEdge

variable [DecidableEq V] [DecidableEq L] {g : V → L → Option V} {v w : V} {l l' : L}

theorem setEdge_self (g : V → L → Option V) (v : V) (l : L) (o : Option V) :
    setEdge g v l o v l = o := by simp [setEdge]

theorem setEdge_other {o : Option V} (h : ¬(w = v ∧ l' = l)) : setEdge g v l o w l' = g w l' := by
  unfold setEdge
  by_cases hw : w = v
  · subst hw
    have hl : l' ≠ l := fun hc => h ⟨rfl, hc⟩
    rw [Function.update_self, Function.update_of_ne hl]
  · rw [Function.update_of_ne hw]

end SetEdge

namespace Rooted

variable {g : V → L → Option V} {root : V} {S : V → Prop} {d d' v x : V} {y y' : L} {p q : List L}

theorem congr {S' : V → Prop} (h : Rooted g root S) (hS : ∀ v, S' v ↔ S v) : Rooted g root S' := by
  obtain rfl : S' = S := funext fun v => propext (hS v)
  exact h

theorem root_edge (h : Rooted g root S) (v : V) (l : L) : g v l ≠ some root := fun he =>
  (h.node he).2.2 rfl

/-- **Two paths to one node are one path.** -/
theorem path_unique (h : Rooted g root S) (hp : walk g root p = some v)
    (hq : walk g root q = some v) : p = q := by
  induction p using List.reverseRecOn generalizing v q with
  | nil =>
      cases hp
      cases q using List.reverseRecOn with
      | nil => rfl
      | append_singleton q l =>
          obtain ⟨u, -, he⟩ := walk_snoc.1 hq
          exact absurd he (h.root_edge u l)
  | append_singleton p l ih =>
      obtain ⟨u, hu, he⟩ := walk_snoc.1 hp
      cases q using List.reverseRecOn with
      | nil =>
          cases hq
          exact absurd he (h.root_edge u l)
      | append_singleton q l' =>
          obtain ⟨u', hu', he'⟩ := walk_snoc.1 hq
          obtain ⟨rfl, rfl⟩ := h.unique he he'
          rw [ih hu hu']

/-- A path stays in the tree. -/
theorem node_of_walk (h : Rooted g root S) (hp : walk g root p = some v) : S v :=
  Below.induction ⟨p, hp⟩ h.top fun _ _ _ _ _ he => (h.node he).2.1

/-- **To every node leads one path.** -/
theorem existsUnique_walk (h : Rooted g root S) (hv : S v) : ∃! p, walk g root p = some v := by
  obtain ⟨p, hp⟩ := h.reach v hv
  exact ⟨p, hp, fun q hq => h.path_unique hq hp⟩

/-- There are no cycles. -/
theorem acyclic (h : Rooted g root S) (hv : S v) (hp : walk g v p = some v) : p = [] := by
  obtain ⟨q, hq⟩ := h.reach v hv
  have hqp : walk g root (q ++ p) = some v := by
    rw [walk_append, hq]
    exact hp
  exact List.append_cancel_left ((h.path_unique hqp hq).trans (List.append_nil q).symm)

variable [DecidableEq V] [DecidableEq L]

/-- A new leaf. -/
theorem insert (h : Rooted g root S) (hd : S d) (hy : g d y = none) (hx : ¬S x) :
    Rooted (setEdge g d y (some x)) root fun v => S v ∨ v = x := by
  have hold : ∀ {v l w}, g v l = some w → setEdge g d y (some x) v l = some w := by
    intro v l w he
    rw [setEdge_other]
    · exact he
    · rintro ⟨rfl, rfl⟩
      rw [hy] at he
      cases he
  have hcase : ∀ {v l w}, setEdge g d y (some x) v l = some w →
      g v l = some w ∨ v = d ∧ l = y ∧ w = x := by
    intro v l w he
    by_cases hc : v = d ∧ l = y
    · obtain ⟨rfl, rfl⟩ := hc
      rw [setEdge_self] at he
      exact Or.inr ⟨rfl, rfl, (Option.some.inj he).symm⟩
    · exact Or.inl (by rwa [setEdge_other hc] at he)
  refine ⟨Or.inl h.top, fun hs => ?_, fun hs hs' => ?_, fun v hv => ?_⟩
  · rcases hcase hs with he | ⟨rfl, -, rfl⟩
    · obtain ⟨hv, hw, hr⟩ := h.node he
      exact ⟨Or.inl hv, Or.inl hw, hr⟩
    · exact ⟨Or.inl hd, Or.inr rfl, fun hc => hx (hc ▸ h.top)⟩
  · rcases hcase hs with he | ⟨rfl, rfl, rfl⟩
    · rcases hcase hs' with he' | ⟨-, -, rfl⟩
      · exact h.unique he he'
      · exact absurd (h.node he).2.1 hx
    · rcases hcase hs' with he' | ⟨rfl, rfl, -⟩
      · exact absurd (h.node he').2.1 hx
      · exact ⟨rfl, rfl⟩
  · have hmono : ∀ w, Below g root w → Below (setEdge g d y (some x)) root w := fun w hw =>
      hw.induction (.refl _ _) fun _ _ _ _ hu he => hu.edge (hold he)
    rcases hv with hv | rfl
    · exact hmono v (h.reach v hv)
    · exact (hmono d (h.reach d hd)).edge (setEdge_self ..)

/-- Edges of a tree with one taken out. -/
theorem setEdge_none_some (h : Rooted g root S) (he : g d y = some x) {v w : V} {l : L} :
    setEdge g d y none v l = some w ↔ g v l = some w ∧ w ≠ x := by
  by_cases hc : v = d ∧ l = y
  · obtain ⟨rfl, rfl⟩ := hc
    rw [setEdge_self, he]
    constructor
    · exact fun hn => by cases hn
    · rintro ⟨hs, hne⟩
      exact absurd (Option.some.inj hs).symm hne
  · rw [setEdge_other hc]
    refine ⟨fun hs => ⟨hs, ?_⟩, And.left⟩
    rintro rfl
    exact hc (h.unique hs he)

/-- A leaf taken out. -/
theorem delete (h : Rooted g root S) (he : g d y = some x) (hleaf : ∀ l, g x l = none) :
    Rooted (setEdge g d y none) root fun v => S v ∧ v ≠ x := by
  have hedge : ∀ {v l w}, setEdge g d y none v l = some w ↔ g v l = some w ∧ w ≠ x :=
    h.setEdge_none_some he
  have hne : ∀ {v l w}, g v l = some w → v ≠ x := by
    rintro v l w hs rfl
    rw [hleaf l] at hs
    cases hs
  refine ⟨⟨h.top, fun hc => (h.node he).2.2 hc.symm⟩, fun hs => ?_, fun hs hs' => ?_, fun v hv => ?_⟩
  · obtain ⟨hs, hwx⟩ := hedge.1 hs
    obtain ⟨hv, hw, hr⟩ := h.node hs
    exact ⟨⟨hv, hne hs⟩, ⟨hw, hwx⟩, hr⟩
  · exact h.unique (hedge.1 hs).1 (hedge.1 hs').1
  · -- no path to another node leads through the leaf
    have hmove : ∀ w, Below g root w → w ≠ x → Below (setEdge g d y none) root w := by
      intro w hw
      refine hw.induction (motive := fun w => w ≠ x → Below (setEdge g d y none) root w)
        (fun _ => .refl _ _) fun u l w _ ih hs hwx => ?_
      exact (ih (hne hs)).edge (hedge.2 ⟨hs, hwx⟩)
    exact hmove v (h.reach v hv.1) hv.2

/-- **A subtree moved** to a place that is not below it. -/
theorem move (h : Rooted g root S) (he : g d y = some x) (hd' : S d') (hy' : g d' y' = none)
    (hbelow : ¬Below g x d') :
    Rooted (setEdge (setEdge g d y none) d' y' (some x)) root S := by
  have hx : S x ∧ x ≠ root := (h.node he).2
  have hcase : ∀ {v l w}, setEdge (setEdge g d y none) d' y' (some x) v l = some w ↔
      (g v l = some w ∧ w ≠ x) ∨ v = d' ∧ l = y' ∧ w = x := by
    intro v l w
    by_cases hc : v = d' ∧ l = y'
    · obtain ⟨rfl, rfl⟩ := hc
      rw [setEdge_self, hy']
      constructor
      · exact fun hs => Or.inr ⟨rfl, rfl, (Option.some.inj hs).symm⟩
      · rintro (⟨hs, -⟩ | ⟨-, -, rfl⟩)
        · cases hs
        · rfl
    · rw [setEdge_other hc, h.setEdge_none_some he]
      exact (or_iff_left fun hc' => hc ⟨hc'.1, hc'.2.1⟩).symm
  -- what is not below the subtree keeps its path
  have houter : ∀ w, Below g root w → ¬Below g x w →
      Below (setEdge (setEdge g d y none) d' y' (some x)) root w := by
    intro w hw
    refine hw.induction (motive := fun w => ¬Below g x w →
      Below (setEdge (setEdge g d y none) d' y' (some x)) root w) (fun _ => .refl _ _)
      fun u l w _ ih hs hnot => ?_
    have hu : ¬Below g x u := fun hc => hnot (hc.edge hs)
    refine (ih hu).edge (hcase.2 (Or.inl ⟨hs, ?_⟩))
    rintro rfl
    exact hnot (.refl _ _)
  have htop : Below (setEdge (setEdge g d y none) d' y' (some x)) root x :=
    (houter d' (h.reach d' hd') hbelow).edge (hcase.2 (Or.inr ⟨rfl, rfl, rfl⟩))
  -- what is below it is reached through its new place
  have hinner : ∀ w, Below g x w →
      Below (setEdge (setEdge g d y none) d' y' (some x)) root w := by
    intro w hw
    refine hw.induction htop fun u l w _ ih hs => ?_
    by_cases hwx : w = x
    · rw [hwx]
      exact htop
    · exact ih.edge (hcase.2 (Or.inl ⟨hs, hwx⟩))
  refine ⟨h.top, fun hs => ?_, fun hs hs' => ?_, fun v hv => ?_⟩
  · rcases hcase.1 hs with ⟨hs, -⟩ | ⟨rfl, -, rfl⟩
    · exact h.node hs
    · exact ⟨hd', hx⟩
  · rcases hcase.1 hs with ⟨hs, hne⟩ | ⟨rfl, rfl, rfl⟩
    · rcases hcase.1 hs' with ⟨hs', -⟩ | ⟨-, -, rfl⟩
      · exact h.unique hs hs'
      · exact absurd rfl hne
    · rcases hcase.1 hs' with ⟨-, hne⟩ | ⟨rfl, rfl, -⟩
      · exact absurd rfl hne
      · exact ⟨rfl, rfl⟩
  · by_cases hb : Below g x v
    · exact hinner v hb
    · exact houter v (h.reach v hv) hb

end Rooted

end Forest
