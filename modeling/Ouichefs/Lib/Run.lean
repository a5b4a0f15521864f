import Mathlib.Tactic.Common

/-!
# Runs of a machine

A machine executes calls `χ` on states `σ`; a call returns a result `ρ` or fails with `ε`.  `runAll`
executes a list of calls, `Admissible ok` says that every call of the list is allowed in the state
in which it is made, and `Simulates rep step` that the run is matched step by step by an abstract
machine.  The two rules turn a step lemma into a statement about whole runs.
-/

set_option autoImplicit false

variable {σ χ ρ ε α : Type}

/-- Execute the calls one after the other, up to the first that does not return. -/
def runAll (exec : σ → χ → Except ε (ρ × σ)) : σ → List χ → Except ε σ
  | s, [] => .ok s
  | s, c :: cs =>
    match exec s c with
    | .error e => .error e
    | .ok (_, s') => runAll exec s' cs

/-- The calls of a run that returned, with their results. -/
def transcript (exec : σ → χ → Except ε (ρ × σ)) : σ → List χ → List (χ × ρ)
  | _, [] => []
  | s, c :: cs =>
    match exec s c with
    | .error _ => []
    | .ok (r, s') => (c, r) :: transcript exec s' cs

/-- Every call is allowed in the state in which it is made. -/
def Admissible (exec : σ → χ → Except ε (ρ × σ)) (ok : σ → χ → Prop) : σ → List χ → Prop
  | _, [] => True
  | s, c :: cs => ok s c ∧ ∀ r s', exec s c = .ok (r, s') → Admissible exec ok s' cs

instance Admissible.decide (exec : σ → χ → Except ε (ρ × σ)) (ok : σ → χ → Prop)
    [∀ s c, Decidable (ok s c)] : ∀ s cs, Decidable (Admissible exec ok s cs)
  | _, [] => isTrue trivial
  | s, c :: cs =>
    match h : exec s c with
    | .error _ => decidable_of_iff (ok s c) <| by simp [Admissible, h]
    | .ok (_, s') =>
      have := Admissible.decide exec ok s' cs
      decidable_of_iff (ok s c ∧ Admissible exec ok s' cs) <| by simp [Admissible, h]

/-- Every call returns, and the abstract machine takes a step with the same result; the states
correspond before and after every call. -/
def Simulates (exec : σ → χ → Except ε (ρ × σ)) (rep : σ → α → Prop)
    (step : α → χ → ρ → α → Prop) : σ → α → List χ → Prop
  | s, a, [] => rep s a
  | s, a, c :: cs => rep s a ∧
    ∃ r s' a', exec s c = .ok (r, s') ∧ step a c r a' ∧ Simulates exec rep step s' a' cs

/-- Two results that match: equal values and related states, or related failures. -/
def Matched (R : σ → σ → Prop) (F : ε → ε → Prop) : Except ε (ρ × σ) → Except ε (ρ × σ) → Prop
  | .ok (r, s), .ok (r', s') => r = r' ∧ R s s'
  | .error e, .error e' => F e e'
  | _, _ => False

/-- Two runs that end alike. -/
def MatchedEnd (R : σ → σ → Prop) (F : ε → ε → Prop) : Except ε σ → Except ε σ → Prop
  | .ok s, .ok s' => R s s'
  | .error e, .error e' => F e e'
  | _, _ => False

section Rules

variable {exec : σ → χ → Except ε (ρ × σ)} {ok : σ → χ → Prop}

/-- **What every call keeps, every run keeps.** -/
theorem runAll_invariant {I : σ → Prop}
    (hstep : ∀ s c, I s → ok s c → ∃ r s', exec s c = .ok (r, s') ∧ I s') :
    ∀ (cs : List χ) (s : σ), I s → Admissible exec ok s cs →
      ∃ s', runAll exec s cs = .ok s' ∧ I s' := by
  intro cs
  induction cs with
  | nil => exact fun s hi _ => ⟨s, rfl, hi⟩
  | cons c cs ih =>
      intro s hi ha
      obtain ⟨r, s', he, hi'⟩ := hstep s c hi ha.1
      obtain ⟨s'', hr, hi''⟩ := ih s' hi' (ha.2 r s' he)
      refine ⟨s'', ?_, hi''⟩
      rw [runAll, he]
      exact hr

/-- What every returning call keeps holds wherever a run returns. -/
theorem runAll_safe {I : σ → Prop}
    (hstep : ∀ s c r s', I s → ok s c → exec s c = .ok (r, s') → I s') :
    ∀ (cs : List χ) (s s' : σ), I s → Admissible exec ok s cs → runAll exec s cs = .ok s' →
      I s' := by
  intro cs
  induction cs with
  | nil =>
      intro s s' hi _ hr
      cases hr
      exact hi
  | cons c cs ih =>
      intro s s' hi ha hr
      unfold runAll at hr
      split at hr
      · cases hr
      · rename_i r s₁ he
        exact ih s₁ s' (hstep s c r s₁ hi ha.1 he) (ha.2 r s₁ he) hr

/-- **A simulation of single calls is a simulation of runs.** -/
theorem simulates_of_step {I : σ → Prop} {rep : σ → α → Prop} {step : α → χ → ρ → α → Prop}
    (hstep : ∀ s a c, I s → rep s a → ok s c →
      ∃ r s' a', exec s c = .ok (r, s') ∧ step a c r a' ∧ I s' ∧ rep s' a') :
    ∀ (cs : List χ) (s : σ) (a : α), I s → rep s a → Admissible exec ok s cs →
      Simulates exec rep step s a cs := by
  intro cs
  induction cs with
  | nil => exact fun _ _ _ hr _ => hr
  | cons c cs ih =>
      intro s a hi hr ha
      obtain ⟨r, s', a', he, hs, hi', hr'⟩ := hstep s a c hi hr ha.1
      exact ⟨hr, r, s', a', he, hs, ih s' a' hi' hr' (ha.2 r s' he)⟩

/-- **Calls that match from related states give runs that match.** -/
theorem runs_matched {R : σ → σ → Prop} {F : ε → ε → Prop}
    (hstep : ∀ s t c, R s t → Matched R F (exec s c) (exec t c)) :
    ∀ (cs : List χ) (s t : σ), R s t → transcript exec s cs = transcript exec t cs ∧
      MatchedEnd R F (runAll exec s cs) (runAll exec t cs) := by
  intro cs
  induction cs with
  | nil => exact fun s t hr => ⟨rfl, hr⟩
  | cons c cs ih =>
      intro s t hr
      have hm := hstep s t c hr
      unfold transcript runAll
      generalize exec s c = a at hm
      generalize exec t c = b at hm
      match a, b, hm with
      | .error e, .error e', hm => exact ⟨rfl, hm⟩
      | .ok (r, s'), .ok (r', t'), hm =>
          obtain ⟨rfl, hr'⟩ := hm
          obtain ⟨htr, hend⟩ := ih s' t' hr'
          exact ⟨by simp only [htr], hend⟩

theorem Simulates.rep {rep : σ → α → Prop} {step : α → χ → ρ → α → Prop} {cs : List χ} {s : σ}
    {a : α} (h : Simulates exec rep step s a cs) : rep s a := by
  cases cs with
  | nil => exact h
  | cons c cs => exact h.1

/-- A part of a simulated run returns, and what follows it is simulated. -/
theorem Simulates.drop {rep : σ → α → Prop} {step : α → χ → ρ → α → Prop} {rest : List χ} :
    ∀ (cs : List χ) (s : σ) (a : α), Simulates exec rep step s a (cs ++ rest) →
      ∃ t b, runAll exec s cs = .ok t ∧ Simulates exec rep step t b rest := by
  intro cs
  induction cs with
  | nil => exact fun s a h => ⟨s, a, rfl, h⟩
  | cons c cs ih =>
      rintro s a ⟨-, r, s', a', he, -, h⟩
      obtain ⟨t, b, hr, ht⟩ := ih s' a' h
      refine ⟨t, b, ?_, ht⟩
      rw [runAll, he]
      exact hr

/-- A condition that does not look at the state. -/
theorem Admissible.of_forall {p : χ → Prop} :
    ∀ (cs : List χ) (s : σ), (∀ c ∈ cs, p c) → Admissible exec (fun _ c => p c) s cs := by
  intro cs
  induction cs with
  | nil => exact fun _ _ => trivial
  | cons c cs ih =>
      intro s h
      exact ⟨h c (List.mem_cons_self ..), fun _ s' _ =>
        ih s' fun c' hc' => h c' (List.mem_cons_of_mem c hc')⟩

/-- A stronger condition on the calls allows fewer runs. -/
theorem Admissible.mono {ok' : σ → χ → Prop} (h : ∀ s c, ok s c → ok' s c) :
    ∀ (cs : List χ) (s : σ), Admissible exec ok s cs → Admissible exec ok' s cs := by
  intro cs
  induction cs with
  | nil => exact fun _ _ => trivial
  | cons c cs ih => exact fun s ha => ⟨h s c ha.1, fun r s' he => ih s' (ha.2 r s' he)⟩

/-- Two conditions that every call meets are met together. -/
theorem Admissible.and {ok' : σ → χ → Prop} :
    ∀ (cs : List χ) (s : σ), Admissible exec ok s cs → Admissible exec ok' s cs →
      Admissible exec (fun s c => ok s c ∧ ok' s c) s cs := by
  intro cs
  induction cs with
  | nil => exact fun _ _ _ => trivial
  | cons c cs ih =>
      exact fun s h h' => ⟨⟨h.1, h'.1⟩, fun r s' he => ih s' (h.2 r s' he) (h'.2 r s' he)⟩

end Rules
