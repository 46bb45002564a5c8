import Mathlib.Order.Basic

/-!
# Runs of a step function that may abort

A state machine is a step function `step : σ → ε → Except α σ`: an event
either moves the state on or ends the run with an abort (a panic, a loop
that never exits). This module gives its runs over a list of events
(`runFrom`), the states they reach (`Reachable`), and the two induction
rules the development proves its run properties with:

* `Reachable.inv`: a predicate that holds initially and that every step
  keeps holds in every reachable state;
* `runFrom_rel`: a reflexive and transitive relation that every step from a
  state satisfying an invariant satisfies, relates the two ends of every run
  from such a state;
* `runFrom_ok_of_inv`: a run succeeds when every step from a state that
  satisfies an invariant on the state and the events still to come succeeds
  and keeps it;
* `runFrom_simulation` and `runFrom_error_of_simulation`: a run refines the
  run of an abstract step function over the same events when every step
  does, as long as a condition on the abstract state and the events still to
  come holds; and a run that aborts does so at a step from a related state.

Nothing here is about a particular program.
-/

namespace ConsensusRs.Framework

variable {σ ε α : Type}

/-- The state after the events `es`, or how the run ended early. -/
def runFrom (step : σ → ε → Except α σ) (s : σ) : List ε → Except α σ
  | [] => .ok s
  | e :: es =>
    match step s e with
    | .ok s' => runFrom step s' es
    | .error a => .error a

section Run

variable {step : σ → ε → Except α σ}

@[simp] theorem runFrom_nil (s : σ) : runFrom step s [] = .ok s := rfl

/-- The clause of `runFrom` for a first event. The lemmas below cite it and
never unfold `runFrom`. -/
theorem runFrom_cons (s : σ) (e : ε) (es : List ε) :
    runFrom step s (e :: es) =
      match step s e with
      | .ok s' => runFrom step s' es
      | .error a => .error a :=
  rfl

theorem runFrom_cons_ok {s s' : σ} {e : ε} (h : step s e = .ok s') (es : List ε) :
    runFrom step s (e :: es) = runFrom step s' es := by
  rw [runFrom_cons, h]

theorem runFrom_cons_error {s : σ} {e : ε} {a : α} (h : step s e = .error a) (es : List ε) :
    runFrom step s (e :: es) = .error a := by
  rw [runFrom_cons, h]

/-- A run of `e :: es` that ends in a state took a step on `e` and ran `es`
from there. -/
theorem runFrom_cons_eq_ok {s s' : σ} {e : ε} {es : List ε} :
    runFrom step s (e :: es) = .ok s' ↔ ∃ s₁, step s e = .ok s₁ ∧ runFrom step s₁ es = .ok s' := by
  cases h : step s e with
  | error a =>
    rw [runFrom_cons_error h]
    constructor
    · intro h'
      cases h'
    · rintro ⟨_, h₁, -⟩
      cases h₁
  | ok s₁ =>
    rw [runFrom_cons_ok h]
    exact ⟨fun hr => ⟨s₁, rfl, hr⟩, fun ⟨_, h₁, hr⟩ => Except.ok.inj h₁ ▸ hr⟩

/-- A run of `e :: es` that aborts did so on `e`, or on `es` after a step on
`e`. -/
theorem runFrom_cons_eq_error {s : σ} {e : ε} {es : List ε} {a : α} :
    runFrom step s (e :: es) = .error a ↔
      step s e = .error a ∨ ∃ s₁, step s e = .ok s₁ ∧ runFrom step s₁ es = .error a := by
  cases h : step s e with
  | error a' =>
    rw [runFrom_cons_error h]
    constructor
    · exact .inl
    · rintro (h' | ⟨_, h₁, -⟩)
      · exact h'
      · cases h₁
  | ok s₁ =>
    rw [runFrom_cons_ok h]
    constructor
    · intro hr
      exact .inr ⟨s₁, rfl, hr⟩
    · rintro (h' | ⟨_, h₁, hr⟩)
      · cases h'
      · exact Except.ok.inj h₁ ▸ hr

theorem runFrom_append (s : σ) (es fs : List ε) :
    runFrom step s (es ++ fs) = (runFrom step s es).bind (runFrom step · fs) := by
  induction es generalizing s with
  | nil => rfl
  | cons e es ih =>
    rw [List.cons_append]
    cases h : step s e with
    | ok s₁ => rw [runFrom_cons_ok h, runFrom_cons_ok h, ih]
    | error a => rw [runFrom_cons_error h, runFrom_cons_error h, Except.bind]

/-- A run that ends in a state is a step into it from the end of the run
before. -/
theorem runFrom_append_singleton {s s' : σ} {es : List ε} {e : ε}
    (h : runFrom step s (es ++ [e]) = .ok s') :
    ∃ s₁, runFrom step s es = .ok s₁ ∧ step s₁ e = .ok s' := by
  rw [runFrom_append] at h
  cases hr : runFrom step s es with
  | error a =>
    rw [hr] at h
    cases h
  | ok s₁ =>
    rw [hr] at h
    obtain ⟨s₂, he, h₂⟩ := Iff.mp runFrom_cons_eq_ok h
    exact ⟨s₁, rfl, Except.ok.inj h₂ ▸ he⟩

/-- A run continued by a step that returns. -/
theorem runFrom_append_singleton_of_ok {s s₁ s' : σ} {es : List ε} {e : ε} (h : runFrom step s es = .ok s₁)
    (he : step s₁ e = .ok s') : runFrom step s (es ++ [e]) = .ok s' := by
  rw [runFrom_append, h]
  exact runFrom_cons_ok he []

end Run

/-- The states that runs from `init` end in. -/
inductive Reachable (step : σ → ε → Except α σ) (init : σ) : σ → Prop
  | init : Reachable step init init
  | step {s s' : σ} (e : ε) : Reachable step init s → step s e = .ok s' → Reachable step init s'

namespace Reachable

variable {step : σ → ε → Except α σ} {init : σ}

/-- The invariant rule: what holds initially and every step keeps holds in
every reachable state. -/
theorem inv {Inv : σ → Prop} (h₀ : Inv init)
    (hstep : ∀ s e s', Inv s → step s e = .ok s' → Inv s') {s : σ}
    (h : Reachable step init s) : Inv s := by
  induction h with
  | init => exact h₀
  | step e _ he ih => exact hstep _ e _ ih he

/-- A state reached by a run is reachable, and the run can be continued. -/
theorem of_runFrom {s s' : σ} (hs : Reachable step init s) {es : List ε}
    (h : runFrom step s es = .ok s') : Reachable step init s' := by
  induction es generalizing s with
  | nil => exact Except.ok.inj h ▸ hs
  | cons e es ih =>
    obtain ⟨s₁, he, h⟩ := Iff.mp runFrom_cons_eq_ok h
    exact ih (hs.step e he) h

/-- Every reachable state is the end of a run. -/
theorem exists_runFrom {s : σ} (h : Reachable step init s) :
    ∃ es, runFrom step init es = .ok s := by
  induction h with
  | init => exact ⟨[], rfl⟩
  | step e _ he ih =>
    obtain ⟨es, hes⟩ := ih
    exact ⟨es ++ [e], runFrom_append_singleton_of_ok hes he⟩

end Reachable

/-- A relation that every step from a state satisfying `Inv` satisfies, and
that is reflexive and transitive, holds between the two ends of every run
from such a state, as long as the steps keep `Inv`. -/
theorem runFrom_rel {step : σ → ε → Except α σ} {Inv : σ → Prop} {R : σ → σ → Prop}
    (hrefl : ∀ s, R s s) (htrans : ∀ {a b c}, R a b → R b c → R a c)
    (hinv : ∀ s e s', Inv s → step s e = .ok s' → Inv s')
    (hrel : ∀ s e s', Inv s → step s e = .ok s' → R s s') {s s' : σ} (hs : Inv s)
    {es : List ε} (h : runFrom step s es = .ok s') : R s s' := by
  induction es generalizing s with
  | nil => exact Except.ok.inj h ▸ hrefl s
  | cons e es ih =>
    obtain ⟨s₁, he, h⟩ := Iff.mp runFrom_cons_eq_ok h
    exact htrans (hrel s e s₁ hs he) (ih (hinv s e s₁ hs he) h)

/-- The progress rule: a run from a state satisfying `Inv` (on the state and
the events still to come) succeeds, and ends in a state satisfying it with
no event left, when every step from such a state succeeds into one that
satisfies it for the rest. -/
theorem runFrom_ok_of_inv {step : σ → ε → Except α σ} {Inv : σ → List ε → Prop}
    (hstep : ∀ s e es, Inv s (e :: es) → ∃ s', step s e = .ok s' ∧ Inv s' es)
    {s : σ} {es : List ε} (hs : Inv s es) : ∃ s', runFrom step s es = .ok s' ∧ Inv s' [] := by
  induction es generalizing s with
  | nil => exact ⟨s, rfl, hs⟩
  | cons e es ih =>
    obtain ⟨s₁, he, hs₁⟩ := hstep s e es hs
    rw [runFrom_cons_ok he]
    exact ih hs₁

section Simulation

variable {τ : Type} {step : σ → ε → Except α σ} {astep : τ → ε → τ} {R : σ → τ → Prop}
  {Q : τ → List ε → Prop}

/-- The simulation rule: a run ends in a state related to the abstract run
over its events, when every step from a related state moves to one related
to the abstract step, while `Q` (on the abstract state and the events still
to come) holds, which the abstract steps keep. -/
theorem runFrom_simulation
    (hsim : ∀ s t e es s', R s t → Q t (e :: es) → step s e = .ok s' → R s' (astep t e))
    (hQ : ∀ t e es, Q t (e :: es) → Q (astep t e) es)
    {s s' : σ} {t : τ} {es : List ε} (hR : R s t) (hq : Q t es) (h : runFrom step s es = .ok s') :
    R s' (es.foldl astep t) := by
  induction es generalizing s t with
  | nil => exact Except.ok.inj h ▸ hR
  | cons e es ih =>
    obtain ⟨s₁, he, h⟩ := Iff.mp runFrom_cons_eq_ok h
    exact ih (hsim s t e es s₁ hR hq he) (hQ t e es hq) h

/-- Under the conditions of the simulation rule, a run that aborts does so
at a step from a related state: what every such step's abort satisfies,
the run's does. -/
theorem runFrom_error_of_simulation {P : α → Prop}
    (hsim : ∀ s t e es s', R s t → Q t (e :: es) → step s e = .ok s' → R s' (astep t e))
    (hQ : ∀ t e es, Q t (e :: es) → Q (astep t e) es)
    (hbad : ∀ s t e es a, R s t → Q t (e :: es) → step s e = .error a → P a)
    {s : σ} {t : τ} {es : List ε} {a : α} (hR : R s t) (hq : Q t es) (h : runFrom step s es = .error a) :
    P a := by
  induction es generalizing s t with
  | nil => cases h
  | cons e es ih =>
    rcases Iff.mp runFrom_cons_eq_error h with he | ⟨s₁, he, h⟩
    · exact hbad s t e es a hR hq he
    · exact ih (hsim s t e es s₁ hR hq he) (hQ t e es hq) h

end Simulation

end ConsensusRs.Framework
