import ConsensusRs.Framework.Except

/-!
# `for` loops that may break or abort

A Rust `for x in xs { .. }` whose body may `break` and may panic is Lean's
`forIn xs s body` in `Except`, with a body that returns `.yield` to go on
and `.done` to break. This module gives two rules for it:

* `forIn_ok_of_inv`: a loop runs to its end, or to a break, without
  aborting, and ends in a state satisfying `Q`, when every step from a state
  satisfying the invariant (on the state and the elements still to come)
  succeeds, into a state satisfying it for the rest if it goes on and one
  satisfying `Q` if it breaks, and the invariant with nothing left gives `Q`;
* `forIn_yield_append`: a loop whose body never breaks and appends what a
  function returns is that function's `mapM`.

Nothing here is about a particular program.
-/

namespace ConsensusRs.Framework

variable {γ σ α : Type}

/-- What a step of a loop body has to give: the invariant when the loop goes
on, the postcondition when it breaks. -/
def Continues (P Q : σ → Prop) : ForInStep σ → Prop
  | .yield s => P s
  | .done s => Q s

@[simp] theorem continues_yield {P Q : σ → Prop} {s : σ} : Continues P Q (.yield s) ↔ P s := Iff.rfl

@[simp] theorem continues_done {P Q : σ → Prop} {s : σ} : Continues P Q (.done s) ↔ Q s := Iff.rfl

/-- The progress rule of a loop with breaks. -/
theorem forIn_ok_of_inv {body : γ → σ → Except α (ForInStep σ)} {Inv : List γ → σ → Prop} {Q : σ → Prop}
    (hstep : ∀ x xs s, Inv (x :: xs) s → ∃ r, body x s = .ok r ∧ Continues (Inv xs) Q r)
    (hend : ∀ s, Inv [] s → Q s) {xs : List γ} {s : σ} (hs : Inv xs s) :
    ∃ s', forIn xs s body = .ok s' ∧ Q s' := by
  induction xs generalizing s with
  | nil => exact ⟨s, rfl, hend s hs⟩
  | cons x xs ih =>
    obtain ⟨r, hbody, hr⟩ := hstep x xs s hs
    rw [List.forIn_cons, hbody, ok_bind]
    cases r with
    | done s' => exact ⟨s', rfl, hr⟩
    | yield s' => exact ih hr

/-- A loop whose body never breaks, and appends what `f` returns, is `mapM f`
after what it starts with. -/
theorem forIn_yield_append {β : Type} {f : γ → Except α β} {body : γ → List β → Except α (ForInStep (List β))}
    (hbody : ∀ x acc, body x acc = (fun b => .yield (acc ++ [b])) <$> f x) (xs : List γ) (acc : List β) :
    forIn xs acc body = (acc ++ ·) <$> xs.mapM f := by
  induction xs generalizing acc with
  | nil => simp [pure, Except.pure, Functor.map, Except.map]
  | cons x xs ih =>
    rw [List.forIn_cons, hbody, List.mapM_cons]
    cases f x with
    | error e => rfl
    | ok b =>
      show forIn xs (acc ++ [b]) body = _
      rw [ih (acc ++ [b])]
      cases xs.mapM f <;> simp [Functor.map, Except.map, bind, Except.bind, pure, Except.pure]

end ConsensusRs.Framework
