import ConsensusRs.Framework.Run

/-!
# Postconditions of computations that may abort

`Ensures x Q E`: the computation `x : Except ε α` returns a value that
satisfies `Q`, or ends with an error that satisfies `E`. These are the
rules of a small Hoare logic for `do` blocks over `Except`:

* `Ensures.pure`, `Ensures.error` and `Ensures.bind` follow the structure of
  a `do` block, `Ensures.mono` weakens, and `Ensures.of_ok`,
  `Ensures.of_error` read a postcondition back at a result; `Ensures.returns`
  and `Ensures.any` are the steps of a block that say nothing of errors;
* `Ensures.mapM` runs a loop over a list;
* `Ensures.runFrom` is the rule for runs of a step function: an invariant
  that every step keeps (or that ends the run with an error satisfying `E`)
  holds at the end of every run, and a run that aborts does so with an
  error satisfying `E`.

Nothing here is about a particular program.
-/

namespace ConsensusRs.Framework

variable {ε α β σ η : Type}

/-- The value `x` returns satisfies `Q`, and the error it ends with
satisfies `E`. -/
def Ensures (x : Except ε α) (Q : α → Prop) (E : ε → Prop) : Prop :=
  match x with
  | .ok a => Q a
  | .error e => E e

namespace Ensures

variable {x : Except ε α} {Q Q' : α → Prop} {E E' : ε → Prop}

theorem pure {a : α} (h : Q a) : Ensures (Pure.pure a : Except ε α) Q E := h

theorem ok {a : α} (h : Q a) : Ensures (.ok a : Except ε α) Q E := h

theorem error {e : ε} (h : E e) : Ensures (.error e : Except ε α) Q E := h

theorem bind {f : α → Except ε β} {R : β → Prop} (hx : Ensures x Q E)
    (hf : ∀ a, Q a → Ensures (f a) R E) : Ensures (x >>= f) R E := by
  cases x with
  | error e => exact hx
  | ok a => exact hf a hx

theorem map {f : α → β} {R : β → Prop} (hx : Ensures x (fun a => R (f a)) E) :
    Ensures (f <$> x) R E := by
  cases x with
  | error e => exact hx
  | ok a => exact hx

theorem mono (h : Ensures x Q E) (hq : ∀ a, Q a → Q' a) (he : ∀ e, E e → E' e) : Ensures x Q' E' := by
  cases x with
  | error e => exact he e h
  | ok a => exact hq a h

theorem of_ok {a : α} (h : Ensures x Q E) (hx : x = .ok a) : Q a := by
  subst hx
  exact h

theorem of_error {e : ε} (h : Ensures x Q E) (hx : x = .error e) : E e := by
  subst hx
  exact h

/-- A computation that returns `Q` of every value it can return. -/
theorem of_forall_ok (h : ∀ a, x = .ok a → Q a) (he : ∀ e, x = .error e → E e) : Ensures x Q E := by
  cases x with
  | error e => exact he e rfl
  | ok a => exact h a rfl

/-- Every computation returns what it returns, for the steps of a `do`
block whose value a later step needs; its errors are left free. -/
theorem returns (x : Except ε α) : Ensures x (fun a => x = .ok a) fun _ => True :=
  of_forall_ok (fun _ h => h) fun _ _ => True.intro

/-- Nothing said of a computation's value or error, for the steps of a `do`
block that a postcondition does not depend on. -/
theorem any (x : Except ε α) : Ensures x (fun _ => True) fun _ => True :=
  (returns x).mono (fun _ _ => True.intro) fun _ h => h

/-- A computation followed by pairing its value with a fixed first
component. -/
theorem map_pair {Q : α → Prop} (b : β) (h : Ensures x Q E) :
    Ensures (x >>= fun a => Pure.pure (b, a)) (fun p => Q p.2) E :=
  h.bind fun _ ha => Ensures.pure ha

/-- The rule for a join point of a `do` block: an `if` whose two branches
continue with the same computation. -/
theorem ite_bind {p : Prop} [Decidable p] {y : Except ε α} {f : α → Except ε β} {P : α → Prop}
    {R : β → Prop} (hx : p → Ensures x P E) (hy : ¬p → Ensures y P E) (hf : ∀ a, P a → Ensures (f a) R E) :
    Ensures (if p then x >>= f else y >>= f) R E := by
  split
  · exact (hx ‹_›).bind hf
  · exact (hy ‹_›).bind hf

/-- `mapM` over a list whose every element maps to a value satisfying `P`
or to an error satisfying `E`. -/
theorem mapM {f : β → Except ε α} {P : α → Prop} :
    ∀ {xs : List β}, (∀ b ∈ xs, Ensures (f b) P E) →
      Ensures (xs.mapM f) (fun ys => ∀ y ∈ ys, P y) E
  | [], _ => Ensures.pure (fun _ h => absurd h List.not_mem_nil)
  | b :: bs, h => by
    rw [List.mapM_cons]
    refine bind (h b List.mem_cons_self) fun y hy => ?_
    refine bind (mapM fun b' hb' => h b' (List.mem_cons_of_mem b hb')) fun ys hys => ?_
    exact Ensures.pure fun z hz => (List.mem_cons.mp hz).elim (fun h => h ▸ hy) (hys z)

end Ensures

/-- The rule for runs: an invariant that every step keeps, or leaves with
an error satisfying `E`, holds after every run that returns, and every run
that aborts does so with an error satisfying `E`. -/
theorem Ensures.runFrom {step : σ → η → Except ε σ} {I : σ → Prop} {E : ε → Prop}
    (hstep : ∀ s e, I s → Ensures (step s e) I E) :
    ∀ {s : σ} (es : List η), I s → Ensures (Framework.runFrom step s es) I E
  | _, [], hs => hs
  | s, e :: es, hs => by
    have h := hstep s e hs
    cases hse : step s e with
    | error a =>
      rw [runFrom_cons_error hse]
      exact h.of_error hse
    | ok _ =>
      rw [runFrom_cons_ok hse]
      exact Ensures.runFrom hstep es (h.of_ok hse)

/-- Every reachable state satisfies an invariant that holds initially and
that every step keeps (the steps that abort reach nothing). -/
theorem Reachable.of_ensures {step : σ → η → Except ε σ} {init : σ} {I : σ → Prop} {E : ε → Prop}
    (h₀ : I init) (hstep : ∀ s e, I s → Ensures (step s e) I E) {s : σ} (h : Reachable step init s) :
    I s :=
  h.inv h₀ fun s e _ hs he => (hstep s e hs).of_ok he

end ConsensusRs.Framework
