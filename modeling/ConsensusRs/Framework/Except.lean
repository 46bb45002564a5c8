import Mathlib.Order.Basic

/-!
# Computations that may abort

Inversion rules for `Except`: a `do` block that returned a value ran every
step to a value, and one that aborted did so at one of its steps. The
model's proofs take `do` blocks apart with these, one step at a time,
instead of unfolding `bind`. `mapM_of_mapM` is the round trip of a list
mapped by a function and back by one that inverts it on the list.
-/

namespace ConsensusRs.Framework

variable {ε ε' α β : Type}

@[simp] theorem pure_eq_ok {a b : α} : (pure a : Except ε α) = .ok b ↔ a = b := by
  simp [pure, Except.pure]

@[simp] theorem pure_ne_error {a : α} {e : ε} : (pure a : Except ε α) ≠ .error e := by
  simp [pure, Except.pure]

@[simp] theorem ok_bind (a : α) (f : α → Except ε β) : (Except.ok a >>= f) = f a := rfl

@[simp] theorem error_bind (e : ε) (f : α → Except ε β) : (Except.error e >>= f) = .error e := rfl

theorem bind_eq_ok {x : Except ε α} {f : α → Except ε β} {b : β} :
    x >>= f = .ok b ↔ ∃ a, x = .ok a ∧ f a = .ok b := by
  cases x <;> simp [bind, Except.bind]

theorem bind_eq_error {x : Except ε α} {f : α → Except ε β} {e : ε} :
    x >>= f = .error e ↔ x = .error e ∨ ∃ a, x = .ok a ∧ f a = .error e := by
  cases x <;> simp [bind, Except.bind]

theorem map_eq_ok {f : α → β} {x : Except ε α} {b : β} :
    f <$> x = .ok b ↔ ∃ a, x = .ok a ∧ f a = b := by
  cases x <;> simp [Functor.map, Except.map]

theorem map_eq_error {f : α → β} {x : Except ε α} {e : ε} : f <$> x = .error e ↔ x = .error e := by
  cases x <;> simp [Functor.map, Except.map]

theorem bind_of_ok {x : Except ε α} {f : α → Except ε β} {a : α} (h : x = .ok a) :
    x >>= f = f a := by
  subst h; rfl

theorem mapM_cons_eq_ok {f : α → Except ε β} {x : α} {xs : List α} {ys : List β} :
    (x :: xs).mapM f = .ok ys ↔ ∃ y ys', f x = .ok y ∧ xs.mapM f = .ok ys' ∧ ys = y :: ys' := by
  simp only [List.mapM_cons, bind_eq_ok, pure_eq_ok]
  constructor
  · rintro ⟨y, hy, ys', hys', rfl⟩
    exact ⟨y, ys', hy, hys', rfl⟩
  · rintro ⟨y, ys', hy, hys', rfl⟩
    exact ⟨y, hy, ys', hys', rfl⟩

/-- A list mapped by `f` and back by a `g` that undoes `f` on it is the
list again. -/
theorem mapM_of_mapM {f : α → Except ε β} {g : β → Except ε' α} :
    ∀ {xs : List α} {ys : List β}, (∀ x ∈ xs, ∀ y, f x = .ok y → g y = .ok x) →
      xs.mapM f = .ok ys → ys.mapM g = .ok xs
  | [], ys, _, h => by
    simp only [List.mapM_nil, pure_eq_ok] at h
    subst h
    rfl
  | x :: xs, ys, hinv, h => by
    obtain ⟨y, ys', hy, hys', rfl⟩ := Iff.mp mapM_cons_eq_ok h
    have ih := mapM_of_mapM (fun x' hx' => hinv x' (List.mem_cons_of_mem x hx')) hys'
    exact Iff.mpr mapM_cons_eq_ok ⟨x, xs, hinv x List.mem_cons_self y hy, ih, rfl⟩

/-- A list each of whose elements is an image under `f` is the image of a
list. -/
theorem exists_eq_map_of_forall_mem {f : α → β} :
    ∀ {ys : List β}, (∀ y ∈ ys, ∃ a, y = f a) → ∃ xs : List α, ys = xs.map f
  | [], _ => ⟨[], rfl⟩
  | y :: ys, h => by
    obtain ⟨a, rfl⟩ := h y List.mem_cons_self
    obtain ⟨xs, rfl⟩ := exists_eq_map_of_forall_mem (fun y hy => h y (List.mem_cons_of_mem _ hy))
    exact ⟨a :: xs, rfl⟩

/-- Decoding the images under `f` of a list, with a `g` that decodes each
image to `h` of what it is the image of, gives the list mapped by `h`. -/
theorem mapM_map_eq_ok {γ : Type} {f : α → β} {g : β → Except ε γ} {h : α → γ}
    (hg : ∀ a, g (f a) = .ok (h a)) : ∀ xs : List α, (xs.map f).mapM g = .ok (xs.map h)
  | [] => rfl
  | a :: xs => Iff.mpr mapM_cons_eq_ok ⟨h a, xs.map h, hg a, mapM_map_eq_ok hg xs, rfl⟩

/-- Every element of a list that `mapM` maps to values maps to a value. -/
theorem exists_of_mapM_eq_ok {f : α → Except ε β} :
    ∀ {xs : List α} {ys : List β}, xs.mapM f = .ok ys → ∀ x ∈ xs, ∃ y, f x = .ok y
  | [], _, _, x, hx => absurd hx List.not_mem_nil
  | x :: xs, _, h, x', hx' => by
    obtain ⟨y, ys', hy, hys', rfl⟩ := Iff.mp mapM_cons_eq_ok h
    rcases List.mem_cons.mp hx' with rfl | hx'
    · exact ⟨y, hy⟩
    · exact exists_of_mapM_eq_ok hys' x' hx'

/-- What `mapM` maps an element of the list to is in the list it returns. -/
theorem mem_of_mapM_eq_ok {f : α → Except ε β} :
    ∀ {xs : List α} {ys : List β}, xs.mapM f = .ok ys → ∀ x ∈ xs, ∀ y, f x = .ok y → y ∈ ys
  | [], _, _, x, hx, _, _ => absurd hx List.not_mem_nil
  | x :: xs, _, h, x', hx', y, hy => by
    obtain ⟨y₀, ys', hy₀, hys', rfl⟩ := Iff.mp mapM_cons_eq_ok h
    rcases List.mem_cons.mp hx' with rfl | hx'
    · rw [hy₀] at hy
      cases hy
      exact List.mem_cons_self
    · exact List.mem_cons_of_mem _ (mem_of_mapM_eq_ok hys' x' hx' y hy)

/-- A short-circuiting `allM` that fails, fails at one of the elements. -/
theorem allM_eq_error {f : α → Except ε Bool} :
    ∀ {xs : List α} {e : ε}, xs.allM f = .error e → ∃ x ∈ xs, f x = .error e
  | [], _, h => absurd h pure_ne_error
  | x :: xs, e, h => by
    simp only [List.allM_cons, bind_eq_error] at h
    rcases h with h | ⟨b, hb, h⟩
    · exact ⟨x, List.mem_cons_self, h⟩
    · cases b with
      | true =>
        obtain ⟨y, hy, hfy⟩ := allM_eq_error h
        exact ⟨y, List.mem_cons_of_mem x hy, hfy⟩
      | false => exact absurd h pure_ne_error

/-- Whether a computation returns a value that `p` accepts: a test that
`decide` evaluates on a concrete run. -/
def okAnd (p : α → Bool) : Except ε α → Bool
  | .ok a => p a
  | .error _ => false

theorem exists_of_okAnd {p : α → Bool} {x : Except ε α} (h : okAnd p x = true) :
    ∃ a, x = .ok a ∧ p a = true := by
  cases x with
  | error e => cases h
  | ok a => exact ⟨a, rfl, h⟩

/-- Whether a computation aborts with an error that `p` accepts. -/
def errorAnd (p : ε → Bool) : Except ε α → Bool
  | .ok _ => false
  | .error e => p e

theorem exists_of_errorAnd {p : ε → Bool} {x : Except ε α} (h : errorAnd p x = true) :
    ∃ e, x = .error e ∧ p e = true := by
  cases x with
  | error e => exact ⟨e, rfl, h⟩
  | ok a => cases h

end ConsensusRs.Framework
