import Mathlib.Data.List.Infix

/-!
# Prefixes under the lexicographic order

Lists compare lexicographically, a proper prefix first (`List.lt`, core's
order on `List α` over any linear order on `α`). Under that order the lists
that extend a given prefix form an interval: each is at least the prefix
(`List.IsPrefix.le`), and every list between two of them extends it too
(`isPrefix_of_le_of_le`). A forward scan that starts at or after the prefix
and stops at the first list without it therefore sees every list with it
that the scan passes (`OrdMap.takeWhile_prefix_eq_filter`).

Two prefixes `Apart` (neither extends the other) start disjoint sets of
lists (`not_prefix_append_of_apart`), and each list with the smaller one
comes before each list with the larger (`append_lt_of_apart_of_lt`).

Nothing here is about a particular program.
-/

namespace ConsensusRs.Framework

variable {α : Type}

/-- Neither list extends the other. -/
def Apart (p q : List α) : Prop := ¬ p <+: q ∧ ¬ q <+: p

instance [DecidableEq α] (p q : List α) : Decidable (Apart p q) :=
  inferInstanceAs (Decidable (_ ∧ _))

theorem Apart.symm {p q : List α} (h : Apart p q) : Apart q p := ⟨h.2, h.1⟩

/-- No extension of one of two apart lists extends the other. -/
theorem not_prefix_append_of_apart {p q : List α} (h : Apart p q) (k : List α) : ¬ p <+: q ++ k := by
  intro hp
  rcases List.prefix_or_prefix_of_prefix hp (List.prefix_append q k) with h' | h'
  · exact h.1 h'
  · exact h.2 h'

theorem append_ne_append_of_apart {p q : List α} (h : Apart p q) (k k' : List α) : p ++ k ≠ q ++ k' := by
  intro he
  exact not_prefix_append_of_apart h k' (he ▸ List.prefix_append p k)

section Lt

variable [LT α]

/-- Appending to a common prefix keeps the order. -/
theorem append_lt_append_iff [Std.Irrefl (· < · : α → α → Prop)] (p : List α) {a b : List α} :
    p ++ a < p ++ b ↔ a < b := by
  induction p with
  | nil => rfl
  | cons x p ih => rw [List.cons_append, List.cons_append, List.cons_lt_cons_self, ih]

/-- Every list with the smaller of two apart prefixes comes before every
list with the larger one. -/
theorem append_lt_of_apart_of_lt {p q : List α} (h : Apart p q) (hpq : p < q) (k k' : List α) :
    p ++ k < q ++ k' := by
  induction p generalizing q with
  | nil => exact absurd List.nil_prefix h.1
  | cons x p ih =>
    rcases q with _ | ⟨y, q⟩
    · exact absurd List.nil_prefix h.2
    rw [List.cons_lt_cons_iff] at hpq
    rw [List.cons_append, List.cons_append, List.cons_lt_cons_iff]
    rcases hpq with hxy | ⟨rfl, hpq⟩
    · exact .inl hxy
    · refine .inr ⟨rfl, ih ⟨?_, ?_⟩ hpq⟩
      · exact fun hp => h.1 (List.cons_prefix_cons.mpr ⟨rfl, hp⟩)
      · exact fun hq => h.2 (List.cons_prefix_cons.mpr ⟨rfl, hq⟩)

end Lt

section Order

variable [LT α] [LE α] [Std.IsLinearOrder α] [Std.LawfulOrderLT α]

/-- The lists extending `p` are an interval: a list between `p` and one of
its extensions extends it. -/
theorem isPrefix_of_le_of_le {p a b : List α} (hpa : p ≤ a) (hab : a ≤ b) (hb : p <+: b) : p <+: a := by
  induction p generalizing a b with
  | nil => exact List.nil_prefix
  | cons x p ih =>
    rcases b with _ | ⟨z, b⟩
    · exact absurd (List.prefix_nil.mp hb) (List.cons_ne_nil x p)
    obtain ⟨rfl, hpb⟩ := List.cons_prefix_cons.mp hb
    rcases a with _ | ⟨y, a⟩
    · exact absurd (List.nil_lt_cons x p) hpa
    rw [List.cons_le_cons_iff] at hpa hab
    -- `a` starts with `x`: it is neither below `p`'s head nor above `b`'s
    have hyx : y = x := by
      rcases hpa with hxy | ⟨rfl, -⟩
      · rcases hab with hyx | ⟨rfl, -⟩
        · exact absurd hyx (Std.Asymm.asymm _ _ hxy)
        · exact absurd hxy (Std.Irrefl.irrefl _)
      · rfl
    subst hyx
    have hpa' : p ≤ a := hpa.resolve_left (Std.Irrefl.irrefl _) |>.2
    have hab' : a ≤ b := hab.resolve_left (Std.Irrefl.irrefl _) |>.2
    exact List.cons_prefix_cons.mpr ⟨rfl, ih hpa' hab' hpb⟩

/-- Past a list that is at least `p` but does not extend it, no list
extends `p`. -/
theorem not_prefix_of_lt {p a b : List α} (hpa : p ≤ a) (ha : ¬ p <+: a) (hab : a < b) : ¬ p <+: b :=
  fun hb => ha (isPrefix_of_le_of_le hpa (Std.le_of_lt hab) hb)

end Order

end ConsensusRs.Framework
