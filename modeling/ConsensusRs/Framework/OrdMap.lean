import ConsensusRs.Framework.Lex

/-!
# Ordered maps

A finite map kept the way a sorted key-value store keeps it: its bindings in
increasing key order, one per key, the order a field of the structure
(`OrdMap.sorted`), so that no map can be built out of order. `insert`
puts a binding in its place (over one with the same key), `erase` drops a
key's binding, and `seek k` is a forward iterator positioned at the first
key not below `k`.

The lemmas:

* `get?_eq_some_iff`, `get?_insert`, `get?_erase`: a read is membership,
  and what each write does to it;
* `filter_insert_of_not`, `filter_erase_of_not`: a write leaves the bindings
  of every key outside a set alone, so whatever reads only those keys is
  unchanged;
* `seek_eq_filter`, `entries_foldl_erase`: a seek sees exactly the keys not
  below its target, and erasing a list of keys filters them out;
* `takeWhile_prefix_eq_filter` (keys that are lists): a scan from a seek
  that stops at the first key without a prefix sees every key past the
  seek with that prefix, by the interval property of `Lex.lean`.

Nothing here is about a particular program.
-/

namespace ConsensusRs.Framework

/-- A finite map as its bindings in increasing key order. -/
structure OrdMap (κ ν : Type) [LT κ] where
  entries : List (κ × ν)
  sorted : entries.Pairwise (fun a b => a.1 < b.1)

namespace OrdMap

variable {κ ν : Type} [DecidableEq κ]

/-- A read of a list of bindings looks at its first binding first. -/
theorem lookup_cons_eq (k : κ) (e : κ × ν) (l : List (κ × ν)) :
    (e :: l).lookup k = if k = e.1 then some e.2 else l.lookup k := by
  rcases e with ⟨k', b⟩
  by_cases hk : k = k'
  · simp [hk]
  · simp [List.lookup_cons, beq_eq_false_iff_ne.mpr hk, hk]

/-- Reads of a key-filtered list of bindings. -/
theorem lookup_filter (P : κ → Bool) (k : κ) :
    ∀ l : List (κ × ν), (l.filter (fun e => P e.1)).lookup k = if P k then l.lookup k else none
  | [] => by simp
  | e :: l => by
    simp only [List.filter_cons]
    by_cases he : P e.1 = true
    · rw [if_pos he, lookup_cons_eq, lookup_cons_eq, lookup_filter P k l]
      by_cases hk : k = e.1
      · subst hk
        simp [he]
      · simp [hk]
    · rw [if_neg he, lookup_filter P k l, lookup_cons_eq]
      by_cases hk : k = e.1
      · subst hk
        simp [he]
      · simp [hk]

variable [LT κ]

/-- No binding. -/
def empty : OrdMap κ ν := ⟨[], .nil⟩

/-- The value bound to `k`. -/
def get? (m : OrdMap κ ν) (k : κ) : Option ν := m.entries.lookup k

theorem get?_def (m : OrdMap κ ν) (k : κ) : m.get? k = m.entries.lookup k := rfl

/-- `(k, v)` in its place in a sorted list of bindings: before the first
greater key, over an equal one. -/
def insertEntry [DecidableLT κ] (k : κ) (v : ν) : List (κ × ν) → List (κ × ν)
  | [] => [(k, v)]
  | e :: l => if k < e.1 then (k, v) :: e :: l else if k = e.1 then (k, v) :: l else e :: insertEntry k v l

theorem insertEntry_nil [DecidableLT κ] (k : κ) (v : ν) : insertEntry k v [] = [(k, v)] := rfl

theorem insertEntry_cons [DecidableLT κ] (k : κ) (v : ν) (e : κ × ν) (l : List (κ × ν)) :
    insertEntry k v (e :: l) =
      if k < e.1 then (k, v) :: e :: l else if k = e.1 then (k, v) :: l else e :: insertEntry k v l :=
  rfl

/-- The bindings after an insert are the new one and bindings from before. -/
theorem mem_insertEntry [DecidableLT κ] {k : κ} {v : ν} {e : κ × ν} :
    ∀ {l : List (κ × ν)}, e ∈ insertEntry k v l → e = (k, v) ∨ e ∈ l
  | [], h => .inl (List.mem_singleton.mp h)
  | e' :: l, h => by
    rw [insertEntry_cons] at h
    split_ifs at h with hlt heq
    · exact (List.mem_cons.mp h).imp id id
    · exact (List.mem_cons.mp h).imp id (List.mem_cons_of_mem e')
    · rcases List.mem_cons.mp h with rfl | h
      · exact .inr List.mem_cons_self
      · exact (mem_insertEntry h).imp id (List.mem_cons_of_mem e')

/-- Reads after an insert, with no assumption on the order. -/
theorem lookup_insertEntry [DecidableLT κ] (k k' : κ) (v : ν) :
    ∀ l : List (κ × ν), (insertEntry k v l).lookup k' = if k' = k then some v else l.lookup k'
  | [] => by simp [insertEntry_nil, lookup_cons_eq]
  | e :: l => by
    by_cases hlt : k < e.1
    · rw [insertEntry_cons, if_pos hlt]
      exact lookup_cons_eq k' (k, v) (e :: l)
    by_cases heq : k = e.1
    · rw [insertEntry_cons, if_neg hlt, if_pos heq, lookup_cons_eq, lookup_cons_eq]
      subst heq
      by_cases hk : k' = e.1 <;> simp [hk]
    · rw [insertEntry_cons, if_neg hlt, if_neg heq, lookup_cons_eq, lookup_cons_eq, lookup_insertEntry k k' v l]
      by_cases hk : k' = k
      · subst hk
        simp [heq]
      · simp [hk]

/-- A binding whose key a predicate rejects leaves the bindings it accepts
as they were. -/
theorem filter_insertEntry_of_not [DecidableLT κ] {P : κ → Bool} {k : κ} (v : ν) (hk : P k = false) :
    ∀ l : List (κ × ν), (insertEntry k v l).filter (fun e => P e.1) = l.filter (fun e => P e.1)
  | [] => by simp [insertEntry_nil, hk]
  | e :: l => by
    rw [insertEntry_cons]
    split_ifs with hlt heq
    · simp [hk]
    · subst heq
      simp [hk]
    · simp only [List.filter_cons, filter_insertEntry_of_not v hk l]

/-- The binding of `k` dropped. -/
def erase (m : OrdMap κ ν) (k : κ) : OrdMap κ ν :=
  ⟨m.entries.filter (fun e => e.1 ≠ k), m.sorted.filter _⟩

theorem entries_erase (m : OrdMap κ ν) (k : κ) :
    (m.erase k).entries = m.entries.filter (fun e => e.1 ≠ k) :=
  rfl

/-- A forward iterator from the first key not below `k`. -/
def seek [DecidableLT κ] (m : OrdMap κ ν) (k : κ) : List (κ × ν) :=
  m.entries.dropWhile (fun e => e.1 < k)

@[simp] theorem get?_empty (k : κ) : (empty : OrdMap κ ν).get? k = none := rfl

@[simp] theorem get?_erase (m : OrdMap κ ν) (k k' : κ) :
    (m.erase k).get? k' = if k' = k then none else m.get? k' := by
  rw [get?_def, get?_def, entries_erase, lookup_filter (fun x => decide (x ≠ k))]
  by_cases hk : k' = k <;> simp [hk]

theorem mem_erase (m : OrdMap κ ν) {k : κ} {e : κ × ν} :
    e ∈ (m.erase k).entries ↔ e ∈ m.entries ∧ e.1 ≠ k := by
  simp [entries_erase, List.mem_filter]

/-- An erase of a key outside a set leaves the bindings of the set. -/
theorem filter_erase_of_not (m : OrdMap κ ν) {P : κ → Bool} {k : κ} (hk : P k = false) :
    (m.erase k).entries.filter (fun e => P e.1) = m.entries.filter (fun e => P e.1) := by
  simp only [entries_erase, List.filter_filter]
  apply List.filter_congr
  intro e _
  by_cases he : e.1 = k
  · simp [he, hk]
  · simp [he]

/-- Erasing keys one after another drops exactly their bindings. -/
theorem entries_foldl_erase (ks : List κ) :
    ∀ m : OrdMap κ ν, (ks.foldl erase m).entries = m.entries.filter (fun e => e.1 ∉ ks) := by
  induction ks with
  | nil => intro m; simp
  | cons k ks ih =>
    intro m
    rw [List.foldl_cons, ih, entries_erase]
    simp only [List.filter_filter]
    apply List.filter_congr
    intro e _
    simp only [List.mem_cons, not_or, Bool.decide_and, ne_eq]
    rw [Bool.and_comm]

/-- Two maps that agree on the bindings of a set of keys agree on reads of
those keys. -/
theorem get?_eq_of_filter_eq {m m' : OrdMap κ ν} {P : κ → Bool}
    (h : m.entries.filter (fun e => P e.1) = m'.entries.filter (fun e => P e.1)) {k : κ} (hk : P k = true) :
    m.get? k = m'.get? k := by
  have hl := lookup_filter P k m.entries
  rw [h, lookup_filter P k m'.entries, if_pos hk, if_pos hk] at hl
  exact hl.symm

/-- Keys of a sorted list of bindings are unique, so a read is membership. -/
theorem lookup_eq_some_iff_mem [Std.Irrefl (· < · : κ → κ → Prop)] {k : κ} {v : ν} :
    ∀ {l : List (κ × ν)}, l.Pairwise (fun a b => a.1 < b.1) → (l.lookup k = some v ↔ (k, v) ∈ l)
  | [], _ => by simp
  | ⟨k', b⟩ :: l, h => by
    rw [List.pairwise_cons] at h
    by_cases hk : k = k'
    · subst hk
      have hnot : (k, v) ∉ l := fun hm => Std.lt_irrefl (h.1 (k, v) hm)
      simp [lookup_cons_eq, hnot, eq_comm]
    · have hne : (k, v) ≠ (k', b) := fun he => hk (Prod.ext_iff.mp he).1
      simp [lookup_cons_eq, hk, hne, lookup_eq_some_iff_mem h.2]

theorem get?_eq_some_iff [Std.Irrefl (· < · : κ → κ → Prop)] (m : OrdMap κ ν) {k : κ} {v : ν} :
    m.get? k = some v ↔ (k, v) ∈ m.entries :=
  lookup_eq_some_iff_mem m.sorted

section Order

variable [LE κ] [Std.IsLinearOrder κ] [Std.LawfulOrderLT κ]

theorem sorted_insertEntry [DecidableLT κ] (k : κ) (v : ν) :
    ∀ {l : List (κ × ν)}, l.Pairwise (fun a b => a.1 < b.1) →
      (insertEntry k v l).Pairwise (fun a b => a.1 < b.1)
  | [], _ => List.pairwise_singleton _ _
  | e :: l, h => by
    rw [List.pairwise_cons] at h
    rw [insertEntry_cons]
    split_ifs with hlt heq
    · refine List.Pairwise.cons ?_ (List.pairwise_cons.mpr h)
      intro e' he'
      rcases List.mem_cons.mp he' with rfl | he'
      · exact hlt
      · exact Std.lt_trans hlt (h.1 e' he')
    · subst heq
      exact List.Pairwise.cons h.1 h.2
    · -- `e` is below `k`, so it stays first
      have hek : e.1 < k := by
        rcases Std.lt_trichotomy k e.1 with h' | h' | h'
        · exact absurd h' hlt
        · exact absurd h' heq
        · exact h'
      refine List.Pairwise.cons ?_ (sorted_insertEntry k v h.2)
      intro e' he'
      rcases mem_insertEntry he' with rfl | he'
      · exact hek
      · exact h.1 e' he'

/-- `(k, v)` bound in place of any binding of `k`. -/
def insert [DecidableLT κ] (m : OrdMap κ ν) (k : κ) (v : ν) : OrdMap κ ν :=
  ⟨insertEntry k v m.entries, sorted_insertEntry k v m.sorted⟩

@[simp] theorem get?_insert [DecidableLT κ] (m : OrdMap κ ν) (k k' : κ) (v : ν) :
    (m.insert k v).get? k' = if k' = k then some v else m.get? k' :=
  lookup_insertEntry k k' v m.entries

/-- The bindings after an insert: the new one, and the old ones of other
keys. -/
theorem mem_insert [DecidableLT κ] (m : OrdMap κ ν) {k : κ} {v : ν} {e : κ × ν} :
    e ∈ (m.insert k v).entries ↔ e = (k, v) ∨ (e ∈ m.entries ∧ e.1 ≠ k) := by
  rcases e with ⟨k', v'⟩
  rw [← get?_eq_some_iff, get?_insert, ← get?_eq_some_iff]
  by_cases hk : k' = k
  · subst hk
    simp [eq_comm]
  · simp [hk]

/-- An insert under a key outside a set leaves the bindings of the set. -/
theorem filter_insert_of_not [DecidableLT κ] (m : OrdMap κ ν) {P : κ → Bool} {k : κ} (v : ν)
    (hk : P k = false) :
    (m.insert k v).entries.filter (fun e => P e.1) = m.entries.filter (fun e => P e.1) :=
  filter_insertEntry_of_not v hk m.entries

omit [DecidableEq κ] in
/-- On sorted keys, dropping the keys below `k` keeps exactly those not below it. -/
theorem dropWhile_lt_eq_filter [DecidableLT κ] (k : κ) {l : List (κ × ν)}
    (h : l.Pairwise (fun a b => a.1 < b.1)) :
    l.dropWhile (fun e => e.1 < k) = l.filter (fun e => ¬ e.1 < k) := by
  induction h with
  | nil => rfl
  | @cons e l he _ ih =>
    rw [List.dropWhile_cons, List.filter_cons]
    by_cases hek : e.1 < k
    · simp [hek, ih]
    · -- every later key is above `e`'s, so none is below `k`
      have hall : ∀ e' ∈ l, ¬ e'.1 < k := fun e' he' hlt => hek (Std.lt_trans (he e' he') hlt)
      simp only [hek, decide_false, Bool.false_eq_true, if_false, decide_not, Bool.not_false, if_true]
      have hkeep : l.filter (fun e => !decide (e.1 < k)) = l :=
        List.filter_eq_self.mpr fun e' he' => by simpa using hall e' he'
      rw [hkeep]

omit [DecidableEq κ] in
/-- A seek sees every binding whose key is not below its target. -/
theorem seek_eq_filter [DecidableLT κ] (m : OrdMap κ ν) (k : κ) :
    m.seek k = m.entries.filter (fun e => ¬ e.1 < k) :=
  dropWhile_lt_eq_filter k m.sorted

end Order

section Prefix

variable {α : Type} [LT α] [LE α] [Std.IsLinearOrder α] [Std.LawfulOrderLT α] [DecidableEq α]

/-- Over sorted keys none below `p`, the run of keys extending `p` from the
front is every key extending `p`. -/
theorem takeWhile_prefix_eq_filter {ν : Type} {p : List α} :
    ∀ {l : List (List α × ν)}, l.Pairwise (fun a b => a.1 < b.1) → (∀ e ∈ l, p ≤ e.1) →
      l.takeWhile (fun e => p <+: e.1) = l.filter (fun e => p <+: e.1)
  | [], _, _ => rfl
  | e :: l, hs, hp => by
    rw [List.pairwise_cons] at hs
    rw [List.takeWhile_cons, List.filter_cons]
    by_cases he : p <+: e.1
    · simp only [he, decide_true, if_true]
      rw [takeWhile_prefix_eq_filter hs.2 (fun e' he' => hp e' (List.mem_cons_of_mem e he'))]
    · -- past `e`, which is not below `p` and lacks it, no key has the prefix
      have hnil : l.filter (fun e => p <+: e.1) = [] :=
        List.filter_eq_nil_iff.mpr fun e' he' => by
          simpa using not_prefix_of_lt (hp e List.mem_cons_self) he (hs.1 e' he')
      simp [he, hnil]

end Prefix

end OrdMap

end ConsensusRs.Framework
