import ConsensusRs.Consensus.Handlers
import Mathlib.Data.Prod.Lex
import Mathlib.Data.List.Induction

/-!
# Round changes: the timeout vote

`RoundChangeSet::max_round` picks the round a node votes for when its round
times out (`send_next_round_change`). The RFC asks for the round with the
most votes, the largest of those on a tie (`IsTimeoutRound`). The code's
fold takes a round when it has at least as many votes as the one held and
is larger, over the rounds in the order the `HashMap` gives.

* `maxRound_of_increasing`: over the rounds in increasing order (none of
  them 0), the fold gives the RFC's round;
* `maxRound_order_toy`: in another order it need not: two sets that hold
  the same rounds with the same votes, in two orders, give two rounds, and
  the one the node's own order gives is not the RFC's.

`RoundChangeSet::max_round_more_than_n` promises the largest round with at
least `num` votes; it takes the largest round and compares only its votes.

* `maxRoundMoreThanN_doc_iff`: it always returns, and its answer is the
  promised one exactly when no round has `num` votes or the largest round
  has;
* `maxRoundMoreThanN_lower_round_toy`: a round with enough votes below one
  without is missed.
-/

namespace ConsensusRs

/-! ## The fold over (round, votes) pairs -/

/-- One step of `max_round`'s fold, on (round, votes). -/
def maxRoundStep (acc x : Nat × Nat) : Nat × Nat := if x.2 ≥ acc.2 ∧ x.1 > acc.1 then x else acc

/-- `acc` is the pair of `l` largest in the order on (votes, round), or
`(0, 0)` when `l` is empty. -/
def IsLexMax (l : List (Nat × Nat)) (acc : Nat × Nat) : Prop :=
  (l = [] ∧ acc = (0, 0)) ∨ (acc ∈ l ∧ ∀ y ∈ l, toLex (y.2, y.1) ≤ toLex (acc.2, acc.1))

/-- Over rounds in increasing order, none of them 0, the fold keeps the
largest pair: a later round beats the one held exactly when it has at least
as many votes. -/
theorem isLexMax_foldl (l : List (Nat × Nat)) (hs : (l.map Prod.fst).Pairwise (· < ·))
    (hpos : ∀ y ∈ l, 0 < y.1) : IsLexMax l (l.foldl maxRoundStep (0, 0)) := by
  induction l using List.reverseRecOn with
  | nil => exact .inl ⟨rfl, rfl⟩
  | append_singleton l x ih =>
    rw [List.map_append, List.pairwise_append] at hs
    obtain ⟨hs, -, hlast⟩ := hs
    have ih := ih hs fun y hy => hpos y (List.mem_append_left _ hy)
    rw [List.foldl_append, List.foldl_cons, List.foldl_nil]
    set acc := l.foldl maxRoundStep (0, 0)
    -- the new round is larger than the one held
    have hround : acc.1 < x.1 := by
      rcases ih with ⟨-, hacc⟩ | ⟨hmem, -⟩
      · rw [hacc]
        exact hpos x (List.mem_append_right _ (List.mem_singleton_self x))
      · exact hlast _ (List.mem_map_of_mem hmem) _ (List.mem_singleton_self _)
    unfold maxRoundStep
    split
    · rename_i hge
      refine .inr ⟨List.mem_append_right _ (List.mem_singleton_self x), fun y hy => ?_⟩
      rcases List.mem_append.mp hy with hy | hy
      · rcases ih with ⟨rfl, -⟩ | ⟨-, hle⟩
        · exact absurd hy List.not_mem_nil
        · have hy := Prod.Lex.toLex_le_toLex.mp (hle y hy)
          exact Prod.Lex.toLex_le_toLex.mpr (by omega)
      · rw [List.mem_singleton.mp hy]
    · rename_i hlt
      have hvotes : x.2 < acc.2 := by omega
      rcases ih with ⟨rfl, hacc⟩ | ⟨hmem, hle⟩
      · rw [hacc] at hvotes
        exact absurd hvotes (Nat.not_lt_zero _)
      refine .inr ⟨List.mem_append_left _ hmem, fun y hy => ?_⟩
      rcases List.mem_append.mp hy with hy | hy
      · exact hle y hy
      · rw [List.mem_singleton.mp hy]
        exact Prod.Lex.toLex_le_toLex.mpr (.inl hvotes)

/-! ## The round-change set -/

namespace RoundChangeSet

/-- The rounds of the set with their numbers of votes, in the set's order. -/
def counts (rcs : RoundChangeSet) : List (Nat × Nat) := rcs.roundChanges.entries.map fun x => (x.1, x.2.len)

/-- The round the RFC's timeout vote is for: the round of the set largest in
the order on (votes, round), 0 for an empty set. -/
def IsTimeoutRound (rcs : RoundChangeSet) (r : Nat) : Prop :=
  (rcs.roundChanges.entries = [] ∧ r = 0) ∨
    ∃ mm, rcs.roundChanges.lookup r = some mm ∧
      ∀ r' mm', rcs.roundChanges.lookup r' = some mm' → toLex (mm'.len, r') ≤ toLex (mm.len, r)

variable {rcs : RoundChangeSet}

theorem maxRound_eq (rcs : RoundChangeSet) : rcs.maxRound = (rcs.counts.foldl maxRoundStep (0, 0)).1 := by
  rw [counts, List.foldl_map]
  rfl

theorem map_fst_counts (rcs : RoundChangeSet) : rcs.counts.map Prod.fst = rcs.roundChanges.keys := by
  simp [counts, AList.keys, List.keys]

/-- The largest pair of the counts is the RFC's round. -/
theorem isTimeoutRound_of_isLexMax {acc : Nat × Nat} (h : IsLexMax rcs.counts acc) : rcs.IsTimeoutRound acc.1 := by
  rcases h with ⟨hnil, rfl⟩ | ⟨hmem, hle⟩
  · exact .inl ⟨List.map_eq_nil_iff.mp hnil, rfl⟩
  obtain ⟨⟨r, mm⟩, hentry, hacc⟩ := List.mem_map.mp hmem
  subst hacc
  refine .inr ⟨mm, AList.mem_lookup_iff.mpr hentry, fun r' mm' hr' => ?_⟩
  exact hle (r', mm'.len) (List.mem_map.mpr ⟨⟨r', mm'⟩, AList.mem_lookup_iff.mp hr', rfl⟩)

/-- Over the rounds in increasing order, none of them 0, `max_round` is the
round with the most votes, the largest of those on a tie. -/
theorem maxRound_of_increasing (hs : rcs.roundChanges.keys.Pairwise (· < ·))
    (hpos : ∀ r ∈ rcs.roundChanges.keys, 0 < r) : rcs.IsTimeoutRound rcs.maxRound := by
  rw [maxRound_eq]
  refine isTimeoutRound_of_isLexMax (isLexMax_foldl _ (by rw [map_fst_counts]; exact hs) fun y hy => ?_)
  exact hpos y.1 (map_fst_counts rcs ▸ List.mem_map_of_mem hy)

/-! ## Rounds with enough votes -/

/-- What `max_round_more_than_n`'s doc comment promises: the largest round
whose vote set has at least `num` messages, or `None` when no round has
that many. -/
def IsMaxRoundMoreThanN (rcs : RoundChangeSet) (num : Nat) : Option Nat → Prop
  | none => ∀ r mm, rcs.roundChanges.lookup r = some mm → mm.len < num
  | some r => ∃ mm, rcs.roundChanges.lookup r = some mm ∧ num ≤ mm.len ∧
      ∀ r' mm', rcs.roundChanges.lookup r' = some mm' → num ≤ mm'.len → r' ≤ r

theorem lookup_of_mem_keys {r : Nat} (h : r ∈ rcs.roundChanges.keys) :
    ∃ mm, rcs.roundChanges.lookup r = some mm :=
  Option.isSome_iff_exists.mp (AList.lookup_isSome.mpr (AList.mem_keys.mp h))

theorem mem_keys_of_lookup {r : Nat} {mm : MessageManage} (h : rcs.roundChanges.lookup r = some mm) :
    r ∈ rcs.roundChanges.keys :=
  AList.mem_keys.mpr (AList.lookup_isSome.mp (Option.isSome_iff_exists.mpr ⟨mm, h⟩))

/-- An empty set has no round with enough votes. -/
theorem maxRoundMoreThanN_of_max_none {num : Nat} (h : rcs.roundChanges.keys.max? = none) :
    rcs.maxRoundMoreThanN num = .ok none := by
  simp [maxRoundMoreThanN, h]

/-- Otherwise the `unwrap` finds the largest round's vote set, and only its
size is compared with `num`. -/
theorem maxRoundMoreThanN_of_max_some (num : Nat) {R : Nat} (h : rcs.roundChanges.keys.max? = some R) :
    ∃ mm, rcs.roundChanges.lookup R = some mm ∧
      rcs.maxRoundMoreThanN num = .ok (if num ≤ mm.len then some R else none) := by
  obtain ⟨mm, hmm⟩ := lookup_of_mem_keys (List.max?_mem h)
  refine ⟨mm, hmm, ?_⟩
  simp [maxRoundMoreThanN, h, hmm]

/-- `max_round_more_than_n` always returns, and what it returns is what its
doc comment promises exactly when no round has `num` messages or the
largest round does: a lower round with `num` messages is missed whenever a
larger round has fewer. -/
theorem maxRoundMoreThanN_doc_iff (rcs : RoundChangeSet) (num : Nat) :
    ∃ o, rcs.maxRoundMoreThanN num = .ok o ∧
      (rcs.IsMaxRoundMoreThanN num o ↔
        (∀ r mm, rcs.roundChanges.lookup r = some mm → mm.len < num) ∨
          ∃ r mm, rcs.roundChanges.lookup r = some mm ∧ num ≤ mm.len ∧ ∀ r' ∈ rcs.roundChanges.keys, r' ≤ r) := by
  cases hmax : rcs.roundChanges.keys.max? with
  | none =>
    -- no round at all: both sides hold
    have hnil := List.max?_eq_none_iff.mp hmax
    refine ⟨none, maxRoundMoreThanN_of_max_none hmax, ?_⟩
    have hnone : ∀ r mm, rcs.roundChanges.lookup r = some mm → mm.len < num := fun r mm h => by
      have := mem_keys_of_lookup h
      rw [hnil] at this
      exact absurd this List.not_mem_nil
    exact ⟨fun _ => .inl hnone, fun _ => hnone⟩
  | some R =>
    obtain ⟨mm, hmm, hres⟩ := maxRoundMoreThanN_of_max_some num hmax
    have hle : ∀ r' ∈ rcs.roundChanges.keys, r' ≤ R := (List.max?_eq_some_iff.mp hmax).2
    refine ⟨_, hres, ?_⟩
    by_cases hnum : num ≤ mm.len
    · -- the largest round has enough votes: it is the promised one
      rw [if_pos hnum]
      refine ⟨fun _ => .inr ⟨R, mm, hmm, hnum, hle⟩, fun _ => ⟨mm, hmm, hnum, ?_⟩⟩
      exact fun r' mm' hr' _ => hle r' (mem_keys_of_lookup hr')
    · -- it has not: `None` is right only if no round has enough
      rw [if_neg hnum]
      refine ⟨.inl, ?_⟩
      rintro (hall | ⟨r, mm', hr, hnum', hmax'⟩)
      · exact hall
      · have hrR : r = R := Nat.le_antisymm (hle r (mem_keys_of_lookup hr)) (hmax' R (List.max?_mem hmax))
        rw [hrR, hmm, Option.some.injEq] at hr
        rw [← hr] at hnum'
        exact absurd hnum' hnum

end RoundChangeSet

/-- A set over four validators, with round changes as `handle_message`
files them: a vote for round `round` from the validator `k`. -/
def toyVote (k : UInt8) (round : Nat) : GossipMessage :=
  { GossipMessage.new .roundChange (.subject ⟨⟨round, 1⟩, emptyHash⟩) none with address := Vector.replicate 20 k }

/-- The validators of `toyVote`. -/
def toyVoters : ImplValidatorSet := .new ([1, 2, 3, 4].map fun k => Vector.replicate 20 k)

/-- The votes `votes` added to an empty set one after another. -/
def toyRoundChanges (votes : List (Nat × GossipMessage)) : RoundChangeSet :=
  votes.foldl (fun rcs v => (rcs.add v.1 v.2).2) (.new toyVoters)

/-- Round 5's vote added before round 1's: the set holds round 1 first, and
round 1, with three votes, is its timeout round. -/
theorem maxRound_of_increasing_toy :
    (toyRoundChanges [(5, toyVote 1 5), (1, toyVote 2 1), (1, toyVote 3 1), (1, toyVote 4 1)]).roundChanges.keys.Pairwise
        (· < ·) ∧
      (∀ r ∈ (toyRoundChanges [(5, toyVote 1 5), (1, toyVote 2 1), (1, toyVote 3 1), (1, toyVote 4 1)]).roundChanges.keys,
        0 < r) ∧
      (toyRoundChanges [(5, toyVote 1 5), (1, toyVote 2 1), (1, toyVote 3 1), (1, toyVote 4 1)]).IsTimeoutRound
        (toyRoundChanges [(5, toyVote 1 5), (1, toyVote 2 1), (1, toyVote 3 1), (1, toyVote 4 1)]).maxRound :=
  ⟨by decide, by decide, RoundChangeSet.maxRound_of_increasing (by decide) (by decide)⟩

/-- Three votes for round 1 and one for round 5, in two orders: the sets
hold the same rounds with the same votes, and `max_round` gives 5 on the
first, as the node's own order gives it, though round 1 has the most
votes. -/
theorem maxRound_order_toy :
    ∃ rcs rcs' : RoundChangeSet,
      (rcs.roundChanges.entries.map fun x => (x.1, x.2.values)).Perm
        (rcs'.roundChanges.entries.map fun x => (x.1, x.2.values)) ∧
      rcs.maxRound = 5 ∧ rcs'.maxRound = 1 ∧ ¬ rcs.IsTimeoutRound rcs.maxRound := by
  let rcs := toyRoundChanges [(1, toyVote 2 1), (1, toyVote 3 1), (1, toyVote 4 1), (5, toyVote 1 5)]
  let rcs' := toyRoundChanges [(5, toyVote 1 5), (1, toyVote 2 1), (1, toyVote 3 1), (1, toyVote 4 1)]
  have h5 : rcs.maxRound = 5 := by decide
  have hne : rcs.roundChanges.entries.isEmpty = false := by decide
  have hvotes5 : (rcs.roundChanges.lookup 5).map MessageManage.len = some 1 := by decide
  have hvotes1 : (rcs.roundChanges.lookup 1).map MessageManage.len = some 3 := by decide
  have h1 : rcs'.maxRound = 1 := by decide
  have hp : (rcs.roundChanges.entries.map fun x => (x.1, x.2.values)).Perm
      (rcs'.roundChanges.entries.map fun x => (x.1, x.2.values)) := by decide
  refine ⟨rcs, rcs', hp, h5, h1, ?_⟩
  rintro (⟨hnil, -⟩ | ⟨mm, hmm, hle⟩)
  · rw [hnil] at hne
    exact Bool.noConfusion hne
  rw [h5] at hmm hle
  rw [hmm, Option.map_some, Option.some.injEq] at hvotes5
  obtain ⟨mm₁, hmm₁, hlen₁⟩ := Option.map_eq_some_iff.mp hvotes1
  -- round 1 has three votes and round 5 one
  have h := Prod.Lex.toLex_le_toLex.mp (hle 1 mm₁ hmm₁)
  simp only at h
  omega

/-- Three votes for round 1 and one for round 5: with `num = 3`,
`max_round_more_than_n` looks at round 5 only and returns `None`, though
round 1 has three votes. -/
theorem maxRoundMoreThanN_lower_round_toy :
    (toyRoundChanges [(1, toyVote 2 1), (1, toyVote 3 1), (1, toyVote 4 1), (5, toyVote 1 5)]).maxRoundMoreThanN 3 =
        .ok none ∧
      ((toyRoundChanges [(1, toyVote 2 1), (1, toyVote 3 1), (1, toyVote 4 1), (5, toyVote 1 5)]).roundChanges.lookup
        1).map MessageManage.len = some 3 := by
  decide

end ConsensusRs
