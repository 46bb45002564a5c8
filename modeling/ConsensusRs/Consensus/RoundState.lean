import ConsensusRs.Consensus.Validator
import Mathlib.Data.List.AList
import Mathlib.Data.Finset.Card

/-!
# Vote sets and the state of a round

* `MessageManage` (`protocol::MessageManage`): the messages of one view from
  members of a validator set, at most one per sender. The code keeps them in
  a `HashMap` keyed by the sender's address, so a later message of a sender
  replaces its earlier one; the model keeps an association list, whose keys
  are distinct by construction, and every message is filed under its own
  sender (`address_eq`).
* `RoundState` (`consensus::pbft::core::round_state`): the proposal of the
  round, its prepare and commit sets, and the lock.
* `RoundChangeSet`: a vote set per round for round changes.

`getPrepareOrCommitSize_eq_card`: the size the prepare quorum is checked
against is the number of distinct senders of prepares and commits together,
and its loop never subtracts below zero.

A `HashMap` has no order, and `values()` and `max_round` iterate in whatever
order the map has. The model fixes one: newest sender first in a vote set,
and newest round first in a round-change set.
-/

namespace ConsensusRs

variable (K : Extern)

/-- Inclusion and exclusion on lists without repetitions: the distinct
items of two lists are those of both, less those of the first that are in
the second. -/
theorem card_toFinset_append {α : Type} [DecidableEq α] {xs ys : List α} (hx : xs.Nodup) (hy : ys.Nodup) :
    (xs ++ ys).toFinset.card = xs.length + ys.length - xs.countP (· ∈ ys) := by
  have hinter : (xs.toFinset ∩ ys.toFinset).card = xs.countP (· ∈ ys) := by
    rw [← List.toFinset_inter, List.toFinset_card_of_nodup (hx.inter ys), List.countP_eq_length_filter]
    simp [Inter.inter, List.inter]
  have hunion := Finset.card_union_add_card_inter xs.toFinset ys.toFinset
  rw [List.toFinset_card_of_nodup hx, List.toFinset_card_of_nodup hy, hinter] at hunion
  rw [List.toFinset_append]
  omega

/-- Replacing the value of a key changes the lookup of that key only, and
only if the key is there. -/
theorem dlookup_kreplace {α β : Type} [DecidableEq α] (a a' : α) (b : β) :
    ∀ l : List (Σ _ : α, β), (l.kreplace a b).dlookup a' = if a' = a ∧ a ∈ l.keys then some b else l.dlookup a'
  | [] => by simp [List.kreplace]
  | ⟨k, v⟩ :: l => by
    have ih := dlookup_kreplace a a' b l
    unfold List.kreplace at ih ⊢
    by_cases hk : a = k
    · subst hk
      rw [List.lookmap_cons_some _ l (if_pos rfl)]
      by_cases ha : a' = a
      · subst ha
        simp [List.dlookup_cons_eq]
      · simp [ha, List.dlookup_cons_ne _ ⟨a, _⟩ ha]
    · rw [List.lookmap_cons_none _ l (if_neg hk)]
      by_cases hk' : a' = k
      · subst hk'
        simp [Ne.symm hk, List.dlookup_cons_eq]
      · simp [List.dlookup_cons_ne _ ⟨k, _⟩ hk', ih, hk]

theorem lookup_replace {α β : Type} [DecidableEq α] (s : AList fun _ : α => β) (a a' : α) (b : β) :
    (s.replace a b).lookup a' = if a' = a ∧ a ∈ s then some b else s.lookup a' := by
  have h := dlookup_kreplace a a' b s.entries
  by_cases hc : a' = a ∧ a ∈ s
  · rw [if_pos ⟨hc.1, AList.mem_keys.mpr hc.2⟩] at h
    rw [if_pos hc]
    exact h
  · rw [if_neg fun h' => hc ⟨h'.1, AList.mem_keys.mp h'.2⟩] at h
    rw [if_neg hc]
    exact h

/-- `protocol::MessageManage`. -/
structure MessageManage where
  view : View
  valSet : ImplValidatorSet
  messages : AList fun _ : Address => GossipMessage
  /-- Each message is filed under its sender's address. -/
  address_eq : ∀ a msg, messages.lookup a = some msg → msg.address = a

namespace MessageManage

/-- `MessageManage::new`. -/
def new (view : View) (valSet : ImplValidatorSet) : MessageManage :=
  ⟨view, valSet, ∅, fun _ _ h => by simp [AList.lookup_empty] at h⟩

/-- `add_verify_message`: `HashMap::insert` under the sender's address. -/
def addVerifyMessage (m : MessageManage) (msg : GossipMessage) : MessageManage where
  view := m.view
  valSet := m.valSet
  messages := m.messages.insert msg.address msg
  address_eq a msg' h := by
    by_cases ha : a = msg.address
    · subst ha
      rw [AList.lookup_insert, Option.some.injEq] at h
      rw [← h]
    · rw [AList.lookup_insert_ne ha] at h
      exact m.address_eq a msg' h

/-- `MessageManage::add`: only a message from a member of the set is kept. -/
def add (m : MessageManage) (msg : GossipMessage) : Except String MessageManage :=
  match m.valSet.getByAddress msg.address with
  | none => .error ""
  | some _ => .ok (m.addVerifyMessage msg)

/-- `values`. -/
def values (m : MessageManage) : List GossipMessage := m.messages.entries.map (·.2)

/-- `len`. -/
def len (m : MessageManage) : Nat := m.messages.entries.length

/-- `get_message`. -/
def getMessage (m : MessageManage) (address : Address) : Option GossipMessage := m.messages.lookup address

variable {m m' : MessageManage} {msg : GossipMessage}

theorem add_eq_ok : m.add msg = .ok m' ↔ (m.valSet.getByAddress msg.address).isSome ∧ m' = m.addVerifyMessage msg := by
  unfold add
  cases m.valSet.getByAddress msg.address <;> simp [eq_comm]

@[simp] theorem new_len (view : View) (valSet : ImplValidatorSet) : (new view valSet).len = 0 := rfl

@[simp] theorem new_values (view : View) (valSet : ImplValidatorSet) : (new view valSet).values = [] := rfl

@[simp] theorem addVerifyMessage_valSet : (m.addVerifyMessage msg).valSet = m.valSet := rfl

theorem len_eq_length_keys : m.len = m.messages.keys.length := by
  simp [len, AList.keys, List.keys]

/-- Adding a message of a sender that is already in the set keeps its size;
one of a new sender adds one. -/
theorem len_addVerifyMessage :
    (m.addVerifyMessage msg).len = if msg.address ∈ m.messages then m.len else m.len + 1 := by
  rw [len_eq_length_keys, len_eq_length_keys]
  simp only [addVerifyMessage, AList.keys_insert, List.length_cons]
  split
  -- the keys are erased with the equality of the association list, not the
  -- default one of vectors, so the list lemmas take that instance
  · rename_i h
    exact @List.length_erase_add_one _ instBEqOfDecidableEq _ _ _ (AList.mem_keys.mp h)
  · rename_i h
    rw [@List.erase_of_not_mem _ instBEqOfDecidableEq _ _ _ (fun hk => h (AList.mem_keys.mpr hk))]

/-- A message of the set after an insertion is the inserted one or one of
the set before. -/
theorem mem_values_addVerifyMessage {x : GossipMessage} (h : x ∈ (m.addVerifyMessage msg).values) :
    x = msg ∨ x ∈ m.values := by
  simp only [values, addVerifyMessage, AList.entries_insert, List.map_cons, List.mem_cons] at h
  rcases h with h | h
  · exact .inl h
  · exact .inr (((List.kerase_sublist _ _).map _).subset h)

/-- The senders of a vote set are its keys: each message is filed under its
sender. -/
theorem map_address_values (m : MessageManage) : m.values.map GossipMessage.address = m.messages.keys := by
  simp only [values, AList.keys, List.keys, List.map_map]
  apply List.map_congr_left
  intro e he
  exact m.address_eq e.1 e.2 (AList.mem_lookup_iff.mpr he)

/-- A vote set holds one message per sender. -/
theorem nodup_senders (m : MessageManage) : (m.values.map GossipMessage.address).Nodup := by
  rw [map_address_values]
  exact m.messages.keys_nodup

theorem len_eq_length_values (m : MessageManage) : m.len = m.values.length := by
  simp [len, values]

theorem getMessage_isSome {a : Address} : (m.getMessage a).isSome ↔ a ∈ m.values.map GossipMessage.address := by
  rw [map_address_values]
  exact AList.lookup_isSome.trans AList.mem_keys.symm

end MessageManage

/-- `consensus::pbft::core::round_state::RoundState`. -/
structure RoundState where
  round : Nat
  height : Nat
  preprepare : Option PrePrepare
  prepares : MessageManage
  commits : MessageManage
  pendingRequest : Option Request
  lockHash : Option Hash

namespace RoundState

/-- `new_round_state`: empty vote sets for the view. -/
def newRoundState (view : View) (vals : ImplValidatorSet) (lockHash : Option Hash)
    (preprepare : Option PrePrepare) (pendingRequest : Option Request) : RoundState where
  round := view.round
  height := view.height
  preprepare := preprepare
  prepares := .new view vals
  commits := .new view vals
  pendingRequest := pendingRequest
  lockHash := lockHash

/-- `get_prepare_or_commit_size`: the sizes of both sets, less one for each
prepare whose sender also sent a commit. -/
def getPrepareOrCommitSize (rs : RoundState) : Nat :=
  rs.prepares.values.foldl
    (fun result message => if (rs.commits.getMessage message.address).isSome then result - 1 else result)
    (rs.prepares.len + rs.commits.len)

/-- One pass of `get_prepare_or_commit_size`'s loop, on a prepare. -/
def prepareOrCommitStep (rs : RoundState) (result : Nat) (message : GossipMessage) : Nat :=
  if (rs.commits.getMessage message.address).isSome then result - 1 else result

/-- `subject`: the view with the hash of the proposal, once there is one. -/
def subject (rs : RoundState) : Option Subject :=
  rs.preprepare.map fun p => ⟨⟨rs.round, rs.height⟩, p.proposal.block.hash K⟩

/-- `set_preprepare`. -/
def setPreprepare (rs : RoundState) (preprepare : PrePrepare) : RoundState :=
  { rs with preprepare := some preprepare }

/-- `proposal`. -/
def proposal (rs : RoundState) : Option Proposal := rs.preprepare.map (·.proposal)

/-- `is_locked`. -/
def isLocked (rs : RoundState) : Bool := rs.lockHash.isSome

/-- `lock_hash()` (the field has the name `lockHash`): lock on the hash of
the proposal, if there is one. -/
def lockHash' (rs : RoundState) : RoundState :=
  match rs.preprepare with
  | none => rs
  | some p => { rs with lockHash := some (p.proposal.block.hash K) }

variable {K} {rs : RoundState}

/-- `lock_hash()` changes the lock and nothing else. -/
theorem lockHash'_eq_setLock : rs.lockHash' K = { rs with lockHash := (rs.lockHash' K).lockHash } := by
  unfold lockHash'; split <;> rfl

@[simp] theorem lockHash'_preprepare : (rs.lockHash' K).preprepare = rs.preprepare := by
  rw [lockHash'_eq_setLock]

@[simp] theorem lockHash'_round : (rs.lockHash' K).round = rs.round := by
  rw [lockHash'_eq_setLock]

@[simp] theorem lockHash'_height : (rs.lockHash' K).height = rs.height := by
  rw [lockHash'_eq_setLock]

@[simp] theorem lockHash'_prepares : (rs.lockHash' K).prepares = rs.prepares := by
  rw [lockHash'_eq_setLock]

@[simp] theorem lockHash'_commits : (rs.lockHash' K).commits = rs.commits := by
  rw [lockHash'_eq_setLock]

/-- After `lock_hash()` on a round with a proposal, the lock is that
proposal's hash. -/
theorem lockHash'_lockHash {p : PrePrepare} (h : rs.preprepare = some p) :
    (rs.lockHash' K).lockHash = some (p.proposal.block.hash K) := by
  simp [lockHash', h]

theorem subject_isSome : (rs.subject K).isSome ↔ rs.preprepare.isSome := by
  simp [subject]

theorem proposal_isSome : rs.proposal.isSome ↔ rs.preprepare.isSome := by
  simp [proposal]

theorem getPrepareOrCommitSize_eq_foldl (rs : RoundState) :
    rs.getPrepareOrCommitSize = rs.prepares.values.foldl rs.prepareOrCommitStep (rs.prepares.len + rs.commits.len) :=
  rfl

/-- The loop takes one off for each prepare whose sender also sent a
commit. -/
theorem foldl_prepareOrCommitStep (rs : RoundState) (l : List GossipMessage) (n : Nat) :
    l.foldl rs.prepareOrCommitStep n = n - l.countP fun message => (rs.commits.getMessage message.address).isSome := by
  induction l generalizing n with
  | nil => rfl
  | cons message l ih =>
    rw [List.foldl_cons, ih, List.countP_cons]
    unfold prepareOrCommitStep
    split <;> omega

/-- Before the loop looks at a prepare, the result is still above the
number of commits. -/
theorem commits_len_lt_foldl {pre post : List GossipMessage} {message : GossipMessage}
    (h : rs.prepares.values = pre ++ message :: post) :
    rs.commits.len < pre.foldl rs.prepareOrCommitStep (rs.prepares.len + rs.commits.len) := by
  have hlen : rs.prepares.len = pre.length + post.length + 1 := by
    rw [MessageManage.len_eq_length_values, h, List.length_append, List.length_cons]
    omega
  have hcount := List.countP_le_length (p := fun message => (rs.commits.getMessage message.address).isSome) (l := pre)
  rw [foldl_prepareOrCommitStep]
  omega

/-- `get_prepare_or_commit_size` is the number of distinct senders of the
round's prepares and commits, and whenever its loop takes one off, the
result is at least one: the `usize` subtraction never underflows. -/
theorem getPrepareOrCommitSize_eq_card (rs : RoundState) :
    rs.getPrepareOrCommitSize = ((rs.prepares.values ++ rs.commits.values).map GossipMessage.address).toFinset.card ∧
      ∀ pre message post, rs.prepares.values = pre ++ message :: post →
        (rs.commits.getMessage message.address).isSome →
          1 ≤ pre.foldl rs.prepareOrCommitStep (rs.prepares.len + rs.commits.len) := by
  refine ⟨?_, fun pre message post h _ => Nat.one_le_of_lt (commits_len_lt_foldl h)⟩
  rw [getPrepareOrCommitSize_eq_foldl, foldl_prepareOrCommitStep, List.map_append,
    card_toFinset_append rs.prepares.nodup_senders rs.commits.nodup_senders, List.length_map, List.length_map,
    MessageManage.len_eq_length_values, MessageManage.len_eq_length_values, List.countP_map]
  congr 1
  apply List.countP_congr
  intro message _
  simp [MessageManage.getMessage_isSome]

end RoundState

/-- `consensus::pbft::core::round_change_set::RoundChangeSet` (its
`pre_rc_sign_bytes` is always `None` and never read). -/
structure RoundChangeSet where
  validatorSet : ImplValidatorSet
  roundChanges : AList fun _ : Nat => MessageManage

namespace RoundChangeSet

/-- `RoundChangeSet::new`. -/
def new (validators : ImplValidatorSet) : RoundChangeSet := ⟨validators, ∅⟩

/-- `entry(round).or_insert_with(..)`: the round's vote set, created empty
(for the default view) if the round has none. -/
def entry (rcs : RoundChangeSet) (round : Nat) : MessageManage × RoundChangeSet :=
  match rcs.roundChanges.lookup round with
  | some mm => (mm, rcs)
  | none =>
    let mm := MessageManage.new ⟨0, 0⟩ rcs.validatorSet
    (mm, { rcs with roundChanges := rcs.roundChanges.insert round mm })

/-- `RoundChangeSet::add`: the number of senders of the round after adding
the message; the round's (possibly new, empty) vote set stays when the
sender is not a validator. -/
def add (rcs : RoundChangeSet) (round : Nat) (msg : GossipMessage) : Except String Nat × RoundChangeSet :=
  let (mm, rcs) := rcs.entry round
  match mm.add msg with
  | .error e => (.error e, rcs)
  | .ok mm => (.ok mm.len, { rcs with roundChanges := rcs.roundChanges.replace round mm })

/-- `max_round`: over the rounds in the set's order, a round is taken when
it is larger than the one held and has at least as many votes. -/
def maxRound (rcs : RoundChangeSet) : Nat :=
  (rcs.roundChanges.entries.foldl
    (fun (acc : Nat × Nat) x => if x.2.len ≥ acc.2 ∧ x.1 > acc.1 then (x.1, x.2.len) else acc) (0, 0)).1

/-- `max_round_more_than_n`: the largest round of the set (`max_by` on the
rounds), if its vote set, looked up again with an `unwrap`, has at least
`num` messages. -/
def maxRoundMoreThanN (rcs : RoundChangeSet) (num : Nat) : Except Abort (Option Nat) :=
  match rcs.roundChanges.keys.max? with
  | none => pure none
  | some round => do
    let mm ← unwrapAt .maxRoundMoreThanN (rcs.roundChanges.lookup round)
    pure (if mm.len ≥ num then some round else none)

variable {rcs : RoundChangeSet} {round : Nat} {msg : GossipMessage}

/-- `entry` files its vote set under the round, takes it from the set or
makes it new, and touches no other round. -/
theorem entry_spec :
    (rcs.entry round).2.validatorSet = rcs.validatorSet ∧
      (rcs.entry round).2.roundChanges.lookup round = some (rcs.entry round).1 ∧
      (rcs.roundChanges.lookup round = some (rcs.entry round).1 ∨
        (rcs.entry round).1 = .new ⟨0, 0⟩ rcs.validatorSet) ∧
      ∀ r ≠ round, (rcs.entry round).2.roundChanges.lookup r = rcs.roundChanges.lookup r := by
  unfold entry
  split
  · rename_i mm hmm
    exact ⟨rfl, hmm, .inl hmm, fun _ _ => rfl⟩
  · exact ⟨rfl, AList.lookup_insert _, .inr rfl, fun r hr => AList.lookup_insert_ne hr⟩

theorem add_eq : rcs.add round msg =
    match (rcs.entry round).1.add msg with
    | .error e => (.error e, (rcs.entry round).2)
    | .ok mm => (.ok mm.len, { (rcs.entry round).2 with
        roundChanges := (rcs.entry round).2.roundChanges.replace round mm }) := rfl

@[simp] theorem add_validatorSet : (rcs.add round msg).2.validatorSet = rcs.validatorSet := by
  rw [add_eq]
  split <;> exact And.left entry_spec

/-- After `add`, a round's vote set is the one it had, or, for the message's
round, its vote set before (found or new) with or without the message. -/
theorem lookup_add {r : Nat} {mm' : MessageManage} (h : (rcs.add round msg).2.roundChanges.lookup r = some mm') :
    (r ≠ round ∧ rcs.roundChanges.lookup r = some mm') ∨
      r = round ∧ ∃ mm, (rcs.roundChanges.lookup round = some mm ∨ mm = .new ⟨0, 0⟩ rcs.validatorSet) ∧
        (mm' = mm ∨ mm.add msg = .ok mm') := by
  obtain ⟨-, hin, hold, hother⟩ := @entry_spec rcs round
  by_cases hr : r = round
  · subst hr
    refine .inr ⟨rfl, _, hold, ?_⟩
    rw [add_eq] at h
    split at h
    · rw [hin] at h
      exact .inl (Option.some.inj h).symm
    · rename_i mm hadd
      rw [lookup_replace, if_pos ⟨rfl, AList.lookup_isSome.mp (by rw [hin]; rfl)⟩] at h
      exact .inr (hadd.trans (congrArg _ (Option.some.inj h)))
  · refine .inl ⟨hr, ?_⟩
    rw [← hother r hr]
    rw [add_eq] at h
    split at h
    · exact h
    · rwa [lookup_replace, if_neg fun h' => hr h'.1] at h

/-- The count `add` returns is the size of the round's vote set after it. -/
theorem lookup_add_of_ok {n : Nat} (h : (rcs.add round msg).1 = .ok n) :
    ∃ mm', (rcs.add round msg).2.roundChanges.lookup round = some mm' ∧ mm'.len = n := by
  obtain ⟨-, hin, -, -⟩ := @entry_spec rcs round
  rw [add_eq] at h ⊢
  split at h
  · cases h
  · rename_i mm _
    refine ⟨mm, ?_, Except.ok.inj h⟩
    dsimp only
    rw [lookup_replace, if_pos ⟨rfl, AList.lookup_isSome.mp (by rw [hin]; rfl)⟩]

end RoundChangeSet

end ConsensusRs
