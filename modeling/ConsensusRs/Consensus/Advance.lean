import ConsensusRs.Consensus.Rounds

/-!
# A later round needs a quorum of round changes

A node's round at a height goes up in one place only: in
`HandleRoundChange::handle`, when the vote set of a later round has
`two_thirds_majority() + 1` senders and `start_new_round` starts that round.
That vote set is part of the round-change set, which `start_new_round` and
`start_new_zero_round` make new whenever the view changes, and which only
`HandleRoundChange::handle` adds to, after `check_message` let the vote
through at the node's height. Hence:

* `VotesFrom c handled`: every vote of the round-change set is a round
  change for its round at the node's height, from one of its validators,
  and one of `handled`;
* `step_advance`: a step keeps the view and the invariant, with the round
  change it hands to `HandleRoundChange::handle` added to `handled`, or it
  leaves a new round-change set; and a step that moves the round up at the
  same height had a `Quorum` of votes for the new round;
* `run_votesFrom`: along a run from `Core::run`, the invariant holds of the
  round changes handled since the view last changed;
* `round_advance_needs_quorum`: a round that goes up from `r` to `r'` at
  height `h` follows round changes for `(h, r')` from more than
  `two_thirds_majority()` distinct validators, all of them handled while the
  node was in round `r` of height `h`.
-/

namespace ConsensusRs

open Framework

namespace CoreState

variable (K : Extern)

/-- The round change that handling the event at `c` hands to
`HandleRoundChange::handle`, if it does: one from the queue whose signature
recovers to a validator, under that validator's address, or one from the
backlog as it is. -/
def roundChangeVote (c : CoreState) : Event → Option GossipMessage
  | .core _ (.message msg) =>
    if c.validators.size = 0 then none
    else
      match msg.recoverAddress K with
      | .error _ => none
      | .ok address =>
        match c.validators.getByAddress address with
        | none => none
        | some _ => if msg.code = .roundChange then some { msg with address := address } else none
  | .core _ (.backLog msg) => if msg.code = .roundChange then some msg else none
  | _ => none

/-- The round changes handed to `HandleRoundChange::handle` along a run from
`c`, in order. -/
def roundChangesHandled (c : CoreState) : List Event → List GossipMessage
  | [] => []
  | e :: es =>
    (c.roundChangeVote K e).toList ++
      match c.step K e with
      | .ok c' => c'.roundChangesHandled es
      | .error _ => []

/-- Every state a run from `c` passes through, after each of its first
events, has `c`'s view. -/
def ViewStays (c : CoreState) (es : List Event) : Prop :=
  ∀ n c', runFrom (step K) c (es.take n) = .ok c' → c'.currentView = c.currentView

/-- `m` is a round change for round `r` of `c`'s height, from one of `c`'s
validators, and one of `handled`. -/
def VoteFor (c : CoreState) (handled : List GossipMessage) (r : Nat) (m : GossipMessage) : Prop :=
  m ∈ handled ∧ m.code = .roundChange ∧ (c.validators.getByAddress m.address).isSome ∧
    ∃ s, m.msg.toSubject = .ok s ∧ s.view = ⟨r, c.currentState.height⟩

/-- Votes for round `r` of `c`'s height from more than two thirds of `c`'s
validators, one per sender, all of them in `handled`. -/
def Quorum (c : CoreState) (handled : List GossipMessage) (r : Nat) : Prop :=
  ∃ votes : List GossipMessage, (∀ m ∈ votes, VoteFor c handled r m) ∧
    (votes.map GossipMessage.address).Nodup ∧ c.validators.twoThirdsMajority < votes.length

/-- The invariant of the round-change set: its votes are round changes for
their rounds at the node's height, from its validators, all of them in
`handled`; each vote set checks senders against the set's validators, and
those are the node's. -/
structure VotesFrom (c : CoreState) (handled : List GossipMessage) : Prop where
  members : c.roundChangeSet.validatorSet.validators = c.validators.validators
  valSet : ∀ r mm, c.roundChangeSet.roundChanges.lookup r = some mm → mm.valSet = c.roundChangeSet.validatorSet
  votes : ∀ r mm, c.roundChangeSet.roundChanges.lookup r = some mm → ∀ m ∈ mm.values, VoteFor c handled r m

/-- `c'` has `c`'s view, round-change set and validators. -/
structure Keeps (c c' : CoreState) : Prop where
  view : c'.currentView = c.currentView
  roundChangeSet : c'.roundChangeSet = c.roundChangeSet
  validators : c'.validators.validators = c.validators.validators

/-- What a step from `c`, whose round-change set holds votes from `handled`,
leaves: its view, with votes from `handled` and `new`, or a new round-change
set; and if the round went up at the same height, a quorum of votes for the
new round. -/
structure Advance (c : CoreState) (handled new : List GossipMessage) (c' : CoreState) : Prop where
  votes : (c'.currentView = c.currentView ∧ VotesFrom c' (handled ++ new)) ∨ VotesFrom c' []
  quorum : c'.currentState.height = c.currentState.height → c.currentState.round < c'.currentState.round →
    Quorum c (handled ++ new) c'.currentState.round

variable {K} {c c' c'' : CoreState} {handled handled' new : List GossipMessage}

theorem getByAddress_of_validators {v v' : ImplValidatorSet} (h : v'.validators = v.validators) (a : Address) :
    v'.getByAddress a = v.getByAddress a := by
  simp only [ImplValidatorSet.getByAddress, h]

/-! ## Votes, views and the round-change set -/

theorem VoteFor.mono {r : Nat} {m : GossipMessage} (h : VoteFor c handled r m) (hsub : handled ⊆ handled')
    (hv : c'.validators.validators = c.validators.validators)
    (hh : c'.currentState.height = c.currentState.height) : VoteFor c' handled' r m := by
  obtain ⟨hm, hcode, hval, s, hs, hview⟩ := h
  refine ⟨hsub hm, hcode, ?_, s, hs, ?_⟩
  · rw [getByAddress_of_validators hv]
    exact hval
  · rw [hh]
    exact hview

theorem Keeps.refl (c : CoreState) : Keeps c c := ⟨rfl, rfl, rfl⟩

theorem Keeps.trans (h : Keeps c c') (h' : Keeps c' c'') : Keeps c c'' :=
  ⟨h'.view.trans h.view, h'.roundChangeSet.trans h.roundChangeSet, h'.validators.trans h.validators⟩

theorem Keeps.of_sends (h : Sends c c') : Keeps c c' where
  view := by simp only [currentView, h.currentState]
  roundChangeSet := h.roundChangeSet
  validators := by rw [h.validators]

theorem Keeps.height (h : Keeps c c') : c'.currentState.height = c.currentState.height :=
  congrArg View.height h.view

theorem Keeps.round (h : Keeps c c') : c'.currentState.round = c.currentState.round :=
  congrArg View.round h.view

theorem VotesFrom.of_keeps (hv : VotesFrom c handled) (hk : Keeps c c') (hsub : handled ⊆ handled') :
    VotesFrom c' handled' where
  members := by rw [hk.roundChangeSet, hk.validators]; exact hv.members
  valSet r mm h := by
    rw [hk.roundChangeSet] at h ⊢
    exact hv.valSet r mm h
  votes r mm h m hm := by
    rw [hk.roundChangeSet] at h
    exact (hv.votes r mm h m hm).mono hsub hk.validators hk.height

/-- A new round-change set over the node's validators holds no vote. -/
theorem VotesFrom.fresh (hrcs : c.roundChangeSet.roundChanges = ∅)
    (hm : c.roundChangeSet.validatorSet.validators = c.validators.validators) : VotesFrom c handled where
  members := hm
  valSet r mm h := by rw [hrcs, AList.lookup_empty] at h; cases h
  votes r mm h := by rw [hrcs, AList.lookup_empty] at h; cases h

/-- `RoundChangeSet::add` of a round change that `check_message` let
through, for the round of its subject: the new vote, if the set takes it,
is one for that round at the node's height, from one of its validators. -/
theorem VotesFrom.add (hv : VotesFrom c handled) {msg : GossipMessage} {subject : Subject}
    (hsub : msg.msg.toSubject = .ok subject) (hheight : subject.view.height = c.currentState.height)
    (hcode : msg.code = .roundChange) :
    VotesFrom { c with roundChangeSet := (c.roundChangeSet.add subject.view.round msg).2 } (handled ++ [msg]) where
  members := by
    dsimp only
    rw [RoundChangeSet.add_validatorSet]
    exact hv.members
  valSet r mm' h := by
    dsimp only at h ⊢
    rw [RoundChangeSet.add_validatorSet]
    rcases RoundChangeSet.lookup_add h with ⟨-, hold⟩ | ⟨rfl, mm, hmm, hmm'⟩
    · exact hv.valSet r mm' hold
    · have hvs : mm.valSet = c.roundChangeSet.validatorSet := by
        rcases hmm with hmm | rfl
        · exact hv.valSet _ mm hmm
        · rfl
      rcases hmm' with rfl | hadd
      · exact hvs
      · obtain ⟨-, rfl⟩ := Iff.mp MessageManage.add_eq_ok hadd
        exact hvs
  votes r mm' h m hm := by
    dsimp only at h
    have hsub' : handled ⊆ handled ++ [msg] := List.subset_append_left _ _
    rcases RoundChangeSet.lookup_add h with ⟨-, hold⟩ | ⟨rfl, mm, hmm, hmm'⟩
    · exact (hv.votes r mm' hold m hm).mono hsub' rfl rfl
    -- the votes of the round before, in a vote set taken from the set or new
    have hbefore : ∀ m ∈ mm.values, VoteFor c (handled ++ [msg]) subject.view.round m := by
      intro m hm
      rcases hmm with hmm | rfl
      · exact (hv.votes _ mm hmm m hm).mono hsub' rfl rfl
      · cases hm
    rcases hmm' with rfl | hadd
    · exact hbefore m hm
    obtain ⟨hval, rfl⟩ := Iff.mp MessageManage.add_eq_ok hadd
    rcases MessageManage.mem_values_addVerifyMessage hm with rfl | hm
    · have hvs : mm.valSet = c.roundChangeSet.validatorSet := by
        rcases hmm with hmm | rfl
        · exact hv.valSet _ mm hmm
        · rfl
      refine ⟨List.mem_append_right _ (List.mem_singleton_self _), hcode, ?_, subject, hsub, ?_⟩
      · rw [← getByAddress_of_validators hv.members, ← hvs]
        exact hval
      · rw [← hheight]
    · exact hbefore m hm

/-! ## What a step leaves -/

/-- A step that keeps the view, the round-change set and the validators. -/
theorem Keeps.advance (hk : Keeps c c') (hv : VotesFrom c handled) : Advance c handled new c' where
  votes := .inl ⟨hk.view, hv.of_keeps hk (List.subset_append_left _ _)⟩
  quorum _ hr := absurd hk.round (Nat.ne_of_gt hr)

/-- A step that keeps the view, with the invariant for the votes it adds. -/
theorem Advance.of_view (hview : c'.currentView = c.currentView) (hv : VotesFrom c' (handled ++ new)) :
    Advance c handled new c' where
  votes := .inl ⟨hview, hv⟩
  quorum _ hr := absurd (congrArg View.round hview) (Nat.ne_of_gt hr)

/-- A step into round 0 with a new round-change set. -/
theorem Advance.of_zero (hr : c'.currentState.round = 0) (hv : VotesFrom c' []) : Advance c handled new c' where
  votes := .inr hv
  quorum _ hlt := absurd (hr ▸ hlt) (Nat.not_lt_zero _)

/-- Sends after steps that keep the view and the round-change set. -/
theorem Keeps.ensures_sends {c₁ : CoreState} {x : Except Abort CoreState} (hk : Keeps c c₁)
    (hx : Ensures x (Sends c₁) SendAbort) : Ensures x (Keeps c) fun _ => True :=
  hx.mono (fun _ hs => hk.trans (Keeps.of_sends hs)) fun _ _ => True.intro

/-! ## The round starts -/

/-- `update_round_state` puts a new round state of the view over the
validators in place, and changes nothing else. -/
theorem updateRoundState_eq (view : View) (vals : ImplValidatorSet) (roundChange : Bool) :
    ∃ lockHash preprepare pendingRequest, c.updateRoundState view vals roundChange =
      { c with currentState := .newRoundState view vals lockHash preprepare pendingRequest } := by
  unfold updateRoundState
  split_ifs
  all_goals exact ⟨_, _, _, rfl⟩

theorem updateRoundState_round (view : View) (vals : ImplValidatorSet) (roundChange : Bool) :
    (c.updateRoundState view vals roundChange).currentState.round = view.round := by
  obtain ⟨_, _, _, h⟩ := updateRoundState_eq (c := c) view vals roundChange
  rw [h]
  rfl

theorem updateRoundState_height (view : View) (vals : ImplValidatorSet) (roundChange : Bool) :
    (c.updateRoundState view vals roundChange).currentState.height = view.height := by
  obtain ⟨_, _, _, h⟩ := updateRoundState_eq (c := c) view vals roundChange
  rw [h]
  rfl

theorem updateRoundState_roundChangeSet (view : View) (vals : ImplValidatorSet) (roundChange : Bool) :
    (c.updateRoundState view vals roundChange).roundChangeSet = c.roundChangeSet := by
  obtain ⟨_, _, _, h⟩ := updateRoundState_eq (c := c) view vals roundChange
  rw [h]

theorem updateRoundState_validators (view : View) (vals : ImplValidatorSet) (roundChange : Bool) :
    (c.updateRoundState view vals roundChange).validators = c.validators := by
  obtain ⟨_, _, _, h⟩ := updateRoundState_eq (c := c) view vals roundChange
  rw [h]

/-- `start_new_zero_round` starts round 0 with a new round-change set over
the validators of the new height. -/
theorem startNewZeroRound_fresh (h : c.startNewZeroRound K = .ok c') :
    c'.currentState.round = 0 ∧ VotesFrom c' [] := by
  unfold startNewZeroRound at h
  obtain ⟨height, -, h⟩ := Iff.mp bind_eq_ok h
  obtain ⟨_, -, h⟩ := Iff.mp bind_eq_ok h
  obtain ⟨validators, hv, h⟩ := Iff.mp bind_eq_ok h
  rw [pure_eq_ok] at h
  subst h
  refine ⟨updateRoundState_round _ _ _, VotesFrom.fresh rfl ?_⟩
  rw [ImplValidatorSet.calcProposer_validators hv]
  rfl

/-- `c'` is round `round` of `c`'s height, with a new round-change set. -/
def Restarted (c : CoreState) (round : Nat) (c' : CoreState) : Prop :=
  c'.currentState.round = round ∧ c'.currentState.height = c.currentState.height ∧ VotesFrom c' []

theorem Restarted.of_sends {round : Nat} (h : Restarted c round c') (hs : Sends c' c'') : Restarted c round c'' := by
  have hk := Keeps.of_sends hs
  exact ⟨hk.round.trans h.1, hk.height.trans h.2.1, h.2.2.of_keeps hk (List.nil_subset _)⟩

/-- The state `start_new_round` builds before its pre-prepare. -/
theorem restarted_startNewRound (round : Nat) {validators : ImplValidatorSet}
    (hv : validators.validators = c.validators.validators) :
    Restarted c round { ({ c with roundChangeSet := .new c.validators }.updateRoundState
      ⟨round, c.currentState.height⟩ c.validators true) with
        validators := validators, waitRoundChange := false, state := .acceptRequest } := by
  refine ⟨updateRoundState_round _ _ _, updateRoundState_height _ _ _, VotesFrom.fresh ?_ ?_⟩
  · rw [updateRoundState_roundChangeSet]
    rfl
  · rw [updateRoundState_roundChangeSet, hv]
    rfl

/-- `start_new_round` leaves the node as it was (when the chain is past its
height), or starts the round with a new round-change set. -/
theorem startNewRound_cases (round : Nat) :
    Ensures (c.startNewRound K round) (fun c' => Keeps c c' ∨ Restarted c round c') fun _ => True := by
  unfold startNewRound
  dsimp only
  refine (Ensures.any _).bind fun _ _ => ?_
  refine (Ensures.any _).bind fun _ _ => ?_
  split
  · exact Ensures.pure (.inl (Keeps.refl c))
  refine (Ensures.any _).bind fun _ _ => ?_
  refine (Ensures.returns _).bind fun validators hv => ?_
  have hr := restarted_startNewRound (c := c) round
    (by rw [ImplValidatorSet.calcProposer_validators hv, updateRoundState_validators])
  -- a proposer proposes again; the pre-prepare only sends
  split
  · split
    · refine (Ensures.any _).bind fun _ _ => ?_
      exact (sendPreprepare_sends _).mono (fun _ hs => .inr (hr.of_sends hs)) fun _ _ => True.intro
    · split
      · exact (sendPreprepare_sends _).mono (fun _ hs => .inr (hr.of_sends hs)) fun _ _ => True.intro
      · exact Ensures.pure (.inr hr)
  · exact Ensures.pure (.inr hr)

/-! ## The handlers -/

theorem handleCurrentPreprepare_keeps (now : Nat) (pp : PrePrepare) (src : Validator) :
    Ensures (c.handleCurrentPreprepare K now pp src) (fun r => Keeps c r.2) fun _ => True := by
  unfold handleCurrentPreprepare
  split
  · exact Ensures.pure (Keeps.refl c)
  refine (Ensures.any _).bind fun _ _ => ?_
  split
  · exact Ensures.pure (Keeps.refl c)
  · exact ((Keeps.refl c).ensures_sends (sendNextRoundChange_sends now)).map_pair _
  · split
    · split
      · split
        · exact ((⟨rfl, rfl, rfl⟩ : Keeps c ((c.accetp pp).setState .prepared)).ensures_sends
            (sendCommit_sends rfl)).map_pair _
        · exact ((Keeps.refl c).ensures_sends (sendNextRoundChange_sends now)).map_pair _
      · exact ((⟨rfl, rfl, rfl⟩ : Keeps c ((c.accetp pp).setState .prePrepared)).ensures_sends
          (sendPrepare_sends rfl)).map_pair _
    · exact Ensures.pure (Keeps.refl c)

theorem handlePreprepare_keeps (now : Nat) (msg : GossipMessage) (src : Validator) :
    Ensures (c.handlePreprepare K now msg src) (fun r => Keeps c r.2) fun _ => True := by
  unfold handlePreprepare
  refine (Ensures.any _).bind fun pp _ => ?_
  dsimp only
  split
  · split
    · exact Ensures.pure (Keeps.refl c)
    · split
      · exact Ensures.pure (Keeps.refl c)
      · refine (Ensures.any _).bind fun _ _ => ?_
        refine (Ensures.any _).bind fun _ _ => ?_
        split
        · exact ((Keeps.refl c).ensures_sends (sendCommitForOldBlock_sends _ _)).map_pair _
        · exact Ensures.pure (Keeps.refl c)
  · exact handleCurrentPreprepare_keeps now pp src
  · exact Ensures.pure (Keeps.refl c)
  · exact handleCurrentPreprepare_keeps now pp src

/-- Locking the round's proposal, moving to `Prepared` and sending a commit
keep the view. -/
theorem lockAndCommit_keeps (c₁ : CoreState) (hk : Keeps c c₁) :
    Ensures (({ c₁ with currentState := c₁.currentState.lockHash' K }.setState .prepared).sendCommit K)
      (Keeps c) fun _ => True := by
  have hlock : Keeps c₁ ({ c₁ with currentState := c₁.currentState.lockHash' K }.setState .prepared) :=
    ⟨by simp [currentView, setState], rfl, rfl⟩
  exact Ensures.of_forall_ok (fun _ h => (hk.trans hlock).trans (Keeps.of_sends (Sends.of_sendCommit h)))
    fun _ _ => True.intro

theorem handlePrepare_keeps (msg : GossipMessage) (src : Validator) :
    Ensures (c.handlePrepare K msg src) (fun r => Keeps c r.2) fun _ => True := by
  unfold handlePrepare
  refine (Ensures.any _).bind fun subject _ => ?_
  split
  · exact Ensures.pure (Keeps.refl c)
  split
  · exact Ensures.pure (Keeps.refl c)
  split
  · exact Ensures.pure (Keeps.refl c)
  rename_i prepares _
  dsimp only
  refine Ensures.ite_bind (P := Keeps c)
    (fun _ => lockAndCommit_keeps { c with currentState := { c.currentState with prepares := prepares } } ⟨rfl, rfl, rfl⟩)
    (fun _ => Ensures.pure ⟨rfl, rfl, rfl⟩) fun c₂ hk₂ => ?_
  refine Ensures.ite_bind (P := Keeps c) (fun _ => lockAndCommit_keeps c₂ hk₂) (fun _ => Ensures.pure hk₂)
    fun c₃ hk₃ => ?_
  exact Ensures.pure hk₃

/-- `commit` hands the proposal to the backend, in the same round. -/
theorem commit_keeps {c₁ : CoreState} (hk : Keeps c c₁) : Ensures (c₁.commit K) (Keeps c) fun _ => True := by
  unfold commit
  refine (Ensures.any _).bind fun _ _ => ?_
  refine (Ensures.any _).bind fun _ _ => ?_
  refine (Ensures.any _).bind fun _ _ => ?_
  refine (Ensures.any _).bind fun _ _ => ?_
  exact Ensures.pure ⟨hk.view, hk.roundChangeSet, hk.validators⟩

theorem handleCommit_keeps (msg : GossipMessage) (src : Validator) :
    Ensures (c.handleCommit K msg src) (fun r => Keeps c r.2) fun _ => True := by
  unfold handleCommit
  refine (Ensures.any _).bind fun _ _ => ?_
  split
  · exact Ensures.pure (Keeps.refl c)
  dsimp only
  refine (Ensures.any _).bind fun _ _ => ?_
  refine (Ensures.any _).bind fun _ _ => ?_
  split
  · exact Ensures.pure (Keeps.refl c)
  split
  · exact Ensures.pure (Keeps.refl c)
  split
  · exact Ensures.map_pair _ (commit_keeps ⟨by simp [currentView], rfl, rfl⟩)
  · exact Ensures.pure ⟨rfl, rfl, rfl⟩

/-- `HandleRoundChange::handle` of a round change: a vote for an earlier
round only sends; any other goes into the round-change set, and a quorum for
a later round starts it. -/
theorem handleRoundChange_advance (hv : VotesFrom c handled) {msg : GossipMessage} (hcode : msg.code = .roundChange)
    (now : Nat) (src : Validator) :
    Ensures (c.handleRoundChange K now msg src) (fun r => Advance c handled [msg] r.2) fun _ => True := by
  unfold handleRoundChange
  refine (Ensures.returns _).bind fun subject hsub => ?_
  split
  · exact Ensures.pure ((Keeps.refl c).advance hv)
  rename_i hcheck
  dsimp only
  split
  · exact (((Keeps.refl c).ensures_sends (sendRoundChange_sends _ _)).mono (fun _ hk => hk.advance hv)
      fun _ h => h).map_pair _
  -- the vote goes into the set, for the round of its subject
  have hheight : subject.view.height = c.currentState.height := by
    unfold checkMessage at hcheck
    simp only [if_true] at hcheck
    split_ifs at hcheck with h₀ h₁ h₂
    omega
  have hv₁ := hv.add hsub hheight hcode
  rcases hadd : c.roundChangeSet.add subject.view.round msg with ⟨n, rcs'⟩
  rw [hadd] at hv₁
  dsimp only
  rcases n with e | k
  · exact Ensures.pure (Advance.of_view rfl hv₁)
  dsimp only
  split
  · rename_i hquorum
    -- the vote set of the later round has `n ≥ two_thirds_majority() + 1` senders
    have hq : Quorum c (handled ++ [msg]) subject.view.round := by
      obtain ⟨mm, hmm, hlen⟩ := RoundChangeSet.lookup_add_of_ok (by rw [hadd])
      rw [hadd] at hmm
      refine ⟨mm.values, hv₁.votes _ mm hmm, mm.nodup_senders, ?_⟩
      rw [← MessageManage.len_eq_length_values, hlen]
      omega
    refine ((Keeps.refl _).ensures_sends (sendRoundChange_sends _ _)).bind fun c₂ hk₂ => ?_
    refine (startNewRound_cases _).bind fun c₃ h₃ => Ensures.pure ?_
    rcases h₃ with hk₃ | ⟨hround, -, hv₃⟩
    · exact Advance.of_view (hk₃.view.trans hk₂.view) (hv₁.of_keeps (hk₂.trans hk₃) (List.Subset.refl _))
    · exact ⟨.inr hv₃, fun _ _ => hround ▸ hq⟩
  · split
    · exact Ensures.pure (Advance.of_view rfl hv₁)
    · exact Ensures.pure (Advance.of_view rfl hv₁)

/-- The handler of a message's code; only a round change adds a vote. -/
theorem handleCheckMessage_advance (hv : VotesFrom c handled) (now : Nat) (msg : GossipMessage) (src : Validator) :
    Ensures (c.handleCheckMessage K now msg src)
      (fun r => Advance c handled (if msg.code = .roundChange then some msg else none).toList r.2)
      fun _ => True := by
  unfold handleCheckMessage
  split
  · exact (handlePreprepare_keeps now msg src).mono (fun _ hk => hk.advance hv) fun _ h => h
  · exact (handlePrepare_keeps msg src).mono (fun _ hk => hk.advance hv) fun _ h => h
  · exact (handleCommit_keeps msg src).mono (fun _ hk => hk.advance hv) fun _ h => h
  · rename_i hcode
    rw [if_pos hcode]
    exact handleRoundChange_advance hv hcode now src

/-- A message on the queue reaches its handler from a validator, under the
address its signature recovers to. -/
theorem handleMessage_advance (hv : VotesFrom c handled) (now : Nat) (msg : GossipMessage) :
    Ensures (c.handleMessage K now msg)
      (fun r => Advance c handled (c.roundChangeVote K (.core now (.message msg))).toList r.2) fun _ => True := by
  unfold handleMessage
  split
  · exact Ensures.pure ((Keeps.refl c).advance hv)
  rename_i hsize
  split
  · exact Ensures.pure ((Keeps.refl c).advance hv)
  rename_i address hrecover
  split
  · exact Ensures.pure ((Keeps.refl c).advance hv)
  rename_i validator hvalidator
  have hvote : c.roundChangeVote K (.core now (.message msg)) =
      if msg.code = .roundChange then some { msg with address := address } else none := by
    simp only [roundChangeVote, hsize, if_false, hrecover, hvalidator]
  rw [hvote]
  exact handleCheckMessage_advance hv now _ _

/-- `handle_new_header` starts round 0 of the next height. -/
theorem handleNewHeader_advance (c : CoreState) (proposal : Proposal) :
    Ensures (c.handleNewHeader K proposal) (fun r => Advance c handled new r.2) fun _ => True := by
  unfold handleNewHeader
  refine (Ensures.returns _).bind fun c₁ h₁ => ?_
  obtain ⟨hr, hv₁⟩ := startNewZeroRound_fresh h₁
  split
  · exact Ensures.pure (Advance.of_zero hr hv₁)
  · refine (Ensures.any _).bind fun _ _ => ?_
    refine Ensures.map_pair _ ((sendPreprepare_sends _).mono (fun _ hs => ?_) fun _ _ => True.intro)
    -- the miner's proposal becomes the pending request, in the same round
    have hk : Keeps c₁ (c₁.accept ⟨proposal⟩) := ⟨rfl, rfl, rfl⟩
    have hk' := hk.trans (Keeps.of_sends hs)
    exact Advance.of_zero (hk'.round.trans hr) (hv₁.of_keeps hk' (List.Subset.refl _))

theorem handleTimerEvent_keeps (now : Nat) : Ensures (c.handleTimerEvent K now) (Keeps c) fun _ => True := by
  unfold handleTimerEvent
  split
  · exact Ensures.pure ⟨rfl, rfl, rfl⟩
  · exact (Keeps.refl c).ensures_sends (sendNextRoundChange_sends now)

/-- Every step of a node: it keeps its view, with the round change it hands
to `HandleRoundChange::handle` among the votes, or starts a round with a new
round-change set; and a round that goes up at the same height had a quorum. -/
theorem step_advance (hv : VotesFrom c handled) (e : Event) :
    Ensures (c.step K e) (Advance c handled (c.roundChangeVote K e).toList) fun _ => True := by
  cases e with
  | core now msg =>
    cases msg with
    | message msg => exact (handleMessage_advance hv now msg).map
    | newHeader proposal => exact (handleNewHeader_advance c proposal).map
    | finalCommitted => exact Ensures.pure (Keeps.advance ⟨rfl, rfl, rfl⟩ hv)
    | backLog msg => exact (handleCheckMessage_advance hv now msg _).map
    | timer => exact (handleTimerEvent_keeps now).mono (fun _ hk => hk.advance hv) fun _ h => h
  | block block => exact Ensures.pure (Keeps.advance ⟨rfl, rfl, rfl⟩ hv)

/-! ## Runs -/

theorem roundChangesHandled_append_singleton {es : List Event} (h : runFrom (step K) c es = .ok c') (e : Event) :
    c.roundChangesHandled K (es ++ [e]) = c.roundChangesHandled K es ++ (c'.roundChangeVote K e).toList := by
  induction es generalizing c with
  | nil =>
    cases h
    simp only [List.nil_append, roundChangesHandled]
    split <;> simp
  | cons e₀ es ih =>
    cases h₀ : c.step K e₀ with
    | error a => rw [runFrom_cons_error h₀] at h; cases h
    | ok c₀ =>
      rw [runFrom_cons_ok h₀] at h
      simp only [List.cons_append, roundChangesHandled, h₀, ih h, List.append_assoc]

theorem ViewStays.nil (c : CoreState) : c.ViewStays K [] := by
  intro n c' h
  rw [List.take_nil, runFrom_nil] at h
  cases h
  rfl

/-- A run keeps its view from start to end. -/
theorem ViewStays.view_eq {es : List Event} (hs : c.ViewStays K es) (h : runFrom (step K) c es = .ok c') :
    c'.currentView = c.currentView :=
  hs es.length c' (by rw [List.take_length]; exact h)

theorem ViewStays.append_singleton {es : List Event} {e : Event} (hs : c.ViewStays K es)
    (h : runFrom (step K) c es = .ok c') (he : c'.step K e = .ok c'') (hview : c''.currentView = c'.currentView) :
    c.ViewStays K (es ++ [e]) := by
  intro n c₁ h₁
  by_cases hn : n ≤ es.length
  · rw [List.take_append_of_le_length hn] at h₁
    exact hs n c₁ h₁
  · rw [List.take_of_length_le (by rw [List.length_append, List.length_singleton]; omega)] at h₁
    rw [runFrom_append_singleton_of_ok h he] at h₁
    cases h₁
    exact hview.trans (hs.view_eq h)

/-- Along every run from a state whose round-change set holds no vote, the
set holds votes handled since the view last changed: the run splits at a
state after which the view stays, and the round changes handled from there
make the invariant hold. -/
theorem run_votesFrom {c₀ : CoreState} (h₀ : VotesFrom c₀ []) {es : List Event} (hrun : runFrom (step K) c₀ es = .ok c) :
    ∃ es₁ es₂ c₁, es = es₁ ++ es₂ ∧ runFrom (step K) c₀ es₁ = .ok c₁ ∧ runFrom (step K) c₁ es₂ = .ok c ∧
      c₁.ViewStays K es₂ ∧ VotesFrom c (c₁.roundChangesHandled K es₂) := by
  induction es using List.reverseRecOn generalizing c with
  | nil =>
    cases hrun
    exact ⟨[], [], c₀, rfl, rfl, rfl, ViewStays.nil c₀, h₀⟩
  | append_singleton es e ih =>
    obtain ⟨c', hes, he⟩ := runFrom_append_singleton hrun
    obtain ⟨es₁, es₂, c₁, rfl, h₁, h₂, hstays, hv⟩ := ih hes
    rcases ((step_advance hv e).of_ok he).votes with ⟨hview, hv'⟩ | hv'
    -- the view stays: the segment goes on, with the step's round change
    · refine ⟨es₁, es₂ ++ [e], c₁, List.append_assoc _ _ _, h₁, runFrom_append_singleton_of_ok h₂ he,
        hstays.append_singleton h₂ he hview, ?_⟩
      rw [roundChangesHandled_append_singleton h₂]
      exact hv'
    -- a new round-change set: a new segment starts after the step
    · exact ⟨es₁ ++ es₂ ++ [e], [], c, (List.append_nil _).symm, hrun, rfl, ViewStays.nil c, hv'⟩

end CoreState

/-- Round advances need a round-change quorum: whenever a step of a node
started by `Core::run` takes its round at height `h` from `r` up to `r'`,
the run so far splits at a state after which the node stayed in round `r`
of height `h`, and among the round changes it handled from there, up to
and including the step, are votes for `(h, r')` from more than
`two_thirds_majority()` distinct validators. -/
theorem round_advance_needs_quorum {backend : ImplBackend} {keyPair : KeyPair} {addresses : List Address}
    {now : Nat} {c₀ c c' : CoreState} {es : List Event} {e : Event}
    (hstart : Core.run K backend keyPair addresses now = .ok c₀)
    (hrun : runFrom (CoreState.step K) c₀ es = .ok c) (hstep : c.step K e = .ok c')
    (hheight : c'.currentState.height = c.currentState.height)
    (hround : c.currentState.round < c'.currentState.round) :
    ∃ es₁ es₂ c₁, es = es₁ ++ es₂ ∧ runFrom (CoreState.step K) c₀ es₁ = .ok c₁ ∧
      runFrom (CoreState.step K) c₁ es₂ = .ok c ∧ c₁.ViewStays K es₂ ∧
      c.Quorum (c₁.roundChangesHandled K (es₂ ++ [e])) c'.currentState.round := by
  have h₀ : CoreState.VotesFrom c₀ [] := (CoreState.startNewZeroRound_fresh hstart).2
  obtain ⟨es₁, es₂, c₁, rfl, h₁, h₂, hstays, hv⟩ := CoreState.run_votesFrom h₀ hrun
  refine ⟨es₁, es₂, c₁, rfl, h₁, h₂, hstays, ?_⟩
  rw [CoreState.roundChangesHandled_append_singleton h₂]
  exact ((CoreState.step_advance hv e).of_ok hstep).quorum hheight hround

/-- The node of key byte 2 moves from round 0 to round 1 of height 1 on the
round changes of the three other validators. -/
theorem round_advance_needs_quorum_toy :
    ∃ c₀ c c', Core.run Extern.toy (toyBackend 2) (toyKey 2) toyAddresses 100 = .ok c₀ ∧
      runFrom (CoreState.step Extern.toy) c₀
        [.core 400 (.message (toyRoundChange 1 1)), .core 410 (.message (toyRoundChange 3 1))] = .ok c ∧
      c.step Extern.toy (.core 420 (.message (toyRoundChange 4 1))) = .ok c' ∧
      c'.currentState.height = c.currentState.height ∧ c.currentState.round < c'.currentState.round ∧
      ∃ es₁ es₂ c₁, [.core 400 (.message (toyRoundChange 1 1)), .core 410 (.message (toyRoundChange 3 1))] =
          es₁ ++ es₂ ∧ runFrom (CoreState.step Extern.toy) c₀ es₁ = .ok c₁ ∧
        runFrom (CoreState.step Extern.toy) c₁ es₂ = .ok c ∧ c₁.ViewStays Extern.toy es₂ ∧
        c.Quorum (c₁.roundChangesHandled Extern.toy (es₂ ++ [.core 420 (.message (toyRoundChange 4 1))]))
          c'.currentState.round := by
  have h := exists_of_okAnd (x := Core.run Extern.toy (toyBackend 2) (toyKey 2) toyAddresses 100)
    (p := fun c₀ => okAnd (fun c => okAnd (fun c' => decide (c'.currentState.height = c.currentState.height ∧
        c.currentState.round < c'.currentState.round))
          (c.step Extern.toy (.core 420 (.message (toyRoundChange 4 1)))))
      (runFrom (CoreState.step Extern.toy) c₀
        [.core 400 (.message (toyRoundChange 1 1)), .core 410 (.message (toyRoundChange 3 1))])) (by decide)
  obtain ⟨c₀, h₀, h⟩ := h
  obtain ⟨c, h₁, h⟩ := exists_of_okAnd h
  obtain ⟨c', h₂, h⟩ := exists_of_okAnd h
  obtain ⟨hh, hr⟩ := of_decide_eq_true h
  exact ⟨c₀, c, c', h₀, h₁, h₂, hh, hr, round_advance_needs_quorum h₀ h₁ h₂ hh hr⟩

end ConsensusRs
