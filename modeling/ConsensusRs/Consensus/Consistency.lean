import ConsensusRs.Consensus.Handlers

/-!
# Round-state consistency

The invariant of a node's round state (`Consistent`): a node past
`AcceptRequest` has the round's pre-prepare, and a lock is the hash of that
pre-prepare's block. It holds once `Core::run` has started round 0, and
every step keeps it, so it holds in every state a node reaches. The
`unwrap`s of the round's proposal and subject (in `send_prepare`,
`send_commit`, `verify_commit`, `commit` and `start_new_round`) therefore
never panic.

What carries it: `check_message` lets a prepare or a commit through only
past `AcceptRequest`; `start_new_round` carries the pre-prepare with the
lock; `lock_hash()` copies the hash of the round's pre-prepare; and every
sender leaves the round state alone (`Sends`).
-/

namespace ConsensusRs

open Framework

variable {K : Extern}

/-- The `unwrap`s of the round's proposal and subject. -/
def Abort.isProposalUnwrap : Abort → Bool
  | .unwrap .sendPrepare | .unwrap .sendCommit | .unwrap .verifyCommit | .unwrap .commit
  | .unwrap .startNewRound => true
  | _ => false

/-- An abort other than those `unwrap`s. -/
def Safe (a : Abort) : Prop := a.isProposalUnwrap = false

/-- The round-state consistency invariant. -/
structure Consistent (K : Extern) (c : CoreState) : Prop where
  preprepare_isSome : c.state ≠ .acceptRequest → c.currentState.preprepare.isSome
  lock_eq : ∀ x, c.currentState.lockHash = some x →
    ∃ p, c.currentState.preprepare = some p ∧ p.proposal.block.hash K = x

namespace Consistent

variable {c c' : CoreState}

/-- Consistency reads the state, the pre-prepare and the lock only. -/
theorem of_eq (h : Consistent K c) (hs : c'.state = c.state)
    (hp : c'.currentState.preprepare = c.currentState.preprepare)
    (hl : c'.currentState.lockHash = c.currentState.lockHash) : Consistent K c' where
  preprepare_isSome hne := hp ▸ h.preprepare_isSome (hs ▸ hne)
  lock_eq x hx := hp ▸ h.lock_eq x (hl ▸ hx)

theorem of_sends (h : Consistent K c) (hs : CoreState.Sends c c') : Consistent K c' :=
  h.of_eq hs.state (by rw [hs.currentState]) (by rw [hs.currentState])

/-- A round in `AcceptRequest` without a lock. -/
theorem of_acceptRequest (hs : c.state = .acceptRequest) (hl : c.currentState.lockHash = none) :
    Consistent K c where
  preprepare_isSome hne := absurd hs hne
  lock_eq x hx := by rw [hl] at hx; cases hx

/-- A round with a pre-prepare, locked (if at all) on its hash. -/
theorem of_preprepare {p : PrePrepare} (hp : c.currentState.preprepare = some p)
    (hl : ∀ x, c.currentState.lockHash = some x → p.proposal.block.hash K = x) : Consistent K c where
  preprepare_isSome _ := by rw [hp]; rfl
  lock_eq x hx := ⟨p, hp, hl x hx⟩

/-- A consistent node past `AcceptRequest` has the round's pre-prepare. -/
theorem exists_preprepare (h : Consistent K c) (hs : c.state ≠ .acceptRequest) :
    ∃ p, c.currentState.preprepare = some p :=
  Option.isSome_iff_exists.mp (h.preprepare_isSome hs)

/-- Sends from a consistent state keep it consistent, and abort only where
sending does. -/
theorem ensures_sends {x : Except Abort CoreState} (h : Consistent K c)
    (hx : Ensures x (CoreState.Sends c) CoreState.SendAbort) : Ensures x (Consistent K) Safe :=
  hx.mono (fun _ hs => h.of_sends hs) fun _ ha => by rcases ha with rfl | rfl | rfl <;> rfl

end Consistent

/-! ## What the building blocks abort with -/

section Blocks

variable {c : CoreState}

theorem ensures_u64Add (s : Site) (a b : Nat) : Ensures (u64Add s a b) (· = a + b) Safe := by
  unfold u64Add
  split
  · exact Ensures.ok rfl
  · exact Ensures.error rfl

theorem ensures_u64Sub (s : Site) (a b : Nat) : Ensures (u64Sub s a b) (fun _ => True) Safe := by
  unfold u64Sub
  split
  · exact Ensures.ok trivial
  · exact Ensures.error rfl

theorem ensures_assertAt (s : Site) (p : Prop) [Decidable p] : Ensures (assertAt s p) (fun _ => p) Safe := by
  unfold assertAt
  split
  · exact Ensures.ok ‹_›
  · exact Ensures.error rfl

theorem ensures_calcProposer (v : ImplValidatorSet) (blh : Hash) (height round : Nat) :
    Ensures (v.calcProposer K blh height round) (fun _ => True) Safe :=
  Ensures.of_forall_ok (fun _ _ => trivial) fun _ he => by
    rcases ImplValidatorSet.calcProposer_eq_error he with rfl | rfl <;> rfl

theorem ensures_verify (b : ImplBackend) (p : Proposal) : Ensures (b.verify K p) (fun _ => True) Safe :=
  Ensures.of_forall_ok (fun _ _ => trivial) fun _ he => by
    rcases ImplBackend.verify_eq_error he with rfl | rfl | rfl | rfl | rfl <;> rfl

theorem ensures_toSubject (body : Body) : Ensures body.toSubject (fun _ => True) Safe := by
  cases body <;> first | exact Ensures.ok trivial | exact Ensures.error rfl

theorem ensures_toPreprepare (body : Body) : Ensures body.toPreprepare (fun _ => True) Safe := by
  cases body <;> first | exact Ensures.ok trivial | exact Ensures.error rfl

end Blocks

section Round

variable {c : CoreState}

/-- A round change from a consistent round carries a lock with the
pre-prepare it was taken on. -/
theorem Consistent.lock_updateRoundState (h : Consistent K c) (view : View) (vals : ImplValidatorSet)
    (x : Hash) (hx : (c.updateRoundState view vals true).currentState.lockHash = some x) :
    ∃ p, (c.updateRoundState view vals true).currentState.preprepare = some p ∧ p.proposal.block.hash K = x := by
  unfold CoreState.updateRoundState at hx ⊢
  by_cases hl : c.currentState.isLocked
  · simp only [hl, if_true] at hx ⊢
    exact h.lock_eq x hx
  · simp only [hl, if_true, Bool.false_eq_true, if_false] at hx
    cases hx

/-- A new round of a round change from a consistent round, in
`AcceptRequest`, is consistent. -/
theorem Consistent.roundChange {c' : CoreState} (h : Consistent K c) (hs : c'.state = .acceptRequest)
    {view : View} {vals : ImplValidatorSet}
    (hcs : c'.currentState = (c.updateRoundState view vals true).currentState) : Consistent K c' where
  preprepare_isSome hne := absurd hs hne
  lock_eq x hx := hcs ▸ h.lock_updateRoundState view vals x (hcs ▸ hx)

/-- A locked round whose lock comes with its pre-prepare has a proposal. -/
theorem RoundState.proposal_isSome_of_lock {rs : RoundState}
    (h : ∀ x, rs.lockHash = some x → ∃ p, rs.preprepare = some p ∧ p.proposal.block.hash K = x)
    (hl : rs.isLocked) : rs.proposal.isSome := by
  obtain ⟨x, hx⟩ := Option.isSome_iff_exists.mp hl
  obtain ⟨p, hp, -⟩ := h x hx
  simp [RoundState.proposal, hp]

theorem ensures_unwrapAt_of_isSome {α : Type} {o : Option α} (s : Site) (h : o.isSome) :
    Ensures (unwrapAt s o) (fun _ => True) Safe := by
  obtain ⟨a, rfl⟩ := Option.isSome_iff_exists.mp h
  exact Ensures.ok trivial

end Round

/-! ## The starts of a round and the commit -/

namespace CoreState

variable {c : CoreState}

/-- `start_new_zero_round` leaves a consistent round, whatever it starts
from: no lock, in `AcceptRequest`. -/
theorem startNewZeroRound_consistent (c : CoreState) : Ensures (c.startNewZeroRound K) (Consistent K) Safe := by
  unfold startNewZeroRound
  refine (ensures_u64Add _ _ _).bind fun height _ => ?_
  refine (ensures_assertAt _ _).bind fun _ _ => ?_
  refine (ensures_calcProposer _ _ _ _).bind fun validators _ => ?_
  exact Ensures.pure (Consistent.of_acceptRequest rfl rfl)

theorem startNewRound_consistent (h : Consistent K c) (round : Nat) :
    Ensures (c.startNewRound K round) (Consistent K) Safe := by
  unfold startNewRound
  dsimp only
  refine (ensures_assertAt _ _).bind fun _ _ => ?_
  refine (ensures_assertAt _ _).bind fun _ _ => ?_
  split
  · exact Ensures.pure h
  refine (ensures_assertAt _ _).bind fun _ _ => ?_
  refine (ensures_calcProposer _ _ _ _).bind fun validators _ => ?_
  have hc₁ : Consistent K { c with roundChangeSet := .new c.validators } := h.of_eq rfl rfl rfl
  split
  · split
    · rename_i hlocked
      refine (ensures_unwrapAt_of_isSome _ ?_).bind fun proposal _ => ?_
      · exact RoundState.proposal_isSome_of_lock (hc₁.lock_updateRoundState _ _) hlocked
      · refine Consistent.ensures_sends ?_ (sendPreprepare_sends _)
        exact Consistent.roundChange hc₁ rfl rfl
    · split
      · refine Consistent.ensures_sends ?_ (sendPreprepare_sends _)
        exact Consistent.roundChange hc₁ rfl rfl
      · refine Ensures.pure ?_
        exact Consistent.roundChange hc₁ rfl rfl
  · refine Ensures.pure ?_
    exact Consistent.roundChange hc₁ rfl rfl

/-- A pre-prepare or commit that passes `check_message` finds the node past
`AcceptRequest`. -/
theorem checkMessage_ok_state {code : MessageType} {view : View} (h : c.checkMessage code view = .ok ())
    (hcode : MessageType.preprepare.toNat < code.toNat) (hrc : code ≠ .roundChange) : c.state ≠ .acceptRequest := by
  intro hs
  unfold checkMessage at h
  simp only [hrc, if_false, hs, if_true, hcode] at h
  split_ifs at h

theorem ensures_unwrapAt (s : Site) (hs : (Abort.unwrap s).isProposalUnwrap = false) {α : Type} (o : Option α) :
    Ensures (unwrapAt s o) (fun _ => True) Safe := by
  cases o
  · exact Ensures.error hs
  · exact Ensures.ok trivial

/-- `commit` of a consistent round with a proposal: `Committed`, with the
round unchanged. -/
theorem commit_consistent (h : Consistent K c) (hp : c.currentState.preprepare.isSome) :
    Ensures (c.commit K) (Consistent K) Safe := by
  unfold commit
  refine (Ensures.mapM (P := fun _ => True) fun v _ => ensures_unwrapAt _ rfl _).bind fun seals _ => ?_
  refine (ensures_assertAt _ _).bind fun _ _ => ?_
  refine (ensures_unwrapAt_of_isSome _ (Iff.mpr RoundState.proposal_isSome hp)).bind fun proposal _ => ?_
  rw [ImplBackend.commit_eq]
  exact Ensures.ok ⟨fun _ => hp, h.lock_eq⟩

/-- Locking a round on its pre-prepare gives a consistent round. -/
theorem Consistent.of_lockHash' {c' : CoreState} {rs : RoundState} {p : PrePrepare}
    (hrs : rs.preprepare = some p) (hcs : c'.currentState = rs.lockHash' K) : Consistent K c' :=
  Consistent.of_preprepare (p := p) (by rw [hcs, RoundState.lockHash'_preprepare, hrs]) fun x hx => by
    rw [hcs, RoundState.lockHash'_lockHash hrs] at hx
    exact Option.some.inj hx

/-- What the two branches of `HandlePrepare::handle` do: lock on the round's
pre-prepare, move to `Prepared` and send a commit. -/
theorem lockAndCommit (h : Consistent K c) (hs : c.state ≠ .acceptRequest) :
    Ensures (({ c with currentState := c.currentState.lockHash' K }.setState .prepared).sendCommit K)
      (fun c' => Consistent K c' ∧ c'.state ≠ .acceptRequest) Safe := by
  obtain ⟨p, hp⟩ := h.exists_preprepare hs
  have hc : Consistent K ({ c with currentState := c.currentState.lockHash' K }.setState .prepared) :=
    Consistent.of_lockHash' hp rfl
  refine (sendCommit_sends (hc.preprepare_isSome (by simp [setState]))).mono
    (fun c' hc' => ⟨hc.of_sends hc', by rw [hc'.state]; simp [setState]⟩) fun a ha => ?_
  rcases ha with rfl | rfl | rfl <;> rfl

theorem handleCurrentPreprepare_consistent (h : Consistent K c) (now : Nat) (pp : PrePrepare) (src : Validator) :
    Ensures (c.handleCurrentPreprepare K now pp src) (fun r => Consistent K r.2) Safe := by
  unfold handleCurrentPreprepare
  split
  · exact Ensures.pure h
  refine (ensures_verify _ _).bind fun r _ => ?_
  split
  · exact Ensures.pure h
  · exact (h.ensures_sends (sendNextRoundChange_sends now)).map_pair _
  · split
    · split
      · rename_i lockHash hlock
        split
        · rename_i hhash
          refine Ensures.map_pair _ (Consistent.ensures_sends ?_ (sendCommit_sends rfl))
          exact Consistent.of_preprepare rfl fun x hx => by
            rw [hhash]
            exact Option.some.inj (hlock.symm.trans hx)
        · exact (h.ensures_sends (sendNextRoundChange_sends now)).map_pair _
      · rename_i hlock
        refine Ensures.map_pair _ (Consistent.ensures_sends ?_ (sendPrepare_sends rfl))
        exact Consistent.of_preprepare rfl fun x hx => by
          simp only [accetp, setState, RoundState.setPreprepare] at hx
          rw [hlock] at hx
          cases hx
    · exact Ensures.pure h

theorem handlePreprepare_consistent (h : Consistent K c) (now : Nat) (msg : GossipMessage) (src : Validator) :
    Ensures (c.handlePreprepare K now msg src) (fun r => Consistent K r.2) Safe := by
  unfold handlePreprepare
  refine (ensures_toPreprepare _).bind fun pp _ => ?_
  dsimp only
  split
  · split
    · exact Ensures.pure h
    · split
      · exact Ensures.pure h
      · refine (ensures_u64Sub _ _ _).bind fun preHeight _ => ?_
        refine (ensures_calcProposer _ _ _ _).bind fun valSet _ => ?_
        split
        · exact (h.ensures_sends (sendCommitForOldBlock_sends _ _)).map_pair _
        · exact Ensures.pure h
  · exact handleCurrentPreprepare_consistent h now pp src
  · exact Ensures.pure h
  · exact handleCurrentPreprepare_consistent h now pp src

theorem handlePrepare_consistent (h : Consistent K c) (msg : GossipMessage) (src : Validator) :
    Ensures (c.handlePrepare K msg src) (fun r => Consistent K r.2) Safe := by
  unfold handlePrepare
  refine (ensures_toSubject _).bind fun subject _ => ?_
  split
  · exact Ensures.pure h
  rename_i hcheck
  have hs := checkMessage_ok_state hcheck (by decide) (by decide)
  split
  · exact Ensures.pure h
  split
  · exact Ensures.pure h
  rename_i prepares _
  have hc₁ : Consistent K { c with currentState := { c.currentState with prepares := prepares } } :=
    h.of_eq rfl rfl rfl
  dsimp only
  refine Ensures.ite_bind (P := fun c' => Consistent K c' ∧ c'.state ≠ .acceptRequest)
    (fun _ => lockAndCommit hc₁ hs) (fun _ => Ensures.pure ⟨hc₁, hs⟩) fun c₂ hc₂ => ?_
  refine Ensures.ite_bind (P := fun c' => Consistent K c' ∧ c'.state ≠ .acceptRequest)
    (fun _ => lockAndCommit hc₂.1 hc₂.2) (fun _ => Ensures.pure hc₂) fun c₃ hc₃ => ?_
  exact Ensures.pure hc₃.1

/-- With a proposal in the round, `verify_commit` does not panic at the
subject's `unwrap`. -/
theorem verifyCommit_safe (hp : c.currentState.preprepare.isSome) (commitSeal : Option Signature) (subject : Subject)
    (sender : Address) (src : Validator) : Ensures (c.verifyCommit K commitSeal subject sender src) (fun _ => True) Safe := by
  unfold verifyCommit
  split
  · exact Ensures.ok trivial
  · split
    · exact Ensures.ok trivial
    · exact (ensures_unwrapAt_of_isSome _ (Iff.mpr RoundState.subject_isSome hp)).bind fun _ _ => Ensures.ok trivial

theorem handleCommit_consistent (h : Consistent K c) (msg : GossipMessage) (src : Validator) :
    Ensures (c.handleCommit K msg src) (fun r => Consistent K r.2) Safe := by
  unfold handleCommit
  refine (ensures_toSubject _).bind fun subject _ => ?_
  split
  · exact Ensures.pure h
  rename_i hcheck
  have hs := checkMessage_ok_state hcheck (by decide) (by decide)
  obtain ⟨p, hp⟩ := h.exists_preprepare hs
  dsimp only
  refine (ensures_toSubject _).bind fun subject' _ => ?_
  refine (verifyCommit_safe (by rw [hp]; rfl) _ _ _ _).bind fun r _ => ?_
  split
  · exact Ensures.pure h
  split
  · exact Ensures.pure h
  split
  · refine Ensures.map_pair _ (commit_consistent ?_ ?_)
    · refine Consistent.of_lockHash' (p := p) ?_ rfl
      exact hp
    · rw [RoundState.lockHash'_preprepare, hp]
      rfl
  · exact Ensures.pure (h.of_eq rfl rfl rfl)

theorem handleRoundChange_consistent (h : Consistent K c) (now : Nat) (msg : GossipMessage) (src : Validator) :
    Ensures (c.handleRoundChange K now msg src) (fun r => Consistent K r.2) Safe := by
  unfold handleRoundChange
  refine (ensures_toSubject _).bind fun subject _ => ?_
  split
  · exact Ensures.pure h
  dsimp only
  split
  · exact (h.ensures_sends (sendRoundChange_sends _ _)).map_pair _
  · have hc₁ : Consistent K { c with roundChangeSet := (c.roundChangeSet.add subject.view.round msg).2 } :=
      h.of_eq rfl rfl rfl
    split
    · exact Ensures.pure hc₁
    · split
      · refine (hc₁.ensures_sends (sendRoundChange_sends _ _)).bind fun c₂ hc₂ => ?_
        exact (startNewRound_consistent hc₂ _).map_pair _
      · split
        · exact Ensures.pure hc₁
        · exact Ensures.pure hc₁

theorem handleCheckMessage_consistent (h : Consistent K c) (now : Nat) (msg : GossipMessage) (src : Validator) :
    Ensures (c.handleCheckMessage K now msg src) (fun r => Consistent K r.2) Safe := by
  unfold handleCheckMessage
  split
  · exact handlePreprepare_consistent h now msg src
  · exact handlePrepare_consistent h msg src
  · exact handleCommit_consistent h msg src
  · exact handleRoundChange_consistent h now msg src

theorem handleMessage_consistent (h : Consistent K c) (now : Nat) (msg : GossipMessage) :
    Ensures (c.handleMessage K now msg) (fun r => Consistent K r.2) Safe := by
  unfold handleMessage
  split
  · exact Ensures.pure h
  split
  · exact Ensures.pure h
  split
  · exact Ensures.pure h
  · exact handleCheckMessage_consistent h now _ _

theorem handleNewHeader_consistent (c : CoreState) (proposal : Proposal) :
    Ensures (c.handleNewHeader K proposal) (fun r => Consistent K r.2) Safe := by
  unfold handleNewHeader
  refine (startNewZeroRound_consistent c).bind fun c₁ hc₁ => ?_
  split
  · exact Ensures.pure hc₁
  · refine (ensures_assertAt _ _).bind fun _ _ => ?_
    refine Ensures.map_pair _ (Consistent.ensures_sends ?_ (sendPreprepare_sends _))
    exact hc₁.of_eq rfl rfl rfl

theorem handleTimerEvent_consistent (h : Consistent K c) (now : Nat) :
    Ensures (c.handleTimerEvent K now) (Consistent K) Safe := by
  unfold handleTimerEvent
  split
  · exact Ensures.pure (h.of_eq rfl rfl rfl)
  · exact h.ensures_sends (sendNextRoundChange_sends now)

/-- Every step keeps the invariant, and aborts elsewhere than at the
proposal's `unwrap`s. -/
theorem step_consistent (h : Consistent K c) (e : Event) : Ensures (c.step K e) (Consistent K) Safe := by
  cases e with
  | core now msg =>
    cases msg with
    | message msg => exact (handleMessage_consistent h now msg).map
    | newHeader proposal => exact (handleNewHeader_consistent c proposal).map
    | finalCommitted => exact Ensures.pure (h.of_eq rfl rfl rfl)
    | backLog msg => exact (handleCheckMessage_consistent h now msg _).map
    | timer => exact handleTimerEvent_consistent h now
  | block block => exact Ensures.pure (h.of_eq rfl rfl rfl)

end CoreState

/-- The core `Core::run` starts is consistent. -/
theorem run_consistent {backend : ImplBackend} {keyPair : KeyPair} {addresses : List Address} {now : Nat}
    {c₀ : CoreState} (h : Core.run K backend keyPair addresses now = .ok c₀) : Consistent K c₀ :=
  (CoreState.startNewZeroRound_consistent _).of_ok h

/-- Round-state consistency: in every state a node reaches from `Core::run`,
a node past `AcceptRequest` has the round's pre-prepare, a lock is the hash
of that pre-prepare's block, and no step panics at an `unwrap` of the
round's proposal or subject. -/
theorem roundState_consistent {backend : ImplBackend} {keyPair : KeyPair} {addresses : List Address}
    {now : Nat} {c₀ c : CoreState} (hrun : Core.run K backend keyPair addresses now = .ok c₀)
    (hreach : Reachable (CoreState.step K) c₀ c) :
    (c.state ≠ .acceptRequest → c.currentState.preprepare.isSome) ∧
      (∀ x, c.currentState.lockHash = some x →
        ∃ p, c.currentState.preprepare = some p ∧ p.proposal.block.hash K = x) ∧
      ∀ e a, c.step K e = .error a →
        a ∉ [.unwrap .sendPrepare, .unwrap .sendCommit, .unwrap .verifyCommit, .unwrap .commit,
          .unwrap .startNewRound] := by
  have hc : Consistent K c :=
    Reachable.of_ensures (run_consistent hrun) (fun _ e hs => CoreState.step_consistent hs e) hreach
  refine ⟨hc.preprepare_isSome, hc.lock_eq, fun e a he hmem => ?_⟩
  have hsafe : Safe a := (CoreState.step_consistent hc e).of_error he
  simp only [List.mem_cons, List.not_mem_nil, or_false] at hmem
  rcases hmem with rfl | rfl | rfl | rfl | rfl <;> exact Bool.noConfusion hsafe

/-- The node of key byte 2 after the pre-prepare of the proposer of round 0. -/
theorem roundState_consistent_toy :
    ∃ c₀ c, Core.run Extern.toy (toyBackend 2) (toyKey 2) toyAddresses 100 = .ok c₀ ∧
      Reachable (CoreState.step Extern.toy) c₀ c ∧
      (c.state ≠ .acceptRequest → c.currentState.preprepare.isSome) ∧
      (∀ x, c.currentState.lockHash = some x →
        ∃ p, c.currentState.preprepare = some p ∧ p.proposal.block.hash Extern.toy = x) ∧
      ∀ e a, c.step Extern.toy e = .error a →
        a ∉ [.unwrap .sendPrepare, .unwrap .sendCommit, .unwrap .verifyCommit, .unwrap .commit,
          .unwrap .startNewRound] := by
  obtain ⟨c₀, c, h₀, hc⟩ : ∃ c₀ c, Core.run Extern.toy (toyBackend 2) (toyKey 2) toyAddresses 100 = .ok c₀ ∧
      runFrom (CoreState.step Extern.toy) c₀ [.core 200 (.message (toyPreprepare 1 (toyBlock1 5)))] = .ok c :=
    ⟨_, _, rfl, rfl⟩
  have hr := Reachable.of_runFrom .init hc
  exact ⟨c₀, c, h₀, hr, roundState_consistent h₀ hr⟩

end ConsensusRs
