import ConsensusRs.Consensus.RoundState
import ConsensusRs.Consensus.Backend
import ConsensusRs.Framework.Ensures

/-!
# The PBFT core: its state, and how it sends and starts rounds

`consensus::pbft::core::core::CoreState` and the functions of a round that
the message handlers call: the check of a message's view
(`check_message`), `broadcast` and the five senders (pre-prepare, prepare,
commit, commit for an old block, round change), the starts of a round
(`start_new_zero_round`, `start_new_round`), `commit`, and the handlers of
the events that are not messages (`handle_new_header`, the timer, the final
commit).

Timers are left out: a timer only ever puts a timer or backlog event in the
core's queue, and the runs of the model allow any event at any time. So are
the backlog store, which nothing reads, and the consensus timestamp, which
nothing reads either. The clock (`Instant::now()` of the round-change
limiter and the wall clock of a round change's `create_time`) is the `now`
of the event being handled, in milliseconds.

Every sender only adds to the outbox (`Sends`): the round state, the
validators and the chain stay as they are.
-/

namespace ConsensusRs

variable (K : Extern)

/-- `consensus::pbft::core::core::CoreState`. -/
structure CoreState where
  address : Address
  keypair : KeyPair
  state : State
  validators : ImplValidatorSet
  currentState : RoundState
  roundChangeSet : RoundChangeSet
  waitRoundChange : Bool
  roundChangeLimiter : Nat
  backend : ImplBackend

namespace CoreState

/-- `current_view`. -/
def currentView (c : CoreState) : View := ⟨c.currentState.round, c.currentState.height⟩

/-- `set_state`. -/
def setState (c : CoreState) (newState : State) : CoreState := { c with state := newState }

/-- `is_proposer`: whether the backend's address is the proposer's. -/
def isProposer (c : CoreState) : Bool := c.validators.isProposer c.backend.address

/-- `check_message`: a message of another height is old or from the future,
and in `AcceptRequest` only a pre-prepare (or a round change) is taken. -/
def checkMessage (c : CoreState) (code : MessageType) (view : View) : Except ConsensusError Unit :=
  if view.height = 0 then .error (.unknown "invalid view, height should be zero")
  else if code = .roundChange then
    if view.height > c.currentState.height then .error (.futureBlockMessage view.height)
    else if view.height < c.currentState.height then .error .oldMessage
    else .ok ()
  else if view.height > c.currentState.height then .error (.futureBlockMessage view.height)
  else if view.height < c.currentState.height then .error .oldMessage
  else if c.state = .acceptRequest then
    if code.toNat > MessageType.preprepare.toNat then .error .futureMessage else .ok ()
  else .ok ()

/-- `finalize_message`: the node's address, and its signature. -/
def finalizeMessage (c : CoreState) (msg : GossipMessage) : Except Abort GossipMessage :=
  GossipMessage.setSign K { msg with address := c.address } c.keypair.secret

/-- `broadcast`: a signed copy of the message to the backend's `gossip`. -/
def broadcast (c : CoreState) (msg : GossipMessage) : Except Abort CoreState := do
  let copyMsg ← c.finalizeMessage K msg
  pure { c with backend := c.backend.gossip K copyMsg }

/-- `update_round_state`: a new round of the view. A round change carries
the pending request over, and the lock with its proposal if there is one;
a new height carries nothing. -/
def updateRoundState (c : CoreState) (view : View) (vals : ImplValidatorSet) (roundChange : Bool) :
    CoreState :=
  if roundChange then
    if c.currentState.isLocked then
      { c with
        currentState := .newRoundState view vals c.currentState.lockHash c.currentState.preprepare
          c.currentState.pendingRequest }
    else
      { c with currentState := .newRoundState view vals none none c.currentState.pendingRequest }
  else { c with currentState := .newRoundState view vals none none none }

/-- `send_preprepare`: a proposer proposes a block of the current height. -/
def sendPreprepare (c : CoreState) (request : Request) : Except Abort CoreState :=
  if c.currentState.height = request.proposal.block.height ∧ c.isProposer then
    c.broadcast K (.new .preprepare (.preprepare ⟨c.currentView, request.proposal⟩) none)
  else pure c

/-- `send_prepare`. -/
def sendPrepare (c : CoreState) : Except Abort CoreState := do
  let subject ← unwrapAt .sendPrepare (c.currentState.subject K)
  c.broadcast K (.new .prepare (.subject subject) none)

/-- `broadcast_commit`: the subject with the node's commit seal over its
digest. -/
def broadcastCommit (c : CoreState) (subject : Subject) (_digest : Hash) : Except Abort CoreState := do
  let commitSeal ← encryptCommitBytes K subject.digest c.keypair.secret
  c.broadcast K (.new .commit (.subject subject) (some commitSeal))

/-- `send_commit`. -/
def sendCommit (c : CoreState) : Except Abort CoreState := do
  let proposal ← unwrapAt .sendCommit c.currentState.proposal
  let subject ← unwrapAt .sendCommit (c.currentState.subject K)
  c.broadcastCommit K subject (proposal.block.hash K)

/-- `send_commit_for_old_block`. -/
def sendCommitForOldBlock (c : CoreState) (view : View) (digest : Hash) : Except Abort CoreState :=
  c.broadcastCommit K ⟨view, digest⟩ digest

/-- `catchup_round`: wait for a round change. -/
def catchupRound (c : CoreState) (_round : Nat) : CoreState := { c with waitRoundChange := true }

/-- `send_round_change`: at most one every 50 ms; a vote for a later round
also makes the node wait for that round. -/
def sendRoundChange (now : Nat) (c : CoreState) (round : Nat) : Except Abort CoreState :=
  if now - c.roundChangeLimiter ≤ 50 then pure c
  else
    let c := { c with roundChangeLimiter := now }
    let c := if c.currentView.round < round then c.catchupRound round else c
    let subject : Subject := ⟨⟨round, c.currentView.height⟩, emptyHash⟩
    c.broadcast K { GossipMessage.new .roundChange (.subject subject) none with createTime := now }

/-- `send_next_round_change`: a vote for the round `max_round` picks, or for
the next round if that is not later. -/
def sendNextRoundChange (now : Nat) (c : CoreState) : Except Abort CoreState := do
  let round := c.roundChangeSet.maxRound
  if round ≤ c.currentView.round then
    let next ← u64Add .sendNextRoundChange c.currentView.round 1
    c.sendRoundChange K now next
  else c.sendRoundChange K now round

/-- `start_new_zero_round`: round 0 of the height after the chain's last
block, with the backend's validators, no lock and no proposal. -/
def startNewZeroRound (c : CoreState) : Except Abort CoreState := do
  let lastProposal := c.backend.lastProposal
  let lastHeight := lastProposal.block.height
  let height ← u64Add .startNewZeroRound lastHeight 1
  let newView : View := ⟨0, height⟩
  let validators := c.backend.validators height
  let c := { c with validators := validators, roundChangeSet := .new validators }
  assertAt .startNewZeroRound (c.validators.size ≠ 0)
  let c := c.updateRoundState newView c.validators false
  let validators ← c.validators.calcProposer K (lastProposal.block.hash K) lastHeight newView.round
  pure { c with validators := validators, waitRoundChange := false, state := .acceptRequest }

/-- `start_new_round`: a later round of the current height (unless the chain
is already past it), carrying the lock; a proposer that is locked proposes
its locked proposal again, and one that is not proposes its pending
request. -/
def startNewRound (c : CoreState) (round : Nat) : Except Abort CoreState := do
  assertAt .startNewRound (round ≠ 0)
  assertAt .startNewRound (round > c.currentState.round)
  let lastProposal := c.backend.lastProposal
  let lastHeight := lastProposal.block.height
  if lastHeight > c.currentState.height then pure c
  else
    assertAt .startNewRound (c.validators.size ≠ 0)
    let newView : View := ⟨round, c.currentState.height⟩
    let c := { c with roundChangeSet := .new c.validators }
    let c := c.updateRoundState newView c.validators true
    let validators ← c.validators.calcProposer K (lastProposal.block.hash K) lastHeight newView.round
    let c := { c with validators := validators, waitRoundChange := false, state := .acceptRequest }
    if c.validators.isProposer c.address then
      if c.currentState.isLocked then
        let proposal ← unwrapAt .startNewRound c.currentState.proposal
        c.sendPreprepare K ⟨proposal⟩
      else
        match c.currentState.pendingRequest with
        | some request => c.sendPreprepare K ⟨request.proposal⟩
        | none => pure c
    else pure c

/-- `commit`: the envelope signatures of the commit messages become the
seals of the proposal handed to the backend. -/
def commit (c : CoreState) : Except Abort CoreState := do
  let c := c.setState .committed
  let committedSeals ← c.currentState.commits.values.mapM fun v => unwrapAt .commitSignature v.signature
  assertAt .commit (c.validators.twoThirdsMajority < committedSeals.length)
  let proposal ← unwrapAt .commit c.currentState.proposal
  let backend ← c.backend.commit K proposal committedSeals
  pure { c with backend := backend }

/-- `check_request_message`. -/
def checkRequestMessage (c : CoreState) (request : Request) : ConsensusResult :=
  if c.currentState.height = 0 then .error .waitNewRound
  else if c.currentState.height > request.proposal.block.height then .error .oldMessage
  else if c.currentState.height < request.proposal.block.height then .error .futureMessage
  else .ok ()

/-- `accept` (of a request): it becomes the pending request. -/
def accept (c : CoreState) (request : Request) : CoreState :=
  { c with currentState := { c.currentState with pendingRequest := some request } }

/-- `handle_new_header`: the miner's new block starts round 0 of the next
height, and is proposed there. -/
def handleNewHeader (c : CoreState) (proposal : Proposal) : Except Abort (ConsensusResult × CoreState) := do
  let c ← c.startNewZeroRound K
  match c.checkRequestMessage ⟨proposal⟩ with
  | .error e => pure (.error e, c)
  | .ok () =>
    assertAt .handleNewHeader (c.state = .acceptRequest)
    let c := c.accept ⟨proposal⟩
    let c ← c.sendPreprepare K ⟨proposal⟩
    pure (.ok (), c)

/-- `handle_final_committed`. -/
def handleFinalCommitted (c : CoreState) : CoreState := { c with waitRoundChange := false }

/-- `handle_timer_event`: a node behind the chain stops waiting, any other
votes for a round change. -/
def handleTimerEvent (now : Nat) (c : CoreState) : Except Abort CoreState :=
  if c.backend.lastProposal.block.height ≥ c.currentView.height then pure { c with waitRoundChange := false }
  else c.sendNextRoundChange K now

/-! ## What sending changes -/

/-- The aborts of a send: a signature or commit seal that cannot be made,
or a round past `u64::MAX`. -/
def SendAbort (a : Abort) : Prop :=
  a = .unwrap .setSign ∨ a = .unwrap .encryptCommitBytes ∨ a = .overflow .sendNextRoundChange

/-- `c'` is `c` after sends: only the outbound cache, the outbox, the
limiter and the wait flag may differ, and the outbox only grows. -/
structure Sends (c c' : CoreState) : Prop where
  state : c'.state = c.state
  currentState : c'.currentState = c.currentState
  validators : c'.validators = c.validators
  roundChangeSet : c'.roundChangeSet = c.roundChangeSet
  address : c'.address = c.address
  keypair : c'.keypair = c.keypair
  chain : c'.backend.chain = c.backend.chain
  committed : c'.backend.committed = c.backend.committed
  validatorSet : c'.backend.validatorSet = c.backend.validatorSet
  validaor : c'.backend.validaor = c.backend.validaor
  blockPeriod : c'.backend.blockPeriod = c.backend.blockPeriod
  outbox : c.backend.outbox <+: c'.backend.outbox

variable {K} {c c' c'' : CoreState}

theorem Sends.refl (c : CoreState) : Sends c c :=
  ⟨rfl, rfl, rfl, rfl, rfl, rfl, rfl, rfl, rfl, rfl, rfl, List.prefix_refl _⟩

theorem Sends.trans (h : Sends c c') (h' : Sends c' c'') : Sends c c'' :=
  ⟨h'.state.trans h.state, h'.currentState.trans h.currentState, h'.validators.trans h.validators,
    h'.roundChangeSet.trans h.roundChangeSet, h'.address.trans h.address, h'.keypair.trans h.keypair,
    h'.chain.trans h.chain, h'.committed.trans h.committed, h'.validatorSet.trans h.validatorSet,
    h'.validaor.trans h.validaor, h'.blockPeriod.trans h.blockPeriod, h.outbox.trans h'.outbox⟩

/-- Changing the limiter or the wait flag is a send. -/
theorem sends_timers (limiter : Nat) (wait : Bool) :
    Sends c { c with roundChangeLimiter := limiter, waitRoundChange := wait } :=
  ⟨rfl, rfl, rfl, rfl, rfl, rfl, rfl, rfl, rfl, rfl, rfl, List.prefix_refl _⟩

theorem broadcast_sends (msg : GossipMessage) : Framework.Ensures (c.broadcast K msg) (Sends c) SendAbort := by
  unfold broadcast finalizeMessage GossipMessage.setSign
  cases hs : K.sign c.keypair.secret (GossipMessage.signDigest K { msg with address := c.address }) with
  | none => exact .inl rfl
  | some sig =>
    refine ⟨rfl, rfl, rfl, rfl, rfl, rfl, ImplBackend.gossip_chain _, ImplBackend.gossip_committed _,
      ImplBackend.gossip_validatorSet _, ImplBackend.gossip_validaor _, ImplBackend.gossip_blockPeriod _, ?_⟩
    rcases ImplBackend.gossip_outbox (b := c.backend) (K := K) { msg with address := c.address, signature := some sig } with h | h
    · exact h ▸ List.prefix_refl _
    · exact h ▸ List.prefix_append _ _

theorem sendPreprepare_sends (request : Request) :
    Framework.Ensures (c.sendPreprepare K request) (Sends c) SendAbort := by
  unfold sendPreprepare
  split
  · exact broadcast_sends _
  · exact Framework.Ensures.pure (Sends.refl c)

/-- With a proposal in the round, `send_prepare` only sends. -/
theorem sendPrepare_sends (h : c.currentState.preprepare.isSome) :
    Framework.Ensures (c.sendPrepare K) (Sends c) SendAbort := by
  obtain ⟨p, hp⟩ := Option.isSome_iff_exists.mp h
  simp only [sendPrepare, RoundState.subject, hp, Option.map_some, unwrapAt_some, Framework.ok_bind]
  exact broadcast_sends _

theorem broadcastCommit_sends (subject : Subject) (digest : Hash) :
    Framework.Ensures (c.broadcastCommit K subject digest) (Sends c) SendAbort := by
  unfold broadcastCommit encryptCommitBytes
  cases K.sign c.keypair.secret (K.keccak (MessageType.commit.toNat.toUInt8 :: subject.digest.toList)) with
  | none => exact .inr (.inl rfl)
  | some sig =>
    simp only [unwrapAt_some, Framework.ok_bind]
    exact broadcast_sends _

/-- With a proposal in the round, `send_commit` only sends. -/
theorem sendCommit_sends (h : c.currentState.preprepare.isSome) :
    Framework.Ensures (c.sendCommit K) (Sends c) SendAbort := by
  obtain ⟨p, hp⟩ := Option.isSome_iff_exists.mp h
  simp only [sendCommit, RoundState.proposal, RoundState.subject, hp, Option.map_some, unwrapAt_some,
    Framework.ok_bind]
  exact broadcastCommit_sends _ _

theorem sendCommitForOldBlock_sends (view : View) (digest : Hash) :
    Framework.Ensures (c.sendCommitForOldBlock K view digest) (Sends c) SendAbort :=
  broadcastCommit_sends _ _

theorem sendRoundChange_sends (now : Nat) (round : Nat) :
    Framework.Ensures (c.sendRoundChange K now round) (Sends c) SendAbort := by
  unfold sendRoundChange
  split
  · exact Framework.Ensures.pure (Sends.refl c)
  · dsimp only
    refine (broadcast_sends _).mono (fun c' h => Sends.trans ?_ h) fun _ h => h
    unfold catchupRound
    split
    · exact sends_timers now true
    · exact sends_timers now c.waitRoundChange

theorem sendNextRoundChange_sends (now : Nat) :
    Framework.Ensures (c.sendNextRoundChange K now) (Sends c) SendAbort := by
  unfold sendNextRoundChange
  dsimp only
  split
  · unfold u64Add
    split
    · exact sendRoundChange_sends now _
    · exact .inr (.inr rfl)
  · exact sendRoundChange_sends now _

end CoreState

end ConsensusRs
