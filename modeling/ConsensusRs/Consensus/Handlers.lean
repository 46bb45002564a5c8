import ConsensusRs.Consensus.Core

/-!
# The message handlers and the core's run loop

The four handlers of `consensus::pbft::core` (`preprepare.rs`,
`prepare.rs`, `commit.rs`, `round_change.rs`), the dispatch of a message to
them (`handle_check_message`, `handle_message`), and the run loop of
`Core::run`: its initial state, and one step per event of the core's queue
(`CoreMessage`) or per block that a peer's `Block` message inserts into the
chain (`handle_msg_middle`).

A message on the queue is bytes that `GossipMessage::from_bytes` decodes
with an `unwrap`; the model's event carries the decoded message. The
handlers decode its payload with `serde_json::from_slice(..).unwrap()`: a
payload of the other kind panics (`Abort.decode`).

The results of the handlers are only logged by the run loop. A
`FutureBlockMessage` also makes it ask peers for blocks a second later, and
a future message is kept in a backlog that nothing reads: both are left
out, as is `Op` (a stop ends the loop, a ping does nothing).
-/

namespace ConsensusRs

variable (K : Extern)

/-- `Subject::from_bytes(..)` of a message payload. -/
def Body.toSubject : Body → Except Abort Subject
  | .subject s => .ok s
  | _ => .error .decode

/-- `PrePrepare::from_bytes(..)` of a message payload. -/
def Body.toPreprepare : Body → Except Abort PrePrepare
  | .preprepare p => .ok p
  | _ => .error .decode

namespace CoreState

/-- `HandlePreprepare::accetp`: the pre-prepare becomes the round's
proposal. -/
def accetp (c : CoreState) (preprepare : PrePrepare) : CoreState :=
  { c with currentState := c.currentState.setPreprepare preprepare }

/-- The part of `HandlePreprepare::handle` after `check_message` let the
pre-prepare through (of the current height, or of a later one): a proposal
from the proposer that `verify` accepts is taken in `AcceptRequest`, if the
node is not locked on another; an invalid proposal makes the node vote for
a round change. -/
def handleCurrentPreprepare (now : Nat) (c : CoreState) (preprepare : PrePrepare) (src : Validator) :
    Except Abort (ConsensusResult × CoreState) :=
  if !c.validators.isProposer src.address then pure (.error .notFromProposer, c)
  else do
    match ← c.backend.verify K preprepare.proposal with
    | .error .futureBlock => pure (.error (.futureBlockMessage preprepare.proposal.block.height), c)
    | .error err =>
      let c ← c.sendNextRoundChange K now
      pure (.error (.unknown err.display), c)
    | .ok () =>
      if c.state = .acceptRequest then
        match c.currentState.lockHash with
        | some lockHash =>
          if preprepare.proposal.block.hash K = lockHash then
            let c ← ((c.accetp preprepare).setState .prepared).sendCommit K
            pure (.ok (), c)
          else
            let c ← c.sendNextRoundChange K now
            pure (.ok (), c)
        | none =>
          let c ← ((c.accetp preprepare).setState .prePrepared).sendPrepare K
          pure (.ok (), c)
      else pure (.ok (), c)

/-- `HandlePreprepare::handle`. An old pre-prepare of a block the chain
holds, from the proposer of its round, is answered with a commit for that
block. -/
def handlePreprepare (now : Nat) (c : CoreState) (msg : GossipMessage) (src : Validator) :
    Except Abort (ConsensusResult × CoreState) := do
  let preprepare ← msg.msg.toPreprepare
  let result := c.checkMessage .preprepare preprepare.view
  match result with
  | .error .oldMessage =>
    let block := preprepare.proposal.block
    match c.backend.getHeaderByHeight block.height with
    | none => pure (.error (.engine .invalidProposal), c)
    | some preHeader =>
      if preHeader.blockHash K ≠ block.hash K then pure (.error (.engine .invalidProposal), c)
      else
        let preHeight ← u64Sub .handlePreprepare block.height 1
        let valSet ← (c.backend.validators preHeight).calcProposer K block.header.prevHash preHeight
          preprepare.view.round
        if valSet.isProposer src.address ∧ c.backend.hasProposal K (block.hash K) block.height then
          let c ← c.sendCommitForOldBlock K preprepare.view (block.hash K)
          pure (result, c)
        else pure (result, c)
  | .error (.futureBlockMessage _) => c.handleCurrentPreprepare K now preprepare src
  | .error e => pure (.error e, c)
  | .ok () => c.handleCurrentPreprepare K now preprepare src

/-- `HandlePrepare::verify_prepare`: only the view is compared. -/
def verifyPrepare (c : CoreState) (subject : Subject) (_src : Validator) : ConsensusResult :=
  if c.currentView ≠ subject.view then .error .inconsistentSubject else .ok ()

/-- `HandlePrepare::handle`. A prepare for the locked hash, or a quorum of
prepares and commits of the round whatever their digests, locks the
round's proposal and sends a commit. -/
def handlePrepare (c : CoreState) (msg : GossipMessage) (src : Validator) :
    Except Abort (ConsensusResult × CoreState) := do
  let subject ← msg.msg.toSubject
  match c.checkMessage .prepare subject.view with
  | .error e => pure (.error e, c)
  | .ok () =>
    match c.verifyPrepare subject src with
    | .error e => pure (.error e, c)
    | .ok () =>
      match c.currentState.prepares.add msg with
      | .error e => pure (.error (.unknown e), c)
      | .ok prepares =>
        let c := { c with currentState := { c.currentState with prepares := prepares } }
        -- `is_locked() && subject.digest == lock_hash.unwrap()`
        let c ← if c.currentState.lockHash = some subject.digest then
            ({ c with currentState := c.currentState.lockHash' K }.setState .prepared).sendCommit K
          else pure c
        let c ← if c.currentState.getPrepareOrCommitSize > c.validators.twoThirdsMajority then
            ({ c with currentState := c.currentState.lockHash' K }.setState .prepared).sendCommit K
          else pure c
        pure (.ok (), c)

/-- `HandleCommit::verify_commit`: the seal must recover to a key, but
whether it is the sender's is not checked, and a subject other than the
round's is only logged. -/
def verifyCommit (c : CoreState) (commitSeal : Option Signature) (commitSubject : Subject) (sender : Address)
    (_src : Validator) : Except Abort ConsensusResult :=
  match commitSeal with
  | none => pure (.error (.unknown "commit seal is nil"))
  | some commitSeal =>
    match verifyAddress K sender commitSeal commitSubject.digest with
    | .error _ => pure (.error (.unknown "message's sender should be commit seal"))
    | .ok _ => do
      let _currentSubject ← unwrapAt .verifyCommit (c.currentState.subject K)
      pure (.ok ())

/-- `HandleCommit::handle`. A quorum of commits of the round, whatever their
digests, locks and commits the round's proposal, unless the node has
committed already. -/
def handleCommit (c : CoreState) (msg : GossipMessage) (src : Validator) :
    Except Abort (ConsensusResult × CoreState) := do
  let subject ← msg.msg.toSubject
  match c.checkMessage .commit subject.view with
  | .error e => pure (.error e, c)
  | .ok () =>
    let sender := msg.address
    let subject ← msg.msg.toSubject
    match ← c.verifyCommit K msg.commitSeal subject sender src with
    | .error e => pure (.error e, c)
    | .ok () =>
      match c.currentState.commits.add msg with
      | .error e => pure (.error (.unknown e), c)
      | .ok commits =>
        let c := { c with currentState := { c.currentState with commits := commits } }
        if c.currentState.commits.len > c.validators.twoThirdsMajority ∧
            c.state.toNat < State.committed.toNat then
          let c ← { c with currentState := c.currentState.lockHash' K }.commit K
          pure (.ok (), c)
        else pure (.ok (), c)

/-- `HandleRoundChange::handle`. A vote for an earlier round (other than 0)
is answered with a vote for it; a quorum for a later round makes the node
vote for it and start it. -/
def handleRoundChange (now : Nat) (c : CoreState) (msg : GossipMessage) (_src : Validator) :
    Except Abort (ConsensusResult × CoreState) := do
  let subject ← msg.msg.toSubject
  match c.checkMessage .roundChange subject.view with
  | .error e => pure (.error e, c)
  | .ok () =>
    let currentView := c.currentView
    let currentValSet := c.validators
    if currentView.round > subject.view.round ∧ subject.view.round > 0 then
      let c ← c.sendRoundChange K now subject.view.round
      pure (.ok (), c)
    else
      let (n, roundChangeSet) := c.roundChangeSet.add subject.view.round msg
      let c := { c with roundChangeSet := roundChangeSet }
      match n with
      | .error e => pure (.error (.unknown e), c)
      | .ok n =>
        if n ≥ currentValSet.twoThirdsMajority + 1 ∧ currentView.round < subject.view.round then
          let c ← c.sendRoundChange K now subject.view.round
          let c ← c.startNewRound K subject.view.round
          pure (.ok (), c)
        else if c.waitRoundChange ∧ currentView.round < subject.view.round then
          pure (.error .futureRoundMessage, c)
        else pure (.ok (), c)

/-- `handle_check_message`: the handler of the message's code. -/
def handleCheckMessage (now : Nat) (c : CoreState) (msg : GossipMessage) (src : Validator) :
    Except Abort (ConsensusResult × CoreState) :=
  match msg.code with
  | .preprepare => c.handlePreprepare K now msg src
  | .prepare => c.handlePrepare K msg src
  | .commit => c.handleCommit K msg src
  | .roundChange => c.handleRoundChange K now msg src

/-- `handle_message`: the sender is the address its envelope signature
recovers to, and must be a validator. -/
def handleMessage (now : Nat) (c : CoreState) (msg : GossipMessage) :
    Except Abort (ConsensusResult × CoreState) :=
  if c.validators.size = 0 then pure (.ok (), c)
  else
    match msg.recoverAddress K with
    | .error e => pure (.error (.unknown e), c)
    | .ok address =>
      match c.validators.getByAddress address with
      | none => pure (.error .unauthorizedAddress, c)
      | some _ => c.handleCheckMessage K now { msg with address := address } ⟨address⟩

/-- `handle_backlog_event`: the message's own address is its sender. -/
def handleBacklogEvent (now : Nat) (c : CoreState) (msg : GossipMessage) :
    Except Abort (ConsensusResult × CoreState) :=
  c.handleCheckMessage K now msg ⟨msg.address⟩

end CoreState

/-- `runner::CoreMessage`, without `Op`. -/
inductive CoreMessage where
  | message (msg : GossipMessage)
  | newHeader (proposal : Proposal)
  | finalCommitted
  | backLog (msg : GossipMessage)
  | timer

/-- What a node handles: a message of its core's queue at a time `now`
(in milliseconds), or a block of a peer's `Block` message, which
`handle_msg_middle` inserts into the chain. -/
inductive Event where
  | core (now : Nat) (msg : CoreMessage)
  | block (block : Block)

namespace CoreState

/-- One iteration of the run loop of `Core::run`, or the insertion of a
block from a peer. -/
def step (c : CoreState) : Event → Except Abort CoreState
  | .core now (.message msg) => Prod.snd <$> c.handleMessage K now msg
  | .core _ (.newHeader proposal) => Prod.snd <$> c.handleNewHeader K proposal
  | .core _ .finalCommitted => pure c.handleFinalCommitted
  | .core now (.backLog msg) => Prod.snd <$> c.handleBacklogEvent K now msg
  | .core now .timer => c.handleTimerEvent K now
  | .block block => pure { c with backend := c.backend.insertBlock K block }

end CoreState

/-- `Core::run` up to its loop: the core of a node with the key pair, over
the backend, with the validators the chain gives for its last block,
locked on that block until `start_new_zero_round` starts the next
height. -/
def Core.run (backend : ImplBackend) (keyPair : KeyPair) (addresses : List Address) (now : Nat) :
    Except Abort CoreState :=
  let lastBlock := backend.chain.getLast backend.chain_ne_nil
  let validators := ImplValidatorSet.new addresses
  let state : CoreState :=
    { address := keyPair.address K
      keypair := keyPair
      state := .acceptRequest
      validators := validators
      currentState := .newRoundState ⟨0, lastBlock.height⟩ validators (some (lastBlock.hash K)) none none
      roundChangeSet := .new validators
      waitRoundChange := false
      roundChangeLimiter := now
      backend := backend }
  state.startNewZeroRound K

/-! ## Four validators over `Extern.toy`

A network to run the model on: `toyKey k` signs with the key byte `k`, and
its address starts with `k`; the validators have the key bytes 1 to 4, and
every node starts from a chain that holds only the genesis block, with a
block period of 1. At height 1, round 0, the proposer is the validator of
key byte 1 (the genesis hash starts with a zero byte). `toyBlock1 time` is a
valid block at height 1: its one transaction is signed, its transaction
root is right, and it extends the genesis block. -/

/-- The key pair of key byte `k`. -/
def toyKey (k : UInt8) : KeyPair := ⟨bytesOf 32 [k], toyPublic k⟩

/-- The addresses of the four validators. -/
def toyAddresses : List Address := [1, 2, 3, 4].map fun k => (toyKey k).address Extern.toy

/-- The backend of the node of key byte `k`. -/
def toyBackend (k : UInt8) : ImplBackend :=
  ImplBackend.new Extern.toy (toyKey k) [toyGenesis] (List.cons_ne_nil _ _) toyAddresses 1

/-- A signed transaction. -/
def toyTransaction : Transaction :=
  { accountNonce := 0, gasPrice := 0, gasLimit := 0, recipient := some emptyAddress, amount := 0,
    payload := [], signature := some (bytesOf 65 []) }

/-- The transaction root of `[toyTransaction]`. -/
def toyTxHash : Hash :=
  match merkleTreeRoot Extern.toy [toyTransaction] with
  | .ok h => h
  | .error _ => emptyHash

/-- A block at height 1 on the genesis block, made at `time`. -/
def toyBlock1 (time : Nat) : Block :=
  ⟨{ Header.zeroHeader with height := 1, prevHash := toyGenesis.hash Extern.toy, time := time, txHash := toyTxHash },
    [toyTransaction]⟩

/-- A message from the validator of key byte `k`, with its address and its
signature as `finalize_message` gives them. -/
def toySigned (k : UInt8) (m : GossipMessage) : GossipMessage :=
  let m := { m with address := (toyKey k).address Extern.toy }
  match m.setSign Extern.toy (toyKey k).secret with
  | .ok m => m
  | .error _ => m

/-- The pre-prepare of a block for round 0 of height 1, from the validator
of key byte `k`. -/
def toyPreprepare (k : UInt8) (b : Block) : GossipMessage :=
  toySigned k (.new .preprepare (.preprepare ⟨⟨0, 1⟩, ⟨b⟩⟩) none)

/-- The commit seal of the validator of key byte `k` over a digest. -/
def toySeal (k : UInt8) (digest : Hash) : Option Signature :=
  (encryptCommitBytes Extern.toy digest (toyKey k).secret).toOption

/-- The prepare of a digest for a round of height 1, from the validator of
key byte `k`. -/
def toyPrepare (k : UInt8) (round : Nat) (digest : Hash) : GossipMessage :=
  toySigned k (.new .prepare (.subject ⟨⟨round, 1⟩, digest⟩) none)

/-- The commit of a digest for a round of height 1, sealed and signed by the
validator of key byte `k`. -/
def toyCommit (k : UInt8) (round : Nat) (digest : Hash) : GossipMessage :=
  toySigned k (.new .commit (.subject ⟨⟨round, 1⟩, digest⟩) (toySeal k digest))

/-- The vote of the validator of key byte `k` for a round of height 1. -/
def toyRoundChange (k : UInt8) (round : Nat) : GossipMessage :=
  toySigned k (.new .roundChange (.subject ⟨⟨round, 1⟩, emptyHash⟩) none)

/-- The hash of `toyBlock1 time`. -/
def toyHash (time : Nat) : Hash := (toyBlock1 time).hash Extern.toy

/-- What the node of key byte 2 gets in round 0 of height 1: the pre-prepare
of `toyBlock1 5` from the proposer, then prepares of `digest` from the
three other validators. -/
def toyPrepares (digest : Hash) : List Event :=
  .core 200 (.message (toyPreprepare 1 (toyBlock1 5))) ::
    [1, 3, 4].map fun k => .core (200 + 10 * k.toNat) (.message (toyPrepare k 0 digest))

/-- `toyPrepares digest`, then commits of `digest` from the three other
validators. -/
def toyCommits (digest : Hash) : List Event :=
  toyPrepares digest ++ [1, 3, 4].map fun k => .core (300 + 10 * k.toNat) (.message (toyCommit k 0 digest))

end ConsensusRs
