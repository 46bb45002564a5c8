import ConsensusRs.Consensus.Validator
import ConsensusRs.Chain.Insert
import ConsensusRs.Types.Merkle

/-!
# The consensus backend

`consensus::backend::ImplBackend`: what the PBFT core calls to reach the
chain and the network. The chain is the list of blocks it holds, on which
`Chain::insert_block` is `appendBlock` (`Chain.insertBlock_eq_ok` shows
that the ledger refines it); it always holds its genesis block.

Besides the code's own fields, the model keeps two records of what the
backend did, which no code reads:

* `outbox`: every message `gossip` sent, to the node itself (through the
  core's queue) and to its peers (through the broadcast bus);
* `committed`: every block `commit` handed to `insert_block`.

The hand-off of a block to the miner (`proposed_block_hash`, `commit_tx`)
and the inbound cache, which nothing reads, are left out.

`verify_seal` never accepts a header (`verifySeal_ne_ok`): it checks the
seals with `decrypt_commit_bytes`, which takes a 9-byte packet, against the
32-byte hash of the header. On a header without votes it panics
(`verifySeal_unwraps_votes`).
-/

namespace ConsensusRs

variable (K : Extern)

/-- `GossipMessage`'s `CryptoHash`: the keccak of its JSON. -/
def GossipMessage.hash (m : GossipMessage) : Hash :=
  K.keccak (K.jsonGossip m.code m.createTime m.msg m.signature m.commitSeal)

/-- `Block::add_votes`: the header's votes, created empty if it has none,
with the seals added. -/
def Block.addVotes (b : Block) (signatures : List Signature) : Block :=
  { b with header := { b.header with votes := some ((b.header.votes.getD ⟨[]⟩).addVotes signatures) } }

/-- `Proposal::set_seal`. -/
def Proposal.setSeal (p : Proposal) (seals : List Signature) : Proposal := ⟨p.block.addVotes seals⟩

/-- The capacity `new_impl_backend` gives the outbound cache. -/
def outboundCacheCapacity : Nat := 2 ^ 10

/-- `consensus::backend::ImplBackend`. -/
structure ImplBackend where
  validaor : Validator
  validatorSet : ImplValidatorSet
  outboundCache : LruCache Hash Unit
  chain : List Block
  chain_ne_nil : chain ≠ []
  blockPeriod : Nat
  outbox : List GossipMessage
  committed : List Block

namespace ImplBackend

/-- `new_impl_backend`, for a chain and the addresses of its validators. -/
def new (keypair : KeyPair) (chain : List Block) (h : chain ≠ []) (addresses : List Address)
    (blockPeriod : Nat) : ImplBackend where
  validaor := ⟨keypair.address K⟩
  validatorSet := .new addresses
  outboundCache := .withCapacity outboundCacheCapacity
  chain := chain
  chain_ne_nil := h
  blockPeriod := blockPeriod
  outbox := []
  committed := []

/-- `address`. -/
def address (b : ImplBackend) : Address := b.validaor.address

/-- `validators`: the one set of the backend, whatever the height. -/
def validators (b : ImplBackend) (_height : Nat) : ImplValidatorSet := b.validatorSet

/-- `gossip`: a message whose hash the outbound cache holds is not sent
again. -/
def gossip (b : ImplBackend) (msg : GossipMessage) : ImplBackend :=
  let msgHash := msg.hash K
  if (b.outboundCache.get msgHash).isSome then b
  else { b with outboundCache := b.outboundCache.insert msgHash (), outbox := b.outbox ++ [msg] }

/-- `Chain::insert_block` on the backend's chain. -/
def insertBlock (b : ImplBackend) (block : Block) : ImplBackend :=
  { b with chain := (appendBlock K b.chain block).2, chain_ne_nil := appendBlock_ne_nil block b.chain_ne_nil }

/-- `commit`: the seals written into the proposal's votes, then (again,
which adds nothing) into the votes of the block inserted into the chain;
the insertion's result is only logged. -/
def commit (b : ImplBackend) (proposal : Proposal) (seals : List Signature) : Except Abort ImplBackend := do
  let proposal := proposal.setSeal seals
  let votes ← unwrapAt .backendCommit proposal.block.header.votes
  let block : Block :=
    { proposal.block with header := { proposal.block.header with votes := some (votes.addVotes seals) } }
  pure { b.insertBlock K block with committed := b.committed ++ [block] }

/-- `last_proposal`: the last block of the chain. -/
def lastProposal (b : ImplBackend) : Proposal := ⟨b.chain.getLast b.chain_ne_nil⟩

/-- `has_proposal`: whether the chain holds a block of the hash at the
height. -/
def hasProposal (b : ImplBackend) (hash : Hash) (height : Nat) : Bool :=
  match b.chain[height]? with
  | some block => block.hash K = hash
  | none => false

/-- `get_header_by_height`. -/
def getHeaderByHeight (b : ImplBackend) (height : Nat) : Option Header := b.chain[height]?.map (·.header)

/-- `has_bad_proposal`. -/
def hasBadProposal (_b : ImplBackend) (_hash : Hash) : Bool := false

/-- `verify_seal`. The `LackVotes` error that `ok_or` would return is built
before the votes are checked, with an `unwrap` of the votes: a header
without votes panics. -/
def verifySeal (b : ImplBackend) (header : Header) : Except Abort (Except EngineError Unit) := do
  let votes ← unwrapAt .verifySeal header.votes
  if !votes.verifySigns K (header.hash K) (fun validator => (b.validatorSet.getByAddress validator).isSome) then
    return .error .invalidSignature
  let maj32 := b.validatorSet.twoThirdsMajority
  if maj32 + 1 > votes.len then
    return .error (.lackVotes (maj32 + 1) votes.len)
  match b.validatorSet.getByAddress header.proposer with
  | none => pure (.error (.unknown "proposer is not validators"))
  | some _ => pure (.ok ())

/-- `verify_header` (the engine's): the parent is the block below on the
chain, its block hash is the header's `prev_hash`, and the header is at
least a block period later. The parent-hash error carries both hashes in
the code's text; the model keeps the text without them. -/
def verifyHeader (b : ImplBackend) (header : Header) («seal» : Bool) : Except Abort (Except EngineError Unit) :=
  if header.height = 0 then pure (.error .invalidHeight)
  else
    match b.getHeaderByHeight (header.height - 1) with
    | none => pure (.error (.unknownAncestor header.height (header.height - 1)))
    | some parentHeader =>
      if parentHeader.blockHash K ≠ header.prevHash then
        pure (.error (.unknown "parent hash != heaer.prev hash"))
      else do
        let earliest ← u64Add .verifyHeader parentHeader.time b.blockPeriod
        if header.time < earliest then pure (.error .invalidTimestamp)
        else if «seal» then b.verifySeal K header
        else pure (.ok ())

/-- `verify`: every transaction is signed, the transaction root is the
header's, and the header extends the chain. `verify_header` never returns
`FutureBlock`, so the delay `verify` returns with it is always zero and is
left out. -/
def verify (b : ImplBackend) (proposal : Proposal) : Except Abort (Except EngineError Unit) := do
  let block := proposal.block
  let header := block.header
  if b.hasBadProposal (header.blockHash K) then
    return .error .invalidProposal
  if !(← block.transactions.allM (Transaction.verifySign K)) then
    return .error .invalidSignature
  let transactionHash ← merkleTreeRoot K block.transactions
  if transactionHash ≠ header.txHash then
    return .error (.invalidTransactionHash header.txHash transactionHash)
  b.verifyHeader K header false

variable {K} {b b' : ImplBackend}

/-- The body of `gossip`; the lemmas below rewrite with it and never unfold
the definition. -/
theorem gossip_eq (msg : GossipMessage) :
    b.gossip K msg =
      if (b.outboundCache.get (msg.hash K)).isSome then b
      else { b with outboundCache := b.outboundCache.insert (msg.hash K) (), outbox := b.outbox ++ [msg] } :=
  rfl

@[simp] theorem gossip_chain (msg : GossipMessage) : (b.gossip K msg).chain = b.chain := by
  rw [gossip_eq]; split <;> rfl

@[simp] theorem gossip_validatorSet (msg : GossipMessage) : (b.gossip K msg).validatorSet = b.validatorSet := by
  rw [gossip_eq]; split <;> rfl

@[simp] theorem gossip_validaor (msg : GossipMessage) : (b.gossip K msg).validaor = b.validaor := by
  rw [gossip_eq]; split <;> rfl

@[simp] theorem gossip_committed (msg : GossipMessage) : (b.gossip K msg).committed = b.committed := by
  rw [gossip_eq]; split <;> rfl

@[simp] theorem gossip_blockPeriod (msg : GossipMessage) : (b.gossip K msg).blockPeriod = b.blockPeriod := by
  rw [gossip_eq]; split <;> rfl

/-- `gossip` sends the message, or nothing when it already sent one of
the same hash. -/
theorem gossip_outbox (msg : GossipMessage) :
    (b.gossip K msg).outbox = b.outbox ∨ (b.gossip K msg).outbox = b.outbox ++ [msg] := by
  rw [gossip_eq]
  split
  · exact .inl rfl
  · exact .inr rfl

/-- A backend that has not sent a message of the hash sends it. -/
theorem gossip_of_get_eq_none {msg : GossipMessage} (h : b.outboundCache.get (msg.hash K) = none) :
    (b.gossip K msg).outbox = b.outbox ++ [msg] := by
  rw [gossip_eq, h]
  rfl

@[simp] theorem insertBlock_validatorSet (block : Block) : (b.insertBlock K block).validatorSet = b.validatorSet := rfl

@[simp] theorem insertBlock_outbox (block : Block) : (b.insertBlock K block).outbox = b.outbox := rfl

@[simp] theorem insertBlock_committed (block : Block) : (b.insertBlock K block).committed = b.committed := rfl

@[simp] theorem insertBlock_chain (block : Block) : (b.insertBlock K block).chain = (appendBlock K b.chain block).2 := rfl

/-- `commit` never panics: it inserts the proposal with the seals added to
its votes, and records that block. -/
theorem commit_eq (proposal : Proposal) (seals : List Signature) :
    b.commit K proposal seals =
      .ok { b.insertBlock K (proposal.setSeal seals).block with
        committed := b.committed ++ [(proposal.setSeal seals).block] } := by
  simp only [commit, Proposal.setSeal, Block.addVotes, unwrapAt_some, Framework.ok_bind,
    Votes.addVotes_addVotes]
  rfl

/-- `verify_seal` never accepts a header: without votes it panics, with no
seal it lacks votes, and with a seal the seal does not decrypt. -/
theorem verifySeal_ne_ok (header : Header) : b.verifySeal K header ≠ .ok (.ok ()) := by
  unfold verifySeal
  cases hv : header.votes with
  | none => simp
  | some votes =>
    rcases votes with ⟨_ | ⟨sig, sigs⟩⟩
    · simp [Votes.verifySigns_hash, Votes.len]
    · simp [Votes.verifySigns_hash]

/-- `verify_seal` panics only at the `unwrap` of the votes. -/
theorem verifySeal_eq_error {header : Header} {a : Abort} (h : b.verifySeal K header = .error a) :
    a = .unwrap .verifySeal := by
  unfold verifySeal at h
  cases hv : header.votes with
  | none => simpa [hv] using h.symm
  | some votes =>
    simp only [hv, unwrapAt_some, Framework.ok_bind] at h
    split at h
    · cases h
    · split at h
      · cases h
      · split at h <;> cases h

/-- `verify_seal` is not total: on a header without votes it panics at the
`unwrap` that builds its `LackVotes` error, before `ok_or` could return
it. And it is sound only because it accepts no header at all. -/
theorem verifySeal_unwraps_votes (b : ImplBackend) (header : Header) :
    b.verifySeal K { header with votes := none } = .error (.unwrap .verifySeal) ∧
      b.verifySeal K header ≠ .ok (.ok ()) := by
  refine ⟨?_, verifySeal_ne_ok header⟩
  simp [verifySeal]

/-- The genesis header, which has no votes, makes `verify_seal` panic. -/
theorem verifySeal_genesis_toy :
    (ImplBackend.new Extern.toy ⟨bytesOf 32 [1], toyPublic 1⟩ [toyGenesis] (List.cons_ne_nil _ _) [] 1).verifySeal
      Extern.toy toyGenesis.header = .error (.unwrap .verifySeal) :=
  rfl

/-- `verify_header` panics only when the parent's time plus the block period
overflows, or in `verify_seal`. -/
theorem verifyHeader_eq_error {header : Header} {s : Bool} {a : Abort} (h : b.verifyHeader K header s = .error a) :
    a = .overflow .verifyHeader ∨ a = .unwrap .verifySeal := by
  unfold verifyHeader at h
  split at h
  · cases h
  split at h
  · cases h
  split at h
  · cases h
  rcases Iff.mp Framework.bind_eq_error h with h | ⟨earliest, -, h⟩
  · unfold u64Add at h
    split at h
    · cases h
    · cases h; exact .inl rfl
  · split at h
    · cases h
    split at h
    · exact .inr (verifySeal_eq_error h)
    · cases h

/-- `verify` panics only in a transaction's signature check, in the
Merkle root, or in `verify_header`. -/
theorem verify_eq_error {p : Proposal} {a : Abort} (h : b.verify K p = .error a) :
    a = .unwrap .transactionSignature ∨ a = .loop .newMerkleTree ∨ a = .unwrap .newMerkleTree ∨
      a = .overflow .verifyHeader ∨ a = .unwrap .verifySeal := by
  unfold verify at h
  simp only [hasBadProposal, Bool.false_eq_true, if_false] at h
  rcases Iff.mp Framework.bind_eq_error h with h | ⟨ok, -, h⟩
  · obtain ⟨tx, -, htx⟩ := Framework.allM_eq_error h
    exact .inl (Transaction.verifySign_eq_error K htx)
  split at h
  · cases h
  rcases Iff.mp Framework.bind_eq_error h with h | ⟨root, -, h⟩
  · rcases merkleTreeRoot_eq_error K h with h | h
    · exact .inr (.inl h)
    · exact .inr (.inr (.inl h))
  split at h
  · cases h
  rcases verifyHeader_eq_error h with h | h
  · exact .inr (.inr (.inr (.inl h)))
  · exact .inr (.inr (.inr (.inr h)))

/-- `verify` on a proposal whose block has no transaction reaches the Merkle
root of no item, whose level loop never returns. -/
theorem verify_eq_loop_of_nil {p : Proposal} (hp : p.block.transactions = []) :
    b.verify K p = .error (.loop .newMerkleTree) := by
  simp [verify, hasBadProposal, hp, merkleTreeRoot_nil, bind, Except.bind, pure, Except.pure]

/-- The Merkle root of no item never returns: the loop's level stays empty
whatever the number of rounds, so `new_merkle_tree` spins, and so does
`verify` on a proposal of the genesis block, which has no transaction. -/
theorem verify_empty_block_spins :
    (∀ fuel, levelLoop Extern.toy fuel [] = none) ∧ newMerkleTree Extern.toy [] = .error (.loop .newMerkleTree) ∧
      (ImplBackend.new Extern.toy ⟨bytesOf 32 [1], toyPublic 1⟩ [toyGenesis] (List.cons_ne_nil _ _) [] 1).verify
        Extern.toy ⟨toyGenesis⟩ = .error (.loop .newMerkleTree) :=
  ⟨levelLoop_nil Extern.toy, by simp [newMerkleTree, levelLoop_nil], verify_eq_loop_of_nil rfl⟩

end ImplBackend

end ConsensusRs
