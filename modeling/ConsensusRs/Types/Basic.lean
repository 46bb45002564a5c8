import Mathlib.Data.Vector.Basic

/-!
# The data model

The types of `src/types`, `src/consensus/types.rs`, `src/protocol/mod.rs`
and the error enums of `src/consensus/error.rs` and `src/error/mod.rs`, as
the code declares them. Fixed-size byte arrays (`Hash`, `Address`,
`Signature`, `Public`, `Secret`) are vectors of bytes; `u64` and `usize`
(heights, rounds, times, gas) are `Nat`, and the places where the code's arithmetic can overflow check
the bound explicitly (the build is a debug build, so overflow panics).

Two things are not the code's own data:

* `Abort` says how a call ends without returning: a panic at one of the
  code's `unwrap`s, assertions or checked operations (`Site` names where),
  or a loop that never exits;
* `Body` stands for the bytes in `GossipMessage.msg`: the handlers decode
  them with `serde_json::from_slice(..).unwrap()` as a `Subject` or a
  `PrePrepare`, so the model keeps the value the bytes are the JSON of, or
  `raw` bytes that encode neither.

Fields that only a cache holds (`Header.hash_cache`, `Transaction.hash`)
are left out: `serde(skip)` drops them on every path into the consensus and
the ledger (see `MODEL_MAP.json`).
-/

namespace ConsensusRs

/-- `crypto::Hash`, 32 bytes (`HASH_SIZE`). -/
abbrev Hash := Vector UInt8 32
/-- `ethkey::Address` (`H160`). -/
abbrev Address := Vector UInt8 20
/-- `ethkey::Signature`: `r`, `s` and the recovery id. -/
abbrev Signature := Vector UInt8 65
/-- `ethkey::Public` (`H512`). -/
abbrev Public := Vector UInt8 64
/-- `ethkey::Secret`. -/
abbrev Secret := Vector UInt8 32

/-- `HASH_SIZE`. -/
def hashSize : Nat := 32

/-- `EMPTY_HASH`. -/
def emptyHash : Hash := Vector.replicate 32 0

/-- `EMPTY_ADDRESS` (`Address::from(0)`). -/
def emptyAddress : Address := Vector.replicate 20 0

/-- The largest `u64`. -/
def u64Max : Nat := 2 ^ 64 - 1

/-- `ethkey::KeyPair`. -/
structure KeyPair where
  secret : Secret
  publicKey : Public
deriving DecidableEq, Repr

/-- `types::Validator`: equality and order are those of the address. -/
structure Validator where
  address : Address
deriving DecidableEq, Repr

/-- `types::votes::Votes`, the commit seals of a header. -/
structure Votes where
  votes : List Signature
deriving DecidableEq, Repr

/-! ## Transactions and blocks -/

/-- `types::transaction::Transaction`, without its hash cache. -/
structure Transaction where
  accountNonce : Nat
  gasPrice : Nat
  gasLimit : Nat
  recipient : Option Address
  amount : Nat
  payload : List UInt8
  signature : Option Signature
deriving DecidableEq, Repr

/-- `TransactionSignature`, what a transaction is hashed and signed as. -/
structure TransactionSignature where
  accountNonce : Nat
  gasPrice : Nat
  gasLimit : Nat
  recipient : Address
  amount : Nat
  payload : List UInt8
  signature : Option Signature
deriving DecidableEq, Repr

/-- `types::block::Header`, without its hash cache. -/
structure Header where
  prevHash : Hash
  proposer : Address
  root : Hash
  txHash : Hash
  receiptHash : Hash
  bloom : Nat
  difficulty : Nat
  height : Nat
  gasLimit : Nat
  gasUsed : Nat
  time : Nat
  extra : Option (List UInt8)
  votes : Option Votes
deriving DecidableEq, Repr

/-- `types::block::Block`. -/
structure Block where
  header : Header
  transactions : List Transaction
deriving DecidableEq, Repr

/-- `consensus::types::Proposal`. -/
structure Proposal where
  block : Block
deriving DecidableEq, Repr

/-- `consensus::types::Request<Proposal>`. -/
structure Request where
  proposal : Proposal
deriving DecidableEq, Repr

/-- `HashesEntry`, the transaction hashes of a block. -/
structure HashesEntry where
  hashes : List Hash
deriving DecidableEq, Repr

/-! ## Consensus messages -/

/-- `consensus::types::View`. -/
structure View where
  round : Nat
  height : Nat
deriving DecidableEq, Repr

namespace View

/-- `View`'s `PartialOrd`: by height, then by round. -/
def lt (a b : View) : Prop := a.height < b.height ∨ (a.height = b.height ∧ a.round < b.round)

instance : LT View := ⟨View.lt⟩
instance : LE View := ⟨fun a b => a = b ∨ a < b⟩

instance (a b : View) : Decidable (a < b) :=
  inferInstanceAs (Decidable (a.height < b.height ∨ (a.height = b.height ∧ a.round < b.round)))
instance (a b : View) : Decidable (a ≤ b) := inferInstanceAs (Decidable (a = b ∨ a < b))

theorem lt_iff {a b : View} : a < b ↔ a.height < b.height ∨ (a.height = b.height ∧ a.round < b.round) :=
  Iff.rfl

theorem le_iff {a b : View} : a ≤ b ↔ a = b ∨ a < b := Iff.rfl

@[simp] theorem le_refl (a : View) : a ≤ a := Or.inl rfl

theorem le_trans {a b c : View} (h₁ : a ≤ b) (h₂ : b ≤ c) : a ≤ c := by
  rcases h₁ with rfl | h₁
  · exact h₂
  rcases h₂ with rfl | h₂
  · exact Or.inr h₁
  have h₁ := Iff.mp lt_iff h₁
  have h₂ := Iff.mp lt_iff h₂
  have h₃ : a < c := Iff.mpr lt_iff (by omega)
  exact Or.inr h₃

/-- Views ordered by height first: a lower height is a lower view. -/
theorem le_of_height_lt {a b : View} (h : a.height < b.height) : a ≤ b := Or.inr (Or.inl h)

end View

/-- `consensus::types::Subject`. -/
structure Subject where
  view : View
  digest : Hash
deriving DecidableEq, Repr

/-- `consensus::types::PrePrepare`. -/
structure PrePrepare where
  view : View
  proposal : Proposal
deriving DecidableEq, Repr

/-- `protocol::MessageType`, with its discriminants 1 to 4. -/
inductive MessageType where
  | preprepare
  | prepare
  | commit
  | roundChange
deriving DecidableEq, Repr

/-- The discriminant (`as u8`), which also orders the message types. -/
def MessageType.toNat : MessageType → Nat
  | .preprepare => 1
  | .prepare => 2
  | .commit => 3
  | .roundChange => 4

/-- `protocol::State`, ordered AcceptRequest < PrePrepared < Prepared <
Committed. -/
inductive State where
  | acceptRequest
  | prePrepared
  | prepared
  | committed
deriving DecidableEq, Repr

/-- The discriminant, which orders the states. -/
def State.toNat : State → Nat
  | .acceptRequest => 1
  | .prePrepared => 2
  | .prepared => 3
  | .committed => 4

/-- What `GossipMessage.msg` is the JSON of. -/
inductive Body where
  | subject (s : Subject)
  | preprepare (p : PrePrepare)
  | raw (bytes : List UInt8)
deriving DecidableEq, Repr

/-- `protocol::GossipMessage`. `address` is `serde(skip)`: it is set by
`finalize_message` on the sender and by `address()` on the receiver. -/
structure GossipMessage where
  code : MessageType
  createTime : Nat
  msg : Body
  signature : Option Signature
  commitSeal : Option Signature
  address : Address
deriving DecidableEq, Repr

/-- `GossipMessage::new`. -/
def GossipMessage.new (code : MessageType) (msg : Body) (commitSeal : Option Signature) :
    GossipMessage :=
  { code, createTime := 0, msg, signature := none, commitSeal, address := emptyAddress }

/-! ## Errors and aborts -/

/-- `consensus::error::EngineError`. -/
inductive EngineError where
  | engineNotStarted
  | invalidProposal
  | invalidSignature
  | invalidHeight
  | invalidTimestamp
  | invalidTransactionHash (expect got : Hash)
  | unauthorized
  | lackVotes (expect got : Nat)
  | futureBlock
  | invalidBlock
  | unknownAncestor (child parent : Nat)
  | interrupt
  | unknown (msg : String)
deriving DecidableEq, Repr

/-- `EngineError`'s `Display` (a hash is printed as the list of its bytes). -/
def EngineError.display : EngineError → String
  | .engineNotStarted => "engine is not started"
  | .invalidProposal => "Invalid proposal"
  | .invalidSignature => "Invalid signature"
  | .invalidHeight => "Invalid height"
  | .invalidTimestamp => "Invalid timestamp"
  | .invalidTransactionHash expect got =>
    "Invalid transaction hash, expect: " ++ toString expect.toList ++ ", got: " ++ toString got.toList
  | .unauthorized => "Unauthorized"
  | .lackVotes expect got => "Lack votes, expect: " ++ toString expect ++ ", got: " ++ toString got
  | .futureBlock => "Block in the future"
  | .invalidBlock => "Invalid block number"
  | .unknownAncestor child parent => "Unknown ancestor, child:" ++ toString child ++ ", parent: " ++ toString parent
  | .interrupt => "Consensus interrupt"
  | .unknown msg => "An unknown error has occurred, (" ++ msg ++ ")"

/-- `consensus::error::ConsensusError`. -/
inductive ConsensusError where
  | ignored
  | futureMessage
  | futureRoundMessage
  | futureBlockMessage (height : Nat)
  | inconsistentSubject
  | oldMessage
  | invalidMessage
  | unauthorizedAddress
  | waitNewRound
  | notFromProposer
  | timeoutMessage
  | unknown (msg : String)
  | engine (err : EngineError)
deriving DecidableEq, Repr

/-- `ConsensusResult`. -/
abbrev ConsensusResult := Except ConsensusError Unit

/-- `error::ChainError`. -/
inductive ChainError where
  | «exists» (hash : Hash)
  | unknown (msg : String)
deriving DecidableEq, Repr

/-- The functions whose `unwrap`s, assertions and checked arithmetic the
model keeps, to say where a panic happens. -/
inductive Site where
  | fnSelector
  | randonSeed
  | startNewZeroRound
  | startNewRound
  | sendNextRoundChange
  | sendPrepare
  | sendCommit
  | verifyCommit
  | commit
  | handleNewHeader
  | handlePreprepare
  | handlePrepare
  | setSign
  | encryptCommitBytes
  | transactionHash
  | transactionSignature
  | newMerkleTree
  | listPush
  | getBlock
  | getBlockByHeight
  | addBlock
  | insertBlock
  | reloadMeta
  | storeGenesisBlock
  | verifyHeader
  | verifySeal
  | commitSignature
  | backendCommit
  | maxRoundMoreThanN
  | decode
  | encode
  | handleServerEvent
  | zeroPeer
  | handleMsgMiddle
  | getTx
  | getNTx
  | addTx
  | removeTxs
deriving DecidableEq, Repr

/-- How a call ends without returning. -/
inductive Abort where
  /-- An `unwrap` (or `expect`) of `None` or `Err`. -/
  | unwrap (site : Site)
  /-- A failed `assert!`, `assert_eq!` or `assert_ne!`, in the code or in a
  library call it makes (`BytesMut::split_to` past the end). -/
  | assertion (site : Site)
  /-- Machine-integer arithmetic (`u64`, `u32`, `usize`) out of range (a panic in a
  debug build). -/
  | overflow (site : Site)
  /-- `serde_json::from_slice(..).unwrap()` of bytes of another type. -/
  | decode
  /-- A loop whose exit condition never holds. -/
  | loop (site : Site)
deriving DecidableEq, Repr

/-- `o.unwrap()`: the value, or a panic at `site`. -/
def unwrapAt {α : Type} (site : Site) : Option α → Except Abort α
  | some a => .ok a
  | none => .error (.unwrap site)

/-- `assert!(c)` at `site`. -/
def assertAt (site : Site) (c : Prop) [Decidable c] : Except Abort Unit :=
  if c then .ok () else .error (.assertion site)

/-- `a + b` on `u64` at `site`. -/
def u64Add (site : Site) (a b : Nat) : Except Abort Nat :=
  if a + b ≤ u64Max then .ok (a + b) else .error (.overflow site)

/-- `a - b` on `u64` at `site`. -/
def u64Sub (site : Site) (a b : Nat) : Except Abort Nat :=
  if b ≤ a then .ok (a - b) else .error (.overflow site)

@[simp] theorem unwrapAt_some {α : Type} (site : Site) (a : α) : unwrapAt site (some a) = .ok a := rfl

@[simp] theorem unwrapAt_none {α : Type} (site : Site) :
    unwrapAt site (none : Option α) = .error (.unwrap site) := rfl

theorem unwrapAt_eq_ok {α : Type} {site : Site} {o : Option α} {a : α} :
    unwrapAt site o = .ok a ↔ o = some a := by
  cases o <;> simp [unwrapAt]

theorem assertAt_eq_ok {site : Site} {c : Prop} [Decidable c] : assertAt site c = .ok () ↔ c := by
  unfold assertAt; split <;> simp_all

theorem u64Add_eq_ok {site : Site} {a b r : Nat} : u64Add site a b = .ok r ↔ a + b ≤ u64Max ∧ r = a + b := by
  unfold u64Add; split <;> simp_all [eq_comm]

theorem u64Sub_eq_ok {site : Site} {a b r : Nat} : u64Sub site a b = .ok r ↔ b ≤ a ∧ r = a - b := by
  unfold u64Sub; split <;> simp_all [eq_comm]

end ConsensusRs
