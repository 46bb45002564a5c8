import ConsensusRs.Types.Basic

/-!
# Hashing, signing and commit seals

The code hashes and signs through crates that are not in the repository:
`tiny-keccak` (keccak-256), `serde_json` (every hashed or signed value is
hashed as its JSON), `secp256k1` (signing and public-key recovery) and
`bigint` (`U128::from`). `Extern` holds them as functions; every definition
here is the repository's own code on top of them:

* `Header.blockHash`: the header's hash with its votes removed
  (`Header::block_hash`), which is the block's hash;
* `Transaction.hash`, `Transaction.verifySign`, with the `unwrap`s of
  `TransactionSignature::packet_hash` and `packet_signature`;
* `GossipMessage.setSign` and `GossipMessage.recoverAddress`, the envelope
  signature over `sign_payload`;
* `encryptCommitBytes`, `decryptCommitBytes` and `verifyAddress`, the three
  encodings of a commit seal, and `Votes.verifySigns` on top of the second.
-/

namespace ConsensusRs

/-- The functions of the crates outside the repository that the code calls. -/
structure Extern where
  /-- keccak-256 (`to_keccak`, `crypto::hash`, `Keccak256`). -/
  keccak : List UInt8 → Hash
  /-- `serde_json::to_vec` of a header. -/
  jsonHeader : Header → List UInt8
  /-- `serde_json::to_vec` of a transaction (`StorageValue::into_bytes`). -/
  jsonTransaction : Transaction → List UInt8
  /-- `serde_json::to_vec` of a `TransactionSignature`. -/
  jsonTransactionSignature : TransactionSignature → List UInt8
  /-- `serde_json::to_vec` of a gossip message: its fields other than the
  skipped `address`, in order. -/
  jsonGossip : MessageType → Nat → Body → Option Signature → Option Signature → List UInt8
  /-- `ethkey::sign`: a recoverable signature of a 32-byte message. -/
  sign : Secret → Hash → Option Signature
  /-- `ethkey::recover`: the public key a signature recovers to on a message. -/
  recover : Signature → Hash → Option Public
  /-- `bigint::U128::from([u8; 16])`. -/
  u128 : Vector UInt8 16 → Nat

variable (K : Extern)

/-! ## Blocks and transactions -/

/-- `CryptoHash::hash` of a header: keccak of its JSON. -/
def Header.hash (h : Header) : Hash := K.keccak (K.jsonHeader h)

/-- `Header::block_hash`: the hash of the header without its votes. -/
def Header.blockHash (h : Header) : Hash := Header.hash K { h with votes := none }

/-- `Block::hash`. -/
def Block.hash (b : Block) : Hash := b.header.blockHash K

/-- `Block::height`. -/
def Block.height (b : Block) : Nat := b.header.height

@[simp] theorem Block.height_def (b : Block) : b.height = b.header.height := rfl

/-- The block hash does not depend on the votes. -/
@[simp] theorem Header.blockHash_votes (h : Header) (v : Option Votes) :
    Header.blockHash K { h with votes := v } = h.blockHash K := rfl

/-- `TransactionSignature::packet_hash`: the JSON the hash is taken of, with
the signature. -/
def Transaction.packetHash (tx : Transaction) : Except Abort (List UInt8) := do
  let sign ← unwrapAt .transactionHash tx.signature
  let recipient ← unwrapAt .transactionHash tx.recipient
  pure (K.jsonTransactionSignature
    { accountNonce := tx.accountNonce, gasPrice := tx.gasPrice, gasLimit := tx.gasLimit,
      recipient, amount := tx.amount, payload := tx.payload, signature := some sign })

/-- `TransactionSignature::packet_signature`: the JSON that is signed. -/
def Transaction.packetSignature (tx : Transaction) : Except Abort (List UInt8) := do
  let recipient ← unwrapAt .transactionSignature tx.recipient
  pure (K.jsonTransactionSignature
    { accountNonce := tx.accountNonce, gasPrice := tx.gasPrice, gasLimit := tx.gasLimit,
      recipient, amount := tx.amount, payload := tx.payload, signature := none })

/-- `Transaction::hash`. -/
def Transaction.hash (tx : Transaction) : Except Abort Hash := do
  let bytes ← tx.packetHash K
  pure (K.keccak bytes)

/-- Hashing a transaction panics only at the `unwrap`s of its signature and
recipient. -/
theorem Transaction.hash_eq_error {tx : Transaction} {a : Abort} (h : tx.hash K = .error a) :
    a = .unwrap .transactionHash := by
  obtain ⟨_, _, _, _ | _, _, _, _ | _⟩ := tx <;>
    simp_all [Transaction.hash, Transaction.packetHash, bind, Except.bind, pure, Except.pure]

/-- `recover_bytes`: recovery on the keccak of the bytes. -/
def recoverBytes (sig : Signature) (bytes : List UInt8) : Option Public :=
  K.recover sig (K.keccak bytes)

/-- `Transaction::verify_sign`. -/
def Transaction.verifySign (tx : Transaction) : Except Abort Bool :=
  match tx.signature with
  | none => pure false
  | some sig => do
    let payload ← tx.packetSignature K
    pure (recoverBytes K sig payload).isSome

/-- Checking a transaction's signature panics only at the `unwrap` of its
recipient. -/
theorem Transaction.verifySign_eq_error {tx : Transaction} {a : Abort} (h : tx.verifySign K = .error a) :
    a = .unwrap .transactionSignature := by
  obtain ⟨_, _, _, _ | _, _, _, _ | _⟩ := tx <;>
    simp_all [Transaction.verifySign, Transaction.packetSignature, bind, Except.bind, pure, Except.pure]

/-! ## Addresses and envelope signatures -/

/-- `public_to_address`: the last 20 bytes of the keccak of the key. -/
def publicToAddress (p : Public) : Address :=
  Vector.ofFn fun i => (K.keccak p.toList)[i.val + 12]

/-- `KeyPair::address`. -/
def KeyPair.address (kp : KeyPair) : Address := publicToAddress K kp.publicKey

/-- What ECDSA gives a key pair whose public key is its secret's: a
signature it makes recovers to its public key on the message signed, and to
no key of its address on any other message. -/
structure KeyPair.Signs (kp : KeyPair) : Prop where
  recover_sign : ∀ {h sig}, K.sign kp.secret h = some sig → K.recover sig h = some kp.publicKey
  unforgeable : ∀ {h h' sig p}, K.sign kp.secret h = some sig → K.recover sig h' = some p →
    publicToAddress K p = kp.address K → h' = h

/-- `GossipMessage::sign_payload`: the JSON of the message without its
signature. -/
def GossipMessage.signPayload (m : GossipMessage) : List UInt8 :=
  K.jsonGossip m.code m.createTime m.msg none m.commitSeal

/-- `GossipMessage::sign_digest`. -/
def GossipMessage.signDigest (m : GossipMessage) : Hash := K.keccak (m.signPayload K)

/-- `GossipMessage::set_sign`. -/
def GossipMessage.setSign (m : GossipMessage) (secret : Secret) : Except Abort GossipMessage := do
  let signature ← unwrapAt .setSign (K.sign secret (m.signDigest K))
  pure { m with signature := some signature }

/-- `GossipMessage::address`, what it returns (it also stores the address
in the message). -/
def GossipMessage.recoverAddress (m : GossipMessage) : Except String Address :=
  match m.signature with
  | some sig =>
    match recoverBytes K sig (m.signPayload K) with
    | some pub => .ok (publicToAddress K pub)
    | none => .error "failed to recover public key from signature"
  | none => .error "invalid signature"

/-- The signature fields a sign payload leaves out: the payload of a
message is that of its signed copy. -/
@[simp] theorem GossipMessage.signPayload_signature (m : GossipMessage) (s : Option Signature) :
    GossipMessage.signPayload K { m with signature := s } = m.signPayload K := rfl

@[simp] theorem GossipMessage.signPayload_address (m : GossipMessage) (a : Address) :
    GossipMessage.signPayload K { m with address := a } = m.signPayload K := rfl

/-- What `set_sign` gives: the message with a signature of its digest. -/
theorem GossipMessage.setSign_eq_ok {m m' : GossipMessage} {secret : Secret} (h : m.setSign K secret = .ok m') :
    ∃ sig, K.sign secret (m.signDigest K) = some sig ∧ m' = { m with signature := some sig } := by
  unfold GossipMessage.setSign at h
  cases hs : K.sign secret (m.signDigest K) with
  | none => simp [hs] at h
  | some sig =>
    simp only [hs, unwrapAt_some, bind, Except.bind, pure, Except.pure, Except.ok.injEq] at h
    exact ⟨sig, rfl, h.symm⟩

/-! ## Commit seals -/

/-- `SIGN_PACKET_SIZE`. -/
def signPacketSize : Nat := 9

/-- `encrypt_commit_bytes`: a signature of `keccak(0x03 ‖ digest)`. -/
def encryptCommitBytes (digest : Hash) (secret : Secret) : Except Abort Signature :=
  unwrapAt .encryptCommitBytes
    (K.sign secret (K.keccak ((MessageType.commit.toNat.toUInt8) :: digest.toList)))

/-- `decrypt_commit_bytes`: only a 9-byte input is accepted, and the key is
recovered on `keccak(keccak(0x03 ‖ keccak(input)))`. -/
def decryptCommitBytes (input : List UInt8) (sig : Signature) : Except String Address :=
  if input.length ≠ signPacketSize then .error "sign bytes size not equal SIGN_PACKET_SIZE"
  else
    let digest := K.keccak input
    let digest := K.keccak ((MessageType.commit.toNat.toUInt8) :: digest.toList)
    match recoverBytes K sig digest.toList with
    | some pub => .ok (publicToAddress K pub)
    | none => .error "recover commit sign failed"

/-- `verify_address`: whether the signature recovers to the address on the
message; an error only when recovery fails. -/
def verifyAddress (address : Address) (sig : Signature) (message : Hash) : Except String Bool :=
  match K.recover sig message with
  | some pub => .ok (decide (address = publicToAddress K pub))
  | none => .error "recover failed"

/-- `verify_address` accepts exactly a signature that recovers, on the
message, to a key of the address. -/
theorem verifyAddress_eq_ok_true {a : Address} {sig : Signature} {message : Hash}
    (h : verifyAddress K a sig message = .ok true) :
    ∃ p, K.recover sig message = some p ∧ a = publicToAddress K p := by
  unfold verifyAddress at h
  split at h
  · rename_i p hp
    exact ⟨p, hp, of_decide_eq_true (Except.ok.inj h)⟩
  · cases h

/-- `Votes::len`. -/
def Votes.len (v : Votes) : Nat := v.votes.length

/-- `Votes::add_vote`: a seal already there is not added again. -/
def Votes.addVote (v : Votes) (vote : Signature) : Votes :=
  if vote ∈ v.votes then v else ⟨v.votes ++ [vote]⟩

/-- `Votes::add_votes`. -/
def Votes.addVotes (v : Votes) (votes : List Signature) : Votes := votes.foldl Votes.addVote v

theorem Votes.mem_addVote_of_mem {v : Votes} {x : Signature} (y : Signature) (h : x ∈ v.votes) :
    x ∈ (v.addVote y).votes := by
  unfold Votes.addVote
  split
  · exact h
  · exact List.mem_append_left _ h

theorem Votes.mem_addVote_self (v : Votes) (y : Signature) : y ∈ (v.addVote y).votes := by
  unfold Votes.addVote
  split
  · assumption
  · exact List.mem_append_right _ (List.mem_singleton_self y)

theorem Votes.mem_addVotes_of_mem {x : Signature} :
    ∀ {v : Votes} (seals : List Signature), x ∈ v.votes → x ∈ (v.addVotes seals).votes
  | _, [], h => h
  | _, y :: seals, h => Votes.mem_addVotes_of_mem (v := _) seals (Votes.mem_addVote_of_mem y h)

/-- Every seal added is held afterwards. -/
theorem Votes.mem_addVotes {y : Signature} :
    ∀ {v : Votes} {seals : List Signature}, y ∈ seals → y ∈ (v.addVotes seals).votes
  | v, x :: seals, h => by
    rcases List.mem_cons.mp h with rfl | h
    · exact Votes.mem_addVotes_of_mem (v := v.addVote y) seals (Votes.mem_addVote_self v y)
    · exact Votes.mem_addVotes (v := v.addVote x) h

/-- Adding seals that are all held already changes nothing. -/
theorem Votes.addVotes_of_mem :
    ∀ {v : Votes} {seals : List Signature}, (∀ y ∈ seals, y ∈ v.votes) → v.addVotes seals = v
  | _, [], _ => rfl
  | v, y :: seals, h => by
    have hy : v.addVote y = v := if_pos (h y List.mem_cons_self)
    change (v.addVote y).addVotes seals = v
    rw [hy]
    exact Votes.addVotes_of_mem fun x hx => h x (List.mem_cons_of_mem y hx)

/-- Adding the same seals twice adds them once. -/
theorem Votes.addVotes_addVotes (v : Votes) (seals : List Signature) :
    (v.addVotes seals).addVotes seals = v.addVotes seals :=
  Votes.addVotes_of_mem fun _ hy => Votes.mem_addVotes hy

/-- `Votes::verify_signs`: every seal decrypts, on the digest's bytes, to an
address the predicate accepts. -/
def Votes.verifySigns (v : Votes) (digest : Hash) (author : Address → Bool) : Bool :=
  v.votes.all fun sig =>
    match decryptCommitBytes K digest.toList sig with
    | .ok address => author address
    | .error _ => false

/-! ## A stand-in for the crates

`Extern.toy` runs the model on small inputs: keccak keeps the first 32 bytes
of its input, padded with zeros (so it is injective on short inputs without
trailing zeros); each JSON encoding keeps a few bytes of its value; a
signature is the signer's key byte followed by the message; and recovery
returns the signer's public key on the message it signed and another key on
any other message, as ECDSA public-key recovery does. -/

/-- The first `n` bytes of a list, padded with zeros. -/
def bytesOf (n : Nat) (bs : List UInt8) : Vector UInt8 n := Vector.ofFn fun i => bs.getD i.val 0

/-- The bytes of a message body in `Extern.toy`'s JSON. -/
def Body.toyBytes : Body → List UInt8
  | .subject s => [0, s.view.height.toUInt8, s.view.round.toUInt8] ++ s.digest.toList.take 4
  | .preprepare p => [1, p.view.height.toUInt8, p.view.round.toUInt8, p.proposal.block.header.time.toUInt8]
  | .raw bytes => 2 :: bytes

/-- The public key `Extern.toy` gives the key byte `k`: byte 12 is `k`, so
that the address (bytes 12 to 31 of its keccak) starts with `k`. -/
def toyPublic (k : UInt8) : Public := Vector.ofFn fun i => if i.val = 12 then k else 0

/-- The small stand-in for the crates. -/
def Extern.toy : Extern where
  keccak := bytesOf 32
  jsonHeader h := [h.height.toUInt8, h.time.toUInt8, h.proposer[0]] ++ h.prevHash.toList
  jsonTransaction tx := [tx.accountNonce.toUInt8]
  jsonTransactionSignature ts := [ts.accountNonce.toUInt8]
  jsonGossip code time body _ _ := [code.toNat.toUInt8, time.toUInt8] ++ body.toyBytes
  sign secret message := some (bytesOf 65 (secret[0] :: message.toList))
  recover sig message :=
    some (toyPublic (if bytesOf 32 (sig.toList.drop 1) = message then sig[0] else sig[0] + 128))
  u128 v := v[0].toNat

/-- A 32-byte digest is never a commit packet: `decrypt_commit_bytes` of a
hash's bytes always fails. -/
theorem decryptCommitBytes_hash (d : Hash) (sig : Signature) :
    decryptCommitBytes K d.toList sig = .error "sign bytes size not equal SIGN_PACKET_SIZE" := by
  simp [decryptCommitBytes, signPacketSize]

/-- Seals checked against a hash are never accepted: on a digest,
`verify_signs` holds exactly when there is no seal. -/
theorem Votes.verifySigns_hash (v : Votes) (d : Hash) (author : Address → Bool) :
    v.verifySigns K d author = v.votes.isEmpty := by
  obtain ⟨_ | ⟨sig, sigs⟩⟩ := v
  · rfl
  · simp [Votes.verifySigns, decryptCommitBytes_hash]

end ConsensusRs
