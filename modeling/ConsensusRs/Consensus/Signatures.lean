import ConsensusRs.Consensus.Handlers

/-!
# Envelope signatures and commit seals

A node signs every message it sends (`finalize_message`): `set_sign` signs
the keccak of the message's JSON with the signature left out, and a
receiver recovers the sender's address (`GossipMessage::address`) from the
JSON of the message it decoded. A commit carries a second signature, the
commit seal, which three functions encode three ways: `encrypt_commit_bytes`
signs `keccak(0x03 ‖ digest)`, `decrypt_commit_bytes` (which
`Votes::verify_signs` uses) takes a 9-byte packet, and
`HandleCommit::verify_commit` recovers with `verify_address` on the digest
itself.

Signatures are unforgeable (`KeyPair.Signs`); what `serde_json` and keccak
must tell apart is stated of the two messages at hand.

* `finalizeMessage_authenticated`: a message the node signed recovers to
  the node's address on the receiving side, and a message with its
  signature and other contents does not;
* `encryptCommitBytes_rejected`: a commit seal never decrypts on the
  digest's bytes, so `verify_signs` rejects it, and `verify_address`
  accepts it on the digest only if the digest is a fixed point of
  `keccak(0x03 ‖ ·)`; `encryptCommitBytes_roundtrip_toy` runs the three on
  one seal.
-/

namespace ConsensusRs

open Framework

variable (K : Extern)

/-! ## Messages on the wire -/

/-- `StorageValue::into_bytes` of a message, its JSON: every field but the
address, which serde skips. -/
def GossipMessage.intoBytes (m : GossipMessage) : List UInt8 :=
  K.jsonGossip m.code m.createTime m.msg m.signature m.commitSeal

/-- The fields of a message that its sign payload holds. -/
def GossipMessage.signedFields (m : GossipMessage) : MessageType × Nat × Body × Option Signature :=
  (m.code, m.createTime, m.msg, m.commitSeal)

/-- `serde_json` tells `x` and `y` apart: the same JSON means the same
serialized fields. -/
def GossipMessage.JsonDistinguishes (x y : GossipMessage) : Prop :=
  x.intoBytes K = y.intoBytes K → x.signature = y.signature ∧ x.signedFields = y.signedFields

variable {K}

/-- The sign payload is a function of the signed fields. -/
theorem GossipMessage.signPayload_of_signedFields {x y : GossipMessage} (h : x.signedFields = y.signedFields) :
    x.signPayload K = y.signPayload K := by
  simp only [signedFields, Prod.mk.injEq] at h
  obtain ⟨hc, ht, hm, hs⟩ := h
  simp only [signPayload, hc, ht, hm, hs]

/-- What `address` recovers depends on the signature and the sign payload
only. -/
theorem GossipMessage.recoverAddress_congr {x y : GossipMessage} (hs : x.signature = y.signature)
    (hp : x.signPayload K = y.signPayload K) : x.recoverAddress K = y.recoverAddress K := by
  unfold recoverAddress
  rw [hs, hp]

/-! ## Recovery of a signed message -/

section Signed

variable {kp : KeyPair} {m m₁ : GossipMessage}

/-- A message signed with an unforgeable key recovers to the key's
address. -/
theorem GossipMessage.recoverAddress_setSign (hk : kp.Signs K) (h : m.setSign K kp.secret = .ok m₁) :
    m₁.recoverAddress K = .ok (kp.address K) := by
  obtain ⟨sig, hsig, rfl⟩ := GossipMessage.setSign_eq_ok K h
  have hr : recoverBytes K sig (m.signPayload K) = some kp.publicKey := hk.recover_sign hsig
  simp only [recoverAddress, signPayload_signature, hr, KeyPair.address]

/-- A message that carries the signature of a signed one but has another
digest recovers to no key of the signer's address. -/
theorem GossipMessage.recoverAddress_ne_of_setSign (hk : kp.Signs K) (h : m.setSign K kp.secret = .ok m₁)
    {m₃ : GossipMessage} (hs : m₃.signature = m₁.signature) (hd : m₃.signDigest K ≠ m₁.signDigest K) :
    m₃.recoverAddress K ≠ .ok (kp.address K) := by
  obtain ⟨sig, hsig, rfl⟩ := GossipMessage.setSign_eq_ok K h
  intro ha
  simp only [recoverAddress, hs] at ha
  split at ha
  · rename_i p hp
    -- the key recovered on `m₃`'s digest has the signer's address: that is
    -- the digest signed
    have hdigest := hk.unforgeable hsig hp (Except.ok.inj ha)
    exact hd hdigest
  · cases ha

end Signed

/-! ## The keys of `Extern.toy` -/

theorem getElem_bytesOf {n : Nat} (bs : List UInt8) (i : Nat) (hi : i < n) : (bytesOf n bs)[i] = bs.getD i 0 := by
  simp [bytesOf]

/-- A toy signature's message is its bytes after the key byte. -/
theorem bytesOf_drop_one (k : UInt8) (h : Hash) : bytesOf 32 ((bytesOf 65 (k :: h.toList)).toList.drop 1) = h := by
  ext i hi
  have hi' : i + 1 < 65 := by omega
  simp [bytesOf, List.getD_eq_getElem?_getD, hi']

/-- Toy addresses tell the key bytes apart: the address of `toyPublic j`
starts with `j`. -/
theorem toyAddress_injective {j j' : UInt8}
    (h : publicToAddress Extern.toy (toyPublic j) = publicToAddress Extern.toy (toyPublic j')) : j = j' := by
  -- byte 0 of the address is byte 12 of the keccak, which keeps the key's bytes
  have hbyte : ∀ j : UInt8, (publicToAddress Extern.toy (toyPublic j))[0] = j := fun j => by
    rw [publicToAddress, Vector.getElem_ofFn]
    show (bytesOf 32 (toyPublic j).toList)[0 + 12] = j
    rw [getElem_bytesOf _ _ (by omega), List.getD_eq_getElem?_getD, Vector.getElem?_toList, toyPublic,
      Vector.getElem?_ofFn]
    rfl
  have h0 := congrArg (·[0]) h
  simp only [hbyte] at h0
  exact h0

/-- A toy key signs with its key byte. -/
theorem toyKey_sign (k : UInt8) (h : Hash) : Extern.toy.sign (toyKey k).secret h = some (bytesOf 65 (k :: h.toList)) := by
  simp only [Extern.toy, toyKey, getElem_bytesOf (n := 32) _ 0 (Nat.zero_lt_succ _), List.getD_cons_zero]

theorem toy_recover_sign (k : UInt8) (h h' : Hash) :
    Extern.toy.recover (bytesOf 65 (k :: h.toList)) h' = some (toyPublic (if h = h' then k else k + 128)) := by
  simp only [Extern.toy, bytesOf_drop_one, getElem_bytesOf (n := 65) _ 0 (Nat.zero_lt_succ _), List.getD_cons_zero]

theorem add_128_ne (k : UInt8) : k + 128 ≠ k := by
  intro h
  have h := congrArg UInt8.toNat h
  rw [UInt8.toNat_add] at h
  have hk := UInt8.toNat_lt k
  simp only [UInt8.reduceToNat] at h
  omega

/-- The toy keys are unforgeable: on another message a toy signature
recovers to the key of byte `k + 128`, whose address starts with that
byte. -/
theorem toyKey_signs (k : UInt8) : (toyKey k).Signs Extern.toy where
  recover_sign := by
    intro h sig hs
    rw [toyKey_sign, Option.some.injEq] at hs
    subst hs
    rw [toy_recover_sign, if_pos rfl]
    rfl
  unforgeable := by
    intro h h' sig p hs hr ha
    rw [toyKey_sign, Option.some.injEq] at hs
    subst hs
    rw [toy_recover_sign, Option.some.injEq] at hr
    subst hr
    by_contra hne
    rw [if_neg (Ne.symm hne)] at ha
    exact add_128_ne k (toyAddress_injective ha)

/-! ## Authenticated messages -/

variable (K) in
/-- What a message `m₁` signed with `kp` is worth on the wire.

* `received`: a message with `m₁`'s JSON recovers to the key's address.
  That is what `from_bytes` decodes from `m₁`'s bytes, when decoding and
  re-encoding give the same bytes and JSON tells the two apart;
* `forged`: a message with `m₁`'s signature and other signed fields does
  not, when JSON and keccak tell the two sign payloads apart. -/
structure Authenticated (kp : KeyPair) (m₁ : GossipMessage) : Prop where
  received : ∀ m₂ : GossipMessage, m₂.JsonDistinguishes K m₁ → m₂.intoBytes K = m₁.intoBytes K →
    m₂.recoverAddress K = .ok (kp.address K)
  forged : ∀ m₃ : GossipMessage, m₃.signature = m₁.signature → m₃.signedFields ≠ m₁.signedFields →
    GossipMessage.JsonDistinguishes K { m₃ with signature := none } { m₁ with signature := none } →
    (m₃.signDigest K = m₁.signDigest K → m₃.signPayload K = m₁.signPayload K) →
    m₃.recoverAddress K ≠ .ok (kp.address K)

/-- A message a node finalizes is authenticated by the node's key. -/
theorem finalizeMessage_authenticated {c : CoreState} {m m₁ : GossipMessage} (hk : c.keypair.Signs K)
    (h : c.finalizeMessage K m = .ok m₁) : Authenticated K c.keypair m₁ where
  received m₂ hjson hbytes := by
    obtain ⟨hsig, hfields⟩ := hjson hbytes
    rw [GossipMessage.recoverAddress_congr hsig (GossipMessage.signPayload_of_signedFields hfields)]
    exact GossipMessage.recoverAddress_setSign hk h
  forged m₃ hsig hne hjson hkeccak := by
    refine GossipMessage.recoverAddress_ne_of_setSign hk h hsig fun hd => hne ?_
    -- the sign payload is the JSON of the message without its signature
    exact (hjson (hkeccak hd)).2

/-- The node of key byte 2 finalizes a prepare. -/
theorem finalizeMessage_authenticated_toy :
    ∃ c m₁, Core.run Extern.toy (toyBackend 2) (toyKey 2) toyAddresses 100 = .ok c ∧ c.keypair.Signs Extern.toy ∧
      c.finalizeMessage Extern.toy (.new .prepare (.subject ⟨⟨0, 1⟩, emptyHash⟩) none) = .ok m₁ ∧
      Authenticated Extern.toy c.keypair m₁ := by
  have h := exists_of_okAnd (x := Core.run Extern.toy (toyBackend 2) (toyKey 2) toyAddresses 100)
    (p := fun c => okAnd (fun _ => decide (c.keypair = toyKey 2))
      (c.finalizeMessage Extern.toy (.new .prepare (.subject ⟨⟨0, 1⟩, emptyHash⟩) none))) (by decide)
  obtain ⟨c, hc, h⟩ := h
  obtain ⟨m₁, hm, hkp⟩ := exists_of_okAnd h
  have hk : c.keypair.Signs Extern.toy := (of_decide_eq_true hkp) ▸ toyKey_signs 2
  exact ⟨c, m₁, hc, hk, hm, finalizeMessage_authenticated hk hm⟩

/-! ## Commit seals -/

/-- A commit seal never decrypts on the digest's bytes, so `verify_signs`
rejects it; `verify_address` accepts it on the digest only if the digest is
the hash the seal signs. -/
theorem encryptCommitBytes_rejected {kp : KeyPair} {d : Hash} {«seal» : Signature} (hk : kp.Signs K)
    (h : encryptCommitBytes K d kp.secret = .ok «seal») :
    decryptCommitBytes K d.toList «seal» = .error "sign bytes size not equal SIGN_PACKET_SIZE" ∧
      Votes.verifySigns K ⟨[«seal»]⟩ d (fun x => decide (x = kp.address K)) = false ∧
      (verifyAddress K (kp.address K) «seal» d = .ok true →
        K.keccak (MessageType.commit.toNat.toUInt8 :: d.toList) = d) := by
  refine ⟨decryptCommitBytes_hash K d «seal», by rw [Votes.verifySigns_hash]; rfl, fun hv => ?_⟩
  obtain ⟨p, hp, hpa⟩ := verifyAddress_eq_ok_true K hv
  have hsign := Iff.mp unwrapAt_eq_ok h
  exact (hk.unforgeable hsign hp hpa.symm).symm

/-- The seal of the key of byte 2 over the empty hash. -/
theorem encryptCommitBytes_rejected_toy :
    ∃ «seal», (toyKey 2).Signs Extern.toy ∧ encryptCommitBytes Extern.toy emptyHash (toyKey 2).secret = .ok «seal» ∧
      decryptCommitBytes Extern.toy emptyHash.toList «seal» = .error "sign bytes size not equal SIGN_PACKET_SIZE" ∧
      Votes.verifySigns Extern.toy ⟨[«seal»]⟩ emptyHash (fun x => decide (x = (toyKey 2).address Extern.toy)) = false ∧
      (verifyAddress Extern.toy ((toyKey 2).address Extern.toy) «seal» emptyHash = .ok true →
        Extern.toy.keccak (MessageType.commit.toNat.toUInt8 :: emptyHash.toList) = emptyHash) :=
  ⟨_, toyKey_signs 2, rfl, encryptCommitBytes_rejected (toyKey_signs 2) rfl⟩

/-- The seal of the key of byte 2 over the empty hash: it does not decrypt
to the key's address, `verify_signs` rejects it, and `verify_address` gives
`Ok(false)` on the digest. -/
theorem encryptCommitBytes_roundtrip_toy :
    ∃ «seal», encryptCommitBytes Extern.toy emptyHash (toyKey 2).secret = .ok «seal» ∧
      decryptCommitBytes Extern.toy emptyHash.toList «seal» ≠ .ok ((toyKey 2).address Extern.toy) ∧
      Votes.verifySigns Extern.toy ⟨[«seal»]⟩ emptyHash (fun x => decide (x = (toyKey 2).address Extern.toy)) = false ∧
      verifyAddress Extern.toy ((toyKey 2).address Extern.toy) «seal» emptyHash = .ok false := by
  refine ⟨_, rfl, ?_, ?_, ?_⟩
  · rw [decryptCommitBytes_hash]
    exact fun h => nomatch h
  · rw [Votes.verifySigns_hash]
    rfl
  · decide

end ConsensusRs
