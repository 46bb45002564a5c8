import ConsensusRs.Types.Basic

/-!
# The peer-to-peer messages

The types of `src/p2p/protocol.rs` and the events a session sends its
server (`src/p2p/server.rs`). A `RawMessage` is a header and a payload of
bytes; on the socket it travels as its JSON, framed by its length
(`P2P/Codec.lean`).

`Wire` holds what the peer-to-peer code takes from `serde_json` and
`libp2p`: the JSON of a raw message and of a handshake, and the parsing of
a peer id from its base-58 text. A decoder returns `none` on bytes that are
no value's JSON, where the code's `from_bytes` panics.
-/

namespace ConsensusRs

/-- `libp2p::PeerId`, by its bytes. -/
abbrev PeerId := List UInt8

/-- `P2PMsgCode`. -/
inductive P2PMsgCode where
  | ping
  | handshake
  | transaction
  | block
  | consensus
  | sync
deriving DecidableEq, Repr

/-- `p2p::protocol::Header`. -/
structure RawHeader where
  code : P2PMsgCode
  ttl : Nat
  createTime : Nat
  peerId : Option (List UInt8)
deriving DecidableEq, Repr

/-- `RawMessage`. -/
structure RawMessage where
  header : RawHeader
  payload : List UInt8
deriving DecidableEq, Repr

/-- `Handshake`: the peer id is kept as the base-58 text the JSON holds. -/
structure Handshake where
  version : String
  peerId : String
  genesis : Hash
deriving DecidableEq, Repr

/-- `BoundType`. -/
inductive BoundType where
  | inBound
  | outBound
deriving DecidableEq, Repr

/-- The base-58 text of `ZERO_PEER`, the peer id an inbound session has until
its handshake. -/
def zeroPeerStr : String := "QmX5e9hkQf7B45e2MZf38vhsC2wfA5aKQrrBuLujwaUBGw"

/-- What the peer-to-peer code takes from `serde_json` and `libp2p`. -/
structure Wire where
  /-- `serde_json::to_vec` of a raw message (`StorageValue::into_bytes`). -/
  rawToBytes : RawMessage → List UInt8
  /-- `serde_json::from_slice` of a raw message. -/
  rawFromBytes : List UInt8 → Option RawMessage
  /-- `serde_json::from_slice` of a handshake. -/
  handshakeFromBytes : List UInt8 → Option Handshake
  /-- `PeerId::from_str`. -/
  peerIdFromStr : String → Option PeerId

/-- A stand-in for the crates: a raw message travels as its payload behind
its code's index, and a handshake as its genesis hash, with the peer id
`"1"`, which parses to the id `[1]`; `ZERO_PEER` parses to `[0]`. -/
def Wire.toy : Wire where
  rawToBytes m := (match m.header.code with
    | .ping => 0 | .handshake => 1 | .transaction => 2 | .block => 3 | .consensus => 4 | .sync => 5) :: m.payload
  rawFromBytes
    | c :: payload =>
      let code : Option P2PMsgCode := match c with
        | 0 => some .ping | 1 => some .handshake | 2 => some .transaction | 3 => some .block
        | 4 => some .consensus | 5 => some .sync | _ => none
      code.map fun code => ⟨⟨code, 0, 0, none⟩, payload⟩
    | [] => none
  handshakeFromBytes bs := if bs.length = 32 then some ⟨"0.1.1", "1", Vector.ofFn fun i => bs.getD i.val 0⟩ else none
  peerIdFromStr s := if s = "1" then some [1] else if s = zeroPeerStr then some [0] else none

end ConsensusRs
