import ConsensusRs.P2P.Protocol
import ConsensusRs.Types.Crypto
import ConsensusRs.Framework.Run
import ConsensusRs.Framework.Except
import Mathlib.Data.List.AList

/-!
# Sessions and the server

A node's peer-to-peer side (`src/p2p/session.rs`, `src/p2p/server.rs`): a
`Session` per connection reads the peer's messages and sends what they ask
of the server as `ServerEvent`s; the `TcpServer`'s event loop keeps the
peers that passed a handshake and hands the peers' data messages to the
consensus core (`handles`, which is `handle_msg_middle`).

The world (`World`) is the server and the sessions of its connections; its
events are the `select!` branches of both loops: a connection accepted or
opened, a session's read, the end of its socket, its handshake timer, and
the server's peer clean-up. A session sends its events to the server's
channel; the model handles each as it is sent, which is one order of that
channel, and the handshake's reply is what the server answers it.

* `handleServerEvent_connected_eq_ok`: a handshake is accepted exactly when
  its peer is not connected yet, is not the node itself, and has the node's
  genesis;
* `World.Inv.step`, `World.reachable_inv`: over every run, the node is never
  one of its own peers, and no session has handshaked as the node itself;
* `read_forwards_without_handshake`: a session forwards a block, consensus
  or sync message to the server whether or not its peer has handshaked,
  and the server hands it to the core.

Not modelled: the sessions' writes and pings to their peers (nothing of the
state changes), the `lru_time_cache` capacity and its refreshing of an entry
on access, and `add_peer`'s index into the addresses.
-/

namespace ConsensusRs

open Framework

/-- `P2PError`: the errors `handle_server_event` returns. -/
inductive P2PError where
  | handShakeFailed
  | differentGenesis
  | dumpConnected
deriving DecidableEq, Repr

/-- `ServerEvent`; a `WithReply`'s channel is the session waiting for it. -/
inductive ServerEvent where
  | connected (peerId : PeerId) (boundType : BoundType) (rawMsg : RawMessage)
  | disconnected (peerId : PeerId)
  | message (peerId : PeerId) (rawMsg : RawMessage)
  | ping (peerId : PeerId)
  | withReply (inner : ServerEvent)
deriving DecidableEq, Repr

/-- `ConnectInfo`, without the session's write channel. -/
structure ConnectInfo where
  connectTime : Nat
  boundType : BoundType
deriving DecidableEq, Repr

/-- The state of the `TcpServer`'s event loop. -/
structure TcpServer where
  /-- `node_info.0`. -/
  nodeId : PeerId
  genesis : Hash
  peers : AList fun _ : PeerId => ConnectInfo
  /-- The hashes of the messages handed to the core, with the time they
  were; an entry lives five seconds. -/
  cache : List (Hash × Nat)
  /-- The calls of `handles`, in order. -/
  handled : List (PeerId × RawMessage)
deriving DecidableEq

/-- `TcpServer::new`: no peers, an empty cache. -/
def TcpServer.new (peerId : PeerId) (genesis : Hash) : TcpServer :=
  ⟨peerId, genesis, ∅, [], []⟩

/-- `author_handshake(genesis)`, the server's `author_fn`. -/
def authorHandshake (genesis : Hash) (handshake : Handshake) : Bool :=
  handshake.genesis == genesis

/-- `LruCache::get` with a five-second expiry: an entry of the hash younger
than that. -/
def cacheGet (cache : List (Hash × Nat)) (now : Nat) (hash : Hash) : Bool :=
  cache.any fun e => e.1 == hash && now < e.2 + 5000

/-- The server's `peer_cleanup` tick: the peers not connected or pinged for
more than three whole seconds are collected, then removed. -/
def TcpServer.peerCleanup (srv : TcpServer) (now : Nat) : TcpServer :=
  let toRemove := srv.peers.entries.filterMap fun e =>
    if (now - e.2.connectTime) / 1000 > 3 then some e.1 else none
  { srv with peers := toRemove.foldl (fun peers peer => peers.erase peer) srv.peers }

variable (K : Extern) (W : Wire)

/-- `StorageValue::from_bytes` of a handshake, which panics on bytes that
are no handshake's JSON. -/
def Handshake.fromBytes (bytes : List UInt8) : Except Abort Handshake :=
  match W.handshakeFromBytes bytes with
  | some handshake => .ok handshake
  | none => .error .decode

/-- `Handshake::peer_id`: `PeerId::from_str(..).unwrap()`. -/
def Handshake.peerId' (handshake : Handshake) : Except Abort PeerId :=
  unwrapAt .handleServerEvent (W.peerIdFromStr handshake.peerId)

/-- `CryptoHash::hash` of a raw message: keccak of its JSON. -/
def RawMessage.hash (msg : RawMessage) : Hash :=
  K.keccak (W.rawToBytes msg)

/-- `handle_server_event` at time `now`: the server after, and the result a
`WithReply` answers. -/
def handleServerEvent (srv : TcpServer) (now : Nat) : ServerEvent → Except Abort (TcpServer × Except P2PError PeerId)
  | .connected _ boundType rawMsg => do
    let handshake ← Handshake.fromBytes W rawMsg.payload
    let peerId ← handshake.peerId' W
    pure <|
      if peerId ∈ srv.peers then (srv, .error .dumpConnected)
      -- `node_info.0 == handshake.peer_id()` parses the id a second time,
      -- to the same peer
      else if srv.nodeId = peerId then (srv, .error .handShakeFailed)
      else if !authorHandshake srv.genesis handshake then (srv, .error .differentGenesis)
      else ({ srv with peers := srv.peers.insert peerId ⟨now, boundType⟩ }, .ok peerId)
  | .disconnected peerId => pure ({ srv with peers := srv.peers.erase peerId }, .ok peerId)
  | .ping peerId =>
    let peers := match srv.peers.lookup peerId with
      | some info => srv.peers.insert peerId { info with connectTime := now }
      | none => srv.peers
    pure ({ srv with peers }, .ok peerId)
  | .message peerId rawMsg =>
    let hash := rawMsg.hash K W
    if now < rawMsg.header.createTime then pure (srv, .ok peerId)
    else if cacheGet srv.cache now hash then pure (srv, .ok peerId)
    else pure ({ srv with cache := (hash, now) :: srv.cache, handled := srv.handled ++ [(peerId, rawMsg)] }, .ok peerId)
  | .withReply inner => handleServerEvent srv now inner

/-- A session's state. The server handle and the write channel are the
server of the world and the writes the model leaves out. -/
structure Session where
  peerId : PeerId
  localId : PeerId
  boundType : BoundType
  handshaked : Bool
  genesis : Hash
deriving DecidableEq, Repr

/-- `Session::new`: not handshaked. -/
def Session.new (peerId localId : PeerId) (boundType : BoundType) (genesis : Hash) : Session :=
  ⟨peerId, localId, boundType, false, genesis⟩

/-- `Session::handle_message` at time `now`: the server after the events the
session sends it, and `Ok` with the session after or `Err(())`, which ends
the session's run. -/
def Session.handleMessage (s : Session) (srv : TcpServer) (now : Nat) (msg : RawMessage) :
    Except Abort (TcpServer × Except Unit Session) :=
  match msg.header.code with
  | .handshake => do
    let (srv, result) ← handleServerEvent K W srv now (.withReply (.connected s.peerId s.boundType msg))
    match result with
    | .ok peerId => pure (srv, .ok { s with handshaked := true, peerId := peerId })
    | .error _ => pure (srv, .error ())
  | .block | .consensus | .sync => do
    let (srv, _) ← handleServerEvent K W srv now (.message s.peerId msg)
    pure (srv, .ok s)
  | .ping => do
    let (srv, _) ← handleServerEvent K W srv now (.ping s.peerId)
    pure (srv, .ok s)
  | .transaction => pure (srv, .error ())

/-- The end of `Session::run`: a handshaked session tells the server it is
gone. -/
def Session.close (s : Session) (srv : TcpServer) (now : Nat) : Except Abort TcpServer :=
  if s.handshaked then do
    let (srv, _) ← handleServerEvent K W srv now (.disconnected s.peerId)
    pure srv
  else pure srv

/-- The server and the sessions of its connections, by the order they were
opened; `none` for a session whose run has ended. -/
structure World where
  server : TcpServer
  sessions : List (Option Session)
deriving DecidableEq

/-- The `select!` branches of the server's and the sessions' loops. -/
inductive WorldEvent where
  /-- `listener.accept()`: an inbound session, for `ZERO_PEER` until its
  handshake. -/
  | accept
  /-- `add_peer(remote_id, ..)` and its connection: an outbound session. -/
  | addPeer (remoteId : PeerId)
  /-- Session `i`'s `framed_read` yields a message. -/
  | read (i : Nat) (msg : RawMessage) (now : Nat)
  /-- Session `i`'s `framed_read` ends or fails. -/
  | readEnd (i : Nat) (now : Nat)
  /-- Session `i`'s `handshake_timeout` ticks. -/
  | handshakeTimeout (i : Nat) (now : Nat)
  /-- The server's `peer_cleanup` ticks. -/
  | peerCleanup (now : Nat)
deriving DecidableEq, Repr

/-- A node that has just started its server. -/
def World.init (nodeId : PeerId) (genesis : Hash) : World :=
  ⟨TcpServer.new nodeId genesis, []⟩

/-- Session `i`'s run ends. -/
def World.endSession (w : World) (i : Nat) (s : Session) (now : Nat) : Except Abort World := do
  let srv ← s.close K W w.server now
  pure ⟨srv, w.sessions.set i none⟩

/-- One event of the world. -/
def World.step (w : World) : WorldEvent → Except Abort World
  | .accept => do
    let zeroPeer ← unwrapAt .zeroPeer (W.peerIdFromStr zeroPeerStr)
    pure { w with sessions := w.sessions ++ [some (.new zeroPeer w.server.nodeId .inBound w.server.genesis)] }
  | .addPeer remoteId =>
    if remoteId ∈ w.server.peers then pure w
    else pure { w with sessions := w.sessions ++ [some (.new remoteId w.server.nodeId .outBound w.server.genesis)] }
  | .read i msg now =>
    match w.sessions[i]? with
    | some (some s) => do
      let (srv, result) ← s.handleMessage K W w.server now msg
      match result with
      | .ok s' => pure ⟨srv, w.sessions.set i (some s')⟩
      | .error () => World.endSession K W ⟨srv, w.sessions⟩ i s now
    | _ => pure w
  | .readEnd i now =>
    match w.sessions[i]? with
    | some (some s) => w.endSession K W i s now
    | _ => pure w
  | .handshakeTimeout i now =>
    match w.sessions[i]? with
    | some (some s) => if s.handshaked then pure w else w.endSession K W i s now
    | _ => pure w
  | .peerCleanup now => pure { w with server := w.server.peerCleanup now }

/-! ## The server -/

section Server

variable {K W} {srv srv' : TcpServer} {now : Nat}

/-! The clauses of `handleServerEvent`, one per event. The lemmas below
rewrite with them and never unfold the definition. -/

theorem handleServerEvent_connected (p : PeerId) (b : BoundType) (m : RawMessage) :
    handleServerEvent K W srv now (.connected p b m) = (do
      let handshake ← Handshake.fromBytes W m.payload
      let peerId ← handshake.peerId' W
      pure <|
        if peerId ∈ srv.peers then (srv, .error .dumpConnected)
        else if srv.nodeId = peerId then (srv, .error .handShakeFailed)
        else if !authorHandshake srv.genesis handshake then (srv, .error .differentGenesis)
        else ({ srv with peers := srv.peers.insert peerId ⟨now, b⟩ }, .ok peerId)) :=
  rfl

theorem handleServerEvent_disconnected (p : PeerId) :
    handleServerEvent K W srv now (.disconnected p) = .ok ({ srv with peers := srv.peers.erase p }, .ok p) :=
  rfl

theorem handleServerEvent_ping (p : PeerId) :
    handleServerEvent K W srv now (.ping p) =
      .ok ({ srv with
        peers := match srv.peers.lookup p with
          | some info => srv.peers.insert p { info with connectTime := now }
          | none => srv.peers }, .ok p) :=
  rfl

theorem handleServerEvent_message (p : PeerId) (m : RawMessage) :
    handleServerEvent K W srv now (.message p m) =
      if now < m.header.createTime then .ok (srv, .ok p)
      else if cacheGet srv.cache now (m.hash K W) then .ok (srv, .ok p)
      else .ok ({ srv with cache := (m.hash K W, now) :: srv.cache, handled := srv.handled ++ [(p, m)] }, .ok p) :=
  rfl

@[simp] theorem handleServerEvent_withReply (inner : ServerEvent) :
    handleServerEvent K W srv now (.withReply inner) = handleServerEvent K W srv now inner := rfl

/-- What a handshake does: it is refused, with the server as it was, or it
is accepted for a peer that is not connected yet, is not the node itself,
and has the node's genesis, and the peer is added. -/
theorem handleServerEvent_connected_cases {p : PeerId} {b : BoundType} {m : RawMessage}
    {r : Except P2PError PeerId} (h : handleServerEvent K W srv now (.connected p b m) = .ok (srv', r)) :
    (srv' = srv ∧ ∃ e, r = .error e) ∨
      ∃ hs q, W.handshakeFromBytes m.payload = some hs ∧ W.peerIdFromStr hs.peerId = some q ∧
        q ∉ srv.peers ∧ srv.nodeId ≠ q ∧ hs.genesis = srv.genesis ∧
        srv' = { srv with peers := srv.peers.insert q ⟨now, b⟩ } ∧ r = .ok q := by
  rw [handleServerEvent_connected] at h
  simp only [Handshake.fromBytes, Handshake.peerId'] at h
  cases hh : W.handshakeFromBytes m.payload with
  | none => simp [hh] at h
  | some hs =>
    cases hq : W.peerIdFromStr hs.peerId with
    | none => simp [hh, hq] at h
    | some q =>
      simp only [hh, hq, ok_bind, unwrapAt_some, pure_eq_ok] at h
      split_ifs at h with hmem hself hgen
      all_goals
        obtain ⟨rfl, rfl⟩ := Prod.mk.inj h
      · exact .inl ⟨rfl, _, rfl⟩
      · exact .inl ⟨rfl, _, rfl⟩
      · exact .inl ⟨rfl, _, rfl⟩
      · simp only [authorHandshake, Bool.not_eq_true', beq_eq_false_iff_ne, ne_eq, not_not] at hgen
        exact .inr ⟨hs, q, rfl, hq, hmem, hself, hgen, rfl, rfl⟩

/-- A handshake is accepted exactly when it decodes to a peer that is not
connected yet, is not the node itself, and has the node's genesis; the peer
is then added. -/
theorem handleServerEvent_connected_eq_ok {p q : PeerId} {b : BoundType} {m : RawMessage} :
    handleServerEvent K W srv now (.connected p b m) = .ok (srv', .ok q) ↔
      ∃ hs, W.handshakeFromBytes m.payload = some hs ∧ W.peerIdFromStr hs.peerId = some q ∧
        q ∉ srv.peers ∧ srv.nodeId ≠ q ∧ hs.genesis = srv.genesis ∧
        srv' = { srv with peers := srv.peers.insert q ⟨now, b⟩ } := by
  constructor
  · intro h
    rcases handleServerEvent_connected_cases h with ⟨-, e, he⟩ | ⟨hs, q', hh, hq, hmem, hself, hgen, rfl, hr⟩
    · cases he
    · cases hr
      exact ⟨hs, hh, hq, hmem, hself, hgen, rfl⟩
  · rintro ⟨hs, hh, hq, hmem, hself, hgen, rfl⟩
    have hauth : authorHandshake srv.genesis hs = true := by simp [authorHandshake, hgen]
    rw [handleServerEvent_connected]
    simp [Handshake.fromBytes, Handshake.peerId', hh, hq, hmem, hself, hauth]

/-- The node is not one of its peers. -/
def TcpServer.Sound (srv : TcpServer) : Prop :=
  srv.nodeId ∉ srv.peers

/-- What every server event keeps: the node's id and genesis, and that the
node is not one of its peers. -/
theorem handleServerEvent_sound {ev : ServerEvent} {r : Except P2PError PeerId} (hn : srv.Sound)
    (h : handleServerEvent K W srv now ev = .ok (srv', r)) :
    srv'.nodeId = srv.nodeId ∧ srv'.genesis = srv.genesis ∧ srv'.Sound := by
  induction ev with
  | connected p b m =>
    rcases handleServerEvent_connected_cases h with ⟨rfl, -⟩ | ⟨hs, q, -, -, -, hself, -, rfl, -⟩
    · exact ⟨rfl, rfl, hn⟩
    · refine ⟨rfl, rfl, ?_⟩
      simp only [TcpServer.Sound, AList.mem_insert, not_or]
      exact ⟨hself, hn⟩
  | disconnected p =>
    rw [handleServerEvent_disconnected, Except.ok.injEq, Prod.mk.injEq] at h
    obtain ⟨rfl, -⟩ := h
    refine ⟨rfl, rfl, ?_⟩
    simp only [TcpServer.Sound, AList.mem_erase, not_and]
    exact fun _ hmem => hn hmem
  | ping p =>
    rw [handleServerEvent_ping, Except.ok.injEq, Prod.mk.injEq] at h
    obtain ⟨rfl, -⟩ := h
    refine ⟨rfl, rfl, ?_⟩
    -- a ping refreshes a peer that is already there, so not the node
    cases hp : srv.peers.lookup p with
    | none => exact hn
    | some info =>
      have hpeer : p ∈ srv.peers := AList.lookup_isSome.mp (by simp [hp])
      simp only [TcpServer.Sound, AList.mem_insert, not_or]
      exact ⟨fun he => hn (he ▸ hpeer), hn⟩
  | message p m =>
    rw [handleServerEvent_message] at h
    split_ifs at h <;> rw [Except.ok.injEq, Prod.mk.injEq] at h <;> obtain ⟨rfl, -⟩ := h
    all_goals exact ⟨rfl, rfl, hn⟩
  | withReply inner ih => exact ih h

/-- A handshake is never accepted for the node itself. -/
theorem handleServerEvent_connected_ne {p q : PeerId} {b : BoundType} {m : RawMessage}
    (h : handleServerEvent K W srv now (.connected p b m) = .ok (srv', .ok q)) : q ≠ srv.nodeId := by
  obtain ⟨-, -, -, -, hself, -⟩ := Iff.mp handleServerEvent_connected_eq_ok h
  exact Ne.symm hself

/-- A message that is not from the future and was not handed to the core in
the last five seconds is handed to it now. -/
theorem handleServerEvent_message_fresh {p : PeerId} {msg : RawMessage} (hnow : msg.header.createTime ≤ now)
    (hfresh : cacheGet srv.cache now (msg.hash K W) = false) :
    handleServerEvent K W srv now (.message p msg) =
      .ok ({ srv with cache := (msg.hash K W, now) :: srv.cache, handled := srv.handled ++ [(p, msg)] }, .ok p) := by
  have hlate : ¬ now < msg.header.createTime := Nat.not_lt.mpr hnow
  rw [handleServerEvent_message, if_neg hlate, hfresh]
  rfl

/-- Removing keys one after another keeps a key out. -/
theorem not_mem_foldl_erase {α : Type} {β : α → Type} [DecidableEq α] {a : α} (toRemove : List α) {s : AList β}
    (h : a ∉ s) : a ∉ toRemove.foldl (fun s k => s.erase k) s := by
  induction toRemove generalizing s with
  | nil => exact h
  | cons k rest ih =>
    rw [List.foldl_cons]
    exact ih (by rw [AList.mem_erase]; exact fun hk => h hk.2)

/-- The peer clean-up keeps the node out of the peers: it only removes. -/
theorem TcpServer.Sound.peerCleanup (hn : srv.Sound) (now : Nat) : (srv.peerCleanup now).Sound :=
  not_mem_foldl_erase _ hn

end Server

/-! ## Sessions -/

section Sessions

variable {K W} {srv srv' : TcpServer} {now : Nat}

/-- A session that has handshaked did so as a peer other than the node. -/
def Session.Sound (nodeId : PeerId) (s : Session) : Prop :=
  s.handshaked = true → s.peerId ≠ nodeId

theorem Session.sound_new (peerId localId : PeerId) (boundType : BoundType) (genesis : Hash) (nodeId : PeerId) :
    (Session.new peerId localId boundType genesis).Sound nodeId := by
  simp [Session.Sound, Session.new]

/-- What a session's message keeps: the server's id, genesis and soundness;
and a session that goes on is sound. -/
theorem Session.handleMessage_sound {s : Session} {msg : RawMessage} {r : Except Unit Session} (hn : srv.Sound)
    (hs : s.Sound srv.nodeId) (h : s.handleMessage K W srv now msg = .ok (srv', r)) :
    srv'.nodeId = srv.nodeId ∧ srv'.genesis = srv.genesis ∧ srv'.Sound ∧ ∀ s', r = .ok s' → s'.Sound srv.nodeId := by
  unfold Session.handleMessage at h
  split at h
  · -- the handshake waits for the server's reply
    obtain ⟨⟨srv₁, result⟩, hev, hk⟩ := Iff.mp bind_eq_ok h
    obtain ⟨hid, hgen, hsound⟩ := handleServerEvent_sound hn hev
    cases result with
    | ok q =>
      simp only [pure_eq_ok, Prod.mk.injEq] at hk
      obtain ⟨rfl, rfl⟩ := hk
      rw [handleServerEvent_withReply] at hev
      refine ⟨hid, hgen, hsound, ?_⟩
      rintro s' ⟨⟩ -
      exact handleServerEvent_connected_ne hev
    | error e =>
      simp only [pure_eq_ok, Prod.mk.injEq] at hk
      obtain ⟨rfl, rfl⟩ := hk
      exact ⟨hid, hgen, hsound, by rintro s' ⟨⟩⟩
  case h_2 | h_3 | h_4 | h_5 =>
    obtain ⟨⟨srv₁, result⟩, hev, hk⟩ := Iff.mp bind_eq_ok h
    obtain ⟨hid, hgen, hsound⟩ := handleServerEvent_sound hn hev
    simp only [pure_eq_ok, Prod.mk.injEq] at hk
    obtain ⟨rfl, rfl⟩ := hk
    exact ⟨hid, hgen, hsound, by rintro s' ⟨⟩; exact hs⟩
  case h_6 =>
    simp only [pure_eq_ok, Prod.mk.injEq] at h
    obtain ⟨rfl, rfl⟩ := h
    exact ⟨rfl, rfl, hn, by rintro s' ⟨⟩⟩

/-- A block, consensus or sync message is sent on to the server, whatever
the session's state, and the session goes on as it was. -/
theorem Session.handleMessage_data {s : Session} {msg : RawMessage}
    (hcode : msg.header.code = .block ∨ msg.header.code = .consensus ∨ msg.header.code = .sync) :
    s.handleMessage K W srv now msg = (fun r => (r.1, .ok s)) <$> handleServerEvent K W srv now (.message s.peerId msg) := by
  unfold Session.handleMessage
  rcases hcode with h | h | h <;> rw [h] <;> cases handleServerEvent K W srv now (.message s.peerId msg) <;> rfl

/-- The end of a session keeps the server's id, genesis and soundness. -/
theorem Session.close_sound {s : Session} (hn : srv.Sound) (h : s.close K W srv now = .ok srv') :
    srv'.nodeId = srv.nodeId ∧ srv'.genesis = srv.genesis ∧ srv'.Sound := by
  unfold Session.close at h
  split at h
  · obtain ⟨⟨srv₁, result⟩, hev, hk⟩ := Iff.mp bind_eq_ok h
    simp only [pure_eq_ok] at hk
    exact hk ▸ handleServerEvent_sound hn hev
  · simp only [pure_eq_ok] at h
    exact h ▸ ⟨rfl, rfl, hn⟩

end Sessions

/-! ## The world -/

section World

variable {K W}

/-! The clauses of `World.step` that the invariant proofs rewrite with, in
place of unfolding it. -/

theorem World.step_addPeer (w : World) (remoteId : PeerId) :
    w.step K W (.addPeer remoteId) =
      if remoteId ∈ w.server.peers then pure w
      else pure { w with sessions := w.sessions ++ [some (.new remoteId w.server.nodeId .outBound w.server.genesis)] } :=
  rfl

theorem World.step_read (w : World) (i : Nat) (msg : RawMessage) (now : Nat) :
    w.step K W (.read i msg now) =
      match w.sessions[i]? with
      | some (some s) => do
        let (srv, result) ← s.handleMessage K W w.server now msg
        match result with
        | .ok s' => pure ⟨srv, w.sessions.set i (some s')⟩
        | .error () => World.endSession K W ⟨srv, w.sessions⟩ i s now
      | _ => pure w :=
  rfl

/-- A read on a slot that holds a session hands the message to it. -/
theorem World.step_read_of_get {w : World} {i : Nat} {s : Session} (hs : w.sessions[i]? = some (some s))
    (msg : RawMessage) (now : Nat) :
    w.step K W (.read i msg now) = (do
      let (srv, result) ← s.handleMessage K W w.server now msg
      match result with
      | .ok s' => pure ⟨srv, w.sessions.set i (some s')⟩
      | .error () => World.endSession K W ⟨srv, w.sessions⟩ i s now) := by
  rw [World.step_read, hs]

theorem World.step_readEnd (w : World) (i now : Nat) :
    w.step K W (.readEnd i now) =
      match w.sessions[i]? with
      | some (some s) => w.endSession K W i s now
      | _ => pure w :=
  rfl

theorem World.step_handshakeTimeout (w : World) (i now : Nat) :
    w.step K W (.handshakeTimeout i now) =
      match w.sessions[i]? with
      | some (some s) => if s.handshaked then pure w else w.endSession K W i s now
      | _ => pure w :=
  rfl

theorem World.step_peerCleanup (w : World) (now : Nat) :
    w.step K W (.peerCleanup now) = .ok { w with server := w.server.peerCleanup now } :=
  rfl

/-- The world invariant: the node is not one of its peers, and no session
has handshaked as the node. -/
structure World.Inv (w : World) : Prop where
  server : w.server.Sound
  sessions : ∀ s, some s ∈ w.sessions → s.Sound w.server.nodeId

theorem World.Inv.init (nodeId : PeerId) (genesis : Hash) : (World.init nodeId genesis).Inv :=
  ⟨by simp [TcpServer.Sound, World.init, TcpServer.new], by simp [World.init]⟩

/-- Replacing a session by a sound one, or ending it, keeps the sessions
sound. -/
theorem sound_of_mem_set {ss : List (Option Session)} {nodeId : PeerId} (hss : ∀ s, some s ∈ ss → s.Sound nodeId)
    {i : Nat} {o : Option Session} (ho : ∀ s, o = some s → s.Sound nodeId) :
    ∀ s, some s ∈ ss.set i o → s.Sound nodeId := by
  intro s hmem
  rcases List.mem_or_eq_of_mem_set hmem with h | h
  · exact hss s h
  · exact ho s h.symm

/-- A new session, inbound or outbound, keeps the invariant. -/
theorem World.Inv.addSession {w : World} (hw : w.Inv) (peerId : PeerId) (boundType : BoundType) :
    World.Inv { w with sessions := w.sessions ++ [some (.new peerId w.server.nodeId boundType w.server.genesis)] } := by
  refine ⟨hw.server, fun s hmem => ?_⟩
  rcases List.mem_append.mp hmem with h | h
  · exact hw.sessions s h
  · rw [List.mem_singleton, Option.some.injEq] at h
    subst h
    exact Session.sound_new _ _ _ _ _

theorem World.Inv.endSession {w w' : World} {i : Nat} {s : Session} {now : Nat} (hw : w.Inv)
    (h : w.endSession K W i s now = .ok w') : w'.Inv ∧ w'.server.nodeId = w.server.nodeId := by
  obtain ⟨srv, hclose, hk⟩ := Iff.mp bind_eq_ok h
  rw [pure_eq_ok] at hk
  subst hk
  obtain ⟨hid, -, hsound⟩ := Session.close_sound hw.server hclose
  refine ⟨⟨hsound, ?_⟩, hid⟩
  dsimp only
  rw [hid]
  exact sound_of_mem_set hw.sessions (by rintro _ ⟨⟩)

/-- A session's read keeps the invariant and the node's id. -/
theorem World.Inv.read {w w' : World} {i : Nat} {s : Session} {msg : RawMessage} {now : Nat} (hw : w.Inv)
    (hs : w.sessions[i]? = some (some s)) (h : w.step K W (.read i msg now) = .ok w') :
    w'.Inv ∧ w'.server.nodeId = w.server.nodeId := by
  rw [World.step_read_of_get hs] at h
  obtain ⟨⟨srv, result⟩, hmsg, hk⟩ := Iff.mp bind_eq_ok h
  have hs' : s.Sound w.server.nodeId := hw.sessions s (List.mem_of_getElem? hs)
  obtain ⟨hid, -, hsound, hgo⟩ := Session.handleMessage_sound hw.server hs' hmsg
  cases result with
  | ok s' =>
    rw [pure_eq_ok] at hk
    subst hk
    refine ⟨⟨hsound, ?_⟩, hid⟩
    dsimp only
    rw [hid]
    exact sound_of_mem_set hw.sessions (by rintro _ ⟨⟩; exact hgo s' rfl)
  | error u =>
    -- the session ends after the server has handled what it sent
    have hw₁ : World.Inv ⟨srv, w.sessions⟩ := ⟨hsound, by dsimp only; rw [hid]; exact hw.sessions⟩
    obtain ⟨hinv, hid'⟩ := hw₁.endSession hk
    exact ⟨hinv, hid'.trans hid⟩

/-- Every event of the world keeps the invariant and the node's id. -/
theorem World.Inv.step {w w' : World} {e : WorldEvent} (hw : w.Inv) (h : w.step K W e = .ok w') :
    w'.Inv ∧ w'.server.nodeId = w.server.nodeId := by
  cases e with
  | accept =>
    obtain ⟨zeroPeer, -, hk⟩ := Iff.mp bind_eq_ok h
    rw [pure_eq_ok] at hk
    exact hk ▸ ⟨hw.addSession zeroPeer .inBound, rfl⟩
  | addPeer remoteId =>
    rw [World.step_addPeer] at h
    split at h <;> rw [pure_eq_ok] at h <;> subst h
    · exact ⟨hw, rfl⟩
    · exact ⟨hw.addSession remoteId .outBound, rfl⟩
  | read i msg now =>
    match hs : w.sessions[i]? with
    | some (some s) => exact hw.read hs h
    | some none | none =>
      rw [World.step_read, hs, pure_eq_ok] at h
      exact h ▸ ⟨hw, rfl⟩
  | readEnd i now =>
    rw [World.step_readEnd] at h
    split at h
    · exact hw.endSession h
    · rw [pure_eq_ok] at h
      exact h ▸ ⟨hw, rfl⟩
  | handshakeTimeout i now =>
    rw [World.step_handshakeTimeout] at h
    split at h
    · split at h
      · rw [pure_eq_ok] at h
        exact h ▸ ⟨hw, rfl⟩
      · exact hw.endSession h
    · rw [pure_eq_ok] at h
      exact h ▸ ⟨hw, rfl⟩
  | peerCleanup now =>
    rw [World.step_peerCleanup, Except.ok.injEq] at h
    exact h ▸ ⟨⟨hw.server.peerCleanup now, hw.sessions⟩, rfl⟩

/-- The invariant holds over every run from a node's start, and the node's
id stays the one it started with. -/
theorem World.reachable_inv {nodeId : PeerId} {genesis : Hash} {w : World}
    (h : Reachable (World.step K W) (World.init nodeId genesis) w) : w.Inv ∧ w.server.nodeId = nodeId := by
  apply h.inv ⟨World.Inv.init nodeId genesis, rfl⟩
  rintro w₁ e w₂ ⟨hw, hid⟩ hstep
  obtain ⟨hw', hid'⟩ := hw.step hstep
  exact ⟨hw', hid'.trans hid⟩

/-- Over every run of a node's server and sessions, the node is never one of
its own peers, and no session has handshaked as the node itself. -/
theorem reachable_never_self {nodeId : PeerId} {genesis : Hash} {w : World}
    (h : Reachable (World.step K W) (World.init nodeId genesis) w) :
    nodeId ∉ w.server.peers ∧ ∀ s, some s ∈ w.sessions → s.handshaked = true → s.peerId ≠ nodeId := by
  obtain ⟨hw, hid⟩ := World.reachable_inv h
  rw [← hid]
  exact ⟨hw.server, hw.sessions⟩

/-- A node `[9]` accepts an inbound peer's handshake, with the peer id `[1]`. -/
theorem reachable_never_self_toy :
    ∃ w, Reachable (World.step Extern.toy Wire.toy) (World.init [9] emptyHash) w ∧
      some ⟨[1], [9], .inBound, true, emptyHash⟩ ∈ w.sessions ∧
      [9] ∉ w.server.peers ∧ ∀ s, some s ∈ w.sessions → s.handshaked = true → s.peerId ≠ [9] := by
  have hrun : runFrom (World.step Extern.toy Wire.toy) (World.init [9] emptyHash)
      [.accept, .read 0 ⟨⟨.handshake, 10, 0, none⟩, List.replicate 32 0⟩ 0] =
        .ok ⟨{ TcpServer.new [9] emptyHash with peers := (∅ : AList _).insert [1] ⟨0, .inBound⟩ },
          [some ⟨[1], [9], .inBound, true, emptyHash⟩]⟩ :=
    rfl
  have h := Reachable.of_runFrom .init hrun
  exact ⟨_, h, List.mem_singleton_self _, reachable_never_self h⟩

end World

/-! ## Forwarding without a handshake -/

/-- A session's read of a block, consensus or sync message forwards it to
the server whatever the session's state, `handshaked` or not, and the
server hands it to the core (`handle_msg_middle`) when it is not from the
future and was not handled in the last five seconds. -/
theorem read_forwards_without_handshake (w : World) {i : Nat} {s : Session} (hs : w.sessions[i]? = some (some s))
    {msg : RawMessage} (hcode : msg.header.code = .block ∨ msg.header.code = .consensus ∨ msg.header.code = .sync)
    {now : Nat} (hnow : msg.header.createTime ≤ now) (hfresh : cacheGet w.server.cache now (msg.hash K W) = false) :
    w.step K W (.read i msg now) =
      .ok ⟨{ w.server with
        cache := (msg.hash K W, now) :: w.server.cache
        handled := w.server.handled ++ [(s.peerId, msg)] }, w.sessions⟩ := by
  have hset : w.sessions.set i (some s) = w.sessions := by
    obtain ⟨hi, heq⟩ := List.getElem?_eq_some_iff.mp hs
    rw [← heq]
    exact List.set_getElem_self hi
  rw [World.step_read_of_get hs, Session.handleMessage_data hcode, handleServerEvent_message_fresh hnow hfresh]
  show Except.ok (World.mk _ (w.sessions.set i (some s))) = _
  rw [hset]

/-- A fresh inbound session's block, before any handshake. -/
theorem read_forwards_without_handshake_toy :
    ([some (Session.new [0] [9] .inBound emptyHash)] : List (Option Session))[0]? =
        some (some (Session.new [0] [9] .inBound emptyHash)) ∧
      (⟨⟨.block, 10, 0, none⟩, [7]⟩ : RawMessage).header.code = .block ∧
      (⟨⟨.block, 10, 0, none⟩, [7]⟩ : RawMessage).header.createTime ≤ 0 ∧
      cacheGet [] 0 (RawMessage.hash Extern.toy Wire.toy ⟨⟨.block, 10, 0, none⟩, [7]⟩) = false ∧
      (World.mk (TcpServer.new [9] emptyHash) [some (Session.new [0] [9] .inBound emptyHash)]).step Extern.toy Wire.toy
          (.read 0 ⟨⟨.block, 10, 0, none⟩, [7]⟩ 0) =
        .ok ⟨{ TcpServer.new [9] emptyHash with
          cache := (RawMessage.hash Extern.toy Wire.toy ⟨⟨.block, 10, 0, none⟩, [7]⟩, 0) :: []
          handled := [] ++ [([0], ⟨⟨.block, 10, 0, none⟩, [7]⟩)] },
          [some (Session.new [0] [9] .inBound emptyHash)]⟩ := by
  have hs : ([some (Session.new [0] [9] .inBound emptyHash)] : List (Option Session))[0]? =
      some (some (Session.new [0] [9] .inBound emptyHash)) := rfl
  have hcode : (⟨⟨.block, 10, 0, none⟩, [7]⟩ : RawMessage).header.code = .block := rfl
  have hnow : (⟨⟨.block, 10, 0, none⟩, [7]⟩ : RawMessage).header.createTime ≤ 0 := Nat.le_refl 0
  have hfresh : cacheGet [] 0 (RawMessage.hash Extern.toy Wire.toy ⟨⟨.block, 10, 0, none⟩, [7]⟩) = false := rfl
  exact ⟨hs, hcode, hnow, hfresh,
    read_forwards_without_handshake Extern.toy Wire.toy ⟨TcpServer.new [9] emptyHash, _⟩ hs (Or.inl hcode) hnow hfresh⟩

/-- From a node's start, an inbound peer sends a block and no handshake: the
block reaches the core while the session is not handshaked and the server
has no peer. -/
theorem unhandshaked_block_handled_toy :
    (runFrom (World.step Extern.toy Wire.toy) (World.init [9] emptyHash)
        [.accept, .read 0 ⟨⟨.block, 10, 0, none⟩, [7]⟩ 0]).map
        (fun w => (w.server.handled, w.server.peers.keys, w.sessions)) =
      .ok ([([0], ⟨⟨.block, 10, 0, none⟩, [7]⟩)], [], [some (Session.new [0] [9] .inBound emptyHash)]) := by
  decide

end ConsensusRs
