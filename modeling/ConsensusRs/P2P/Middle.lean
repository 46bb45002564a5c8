import ConsensusRs.P2P.Protocol
import ConsensusRs.Chain.Insert
import ConsensusRs.Framework.Loop

/-!
# From the network to the core and the chain

`handle_msg_middle` (`src/consensus/pbft/core/core.rs`) is the server's
`handles`: a peer's consensus message goes to the core, its blocks are
inserted into the chain, and its sync request is answered with the chain's
blocks from the requested height, posted back in batches as
`ChainEvent::PostBlock` events.

The Sync branch's loop counts the heights done (`total`) and the heights
since the last post (`batch`): a batch is posted when `batch > 20`, after the
height's block is added, and the loop breaks once `total > 100`, after the
post; what is left is posted after the loop. So the first batch has 22
blocks, the next 21, and the answer stops after 102.

* `handleMsgMiddle_sync_covers`: on a ledger that holds a chain, the blocks
  posted for a request at a height, in order, are the chain's from that
  height, 102 of them or up to the last, none in an empty post; or the last
  height is `u64::MAX` and `last_height + 1` overflows.
-/

namespace ConsensusRs

open Framework

/-- `ChainEvent::PostBlock`: blocks for a peer (or for all); the other chain
events are not posted here. -/
inductive ChainEvent where
  | postBlock (peerId : Option PeerId) (blocks : List Block)
deriving DecidableEq, Repr

/-- The blocks a post carries. -/
def ChainEvent.blocks : ChainEvent → List Block
  | .postBlock _ blocks => blocks

/-- The peer a post is for. -/
def ChainEvent.peerId : ChainEvent → Option PeerId
  | .postBlock peerId _ => peerId

/-- What `handle_msg_middle` takes from `serde_json`: the JSON of a `Blocks`
and of a `Height`. -/
structure MiddleWire where
  blocksFromBytes : List UInt8 → Option (List Block)
  heightFromBytes : List UInt8 → Option Nat

/-- A stand-in: no blocks decode, and a height is its first byte. -/
def MiddleWire.toy : MiddleWire where
  blocksFromBytes _ := none
  heightFromBytes
    | b :: _ => some b.toNat
    | [] => none

/-- `Blocks::from_bytes`, which panics on other bytes. -/
def Blocks.fromBytes (M : MiddleWire) (bytes : List UInt8) : Except Abort (List Block) :=
  match M.blocksFromBytes bytes with
  | some blocks => .ok blocks
  | none => .error .decode

/-- `Height::from_bytes`, which panics on other bytes. -/
def Height.fromBytes (M : MiddleWire) (bytes : List UInt8) : Except Abort Nat :=
  match M.heightFromBytes bytes with
  | some height => .ok height
  | none => .error .decode

/-- The variables of the Sync branch's loop, and the chain it reads (whose
caches a read may fill). -/
structure SyncLoop where
  total : Nat
  batch : Nat
  blocks : List Block
  chain : Chain
  events : List ChainEvent

/-- The body of `for height in height..last_height + 1`. -/
def syncBody (peerId : PeerId) (height : Nat) (s : SyncLoop) : Except Abort (ForInStep SyncLoop) := do
  let (block, chain) ← s.chain.getBlockByHeight height
  let blocks := match block with
    | some block => s.blocks ++ [block]
    | none => s.blocks
  -- a full batch is posted (a clone) and the buffer cleared
  let s : SyncLoop :=
    if s.batch > 20 then
      { s with chain, events := s.events ++ [ChainEvent.postBlock (some peerId) blocks], batch := 0, blocks := [] }
    else { s with chain, blocks }
  if s.total > 100 then pure (.done s)
  else pure (.yield { s with batch := s.batch + 1, total := s.total + 1 })

/-- The Sync branch from the requested height: the loop, then the blocks
left posted; the events posted, and the chain after. -/
def syncBlocks (c : Chain) (peerId : PeerId) (height : Nat) : Except Abort (List ChainEvent × Chain) := do
  let lastHeight := c.getLastHeight
  let stop ← u64Add .handleMsgMiddle lastHeight 1
  let s ← forIn (List.range' height (stop - height)) (⟨0, 0, [], c, []⟩ : SyncLoop) (syncBody peerId)
  if !s.blocks.isEmpty then pure (s.events ++ [.postBlock (some peerId) s.blocks], s.chain)
  else pure (s.events, s.chain)

/-- What `handle_msg_middle` leaves: the chain, the chain events it posted,
and the payloads it sent to the core. -/
structure MiddleOut where
  chain : Chain
  events : List ChainEvent
  toCore : List (List UInt8)

variable (K : Extern)

/-- `handle_msg_middle`'s callback on a peer's message. -/
def handleMsgMiddle (M : MiddleWire) (c : Chain) (peerId : PeerId) (msg : RawMessage) : Except Abort MiddleOut :=
  match msg.header.code with
  | .consensus => pure ⟨c, [], [msg.payload]⟩
  | .block => do
    let blocks ← Blocks.fromBytes M msg.payload
    -- each block is inserted, and `insert_block`'s result dropped
    let c ← blocks.foldlM (fun c block => do
      let (_, c) ← c.insertBlock K block
      pure c) c
    pure ⟨c, [], []⟩
  | .sync => do
    let height ← Height.fromBytes M msg.payload
    let (events, c) ← syncBlocks c peerId height
    pure ⟨c, events, []⟩
  -- `unimplemented!()`
  | .ping | .handshake | .transaction => .error (.assertion .handleMsgMiddle)

/-! ## Reading the chain -/

variable {K}

/-- `get_block_by_height` on a ledger that holds a chain returns the chain's
block at the height, and keeps the invariant with what it caches. -/
theorem Chain.getBlockByHeight_holds {c : Chain} {bs : List Block} (h : Holds K c.ledger bs) (height : Nat) :
    ∃ c', c.getBlockByHeight height = .ok (bs[height]?, c') ∧ Holds K c'.ledger bs := by
  unfold Chain.getBlockByHeight Chain.getBlockHashByHeight Ledger.getBlockHashByHeight
  rw [h.blockHashByHeight_eq]
  cases hb : bs[height]? with
  | none => exact ⟨c, rfl, h⟩
  | some b =>
    obtain ⟨l', hget, hschema, hmeta, -, hcached⟩ := Ledger.getBlock_eq h.toStored h.toCached (List.mem_of_getElem? hb)
    refine ⟨⟨l'⟩, ?_, ?_, hcached, ?_⟩
    · simp only [Option.map_some, hget, ok_bind]
      rfl
    · rw [hschema]
      exact h.toStored
    · rw [hmeta]
      exact h.meta_eq

/-- The blocks of a stored chain from a height on are at the heights that
follow it. -/
theorem map_height_take_drop {s : Schema} {bs : List Block} (hs : Stored K s bs) (height k : Nat) :
    ((bs.drop height).take k).map Block.height = List.range' height (min bs.length (height + k) - height) := by
  apply List.ext_getElem
  · simp only [List.length_map, List.length_take, List.length_drop, List.length_range']
    omega
  · intro i h₁ h₂
    simp only [List.getElem_map, List.getElem_take, List.getElem_drop, List.getElem_range', Nat.one_mul]
    exact hs.height_eq _ _

/-! ## The Sync loop -/

section Sync

variable {bs : List Block} {peerId : PeerId} {height n : Nat}

/-- The invariant of the Sync loop from `height` over `n` heights, with the
heights `rest` still to come: `total` heights are done, and the blocks
posted and buffered, in order, are the chain's from `height`, `total` of
them. -/
structure SyncInv (K : Extern) (bs : List Block) (peerId : PeerId) (height n : Nat) (rest : List Nat)
    (s : SyncLoop) : Prop where
  total_le : s.total ≤ 101
  total_le_n : s.total ≤ n
  rest_eq : rest = List.range' (height + s.total) (n - s.total)
  posted : (s.events.map ChainEvent.blocks).flatten ++ s.blocks = (bs.drop height).take s.total
  events : ∀ e ∈ s.events, e.blocks ≠ [] ∧ e.peerId = some peerId
  holds : Holds K s.chain.ledger bs

/-- What the loop ends with: the chain's blocks from `height`, as many as the
range has, or 102. -/
structure SyncPost (K : Extern) (bs : List Block) (peerId : PeerId) (height n : Nat) (s : SyncLoop) : Prop where
  posted : (s.events.map ChainEvent.blocks).flatten ++ s.blocks = (bs.drop height).take (min n 102)
  events : ∀ e ∈ s.events, e.blocks ≠ [] ∧ e.peerId = some peerId
  holds : Holds K s.chain.ledger bs

/-- A step of the loop that reads a block: the buffer takes the block and is
posted if the batch is full, so what is posted and buffered gains the block
at its end; then the loop breaks or goes on. -/
theorem syncBody_of_get (peerId : PeerId) {s : SyncLoop} {x : Nat} {b : Block} {c' : Chain}
    (hget : s.chain.getBlockByHeight x = .ok (some b, c')) :
    ∃ s₁ : SyncLoop, s₁.total = s.total ∧ s₁.chain = c' ∧
      (s₁.events.map ChainEvent.blocks).flatten ++ s₁.blocks =
        (s.events.map ChainEvent.blocks).flatten ++ s.blocks ++ [b] ∧
      (∀ e ∈ s₁.events, e ∈ s.events ∨ e = .postBlock (some peerId) (s.blocks ++ [b])) ∧
      syncBody peerId x s =
        .ok (if s.total > 100 then .done s₁ else .yield { s₁ with batch := s₁.batch + 1, total := s₁.total + 1 }) := by
  by_cases hbatch : s.batch > 20
  · refine ⟨{ s with
      chain := c'
      events := s.events ++ [.postBlock (some peerId) (s.blocks ++ [b])]
      batch := 0
      blocks := [] }, rfl, rfl, ?_, ?_, ?_⟩
    · simp [ChainEvent.blocks]
    · intro e he
      simpa using he
    · simp only [syncBody, hget, ok_bind, hbatch, if_true]
      split_ifs <;> rfl
  · refine ⟨{ s with chain := c', blocks := s.blocks ++ [b] }, rfl, rfl, ?_, fun e he => .inl he, ?_⟩
    · simp
    simp only [syncBody, hget, ok_bind, hbatch, if_false]
    split_ifs <;> rfl

/-- The step rule of the loop: from the invariant, the next height's block is
read and the invariant kept for the rest, or the loop breaks at the 102nd
height with everything read. -/
theorem syncBody_step (hn : n ≤ bs.length - height) {x : Nat} {xs : List Nat} {s : SyncLoop}
    (hs : SyncInv K bs peerId height n (x :: xs) s) :
    ∃ r, syncBody peerId x s = .ok r ∧ Continues (SyncInv K bs peerId height n xs) (SyncPost K bs peerId height n) r := by
  obtain ⟨htot, htn, hrest, hposted, hevents, hholds⟩ := hs
  -- the height read is the next of the range, and the chain has a block there
  obtain ⟨hlt, rfl, hxs⟩ :
      s.total < n ∧ x = height + s.total ∧ xs = List.range' (height + (s.total + 1)) (n - (s.total + 1)) := by
    obtain ⟨m, hm⟩ : ∃ m, n - s.total = m + 1 := by
      cases hnt : n - s.total with
      | zero => rw [hnt] at hrest; cases hrest
      | succ m => exact ⟨m, rfl⟩
    rw [hm, List.range'_succ] at hrest
    obtain ⟨hx, hxs⟩ := List.cons.inj hrest
    refine ⟨by omega, hx, ?_⟩
    rw [hxs, ← Nat.add_assoc, show n - (s.total + 1) = m by omega]
  have hin : height + s.total < bs.length := by omega
  obtain ⟨c', hget, hholds'⟩ := Chain.getBlockByHeight_holds hholds (height + s.total)
  rw [List.getElem?_eq_getElem hin] at hget
  obtain ⟨s₁, htot₁, hchain₁, hposted₁, hevents₁, hbody⟩ := syncBody_of_get peerId hget
  have htake : (bs.drop height).take (s.total + 1) = (bs.drop height).take s.total ++ [bs[height + s.total]] := by
    rw [List.take_add_one, List.getElem?_drop, List.getElem?_eq_getElem hin]
    rfl
  have hposted' : (s₁.events.map ChainEvent.blocks).flatten ++ s₁.blocks = (bs.drop height).take (s.total + 1) := by
    rw [hposted₁, hposted, htake]
  have hevents' : ∀ e ∈ s₁.events, e.blocks ≠ [] ∧ e.peerId = some peerId := by
    intro e he
    rcases hevents₁ e he with he | rfl
    · exact hevents e he
    · simp [ChainEvent.blocks, ChainEvent.peerId]
  have hholds₁ : Holds K s₁.chain.ledger bs := hchain₁ ▸ hholds'
  refine ⟨_, hbody, ?_⟩
  split_ifs with h100
  · -- the 102nd height: the loop breaks with all it answers
    refine ⟨?_, hevents', hholds₁⟩
    rw [hposted', show min n 102 = s.total + 1 by omega]
  · exact ⟨by simp only [htot₁]; omega, by simp only [htot₁]; omega, by simp only [htot₁, hxs],
      by simp only [htot₁, hposted'], hevents', hholds₁⟩

/-- The invariant with no height left is what the loop ends with. -/
theorem SyncInv.post {s : SyncLoop} (hs : SyncInv K bs peerId height n [] s) : SyncPost K bs peerId height n s := by
  obtain ⟨htot, htn, hrest, hposted, hevents, hholds⟩ := hs
  have hn : n = s.total := by
    have hlen := congrArg List.length hrest
    simp only [List.length_nil, List.length_range'] at hlen
    omega
  refine ⟨?_, hevents, hholds⟩
  rw [hposted, hn, Nat.min_eq_left (by omega)]

/-- The run rule of the loop: over heights the chain has, it runs without a
panic to its end or its break, with the chain's blocks from `height` posted
and buffered. -/
theorem syncLoop_post (peerId : PeerId) (c : Chain) (h : Holds K c.ledger bs) (hn : n ≤ bs.length - height) :
    ∃ s, forIn (List.range' height n) (⟨0, 0, [], c, []⟩ : SyncLoop) (syncBody peerId) = .ok s ∧
      SyncPost K bs peerId height n s :=
  @forIn_ok_of_inv _ _ _ (syncBody peerId) (SyncInv K bs peerId height n) (SyncPost K bs peerId height n)
    (fun _ _ _ hs => syncBody_step hn hs) (fun _ hs => hs.post) _ _ ⟨by simp, by simp, by simp, by simp, by simp, h⟩

end Sync

/-! ## The Sync branch -/

/-- The Sync branch on a ledger that holds a chain: the posts, in order,
carry the chain's blocks from the height, 102 of them or up to the last,
none empty, all for the peer that asked; or the last height is `u64::MAX`
and `last_height + 1` overflows. -/
theorem syncBlocks_covers {c : Chain} {bs : List Block} (h : Holds K c.ledger bs) (peerId : PeerId) (height : Nat) :
    (u64Max < bs.length ∧ syncBlocks c peerId height = .error (.overflow .handleMsgMiddle)) ∨
      ∃ events c', syncBlocks c peerId height = .ok (events, c') ∧
        (events.map ChainEvent.blocks).flatten = (bs.drop height).take 102 ∧
        (∀ e ∈ events, e.blocks ≠ [] ∧ e.peerId = some peerId) ∧ Holds K c'.ledger bs := by
  have hlast : c.getLastHeight + 1 = bs.length := Ledger.lastMeta_height h
  by_cases hover : u64Max < bs.length
  · have hstop : u64Add .handleMsgMiddle c.getLastHeight 1 = .error (.overflow .handleMsgMiddle) := by
      unfold u64Add
      rw [if_neg (by omega)]
    exact .inl ⟨hover, by simp only [syncBlocks, hstop, error_bind]⟩
  · have hstop : u64Add .handleMsgMiddle c.getLastHeight 1 = .ok bs.length := by
      rw [u64Add_eq_ok]
      omega
    obtain ⟨s, hloop, hposted, hevents, hholds⟩ := syncLoop_post peerId c h (Nat.le_refl (bs.length - height))
    -- the range has the chain's heights from `height`, so 102 of them is all
    -- the answer can have
    have htake : (bs.drop height).take (min (bs.length - height) 102) = (bs.drop height).take 102 := by
      have hall : (bs.drop height).take (bs.length - height) = bs.drop height := List.take_of_length_le (by simp)
      rw [Nat.min_comm, ← List.take_take, hall]
    simp only [syncBlocks, hstop, ok_bind, hloop]
    right
    by_cases hempty : s.blocks.isEmpty
    · refine ⟨s.events, s.chain, by simp [hempty], ?_, hevents, hholds⟩
      rw [← htake, ← hposted, List.isEmpty_iff.mp hempty, List.append_nil]
    · refine ⟨s.events ++ [.postBlock (some peerId) s.blocks], s.chain, by simp [hempty], ?_, ?_, hholds⟩
      · simp only [List.map_append, List.map_cons, List.map_nil, ChainEvent.blocks, List.flatten_concat]
        rw [hposted, htake]
      · intro e he
        rcases List.mem_append.mp he with he | he
        · exact hevents e he
        · rw [List.mem_singleton] at he
          subst he
          exact ⟨fun hnil => hempty (List.isEmpty_iff.mpr hnil), rfl⟩

/-- A sync request to a node whose ledger holds a chain: the blocks posted
back, in order, are the chain's from the requested height, 102 of them or up
to the last, at the heights from the requested one on; no post is empty,
each is for the peer that asked, and the ledger still holds the chain. Or
the last height is `u64::MAX`, and `last_height + 1` overflows. -/
theorem handleMsgMiddle_sync_covers (M : MiddleWire) {c : Chain} {bs : List Block} (h : Holds K c.ledger bs)
    (peerId : PeerId) {msg : RawMessage} (hcode : msg.header.code = .sync) {height : Nat}
    (hheight : M.heightFromBytes msg.payload = some height) :
    (u64Max < bs.length ∧ handleMsgMiddle K M c peerId msg = .error (.overflow .handleMsgMiddle)) ∨
      ∃ out, handleMsgMiddle K M c peerId msg = .ok out ∧
        (out.events.map ChainEvent.blocks).flatten = (bs.drop height).take 102 ∧
        (out.events.map ChainEvent.blocks).flatten.map Block.height =
          List.range' height (min bs.length (height + 102) - height) ∧
        (∀ e ∈ out.events, e.blocks ≠ [] ∧ e.peerId = some peerId) ∧ Holds K out.chain.ledger bs := by
  have hmsg : handleMsgMiddle K M c peerId msg = (fun r => ⟨r.2, r.1, []⟩) <$> syncBlocks c peerId height := by
    simp only [handleMsgMiddle, hcode, Height.fromBytes, hheight, ok_bind]
    cases syncBlocks c peerId height <;> rfl
  rw [hmsg]
  rcases syncBlocks_covers h peerId height with ⟨hover, herr⟩ | ⟨events, c', hok, hblocks, hevents, hholds⟩
  · exact .inl ⟨hover, by rw [herr]; rfl⟩
  · refine .inr ⟨⟨c', events, []⟩, by rw [hok]; rfl, hblocks, ?_, hevents, hholds⟩
    rw [hblocks]
    exact map_height_take_drop h.toStored height 102

/-- A sync request at height 0 to a node with only its genesis block. -/
theorem handleMsgMiddle_sync_covers_toy :
    ∃ l₀, (Ledger.new .newZero [] .empty).addGenesisBlock Extern.toy toyGenesis = .ok l₀ ∧
      Holds Extern.toy l₀ [toyGenesis] ∧
      ((u64Max < 1 ∧ handleMsgMiddle Extern.toy MiddleWire.toy ⟨l₀⟩ [1] ⟨⟨.sync, 10, 0, none⟩, [0]⟩ =
          .error (.overflow .handleMsgMiddle)) ∨
        ∃ out, handleMsgMiddle Extern.toy MiddleWire.toy ⟨l₀⟩ [1] ⟨⟨.sync, 10, 0, none⟩, [0]⟩ = .ok out ∧
          (out.events.map ChainEvent.blocks).flatten = ([toyGenesis].drop 0).take 102 ∧
          (out.events.map ChainEvent.blocks).flatten.map Block.height = List.range' 0 (min 1 (0 + 102) - 0) ∧
          (∀ e ∈ out.events, e.blocks ≠ [] ∧ e.peerId = some [1]) ∧ Holds Extern.toy out.chain.ledger [toyGenesis]) := by
  obtain ⟨l₀, hl₀⟩ : ∃ l₀, (Ledger.new .newZero [] .empty).addGenesisBlock Extern.toy toyGenesis = .ok l₀ :=
    ⟨_, rfl⟩
  have h : Holds Extern.toy l₀ [toyGenesis] := Ledger.addGenesisBlock_holds rfl (NoCollision.singleton rfl) hl₀
  exact ⟨l₀, hl₀, h, handleMsgMiddle_sync_covers MiddleWire.toy (c := ⟨l₀⟩) h [1] rfl rfl⟩

end ConsensusRs
