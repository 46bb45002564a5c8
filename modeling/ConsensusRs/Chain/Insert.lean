import ConsensusRs.Chain.Invariant
import ConsensusRs.Framework.Run

/-!
# Inserting blocks: the chain as a list

What `Chain::insert_block` is for, stated on the chain as a list of blocks
(`appendBlock`): a block at the next height is appended, a block at a height
the chain has is refused as existing, and a block above the next height is
refused as having no ancestor. Nothing else is checked, the parent hash in
particular.

The ledger implements it (`insertBlock_eq_ok`): from a ledger that holds a
chain, `insert_block` returns what `appendBlock` returns and holds the chain
`appendBlock` makes; it panics only in a transaction's hash or on a height
that overflows, never at an assertion (`insertBlock_eq_error`). The
simulation rule of `Framework.Run` lifts both to every sequence of calls
(`insertBlocks_holds`, `insertBlocks_eq_error`), as long as the blocks of the
run are collision-free.
-/

namespace ConsensusRs

open Framework

variable (K : Extern)

/-- What `Chain::insert_block` does, on the chain as a list. -/
def appendBlock (bs : List Block) (b : Block) : Except ChainError Unit × List Block :=
  if b.height < bs.length then (.error (.exists (b.hash K)), bs)
  else if bs.length < b.height then (.error (.unknown "Not found ancestor"), bs)
  else (.ok (), bs ++ [b])

/-- The chain after a sequence of insertions, on the list. -/
def appendAll (bs blocks : List Block) : List Block :=
  blocks.foldl (fun bs b => (appendBlock K bs b).2) bs

/-- A sequence of `Chain::insert_block` calls, each on the chain the call
before left; a panic ends it. -/
def Chain.insertBlocks (c : Chain) (blocks : List Block) : Except Abort Chain :=
  runFrom (fun c b => Prod.snd <$> c.insertBlock K b) c blocks

variable {K}

theorem appendBlock_subset (bs : List Block) (b : Block) : (appendBlock K bs b).2 ⊆ bs ++ [b] := by
  unfold appendBlock
  split
  · exact List.subset_append_left bs [b]
  split
  · exact List.subset_append_left bs [b]
  · exact List.Subset.refl _

/-- The chain after an insertion: the block appended when its height is the
chain's length, the chain unchanged otherwise. -/
theorem appendBlock_snd (bs : List Block) (b : Block) :
    (appendBlock K bs b).2 = if b.height = bs.length then bs ++ [b] else bs := by
  unfold appendBlock
  split
  · rw [if_neg (by omega)]
  split
  · rw [if_neg (by omega)]
  · rw [if_pos (by omega)]

theorem appendBlock_ne_nil {bs : List Block} (b : Block) (h : bs ≠ []) : (appendBlock K bs b).2 ≠ [] := by
  rw [appendBlock_snd]
  split
  · exact List.append_ne_nil_of_right_ne_nil bs (List.cons_ne_nil b [])
  · exact h

/-- Collision-freeness of the chain and the blocks still to come is kept by
each insertion. -/
theorem NoCollision.appendBlock {bs es : List Block} {b : Block} (h : NoCollision K (bs ++ b :: es)) :
    NoCollision K ((appendBlock K bs b).2 ++ es) := by
  refine h.mono fun x hx => ?_
  rcases List.mem_append.mp hx with hx | hx
  · rcases List.mem_append.mp (appendBlock_subset bs b hx) with hx | hx
    · exact List.mem_append_left _ hx
    · exact List.mem_append_right _ (List.mem_cons.mpr (.inl (List.mem_singleton.mp hx)))
  · exact List.mem_append_right _ (List.mem_cons_of_mem _ hx)

/-- The chain with the next block is collision-free when the chain with
the blocks still to come is. -/
theorem NoCollision.next {bs es : List Block} {b : Block} (h : NoCollision K (bs ++ b :: es)) :
    NoCollision K (bs ++ [b]) := by
  refine h.mono fun x hx => ?_
  rcases List.mem_append.mp hx with hx | hx
  · exact List.mem_append_left _ hx
  · exact List.mem_append_right _ (List.mem_cons.mpr (.inl (List.mem_singleton.mp hx)))

namespace Chain

variable {l : Ledger} {bs : List Block} {b : Block}

/-- An `Err` of `insert_block` returns the chain as it was. -/
theorem insertBlock_error_unchanged {c c' : Chain} {e : ChainError}
    (h : c.insertBlock K b = .ok (.error e, c')) : c' = c := by
  unfold insertBlock at h
  obtain ⟨existing, -, h⟩ := Iff.mp bind_eq_ok h
  split at h
  · simp only [pure_eq_ok, Prod.mk.injEq] at h
    exact h.2.symm
  obtain ⟨next, -, h⟩ := Iff.mp bind_eq_ok h
  split at h
  · simp only [pure_eq_ok, Prod.mk.injEq] at h
    exact h.2.symm
  · obtain ⟨ledger, -, h⟩ := Iff.mp bind_eq_ok h
    simp only [pure_eq_ok, Prod.mk.injEq] at h
    cases h.1

/-- `insert_block` on a ledger that holds a chain refines `appendBlock`: it
returns what `appendBlock` returns, and the ledger holds the chain
`appendBlock` makes. -/
theorem insertBlock_eq_ok {r : Except ChainError Unit} {c' : Chain} (h : Holds K l bs)
    (hnc : NoCollision K (bs ++ [b])) (hi : insertBlock K ⟨l⟩ b = .ok (r, c')) :
    r = (appendBlock K bs b).1 ∧ Holds K c'.ledger (appendBlock K bs b).2 := by
  have hlast := Ledger.lastMeta_height h
  unfold insertBlock at hi
  rw [Ledger.getBlockByHeight_eq h.toStored h.toCached, ok_bind] at hi
  unfold appendBlock
  by_cases hlt : b.height < bs.length
  · -- the height is taken
    rw [List.getElem?_eq_getElem hlt] at hi
    simp only [Option.isSome_some, if_true, pure_eq_ok, Prod.mk.injEq] at hi
    obtain ⟨rfl, rfl⟩ := hi
    rw [if_pos hlt]
    exact ⟨rfl, h⟩
  rw [List.getElem?_eq_none (by omega)] at hi
  simp only [Option.isSome_none, Bool.false_eq_true, if_false] at hi
  rw [if_neg hlt]
  obtain ⟨next, hnext, hi⟩ := Iff.mp bind_eq_ok hi
  obtain ⟨-, rfl⟩ := Iff.mp u64Add_eq_ok hnext
  have hnext : l.getLastBlockHeight + 1 = bs.length := hlast
  by_cases hgt : bs.length < b.height
  · -- a block above the next height
    rw [if_pos (by omega)] at hi
    simp only [pure_eq_ok, Prod.mk.injEq] at hi
    obtain ⟨rfl, rfl⟩ := hi
    rw [if_pos hgt]
    exact ⟨rfl, h⟩
  · -- the next block
    rw [if_neg (by omega)] at hi
    obtain ⟨ledger, hadd, hi⟩ := Iff.mp bind_eq_ok hi
    simp only [pure_eq_ok, Prod.mk.injEq] at hi
    obtain ⟨rfl, rfl⟩ := hi
    rw [if_neg hgt]
    exact ⟨rfl, Ledger.addBlock_holds h hnc (by omega) hadd⟩

/-- `insert_block` on a ledger that holds a chain panics only in a
transaction's hash or on a height that overflows: none of its assertions
fails, and its reads find every stored block. -/
theorem insertBlock_eq_error {a : Abort} (h : Holds K l bs) (hi : insertBlock K ⟨l⟩ b = .error a) :
    a = .overflow .insertBlock ∨ a = .overflow .listPush ∨ a = .unwrap .transactionHash := by
  have hlast := Ledger.lastMeta_height h
  unfold insertBlock at hi
  rw [Ledger.getBlockByHeight_eq h.toStored h.toCached, ok_bind] at hi
  split at hi
  · exact absurd hi pure_ne_error
  rename_i hfree
  have hge : bs.length ≤ b.height := by
    by_contra hlt
    rw [List.getElem?_eq_getElem (by omega)] at hfree
    exact hfree rfl
  rcases Iff.mp bind_eq_error hi with hi | ⟨next, hnext, hi⟩
  · -- the next height overflows
    left
    unfold u64Add at hi
    split at hi
    · cases hi
    · cases hi
      rfl
  obtain ⟨-, rfl⟩ := Iff.mp u64Add_eq_ok hnext
  split at hi
  · exact absurd hi pure_ne_error
  rename_i hle
  rcases Iff.mp bind_eq_error hi with hi | ⟨_, -, hi⟩
  · -- `add_block` of the next block
    have hb : b.height = bs.length := by
      have : l.getLastBlockHeight + 1 = bs.length := hlast
      have hle : ¬ l.getLastBlockHeight + 1 < b.height := hle
      omega
    have hlen : l.schema.blockHashesByHeight.len.getD 0 = b.height := by rw [h.len_eq, hb]
    rcases Ledger.addBlock_eq_error (.inl (Ledger.lastMeta_lt h hb)) hlen hi with ha | ha
    · exact .inr (.inr ha)
    · exact .inr (.inl ha)
  · exact absurd hi pure_ne_error

/-! ## Runs -/

/-- One call of a run, on the chain it leaves. -/
theorem insertStep_eq_ok {c c' : Chain} :
    (Prod.snd <$> c.insertBlock K b) = .ok c' ↔ ∃ r, c.insertBlock K b = .ok (r, c') := by
  rw [map_eq_ok]
  exact ⟨fun ⟨⟨r, c₁⟩, h, hc⟩ => ⟨r, hc ▸ h⟩, fun ⟨r, h⟩ => ⟨(r, c'), h, rfl⟩⟩

/-- Every run of `insert_block` calls from a ledger that holds a chain ends
in a ledger that holds the chain `appendAll` makes of the same blocks. -/
theorem insertBlocks_holds {blocks : List Block} {c : Chain} (h : Holds K l bs)
    (hnc : NoCollision K (bs ++ blocks)) (hrun : insertBlocks K ⟨l⟩ blocks = .ok c) :
    Holds K c.ledger (appendAll K bs blocks) :=
  runFrom_simulation (R := fun c bs => Holds K c.ledger bs) (Q := fun bs es => NoCollision K (bs ++ es))
    (fun c t e es c' hR hq hstep => by
      obtain ⟨r, hi⟩ := Iff.mp insertStep_eq_ok hstep
      exact (insertBlock_eq_ok hR hq.next hi).2)
    (fun _ _ _ hq => hq.appendBlock) h hnc hrun

/-- Every run of `insert_block` calls from a ledger that holds a chain
panics, if it does, only in a transaction's hash or on a height that
overflows. -/
theorem insertBlocks_eq_error {blocks : List Block} {a : Abort} (h : Holds K l bs)
    (hnc : NoCollision K (bs ++ blocks)) (hrun : insertBlocks K ⟨l⟩ blocks = .error a) :
    a = .overflow .insertBlock ∨ a = .overflow .listPush ∨ a = .unwrap .transactionHash :=
  runFrom_error_of_simulation (R := fun c bs => Holds K c.ledger bs)
    (Q := fun bs es => NoCollision K (bs ++ es))
    (P := fun a => a = .overflow .insertBlock ∨ a = .overflow .listPush ∨ a = .unwrap .transactionHash)
    (fun c t e es c' hR hq hstep => by
      obtain ⟨r, hi⟩ := Iff.mp insertStep_eq_ok hstep
      exact (insertBlock_eq_ok hR hq.next hi).2)
    (fun _ _ _ hq => hq.appendBlock)
    (fun c t e es a hR _ hstep => by
      have hi : c.insertBlock K e = .error a := Iff.mp map_eq_error hstep
      exact insertBlock_eq_error hR hi)
    h hnc hrun

/-! ## The store over a run -/

/-- From a ledger that holds only a genesis block, every run of
`insert_block` calls over collision-free blocks (i) keeps the height list's
length one above the last height, which the meta holds and which is the
last index of the chain `appendAll` makes; (ii) stores, for every height up
to it, the block of that chain: its hash in the height list, its header
(of that height, with that block hash) under it, and the hashes of its
transactions, each stored under its hash; (iii) keeps the meta's block and
hash those stored at the last height; (iv) never fails an assertion, since
it panics only in a transaction's hash or on a height that overflows; and
(v) every call that returns `Err` leaves the chain as it was. -/
theorem insertBlocks_store_invariant {g : Block} {blocks : List Block} (hg : Holds K l [g])
    (hnc : NoCollision K (g :: blocks)) :
    (∀ c, insertBlocks K ⟨l⟩ blocks = .ok c →
      c.ledger.schema.blockHashesByHeight.len.getD 0 = c.getLastHeight + 1 ∧
      c.getLastHeight + 1 = (appendAll K [g] blocks).length ∧
      (∀ h ≤ c.getLastHeight, ∃ b, (appendAll K [g] blocks)[h]? = some b ∧
        c.ledger.schema.blockHashByHeight h = some (b.hash K) ∧
        (∃ hd, c.ledger.schema.headers (b.hash K) = some hd ∧ hd.height = h ∧ hd.blockHash K = b.hash K) ∧
        ∃ hs, c.ledger.schema.transactionHashes (b.hash K) = some ⟨hs⟩ ∧
          b.transactions.mapM (Transaction.hash K) = .ok hs ∧
          ∀ tx ∈ b.transactions, ∃ k, tx.hash K = .ok k ∧ c.ledger.schema.transaction k = some tx) ∧
      c.ledger.schema.blockHashByHeight c.getLastHeight = some c.ledger.lastMeta.blockHash ∧
      c.ledger.getBlockByHeight c.getLastHeight = .ok (some c.ledger.lastMeta.block)) ∧
    (∀ a, insertBlocks K ⟨l⟩ blocks = .error a →
      (∀ site, a ≠ .assertion site) ∧
        (a = .overflow .insertBlock ∨ a = .overflow .listPush ∨ a = .unwrap .transactionHash)) ∧
    (∀ (c c' : Chain) (b : Block) (e : ChainError), c.insertBlock K b = .ok (.error e, c') → c' = c) := by
  refine ⟨fun c hrun => ?_, fun a hrun => ?_, fun c c' b e hi => insertBlock_error_unchanged hi⟩
  · have h := insertBlocks_holds hg hnc hrun
    have hlast : c.getLastHeight + 1 = (appendAll K [g] blocks).length := Ledger.lastMeta_height h
    obtain ⟨hmeta, hhash⟩ := Ledger.lastMeta_block h
    refine ⟨by rw [h.len_eq, hlast], hlast, fun i hi => ?_, ?_, ?_⟩
    · -- (ii) the block of the chain at each height
      have hi' : i < (appendAll K [g] blocks).length := by omega
      have hmem := List.getElem_mem hi'
      obtain ⟨hs, hmap, hentry⟩ := h.txHashes_at _ hmem
      refine ⟨_, List.getElem?_eq_getElem hi', ?_, ⟨_, h.header_at _ hmem, h.height_eq i hi', rfl⟩,
        hs, hentry, hmap, h.tx_at _ hmem⟩
      rw [h.blockHashByHeight_eq, List.getElem?_eq_getElem hi']
      rfl
    · -- (iii) the meta's block is the last stored one
      rw [h.blockHashByHeight_eq, Chain.getLastHeight, Ledger.getLastBlockHeight, hmeta, hhash]
      rfl
    · rw [Chain.getLastHeight, Ledger.getLastBlockHeight, Ledger.getBlockByHeight_eq h.toStored h.toCached,
        hmeta]
  · -- (iv) the only panics
    have ha := insertBlocks_eq_error hg hnc hrun
    refine ⟨fun site hsite => ?_, ha⟩
    rcases ha with ha | ha | ha <;> rw [hsite] at ha <;> cases ha

/-! ## The parent hash -/

/-- `insert_block` appends the block at the next height to a ledger that
holds a chain whatever its parent hash: it stores the block, and the hashes
below it, the parent's among them, are the ones stored before. -/
theorem insertBlock_ignores_parent (h : Holds K l bs) (hnc : NoCollision K (bs ++ [b]))
    (hb : b.height = bs.length) (htx : ∀ tx ∈ b.transactions, ∃ k, tx.hash K = .ok k)
    (hmax : bs.length + 1 ≤ u64Max) :
    ∃ c', insertBlock K ⟨l⟩ b = .ok (.ok (), c') ∧ c'.ledger.getBlockByHeight b.height = .ok (some b) ∧
      ∀ i < b.height, c'.ledger.getBlockHashByHeight i = l.getBlockHashByHeight i := by
  have hlast : l.getLastBlockHeight + 1 = bs.length := Ledger.lastMeta_height h
  obtain ⟨db, hs, hput⟩ : ∃ db hs, Ledger.putTransactions K l.schema.transaction b.transactions = .ok (db, hs) :=
    Ledger.putTransactions_ok htx
  have hadd := Ledger.addBlock_eq_written (.inl (Ledger.lastMeta_lt h hb)) hput (by rw [h.len_eq, hb])
    (by omega)
  have hheld := Ledger.holds_written h.toStored h.toCached hnc hb hput
  refine ⟨⟨l.written K b db hs⟩, ?_, ?_, fun i hi => ?_⟩
  · -- the height is free, the next one does not overflow and is the block's
    unfold insertBlock
    rw [Ledger.getBlockByHeight_eq h.toStored h.toCached, List.getElem?_eq_none (by omega), ok_bind]
    simp only [Option.isSome_none, Bool.false_eq_true, if_false, u64Add, if_pos (by omega : l.getLastBlockHeight + 1 ≤ u64Max),
      ok_bind, if_neg (by omega : ¬ l.getLastBlockHeight + 1 < b.height), hadd]
    rfl
  · rw [Ledger.getBlockByHeight_eq hheld.toStored hheld.toCached, hb, List.getElem?_concat_length]
  · have hlt : i < bs.length := by omega
    simp only [Ledger.getBlockHashByHeight, hheld.blockHashByHeight_eq, h.blockHashByHeight_eq,
      List.getElem?_append_left hlt]

end Chain

/-! ## Runs on small inputs -/

/-- A genesis block of `Extern.toy`'s chain. -/
def toyGenesis : Block := ⟨Header.zeroHeader, []⟩

/-- A block of no transaction at a height, on a parent hash. -/
def toyBlock (height : Nat) (prevHash : Hash) : Block := ⟨{ Header.zeroHeader with height, prevHash }, []⟩

/-- The store invariant over runs from `Extern.toy`'s genesis ledger, over a
block at the next height and one above it. -/
theorem insertBlocks_store_invariant_toy :
    ∃ l₀, (Ledger.new .newZero [] .empty).addGenesisBlock Extern.toy toyGenesis = .ok l₀ ∧
    let blocks := [toyBlock 1 (toyGenesis.hash Extern.toy), toyBlock 3 emptyHash]
    (∀ c, Chain.insertBlocks Extern.toy ⟨l₀⟩ blocks = .ok c →
      c.ledger.schema.blockHashesByHeight.len.getD 0 = c.getLastHeight + 1 ∧
      c.getLastHeight + 1 = (appendAll Extern.toy [toyGenesis] blocks).length ∧
      (∀ h ≤ c.getLastHeight, ∃ b, (appendAll Extern.toy [toyGenesis] blocks)[h]? = some b ∧
        c.ledger.schema.blockHashByHeight h = some (b.hash Extern.toy) ∧
        (∃ hd, c.ledger.schema.headers (b.hash Extern.toy) = some hd ∧ hd.height = h ∧
          hd.blockHash Extern.toy = b.hash Extern.toy) ∧
        ∃ hs, c.ledger.schema.transactionHashes (b.hash Extern.toy) = some ⟨hs⟩ ∧
          b.transactions.mapM (Transaction.hash Extern.toy) = .ok hs ∧
          ∀ tx ∈ b.transactions, ∃ k, tx.hash Extern.toy = .ok k ∧ c.ledger.schema.transaction k = some tx) ∧
      c.ledger.schema.blockHashByHeight c.getLastHeight = some c.ledger.lastMeta.blockHash ∧
      c.ledger.getBlockByHeight c.getLastHeight = .ok (some c.ledger.lastMeta.block)) ∧
    (∀ a, Chain.insertBlocks Extern.toy ⟨l₀⟩ blocks = .error a →
      (∀ site, a ≠ .assertion site) ∧
        (a = .overflow .insertBlock ∨ a = .overflow .listPush ∨ a = .unwrap .transactionHash)) ∧
    (∀ (c c' : Chain) (b : Block) (e : ChainError),
      c.insertBlock Extern.toy b = .ok (.error e, c') → c' = c) := by
  have hnc : NoCollision Extern.toy [toyGenesis, toyBlock 1 (toyGenesis.hash Extern.toy), toyBlock 3 emptyHash] :=
    NoCollision.of_blocks (by decide) (by decide)
  obtain ⟨l₀, hl₀⟩ : ∃ l₀, (Ledger.new .newZero [] .empty).addGenesisBlock Extern.toy toyGenesis = .ok l₀ :=
    ⟨_, rfl⟩
  exact ⟨l₀, hl₀, Chain.insertBlocks_store_invariant (Ledger.addGenesisBlock_holds rfl (hnc.mono (by simp)) hl₀) hnc⟩

/-- `insert_block` on the genesis ledger of `Extern.toy`, of a block at
height 1 whose parent hash is not the genesis hash. -/
theorem insertBlock_ignores_parent_toy :
    ∃ l₀, (Ledger.new .newZero [] .empty).addGenesisBlock Extern.toy toyGenesis = .ok l₀ ∧
      ∃ c', Chain.insertBlock Extern.toy ⟨l₀⟩ (toyBlock 1 (bytesOf 32 [7])) = .ok (.ok (), c') ∧
        c'.ledger.getBlockByHeight (toyBlock 1 (bytesOf 32 [7])).height =
          .ok (some (toyBlock 1 (bytesOf 32 [7]))) ∧
        ∀ i < (toyBlock 1 (bytesOf 32 [7])).height,
          c'.ledger.getBlockHashByHeight i = l₀.getBlockHashByHeight i := by
  have hnc : NoCollision Extern.toy [toyGenesis, toyBlock 1 (bytesOf 32 [7])] :=
    NoCollision.of_blocks (by decide) (by decide)
  obtain ⟨l₀, hl₀⟩ : ∃ l₀, (Ledger.new .newZero [] .empty).addGenesisBlock Extern.toy toyGenesis = .ok l₀ :=
    ⟨_, rfl⟩
  exact ⟨l₀, hl₀, Chain.insertBlock_ignores_parent (Ledger.addGenesisBlock_holds rfl (hnc.mono (by simp)) hl₀)
    hnc rfl (by simp [toyBlock]) (by decide)⟩

/-- The genesis ledger of `Extern.toy` takes a block at height 1 whose
parent hash is not the genesis hash: the block stored at height 1 does not
link to the one stored at height 0. -/
theorem insertBlock_orphan_toy :
    ∃ l₀ c, (Ledger.new .newZero [] .empty).addGenesisBlock Extern.toy toyGenesis = .ok l₀ ∧
      Chain.insertBlocks Extern.toy ⟨l₀⟩ [toyBlock 1 (bytesOf 32 [7])] = .ok c ∧
      c.ledger.getBlockByHeight 1 = .ok (some (toyBlock 1 (bytesOf 32 [7]))) ∧
      c.ledger.getBlockHashByHeight 0 = some (toyGenesis.hash Extern.toy) ∧
      (toyBlock 1 (bytesOf 32 [7])).header.prevHash ≠ toyGenesis.hash Extern.toy :=
  ⟨_, _, rfl, rfl, rfl, rfl, by decide⟩

end ConsensusRs
