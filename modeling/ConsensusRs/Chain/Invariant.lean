import ConsensusRs.Chain.Ledger
import ConsensusRs.Framework.Except

/-!
# The ledger's store invariant

`Holds K l bs` says that the ledger `l` stores the chain `bs` and nothing
that contradicts it:

* `Stored`: the block at index `i` has height `i`; the height list holds
  the blocks' hashes and nothing past them, with its stored length; each
  block's header, its transaction hash list and each of its transactions
  are stored under their hashes;
* `Cached`: the two caches hold only stored blocks and headers;
* the meta is the last block's.

Every read of the ledger is then a read of `bs` (`getBlockByHeight_eq`,
`getHeaderByHeight_eq`, `getBlock_eq`), `addBlock` keeps the invariant for
the next block (`addBlock_holds`), `reloadMeta` restores the meta from the
store alone (`reloadMeta_holds`), and `storeGenesisBlock` on an empty store
starts it (`storeGenesisBlock_empty`).

The maps are keyed by hashes, so all this holds only while the hashes of the
stored blocks and transactions identify them. `NoCollision` says so of a
list of blocks; it is a hypothesis on the blocks of a run (keccak maps every
byte string to 32 bytes, so no assumption on all inputs could hold).
-/

namespace ConsensusRs

open Framework

variable (K : Extern)

/-- The hashes the ledger keys its maps with are collision-free on the
blocks `bs`: two of them with one block hash have one header, votes apart,
and two of their transactions with one hash are one transaction. -/
structure NoCollision (bs : List Block) : Prop where
  block : ∀ a ∈ bs, ∀ b ∈ bs, a.hash K = b.hash K →
    { a.header with votes := none } = { b.header with votes := none }
  transaction : ∀ a ∈ bs, ∀ b ∈ bs, ∀ tx ∈ a.transactions, ∀ tx' ∈ b.transactions, ∀ h,
    tx.hash K = .ok h → tx'.hash K = .ok h → tx = tx'

/-- What the store holds: the chain `bs`, block by block. -/
structure Stored (s : Schema) (bs : List Block) : Prop where
  noCollision : NoCollision K bs
  height_eq : ∀ i (hi : i < bs.length), bs[i].height = i
  len_eq : s.blockHashesByHeight.len.getD 0 = bs.length
  hash_at : ∀ i, s.blockHashesByHeight.elems i = bs[i]?.map (Block.hash K)
  header_at : ∀ b ∈ bs, s.headers (b.hash K) = some b.header
  txHashes_at : ∀ b ∈ bs, ∃ hs, b.transactions.mapM (Transaction.hash K) = .ok hs ∧
    s.transactionHashes (b.hash K) = some ⟨hs⟩
  tx_at : ∀ b ∈ bs, ∀ tx ∈ b.transactions, ∃ h, tx.hash K = .ok h ∧ s.transaction h = some tx

/-- What the caches hold: stored blocks and their headers, under their
hashes. -/
structure Cached (l : Ledger) (bs : List Block) : Prop where
  blockCache_mem : ∀ p ∈ l.blockCache.entries, ∃ b ∈ bs, p = (b.hash K, b)
  headerCache_mem : ∀ p ∈ l.headerCache.entries, ∃ b ∈ bs, p = (b.hash K, b.header)

/-- The ledger `l` holds the chain `bs`. -/
structure Holds (l : Ledger) (bs : List Block) : Prop extends Stored K l.schema bs, Cached K l bs where
  meta_eq : ∃ b, bs.getLast? = some b ∧ l.lastMeta = ⟨b.header.height, b.hash K, b.header, b⟩

variable {K}

/-! ## Collision-freeness -/

namespace NoCollision

variable {bs : List Block}

theorem mono {bs' : List Block} (h : NoCollision K bs) (hsub : bs' ⊆ bs) : NoCollision K bs' where
  block a ha b hb := h.block a (hsub ha) b (hsub hb)
  transaction a ha b hb := h.transaction a (hsub ha) b (hsub hb)

/-- Blocks with one hash have one height. -/
theorem height_eq {a b : Block} (h : NoCollision K bs) (ha : a ∈ bs) (hb : b ∈ bs)
    (hh : a.hash K = b.hash K) : a.height = b.height := by
  have := congrArg Header.height (h.block a ha b hb hh)
  simpa using this

/-- Blocks with no transactions are collision-free when their block hashes
are. -/
theorem of_blocks {bs : List Block}
    (hb : ∀ a ∈ bs, ∀ b ∈ bs, a.hash K = b.hash K →
      { a.header with votes := none } = { b.header with votes := none })
    (htx : ∀ b ∈ bs, b.transactions = []) : NoCollision K bs where
  block := hb
  transaction a ha _ _ tx htx' := by
    rw [htx a ha] at htx'
    exact absurd htx' List.not_mem_nil

/-- A block with no transaction on its own is collision-free. -/
theorem singleton {b : Block} (hb : b.transactions = []) : NoCollision K [b] where
  block a ha b' hb' _ := by
    rw [List.mem_singleton] at ha hb'
    rw [ha, hb']
  transaction a ha _ _ tx htx := by
    rw [List.mem_singleton] at ha
    rw [ha, hb] at htx
    exact absurd htx List.not_mem_nil

end NoCollision

/-! ## Reading a stored chain -/

namespace Stored

variable {s : Schema} {bs : List Block}

/-- A stored block sits at the index of its height. -/
theorem getElem?_height {b : Block} (h : Stored K s bs) (hb : b ∈ bs) : bs[b.height]? = some b := by
  obtain ⟨i, hi, rfl⟩ := List.getElem_of_mem hb
  rw [h.height_eq i hi]
  exact List.getElem?_eq_getElem hi

theorem height_lt {b : Block} (h : Stored K s bs) (hb : b ∈ bs) : b.height < bs.length := by
  have := h.getElem?_height hb
  exact (List.getElem?_eq_some_iff.mp this).1

/-- Two stored blocks with one hash are one block. -/
theorem eq_of_hash_eq {a b : Block} (h : Stored K s bs) (ha : a ∈ bs) (hb : b ∈ bs)
    (hh : a.hash K = b.hash K) : a = b := by
  have h₁ := h.getElem?_height ha
  rw [h.noCollision.height_eq ha hb hh, h.getElem?_height hb] at h₁
  exact (Option.some.inj h₁).symm

theorem blockHashByHeight_eq (h : Stored K s bs) (height : Nat) :
    s.blockHashByHeight height = bs[height]?.map (Block.hash K) :=
  h.hash_at height

/-- The block a stored header and its stored transactions make is the
stored block. -/
theorem loadBlock_eq {b : Block} (h : Stored K s bs) (hb : b ∈ bs) (site : Site) :
    s.loadBlock site (b.hash K) b.header = .ok b := by
  obtain ⟨hs, hmap, hentry⟩ := h.txHashes_at b hb
  -- each hash of the list looks up the transaction it is the hash of
  have hload : hs.mapM (fun h => unwrapAt site (s.transaction h)) = .ok b.transactions := by
    refine mapM_of_mapM (fun tx htx hh hhash => ?_) hmap
    obtain ⟨hh', hhash', hget⟩ := h.tx_at b hb tx htx
    rw [hhash] at hhash'
    cases hhash'
    rw [hget, unwrapAt_some]
  simp only [Schema.loadBlock, hentry, unwrapAt_some, bind_of_ok rfl, hload]
  rfl

end Stored

namespace Cached

variable {l : Ledger} {bs : List Block}

/-- The block cache returns, under a stored block's hash, that block. -/
theorem blockCache_get {b b' : Block} (hc : Cached K l bs) (hs : Stored K l.schema bs) (hb : b ∈ bs)
    (hget : l.blockCache.get (b.hash K) = some b') : b' = b := by
  obtain ⟨b'', hb'', hp⟩ := hc.blockCache_mem _ (LruCache.mem_of_get hget)
  simp only [Prod.mk.injEq] at hp
  obtain ⟨hh, rfl⟩ := hp
  exact hs.eq_of_hash_eq hb'' hb hh.symm

/-- The header cache returns, under a stored block's hash, its header. -/
theorem headerCache_get {b : Block} {hd : Header} (hc : Cached K l bs) (hs : Stored K l.schema bs)
    (hb : b ∈ bs) (hget : l.headerCache.get (b.hash K) = some hd) : hd = b.header := by
  obtain ⟨b'', hb'', hp⟩ := hc.headerCache_mem _ (LruCache.mem_of_get hget)
  simp only [Prod.mk.injEq] at hp
  obtain ⟨hh, rfl⟩ := hp
  rw [hs.eq_of_hash_eq hb'' hb hh.symm]

/-- Inserting a stored block, or its header, keeps the caches. -/
theorem insert {b : Block} (hc : Cached K l bs) (hb : b ∈ bs) :
    Cached K { l with blockCache := l.blockCache.insert (b.hash K) b,
                      headerCache := l.headerCache.insert (b.hash K) b.header } bs where
  blockCache_mem p hp := by
    rcases LruCache.mem_insert hp with rfl | hp
    · exact ⟨b, hb, rfl⟩
    · exact hc.blockCache_mem p hp
  headerCache_mem p hp := by
    rcases LruCache.mem_insert hp with rfl | hp
    · exact ⟨b, hb, rfl⟩
    · exact hc.headerCache_mem p hp

theorem insert_header {b : Block} (hc : Cached K l bs) (hb : b ∈ bs) :
    Cached K { l with headerCache := l.headerCache.insert (b.hash K) b.header } bs where
  blockCache_mem := hc.blockCache_mem
  headerCache_mem p hp := by
    rcases LruCache.mem_insert hp with rfl | hp
    · exact ⟨b, hb, rfl⟩
    · exact hc.headerCache_mem p hp

/-- Fresh caches hold nothing. -/
theorem new (m : LastMeta) (vs : List Validator) (s : Schema) : Cached K (Ledger.new m vs s) bs where
  blockCache_mem _ hp := absurd hp List.not_mem_nil
  headerCache_mem _ hp := absurd hp List.not_mem_nil

end Cached

namespace Ledger

variable {l : Ledger} {bs : List Block}

/-- `get_block_by_height` returns the stored block at the height, whichever
blocks the cache holds. -/
theorem getBlockByHeight_eq (hs : Stored K l.schema bs) (hc : Cached K l bs) (height : Nat) :
    l.getBlockByHeight height = .ok bs[height]? := by
  unfold Ledger.getBlockByHeight
  rw [hs.blockHashByHeight_eq]
  cases hb : bs[height]? with
  | none => rfl
  | some b =>
    have hmem : b ∈ bs := List.mem_of_getElem? hb
    simp only [Option.map_some]
    -- a cache hit is the block itself; a miss reads the store
    cases hget : l.blockCache.get (b.hash K) with
    | some b' =>
      rw [hc.blockCache_get hs hmem hget]
      rfl
    | none =>
      simp only [hs.header_at b hmem, hs.loadBlock_eq hmem]
      rfl

/-- `get_header_by_height` returns the stored header at the height, and
keeps the invariant with what it caches. -/
theorem getHeaderByHeight_eq (hs : Stored K l.schema bs) (hc : Cached K l bs) (height : Nat) :
    (l.getHeaderByHeight height).1 = bs[height]?.map Block.header ∧
      (l.getHeaderByHeight height).2.schema = l.schema ∧
      (l.getHeaderByHeight height).2.lastMeta = l.lastMeta ∧
      Cached K (l.getHeaderByHeight height).2 bs := by
  unfold Ledger.getHeaderByHeight
  rw [hs.blockHashByHeight_eq]
  cases hb : bs[height]? with
  | none => exact ⟨rfl, rfl, rfl, hc⟩
  | some b =>
    have hmem : b ∈ bs := List.mem_of_getElem? hb
    simp only [Option.map_some]
    cases hget : l.headerCache.get (b.hash K) with
    | some hd => exact ⟨by rw [hc.headerCache_get hs hmem hget], rfl, rfl, hc⟩
    | none =>
      rw [hs.header_at b hmem]
      exact ⟨rfl, rfl, rfl, hc.insert_header hmem⟩

/-- `get_block` of a stored block's hash returns the block, and keeps the
invariant with what it caches. -/
theorem getBlock_eq {b : Block} (hs : Stored K l.schema bs) (hc : Cached K l bs) (hb : b ∈ bs) :
    ∃ l', l.getBlock (b.hash K) = .ok (some b, l') ∧ l'.schema = l.schema ∧ l'.lastMeta = l.lastMeta ∧
      l'.genesis = l.genesis ∧ Cached K l' bs := by
  unfold Ledger.getBlock
  cases hget : l.blockCache.get (b.hash K) with
  | some b' =>
    rw [hc.blockCache_get hs hb hget]
    exact ⟨l, rfl, rfl, rfl, rfl, hc⟩
  | none =>
    refine ⟨{ l with blockCache := l.blockCache.insert (b.hash K) b,
                     headerCache := l.headerCache.insert (b.hash K) b.header }, ?_, rfl, rfl, rfl, hc.insert hb⟩
    simp only [hs.header_at b hb, hs.loadBlock_eq hb, bind_of_ok rfl]
    rfl

/-! ## The transaction loop of `add_block` -/

section putTransactions

variable {db db' : Hash → Option Transaction} {txs : List Transaction} {hs : List Hash}

theorem putTransactions_cons_eq_ok {tx : Transaction} :
    putTransactions K db (tx :: txs) = .ok (db', hs) ↔
      ∃ h hs', tx.hash K = .ok h ∧
        putTransactions K (Function.update db h (some tx)) txs = .ok (db', hs') ∧ hs = h :: hs' := by
  simp only [putTransactions, bind_eq_ok]
  constructor
  · rintro ⟨h, hh, ⟨db₁, hs₁⟩, hrest, hr⟩
    simp only [pure_eq_ok, Prod.mk.injEq] at hr
    obtain ⟨rfl, rfl⟩ := hr
    exact ⟨h, hs₁, hh, hrest, rfl⟩
  · rintro ⟨h, hs', hh, hrest, rfl⟩
    exact ⟨h, hh, (db', hs'), hrest, rfl⟩

theorem putTransactions_nil_eq_ok : putTransactions K db [] = .ok (db', hs) ↔ db' = db ∧ hs = [] := by
  simp only [putTransactions, pure_eq_ok, Prod.mk.injEq]
  exact and_congr eq_comm eq_comm

/-- The hash list the loop builds is the transactions' hashes. -/
theorem putTransactions_mapM (h : putTransactions K db txs = .ok (db', hs)) :
    txs.mapM (Transaction.hash K) = .ok hs := by
  induction txs generalizing db hs with
  | nil =>
    obtain ⟨-, rfl⟩ := Iff.mp putTransactions_nil_eq_ok h
    rfl
  | cons tx txs ih =>
    obtain ⟨k, hs', hk, hrest, rfl⟩ := Iff.mp putTransactions_cons_eq_ok h
    exact Iff.mpr mapM_cons_eq_ok ⟨k, hs', hk, ih hrest, rfl⟩

/-- The loop writes under a hash only one of the transactions with that
hash. -/
theorem putTransactions_get (h : putTransactions K db txs = .ok (db', hs)) (k : Hash) :
    db' k = db k ∨ ∃ tx ∈ txs, tx.hash K = .ok k ∧ db' k = some tx := by
  induction txs generalizing db hs with
  | nil =>
    obtain ⟨rfl, -⟩ := Iff.mp putTransactions_nil_eq_ok h
    exact .inl rfl
  | cons tx txs ih =>
    obtain ⟨h₀, hs', hh, hrest, rfl⟩ := Iff.mp putTransactions_cons_eq_ok h
    rcases ih hrest with hk | ⟨tx', htx', hh', hk⟩
    · by_cases hk₀ : k = h₀
      · subst hk₀
        exact .inr ⟨tx, List.mem_cons_self, hh, by rw [hk, Function.update_self]⟩
      · exact .inl (by rw [hk, Function.update_of_ne hk₀])
    · exact .inr ⟨tx', List.mem_cons_of_mem tx htx', hh', hk⟩

/-- Under each transaction's hash the loop leaves one of the transactions
with that hash. -/
theorem putTransactions_mem (h : putTransactions K db txs = .ok (db', hs)) :
    ∀ tx ∈ txs, ∃ k, tx.hash K = .ok k ∧ ∃ tx' ∈ txs, tx'.hash K = .ok k ∧ db' k = some tx' := by
  induction txs generalizing db hs with
  | nil => exact fun _ htx => absurd htx List.not_mem_nil
  | cons tx txs ih =>
    obtain ⟨h₀, hs', hh, hrest, rfl⟩ := Iff.mp putTransactions_cons_eq_ok h
    intro t ht
    rcases List.mem_cons.mp ht with rfl | ht
    · refine ⟨h₀, hh, ?_⟩
      rcases putTransactions_get hrest h₀ with hk | ⟨tx', htx', hh', hk⟩
      · exact ⟨t, List.mem_cons_self, hh, by rw [hk, Function.update_self]⟩
      · exact ⟨tx', List.mem_cons_of_mem _ htx', hh', hk⟩
    · obtain ⟨k, hk, tx', htx', hh', hget⟩ := ih hrest t ht
      exact ⟨k, hk, tx', List.mem_cons_of_mem _ htx', hh', hget⟩

/-- The loop runs through when every transaction has a hash. -/
theorem putTransactions_ok (htx : ∀ tx ∈ txs, ∃ k, tx.hash K = .ok k) :
    ∃ db' hs, putTransactions K db txs = .ok (db', hs) := by
  induction txs generalizing db with
  | nil => exact ⟨db, [], rfl⟩
  | cons tx txs ih =>
    obtain ⟨k, hk⟩ := htx tx List.mem_cons_self
    obtain ⟨db', hs, hrest⟩ : ∃ db' hs, putTransactions K (Function.update db k (some tx)) txs = .ok (db', hs) :=
      ih fun tx' htx' => htx tx' (List.mem_cons_of_mem _ htx')
    exact ⟨db', k :: hs, Iff.mpr putTransactions_cons_eq_ok ⟨k, hs, hk, hrest, rfl⟩⟩

/-- The loop panics only where a transaction's hash does. -/
theorem putTransactions_eq_error {a : Abort} (h : putTransactions K db txs = .error a) :
    a = .unwrap .transactionHash := by
  induction txs generalizing db with
  | nil => exact absurd h pure_ne_error
  | cons tx txs ih =>
    simp only [putTransactions] at h
    rcases Iff.mp bind_eq_error h with h | ⟨k, -, h⟩
    · exact Transaction.hash_eq_error K h
    rcases Iff.mp bind_eq_error h with h | ⟨_, -, h⟩
    · exact ih h
    · exact absurd h pure_ne_error

end putTransactions

/-! ## Adding a block -/

/-- The ledger `add_block` writes for a block above the last one: the
block's transactions, header and hash list stored under their hashes, the
block's hash at its height in the height list, the block cached and the
meta its own. -/
def written (K : Extern) (l : Ledger) (b : Block) (db : Hash → Option Transaction) (hs : List Hash) : Ledger :=
  Ledger.updateMeta K { l with
    schema := ⟨db, Function.update l.schema.transactionHashes (b.hash K) (some ⟨hs⟩),
      Function.update l.schema.headers (b.hash K) (some b.header),
      ⟨Function.update l.schema.blockHashesByHeight.elems b.height (some (b.hash K)),
        some (b.height + 1)⟩⟩
    headerCache := l.headerCache.insert (b.hash K) b.header
    blockCache := l.blockCache.insert (b.hash K) b } b

variable {l l' : Ledger} {b : Block} {db : Hash → Option Transaction} {hs : List Hash}

@[simp] theorem written_transaction : (l.written K b db hs).schema.transaction = db := rfl

@[simp] theorem written_transactionHashes :
    (l.written K b db hs).schema.transactionHashes =
      Function.update l.schema.transactionHashes (b.hash K) (some ⟨hs⟩) := rfl

@[simp] theorem written_headers :
    (l.written K b db hs).schema.headers = Function.update l.schema.headers (b.hash K) (some b.header) :=
  rfl

@[simp] theorem written_elems :
    (l.written K b db hs).schema.blockHashesByHeight.elems =
      Function.update l.schema.blockHashesByHeight.elems b.height (some (b.hash K)) := rfl

@[simp] theorem written_len : (l.written K b db hs).schema.blockHashesByHeight.len = some (b.height + 1) :=
  rfl

@[simp] theorem written_lastMeta :
    (l.written K b db hs).lastMeta = ⟨b.header.height, b.hash K, b.header, b⟩ := rfl

@[simp] theorem written_blockCache :
    (l.written K b db hs).blockCache = l.blockCache.insert (b.hash K) b := rfl

@[simp] theorem written_headerCache :
    (l.written K b db hs).headerCache = l.headerCache.insert (b.hash K) b.header := rfl

/-- A block above the last one, or at height 0, passes the guard of
`add_block`. -/
theorem addBlock_guard (hnew : l.lastMeta.header.height < b.height ∨ b.height = 0) :
    ¬ (l.lastMeta.header.height ≥ b.header.height ∧ b.height ≠ 0) := by
  simp only [Block.height_def] at hnew ⊢
  omega

/-- `add_block` of a block above the last one (or a genesis), when it returns: its
transactions went through the loop, the second assertion made the old
length of the height list the block's height, and the ledger is `written`. -/
theorem addBlock_eq_ok (hnew : l.lastMeta.header.height < b.height ∨ b.height = 0)
    (h : l.addBlock K b = .ok l') :
    ∃ db hs, putTransactions K l.schema.transaction b.transactions = .ok (db, hs) ∧
      l.schema.blockHashesByHeight.len.getD 0 = b.height ∧ l' = l.written K b db hs := by
  simp only [Ledger.addBlock, if_neg (addBlock_guard hnew), bind_eq_ok] at h
  obtain ⟨⟨db, hs⟩, hput, idx, hpush, h⟩ := h
  obtain ⟨-, rfl⟩ := ListIndex.push_new hpush
  -- the pushed list ends in the hash and has one more entry
  simp only [ListIndex.last, ListIndex.len, Nat.add_eq_zero_iff, Nat.succ_ne_self, and_false,
    ↓reduceIte, ListIndex.get, Nat.add_one_sub_one, Function.update_self, unwrapAt_some,
    Except.ok.injEq, assertAt, ite_eq_left_iff, reduceCtorEq, imp_false, Decidable.not_not,
    Block.height_def, Nat.add_right_cancel_iff, pure_eq_ok, exists_const, exists_eq_left',
    true_and] at h
  obtain ⟨hlen, rfl⟩ := h
  refine ⟨db, hs, hput, hlen, ?_⟩
  rw [written, Block.height_def, ← hlen]
  rfl

/-- `add_block` of a block above the last one, whose height is the length of
the height list and whose transactions go through the loop, returns the
`written` ledger, unless the new length overflows. -/
theorem addBlock_eq_written (hnew : l.lastMeta.header.height < b.height ∨ b.height = 0)
    (hput : putTransactions K l.schema.transaction b.transactions = .ok (db, hs))
    (hlen : l.schema.blockHashesByHeight.len.getD 0 = b.height) (hmax : b.height + 1 ≤ u64Max) :
    l.addBlock K b = .ok (l.written K b db hs) := by
  have hpush : (ListIndex.new l.schema.blockHashesByHeight).push (b.hash K) =
      .ok ⟨⟨Function.update l.schema.blockHashesByHeight.elems b.height (some (b.hash K)),
        some (b.height + 1)⟩, some (b.height + 1)⟩ := by
    simp only [ListIndex.push, ListIndex.len_new, hlen, ok_bind, u64Add, if_pos hmax]
    rfl
  simp only [Ledger.addBlock, if_neg (addBlock_guard hnew), hput, ok_bind]
  erw [hpush]
  simp [ListIndex.last, ListIndex.len, ListIndex.get, assertAt, Block.hash]
  rfl

/-- `add_block` of the block at the next height never fails an assertion:
it panics only in a transaction's hash or in the push's length. -/
theorem addBlock_eq_error (hnew : l.lastMeta.header.height < b.height ∨ b.height = 0)
    (hlen : l.schema.blockHashesByHeight.len.getD 0 = b.height) {a : Abort}
    (h : l.addBlock K b = .error a) : a = .unwrap .transactionHash ∨ a = .overflow .listPush := by
  simp only [Ledger.addBlock, if_neg (addBlock_guard hnew)] at h
  rcases Iff.mp bind_eq_error h with h | ⟨⟨db, hs⟩, -, h⟩
  · exact .inl (putTransactions_eq_error h)
  rcases Iff.mp bind_eq_error h with h | ⟨idx, hpush, h⟩
  · exact .inr (ListIndex.push_eq_error h)
  obtain ⟨-, rfl⟩ := ListIndex.push_new hpush
  -- both assertions hold, so the block returns
  simp [ListIndex.last, ListIndex.len, ListIndex.get, assertAt, hlen] at h

/-! ## The invariant across `add_block` -/

section written

variable {bs : List Block}

/-- A block at the next height has a hash no stored block has. -/
theorem hash_ne_of_next {b' : Block} (h : Stored K l.schema bs) (hnc : NoCollision K (bs ++ [b]))
    (hb : b.height = bs.length) (hb' : b' ∈ bs) : b'.hash K ≠ b.hash K := by
  intro hh
  have := hnc.height_eq (List.mem_append_left _ hb') (List.mem_append_right _ (List.mem_singleton_self b)) hh
  have := h.height_lt hb'
  omega

theorem stored_written (h : Stored K l.schema bs) (hnc : NoCollision K (bs ++ [b]))
    (hb : b.height = bs.length)
    (hput : putTransactions K l.schema.transaction b.transactions = .ok (db, hs)) :
    Stored K (l.written K b db hs).schema (bs ++ [b]) where
  noCollision := hnc
  height_eq i hi := by
    rw [List.length_append, List.length_singleton] at hi
    rcases Nat.lt_succ_iff_lt_or_eq.mp hi with hi | rfl
    · rw [List.getElem_append_left hi]
      exact h.height_eq i hi
    · rw [List.getElem_concat_length rfl]
      exact hb
  len_eq := by
    rw [written_len, Option.getD_some, List.length_append, List.length_singleton, hb]
  hash_at i := by
    rw [written_elems]
    -- below the new height the old list, at it the new hash, above it nothing
    rcases lt_trichotomy i bs.length with hi | rfl | hi
    · rw [Function.update_of_ne (by omega), List.getElem?_append_left hi]
      exact h.hash_at i
    · rw [hb, Function.update_self, List.getElem?_concat_length]
      rfl
    · rw [Function.update_of_ne (by omega), h.hash_at i, List.getElem?_eq_none (by omega),
        List.getElem?_eq_none (by simp only [List.length_append, List.length_singleton]; omega)]
  header_at b' hb' := by
    rw [written_headers]
    rcases List.mem_append.mp hb' with hb' | hb'
    · rw [Function.update_of_ne (hash_ne_of_next h hnc hb hb')]
      exact h.header_at b' hb'
    · rw [List.mem_singleton.mp hb', Function.update_self]
  txHashes_at b' hb' := by
    rw [written_transactionHashes]
    rcases List.mem_append.mp hb' with hb' | hb'
    · rw [Function.update_of_ne (hash_ne_of_next h hnc hb hb')]
      exact h.txHashes_at b' hb'
    · rw [List.mem_singleton.mp hb', Function.update_self]
      exact ⟨hs, putTransactions_mapM hput, rfl⟩
  tx_at b' hb' tx htx := by
    rw [written_transaction]
    have hbmem : b ∈ bs ++ [b] := List.mem_append_right _ (List.mem_singleton_self b)
    rcases List.mem_append.mp hb' with hb'' | hb''
    · -- an old transaction: the loop left it, or wrote one with its hash, which is it
      obtain ⟨k, hk, hget⟩ := h.tx_at b' hb'' tx htx
      refine ⟨k, hk, ?_⟩
      rcases putTransactions_get hput k with hk' | ⟨tx', htx', hk', hget'⟩
      · rw [hk', hget]
      · rw [hget', hnc.transaction b hbmem b' hb' tx' htx' tx htx k hk' hk]
    · rw [List.mem_singleton.mp hb''] at htx
      obtain ⟨k, hk, tx', htx', hk', hget⟩ := putTransactions_mem hput tx htx
      exact ⟨k, hk, by rw [hget, hnc.transaction b hbmem b hbmem tx' htx' tx htx k hk' hk]⟩

theorem cached_written (hc : Cached K l bs) : Cached K (l.written K b db hs) (bs ++ [b]) where
  blockCache_mem p hp := by
    rw [written_blockCache] at hp
    rcases LruCache.mem_insert hp with rfl | hp
    · exact ⟨b, List.mem_append_right _ (List.mem_singleton_self b), rfl⟩
    · obtain ⟨b', hb', rfl⟩ := hc.blockCache_mem p hp
      exact ⟨b', List.mem_append_left _ hb', rfl⟩
  headerCache_mem p hp := by
    rw [written_headerCache] at hp
    rcases LruCache.mem_insert hp with rfl | hp
    · exact ⟨b, List.mem_append_right _ (List.mem_singleton_self b), rfl⟩
    · obtain ⟨b', hb', rfl⟩ := hc.headerCache_mem p hp
      exact ⟨b', List.mem_append_left _ hb', rfl⟩

/-- What `add_block` writes for the next block holds the chain with the
block appended. -/
theorem holds_written (h : Stored K l.schema bs) (hc : Cached K l bs) (hnc : NoCollision K (bs ++ [b]))
    (hb : b.height = bs.length)
    (hput : putTransactions K l.schema.transaction b.transactions = .ok (db, hs)) :
    Holds K (l.written K b db hs) (bs ++ [b]) where
  toStored := stored_written h hnc hb hput
  toCached := cached_written hc
  meta_eq := ⟨b, List.getLast?_concat, rfl⟩

end written

variable {bs : List Block}

/-- The meta of a ledger that holds a chain is at the chain's last height. -/
theorem lastMeta_height (h : Holds K l bs) : l.lastMeta.height + 1 = bs.length := by
  obtain ⟨last, hlast, hmeta⟩ := h.meta_eq
  have hne : bs ≠ [] := fun hnil => by rw [hnil] at hlast; cases hlast
  have hidx : bs.length - 1 < bs.length := by
    have := List.length_pos_of_ne_nil hne
    omega
  have hget : bs[bs.length - 1] = last := by
    rw [List.getLast?_eq_getElem?, List.getElem?_eq_getElem hidx] at hlast
    exact Option.some.inj hlast
  have := h.height_eq _ hidx
  rw [hget, Block.height_def] at this
  rw [hmeta]
  dsimp only
  omega

/-- The meta's block is the chain's block at the meta's height, and its hash
the block's. -/
theorem lastMeta_block (h : Holds K l bs) :
    bs[l.lastMeta.height]? = some l.lastMeta.block ∧ l.lastMeta.blockHash = l.lastMeta.block.hash K := by
  obtain ⟨last, hlast, hmeta⟩ := h.meta_eq
  rw [hmeta]
  exact ⟨h.getElem?_height (List.mem_of_getLast? hlast), rfl⟩

/-- Two ledgers that hold one chain have one meta. -/
theorem lastMeta_eq_of_holds {l₁ l₂ : Ledger} (h₁ : Holds K l₁ bs) (h₂ : Holds K l₂ bs) :
    l₁.lastMeta = l₂.lastMeta := by
  obtain ⟨b₁, hb₁, hmeta₁⟩ := h₁.meta_eq
  obtain ⟨b₂, hb₂, hmeta₂⟩ := h₂.meta_eq
  rw [hb₁, Option.some.injEq] at hb₂
  rw [hmeta₁, hmeta₂, hb₂]

/-- The last block of a ledger that holds a chain is below every block at
the next height. -/
theorem lastMeta_lt (h : Holds K l bs) (hb : b.height = bs.length) :
    l.lastMeta.header.height < b.height := by
  obtain ⟨last, hlast, hmeta⟩ := h.meta_eq
  have := h.height_lt (List.mem_of_getLast? hlast)
  rw [hmeta]
  simp only [Block.height_def] at this hb ⊢
  omega

/-- `add_block` of the block at the next height appends it to the chain the
ledger holds. -/
theorem addBlock_holds (h : Holds K l bs) (hnc : NoCollision K (bs ++ [b])) (hb : b.height = bs.length)
    (hadd : l.addBlock K b = .ok l') : Holds K l' (bs ++ [b]) := by
  obtain ⟨db, hs, hput, -, rfl⟩ := addBlock_eq_ok (.inl (lastMeta_lt h hb)) hadd
  exact holds_written h.toStored h.toCached hnc hb hput

/-! ## Reloading the meta, and the genesis block -/

/-- The empty store holds the empty chain. -/
theorem stored_empty : Stored K Schema.empty [] where
  noCollision := ⟨fun _ h => absurd h List.not_mem_nil, fun _ h => absurd h List.not_mem_nil⟩
  height_eq _ hi := absurd hi (Nat.not_lt_zero _)
  len_eq := rfl
  hash_at _ := rfl
  header_at _ h := absurd h List.not_mem_nil
  txHashes_at _ h := absurd h List.not_mem_nil
  tx_at _ h := absurd h List.not_mem_nil

/-- The last entry of the height list is the last block's hash. -/
theorem last_eq {last : Block} (h : Stored K l.schema bs) (hlast : bs.getLast? = some last) :
    (ListIndex.new l.schema.blockHashesByHeight).last.1 = some (last.hash K) := by
  have hne : bs.length ≠ 0 := by
    intro h0
    rw [List.length_eq_zero_iff.mp h0] at hlast
    cases hlast
  simp only [ListIndex.last, ListIndex.len_new, h.len_eq, if_neg hne, ListIndex.get, h.hash_at,
    ← List.getLast?_eq_getElem?, hlast, Option.map_some]

/-- `reload_meta` on a store that holds a chain makes the meta the last
block's, whatever it was. -/
theorem reloadMeta_holds (hs : Stored K l.schema bs) (hc : Cached K l bs) (hne : bs ≠ []) :
    ∃ l', l.reloadMeta K = .ok l' ∧ Holds K l' bs ∧ l'.schema = l.schema ∧ l'.genesis = l.genesis := by
  obtain ⟨last, hlast⟩ := Option.isSome_iff_exists.mp (List.getLast?_isSome.mpr hne)
  obtain ⟨l₁, hget, hschema, -, hgen, hc₁⟩ := getBlock_eq hs hc (List.mem_of_getLast? hlast)
  have hs₁ : Stored K (l₁.updateMeta K last).schema bs := by
    rw [updateMeta_schema, hschema]
    exact hs
  refine ⟨l₁.updateMeta K last, ?_, ⟨hs₁, ⟨hc₁.1, hc₁.2⟩, last, hlast, rfl⟩, hschema, hgen⟩
  simp only [reloadMeta, last_eq hs hlast, unwrapAt_some, ok_bind, hget]
  rfl

/-- `get_genesis_block` on a store that holds a chain finds a genesis. -/
theorem getGenesisBlock_some (hs : Stored K l.schema bs) (hc : Cached K l bs) (hne : bs ≠ []) :
    ∃ g l₁, l.getGenesisBlock = .ok (some g, l₁) ∧ l₁.schema = l.schema ∧ Cached K l₁ bs := by
  unfold getGenesisBlock
  cases hg : l.genesis with
  | some g => exact ⟨g, l, rfl, rfl, hc⟩
  | none =>
    obtain ⟨g, hg₀⟩ : ∃ g, bs[0]? = some g := by
      cases bs with
      | nil => exact absurd rfl hne
      | cons g _ => exact ⟨g, rfl⟩
    rw [getBlockByHeight_eq hs hc 0, ok_bind, hg₀]
    exact ⟨g, _, rfl, rfl, ⟨hc.1, hc.2⟩⟩

/-- `store_genesis_block` on a store that holds a chain only reloads the
meta: the ledger then holds the chain, over the same store. -/
theorem storeGenesisBlock_stored (cfg : GenesisConfig) (hs : Stored K l.schema bs) (hc : Cached K l bs)
    (hne : bs ≠ []) :
    ∃ l', storeGenesisBlock K cfg l = .ok (.ok (), l') ∧ Holds K l' bs ∧ l'.schema = l.schema := by
  obtain ⟨g, l₁, hgen, hschema, hc₁⟩ := getGenesisBlock_some hs hc hne
  obtain ⟨l₂, hre, hholds, hschema₂, -⟩ := reloadMeta_holds (hschema ▸ hs) hc₁ hne
  refine ⟨l₂, ?_, hholds, hschema₂.trans hschema⟩
  simp only [storeGenesisBlock, hgen, ok_bind, hre]
  rfl

/-- `add_genesis_block` returns what `add_block` returns, with the genesis
kept. -/
theorem addGenesisBlock_eq_ok :
    l.addGenesisBlock K b = .ok l' ↔ ∃ l₁, l.addBlock K b = .ok l₁ ∧ l' = { l₁ with genesis := some b } := by
  simp only [addGenesisBlock, bind_eq_ok, pure_eq_ok]
  exact exists_congr fun _ => and_congr Iff.rfl eq_comm

/-- `add_genesis_block` on an empty store holds the one block. -/
theorem addGenesisBlock_holds {m : LastMeta} {vs : List Validator} (hb : b.height = 0)
    (hnc : NoCollision K [b]) (h : (Ledger.new m vs Schema.empty).addGenesisBlock K b = .ok l) :
    Holds K l [b] := by
  obtain ⟨l₁, hadd, rfl⟩ := Iff.mp addGenesisBlock_eq_ok h
  obtain ⟨db, hs, hput, -, rfl⟩ := addBlock_eq_ok (.inr hb) hadd
  have hheld := holds_written (l := Ledger.new m vs Schema.empty) stored_empty (Cached.new m vs Schema.empty)
    hnc hb hput
  -- the genesis field is not part of the invariant
  exact ⟨hheld.toStored, ⟨hheld.blockCache_mem, hheld.headerCache_mem⟩, hheld.meta_eq⟩

/-- `store_genesis_block` on an empty store that returns `Ok` leaves the
ledger holding one block, at height 0 and with no transaction: the chain
every run of `insert_block` starts from. -/
theorem storeGenesisBlock_empty {cfg : GenesisConfig} {m : LastMeta} {vs : List Validator}
    (h : storeGenesisBlock K cfg (Ledger.new m vs Schema.empty) = .ok (.ok (), l)) :
    ∃ g : Block, g.height = 0 ∧ g.transactions = [] ∧ Holds K l [g] := by
  -- the empty store has no genesis, so the config's block is added
  have hgen : (Ledger.new m vs Schema.empty).getGenesisBlock = .ok (none, Ledger.new m vs Schema.empty) :=
    rfl
  simp only [storeGenesisBlock, hgen, ok_bind, bind_eq_ok] at h
  obtain ⟨validators, -, h⟩ := h
  split at h
  · simp at h
  · simp at h
  rename_i proposer time _ _
  cases hgas : u64Add .storeGenesisBlock cfg.gasUsed 10 with
  | error e => simp [hgas] at h
  | ok gasLimit =>
  simp only [hgas, ok_bind, bind_eq_ok, pure_eq_ok, Prod.mk.injEq] at h
  obtain ⟨l₁, hadd, -, rfl⟩ := h
  exact ⟨_, rfl, rfl, addGenesisBlock_holds rfl (NoCollision.singleton rfl) hadd⟩

end Ledger

end ConsensusRs
