import ConsensusRs.Store.Index
import ConsensusRs.Types.Crypto

/-!
# The ledger

`core::ledger::Ledger` over its `Schema` (`store::schema`): the persisted
indices (`Schema`), the meta of the last block (`LastMeta`), two caches, the
genesis block and the validator list. `core::genesis::store_genesis_block`
and `core::chain::Chain::insert_block`, the only writer of blocks after the
genesis, are here too.

Reads that the code does through `&self` still change the caches: a miss in
`get_block` fills both, a miss in `get_header_by_height` the header cache.
Those reads return the ledger after them. Every `unwrap` and `assert` of
the code is a `unwrapAt` or `assertAt` at its site; a panic ends the call.
-/

namespace ConsensusRs

variable (K : Extern)

/-- The indices of `Schema` the ledger writes: `transaction`
(`core.transaction_hash`), `transaction_hashes` (`core.transaction_block`),
`headers` and `block_hashes_by_height`. -/
structure Schema where
  transaction : Hash → Option Transaction
  transactionHashes : Hash → Option HashesEntry
  headers : Hash → Option Header
  blockHashesByHeight : ListStore Hash

/-- A store with no key. -/
def Schema.empty : Schema := ⟨fun _ => none, fun _ => none, fun _ => none, .empty⟩

/-- `Schema::block_hash_by_height`: a fresh `ListIndex`'s `get`. -/
def Schema.blockHashByHeight (s : Schema) (height : Nat) : Option Hash :=
  (ListIndex.new s.blockHashesByHeight).get height

/-- The block a stored header and its stored transaction list make, as
`get_block` and `get_block_by_height` build it, with their `unwrap`s. -/
def Schema.loadBlock (s : Schema) (site : Site) (hash : Hash) (header : Header) :
    Except Abort Block := do
  let entry ← unwrapAt site (s.transactionHashes hash)
  let transactions ← entry.hashes.mapM fun h => unwrapAt site (s.transaction h)
  pure ⟨header, transactions⟩

/-- `LastMeta`. -/
structure LastMeta where
  height : Nat
  blockHash : Hash
  header : Header
  block : Block

/-- `Header::zero_header`. -/
def Header.zeroHeader : Header :=
  { prevHash := emptyHash, proposer := emptyAddress, root := emptyHash, txHash := emptyHash,
    receiptHash := emptyHash, bloom := 0, difficulty := 0, height := 0, gasLimit := 0, gasUsed := 0,
    time := 0, extra := none, votes := none }

/-- `LastMeta::new_zero`. -/
def LastMeta.newZero : LastMeta := ⟨0, emptyHash, Header.zeroHeader, ⟨Header.zeroHeader, []⟩⟩

/-- `core::ledger::Ledger`. -/
structure Ledger where
  lastMeta : LastMeta
  headerCache : LruCache Hash Header
  blockCache : LruCache Hash Block
  genesis : Option Block
  validators : List Validator
  schema : Schema

namespace Ledger

/-- `Ledger::new` as `cmd` and the tests call it: the given meta and store,
two empty caches of capacity `1 << 10`. -/
def new (lastMeta : LastMeta) (validators : List Validator) (schema : Schema) : Ledger :=
  ⟨lastMeta, .withCapacity 1024, .withCapacity 1024, none, validators, schema⟩

/-- `Ledger::get_last_block_height`. -/
def getLastBlockHeight (l : Ledger) : Nat := l.lastMeta.height

/-- `Ledger::get_block_hash_by_height`. -/
def getBlockHashByHeight (l : Ledger) (height : Nat) : Option Hash :=
  l.schema.blockHashByHeight height

/-- `Ledger::get_block`: the block cache, else the store, caching what it
finds in both caches. -/
def getBlock (l : Ledger) (hash : Hash) : Except Abort (Option Block × Ledger) :=
  match l.blockCache.get hash with
  | some block => pure (some block, l)
  | none =>
    match l.schema.headers hash with
    | none => pure (none, l)
    | some header => do
      let block ← l.schema.loadBlock .getBlock hash header
      pure (some block,
        { l with blockCache := l.blockCache.insert hash block,
                 headerCache := l.headerCache.insert hash block.header })

/-- `Ledger::get_block_by_height`: the block cache, else the store (caching
nothing). -/
def getBlockByHeight (l : Ledger) (height : Nat) : Except Abort (Option Block) :=
  match l.schema.blockHashByHeight height with
  | none => pure none
  | some hash =>
    match l.blockCache.get hash with
    | some block => pure (some block)
    | none =>
      match l.schema.headers hash with
      | none => pure none
      | some header => some <$> l.schema.loadBlock .getBlockByHeight hash header

/-- `Ledger::get_header_by_height`: the header cache, else the store,
caching what it finds. -/
def getHeaderByHeight (l : Ledger) (height : Nat) : Option Header × Ledger :=
  match l.schema.blockHashByHeight height with
  | none => (none, l)
  | some hash =>
    match l.headerCache.get hash with
    | some header => (some header, l)
    | none =>
      match l.schema.headers hash with
      | none => (none, l)
      | some header => (some header, { l with headerCache := l.headerCache.insert hash header })

/-- `Ledger::get_genesis_block`. -/
def getGenesisBlock (l : Ledger) : Except Abort (Option Block × Ledger) :=
  match l.genesis with
  | some g => pure (some g, l)
  | none => do
    match ← l.getBlockByHeight 0 with
    | some block => pure (some block, { l with genesis := some block })
    | none => pure (none, l)

/-- `Ledger::update_meta`. -/
def updateMeta (l : Ledger) (block : Block) : Ledger :=
  { l with lastMeta := ⟨block.header.height, block.hash K, block.header, block⟩ }

@[simp] theorem updateMeta_lastMeta (l : Ledger) (block : Block) :
    (l.updateMeta K block).lastMeta = ⟨block.header.height, block.hash K, block.header, block⟩ := rfl

@[simp] theorem updateMeta_schema (l : Ledger) (block : Block) :
    (l.updateMeta K block).schema = l.schema := rfl

@[simp] theorem updateMeta_blockCache (l : Ledger) (block : Block) :
    (l.updateMeta K block).blockCache = l.blockCache := rfl

@[simp] theorem updateMeta_headerCache (l : Ledger) (block : Block) :
    (l.updateMeta K block).headerCache = l.headerCache := rfl

/-- The transaction loop of `add_block`: each transaction stored under its
hash, and the list of the hashes. -/
def putTransactions (db : Hash → Option Transaction) :
    List Transaction → Except Abort ((Hash → Option Transaction) × List Hash)
  | [] => pure (db, [])
  | tx :: txs => do
    let h ← tx.hash K
    let (db, hs) ← putTransactions (Function.update db h (some tx)) txs
    pure (db, h :: hs)

/-- `Ledger::add_block`. It returns without writing when the block is not
above the last one (a genesis at height 0 is always written); otherwise it
writes the header, the transactions and their hash list, pushes the hash
on the height list and asserts that the list now ends in it and has
`height + 1` entries, then caches the block and updates the meta. -/
def addBlock (l : Ledger) (block : Block) : Except Abort Ledger :=
  let header := block.header
  let hash := header.blockHash K
  if l.lastMeta.header.height ≥ header.height ∧ block.height ≠ 0 then pure l
  else do
    let headers := Function.update l.schema.headers hash (some header)
    let (transaction, txHashes) ← putTransactions K l.schema.transaction block.transactions
    let transactionHashes := Function.update l.schema.transactionHashes hash (some ⟨txHashes⟩)
    let heightDb ← (ListIndex.new l.schema.blockHashesByHeight).push hash
    let (last, heightDb) := heightDb.last
    let last ← unwrapAt .addBlock last
    assertAt .addBlock (last = hash)
    let (len, heightDb) := heightDb.len
    assertAt .addBlock (len = block.height + 1)
    let l := { l with
      schema := ⟨transaction, transactionHashes, headers, heightDb.base⟩
      headerCache := l.headerCache.insert hash header
      blockCache := l.blockCache.insert hash block }
    pure (l.updateMeta K block)

/-- `Ledger::add_genesis_block`. -/
def addGenesisBlock (l : Ledger) (block : Block) : Except Abort Ledger := do
  let l ← l.addBlock K block
  pure { l with genesis := some block }

/-- `Ledger::add_validators`: the validators kept in memory (the copy
written to the `validators` entry is never read back). -/
def addValidators (l : Ledger) (validators : List Validator) : Ledger := { l with validators }

/-- `Ledger::reload_meta`: the meta from the last entry of the height list. -/
def reloadMeta (l : Ledger) : Except Abort Ledger := do
  let lastHash ← unwrapAt .reloadMeta (ListIndex.new l.schema.blockHashesByHeight).last.1
  let (block, l) ← l.getBlock lastHash
  let block ← unwrapAt .reloadMeta block
  pure (l.updateMeta K block)

end Ledger

/-! ## The genesis block -/

/-- A `GenesisConfig` as `store_genesis_block` reads it, with its strings
parsed: each validator address (`none` where `string_to_address` fails,
which the code unwraps), the proposer and the epoch time (an error string
where they do not parse), the gas used and the extra bytes. -/
structure GenesisConfig where
  validator : List (Option Address)
  proposer : Except String Address
  epochTime : Except String Nat
  gasUsed : Nat
  extra : List UInt8

/-- `core::genesis::store_genesis_block`: a store that holds a genesis
reloads its meta; otherwise the config's validators are set and its genesis
block is added. -/
def storeGenesisBlock (cfg : GenesisConfig) (l : Ledger) :
    Except Abort (Except String Unit × Ledger) := do
  let (genesis, l) ← l.getGenesisBlock
  match genesis with
  | some _ =>
    let l ← l.reloadMeta K
    pure (.ok (), l)
  | none =>
    let validators ← cfg.validator.mapM (unwrapAt .storeGenesisBlock)
    let l := l.addValidators (validators.map Validator.mk)
    match cfg.proposer, cfg.epochTime with
    | .error e, _ => pure (.error e, l)
    | .ok _, .error e => pure (.error e, l)
    | .ok proposer, .ok time =>
      let gasLimit ← u64Add .storeGenesisBlock cfg.gasUsed 10
      let header : Header :=
        { prevHash := emptyHash, proposer, root := emptyHash, txHash := emptyHash,
          receiptHash := emptyHash, bloom := 0, difficulty := 0, height := 0, gasLimit,
          gasUsed := cfg.gasUsed, time, extra := some cfg.extra, votes := none }
      let l ← l.addGenesisBlock K ⟨header, []⟩
      pure (.ok (), l)

/-! ## The chain -/

/-- `core::chain::Chain`, as far as blocks go: its ledger. The event bus it
posts `NewBlock`, `NewHeader` and `SyncBlock` events on is left out. -/
structure Chain where
  ledger : Ledger

namespace Chain

/-- `Chain::insert_block`: refuses a block whose height is taken, and one
more than one above the last (asking for a sync); otherwise adds it. -/
def insertBlock (c : Chain) (block : Block) : Except Abort (Except ChainError Unit × Chain) := do
  let existing ← c.ledger.getBlockByHeight block.height
  if existing.isSome then pure (.error (.exists (block.hash K)), c)
  else
    let lastHeight := c.ledger.getLastBlockHeight
    let next ← u64Add .insertBlock lastHeight 1
    if next < block.height then pure (.error (.unknown "Not found ancestor"), c)
    else do
      let ledger ← c.ledger.addBlock K block
      pure (.ok (), ⟨ledger⟩)

/-- `Chain::get_last_height`. -/
def getLastHeight (c : Chain) : Nat := c.ledger.getLastBlockHeight

/-- `Chain::get_last_block`. -/
def getLastBlock (c : Chain) : Block := c.ledger.lastMeta.block

/-- `Chain::get_block_hash_by_height`. -/
def getBlockHashByHeight (c : Chain) (height : Nat) : Option Hash := c.ledger.getBlockHashByHeight height

/-- `Chain::get_header_by_height`. -/
def getHeaderByHeight (c : Chain) (height : Nat) : Option Header × Chain :=
  let (h, l) := c.ledger.getHeaderByHeight height
  (h, ⟨l⟩)

/-- `Chain::get_block_by_height`: the hash at the height, then the block by
hash. -/
def getBlockByHeight (c : Chain) (height : Nat) : Except Abort (Option Block × Chain) :=
  match c.getBlockHashByHeight height with
  | none => pure (none, c)
  | some hash => do
    let (b, l) ← c.ledger.getBlock hash
    pure (b, ⟨l⟩)

end Chain

end ConsensusRs
