import ConsensusRs.Store.Map

/-!
# The schema's indices in the column

`store::schema`: the names `define_name!` declares, each `"core."` followed
by its value (`concat!`), and the indices `Schema` opens under them, all in
the one column of `database_config`.

The ten names are pairwise apart (`IndexName.apart`): no name extends
another, so a put or a remove through one of the schema's indices spares
every other (`IndexName.spares_put`, `IndexName.spares_remove`), and each of
its map indices stands, over any interleaving of the schema's writes, for
the map of its own calls (`MapIndex.run_reads_map`).

A `clear` is the exception. It deletes every binding from its index's name
on (`BaseIndex.clear_get`), and in byte order the names run
`block_hashes_by_height`, `block_transactions`, `blocks`, `configs`,
`consensus_message_cache`, `headers`, `precommits`, `transaction_block`,
`transaction_hash`, `validators`. A clear through one of the schema's
indices deletes the bindings of every index after it
(`clear_schema_index`), and `ListIndex::clear` on the height list, which
comes first, empties the whole schema (`clear_blockHashesByHeight`).
-/

namespace ConsensusRs

open Framework

/-- The names of `define_name!`. -/
inductive IndexName where
  | transactions
  | transactionsHash
  | blocks
  | headers
  | blockHashesByHeight
  | blockTransactions
  | precommits
  | configs
  | consensusMessageCache
  | validators
deriving DecidableEq, Repr

namespace IndexName

/-- The constant `define_name!` makes: `concat!("core.", $value)`. -/
def value : IndexName → String
  | transactions => "core." ++ "transaction_hash"
  | transactionsHash => "core." ++ "transaction_block"
  | blocks => "core." ++ "blocks"
  | headers => "core." ++ "headers"
  | blockHashesByHeight => "core." ++ "block_hashes_by_height"
  | blockTransactions => "core." ++ "block_transactions"
  | precommits => "core." ++ "precommits"
  | configs => "core." ++ "configs"
  | consensusMessageCache => "core." ++ "consensus_message_cache"
  | validators => "core." ++ "validators"

/-- No name of the schema extends another. -/
theorem apart {i j : IndexName} (h : i ≠ j) : Apart (asBytes i.value) (asBytes j.value) := by
  cases i <;> cases j <;> first | exact absurd rfl h | decide

theorem spares_put {i j : IndexName} (h : i ≠ j) (key value : Bytes) :
    (Write.put j.value key value).Spares i.value :=
  apart h

theorem spares_remove {i j : IndexName} (h : i ≠ j) (key : Bytes) : (Write.remove j.value key).Spares i.value :=
  apart h

/-- A put through the height list spares the indices of the three maps the
ledger keeps. -/
theorem spares_put_blockHashesByHeight (key value : Bytes) :
    (Write.put blockHashesByHeight.value key value).Spares transactions.value ∧
      (Write.put blockHashesByHeight.value key value).Spares transactionsHash.value ∧
      (Write.put blockHashesByHeight.value key value).Spares headers.value :=
  ⟨spares_put (by decide) key value, spares_put (by decide) key value, spares_put (by decide) key value⟩

/-- The height list's name is the first in byte order. -/
theorem blockHashesByHeight_le (j : IndexName) : asBytes blockHashesByHeight.value ≤ asBytes j.value := by
  cases j <;> decide

end IndexName

namespace Store.Schema

/-- `Schema::transaction`. -/
def transaction : MapIndex Hash Transaction := .new IndexName.transactions.value

/-- `Schema::transaction_hashes`. -/
def transactionHashes : MapIndex Hash HashesEntry := .new IndexName.transactionsHash.value

/-- `Schema::blocks`. -/
def blocks : MapIndex Hash Block := .new IndexName.blocks.value

/-- `Schema::headers`. -/
def headers : MapIndex Hash Header := .new IndexName.headers.value

end Store.Schema

open IndexName

/-- A clear through one of the schema's indices deletes every binding of
each index whose name is not below its own, its own included, and leaves
the others. -/
theorem clear_schema_index (i j : IndexName) (db : Database) :
    (BaseIndex.clear ⟨i.value⟩ db).under (asBytes j.value) =
      if asBytes i.value ≤ asBytes j.value then [] else db.under (asBytes j.value) := by
  by_cases hij : i = j
  · subst hij
    exact BaseIndex.under_clear_of_eq_or_apart ⟨i.value⟩ db (.inl rfl)
  · exact BaseIndex.under_clear_of_eq_or_apart ⟨i.value⟩ db (.inr (apart (Ne.symm hij)))

/-- `ListIndex::clear` on `block_hashes_by_height` empties every index of
the schema. -/
theorem clear_blockHashesByHeight (j : IndexName) (db : Database) :
    (BaseIndex.clear ⟨blockHashesByHeight.value⟩ db).under (asBytes j.value) = [] := by
  have h := BaseIndex.under_clear_of_eq_or_apart ⟨blockHashesByHeight.value⟩ db (p := asBytes j.value)
  by_cases hj : j = blockHashesByHeight
  · subst hj
    rw [h (.inl rfl), if_pos (blockHashesByHeight_le _)]
  · rw [h (.inr (apart hj)), if_pos (blockHashesByHeight_le _)]

end ConsensusRs
