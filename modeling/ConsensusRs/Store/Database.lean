import ConsensusRs.Framework.OrdMap

/-!
# The RocksDB column under the store

`kvdb_rocksdb::Database` as `store` uses it (`src/crates/kvdb-rocksdb`): one
column (`COL = 0`, `schema::database_config`), written only through `write`
and read through `get` and `iter_from_prefix`. `write_buffered` is never
called, so the overlay that `write` clears and `get` consults first is always
empty, and a read sees what the last `write` left. The column is an ordered
map from bytes to bytes under RocksDB's default comparator, the lexicographic
order on unsigned bytes (`List.lt` on `UInt8`): `Database` is an `OrdMap`.

`iter_from_prefix` is a forward seek: despite its name, nothing bounds it by
the prefix, and it runs to the end of the column (`iterFromPrefix_eq_filter`).
-/

namespace ConsensusRs

open Framework

/-- Bytes of a key or a value. -/
abbrev Bytes := List UInt8

/-- `str::as_bytes`: a string's UTF-8 encoding. -/
def asBytes (s : String) : Bytes := s.toList.flatMap String.utf8EncodeChar

/-- `kvdb::DBOp`, in the one column. -/
inductive DBOp where
  | insert (key value : Bytes)
  | delete (key : Bytes)
deriving DecidableEq, Repr

/-- `kvdb::DBTransaction`: its operations in order. -/
structure DBTransaction where
  ops : List DBOp
deriving DecidableEq, Repr

namespace DBTransaction

/-- `Database::transaction`: no operation. -/
def new : DBTransaction := ⟨[]⟩

/-- `DBTransaction::put_vec`. -/
def putVec (tx : DBTransaction) (key value : Bytes) : DBTransaction := ⟨tx.ops ++ [.insert key value]⟩

/-- `DBTransaction::delete`. -/
def delete (tx : DBTransaction) (key : Bytes) : DBTransaction := ⟨tx.ops ++ [.delete key]⟩

end DBTransaction

/-- The column of a `kvdb_rocksdb::Database`. -/
abbrev Database := OrdMap Bytes Bytes

namespace Database

/-- One operation of a `WriteBatch`. -/
def apply (db : Database) : DBOp → Database
  | .insert key value => db.insert key value
  | .delete key => db.erase key

/-- `Database::write`: the transaction's operations in order, as one batch. -/
def write (db : Database) (tr : DBTransaction) : Database := tr.ops.foldl apply db

/-- `Database::get`. -/
def get (db : Database) (key : Bytes) : Option Bytes := db.get? key

/-- `KeyValueDB::iter_from_prefix`, collected: the bindings from the first
key not below `seekKey` to the end of the column. -/
def iterFromPrefix (db : Database) (seekKey : Bytes) : List (Bytes × Bytes) := db.seek seekKey

/-- The bindings whose key starts with `p`. -/
def under (db : Database) (p : Bytes) : List (Bytes × Bytes) := db.entries.filter (fun e => p <+: e.1)

@[simp] theorem write_putVec_new (db : Database) (key value : Bytes) :
    db.write (DBTransaction.new.putVec key value) = db.insert key value := rfl

@[simp] theorem write_delete_new (db : Database) (key : Bytes) :
    db.write (DBTransaction.new.delete key) = db.erase key := rfl

theorem iterFromPrefix_eq_filter (db : Database) (seekKey : Bytes) :
    db.iterFromPrefix seekKey = db.entries.filter (fun e => seekKey ≤ e.1) := by
  rw [iterFromPrefix, OrdMap.seek_eq_filter]
  exact List.filter_congr fun e _ => by simp [Std.not_lt]

/-- An insert of a key without `p` leaves the bindings under `p`. -/
theorem under_insert_of_not (db : Database) {p k : Bytes} (h : ¬ p <+: k) (v : Bytes) :
    under (db.insert k v) p = db.under p :=
  OrdMap.filter_insert_of_not db (P := fun k => decide (p <+: k)) v (by simpa using h)

/-- A delete of a key without `p` leaves the bindings under `p`. -/
theorem under_erase_of_not (db : Database) {p k : Bytes} (h : ¬ p <+: k) :
    under (db.erase k) p = db.under p :=
  OrdMap.filter_erase_of_not db (P := fun k => decide (p <+: k)) (by simpa using h)

/-- A read of a key under `p` depends only on the bindings under `p`. -/
theorem get_eq_of_under_eq {db db' : Database} {p k : Bytes} (h : db.under p = db'.under p) (hk : p <+: k) :
    db.get k = db'.get k :=
  OrdMap.get?_eq_of_filter_eq (P := fun k => decide (p <+: k)) h (by simpa using hk)

/-- The bindings under an extension of `p` are among those under `p`. -/
theorem under_append (db : Database) (p q : Bytes) :
    db.under (p ++ q) = (db.under p).filter (fun e => p ++ q <+: e.1) := by
  rw [under, under, List.filter_filter]
  refine List.filter_congr fun e _ => ?_
  by_cases h : p ++ q <+: e.1
  · simp [h, (List.prefix_append p q).trans h]
  · simp [h]

/-- A seek to a key under `p` followed by a scan that stops at the first key
without `p` sees the bindings under `p` from the seek on. -/
theorem takeWhile_iterFromPrefix (db : Database) {p s : Bytes} (h : p <+: s) :
    (db.iterFromPrefix s).takeWhile (fun e => p <+: e.1) = (db.under p).filter (fun e => s ≤ e.1) := by
  have hsorted : (db.iterFromPrefix s).Pairwise (fun a b => a.1 < b.1) :=
    db.sorted.sublist (List.dropWhile_sublist _)
  have habove : ∀ e ∈ db.iterFromPrefix s, p ≤ e.1 := by
    intro e he
    rw [iterFromPrefix_eq_filter, List.mem_filter] at he
    exact Std.le_trans h.le (by simpa using he.2)
  rw [OrdMap.takeWhile_prefix_eq_filter hsorted habove, iterFromPrefix_eq_filter, under,
    List.filter_filter, List.filter_filter]
  exact List.filter_congr fun e _ => Bool.and_comm _ _

end Database

end ConsensusRs
