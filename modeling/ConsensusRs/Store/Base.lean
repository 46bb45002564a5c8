import ConsensusRs.Store.Database
import ConsensusRs.Types.Basic

/-!
# `BaseIndex`: one named index over the column

`store::base_index` and the key and value traits it writes through
(`cryptocurrency_kit::storage::{keys, values}`). A `BaseIndex` keeps each
key under its name: `prefix_key` is the name's bytes, then the key's. Its
writes are one-operation transactions; its reads are a `get` of the
prefixed key and an iterator that seeks and then yields bindings while their
key starts with the index's prefix (`BaseIndexIter::next`).

The spec lemmas say what each operation does to the bindings under a prefix
(`Database.under`), and the reads are functions of those bindings
(`get_eq_of_under_eq`, `iter_toList`, `iterFrom_toList`). `clear` is the
exception to "an index touches only its own keys": it deletes everything the
seek from its name passes, which is every key not below the name
(`clear_entries`), other indices' keys included.

`Write` is what a write through any index comes down to, as bytes: a `put`,
a `remove` or a `clear` of some index. `Write.Spares n` says that a write
leaves index `n`'s bindings alone (`under_apply_of_spares`).
-/

namespace ConsensusRs

open Framework

/-- `StorageKey`: the bytes a key writes (its `size` is their number) and
the key `read` makes of bytes. A read of bytes of another width panics
(`assert_eq!` in `Hash::from_slice`), as a `from_bytes` of bytes of another
type does: both are `.decode`. -/
class StorageKey (K : Type) where
  write : K → Bytes
  read : Bytes → Except Abort K

/-- `StorageValue`: `into_bytes`, and `from_bytes`, an `unwrap` of
`serde_json::from_slice` for every type the store keeps but `Zero`. -/
class StorageValue (V : Type) where
  intoBytes : V → Bytes
  fromBytes : Bytes → Except Abort V

/-- Keys that `read` gives back as they were written. -/
class LawfulStorageKey (K : Type) [StorageKey K] : Prop where
  read_write (k : K) : StorageKey.read (StorageKey.write k) = .ok k

/-- Values that `from_bytes` gives back as `into_bytes` wrote them (for the
JSON types, `serde`'s round trip). -/
class LawfulStorageValue (V : Type) [StorageValue V] : Prop where
  fromBytes_intoBytes (v : V) : StorageValue.fromBytes (StorageValue.intoBytes v) = .ok v

export LawfulStorageKey (read_write)
export LawfulStorageValue (fromBytes_intoBytes)

theorem StorageKey.write_injective {K : Type} [StorageKey K] [LawfulStorageKey K] {k k' : K}
    (h : StorageKey.write k = StorageKey.write k') : k = k' := by
  have hr := read_write k
  rw [h, read_write k'] at hr
  exact (Except.ok.inj hr).symm

theorem StorageValue.intoBytes_injective {V : Type} [StorageValue V] [LawfulStorageValue V] {v v' : V}
    (h : StorageValue.intoBytes v = StorageValue.intoBytes v') : v = v' := by
  have hr := fromBytes_intoBytes v
  rw [h, fromBytes_intoBytes v'] at hr
  exact (Except.ok.inj hr).symm

/-- `cryptocurrency_kit::types::Zero`. -/
structure Zero where
deriving DecidableEq, Repr

/-- `impl StorageKey for Zero`: no bytes. -/
instance : StorageKey Zero where
  write _ := []
  read _ := pure ⟨⟩

/-- `impl StorageValue for Zero`: no bytes, and any bytes read as `Zero`. -/
instance : StorageValue Zero where
  intoBytes _ := []
  fromBytes _ := pure ⟨⟩

/-- `impl StorageKey for ()`: no bytes. -/
instance : StorageKey Unit where
  write _ := []
  read _ := pure ()

/-- `impl StorageKey for Hash`: the 32 bytes, and `Hash::from_slice`, which
asserts there are 32. -/
instance : StorageKey Hash where
  write h := h.toList
  read buf := if h : buf.length = 32 then pure ⟨buf.toArray, by simpa using h⟩ else .error .decode

instance : LawfulStorageKey Zero := ⟨fun _ => rfl⟩

instance : LawfulStorageValue Zero := ⟨fun _ => rfl⟩

instance : LawfulStorageKey Unit := ⟨fun _ => rfl⟩

instance : LawfulStorageKey Hash where
  read_write h := by
    simp only [StorageKey.read, StorageKey.write, Vector.length_toList, dite_true]
    congr 1

/-- `store::base_index::BaseIndex`: its name. (`index_id` is `None` for every
index the store makes, and `index_type` is only printed.) -/
structure BaseIndex where
  name : String
deriving DecidableEq, Repr

/-- `BaseIndexIter`: the collected bindings of a seek, the length of the
index's own prefix (cut off each key before `read`), and the prefix a key
must start with. -/
structure BaseIndexIter (K V : Type) where
  baseIter : List (Bytes × Bytes)
  basePrefixLen : Nat
  indexId : Bytes
  ended : Bool

namespace BaseIndex

variable {K V P F : Type} [StorageKey K] [StorageValue V] [StorageKey P] [StorageKey F]

/-- `BaseIndex::prefix_key`. -/
def prefixKey (b : BaseIndex) (key : K) : Bytes := asBytes b.name ++ StorageKey.write key

/-- `BaseIndex::get`: the value under the prefixed key, decoded. -/
def get (b : BaseIndex) (db : Database) (key : K) : Except Abort (Option V) :=
  match db.get (b.prefixKey key) with
  | some value => some <$> StorageValue.fromBytes value
  | none => pure none

/-- `BaseIndex::contains`. -/
def contains (b : BaseIndex) (db : Database) (key : K) : Bool := (db.get (b.prefixKey key)).isSome

/-- `BaseIndex::iter`: a seek to the prefixed `subPrefix`, the bindings
collected. -/
def iter (b : BaseIndex) (db : Database) (subPrefix : P) : BaseIndexIter K V :=
  let iterPrefix := b.prefixKey subPrefix
  ⟨db.iterFromPrefix iterPrefix, (asBytes b.name).length, iterPrefix, false⟩

/-- `BaseIndex::iter_from`: a seek to the prefixed `subPrefix` followed by
the bytes of `fromKey`; the keys must start with the prefixed `subPrefix`. -/
def iterFrom (b : BaseIndex) (db : Database) (subPrefix : P) (fromKey : F) : BaseIndexIter K V :=
  let prefixBuf := b.prefixKey subPrefix
  let basePrefixLen := prefixBuf.length
  let iterPrefix := prefixBuf ++ StorageKey.write fromKey
  ⟨db.iterFromPrefix iterPrefix, basePrefixLen, iterPrefix.take basePrefixLen, false⟩

/-- `BaseIndex::put`: a one-operation transaction. -/
def put (b : BaseIndex) (db : Database) (key : K) (value : V) : Database :=
  db.write (DBTransaction.new.putVec (b.prefixKey key) (StorageValue.intoBytes value))

/-- `BaseIndex::remove`. -/
def remove (b : BaseIndex) (db : Database) (key : K) : Database :=
  db.write (DBTransaction.new.delete (b.prefixKey key))

/-- `BaseIndex::clear`: a delete of every key the seek to `prefix_key("")`
passes (`""` writes no bytes, as `()` does), in one transaction. -/
def clear (b : BaseIndex) (db : Database) : Database :=
  let pfx := b.prefixKey ()
  let tx := (db.iterFromPrefix pfx).foldl (fun tx item => tx.delete item.1) DBTransaction.new
  db.write tx

@[simp] theorem prefixKey_eq (b : BaseIndex) (key : K) :
    b.prefixKey key = asBytes b.name ++ StorageKey.write key := rfl

omit [StorageKey K] [StorageValue V] in
@[simp] theorem iterFrom_indexId (b : BaseIndex) (db : Database) (subPrefix : P) (fromKey : F) :
    (b.iterFrom db subPrefix fromKey : BaseIndexIter K V).indexId = b.prefixKey subPrefix :=
  List.take_left' rfl

end BaseIndex

namespace BaseIndexIter

variable {K V : Type} [StorageKey K] [StorageValue V]

/-- The item of one binding: the key past the index's prefix, `read`, and
the value, decoded, in that order. -/
def decodeEntry (basePrefixLen : Nat) (e : Bytes × Bytes) : Except Abort (K × V) := do
  let key ← StorageKey.read (e.1.drop basePrefixLen)
  let value ← StorageValue.fromBytes e.2
  pure (key, value)

/-- `BaseIndexIter::next`: the next binding while its key starts with
`index_id`; the first that does not ends the iterator, consumed. -/
def next (it : BaseIndexIter K V) : Except Abort (Option (K × V) × BaseIndexIter K V) :=
  if it.ended then pure (none, it)
  else
    match it.baseIter with
    | (k, v) :: rest =>
      if it.indexId <+: k then do
        let item ← decodeEntry it.basePrefixLen (k, v)
        pure (some item, { it with baseIter := rest })
      else pure (none, { it with baseIter := rest, ended := true })
    | [] => pure (none, { it with ended := true })

/-- `next` until its first `None`, at most `fuel` times: what `collect`,
`count` and `for_each` go through. -/
def drain : Nat → BaseIndexIter K V → Except Abort (List (K × V))
  | 0, _ => pure []
  | fuel + 1, it => do
    let (item, it) ← it.next
    match item with
    | some item => return item :: (← drain fuel it)
    | none => pure []

/-- Everything an iterator yields: each `next` before the last consumes a
binding, so one more call than there are bindings reaches the end. -/
def toList (it : BaseIndexIter K V) : Except Abort (List (K × V)) := drain (it.baseIter.length + 1) it

/-- With enough fuel, an iterator yields the run of bindings from the front
that start with `index_id`, each decoded. -/
theorem drain_eq : ∀ {bs : List (Bytes × Bytes)} {n : Nat} (len : Nat) (idx : Bytes),
    bs.length < n →
      drain n (⟨bs, len, idx, false⟩ : BaseIndexIter K V) =
        (bs.takeWhile (fun e => idx <+: e.1)).mapM (decodeEntry len)
  | _, 0, _, _, hn => absurd hn (Nat.not_lt_zero _)
  | [], _ + 1, _, _, _ => by simp [drain, next]
  | (k, v) :: rest, n + 1, len, idx, hn => by
    by_cases hk : idx <+: k
    · have ih : drain n (⟨rest, len, idx, false⟩ : BaseIndexIter K V) = _ :=
        drain_eq len idx (by simpa using hn)
      simp only [drain, next, hk, if_true, Bool.false_eq_true, if_false, List.takeWhile_cons,
        decide_true, List.mapM_cons]
      cases decodeEntry (K := K) (V := V) len (k, v) with
      | error a => rfl
      | ok item =>
        simp only [bind, Except.bind, pure, Except.pure]
        rw [ih]
    · simp [drain, next, hk]

theorem toList_eq (bs : List (Bytes × Bytes)) (len : Nat) (idx : Bytes) :
    (⟨bs, len, idx, false⟩ : BaseIndexIter K V).toList =
      (bs.takeWhile (fun e => idx <+: e.1)).mapM (decodeEntry len) :=
  drain_eq len idx (Nat.lt_succ_self _)

end BaseIndexIter

namespace BaseIndex

variable {K V P F : Type} [StorageKey K] [StorageValue V] [StorageKey P] [StorageKey F]

/-- `iter` yields every binding under the prefixed `subPrefix`, in key
order. -/
theorem iter_toList (b : BaseIndex) (db : Database) (subPrefix : P) :
    (b.iter db subPrefix : BaseIndexIter K V).toList =
      (db.under (b.prefixKey subPrefix)).mapM (BaseIndexIter.decodeEntry (asBytes b.name).length) := by
  rw [iter, BaseIndexIter.toList_eq, Database.takeWhile_iterFromPrefix db (List.prefix_refl _)]
  congr 1
  refine List.filter_eq_self.mpr fun e he => ?_
  rw [Database.under, List.mem_filter] at he
  exact decide_eq_true (of_decide_eq_true he.2).le

/-- `iter_from` yields the bindings under the prefixed `subPrefix` from the
seek key on, in key order. -/
theorem iterFrom_toList (b : BaseIndex) (db : Database) (subPrefix : P) (fromKey : F) :
    (b.iterFrom db subPrefix fromKey : BaseIndexIter K V).toList =
      ((db.under (b.prefixKey subPrefix)).filter
          (fun e => b.prefixKey subPrefix ++ StorageKey.write fromKey ≤ e.1)).mapM
        (BaseIndexIter.decodeEntry (b.prefixKey subPrefix).length) := by
  have hid := iterFrom_indexId (K := K) (V := V) b db subPrefix fromKey
  simp only [iterFrom] at hid ⊢
  rw [BaseIndexIter.toList_eq, hid, Database.takeWhile_iterFromPrefix db (List.prefix_append _ _)]

/-! ## Reads depend only on the index's own bindings -/

theorem get_eq_of_under_eq (b : BaseIndex) {db db' : Database}
    (h : db.under (asBytes b.name) = db'.under (asBytes b.name)) (key : K) :
    (b.get db key : Except Abort (Option V)) = b.get db' key := by
  rw [get, get, prefixKey_eq, Database.get_eq_of_under_eq h (List.prefix_append _ _)]

theorem contains_eq_of_under_eq (b : BaseIndex) {db db' : Database}
    (h : db.under (asBytes b.name) = db'.under (asBytes b.name)) (key : K) :
    b.contains db key = b.contains db' key := by
  rw [contains, contains, prefixKey_eq, Database.get_eq_of_under_eq h (List.prefix_append _ _)]

theorem iter_toList_eq_of_under_eq (b : BaseIndex) {db db' : Database}
    (h : db.under (asBytes b.name) = db'.under (asBytes b.name)) (subPrefix : P) :
    (b.iter db subPrefix : BaseIndexIter K V).toList = (b.iter db' subPrefix).toList := by
  rw [iter_toList, iter_toList, prefixKey_eq, Database.under_append, Database.under_append, h]

theorem iterFrom_toList_eq_of_under_eq (b : BaseIndex) {db db' : Database}
    (h : db.under (asBytes b.name) = db'.under (asBytes b.name)) (subPrefix : P) (fromKey : F) :
    (b.iterFrom db subPrefix fromKey : BaseIndexIter K V).toList = (b.iterFrom db' subPrefix fromKey).toList := by
  rw [iterFrom_toList, iterFrom_toList, prefixKey_eq, Database.under_append, Database.under_append, h]

/-! ## What each write does to the bindings under a prefix -/

/-- A remove through an index apart from `p` leaves the bindings under `p`. -/
theorem under_remove_of_apart (b : BaseIndex) (db : Database) {p : Bytes} (h : Apart p (asBytes b.name))
    (key : K) : (b.remove db key).under p = db.under p := by
  simp only [remove, Database.write_delete_new]
  exact Database.under_erase_of_not db (not_prefix_append_of_apart h _)

/-- The deletes `clear` collects, one per binding the seek passes. -/
theorem foldl_delete_ops (items : List (Bytes × Bytes)) (tx : DBTransaction) :
    (items.foldl (fun tx item => tx.delete item.1) tx).ops = tx.ops ++ items.map (fun e => .delete e.1) := by
  induction items generalizing tx with
  | nil => simp
  | cons e items ih =>
    rw [List.foldl_cons, ih]
    simp [DBTransaction.delete]

/-- `clear` keeps exactly the bindings below the index's name. -/
theorem clear_entries (b : BaseIndex) (db : Database) :
    (b.clear db).entries = db.entries.filter (fun e => e.1 < asBytes b.name) := by
  have hops : ((db.iterFromPrefix (b.prefixKey ())).foldl (fun tx item => tx.delete item.1)
      DBTransaction.new).ops = (db.iterFromPrefix (b.prefixKey ())).map (fun e => .delete e.1) := by
    rw [foldl_delete_ops]
    rfl
  simp only [clear, Database.write]
  rw [hops, List.foldl_map]
  have hwrite : (db.iterFromPrefix (b.prefixKey ())).foldl (fun db e => db.apply (.delete e.1)) db =
      ((db.iterFromPrefix (b.prefixKey ())).map Prod.fst).foldl OrdMap.erase db := by
    rw [List.foldl_map]
    rfl
  rw [hwrite, OrdMap.entries_foldl_erase]
  refine List.filter_congr fun e he => ?_
  -- a key of the column is among those the seek passes exactly when it is not below the name
  have hiff : e.1 ∈ (db.iterFromPrefix (b.prefixKey ())).map Prod.fst ↔ asBytes b.name ≤ e.1 := by
    simp only [Database.iterFromPrefix_eq_filter, List.mem_map, List.mem_filter, prefixKey_eq,
      StorageKey.write, List.append_nil]
    constructor
    · rintro ⟨e', ⟨-, he'⟩, heq⟩
      rw [← heq]
      simpa using he'
    · intro hle
      exact ⟨e, ⟨he, by simpa using hle⟩, rfl⟩
  simp only [prefixKey_eq] at hiff ⊢
  simp [hiff, Std.not_le]

theorem under_clear (b : BaseIndex) (db : Database) (p : Bytes) :
    (b.clear db).under p = (db.under p).filter (fun e => e.1 < asBytes b.name) := by
  rw [Database.under, clear_entries, Database.under, List.filter_filter, List.filter_filter]
  exact List.filter_congr fun e _ => Bool.and_comm _ _

/-- A clear through an index whose name is apart from `p` and above it
leaves the bindings under `p`. -/
theorem under_clear_of_lt (b : BaseIndex) (db : Database) {p : Bytes} (h : Apart p (asBytes b.name))
    (hlt : p < asBytes b.name) : (b.clear db).under p = db.under p := by
  rw [under_clear]
  refine List.filter_eq_self.mpr fun e he => ?_
  obtain ⟨rest, hrest⟩ := (of_decide_eq_true (List.mem_filter.mp he).2)
  have := append_lt_of_apart_of_lt h hlt rest []
  rw [List.append_nil, hrest] at this
  simpa using this

/-- A clear through an index whose name is apart from `p` and below it
deletes every binding under `p`. -/
theorem under_clear_of_gt (b : BaseIndex) (db : Database) {p : Bytes} (h : Apart p (asBytes b.name))
    (hgt : asBytes b.name < p) : (b.clear db).under p = [] := by
  rw [under_clear]
  refine List.filter_eq_nil_iff.mpr fun e he => ?_
  obtain ⟨rest, hrest⟩ := (of_decide_eq_true (List.mem_filter.mp he).2)
  have := append_lt_of_apart_of_lt h.symm hgt [] rest
  rw [List.append_nil, hrest] at this
  simpa using Std.Asymm.asymm _ _ this

/-- A clear deletes every binding of its own index. -/
theorem under_clear_self (b : BaseIndex) (db : Database) : (b.clear db).under (asBytes b.name) = [] := by
  rw [under_clear]
  refine List.filter_eq_nil_iff.mpr fun e he => ?_
  have hp := of_decide_eq_true (List.mem_filter.mp he).2
  simpa using hp.le

/-- A clear through an index whose name is `p` or apart from it deletes
every binding under `p` if its name is not above `p`, and none otherwise. -/
theorem under_clear_of_eq_or_apart (b : BaseIndex) (db : Database) {p : Bytes}
    (h : p = asBytes b.name ∨ Apart p (asBytes b.name)) :
    (b.clear db).under p = if asBytes b.name ≤ p then [] else db.under p := by
  rcases h with rfl | h
  · rw [if_pos (Std.le_refl _), under_clear_self]
  · by_cases hle : asBytes b.name ≤ p
    · -- the names differ, so the clear's name is below `p`
      have hne : asBytes b.name ≠ p := fun he => h.1 (he ▸ List.prefix_refl _)
      rw [if_pos hle, under_clear_of_gt b db h (Std.lt_of_le_of_ne hle hne)]
    · rw [if_neg hle, under_clear_of_lt b db h (Std.not_le.mp hle)]

/-- `clear` deletes every binding whose key is not below the index's name,
whichever index the key belongs to, and keeps every other. -/
theorem clear_get (b : BaseIndex) (db : Database) (k : Bytes) :
    (b.clear db).get k = if asBytes b.name ≤ k then none else db.get k := by
  have hl := OrdMap.lookup_filter (fun k' => decide (k' < asBytes b.name)) k db.entries
  simp only [Database.get, OrdMap.get?, clear_entries]
  rw [hl]
  by_cases hk : asBytes b.name ≤ k
  · simp [hk, Std.not_lt.mpr hk]
  · simp [hk, Std.not_le.mp hk]

end BaseIndex

/-- A write through some index, as the bytes it writes: what every `put`,
`remove` and `clear` of a `MapIndex`, `ListIndex` or `Entry` comes down to. -/
inductive Write where
  | put (index : String) (key value : Bytes)
  | remove (index : String) (key : Bytes)
  | clear (index : String)
deriving DecidableEq, Repr

namespace Write

/-- The column after the write. -/
def apply (db : Database) : Write → Database
  | .put index key value => db.write (DBTransaction.new.putVec (asBytes index ++ key) value)
  | .remove index key => db.write (DBTransaction.new.delete (asBytes index ++ key))
  | .clear index => (⟨index⟩ : BaseIndex).clear db

/-- The column after writes in order. -/
def run (db : Database) (ws : List Write) : Database := ws.foldl apply db

/-- The write leaves index `n`'s bindings alone: it goes through an index
whose name is apart from `n`'s, and a `clear` through one whose name is
above it. -/
def Spares (n : String) : Write → Prop
  | .put index _ _ | .remove index _ => Apart (asBytes n) (asBytes index)
  | .clear index => Apart (asBytes n) (asBytes index) ∧ asBytes n < asBytes index

instance (n : String) : DecidablePred (Spares n) := fun w =>
  match w with
  | .put index _ _ | .remove index _ => inferInstanceAs (Decidable (Apart (asBytes n) (asBytes index)))
  | .clear _ => inferInstanceAs (Decidable (_ ∧ _))

variable {K V : Type} [StorageKey K] [StorageValue V]

theorem put_eq (b : BaseIndex) (db : Database) (key : K) (value : V) :
    b.put db key value = (Write.put b.name (StorageKey.write key) (StorageValue.intoBytes value)).apply db := rfl

theorem remove_eq (b : BaseIndex) (db : Database) (key : K) :
    b.remove db key = (Write.remove b.name (StorageKey.write key)).apply db := rfl

theorem clear_eq (b : BaseIndex) (db : Database) : b.clear db = (Write.clear b.name).apply db := rfl

/-- A write that spares `n` leaves the bindings under `n`'s name. -/
theorem under_apply_of_spares {n : String} {w : Write} (h : w.Spares n) (db : Database) :
    (w.apply db).under (asBytes n) = db.under (asBytes n) := by
  cases w with
  | put index key value => exact Database.under_insert_of_not db (not_prefix_append_of_apart h key) value
  | remove index key => exact Database.under_erase_of_not db (not_prefix_append_of_apart h key)
  | clear index => exact BaseIndex.under_clear_of_lt ⟨index⟩ db h.1 h.2

/-- Writes that all spare `n` leave the bindings under `n`'s name. -/
theorem under_run_of_spares {n : String} :
    ∀ {ws : List Write}, (∀ w ∈ ws, w.Spares n) → ∀ db, (run db ws).under (asBytes n) = db.under (asBytes n)
  | [], _, _ => rfl
  | w :: ws, h, db => by
    show (run (w.apply db) ws).under (asBytes n) = db.under (asBytes n)
    rw [under_run_of_spares (fun w' hw' => h w' (List.mem_cons_of_mem w hw')),
      under_apply_of_spares (h w List.mem_cons_self)]

end Write

namespace BaseIndex

variable {K V P F : Type} [StorageKey K] [StorageValue V] [StorageKey P] [StorageKey F]

/-- Indices do not interfere: after any writes through other indices that
spare this one (puts and removes through indices whose names are apart from
its name, clears through such indices whose names are above it), every read
through this index (`get`, `contains`, `iter`, `iter_from`, of any key and
value types) returns what it returned before. -/
theorem index_reads_isolated (b : BaseIndex) {ws : List Write} (hws : ∀ w ∈ ws, w.Spares b.name)
    (db : Database) :
    (∀ key : K, (b.get (Write.run db ws) key : Except Abort (Option V)) = b.get db key) ∧
    (∀ key : K, b.contains (Write.run db ws) key = b.contains db key) ∧
    (∀ subPrefix : P, (b.iter (Write.run db ws) subPrefix : BaseIndexIter K V).toList =
      (b.iter db subPrefix).toList) ∧
    (∀ (subPrefix : P) (fromKey : F), (b.iterFrom (Write.run db ws) subPrefix fromKey : BaseIndexIter K V).toList =
      (b.iterFrom db subPrefix fromKey).toList) := by
  have h := Write.under_run_of_spares hws db
  exact ⟨b.get_eq_of_under_eq h, b.contains_eq_of_under_eq h, b.iter_toList_eq_of_under_eq h,
    b.iterFrom_toList_eq_of_under_eq h⟩

/-- The headers' index after a put into the blocks' index, a remove from the
transactions' index and a clear of the validators' entry. -/
theorem index_reads_isolated_headers :
    (∀ w ∈ [Write.put "core.blocks" [1] [2], .remove "core.transaction_hash" [3], .clear "core.validators"],
      w.Spares "core.headers") ∧
    ∀ key : Hash, (BaseIndex.get ⟨"core.headers"⟩ (Write.run .empty
        [.put "core.blocks" [1] [2], .remove "core.transaction_hash" [3], .clear "core.validators"]) key :
          Except Abort (Option Zero)) = BaseIndex.get ⟨"core.headers"⟩ .empty key := by
  have hws : ∀ w ∈ [Write.put "core.blocks" [1] [2], .remove "core.transaction_hash" [3],
      .clear "core.validators"], w.Spares "core.headers" := by decide
  exact ⟨hws, (index_reads_isolated (K := Hash) (V := Zero) (P := Unit) (F := Unit) ⟨"core.headers"⟩ hws .empty).1⟩

end BaseIndex

end ConsensusRs
