import ConsensusRs.Store.Base
import ConsensusRs.Framework.Except
import Mathlib.Logic.Function.Basic

/-!
# `MapIndex` and `Entry`

`store::map_index` and `store::entry`: a map index keeps each binding under
its name and the key's bytes; an entry is one value under its name alone (the
`Zero` key). Both write through their `BaseIndex`.

`MapIndex.Holds m db M` says that the index stands for the partial map `M`:
the bindings under its name are exactly those of `M`, key and value as the
index writes them. Every call on the index keeps it, with `M` updated as a
map would be (`Holds.apply`), and so does every write through an index that
spares this one; over a whole run the index stands for the map the calls
make (`Holds.run`). Where it stands for `M`, `get` and `contains` read `M`
and the iterators yield `M`'s bindings in the order of their keys' bytes
(`iter_of_holds`), with no abort as long as keys and values read back what
was written (`LawfulStorageKey`, `LawfulStorageValue`).
-/

namespace ConsensusRs

open Framework

/-- `store::map_index::MapIndex`. -/
structure MapIndex (K V : Type) where
  base : BaseIndex
deriving DecidableEq, Repr

namespace MapIndex

variable {K V : Type} [StorageKey K] [StorageValue V]

/-- `MapIndex::new`. -/
def new (indexName : String) : MapIndex K V := ⟨⟨indexName⟩⟩

/-- `MapIndex::get`. -/
def get (m : MapIndex K V) (db : Database) (key : K) : Except Abort (Option V) := m.base.get db key

/-- `MapIndex::contains`. -/
def contains (m : MapIndex K V) (db : Database) (key : K) : Bool := m.base.contains db key

/-- `MapIndex::iter`, drained: the pairs of `base.iter(&())`. -/
def iter (m : MapIndex K V) (db : Database) : Except Abort (List (K × V)) :=
  (m.base.iter db () : BaseIndexIter K V).toList

/-- `MapIndex::keys`, drained: the keys of a `BaseIndexIter<K, Zero>`. -/
def keys (m : MapIndex K V) (db : Database) : Except Abort (List K) :=
  List.map Prod.fst <$> (m.base.iter db () : BaseIndexIter K Zero).toList

/-- `MapIndex::values`, drained: the values of a `BaseIndexIter<Zero, V>`. -/
def values (m : MapIndex K V) (db : Database) : Except Abort (List V) :=
  List.map Prod.snd <$> (m.base.iter db () : BaseIndexIter Zero V).toList

/-- `MapIndex::put`. -/
def put (m : MapIndex K V) (db : Database) (key : K) (value : V) : Database := m.base.put db key value

/-- `MapIndex::remove`. -/
def remove (m : MapIndex K V) (db : Database) (key : K) : Database := m.base.remove db key

/-- `MapIndex::clear`. -/
def clear (m : MapIndex K V) (db : Database) : Database := m.base.clear db

/-- A call on a `MapIndex`, or a write through some other index. -/
inductive Op (K V : Type) where
  | put (key : K) (value : V)
  | remove (key : K)
  | clear
  | other (w : Write)

/-- The column after the call. -/
def apply (m : MapIndex K V) (db : Database) : Op K V → Database
  | .put key value => m.put db key value
  | .remove key => m.remove db key
  | .clear => m.clear db
  | .other w => w.apply db

/-- The column after calls in order. -/
def run (m : MapIndex K V) (db : Database) (ops : List (Op K V)) : Database := ops.foldl m.apply db

/-- What a call does to the map the index stands for. -/
def Op.update [DecidableEq K] (M : K → Option V) : Op K V → K → Option V
  | .put key value => Function.update M key (some value)
  | .remove key => Function.update M key none
  | .clear => fun _ => none
  | .other _ => M

/-- Writes through other indices spare the index named `n`. -/
def Op.Spares (n : String) : Op K V → Prop
  | .other w => w.Spares n
  | _ => True

/-- The index stands for `M`: the bindings under its name are exactly `M`'s,
key and value as the index writes them. -/
def Holds (m : MapIndex K V) (db : Database) (M : K → Option V) : Prop :=
  ∀ e, e ∈ db.under (asBytes m.base.name) ↔
    ∃ k v, M k = some v ∧ e = (m.base.prefixKey k, StorageValue.intoBytes v)

/-- A fresh column holds the empty map under every name. -/
theorem holds_empty (m : MapIndex K V) : m.Holds OrdMap.empty (fun _ => none) := by
  intro e
  simp [Database.under, OrdMap.empty]

/-- Whether the index stands for `M` depends only on the bindings under its
name. -/
theorem Holds.of_under_eq {m : MapIndex K V} {db db' : Database} {M : K → Option V} (h : m.Holds db M)
    (he : db'.under (asBytes m.base.name) = db.under (asBytes m.base.name)) : m.Holds db' M := by
  intro e
  rw [he]
  exact h e

omit [StorageValue V] in
theorem prefixKey_injective [LawfulStorageKey K] {m : MapIndex K V} {k k' : K}
    (h : m.base.prefixKey k = m.base.prefixKey k') : k = k' :=
  StorageKey.write_injective (List.append_cancel_left h)

section Lawful

variable [LawfulStorageKey K] [DecidableEq K] {m : MapIndex K V} {db : Database} {M : K → Option V}

theorem Holds.put (h : m.Holds db M) (key : K) (value : V) :
    m.Holds (m.put db key value) (Function.update M key (some value)) := by
  intro e
  simp only [MapIndex.put, BaseIndex.put, Database.write_putVec_new, Database.under, List.mem_filter,
    OrdMap.mem_insert]
  constructor
  · rintro ⟨rfl | ⟨he, hne⟩, hp⟩
    · exact ⟨key, value, by simp, rfl⟩
    · -- an old binding of another key
      obtain ⟨k, v, hk, rfl⟩ := (h _).mp (List.mem_filter.mpr ⟨he, hp⟩)
      have hkey : k ≠ key := fun hkey => hne (hkey ▸ rfl)
      exact ⟨k, v, by simpa [hkey] using hk, rfl⟩
  · rintro ⟨k, v, hk, rfl⟩
    by_cases hkey : k = key
    · subst hkey
      obtain rfl : v = value := by simpa using hk.symm
      exact ⟨.inl rfl, by simp⟩
    · have hold : M k = some v := by simpa [hkey] using hk
      have hmem := List.mem_filter.mp ((h _).mpr ⟨k, v, hold, rfl⟩)
      exact ⟨.inr ⟨hmem.1, fun he => hkey (prefixKey_injective he)⟩, hmem.2⟩

theorem Holds.remove (h : m.Holds db M) (key : K) : m.Holds (m.remove db key) (Function.update M key none) := by
  intro e
  simp only [MapIndex.remove, BaseIndex.remove, Database.write_delete_new, Database.under,
    List.mem_filter, OrdMap.mem_erase]
  constructor
  · rintro ⟨⟨he, hne⟩, hp⟩
    obtain ⟨k, v, hk, rfl⟩ := (h _).mp (List.mem_filter.mpr ⟨he, hp⟩)
    have hkey : k ≠ key := fun hkey => hne (hkey ▸ rfl)
    exact ⟨k, v, by simpa [hkey] using hk, rfl⟩
  · rintro ⟨k, v, hk, rfl⟩
    have hkey : k ≠ key := by
      rintro rfl
      simp at hk
    have hold : M k = some v := by simpa [hkey] using hk
    have hmem := List.mem_filter.mp ((h _).mpr ⟨k, v, hold, rfl⟩)
    exact ⟨⟨hmem.1, fun he => hkey (prefixKey_injective he)⟩, hmem.2⟩

omit [LawfulStorageKey K] [DecidableEq K] in
/-- After a clear, nothing is under the index's name. -/
theorem holds_clear (m : MapIndex K V) (db : Database) : m.Holds (m.clear db) (fun _ => none) := by
  intro e
  simp [clear, BaseIndex.under_clear_self]

theorem Holds.apply (h : m.Holds db M) {op : Op K V} (hop : op.Spares m.base.name) :
    m.Holds (m.apply db op) (op.update M) := by
  cases op with
  | put key value => exact h.put key value
  | remove key => exact h.remove key
  | clear => exact holds_clear m db
  | other w => exact h.of_under_eq (Write.under_apply_of_spares hop db)

/-- Over any run of calls on the index interleaved with writes that spare
it, the index stands for the map the calls make. -/
theorem Holds.run {ops : List (Op K V)} (hops : ∀ op ∈ ops, op.Spares m.base.name) :
    ∀ {db : Database} {M : K → Option V}, m.Holds db M → m.Holds (m.run db ops) (ops.foldl Op.update M) := by
  induction ops with
  | nil => exact fun h => h
  | cons op ops ih =>
    intro db M h
    exact ih (fun op' hop' => hops op' (List.mem_cons_of_mem op hop')) (h.apply (hops op List.mem_cons_self))

end Lawful

section Reads

variable [LawfulStorageKey K] [LawfulStorageValue V] {m : MapIndex K V} {db : Database} {M : K → Option V}

/-- Where the index stands for `M`, `get` reads `M`. -/
theorem get_of_holds (h : m.Holds db M) (key : K) : m.get db key = .ok (M key) := by
  cases hM : M key with
  | some v =>
    have hmem := List.mem_filter.mp ((h _).mpr ⟨key, v, hM, rfl⟩)
    have hget : db.get (m.base.prefixKey key) = some (StorageValue.intoBytes v) :=
      (OrdMap.get?_eq_some_iff db).mpr hmem.1
    rw [get, BaseIndex.get, hget]
    show some <$> StorageValue.fromBytes (StorageValue.intoBytes v) = _
    rw [fromBytes_intoBytes]
    rfl
  | none =>
    -- a binding under the key would be one of `M`'s
    have hget : db.get (m.base.prefixKey key) = none := by
      cases hdb : db.get (m.base.prefixKey key) with
      | none => rfl
      | some vb =>
        have hmem : (m.base.prefixKey key, vb) ∈ db.under (asBytes m.base.name) :=
          List.mem_filter.mpr ⟨(OrdMap.get?_eq_some_iff db).mp hdb, by simp⟩
        obtain ⟨k, v, hk, he⟩ := (h _).mp hmem
        rw [prefixKey_injective (Prod.ext_iff.mp he).1, hk] at hM
        cases hM
    rw [get, BaseIndex.get, hget]
    rfl

theorem contains_of_holds (h : m.Holds db M) (key : K) : m.contains db key = (M key).isSome := by
  have hg := get_of_holds h key
  simp only [get, BaseIndex.get] at hg
  simp only [contains, BaseIndex.contains]
  cases hdb : db.get (m.base.prefixKey key) with
  | none => simp_all
  | some vb =>
    rw [hdb] at hg
    cases hM : M key with
    | none =>
      rw [hM] at hg
      cases hv : StorageValue.fromBytes (V := V) vb <;> simp_all [Functor.map, Except.map]
    | some v => rfl

/-- The bindings under the name of an index that stands for `M` are the
images of a list of `M`'s bindings, in increasing order of key bytes. -/
theorem exists_under_eq_map (h : m.Holds db M) :
    ∃ l : List (K × V), db.under (asBytes m.base.name) =
        l.map (fun a => (m.base.prefixKey a.1, StorageValue.intoBytes a.2)) ∧
      (∀ k v, (k, v) ∈ l ↔ M k = some v) ∧
      l.Pairwise (fun a b => StorageKey.write a.1 < StorageKey.write b.1) := by
  obtain ⟨l, hl⟩ := exists_eq_map_of_forall_mem
    (f := fun a : K × V => (m.base.prefixKey a.1, StorageValue.intoBytes a.2))
    (fun e he => by
      obtain ⟨k, v, -, rfl⟩ := (h e).mp he
      exact ⟨(k, v), rfl⟩)
  have hinj : Function.Injective (fun a : K × V => (m.base.prefixKey a.1, StorageValue.intoBytes a.2)) :=
    fun a b hab => Prod.ext (prefixKey_injective (Prod.ext_iff.mp hab).1)
      (StorageValue.intoBytes_injective (Prod.ext_iff.mp hab).2)
  refine ⟨l, hl, fun k v => ?_, ?_⟩
  · rw [← List.mem_map_of_injective hinj, ← hl, h]
    constructor
    · rintro ⟨k', v', hk', he⟩
      obtain ⟨rfl, rfl⟩ := Prod.ext_iff.mp (@hinj (k, v) (k', v') he)
      exact hk'
    · exact fun hk => ⟨k, v, hk, rfl⟩
  · -- the column is sorted, and a common prefix keeps the order of the keys' bytes
    have hs : (db.under (asBytes m.base.name)).Pairwise (fun a b => a.1 < b.1) := db.sorted.filter _
    rw [hl, List.pairwise_map] at hs
    exact hs.imp fun hab => (append_lt_append_iff _).mp hab

/-- Where the index stands for `M`, its iterators yield `M`'s bindings,
keys and values, each once and in increasing order of key bytes. -/
theorem iter_of_holds (h : m.Holds db M) :
    ∃ l : List (K × V), m.iter db = .ok l ∧ m.keys db = .ok (l.map Prod.fst) ∧
      m.values db = .ok (l.map Prod.snd) ∧ (∀ k v, (k, v) ∈ l ↔ M k = some v) ∧
      l.Pairwise (fun a b => StorageKey.write a.1 < StorageKey.write b.1) := by
  obtain ⟨l, hl, hmem, hsorted⟩ := exists_under_eq_map h
  -- each binding decodes to the key and value it encodes
  have hdec : ∀ {K' V' : Type} [StorageKey K'] [StorageValue V'] (g : K × V → K' × V'),
      (∀ a, BaseIndexIter.decodeEntry (asBytes m.base.name).length
        (m.base.prefixKey a.1, StorageValue.intoBytes a.2) = .ok (g a)) →
      (m.base.iter db () : BaseIndexIter K' V').toList = .ok (l.map g) := by
    intro K' V' _ _ g hg
    rw [BaseIndex.iter_toList, BaseIndex.prefixKey_eq]
    simp only [StorageKey.write, List.append_nil]
    rw [hl]
    exact mapM_map_eq_ok hg l
  have hkv : ∀ a : K × V, BaseIndexIter.decodeEntry (asBytes m.base.name).length
      (m.base.prefixKey a.1, StorageValue.intoBytes a.2) = .ok (id a) := by
    intro a
    simp [BaseIndexIter.decodeEntry, read_write, fromBytes_intoBytes]
  have hk0 : ∀ a : K × V, BaseIndexIter.decodeEntry (asBytes m.base.name).length
      (m.base.prefixKey a.1, StorageValue.intoBytes a.2) = .ok (a.1, (⟨⟩ : Zero)) := by
    intro a
    simp [BaseIndexIter.decodeEntry, read_write, StorageValue.fromBytes]
  have h0v : ∀ a : K × V, BaseIndexIter.decodeEntry (asBytes m.base.name).length
      (m.base.prefixKey a.1, StorageValue.intoBytes a.2) = .ok ((⟨⟩ : Zero), a.2) := by
    intro a
    simp [BaseIndexIter.decodeEntry, StorageKey.read, fromBytes_intoBytes]
  refine ⟨l, ?_, ?_, ?_, hmem, hsorted⟩
  · rw [MapIndex.iter, hdec id hkv, List.map_id]
  · rw [MapIndex.keys, hdec _ hk0]
    simp [Functor.map, Except.map, List.map_map, Function.comp_def]
  · rw [MapIndex.values, hdec _ h0v]
    simp [Functor.map, Except.map, List.map_map, Function.comp_def]

/-- From a column where the index stands for `M` (a fresh one stands for the
empty map, `holds_empty`), after any run of calls on the index interleaved
with writes through other indices that spare it, the index reads the map the
calls make: `get` and `contains` read it, and `iter`, `keys` and `values`
yield its bindings once each, in increasing order of key bytes. -/
theorem run_reads_map [DecidableEq K] (m : MapIndex K V) {ops : List (Op K V)}
    (hops : ∀ op ∈ ops, op.Spares m.base.name) (h : m.Holds db M) :
    (∀ key, m.get (m.run db ops) key = .ok ((ops.foldl Op.update M) key)) ∧
    (∀ key, m.contains (m.run db ops) key = ((ops.foldl Op.update M) key).isSome) ∧
    ∃ l : List (K × V), m.iter (m.run db ops) = .ok l ∧ m.keys (m.run db ops) = .ok (l.map Prod.fst) ∧
      m.values (m.run db ops) = .ok (l.map Prod.snd) ∧
      (∀ k v, (k, v) ∈ l ↔ (ops.foldl Op.update M) k = some v) ∧
      l.Pairwise (fun a b => StorageKey.write a.1 < StorageKey.write b.1) := by
  have hrun := h.run hops
  exact ⟨get_of_holds hrun, contains_of_holds hrun, iter_of_holds hrun⟩

/-- The headers' index, fresh, after a put, a clear of the validators' entry
and a remove of another key. -/
theorem run_reads_map_headers :
    let m : MapIndex Hash Zero := new "core.headers"
    let ops : List (Op Hash Zero) :=
      [.put emptyHash ⟨⟩, .other (.clear "core.validators"), .remove (Vector.replicate 32 1)]
    (∀ op ∈ ops, op.Spares m.base.name) ∧ m.Holds OrdMap.empty (fun _ => none) ∧
      ∀ key, m.get (m.run OrdMap.empty ops) key = .ok ((ops.foldl Op.update (fun _ => none)) key) := by
  intro m ops
  have hops : ∀ op ∈ ops, op.Spares m.base.name := by
    simp only [ops, List.mem_cons, List.not_mem_nil, or_false, forall_eq_or_imp, forall_eq]
    exact ⟨trivial, (by decide : Write.Spares "core.headers" (.clear "core.validators")), trivial⟩
  exact ⟨hops, holds_empty m, (run_reads_map m hops (holds_empty m)).1⟩

end Reads

end MapIndex

/-- `store::entry::Entry`: one value, under the index's name alone. -/
structure Entry (V : Type) where
  base : BaseIndex
deriving DecidableEq, Repr

namespace Entry

variable {V : Type} [StorageValue V]

/-- `Entry::new`. -/
def new (indexName : String) : Entry V := ⟨⟨indexName⟩⟩

/-- `Entry::get`. -/
def get (e : Entry V) (db : Database) : Except Abort (Option V) := e.base.get db (⟨⟩ : Zero)

/-- `Entry::exists`. -/
def «exists» (e : Entry V) (db : Database) : Bool := e.base.contains db (⟨⟩ : Zero)

/-- `Entry::set`. -/
def set (e : Entry V) (db : Database) (value : V) : Database := e.base.put db (⟨⟩ : Zero) value

/-- `Entry::remove`. -/
def remove (e : Entry V) (db : Database) : Database := e.base.remove db (⟨⟩ : Zero)

/-- `Entry::take`: the value, removed if there was one. -/
def take (e : Entry V) (db : Database) : Except Abort (Option V × Database) := do
  let value ← e.get db
  if value.isSome then pure (value, e.remove db) else pure (value, db)

/-- `Entry::swap`: the value before, and the new one set. -/
def swap (e : Entry V) (db : Database) (value : V) : Except Abort (Option V × Database) := do
  let preValue ← e.get db
  pure (preValue, e.set db value)

/-- An entry is the map index of its name with the one key `Zero`. -/
def asMap (e : Entry V) : MapIndex Zero V := ⟨e.base⟩

theorem get_eq (e : Entry V) (db : Database) : e.get db = e.asMap.get db ⟨⟩ := rfl

theorem set_eq (e : Entry V) (db : Database) (value : V) : e.set db value = e.asMap.put db ⟨⟩ value := rfl

omit [StorageValue V] in
theorem remove_eq (e : Entry V) (db : Database) : e.remove db = e.asMap.remove db ⟨⟩ := rfl

variable [LawfulStorageValue V] {e : Entry V} {db : Database} {x : Option V}

/-- `take` returns the value and leaves the entry empty; `swap` returns the
value and leaves the new one. -/
theorem take_swap_of_holds (h : e.asMap.Holds db (fun _ => x)) (value : V) :
    (∃ db', e.take db = .ok (x, db') ∧ e.asMap.Holds db' (fun _ => none)) ∧
    (∃ db', e.swap db value = .ok (x, db') ∧ e.asMap.Holds db' (fun _ => some value)) := by
  have hget : e.get db = .ok x := by rw [get_eq, MapIndex.get_of_holds h]
  constructor
  · cases x with
    | none => exact ⟨db, by simp [take, hget], h⟩
    | some v =>
      refine ⟨e.remove db, by simp [take, hget], ?_⟩
      have hr := h.remove ⟨⟩
      rw [← remove_eq] at hr
      intro b
      rw [hr b]
      -- neither side has a binding
      constructor <;> rintro ⟨k, v', hk, rfl⟩ <;> simp at hk
  · refine ⟨e.set db value, by simp [swap, hget], ?_⟩
    have hs := h.put ⟨⟩ value
    rw [← set_eq] at hs
    intro b
    rw [hs b]
    constructor <;> rintro ⟨k, v', hk, rfl⟩ <;> exact ⟨k, v', by simpa using hk, rfl⟩

end Entry

end ConsensusRs
