import ConsensusRs.Types.Basic
import Mathlib.Logic.Function.Basic

/-!
# Indices over the store, and the ledger's caches

The ledger keeps each of its `Schema` indices under its own name in one
RocksDB column (`src/store`). Keys of two indices never meet: the names
differ and so do the key widths, so the model keeps each index as a map of
its own. A `MapIndex` is a partial map (`Function.update` is its `put`). A
`ListIndex` is two things in the store, its elements by index and its
stored length (the value under the `Zero` key), and one thing in the
instance, the length it has cached (`ListIndex::length`, a `Cell`):
`ListIndex.len` reads the cache, or the store once and caches it.

`LruCache` is the `lru_time_cache` crate's cache as the ledger uses it (no
time expiry): it holds at most `capacity` entries, the most recently
inserted first. A read does not change which entries it holds here; every
result of the ledger is the same whichever entries a cache keeps, as long as
each entry it keeps is one that was inserted (`LruCache.mem_insert`), which
is what the ledger's proofs use.
-/

namespace ConsensusRs

variable {V : Type}

/-- What the store holds under one `ListIndex`'s name. -/
structure ListStore (V : Type) where
  elems : Nat → Option V
  len : Option Nat

/-- No key under the name. -/
def ListStore.empty : ListStore V := ⟨fun _ => none, none⟩

/-- `store::list_index::ListIndex`: the store it reads and its length cache. -/
structure ListIndex (V : Type) where
  base : ListStore V
  length : Option Nat

namespace ListIndex

/-- `ListIndex::new`: nothing cached yet. -/
def new (base : ListStore V) : ListIndex V := ⟨base, none⟩

/-- `ListIndex::get`: the stored element, with no check against the
length. -/
def get (l : ListIndex V) (index : Nat) : Option V := l.base.elems index

/-- `ListIndex::len`. -/
def len (l : ListIndex V) : Nat × ListIndex V :=
  match l.length with
  | some n => (n, l)
  | none =>
    let n := l.base.len.getD 0
    (n, { l with length := some n })

/-- `ListIndex::last`. -/
def last (l : ListIndex V) : Option V × ListIndex V :=
  let (n, l) := l.len
  if n = 0 then (none, l) else (l.get (n - 1), l)

/-- `ListIndex::set_len`: the stored length and the cache. -/
def setLen (l : ListIndex V) (n : Nat) : ListIndex V := ⟨{ l.base with len := some n }, some n⟩

/-- `ListIndex::push`. -/
def push (l : ListIndex V) (value : V) : Except Abort (ListIndex V) := do
  let (n, l) := l.len
  let l := { l with base := { l.base with elems := Function.update l.base.elems n (some value) } }
  let n' ← u64Add .listPush n 1
  pure (l.setLen n')

/-- The length a fresh instance reads. -/
theorem len_new (base : ListStore V) : (new base).len = (base.len.getD 0, ⟨base, some (base.len.getD 0)⟩) :=
  rfl

/-- `push` on a fresh instance: the element at the old length, the length
one more, in the store and in the cache. -/
theorem push_new {base : ListStore V} {value : V} {l : ListIndex V}
    (h : (new base).push value = .ok l) :
    base.len.getD 0 + 1 ≤ u64Max ∧
      l = ⟨⟨Function.update base.elems (base.len.getD 0) (some value), some (base.len.getD 0 + 1)⟩,
        some (base.len.getD 0 + 1)⟩ := by
  simp only [push, len_new, bind, Except.bind] at h
  split at h
  · cases h
  · rename_i n hn
    obtain ⟨hle, rfl⟩ := Iff.mp u64Add_eq_ok hn
    simp only [pure, Except.pure, Except.ok.injEq] at h
    exact ⟨hle, h ▸ rfl⟩

/-- A push fails only when the new length overflows. -/
theorem push_eq_error {l : ListIndex V} {value : V} {a : Abort} (h : l.push value = .error a) :
    a = .overflow .listPush := by
  simp only [push, bind, Except.bind] at h
  split at h
  · rename_i a' ha
    cases h
    unfold u64Add at ha
    split at ha
    · cases ha
    · cases ha; rfl
  · cases h

/-- After a push, `last` is the pushed element and `len` the new length. -/
theorem last_len_of_push {base : ListStore V} {value : V} {l : ListIndex V}
    (h : (new base).push value = .ok l) :
    l.last.1 = some value ∧ l.last.2.len.1 = base.len.getD 0 + 1 := by
  obtain ⟨-, rfl⟩ := push_new h
  simp [last, len, get]

end ListIndex

/-! ## The caches -/

/-- `lru_time_cache::LruCache`, most recent entry first. -/
structure LruCache (α β : Type) where
  capacity : Nat
  entries : List (α × β)

namespace LruCache

variable {α β : Type} [DecidableEq α]

/-- `LruCache::with_capacity`. -/
def withCapacity (capacity : Nat) : LruCache α β := ⟨capacity, []⟩

/-- `LruCache::get`: the entry held under the key. -/
def get (c : LruCache α β) (k : α) : Option β := (c.entries.find? (·.1 = k)).map (·.2)

/-- `LruCache::insert`: the new entry first, the oldest dropped past the
capacity. -/
def insert (c : LruCache α β) (k : α) (v : β) : LruCache α β :=
  { c with entries := ((k, v) :: c.entries.filter (·.1 ≠ k)).take c.capacity }

/-- A cache holds only entries that were inserted. -/
theorem mem_insert {c : LruCache α β} {k : α} {v : β} {p : α × β}
    (h : p ∈ (c.insert k v).entries) : p = (k, v) ∨ p ∈ c.entries := by
  simp only [insert] at h
  rcases List.mem_cons.mp (List.mem_of_mem_take h) with h | h
  · exact .inl h
  · exact .inr (List.mem_of_mem_filter h)

/-- What a read returns is an entry the cache holds. -/
theorem mem_of_get {c : LruCache α β} {k : α} {v : β} (h : c.get k = some v) : (k, v) ∈ c.entries := by
  simp only [get, Option.map_eq_some_iff] at h
  obtain ⟨⟨k', v'⟩, hf, rfl⟩ := h
  have hk : k' = k := by simpa using List.find?_some hf
  exact hk ▸ List.mem_of_find?_eq_some hf

@[simp] theorem get_withCapacity (n : Nat) (k : α) : (withCapacity n : LruCache α β).get k = none := rfl

end LruCache

end ConsensusRs
