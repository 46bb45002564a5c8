import ConsensusRs.Types.Basic
import ConsensusRs.Framework.Run
import ConsensusRs.Framework.Loop
import Mathlib.Data.List.AList

/-!
# The transaction pool

`core::tx_pool::BaseTxPool`: a priority queue of transaction hashes (`pq`,
priority the amount) and `MAX_TXPOOL_SIZE / MAX_SLOT_SIZE` slots (`txs`),
each a map from hash to transaction; a transaction is filed in the slot its
hash names (`get_idx`).

* `TxPoolOp.run_inv`: over every run of `add_tx`, `add_txs` and
  `remove_txs` from `new()`, the queue has no key twice, every held
  transaction is queued and filed in its own slot under its cached hash;
* `txPool_run_behaviour`: on every such pool, `len()` is the number of
  slots, and `get_n_tx(n)` for `n > 0` looks up the whole queue, whatever
  `n` is, and panics at a queued hash no slot holds.

What the code does not keep: `remove_txs` removes from the slots only, so a
removed hash stays queued; `get_n_tx` never advances its counter `i`.

`PriorityQueue::iter` visits the items in an order the crate leaves open;
the model takes the order of insertion. A `BTreeMap`'s order is not read.
-/

namespace ConsensusRs

open Framework

/-- `MAX_TXPOOL_SIZE`. -/
def maxTxpoolSize : Nat := 10000000

/-- `MAX_SLOT_SIZE`. -/
def maxSlotSize : Nat := 1000

/-- A `Transaction` with its hash cache (`hash`, which `set_hash` fills and
the model's `Transaction` leaves out). -/
structure PoolTx where
  tx : Transaction
  hash : Option Hash
deriving DecidableEq, Repr

/-- A slot: `BTreeMap<Hash, Transaction>`. -/
abbrev Slot := AList fun _ : Hash => PoolTx

/-- `U256::from(bytes)`: the bytes read big-endian. -/
def u256From (h : Hash) : Nat :=
  h.toList.foldl (fun acc b => acc * 256 + b.toNat) 0

/-- `PriorityQueue::push`: a new item goes last; an item already queued gets
the new priority in its place. -/
def pqPush (pq : List (Hash × Nat)) (item : Hash) (priority : Nat) : List (Hash × Nat) :=
  if pq.any (·.1 == item) then pq.map fun e => if e.1 = item then (item, priority) else e
  else pq ++ [(item, priority)]

/-- `BaseTxPool`. `txs` is a `Vec` of `slots` maps, by index. -/
structure BaseTxPool where
  pq : List (Hash × Nat)
  slots : Nat
  txs : Nat → Slot

namespace BaseTxPool

/-- `BaseTxPool::new`: an empty queue and `MAX_TXPOOL_SIZE / MAX_SLOT_SIZE`
empty slots. -/
def new : BaseTxPool := ⟨[], maxTxpoolSize / maxSlotSize, fun _ => ∅⟩

/-- `get_idx`: the hash, as a number, modulo the number of slots. -/
def getIdx (p : BaseTxPool) (txHash : Hash) : Nat := u256From txHash % p.slots

/-- `self.txs.get(idx)`. -/
def slot? (p : BaseTxPool) (idx : Nat) : Option Slot :=
  if idx < p.slots then some (p.txs idx) else none

/-- The slots with slot `idx` replaced. -/
def setSlot (p : BaseTxPool) (idx : Nat) (m : Slot) : BaseTxPool :=
  { p with txs := fun j => if j = idx then m else p.txs j }

/-- `len`: the length of `txs`. -/
def len (p : BaseTxPool) : Nat := p.slots

/-- `get_tx`: `self.txs[idx]`, which panics past the end, then the map. -/
def getTx (p : BaseTxPool) (txHash : Hash) : Except Abort (Option PoolTx) :=
  match p.slot? (p.getIdx txHash) with
  | some m => .ok (m.lookup txHash)
  | none => .error (.assertion .getTx)

/-- `get_n_tx`: the queue's items in order, each looked up in its slot with
`unwrap`, until `i >= n`; `i` stays `0`. -/
def getNTx (p : BaseTxPool) (n : Nat) : Except Abort (List PoolTx) := do
  let i : Nat := 0
  forIn p.pq [] fun (txHash, _) txs => do
    if i ≥ n then return .done txs
    let idx := p.getIdx txHash
    let m ← unwrapAt .getNTx (p.slot? idx)
    let tx ← unwrapAt .getNTx (m.lookup txHash)
    return .yield (txs ++ [tx])

/-- `add_tx`: the transaction filed under its cached hash and queued with
its amount, unless its slot has the hash; the queue's length. -/
def addTx (p : BaseTxPool) (tx : PoolTx) : Except Abort (Nat × BaseTxPool) := do
  let hash ← unwrapAt .addTx tx.hash
  let idx := p.getIdx hash
  let v ← unwrapAt .addTx (p.slot? idx)
  if (v.lookup hash).isSome then return (p.pq.length, p)
  let p := { p.setSlot idx (v.insert hash tx) with pq := pqPush p.pq hash tx.tx.amount }
  return (p.pq.length, p)

/-- `add_txs`: `add_tx` of each, counting them. -/
def addTxs (p : BaseTxPool) (txs : List PoolTx) : Except Abort (Nat × BaseTxPool) :=
  txs.foldlM (fun (start, p) tx => do
    let (_, p) ← p.addTx tx
    pure (start + 1, p)) (0, p)

/-- `remove_txs`: each hash removed from its slot. -/
def removeTxs (p : BaseTxPool) (txHashes : List Hash) : Except Abort BaseTxPool :=
  txHashes.foldlM (fun p txHash => do
    let idx := p.getIdx txHash
    let m ← unwrapAt .removeTxs (p.slot? idx)
    pure (p.setSlot idx (m.erase txHash))) p

end BaseTxPool

/-- The calls that change a pool. -/
inductive TxPoolOp where
  | addTx (tx : PoolTx)
  | addTxs (txs : List PoolTx)
  | removeTxs (txHashes : List Hash)

/-- One call on the pool. -/
def TxPoolOp.apply (p : BaseTxPool) : TxPoolOp → Except Abort BaseTxPool
  | .addTx tx => (·.2) <$> p.addTx tx
  | .addTxs txs => (·.2) <$> p.addTxs txs
  | .removeTxs txHashes => p.removeTxs txHashes

/-! ## The operations -/

theorem keys_pqPush (pq : List (Hash × Nat)) (item : Hash) (priority : Nat) :
    (pqPush pq item priority).map Prod.fst =
      if item ∈ pq.map Prod.fst then pq.map Prod.fst else pq.map Prod.fst ++ [item] := by
  have hany : pq.any (·.1 == item) = true ↔ item ∈ pq.map Prod.fst := by
    simp only [List.any_eq_true, beq_iff_eq, List.mem_map]
  unfold pqPush
  by_cases h : item ∈ pq.map Prod.fst
  · rw [if_pos (hany.mpr h), if_pos h, List.map_map]
    apply List.map_congr_left
    intro e _
    by_cases he : e.1 = item <;> simp [he]
  · rw [if_neg (fun h' => h (hany.mp h')), if_neg h, List.map_append]
    rfl

namespace BaseTxPool

variable {p p' : BaseTxPool}

@[simp] theorem setSlot_txs (idx : Nat) (m : Slot) (j : Nat) :
    (p.setSlot idx m).txs j = if j = idx then m else p.txs j := rfl

@[simp] theorem setSlot_slots (idx : Nat) (m : Slot) : (p.setSlot idx m).slots = p.slots := rfl

@[simp] theorem setSlot_pq (idx : Nat) (m : Slot) : (p.setSlot idx m).pq = p.pq := rfl

@[simp] theorem getIdx_setSlot (idx : Nat) (m : Slot) (k : Hash) : (p.setSlot idx m).getIdx k = p.getIdx k := rfl

/-- The slot a hash names is there, when there are slots. -/
theorem slot?_getIdx (hpos : 0 < p.slots) (k : Hash) : p.slot? (p.getIdx k) = some (p.txs (p.getIdx k)) :=
  if_pos (Nat.mod_lt _ hpos)

/-- What `add_tx` does: it needs the cached hash; a hash its slot has leaves
the pool as it is, and another is filed in its slot and queued. -/
theorem addTx_eq_ok {tx : PoolTx} {r : Nat} (hpos : 0 < p.slots) (h : p.addTx tx = .ok (r, p')) :
    ∃ hash, tx.hash = some hash ∧
      ((hash ∈ p.txs (p.getIdx hash) ∧ p' = p) ∨
        (hash ∉ p.txs (p.getIdx hash) ∧
          p' = { p.setSlot (p.getIdx hash) ((p.txs (p.getIdx hash)).insert hash tx) with
            pq := pqPush p.pq hash tx.tx.amount })) := by
  unfold addTx at h
  obtain ⟨hash, hhash, h⟩ := Iff.mp bind_eq_ok h
  rw [unwrapAt_eq_ok] at hhash
  simp only [slot?_getIdx hpos, unwrapAt_some, ok_bind] at h
  refine ⟨hash, hhash, ?_⟩
  by_cases hmem : hash ∈ p.txs (p.getIdx hash)
  · have hsome : ((p.txs (p.getIdx hash)).lookup hash).isSome = true := AList.lookup_isSome.mpr hmem
    rw [if_pos hsome, pure_eq_ok, Prod.mk.injEq] at h
    exact .inl ⟨hmem, h.2.symm⟩
  · have hnone : ¬ ((p.txs (p.getIdx hash)).lookup hash).isSome = true := fun h' => hmem (AList.lookup_isSome.mp h')
    rw [if_neg hnone, pure_eq_ok, Prod.mk.injEq] at h
    exact .inr ⟨hmem, h.2.symm⟩

/-- `remove_txs` removes each hash from its slot, and nothing else. -/
theorem removeTxs_eq_ok (hpos : 0 < p.slots) (txHashes : List Hash) :
    p.removeTxs txHashes = .ok (txHashes.foldl (fun p k => p.setSlot (p.getIdx k) ((p.txs (p.getIdx k)).erase k)) p) := by
  induction txHashes generalizing p with
  | nil => rfl
  | cons k ks ih =>
    simp only [removeTxs, List.foldlM_cons, slot?_getIdx hpos, unwrapAt_some, ok_bind, List.foldl_cons]
    exact ih (p := p.setSlot (p.getIdx k) ((p.txs (p.getIdx k)).erase k)) hpos

end BaseTxPool

/-! ## The representation invariant -/

namespace BaseTxPool

variable {p p' : BaseTxPool}

/-- What the pool keeps of its representation: its slots; a queue with no
hash twice; and every held transaction queued, in the slot its hash names,
under its cached hash. -/
structure Inv (p : BaseTxPool) : Prop where
  slots_eq : p.slots = maxTxpoolSize / maxSlotSize
  pq_nodup : (p.pq.map Prod.fst).Nodup
  queued : ∀ i k, k ∈ p.txs i → k ∈ p.pq.map Prod.fst
  own_slot : ∀ i k, k ∈ p.txs i → i = p.getIdx k
  cached : ∀ i k tx, (p.txs i).lookup k = some tx → tx.hash = some k

theorem Inv.new : BaseTxPool.new.Inv where
  slots_eq := rfl
  pq_nodup := List.nodup_nil
  queued _ _ h := absurd h (AList.lookup_isSome.not.mp (by simp [BaseTxPool.new, AList.lookup_empty]))
  own_slot _ _ h := absurd h (AList.lookup_isSome.not.mp (by simp [BaseTxPool.new, AList.lookup_empty]))
  cached _ _ _ h := by simp [BaseTxPool.new, AList.lookup_empty] at h

theorem Inv.slots_pos (hp : p.Inv) : 0 < p.slots := by
  rw [hp.slots_eq]
  decide

/-- Replacing one slot, and the queue by one that keeps its hashes, keeps the
invariant when the new slot's transactions are queued, belong in it, and
are filed under their cached hashes: the other slots are as they were. -/
theorem Inv.replace (hp : p.Inv) {idx : Nat} {m : Slot} {pq : List (Hash × Nat)} (hnodup : (pq.map Prod.fst).Nodup)
    (hsub : ∀ k ∈ p.pq.map Prod.fst, k ∈ pq.map Prod.fst) (hqueued : ∀ k ∈ m, k ∈ pq.map Prod.fst)
    (hown : ∀ k ∈ m, idx = p.getIdx k) (hcached : ∀ k tx, m.lookup k = some tx → tx.hash = some k) :
    Inv { p.setSlot idx m with pq } := by
  refine ⟨hp.slots_eq, hnodup, ?_, ?_, ?_⟩
  · intro i k hk
    simp only [setSlot_txs] at hk
    split_ifs at hk
    · exact hqueued k hk
    · exact hsub k (hp.queued i k hk)
  · intro i k hk
    simp only [setSlot_txs] at hk
    split_ifs at hk with hi
    · exact hi.trans (hown k hk)
    · exact hp.own_slot i k hk
  · intro i k t hk
    simp only [setSlot_txs] at hk
    split_ifs at hk
    · exact hcached k t hk
    · exact hp.cached i k t hk

/-- Filing a transaction under its cached hash, in its own slot, and
queueing the hash keeps the invariant. -/
theorem Inv.file (hp : p.Inv) {tx : PoolTx} {hash : Hash} (hhash : tx.hash = some hash) :
    Inv { p.setSlot (p.getIdx hash) ((p.txs (p.getIdx hash)).insert hash tx) with
      pq := pqPush p.pq hash tx.tx.amount } := by
  have hkeys := keys_pqPush p.pq hash tx.tx.amount
  -- the queue keeps its hashes and has the new one
  have hsub : ∀ k ∈ p.pq.map Prod.fst, k ∈ (pqPush p.pq hash tx.tx.amount).map Prod.fst := by
    intro k hk
    rw [hkeys]
    split_ifs
    · exact hk
    · exact List.mem_append_left _ hk
  have hnew : hash ∈ (pqPush p.pq hash tx.tx.amount).map Prod.fst := by
    rw [hkeys]
    split_ifs with h
    · exact h
    · exact List.mem_append_right _ (List.mem_singleton_self _)
  have hnodup : ((pqPush p.pq hash tx.tx.amount).map Prod.fst).Nodup := by
    rw [hkeys]
    split_ifs with h
    · exact hp.pq_nodup
    · exact hp.pq_nodup.append (List.nodup_singleton _) (by simpa using h)
  apply hp.replace hnodup hsub
  · intro k hk
    rcases (AList.mem_insert _).mp hk with rfl | hk
    · exact hnew
    · exact hsub k (hp.queued _ k hk)
  · intro k hk
    rcases (AList.mem_insert _).mp hk with rfl | hk
    · rfl
    · exact hp.own_slot _ k hk
  · intro k t hk
    by_cases hkh : k = hash
    · subst hkh
      rw [AList.lookup_insert, Option.some.injEq] at hk
      exact hk ▸ hhash
    · rw [AList.lookup_insert_ne hkh] at hk
      exact hp.cached _ k t hk

theorem Inv.addTx (hp : p.Inv) {tx : PoolTx} {r : Nat} (h : p.addTx tx = .ok (r, p')) : p'.Inv := by
  obtain ⟨hash, hhash, ⟨-, rfl⟩ | ⟨-, rfl⟩⟩ := addTx_eq_ok hp.slots_pos h
  · exact hp
  · exact hp.file hhash

theorem Inv.addTxs (hp : p.Inv) {txs : List PoolTx} {r : Nat} (h : p.addTxs txs = .ok (r, p')) : p'.Inv := by
  unfold BaseTxPool.addTxs at h
  -- the fold's accumulator is the count and the pool so far
  generalize hacc : ((0 : Nat), p) = acc at h
  have hacc' : acc.2.Inv := hacc ▸ hp
  clear hacc hp
  induction txs generalizing acc with
  | nil =>
    rw [List.foldlM_nil, pure_eq_ok] at h
    subst h
    exact hacc'
  | cons tx txs ih =>
    rw [List.foldlM_cons] at h
    obtain ⟨acc₁, h₁, h⟩ := Iff.mp bind_eq_ok h
    apply ih acc₁ h
    obtain ⟨start, p₀⟩ := acc
    obtain ⟨⟨r₁, p₂⟩, hadd, hk⟩ := Iff.mp bind_eq_ok h₁
    rw [pure_eq_ok] at hk
    rw [← hk]
    exact hacc'.addTx hadd

/-- Removing a hash from its slot keeps the invariant. -/
theorem Inv.erase (hp : p.Inv) (k : Hash) : Inv (p.setSlot (p.getIdx k) ((p.txs (p.getIdx k)).erase k)) := by
  apply hp.replace hp.pq_nodup (fun _ h => h)
  · exact fun k' hk' => hp.queued _ k' (AList.mem_erase.mp hk').2
  · exact fun k' hk' => hp.own_slot _ k' (AList.mem_erase.mp hk').2
  · intro k' t hk'
    by_cases hkk : k' = k
    · rw [hkk, AList.lookup_erase] at hk'
      cases hk'
    · rw [AList.lookup_erase_ne hkk] at hk'
      exact hp.cached _ k' t hk'

theorem Inv.removeTxs (hp : p.Inv) {txHashes : List Hash} (h : p.removeTxs txHashes = .ok p') : p'.Inv := by
  rw [removeTxs_eq_ok hp.slots_pos, Except.ok.injEq] at h
  subst h
  induction txHashes generalizing p with
  | nil => exact hp
  | cons k ks ih => exact ih (hp.erase k)

/-- Every call keeps the invariant. -/
theorem Inv.apply (hp : p.Inv) {op : TxPoolOp} (h : op.apply p = .ok p') : p'.Inv := by
  cases op with
  | addTx tx =>
    obtain ⟨⟨r, p₁⟩, hadd, rfl⟩ := Iff.mp map_eq_ok h
    exact hp.addTx hadd
  | addTxs txs =>
    obtain ⟨⟨r, p₁⟩, hadd, rfl⟩ := Iff.mp map_eq_ok h
    exact hp.addTxs hadd
  | removeTxs txHashes => exact hp.removeTxs h

/-- `get_n_tx` for `n > 0` never breaks, since `i` stays `0`: it looks up
every queued hash in its slot, with `unwrap`. -/
theorem getNTx_of_pos (hpos : 0 < p.slots) {n : Nat} (hn : 0 < n) :
    p.getNTx n = p.pq.mapM fun e => unwrapAt .getNTx ((p.txs (p.getIdx e.1)).lookup e.1) := by
  unfold getNTx
  have hbreak : ¬ (0 ≥ n) := by omega
  rw [forIn_yield_append ?_ p.pq []]
  · cases p.pq.mapM fun e => unwrapAt .getNTx ((p.txs (p.getIdx e.1)).lookup e.1) <;> rfl
  · rintro ⟨txHash, priority⟩ acc
    simp only [hbreak, if_false, slot?_getIdx hpos, unwrapAt_some, ok_bind]
    cases (p.txs (p.getIdx txHash)).lookup txHash <;> rfl

end BaseTxPool

/-! ## Runs of the pool -/

/-- Every pool a run of calls from `new()` reaches keeps the invariant. -/
theorem TxPoolOp.run_inv {ops : List TxPoolOp} {p : BaseTxPool}
    (h : runFrom TxPoolOp.apply BaseTxPool.new ops = .ok p) : p.Inv :=
  (Reachable.of_runFrom .init h).inv BaseTxPool.Inv.new fun _ _ _ hs he => hs.apply he

/-- What the pool is over every run of calls from `new()`: `len()` is the
number of slots, whatever the pool holds; every held transaction is queued
and in the slot its hash names; and `get_n_tx(n)`, for every `n > 0`, looks
up the whole queue with `unwrap`, whatever `n` is. -/
theorem txPool_run_behaviour {ops : List TxPoolOp} {p : BaseTxPool}
    (h : runFrom TxPoolOp.apply BaseTxPool.new ops = .ok p) :
    p.len = 10000 ∧ (∀ i k, k ∈ p.txs i → k ∈ p.pq.map Prod.fst ∧ i = p.getIdx k) ∧
      ∀ n, 0 < n → p.getNTx n = p.pq.mapM fun e => unwrapAt .getNTx ((p.txs (p.getIdx e.1)).lookup e.1) := by
  have hp := TxPoolOp.run_inv h
  refine ⟨hp.slots_eq, fun i k hk => ⟨hp.queued i k hk, hp.own_slot i k hk⟩, fun n hn => ?_⟩
  exact BaseTxPool.getNTx_of_pos hp.slots_pos hn

/-- A transfer of `k` whose cached hash is 32 bytes `k`. -/
def toyPoolTx (k : UInt8) : PoolTx :=
  ⟨⟨0, 0, 0, none, k.toNat, [], none⟩, some (Vector.replicate 32 k)⟩

/-- Two transactions added. -/
theorem txPool_run_behaviour_toy :
    ∃ p, runFrom TxPoolOp.apply BaseTxPool.new [.addTx (toyPoolTx 1), .addTx (toyPoolTx 2)] = .ok p ∧
      (p.len = 10000 ∧ (∀ i k, k ∈ p.txs i → k ∈ p.pq.map Prod.fst ∧ i = p.getIdx k) ∧
        ∀ n, 0 < n → p.getNTx n = p.pq.mapM fun e => unwrapAt .getNTx ((p.txs (p.getIdx e.1)).lookup e.1)) := by
  obtain ⟨p, hp⟩ : ∃ p, runFrom TxPoolOp.apply BaseTxPool.new [.addTx (toyPoolTx 1), .addTx (toyPoolTx 2)] = .ok p :=
    ⟨_, rfl⟩
  exact ⟨p, hp, txPool_run_behaviour hp⟩

/-- Two transactions added: `len()` is 10000 and `get_n_tx(1)` returns both.
Then the first removed: its hash stays queued with no slot holding it, and
`get_n_tx(1)` panics on it. -/
theorem txPool_stale_toy :
    ((runFrom TxPoolOp.apply BaseTxPool.new [.addTx (toyPoolTx 1), .addTx (toyPoolTx 2)]).map
        fun p => (p.len, p.getNTx 1)) = .ok (10000, .ok [toyPoolTx 1, toyPoolTx 2]) ∧
      ((runFrom TxPoolOp.apply BaseTxPool.new
          [.addTx (toyPoolTx 1), .addTx (toyPoolTx 2), .removeTxs [Vector.replicate 32 1]]).map
        fun p => (p.pq.map Prod.fst, (p.txs (p.getIdx (Vector.replicate 32 1))).keys, p.getNTx 1)) =
        .ok ([Vector.replicate 32 1, Vector.replicate 32 2], [], .error (.unwrap .getNTx)) := by
  constructor <;> decide

end ConsensusRs
