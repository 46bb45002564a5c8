import ConsensusRs.Framework.Except
import ConsensusRs.Types.Crypto
import Mathlib.Data.List.Sort
import Mathlib.Data.List.Rotate
import Mathlib.Data.Finset.Card

/-!
# The validator set

`consensus::validator`: the validators of a height, sorted by address, and
the proposer of a round, chosen by `fn_selector` from the parent block's
hash and the round (the only selector the code builds a set with).

`two_thirds_majority` is computed in `f32` as `⌊2n/3⌋`; the model takes the
exact floor, which is what the `f32` computation gives for every set of
fewer than 2²² validators. A quorum is one vote more.

* `new_strict_iff`: `new` only sorts, so the set is strictly increasing by
  address (one validator per address) exactly when the address list has no
  repeats;
* `changes_strict`: `add_validator` and `remove_validator` keep a strictly
  increasing set so, over every sequence of calls, and `size` is then the
  number of distinct addresses (`addValidator_spec` and
  `Strict.removeValidator_spec` say what each call does);
* `calcProposer_rotation`: over `n` consecutive rounds, `calc_proposer`
  picks each of `n` distinct validators once.
-/

namespace ConsensusRs

variable (K : Extern)

/-- The order of `sort_by_key(|k| *k.address())`: addresses byte by byte. -/
def Validator.le (a b : Validator) : Prop := a.address.toList ≤ b.address.toList

instance : DecidableRel Validator.le := fun a b =>
  inferInstanceAs (Decidable (a.address.toList ≤ b.address.toList))

instance : Std.Total Validator.le := ⟨fun a b => List.le_total a.address.toList b.address.toList⟩

instance : IsTrans Validator Validator.le := ⟨fun _ _ _ => List.le_trans⟩

/-- `consensus::validator::ImplValidatorSet`; its `selector` is always
`fn_selector`. -/
structure ImplValidatorSet where
  validators : List Validator
  proposer : Option Validator
deriving DecidableEq, Repr

/-- `randon_seed`: the first 8 bytes of the hash, followed by 8 zero bytes,
as a `U128`, modulo the number of validators. -/
def randonSeed (blh : Hash) (_height : Nat) (vals : List Validator) : Nat :=
  K.u128 (Vector.ofFn fun i : Fin 16 => if h : i.val < 8 then blh[i.val] else 0) % vals.length

/-- `fn_selector`: the validator at `(seed + round) mod n`, with the
assertion that the set is not empty and the `u64` addition. -/
def fnSelector (blh : Hash) (height round : Nat) (vals : List Validator) : Except Abort Validator := do
  assertAt .fnSelector (vals ≠ [])
  let seed ← u64Add .fnSelector (randonSeed K blh height vals) round
  unwrapAt .fnSelector vals[seed % vals.length]?

namespace ImplValidatorSet

/-- `ImplValidatorSet::new`: one validator per address, sorted by address,
and no proposer yet. -/
def new (address : List Address) : ImplValidatorSet :=
  ⟨(address.map Validator.mk).insertionSort Validator.le, none⟩

/-- `calc_proposer`. -/
def calcProposer (v : ImplValidatorSet) (preBlh : Hash) (preHeight round : Nat) :
    Except Abort ImplValidatorSet := do
  let nextProposer ← fnSelector K preBlh preHeight round v.validators
  pure { v with proposer := some nextProposer }

/-- `size`. -/
def size (v : ImplValidatorSet) : Nat := v.validators.length

/-- `get_by_address`: the first validator with the address. -/
def getByAddress (v : ImplValidatorSet) (address : Address) : Option Validator :=
  v.validators.find? fun x => x.address = address

/-- `is_proposer`. -/
def isProposer (v : ImplValidatorSet) (address : Address) : Bool :=
  match v.proposer with
  | none => false
  | some proposer => proposer.address = address

/-- `two_thirds_majority`. -/
def twoThirdsMajority (v : ImplValidatorSet) : Nat := 2 * v.size / 3

/-- `add_validator`: an address already in the set is refused; otherwise its
validator is pushed and the set sorted again. -/
def addValidator (v : ImplValidatorSet) (address : Address) : Bool × ImplValidatorSet :=
  if v.validators.any fun validator => validator.address = address then (false, v)
  else (true, { v with validators := (v.validators ++ [Validator.mk address]).insertionSort Validator.le })

/-- `remove_validator`: the first validator of the address is removed. -/
def removeValidator (v : ImplValidatorSet) (address : Address) : Bool × ImplValidatorSet :=
  match v.validators.idxOf? ⟨address⟩ with
  | some pos => (true, { v with validators := v.validators.eraseIdx pos })
  | none => (false, v)

/-- The addresses of the validators, in the set's order. -/
def addresses (v : ImplValidatorSet) : List Address := v.validators.map (·.address)

/-- What the set is meant to hold: validators strictly increasing by
address, so one per address. -/
def Strict (v : ImplValidatorSet) : Prop :=
  v.validators.Pairwise fun x y => x.address.toList < y.address.toList

instance : DecidablePred Strict := fun v =>
  inferInstanceAs (Decidable (v.validators.Pairwise fun x y => x.address.toList < y.address.toList))

/-- A call that changes a validator set after `new`. -/
inductive Change where
  | addValidator (address : Address)
  | removeValidator (address : Address)
deriving DecidableEq, Repr

/-- The set after the call. -/
def Change.apply (v : ImplValidatorSet) : Change → ImplValidatorSet
  | .addValidator address => (v.addValidator address).2
  | .removeValidator address => (v.removeValidator address).2

variable {K} {v v' : ImplValidatorSet}

@[simp] theorem size_new (address : List Address) : (new address).size = address.length := by
  simp [new, size, List.length_insertionSort]

theorem mem_new {address : List Address} {x : Validator} :
    x ∈ (new address).validators ↔ x.address ∈ address := by
  simp only [new, List.mem_insertionSort, List.mem_map]
  exact ⟨fun ⟨a, ha, hx⟩ => hx ▸ ha, fun hx => ⟨x.address, hx, rfl⟩⟩

theorem getByAddress_eq_some {address : Address} {x : Validator} (h : v.getByAddress address = some x) :
    x ∈ v.validators ∧ x.address = address := by
  have hx := List.find?_some h
  exact ⟨List.mem_of_find?_eq_some h, by simpa using hx⟩

theorem getByAddress_isSome {address : Address} :
    (v.getByAddress address).isSome ↔ ∃ x ∈ v.validators, x.address = address := by
  simp [getByAddress, List.find?_isSome]

theorem isProposer_iff {address : Address} :
    v.isProposer address ↔ ∃ p, v.proposer = some p ∧ p.address = address := by
  unfold isProposer
  cases v.proposer <;> simp

/-- `calc_proposer` changes only the proposer. -/
theorem calcProposer_validators {preBlh : Hash} {preHeight round : Nat}
    (h : v.calcProposer K preBlh preHeight round = .ok v') : v'.validators = v.validators := by
  obtain ⟨p, -, hp⟩ := Iff.mp Framework.bind_eq_ok h
  rw [Framework.pure_eq_ok] at hp
  rw [← hp]

/-- On a set that is not empty, `calc_proposer` returns unless the seed
plus the round overflows a `u64`, and it picks a validator of the set. -/
theorem calcProposer_eq_ok {preBlh : Hash} {preHeight round : Nat} (hne : v.validators ≠ [])
    (hr : randonSeed K preBlh preHeight v.validators + round ≤ u64Max) :
    ∃ p ∈ v.validators, v.calcProposer K preBlh preHeight round = .ok { v with proposer := some p } := by
  have hlt : (randonSeed K preBlh preHeight v.validators + round) % v.validators.length
      < v.validators.length := Nat.mod_lt _ (List.length_pos_iff.mpr hne)
  refine ⟨_, List.getElem_mem hlt, ?_⟩
  simp [calcProposer, fnSelector, assertAt, hne, u64Add, hr, hlt]

/-- `calc_proposer` fails only in `fn_selector`: on an empty set, or when
the seed plus the round overflows. -/
theorem calcProposer_eq_error {preBlh : Hash} {preHeight round : Nat} {a : Abort}
    (h : v.calcProposer K preBlh preHeight round = .error a) :
    a = .assertion .fnSelector ∨ a = .overflow .fnSelector := by
  by_cases hne : v.validators = []
  · simp [calcProposer, fnSelector, assertAt, hne] at h
    exact .inl h.symm
  by_cases hr : randonSeed K preBlh preHeight v.validators + round ≤ u64Max
  · obtain ⟨p, -, hp⟩ := calcProposer_eq_ok hne hr
    rw [hp] at h
    cases h
  · simp [calcProposer, fnSelector, assertAt, hne, u64Add, hr] at h
    exact .inr h.symm

/-- A quorum of the set, `two_thirds_majority + 1` votes, is more than two
thirds of it. -/
theorem three_mul_lt_of_twoThirdsMajority_lt {n : Nat} (h : v.twoThirdsMajority < n) :
    2 * v.size < 3 * n := by
  unfold twoThirdsMajority at h
  omega

theorem validator_ne_iff {x y : Validator} : x ≠ y ↔ x.address.toList ≠ y.address.toList := by
  obtain ⟨x⟩ := x
  obtain ⟨y⟩ := y
  rw [ne_eq, ne_eq, Vector.toList_inj, Validator.mk.injEq]

/-- A list sorted by address without repeats is strictly increasing. -/
theorem pairwise_lt_of_sorted {l : List Validator} (hle : l.Pairwise Validator.le) (hnd : l.Nodup) :
    l.Pairwise fun x y => x.address.toList < y.address.toList :=
  (hle.and hnd).imp fun ⟨hxy, hne⟩ => Std.lt_of_le_of_ne hxy (Iff.mp validator_ne_iff hne)

theorem Strict.nodup (h : v.Strict) : v.validators.Nodup := by
  refine h.imp ?_
  rintro x y hlt rfl
  exact List.lt_irrefl _ hlt

theorem nodup_addresses_iff : v.addresses.Nodup ↔ v.validators.Nodup := by
  refine ⟨List.Nodup.of_map _, fun h => h.map_on fun x _ y _ hxy => ?_⟩
  obtain ⟨x⟩ := x
  obtain ⟨y⟩ := y
  simp only at hxy
  rw [hxy]

/-- Removing the element at the index `idxOf?` finds is erasing it. -/
theorem eraseIdx_of_idxOf_eq_some {α : Type} [BEq α] [LawfulBEq α] {a : α} :
    ∀ {l : List α} {i : Nat}, l.idxOf? a = some i → l.eraseIdx i = l.erase a
  | [], _, h => by simp at h
  | x :: xs, i, h => by
    rw [List.idxOf?_cons] at h
    by_cases hx : x = a
    · subst hx
      rw [if_pos (beq_self_eq_true x), Option.some.injEq] at h
      subst h
      simp
    · rw [if_neg (by simpa using hx)] at h
      obtain ⟨j, hj, rfl⟩ := Option.map_eq_some_iff.mp h
      rw [List.eraseIdx_cons_succ, List.erase_cons_tail (by simpa using hx), eraseIdx_of_idxOf_eq_some hj]

theorem mem_addresses {address : Address} : address ∈ v.addresses ↔ Validator.mk address ∈ v.validators := by
  simp only [addresses, List.mem_map]
  exact ⟨fun ⟨x, hx, hxa⟩ => hxa ▸ hx, fun h => ⟨_, h, rfl⟩⟩

theorem addValidator_of_mem {address : Address} (h : address ∈ v.addresses) : v.addValidator address = (false, v) := by
  have hany : (v.validators.any fun validator => validator.address = address) = true := by
    simpa [addresses] using h
  simp only [addValidator, hany, if_true]

theorem addValidator_of_not_mem {address : Address} (h : address ∉ v.addresses) :
    v.addValidator address =
      (true, { v with validators := (v.validators ++ [Validator.mk address]).insertionSort Validator.le }) := by
  have hany : (v.validators.any fun validator => validator.address = address) = false := by
    simpa [addresses] using h
  simp only [addValidator, hany, Bool.false_eq_true, if_false]

theorem removeValidator_of_not_mem {address : Address} (h : address ∉ v.addresses) :
    v.removeValidator address = (false, v) := by
  have hidx : v.validators.idxOf? (Validator.mk address) = none :=
    List.idxOf?_eq_none_iff.mpr (mt (Iff.mpr mem_addresses) h)
  simp only [removeValidator, hidx]

theorem removeValidator_of_mem {address : Address} (h : address ∈ v.addresses) :
    v.removeValidator address = (true, { v with validators := v.validators.erase (Validator.mk address) }) := by
  obtain ⟨pos, hpos⟩ := Option.isSome_iff_exists.mp (List.isSome_idxOf?.mpr (Iff.mp mem_addresses h))
  simp only [removeValidator, hpos, eraseIdx_of_idxOf_eq_some hpos]

/-- `add_validator` keeps the set strictly increasing. -/
theorem Strict.addValidator (h : v.Strict) (address : Address) : (v.addValidator address).2.Strict := by
  by_cases hmem : address ∈ v.addresses
  · rw [addValidator_of_mem hmem]
    exact h
  · rw [addValidator_of_not_mem hmem]
    have hperm : ((v.validators ++ [Validator.mk address]).insertionSort Validator.le).Perm
        (Validator.mk address :: v.validators) :=
      (List.perm_insertionSort _ _).trans (List.perm_append_singleton _ _)
    have hnd : (Validator.mk address :: v.validators).Nodup :=
      List.nodup_cons.mpr ⟨mt (Iff.mpr mem_addresses) hmem, h.nodup⟩
    exact pairwise_lt_of_sorted (List.pairwise_insertionSort _ _) (hperm.nodup_iff.mpr hnd)

/-- `remove_validator` keeps the set strictly increasing. -/
theorem Strict.removeValidator (h : v.Strict) (address : Address) : (v.removeValidator address).2.Strict := by
  by_cases hmem : address ∈ v.addresses
  · rw [removeValidator_of_mem hmem]
    exact h.sublist (List.erase_sublist)
  · rw [removeValidator_of_not_mem hmem]
    exact h

/-- `add_validator` adds the address, and says whether it was new. -/
theorem addValidator_spec (address : Address) :
    ((v.addValidator address).1 = true ↔ address ∉ v.addresses) ∧
      ∀ x, x ∈ (v.addValidator address).2.addresses ↔ x = address ∨ x ∈ v.addresses := by
  by_cases hmem : address ∈ v.addresses
  · rw [addValidator_of_mem hmem]
    refine ⟨by simp [hmem], fun x => ⟨.inr, ?_⟩⟩
    rintro (rfl | hx)
    · exact hmem
    · exact hx
  · rw [addValidator_of_not_mem hmem]
    refine ⟨by simp [hmem], fun x => ?_⟩
    simp only [addresses, List.mem_map, List.mem_insertionSort, List.mem_append, List.mem_singleton]
    constructor
    · rintro ⟨y, hy | rfl, rfl⟩
      · exact .inr ⟨y, hy, rfl⟩
      · exact .inl rfl
    · rintro (rfl | ⟨y, hy, rfl⟩)
      · exact ⟨_, .inr rfl, rfl⟩
      · exact ⟨y, .inl hy, rfl⟩

/-- On a strictly increasing set, `remove_validator` removes the address, and
says whether it was there. -/
theorem Strict.removeValidator_spec (h : v.Strict) (address : Address) :
    ((v.removeValidator address).1 = true ↔ address ∈ v.addresses) ∧
      ∀ x, x ∈ (v.removeValidator address).2.addresses ↔ x ≠ address ∧ x ∈ v.addresses := by
  by_cases hmem : address ∈ v.addresses
  · rw [removeValidator_of_mem hmem]
    refine ⟨by simp [hmem], fun x => ?_⟩
    rw [mem_addresses, mem_addresses, h.nodup.mem_erase_iff, ne_eq, ne_eq, Validator.mk.injEq]
  · rw [removeValidator_of_not_mem hmem]
    refine ⟨by simp [hmem], fun x => ⟨fun hx => ⟨?_, hx⟩, fun hx => hx.2⟩⟩
    rintro rfl
    exact hmem hx

/-- On a strictly increasing set, `size` is the number of distinct
addresses. -/
theorem Strict.size_eq_card (h : v.Strict) : v.size = v.addresses.toFinset.card := by
  rw [List.toFinset_card_of_nodup (Iff.mpr nodup_addresses_iff h.nodup), addresses, List.length_map]
  rfl

/-- Each call keeps the set strictly increasing. -/
theorem Strict.apply (h : v.Strict) : ∀ c, (Change.apply v c).Strict
  | .addValidator address => h.addValidator address
  | .removeValidator address => h.removeValidator address

/-- So does every sequence of calls. -/
theorem Strict.foldl_apply (h : v.Strict) (cs : List Change) : (cs.foldl Change.apply v).Strict := by
  induction cs generalizing v with
  | nil => exact h
  | cons c cs ih => exact ih (h.apply c)

/-- Three validators, given out of order. -/
def toy : ImplValidatorSet := new ([3, 1, 2].map fun k => Vector.replicate 20 k)

/-- The sorted set `new` builds is strictly increasing exactly when the
address list has no repeats: a list naming a validator twice gives a set
with it twice, counted twice by `size`. -/
theorem new_strict_iff (address : List Address) : (new address).Strict ↔ address.Nodup := by
  have hperm : ((address.map Validator.mk).insertionSort Validator.le).Perm (address.map Validator.mk) :=
    List.perm_insertionSort _ _
  constructor
  · intro h
    exact List.Nodup.of_map Validator.mk (hperm.nodup_iff.mp h.nodup)
  · intro h
    have hnd : (address.map Validator.mk).Nodup := List.Nodup.map (fun _ _ hxy => Validator.mk.inj hxy) h
    exact pairwise_lt_of_sorted (List.pairwise_insertionSort _ _) (hperm.nodup_iff.mpr hnd)

/-- A genesis list naming validator 1 twice: the set holds it twice, `size`
counts two validators where there is one address, and after
`remove_validator` the validator is still in the set. -/
theorem new_duplicate_toy :
    (new [Vector.replicate 20 1, Vector.replicate 20 1]).size = 2 ∧
      ¬ (new [Vector.replicate 20 1, Vector.replicate 20 1]).Strict ∧
      (((new [Vector.replicate 20 1, Vector.replicate 20 1]).removeValidator
        (Vector.replicate 20 1)).2.getByAddress (Vector.replicate 20 1)).isSome := by
  decide

/-- From a list of addresses without repeats, every sequence of
`add_validator` and `remove_validator` calls keeps the set strictly
increasing by address, and `size` the number of distinct addresses. -/
theorem changes_strict {address : List Address} (h : address.Nodup) (cs : List Change) :
    (cs.foldl Change.apply (new address)).Strict ∧
      (cs.foldl Change.apply (new address)).size = (cs.foldl Change.apply (new address)).addresses.toFinset.card := by
  have hstrict := ((new_strict_iff address).mpr h).foldl_apply cs
  exact ⟨hstrict, hstrict.size_eq_card⟩

theorem changes_strict_toy :
    ([3, 1, 2].map fun k : UInt8 => Vector.replicate 20 k).Nodup ∧
      ([.addValidator (Vector.replicate 20 4), .removeValidator (Vector.replicate 20 1),
          .addValidator (Vector.replicate 20 1)].foldl Change.apply toy).Strict ∧
      ([.addValidator (Vector.replicate 20 4), .removeValidator (Vector.replicate 20 1),
          .addValidator (Vector.replicate 20 1)].foldl Change.apply toy).size =
        ([.addValidator (Vector.replicate 20 4), .removeValidator (Vector.replicate 20 1),
          .addValidator (Vector.replicate 20 1)].foldl Change.apply toy).addresses.toFinset.card :=
  ⟨by decide, changes_strict (by decide) _⟩

theorem randonSeed_lt {blh : Hash} {height : Nat} {vals : List Validator} (hne : vals ≠ []) :
    randonSeed K blh height vals < vals.length :=
  Nat.mod_lt _ (List.length_pos_iff.mpr hne)

/-- `calc_proposer` on a set that is not empty, when the seed plus the
round does not overflow: the validator at the seed plus the round, modulo
the size. -/
theorem calcProposer_eq {preBlh : Hash} {preHeight round : Nat} (hne : v.validators ≠ [])
    (hr : randonSeed K preBlh preHeight v.validators + round ≤ u64Max) :
    v.calcProposer K preBlh preHeight round =
      .ok { v with proposer := v.validators[(randonSeed K preBlh preHeight v.validators + round) % v.size]? } := by
  have hlt : (randonSeed K preBlh preHeight v.validators + round) % v.validators.length < v.validators.length :=
    Nat.mod_lt _ (List.length_pos_iff.mpr hne)
  simp [calcProposer, fnSelector, assertAt, hne, u64Add, hr, hlt, size]

/-- Proposer rotation: on a set of `n` distinct validators, the proposers
of `n` consecutive rounds, from any round `r` with `r + 2n` in `u64`, are
the set rotated by the seed and `r`: each validator exactly once. -/
theorem calcProposer_rotation {preBlh : Hash} {preHeight r : Nat} (hne : v.validators ≠ [])
    (hnodup : v.validators.Nodup) (hr : r + 2 * v.size ≤ u64Max) :
    ∃ ps : List Validator, ps.Nodup ∧ ps.Perm v.validators ∧
      ∀ i < v.size, v.calcProposer K preBlh preHeight (r + i) = .ok { v with proposer := ps[i]? } := by
  have hseed : randonSeed K preBlh preHeight v.validators < v.validators.length := randonSeed_lt hne
  refine ⟨v.validators.rotate (randonSeed K preBlh preHeight v.validators + r), List.nodup_rotate.mpr hnodup,
    List.rotate_perm _ _, fun i hi => ?_⟩
  have hi' : i < v.validators.length := hi
  rw [calcProposer_eq hne (by unfold size at hr; omega), List.getElem?_rotate hi']
  congr 3
  unfold size
  congr 1
  omega

theorem calcProposer_rotation_toy :
    toy.validators ≠ [] ∧ toy.validators.Nodup ∧ 5 + 2 * toy.size ≤ u64Max ∧
      ∃ ps : List Validator, ps.Nodup ∧ ps.Perm toy.validators ∧
        ∀ i < toy.size,
          toy.calcProposer Extern.toy emptyHash 0 (5 + i) = .ok { toy with proposer := ps[i]? } :=
  ⟨by decide, by decide, by decide, calcProposer_rotation (by decide) (by decide) (by decide)⟩

end ImplValidatorSet

end ConsensusRs
