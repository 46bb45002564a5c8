import ConsensusRs.Types.Crypto

/-!
# The Merkle root of a block's transactions

`MerkleTree::new_merkle_tree` (`crates/cryptocurrency-kit-rs`) and
`common::merkle_tree_root`. The leaves are the keccak of each item's bytes,
the leaf level is padded to even length by repeating its last item, and the
outer `loop` replaces the level by the hashes of its adjacent pairs (the
inner `while` makes `len / 2` of them) until the level has one node.

The outer loop has no bound in the code. `levelLoop` runs it on fuel, and
`newMerkleTree` gives it `nodes.length + 1` rounds: a level of `n ≥ 2` nodes
halves each round, so that is enough whenever the loop exits at all, and a
level of no node stays empty forever (`levelLoop_nil`), so `none` is a loop
that never exits.

Only the leaf level is padded: at an upper level of odd length the inner
`while` drops the last node.

* `newMerkleTree_ignores_last`: with `4k + 1` items (`k ≥ 1`) the root does
  not depend on the last item, whatever keccak is;
* `newMerkleTree_eq_referenceRoot`: where the padded leaf level has a power
  of two nodes, the root is the reference root (`referenceRoot`, which pads
  every odd level);
* `newMerkleTree_five_toy`: with five items and a keccak that reads every
  byte, the two roots differ.
-/

namespace ConsensusRs

variable (K : Extern)

/-- `MerkleNode`; the child links are never read, so only the data is kept,
which is always a keccak output. -/
structure MerkleNode where
  data : Hash
deriving DecidableEq, Repr

/-- `MerkleTree`. -/
structure MerkleTree where
  root : Option MerkleNode
deriving DecidableEq, Repr

/-- `MerkleNode::new`: a leaf. -/
def MerkleNode.new (data : List UInt8) : MerkleNode := ⟨K.keccak data⟩

/-- `MerkleNode::new_merkle_node`: the hash of the two children's data. -/
def MerkleNode.newMerkleNode (left right : MerkleNode) : MerkleNode :=
  ⟨K.keccak (left.data.toList ++ right.data.toList)⟩

/-- The inner `while` loop: the nodes of `nodes` hashed in adjacent pairs;
an odd last node is dropped. -/
def pairLevel : List MerkleNode → List MerkleNode
  | a :: b :: rest => MerkleNode.newMerkleNode K a b :: pairLevel rest
  | _ => []

/-- The outer `loop` on `fuel` rounds: the node it ends with, or `none` if it
has not exited. -/
def levelLoop : Nat → List MerkleNode → Option MerkleNode
  | 0, _ => none
  | fuel + 1, nodes =>
    match pairLevel K nodes with
    | [root] => some root
    | level => levelLoop fuel level

/-- `MerkleTree::new_merkle_tree`. -/
def newMerkleTree (data : List (List UInt8)) : Except Abort MerkleTree :=
  let data := if data.length % 2 ≠ 0 then data ++ data.getLast?.toList else data
  let nodes := data.map (MerkleNode.new K)
  match levelLoop K (nodes.length + 1) nodes with
  | some root => .ok ⟨some root⟩
  | none => .error (.loop .newMerkleTree)

/-- `common::merkle_tree_root`: the root of the items' JSON. -/
def merkleTreeRoot (txs : List Transaction) : Except Abort Hash := do
  let tree ← newMerkleTree K (txs.map K.jsonTransaction)
  let root ← unwrapAt .newMerkleTree tree.root
  pure root.data

@[simp] theorem pairLevel_nil : pairLevel K [] = [] := rfl

theorem length_pairLevel (nodes : List MerkleNode) :
    (pairLevel K nodes).length = nodes.length / 2 := by
  induction nodes using pairLevel.induct with
  | case1 a b rest ih =>
    simp only [pairLevel, List.length_cons, ih]
    omega
  | case2 nodes h =>
    match nodes, h with
    | [], _ => rfl
    | [_], _ => simp [pairLevel]
    | _ :: _ :: _, h => exact absurd rfl (h _ _ _)

/-- A level of no node stays empty: the loop never exits, whatever the
fuel. -/
theorem levelLoop_nil (fuel : Nat) : levelLoop K fuel [] = none := by
  induction fuel with
  | zero => rfl
  | succ fuel ih => simpa [levelLoop] using ih

/-- A level of at least two nodes, and of at most `2 ^ fuel`, is down to
one node within `fuel` rounds: each round halves it. -/
theorem levelLoop_isSome :
    ∀ (fuel : Nat) (nodes : List MerkleNode), 2 ≤ nodes.length → nodes.length ≤ 2 ^ fuel →
      (levelLoop K fuel nodes).isSome
  | 0, nodes, h2, hle => by
    rw [Nat.pow_zero] at hle
    omega
  | fuel + 1, nodes, h2, hle => by
    have hlen := length_pairLevel K nodes
    unfold levelLoop
    split
    · rfl
    · rename_i hne
      -- not a single node, and at least one: two or more
      have h2' : 2 ≤ (pairLevel K nodes).length := by
        match hl : pairLevel K nodes, hne with
        | [], _ => rw [hl, List.length_nil] at hlen; omega
        | [root], hne => exact absurd rfl (hne root)
        | _ :: _ :: _, _ => simp
      refine levelLoop_isSome fuel _ h2' ?_
      rw [Nat.pow_succ] at hle
      omega

/-- The `nodes.length + 1` rounds `newMerkleTree` gives the loop are
enough. -/
theorem levelLoop_length_isSome {nodes : List MerkleNode} (h2 : 2 ≤ nodes.length) :
    (levelLoop K (nodes.length + 1) nodes).isSome := by
  have hlt := Nat.lt_two_pow_self (n := nodes.length + 1)
  exact levelLoop_isSome K _ nodes h2 (by omega)

/-- The leaf level `new_merkle_tree` builds: an odd list gets its last item
again. -/
theorem length_leaves (data : List (List UInt8)) (h : data ≠ []) :
    2 ≤ ((if data.length % 2 ≠ 0 then data ++ data.getLast?.toList else data).map (MerkleNode.new K)).length := by
  have hpos : 0 < data.length := List.length_pos_iff.mpr h
  split
  · rename_i hodd
    rw [List.getLast?_eq_some_getLast h, List.length_map, List.length_append]
    simp only [Option.toList_some, List.length_singleton]
    omega
  · rename_i heven
    rw [List.length_map]
    omega

/-- A list with an item gets a tree with a root. -/
theorem newMerkleTree_of_ne_nil {data : List (List UInt8)} (h : data ≠ []) :
    ∃ root, newMerkleTree K data = .ok ⟨some root⟩ := by
  obtain ⟨root, hroot⟩ := Option.isSome_iff_exists.mp (levelLoop_length_isSome K (length_leaves K data h))
  refine ⟨root, ?_⟩
  unfold newMerkleTree
  simp only [hroot]

/-- The transaction root of a block with a transaction. -/
theorem merkleTreeRoot_of_ne_nil {txs : List Transaction} (h : txs ≠ []) :
    ∃ root, merkleTreeRoot K txs = .ok root := by
  obtain ⟨root, hroot⟩ := newMerkleTree_of_ne_nil K (List.map_eq_nil_iff (f := K.jsonTransaction).not.mpr h)
  exact ⟨root.data, by simp [merkleTreeRoot, hroot, bind, Except.bind, pure, Except.pure]⟩

/-- `new_merkle_tree` returns on exactly the lists with an item: on the
empty list its loop never exits. -/
theorem newMerkleTree_returns_iff (data : List (List UInt8)) :
    (∃ tree, newMerkleTree K data = .ok tree) ↔ data ≠ [] := by
  constructor
  · rintro ⟨tree, htree⟩ rfl
    simp [newMerkleTree, levelLoop_nil] at htree
  · intro h
    obtain ⟨root, hroot⟩ := newMerkleTree_of_ne_nil K h
    exact ⟨_, hroot⟩

/-- The transactions of a block with none never get a root: the loop
spins. -/
theorem merkleTreeRoot_nil : merkleTreeRoot K [] = .error (.loop .newMerkleTree) := by
  simp [merkleTreeRoot, newMerkleTree, levelLoop_nil, bind, Except.bind]

/-- The root is the only place a root computation fails: a loop that never
exits, or a tree without a root. -/
theorem merkleTreeRoot_eq_error {txs : List Transaction} {a : Abort} (h : merkleTreeRoot K txs = .error a) :
    a = .loop .newMerkleTree ∨ a = .unwrap .newMerkleTree := by
  simp only [merkleTreeRoot, newMerkleTree] at h
  split at h
  · rename_i root _
    exact .inr (by simpa [bind, Except.bind, pure, Except.pure] using h.symm)
  · exact .inl (by simpa [bind, Except.bind] using h.symm)

/-! ## Levels of odd length -/

@[simp] theorem pairLevel_singleton (a : MerkleNode) : pairLevel K [a] = [] := rfl

/-- Pairing a level of even length pairs its two parts apart. -/
theorem pairLevel_append_of_even :
    ∀ (nodes rest : List MerkleNode), nodes.length % 2 = 0 → pairLevel K (nodes ++ rest) = pairLevel K nodes ++ pairLevel K rest
  | [], _, _ => rfl
  | [_], _, h => by simp at h
  | a :: b :: nodes, rest, h => by
    have h' : nodes.length % 2 = 0 := by
      simp only [List.length_cons] at h
      omega
    simp only [List.cons_append, pairLevel, pairLevel_append_of_even nodes rest h', List.cons_append]

/-- A node after a level of even length is dropped: the inner `while` pairs
`len / 2` nodes. -/
theorem levelLoop_append_of_even {nodes : List MerkleNode} (h : nodes.length % 2 = 0) (c : MerkleNode) :
    ∀ fuel, levelLoop K fuel (nodes ++ [c]) = levelLoop K fuel nodes
  | 0 => rfl
  | fuel + 1 => by
    simp only [levelLoop, pairLevel_append_of_even K nodes [c] h, pairLevel_singleton, List.append_nil]

/-- A round that leaves two nodes or more goes on. -/
theorem levelLoop_succ_of_two_le {nodes : List MerkleNode} (h : 2 ≤ (pairLevel K nodes).length) (fuel : Nat) :
    levelLoop K (fuel + 1) nodes = levelLoop K fuel (pairLevel K nodes) := by
  have hne : ∀ root, pairLevel K nodes ≠ [root] := fun root hroot => by
    rw [hroot, List.length_singleton] at h
    omega
  rw [levelLoop]
  split
  · rename_i root hroot
    exact absurd hroot (hne root)
  · rfl

/-- With `4k + 1` leaves (`k ≥ 1`), the padded leaf level pairs into `2k + 1`
nodes, whose last, the hash of the last leaf with itself, the next round
drops. -/
theorem levelLoop_leaves_odd {pre : List (List UInt8)} (h4 : pre.length % 4 = 0) (hne : pre ≠ []) (x : List UInt8) :
    levelLoop K (pre.length + 3) (pre.map (MerkleNode.new K) ++ [MerkleNode.new K x, MerkleNode.new K x]) =
      levelLoop K (pre.length + 2) (pairLevel K (pre.map (MerkleNode.new K))) := by
  have hpos : 0 < pre.length := List.length_pos_iff.mpr hne
  have heven : (pre.map (MerkleNode.new K)).length % 2 = 0 := by
    rw [List.length_map]
    omega
  have hpair : pairLevel K (pre.map (MerkleNode.new K) ++ [MerkleNode.new K x, MerkleNode.new K x]) =
      pairLevel K (pre.map (MerkleNode.new K)) ++ [MerkleNode.newMerkleNode K (MerkleNode.new K x) (MerkleNode.new K x)] := by
    rw [pairLevel_append_of_even K _ _ heven]
    rfl
  have hlen : (pairLevel K (pre.map (MerkleNode.new K))).length = pre.length / 2 := by
    rw [length_pairLevel, List.length_map]
  have hpeven : (pairLevel K (pre.map (MerkleNode.new K))).length % 2 = 0 := by
    rw [hlen]
    omega
  rw [levelLoop_succ_of_two_le K (by rw [hpair, List.length_append, hlen, List.length_singleton]; omega), hpair,
    levelLoop_append_of_even K hpeven]

/-- `new_merkle_tree` of `4k + 1` items (`k ≥ 1`) does not depend on the
last item: whatever keccak is, changing that transaction leaves the root,
and the header's `tx_hash`, as they are. -/
theorem newMerkleTree_ignores_last {pre : List (List UInt8)} (h4 : pre.length % 4 = 0) (hne : pre ≠ [])
    (x y : List UInt8) : newMerkleTree K (pre ++ [x]) = newMerkleTree K (pre ++ [y]) := by
  have hodd : ∀ z : List UInt8, (pre ++ [z]).length % 2 ≠ 0 := fun z => by
    rw [List.length_append, List.length_singleton]
    omega
  have hleaves : ∀ z : List UInt8, (pre ++ [z] ++ (pre ++ [z]).getLast?.toList).map (MerkleNode.new K) =
      pre.map (MerkleNode.new K) ++ [MerkleNode.new K z, MerkleNode.new K z] := fun z => by
    simp
  have hlen : ∀ z : List UInt8, (pre.map (MerkleNode.new K) ++ [MerkleNode.new K z, MerkleNode.new K z]).length + 1 =
      pre.length + 3 := fun z => by
    simp
  simp only [newMerkleTree, hodd, ne_eq, not_false_eq_true, if_true, hleaves, hlen, levelLoop_leaves_odd K h4 hne]

theorem newMerkleTree_ignores_last_toy :
    ([[1], [2], [3], [4]] : List (List UInt8)).length % 4 = 0 ∧ ([[1], [2], [3], [4]] : List (List UInt8)) ≠ [] ∧
      newMerkleTree Extern.toy ([[1], [2], [3], [4]] ++ [[5]]) = newMerkleTree Extern.toy ([[1], [2], [3], [4]] ++ [[6]]) :=
  ⟨by decide, by decide, newMerkleTree_ignores_last Extern.toy (by decide) (by decide) [5] [6]⟩

/-! ## The reference root -/

/-- One level of the reference tree: adjacent pairs hashed, an odd last node
hashed with itself. -/
def refPairLevel : List MerkleNode → List MerkleNode
  | a :: b :: rest => MerkleNode.newMerkleNode K a b :: refPairLevel rest
  | [a] => [MerkleNode.newMerkleNode K a a]
  | [] => []

/-- The reference loop on `fuel` rounds: levels are paired until one node
is left. -/
def refLoop : Nat → List MerkleNode → Option MerkleNode
  | _, [root] => some root
  | 0, _ => none
  | fuel + 1, nodes => refLoop fuel (refPairLevel K nodes)

/-- The root the Merkle-tree construction is meant to give: the items'
keccak as leaves, an odd leaf level padded with its last leaf, then levels
paired, each odd level's last node with itself, until one node is left. -/
def referenceRoot (data : List (List UInt8)) : Option Hash :=
  let leaves := data.map (MerkleNode.new K)
  let leaves := if leaves.length % 2 ≠ 0 then leaves ++ leaves.getLast?.toList else leaves
  (refLoop K leaves.length leaves).map (·.data)

/-- On a level of even length the reference pairs as the code does. -/
theorem refPairLevel_of_even : ∀ nodes : List MerkleNode, nodes.length % 2 = 0 → refPairLevel K nodes = pairLevel K nodes
  | [], _ => rfl
  | [_], h => by simp at h
  | a :: b :: rest, h => by
    have h' : rest.length % 2 = 0 := by
      simp only [List.length_cons] at h
      omega
    simp only [refPairLevel, pairLevel, refPairLevel_of_even rest h']

/-- A level of two nodes or more is paired by the reference loop. -/
theorem refLoop_succ_of_two_le {nodes : List MerkleNode} (h : 2 ≤ nodes.length) (fuel : Nat) :
    refLoop K (fuel + 1) nodes = refLoop K fuel (refPairLevel K nodes) := by
  match nodes, h with
  | _ :: _ :: _, _ => rfl

/-- On a level of `2 ^ (k + 1)` nodes no level is odd, and both loops give
the same root with more than `k` rounds. -/
theorem levelLoop_eq_refLoop :
    ∀ (k fuel fuel' : Nat) (nodes : List MerkleNode), nodes.length = 2 ^ (k + 1) → k < fuel → k < fuel' →
      levelLoop K fuel nodes = refLoop K fuel' nodes
  | 0, fuel + 1, fuel' + 1, nodes, h, _, _ => by
    match nodes, h with
    | [a, b], _ => cases fuel' <;> rfl
  | k + 1, fuel + 1, fuel' + 1, nodes, h, hk, hk' => by
    have hpow : 2 ^ (k + 2) = 2 * 2 ^ (k + 1) := Nat.pow_succ'
    have hone := Nat.one_le_two_pow (n := k + 1)
    have hlen : (pairLevel K nodes).length = 2 ^ (k + 1) := by
      rw [length_pairLevel, h, hpow]
      omega
    have heven : nodes.length % 2 = 0 := by
      rw [h, hpow]
      omega
    rw [levelLoop_succ_of_two_le K (by omega), refLoop_succ_of_two_le K (by omega), refPairLevel_of_even K nodes heven]
    exact levelLoop_eq_refLoop k fuel fuel' _ hlen (by omega) (by omega)

/-- The leaf level `new_merkle_tree` builds, padded before the items are
hashed, is the reference's, padded after. -/
theorem map_padded (data : List (List UInt8)) :
    (if data.length % 2 ≠ 0 then data ++ data.getLast?.toList else data).map (MerkleNode.new K) =
      let leaves := data.map (MerkleNode.new K)
      if leaves.length % 2 ≠ 0 then leaves ++ leaves.getLast?.toList else leaves := by
  simp only [List.length_map]
  split
  · rw [List.map_append, List.getLast?_map]
    cases data.getLast? <;> rfl
  · rfl

/-- Where the padded leaf level has `2 ^ (k + 1)` nodes (1, 2, 3, 4, 7, 8,
… items), no upper level is odd, and `new_merkle_tree`'s root is the
reference root. -/
theorem newMerkleTree_eq_referenceRoot {data : List (List UInt8)} {k : Nat}
    (h : (if data.length % 2 ≠ 0 then data.length + 1 else data.length) = 2 ^ (k + 1)) :
    ∃ root, newMerkleTree K data = .ok ⟨some root⟩ ∧ referenceRoot K data = some root.data := by
  set leaves := (if data.length % 2 ≠ 0 then data ++ data.getLast?.toList else data).map (MerkleNode.new K)
    with hleaves
  have hlen : leaves.length = 2 ^ (k + 1) := by
    rw [hleaves, List.length_map, ← h]
    split
    · rename_i hodd
      have hne : data ≠ [] := fun hnil => by simp [hnil] at hodd
      rw [List.getLast?_eq_some_getLast hne]
      simp
    · rfl
  have hk : k < leaves.length := by
    have := Nat.lt_two_pow_self (n := k + 1)
    omega
  have hagree := levelLoop_eq_refLoop K k (leaves.length + 1) leaves.length leaves hlen (by omega) hk
  obtain ⟨root, hroot⟩ := Option.isSome_iff_exists.mp
    (levelLoop_length_isSome K (by have := Nat.one_le_two_pow (n := k); rw [hlen, Nat.pow_succ]; omega))
  refine ⟨root, by simp only [newMerkleTree, ← hleaves, hroot], ?_⟩
  have href : referenceRoot K data = (refLoop K leaves.length leaves).map (·.data) := by
    simp only [referenceRoot, hleaves, map_padded]
  rw [href, ← hagree, hroot, Option.map_some]

theorem newMerkleTree_eq_referenceRoot_toy :
    (if ([[1], [2], [3]] : List (List UInt8)).length % 2 ≠ 0 then ([[1], [2], [3]] : List (List UInt8)).length + 1
      else ([[1], [2], [3]] : List (List UInt8)).length) = 2 ^ (1 + 1) ∧
      ∃ root, newMerkleTree Extern.toy [[1], [2], [3]] = .ok ⟨some root⟩ ∧
        referenceRoot Extern.toy [[1], [2], [3]] = some root.data :=
  ⟨by decide, newMerkleTree_eq_referenceRoot Extern.toy (k := 1) (by decide)⟩

/-- `Extern.toy` with a keccak that reads every byte of its input (a
polynomial hash in the first byte), so that nodes of different children
differ. -/
def Extern.mix : Extern := { Extern.toy with keccak := fun bs => bytesOf 32 [bs.foldl (fun h b => h * 31 + b) 7] }

/-- Five leaves: the code's root is the same whether the fifth item is `[5]`
or `[6]`, the reference root is not, and the code's root is not the
reference root. -/
theorem newMerkleTree_five_toy :
    newMerkleTree Extern.mix [[1], [2], [3], [4], [5]] = newMerkleTree Extern.mix [[1], [2], [3], [4], [6]] ∧
      referenceRoot Extern.mix [[1], [2], [3], [4], [5]] ≠ referenceRoot Extern.mix [[1], [2], [3], [4], [6]] ∧
      ((newMerkleTree Extern.mix [[1], [2], [3], [4], [5]]).toOption.bind MerkleTree.root).map MerkleNode.data ≠
        referenceRoot Extern.mix [[1], [2], [3], [4], [5]] := by
  decide +kernel

end ConsensusRs
