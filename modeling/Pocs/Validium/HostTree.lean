import Pocs.Validium.Bridge
import Pocs.Validium.Transfer

/-! # The tree of the operator

`merkle.rs` and `accounts.rs` of the host. The array of a `MerkleTree` holds the nodes of a perfect tree
(`Built`), so that its proofs are the paths of the tree, and the update of two leaves and the contract's
check of a claim can be compared with it. -/

namespace Pocs.Validium

open Merkle (length_pathAt nodeAt pathAt)

/-- `nodes` has index 1 for the root and index 0 unused. -/
structure MerkleTree (W : Type) where
  nodes : List W
  depth : Nat

structure MerkleProof (W : Type) where
  path : List W
  indices : List Bool
  deriving DecidableEq

/-- `xs[i] = x`, which panics out of bounds. -/
def setNth {α : Type} (xs : List α) (i : Nat) (x : α) : Except String (List α) := do
  require (i < xs.length) "index out of bounds"
  pure (xs.set i x)

/-! ## merkle.rs -/

namespace Sha256
variable {W : Type} (S : Sha256 W)

/-- A step of the loop that builds the tree bottom-up. -/
def hashNode (nodes : List W) (i : Nat) : Except String (List W) := do
  let left ← nth nodes (2 * i)
  let right ← nth nodes (2 * i + 1)
  setNth nodes i (S.hashPair left right)

def fromLeaves (leaves : List W) (depth : Nat) : Except String (MerkleTree W) := do
  let numLeaves := 2 ^ depth
  let totalNodes := 2 * numLeaves
  let nodes := List.replicate totalNodes S.zero
  let nodes ← leaves.zipIdx.foldlM (fun nodes leaf => setNth nodes (numLeaves + leaf.2) leaf.1) nodes
  let nodes ← (List.range' 1 (numLeaves - 1)).reverse.foldlM S.hashNode nodes
  pure ⟨nodes, depth⟩

def computeSingleLeafRoot (newLeaf : W) (path : List W) (indices : List Bool) : W :=
  S.computeRoot newLeaf path indices

/-- The text is the one of the guest. -/
def hostComputeNewRoot (senderLeaf : W) (senderIndices : List Bool) (recipientLeaf : W)
    (recipientIndices : List Bool) (senderPath recipientPath : List W) : Except String W :=
  S.computeNewRoot senderLeaf senderIndices recipientLeaf recipientIndices senderPath recipientPath

end Sha256

namespace MerkleTree
variable {W : Type}

def root (t : MerkleTree W) : Except String W := nth t.nodes 1

/-- The rounds of the loop of `prove`. -/
def proveFrom (t : MerkleTree W) : Nat → Nat → Except String (MerkleProof W)
  | 0, _ => pure ⟨[], []⟩
  | rounds + 1, nodeIdx => do
    let isRight := nodeIdx &&& 1 == 1
    let siblingIdx := if isRight then nodeIdx - 1 else nodeIdx + 1
    let sibling ← nth t.nodes siblingIdx
    let above ← t.proveFrom rounds (nodeIdx / 2)
    pure ⟨sibling :: above.path, isRight :: above.indices⟩

def prove (t : MerkleTree W) (index : Nat) : Except String (MerkleProof W) :=
  t.proveFrom t.depth (2 ^ t.depth + index)

end MerkleTree

/-- The accounts of the operator. -/
structure AccountStore (W : Type) where
  accounts : List (Account W)

namespace AccountStore
variable {W : Type} (S : Sha256 W) (store : AccountStore W)

def commitments : List W :=
  store.accounts.map fun a => S.accountCommitment a.pubkey a.balance a.salt

def buildTree (depth : Nat) : Except String (MerkleTree W) := S.fromLeaves (store.commitments S) depth

def tree (depth : Nat) : AccountTree W := ⟨depth, fun i => store.accounts[i]?⟩

end AccountStore

/-! ## The array -/

section
variable {W : Type} {S : Sha256 W}

theorem setNth_eq_ok {α : Type} {xs ys : List α} {i : Nat} {x : α} :
    setNth xs i x = .ok ys ↔ i < xs.length ∧ xs.set i x = ys := by
  simp only [setNth, bind_eq_ok, require_eq_ok, exists_const, pure_eq_ok]

theorem setNth_of_lt {α : Type} {xs : List α} {i : Nat} (h : i < xs.length) (x : α) :
    setNth xs i x = .ok (xs.set i x) :=
  setNth_eq_ok.mpr ⟨h, rfl⟩

/-- The nodes from `m` on are those of the tree with leaves `f`: node `j` of level `l` is at
`2 ^ (d - l) + j`. -/
structure Built (S : Sha256 W) (f : Nat → W) (d m : Nat) (nodes : List W) : Prop where
  length_eq : nodes.length = 2 * 2 ^ d
  node : ∀ l ≤ d, ∀ j < 2 ^ (d - l), m ≤ 2 ^ (d - l) + j →
    nodes[2 ^ (d - l) + j]? = some (nodeAt S.hashPair f l j)

/-- The leaves, after the loop that fills them in. -/
theorem built_of_fill {d : Nat} {leaves : List W} (hlen : leaves.length ≤ 2 ^ d) :
    ∃ nodes, leaves.zipIdx.foldlM (fun nodes leaf => setNth nodes (2 ^ d + leaf.2) leaf.1)
        (List.replicate (2 * 2 ^ d) S.zero) = .ok nodes ∧
      Built S (fun i => leaves.getD i S.zero) d (2 ^ d) nodes := by
  have hfill : ∃ nodes, leaves.zipIdx.foldlM (fun nodes leaf => setNth nodes (2 ^ d + leaf.2) leaf.1)
        (List.replicate (2 * 2 ^ d) S.zero) = .ok nodes ∧ nodes.length = 2 * 2 ^ d ∧
      ∀ j < 2 ^ d, nodes[2 ^ d + j]? = some (leaves.getD j S.zero) := by
    induction leaves using List.reverseRecOn with
    | nil =>
      refine ⟨_, rfl, List.length_replicate, fun j hj => ?_⟩
      rw [List.getElem?_replicate, if_pos (by omega), List.getD_nil]
    | append_singleton leaves leaf ih =>
      rw [List.length_append, List.length_singleton] at hlen
      obtain ⟨nodes, hnodes, hlength, hleaf⟩ := ih (by omega)
      have hlt : 2 ^ d + leaves.length < nodes.length := by omega
      refine ⟨nodes.set (2 ^ d + leaves.length) leaf, ?_, by rw [List.length_set, hlength], fun j hj => ?_⟩
      · rw [List.zipIdx_append, List.foldlM_append, Nat.zero_add, bind_eq_ok]
        refine ⟨nodes, hnodes, ?_⟩
        rw [List.zipIdx_singleton, List.foldlM_cons, setNth_of_lt hlt]
        rfl
      · rw [congrFun (Merkle.getD_concat leaves leaf S.zero) j]
        rcases eq_or_ne j leaves.length with rfl | hne
        · rw [Function.update_self, List.getElem?_set_self hlt]
        · rw [Function.update_of_ne hne, List.getElem?_set_ne (by omega), hleaf j hj]
  obtain ⟨nodes, hnodes, hlength, hleaf⟩ := hfill
  refine ⟨nodes, hnodes, hlength, fun l hl j hj hge => ?_⟩
  rcases Nat.eq_zero_or_pos l with rfl | hpos
  · exact hleaf j hj
  · -- an inner node is below the leaves
    have hle : 2 ^ (d - l + 1) ≤ 2 ^ d := Nat.pow_le_pow_right Nat.two_pos (by omega)
    rw [Nat.pow_succ] at hle
    omega

/-- A round of the loop over the inner nodes. -/
theorem Built.hashNode {f : Nat → W} {d m : Nat} {nodes : List W} (h : Built S f d (m + 1) nodes)
    (hm : m < 2 ^ d) : ∃ nodes', S.hashNode nodes m = .ok nodes' ∧ Built S f d m nodes' := by
  have hlength := h.length_eq
  have hleft : 2 * m < nodes.length := by omega
  have hright : 2 * m + 1 < nodes.length := by omega
  refine ⟨nodes.set m (S.hashPair nodes[2 * m] nodes[2 * m + 1]), ?_, ?_, fun l hl j hj hge => ?_⟩
  · simp only [Sha256.hashNode, bind_eq_ok, nth_eq_ok, setNth_eq_ok]
    exact ⟨_, List.getElem?_eq_getElem hleft, _, List.getElem?_eq_getElem hright, by omega, rfl⟩
  · rw [List.length_set, hlength]
  · rcases Nat.eq_or_lt_of_le hge with heq | hlt
    · -- the node is set from its children, which are on the level below
      obtain ⟨k, rfl⟩ : ∃ k, l = k + 1 := by
        refine Nat.exists_eq_succ_of_ne_zero fun hzero => ?_
        rw [hzero, Nat.sub_zero] at heq
        omega
      have hpow : 2 ^ (d - k) = 2 * 2 ^ (d - (k + 1)) := by
        rw [← Nat.pow_succ']
        congr 1
        omega
      have hl := h.node k (by omega) (2 * j) (by omega) (by omega)
      have hr := h.node k (by omega) (2 * j + 1) (by omega) (by omega)
      have hleftIdx : 2 ^ (d - k) + 2 * j = 2 * m := by omega
      have hrightIdx : 2 ^ (d - k) + (2 * j + 1) = 2 * m + 1 := by omega
      rw [hleftIdx, List.getElem?_eq_getElem hleft] at hl
      rw [hrightIdx, List.getElem?_eq_getElem hright] at hr
      rw [← heq, List.getElem?_set_self (by omega), Option.some.inj hl, Option.some.inj hr]
      rfl
    · rw [List.getElem?_set_ne (by omega)]
      exact h.node l hl j hj hlt

theorem Built.hashNodes {f : Nat → W} {d m : Nat} {nodes : List W} (h : Built S f d (m + 1) nodes)
    (hm : m < 2 ^ d) :
    ∃ nodes', (List.range' 1 m).reverse.foldlM S.hashNode nodes = .ok nodes' ∧ Built S f d 1 nodes' := by
  induction m generalizing nodes with
  | zero => exact ⟨nodes, rfl, h⟩
  | succ m ih =>
    obtain ⟨next, hnext, hbuilt⟩ := h.hashNode hm
    obtain ⟨nodes', hnodes', hbuilt'⟩ := ih hbuilt (by omega)
    refine ⟨nodes', ?_, hbuilt'⟩
    rw [List.range'_1_concat, List.reverse_append, List.reverse_singleton, List.singleton_append,
      List.foldlM_cons, Nat.add_comm 1 m, hnext]
    exact hnodes'

/-- The leaves of a tree fill its first positions. -/
theorem fromLeaves_built {d : Nat} {leaves : List W} (hlen : leaves.length ≤ 2 ^ d) :
    ∃ nodes, S.fromLeaves leaves d = .ok ⟨nodes, d⟩ ∧ Built S (fun i => leaves.getD i S.zero) d 1 nodes := by
  obtain ⟨filled, hfilled, hbuilt⟩ := @built_of_fill W S d leaves hlen
  have hpos : 0 < 2 ^ d := Nat.two_pow_pos d
  have hsub : 2 ^ d - 1 + 1 = 2 ^ d := by omega
  rw [← hsub] at hbuilt
  obtain ⟨nodes, hnodes, hdone⟩ := hbuilt.hashNodes (by omega)
  refine ⟨nodes, ?_, hdone⟩
  simp only [Sha256.fromLeaves, bind_eq_ok, pure_eq_ok]
  exact ⟨filled, hfilled, nodes, hnodes, rfl⟩

section
variable {f : Nat → W} {d : Nat} {nodes : List W} (h : Built S f d 1 nodes)
include h

theorem Built.root_eq : MerkleTree.root ⟨nodes, d⟩ = .ok (nodeAt S.hashPair f d 0) := by
  have hroot := h.node d (Nat.le_refl d) 0 (Nat.two_pow_pos _) (Nat.two_pow_pos _)
  rw [Nat.sub_self, Nat.pow_zero] at hroot
  exact nth_eq_ok.mpr hroot

theorem Built.proveFrom_eq (n : Nat)
    {l j : Nat} (hl : l + n = d) (hj : j < 2 ^ n) : MerkleTree.proveFrom ⟨nodes, d⟩ n (2 ^ n + j) =
      .ok ⟨(pathAt S.hashPair f l n j).map (·.2), (pathAt S.hashPair f l n j).map (·.1)⟩ := by
  induction n generalizing l j with
  | zero => rfl
  | succ n ih =>
    have hpow : 2 ^ (n + 1) = 2 * 2 ^ n := Nat.pow_succ'
    have hlevel : d - l = n + 1 := by omega
    have hhalf : (2 ^ (n + 1) + j) / 2 = 2 ^ n + j / 2 := by omega
    have hodd : (2 ^ (n + 1) + j) &&& 1 = j % 2 := by
      rw [Nat.and_one_is_mod]
      omega
    have hsibling : (if j % 2 == 1 then 2 ^ (n + 1) + j - 1 else 2 ^ (n + 1) + j + 1) =
        2 ^ (n + 1) + Merkle.sibling j := by
      rw [Merkle.sibling]
      rcases Nat.mod_two_eq_zero_or_one j with hmod | hmod
      · rw [hmod]
        rfl
      · rw [hmod, if_pos (by rfl), if_neg Nat.one_ne_zero]
        omega
    have hlt : Merkle.sibling j < 2 ^ (n + 1) := by
      rw [Merkle.sibling]
      split
      · omega
      · omega
    have hnode := h.node l (by omega) (Merkle.sibling j) (by rwa [hlevel]) (by rw [hlevel]; omega)
    rw [hlevel] at hnode
    have habove := @ih (l + 1) (j / 2) (by omega) (by omega)
    have hbit : (j % 2 == 1) = decide (j % 2 = 1) := rfl
    simp only [MerkleTree.proveFrom, hodd, hsibling, hhalf, bind_eq_ok, nth_eq_ok, pure_eq_ok]
    exact ⟨_, hnode, _, habove, by rw [pathAt, List.map_cons, List.map_cons, hbit]⟩

/-- The proof of a position is its path in the tree. -/
theorem Built.prove_eq {i : Nat}
    (hi : i < 2 ^ d) : MerkleTree.prove ⟨nodes, d⟩ i = .ok ⟨(pathAt S.hashPair f 0 d i).map (·.2),
      (pathAt S.hashPair f 0 d i).map (·.1)⟩ :=
  h.proveFrom_eq d (Nat.zero_add d) hi

end

/-! ## Two leaves at a time -/

section
variable (S)

/-- The leaves of a tree with one of them replaced, which may be an empty one past the list. -/
def replaceLeaf (leaves : List W) (depth i : Nat) (newLeaf : W) : List W :=
  (leaves ++ List.replicate (2 ^ depth - leaves.length) S.zero).set i newLeaf

def rebuiltRoot (leaves : List W) (depth : Nat) : Except String W := do
  let tree ← S.fromLeaves leaves depth
  tree.root

def updatedRoot (newRoot : W → List Bool → W → List Bool → List W → List W → Except String W)
    (leaves : List W) (depth i j : Nat) (x y : W) : Except String W := do
  let tree ← S.fromLeaves leaves depth
  let first ← tree.prove i
  let second ← tree.prove j
  newRoot x first.indices y second.indices first.path second.path

/-- The roots after one leaf and after the other, whose proof is from the tree in between. -/
def successiveRoots (leaves : List W) (depth i j : Nat) (x y : W) : Except String (W × W) := do
  let tree ← S.fromLeaves leaves depth
  let first ← tree.prove i
  let between ← S.fromLeaves (replaceLeaf S leaves depth i x) depth
  let second ← between.prove j
  pure (S.computeSingleLeafRoot x first.path first.indices,
    S.computeSingleLeafRoot y second.path second.indices)

end

theorem length_replaceLeaf {leaves : List W} {d : Nat} (hlen : leaves.length ≤ 2 ^ d) (i : Nat) (x : W) :
    (replaceLeaf S leaves d i x).length = 2 ^ d := by
  rw [replaceLeaf, List.length_set, List.length_append, List.length_replicate]
  omega

theorem getD_replaceLeaf {leaves : List W} {d i : Nat} (hlen : leaves.length ≤ 2 ^ d) (hi : i < 2 ^ d)
    (x : W) : (fun k => (replaceLeaf S leaves d i x).getD k S.zero) =
      Function.update (fun k => leaves.getD k S.zero) i x := by
  have hpad : ∀ k, (leaves ++ List.replicate (2 ^ d - leaves.length) S.zero).getD k S.zero =
      leaves.getD k S.zero := by
    intro k
    rcases Nat.lt_or_ge k leaves.length with hlt | hge
    · rw [List.getD_append _ _ _ _ hlt]
    · rw [List.getD_append_right _ _ _ _ hge, List.getD_eq_default _ _ hge,
        List.getD_eq_getElem?_getD, List.getElem?_getD_replicate_default_eq]
  funext k
  rcases eq_or_ne k i with rfl | hne
  · have hlength : k < (leaves ++ List.replicate (2 ^ d - leaves.length) S.zero).length := by
      rw [List.length_append, List.length_replicate]
      omega
    rw [Function.update_self, replaceLeaf, List.getD_eq_getElem?_getD, List.getElem?_set_self hlength]
    rfl
  · rw [Function.update_of_ne hne, ← hpad k, replaceLeaf, List.getD_eq_getElem?_getD,
      List.getElem?_set_ne hne.symm, List.getD_eq_getElem?_getD]

theorem rebuiltRoot_eq {leaves : List W} {d : Nat} (hlen : leaves.length ≤ 2 ^ d) :
    rebuiltRoot S leaves d = .ok (nodeAt S.hashPair (fun i => leaves.getD i S.zero) d 0) := by
  obtain ⟨nodes, hnodes, hbuilt⟩ := fromLeaves_built hlen
  simp only [rebuiltRoot, bind_eq_ok]
  exact ⟨_, hnodes, hbuilt.root_eq⟩

/-- A loop that stays within both vectors ends. -/
theorem climb_of_le {indices : List Bool} {path : List W} {s n : Nat} (hi : s + n ≤ indices.length)
    (hp : s + n ≤ path.length) (x : W) : S.climb indices path (List.range' s n) x =
      .ok (Merkle.foldPath S.hashPair x (((indices.zip path).drop s).take n)) := by
  have hends : ∃ y, S.climb indices path (List.range' s n) x = .ok y := by
    induction n generalizing s x with
    | zero => exact ⟨x, rfl⟩
    | succ n ih =>
      obtain ⟨y, hy⟩ := ih (s := s + 1) (by omega) (by omega)
        (if indices[s] then S.hashPair path[s] x else S.hashPair x path[s])
      refine ⟨y, ?_⟩
      rw [List.range'_succ, Sha256.climb, List.foldlM_cons]
      simp only [bind_eq_ok, nth_eq_ok, pure_eq_ok]
      exact ⟨_, ⟨_, List.getElem?_eq_getElem (by omega), _, List.getElem?_eq_getElem (by omega), rfl⟩, hy⟩
  obtain ⟨y, hy⟩ := hends
  rw [hy, (climb_range hy).1]

/-- Vectors that differ have a highest level on which they do. -/
theorem exists_divergence {si ri : List Bool} {n : Nat} (hs : n ≤ si.length) (hr : n ≤ ri.length)
    (hne : ∃ k < n, si[k]? ≠ ri[k]?) : ∃ k, Sha256.divergence si ri n = .ok k := by
  induction n with
  | zero =>
    obtain ⟨k, hk, -⟩ := hne
    exact absurd hk (Nat.not_lt_zero k)
  | succ n ih =>
    have hsn := List.getElem?_eq_getElem hs
    have hrn := List.getElem?_eq_getElem hr
    by_cases hbit : si[n] = ri[n]
    · obtain ⟨k, hk, hdiff⟩ := hne
      have hlt : k < n := by
        refine lt_of_le_of_ne (Nat.le_of_lt_succ hk) fun heq => hdiff ?_
        rw [heq, hsn, hrn, hbit]
      obtain ⟨k', hk'⟩ := ih (by omega) (by omega) ⟨k, hlt, hdiff⟩
      refine ⟨k', ?_⟩
      simp only [Sha256.divergence, bind_eq_ok, nth_eq_ok]
      refine ⟨_, hsn, _, hrn, ?_⟩
      rw [hbit, bne_self_eq_false]
      exact hk'
    · refine ⟨n, ?_⟩
      simp only [Sha256.divergence, bind_eq_ok, nth_eq_ok]
      refine ⟨_, hsn, _, hrn, ?_⟩
      rw [if_pos (bne_iff_ne.mpr hbit)]
      rfl

/-- From the paths of two positions, the root with both leaves replaced. -/
theorem computeNewRoot_pathAt {f : Nat → W} {d i j : Nat} (hi : i < 2 ^ d) (hj : j < 2 ^ d) (hne : i ≠ j)
    (x y : W) : S.computeNewRoot x ((pathAt S.hashPair f 0 d i).map (·.1)) y
        ((pathAt S.hashPair f 0 d j).map (·.1)) ((pathAt S.hashPair f 0 d i).map (·.2))
        ((pathAt S.hashPair f 0 d j).map (·.2)) =
      .ok (nodeAt S.hashPair (Function.update (Function.update f i x) j y) d 0) := by
  have hlen : ∀ k, ((pathAt S.hashPair f 0 d k).map (·.1)).length = d := by
    intro k
    rw [List.length_map, length_pathAt]
  have hlen' : ∀ k, ((pathAt S.hashPair f 0 d k).map (·.2)).length = d := by
    intro k
    rw [List.length_map, length_pathAt]
  have hzip : ∀ k, ((pathAt S.hashPair f 0 d k).map (·.1)).zip
      ((pathAt S.hashPair f 0 d k).map (·.2)) = pathAt S.hashPair f 0 d k :=
    fun k => (List.zip_of_prod rfl rfl).symm
  have hbits : ∀ k < 2 ^ d, Merkle.ofBits ((pathAt S.hashPair f 0 d k).map (·.1)) = k := by
    intro k hk
    rw [Merkle.ofBits_pathAt, Nat.mod_eq_of_lt hk]
  have hdiffer : ∃ k < d, ((pathAt S.hashPair f 0 d i).map (·.1))[k]? ≠
      ((pathAt S.hashPair f 0 d j).map (·.1))[k]? := by
    by_contra hall
    push Not at hall
    refine hne ?_
    rw [← hbits i hi, ← hbits j hj]
    congr 1
    apply List.ext_getElem?
    intro k
    rcases Nat.lt_or_ge k d with hlt | hge
    · exact hall k hlt
    · rw [List.getElem?_eq_none (by rwa [hlen]), List.getElem?_eq_none (by rwa [hlen])]
  obtain ⟨k, hk⟩ := exists_divergence (hlen i).ge (hlen j).ge hdiffer
  obtain ⟨hkd, -, ⟨b, hib, hjb⟩, habove⟩ := divergence_spec hk
  obtain ⟨hlow, hhigh⟩ := ofBits_meet hib hjb fun m hm => by
    rcases Nat.lt_or_ge m d with hlt | hge
    · exact habove m hm hlt
    · rw [List.getElem?_eq_none (by rwa [hlen]), List.getElem?_eq_none (by rwa [hlen])]
  have hbit := Merkle.ofBits_bit hib
  rw [hbits i hi, hbits j hj] at hlow hhigh
  rw [hbits i hi] at hbit
  have hdecide : b = decide (i / 2 ^ k % 2 = 1) := by
    rw [hbit]
    cases b <;> rfl
  have hroot := @Merkle.foldPath_two_leaves _ S.hashPair f d k i j hkd hlow hhigh x y
  rw [Nat.div_eq_of_lt hi] at hroot
  simp only [Sha256.computeNewRoot, bind_eq_ok, nth_eq_ok]
  refine ⟨k, by rw [hlen]; exact hk, _, climb_of_le (by rw [hlen]; omega) (by rw [hlen']; omega) x, _,
    climb_of_le (by rw [hlen]; omega) (by rw [hlen']; omega) y, b, hib, ?_⟩
  rw [climb_of_le (by rw [hlen]; omega) (by rw [hlen, hlen']; omega), hzip, hzip, hlen, List.drop_zero,
    List.drop_zero, take_pathAt hkd.le, take_pathAt hkd.le, drop_pathAt hkd,
    List.take_of_length_le (by rw [length_pathAt]), ← hroot, ← hdecide]
  rfl

theorem updatedRoot_eq {leaves : List W} {d i j : Nat} (hlen : leaves.length ≤ 2 ^ d) (hi : i < 2 ^ d)
    (hj : j < 2 ^ d) (hne : i ≠ j) (x y : W) :
    updatedRoot S S.computeNewRoot leaves d i j x y = .ok (nodeAt S.hashPair
      (Function.update (Function.update (fun k => leaves.getD k S.zero) i x) j y) d 0) := by
  obtain ⟨nodes, hnodes, hbuilt⟩ := fromLeaves_built hlen
  simp only [updatedRoot, bind_eq_ok]
  exact ⟨_, hnodes, _, hbuilt.prove_eq hi, _, hbuilt.prove_eq hj, computeNewRoot_pathAt hi hj hne x y⟩

/-- The proof of a position takes another leaf to the root of the changed tree. -/
theorem computeSingleLeafRoot_pathAt {f : Nat → W} {d i : Nat} (hi : i < 2 ^ d) (x : W) :
    S.computeSingleLeafRoot x ((pathAt S.hashPair f 0 d i).map (·.2)) ((pathAt S.hashPair f 0 d i).map (·.1)) =
      nodeAt S.hashPair (Function.update f i x) d 0 := by
  rw [Sha256.computeSingleLeafRoot, computeRoot_eq_foldPath, ← List.zip_of_prod rfl rfl,
    Merkle.foldPath_pathAt_update, Nat.div_eq_of_lt hi]

theorem successiveRoots_eq {leaves : List W} {d i j : Nat} (hlen : leaves.length ≤ 2 ^ d) (hi : i < 2 ^ d)
    (hj : j < 2 ^ d) (x y : W) : successiveRoots S leaves d i j x y =
      .ok (nodeAt S.hashPair (Function.update (fun k => leaves.getD k S.zero) i x) d 0, nodeAt S.hashPair
          (Function.update (Function.update (fun k => leaves.getD k S.zero) i x) j y) d 0) := by
  obtain ⟨nodes, hnodes, hbuilt⟩ := fromLeaves_built hlen
  obtain ⟨between, hbetween, hbuilt'⟩ := fromLeaves_built (length_replaceLeaf hlen i x).le
  rw [getD_replaceLeaf hlen hi] at hbuilt'
  simp only [successiveRoots, bind_eq_ok, pure_eq_ok]
  refine ⟨_, hnodes, _, hbuilt.prove_eq hi, _, hbetween, _, hbuilt'.prove_eq hj, ?_⟩
  rw [computeSingleLeafRoot_pathAt hi, computeSingleLeafRoot_pathAt hj]

/-- Updating two leaves at a time gives the root of the tree that is built with both of them, which one
leaf after the other gives too, in either order. -/
theorem two_leaf_update_eq_rebuild {leaves : List W} {depth i j : Nat} (hlen : leaves.length ≤ 2 ^ depth)
    (hi : i < 2 ^ depth) (hj : j < 2 ^ depth) (hne : i ≠ j) (x y : W) :
    ∃ root, rebuiltRoot S (replaceLeaf S (replaceLeaf S leaves depth i x) depth j y) depth = .ok root ∧
      updatedRoot S S.computeNewRoot leaves depth i j x y = .ok root ∧
      updatedRoot S S.hostComputeNewRoot leaves depth i j x y = .ok root ∧
      (∃ between, rebuiltRoot S (replaceLeaf S leaves depth i x) depth = .ok between ∧
        successiveRoots S leaves depth i j x y = .ok (between, root)) ∧
      ∃ between, rebuiltRoot S (replaceLeaf S leaves depth j y) depth = .ok between ∧
        successiveRoots S leaves depth j i y x = .ok (between, root) := by
  have hfirst := length_replaceLeaf (S := S) hlen i x
  have hupdated := updatedRoot_eq (S := S) hlen hi hj hne x y
  refine ⟨_, ?_, hupdated, hupdated, ⟨_, ?_, successiveRoots_eq hlen hi hj x y⟩, ?_⟩
  · rw [rebuiltRoot_eq (length_replaceLeaf hfirst.le j y).le, getD_replaceLeaf hfirst.le hj,
      getD_replaceLeaf hlen hi]
  · rw [rebuiltRoot_eq hfirst.le, getD_replaceLeaf hlen hi]
  · refine ⟨_, rebuiltRoot_eq (length_replaceLeaf hlen j y).le, ?_⟩
    rw [successiveRoots_eq hlen hj hi, getD_replaceLeaf hlen hj, Function.update_comm hne]

/-- Two leaves of a tree of depth three, of which one is past the list. -/
theorem two_leaf_update_sample : ∃ root, rebuiltRoot termSha256 (replaceLeaf termSha256
      (replaceLeaf termSha256 [.atom 0, .atom 5, .atom 6] 3 1 (.atom 1)) 3 6 (.atom 2)) 3 = .ok root ∧
    updatedRoot termSha256 termSha256.computeNewRoot [.atom 0, .atom 5, .atom 6] 3 1 6 (.atom 1) (.atom 2) =
      .ok root := by
  obtain ⟨root, hrebuilt, hupdated, -⟩ := @two_leaf_update_eq_rebuild _ termSha256 [.atom 0, .atom 5, .atom 6]
    3 1 6 (by decide) (by decide) (by decide) (by decide) (.atom 1) (.atom 2)
  exact ⟨root, hrebuilt, hupdated⟩

theorem getD_commitments (store : AccountStore W) (d i : Nat) :
    (store.commitments S).getD i S.zero = (store.tree d).leaf S i := by
  rw [AccountStore.commitments, List.getD_eq_getElem?_getD, List.getElem?_map]
  show _ = store.accounts[i]?.elim S.zero (Account.commitment S)
  cases store.accounts[i]? with
  | none => rfl
  | some a => rfl

theorem buildTree_built {store : AccountStore W} {d : Nat} (hlen : store.accounts.length ≤ 2 ^ d) :
    ∃ nodes, store.buildTree S d = .ok ⟨nodes, d⟩ ∧ Built S ((store.tree d).leaf S) d 1 nodes := by
  have hlength : (store.commitments S).length ≤ 2 ^ d := by rwa [AccountStore.commitments, List.length_map]
  obtain ⟨nodes, hnodes, hbuilt⟩ := fromLeaves_built hlength
  have hleaves : (fun i => (store.commitments S).getD i S.zero) = (store.tree d).leaf S :=
    funext (getD_commitments store d)
  rw [hleaves] at hbuilt
  exact ⟨nodes, hnodes, hbuilt⟩

/-- The contract accepts the proof of every account of the operator's tree, and, where SHA-256 has no
collisions, a claim that it accepts is of the account at the index, with the proof of the tree. -/
theorem escape_claims_iff_accounts [DecidableEq W] {store : AccountStore W} {depth : Nat}
    (hlen : store.accounts.length ≤ 2 ^ depth) :
    ∃ tree root, store.buildTree S depth = .ok tree ∧ tree.root = .ok root ∧
      (∀ i a, store.accounts[i]? = some a → ∃ proof, tree.prove i = .ok proof ∧
        S.verifyMerkleProof (S.bridgeCommitment a.pubkey a.balance a.salt) i proof.path root = true) ∧
      (S.Ideal → ∀ leafIndex pubkey balance salt merkleProof,
        S.verifyMerkleProof (S.bridgeCommitment pubkey balance salt) leafIndex merkleProof root = true →
          merkleProof.length = depth ∧ leafIndex < 2 ^ depth ∧
            store.accounts[leafIndex]? = some ⟨pubkey, balance, salt⟩ ∧
            (∃ proof, tree.prove leafIndex = .ok proof ∧ proof.path = merkleProof) ∧
            (store.accounts.Nodup → ∀ i,
              store.accounts[i]? = some ⟨pubkey, balance, salt⟩ → i = leafIndex)) := by
  obtain ⟨nodes, hnodes, hbuilt⟩ := buildTree_built (S := S) hlen
  refine ⟨_, _, hnodes, hbuilt.root_eq, fun i a ha => ?_, ?_⟩
  · have hi : i < 2 ^ depth := (List.getElem?_eq_some_iff.mp ha).1.trans_le hlen
    refine ⟨_, hbuilt.prove_eq hi, ?_⟩
    rw [bridgeCommitment_eq]
    exact @verifyMerkleProof_of_leaf _ S _ (store.tree depth) a i hi ha
  · intro H leafIndex pubkey balance salt merkleProof haccepted
    rw [bridgeCommitment_eq] at haccepted
    obtain ⟨hlt, haccount, rfl⟩ :=
      @Sha256.Ideal.of_verifyMerkleProof _ S _ H (store.tree depth) ⟨pubkey, balance, salt⟩ _ _ haccepted
    refine ⟨?_, hlt, haccount, ⟨_, hbuilt.prove_eq hlt, rfl⟩, fun hnodup i hi => ?_⟩
    · rw [List.length_map, length_pathAt]
      rfl
    · have hlt := (List.getElem?_eq_some_iff.mp hi).1
      exact (List.getElem?_inj hlt hnodup).mp (hi.trans haccount.symm)

/-- A store with an account, and its claim. -/
theorem escape_claims_sample : ∃ tree root,
    (⟨[⟨.atom 0, 5, .atom 1⟩]⟩ : AccountStore Term).buildTree termSha256 1 = .ok tree ∧
      tree.root = .ok root ∧ ∃ proof, tree.prove 0 = .ok proof ∧
        termSha256.verifyMerkleProof (termSha256.bridgeCommitment (.atom 0) 5 (.atom 1)) 0 proof.path root =
          true := by
  obtain ⟨tree, root, hbuilt, hroot, haccounts, -⟩ := @escape_claims_iff_accounts _ termSha256 _
    ⟨[⟨.atom 0, 5, .atom 1⟩]⟩ 1 (by decide)
  exact ⟨tree, root, hbuilt, hroot, haccounts 0 ⟨.atom 0, 5, .atom 1⟩ rfl⟩

end

end Pocs.Validium
