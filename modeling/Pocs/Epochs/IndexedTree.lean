import Mathlib.Data.UInt
import Pocs.Lib.IndexedList
import Pocs.Compliance.Gadgets

/-! # Indexed Merkle trees off chain

`domain/indexed_merkle.rs` and `adapters/indexed_merkle_tree.rs`. The leaves of a tree are the cells of a sorted
linked list (`Holds`), its levels those of the perfect tree of depth 32 over the hashed leaves (`root_eq`), and
`merkle_path` reads the path of a slot of it. -/

namespace Pocs.Epochs.Offchain

open Compliance (BnField Word merkleHash)
open Merkle (combine emptyNode foldPath indexPath nodeAt padLevels pathAt)

def nullifierTreeDepth : Nat := 32

/-- A value with its successor in the list. -/
structure IndexedLeaf where
  value : Word
  nextValue : Word
  nextIndex : UInt64
  deriving DecidableEq

def IndexedLeaf.empty : IndexedLeaf := ⟨0, 0, 0⟩

def indexToField (index : UInt64) : Word := index.toNat

/-- The query lies in the gap of the leaf. -/
def covers (low : IndexedLeaf) (query : Word) : Bool :=
  let lo := low.value
  let hi := low.nextValue
  lo < query && (low.nextValue = 0 || query < hi)

section
variable {F : Type} [BnField F] (hash : List F → F)

/-! ## `crypto/poseidon.rs` -/

def poseidon2 (a b : Word) : Word := Scalar.toNat (hash [Scalar.ofNat a, Scalar.ofNat b])

def poseidon3 (a b c : Word) : Word :=
  Scalar.toNat (hash [Scalar.ofNat a, Scalar.ofNat b, Scalar.ofNat c])

end

/-! ## `domain/indexed_merkle.rs` -/

def IndexedLeaf.hash {F : Type} [BnField F] (hash : List F → F) (leaf : IndexedLeaf) : Word :=
  poseidon3 hash leaf.value leaf.nextValue (indexToField leaf.nextIndex)

section
variable {F : Type} [BnField F] (hash : List F → F)

def emptyLeafHash : Word := IndexedLeaf.empty.hash hash

def rootFromPath (node : Word) (idx : UInt64) : (siblings : List Word) → Word
  | [] => node
  | sibling :: siblings =>
    rootFromPath (if idx &&& 1 = 0 then poseidon2 hash node sibling else poseidon2 hash sibling node)
      (idx >>> 1) siblings

def verifyInclusion (root leafHash : Word) (index : UInt64) (siblings : List Word) : Bool :=
  rootFromPath hash leafHash index siblings = root

/-- A low leaf with its path. -/
structure NonMembershipWitness where
  lowLeaf : IndexedLeaf
  lowLeafIndex : UInt64
  siblings : List Word

/-- The low leaf is in the tree and its gap covers the query. -/
def NonMembershipWitness.verify (w : NonMembershipWitness) (root query : Word) : Bool :=
  verifyInclusion hash root (w.lowLeaf.hash hash) w.lowLeafIndex w.siblings && covers w.lowLeaf query

/-- The two paths of one insertion. -/
structure InsertionWitness where
  lowLeaf : IndexedLeaf
  lowLeafIndex : UInt64
  lowLeafSiblings : List Word
  newLeafIndex : UInt64
  newLeafSiblings : List Word

def InsertionWitness.verifyAndApply (w : InsertionWitness) (preRoot value : Word) : Option Word := do
  guard (verifyInclusion hash preRoot (w.lowLeaf.hash hash) w.lowLeafIndex w.lowLeafSiblings)
  guard (covers w.lowLeaf value)
  let updatedLow : IndexedLeaf := ⟨w.lowLeaf.value, value, w.newLeafIndex⟩
  let rPrime := rootFromPath hash (updatedLow.hash hash) w.lowLeafIndex w.lowLeafSiblings
  guard (verifyInclusion hash rPrime (emptyLeafHash hash) w.newLeafIndex w.newLeafSiblings)
  let newLeaf : IndexedLeaf := ⟨value, w.lowLeaf.nextValue, w.lowLeaf.nextIndex⟩
  some (rootFromPath hash (newLeaf.hash hash) w.newLeafIndex w.newLeafSiblings)

/-! ## `adapters/indexed_merkle_tree.rs` -/

inductive IndexedTreeError where
  | reservedZeroValue
  | duplicateValue
  deriving DecidableEq, Repr

/-- The tree of `indexed_merkle_tree.rs`, by its leaves. -/
structure IndexedMerkleTree where
  leaves : List IndexedLeaf
  zeroHashes : List Word

/-- A hash and the `n` roots of empty subtrees over it. -/
def zeroHashesFrom (prev : Word) : (n : Nat) → List Word
  | 0 => [prev]
  | n + 1 => prev :: zeroHashesFrom (poseidon2 hash prev prev) n

/-- The levels from `current` up, one for each zero hash and the last one. -/
def levelsFrom (current : List Word) : (zeroHashes : List Word) → List (List Word)
  | [] => [current]
  | z :: zeroHashes => current :: levelsFrom (Merkle.padLevel (poseidon2 hash) z current) zeroHashes

/-- The loop of `merkle_path` over the levels and their zero hashes. -/
def siblingsFrom (idx : Nat) : (levels : List (List Word × Word)) → List Word
  | [] => []
  | (nodes, z) :: levels => nodes.getD (idx ^^^ 1) z :: siblingsFrom (idx >>> 1) levels

namespace IndexedMerkleTree

def new : IndexedMerkleTree where
  leaves := [.empty]
  zeroHashes := zeroHashesFrom hash (emptyLeafHash hash) nullifierTreeDepth

variable (t : IndexedMerkleTree)

def leafCount : UInt64 := .ofNat t.leaves.length

def levels : List (List Word) :=
  levelsFrom hash (t.leaves.map (·.hash hash)) (t.zeroHashes.take nullifierTreeDepth)

def root : Word := ((t.levels hash).getLastD []).headD 0

def contains (value : Word) : Bool := t.leaves.any (·.value = value)

/-- As a position: it becomes a `u64` where it is stored. -/
def lowLeafIndex (value : Word) : Option Nat := t.leaves.findIdx? (covers · value)

def merklePath (index : Nat) : List Word :=
  siblingsFrom index (((t.levels hash).take nullifierTreeDepth).zip t.zeroHashes)

def nonMembershipWitness (value : Word) : Option NonMembershipWitness := do
  let lowLeafIndex ← t.lowLeafIndex value
  let lowLeaf ← t.leaves[lowLeafIndex]?
  some ⟨lowLeaf, .ofNat lowLeafIndex, t.merklePath hash lowLeafIndex⟩

def insertAfter (value : Word) (lowLeafIndex : Nat) : InsertionWitness × IndexedMerkleTree :=
  let lowLeaf := t.leaves.getD lowLeafIndex .empty
  let newLeafIndex := t.leaves.length
  let lowLeafSiblings := t.merklePath hash lowLeafIndex
  let relinked := { t with leaves := t.leaves.set lowLeafIndex ⟨lowLeaf.value, value, .ofNat newLeafIndex⟩ }
  let newLeafSiblings := relinked.merklePath hash newLeafIndex
  (⟨lowLeaf, .ofNat lowLeafIndex, lowLeafSiblings, .ofNat newLeafIndex, newLeafSiblings⟩,
    { relinked with leaves := relinked.leaves ++ [⟨value, lowLeaf.nextValue, lowLeaf.nextIndex⟩] })

/-- What the call returns, and the tree that it leaves. -/
def insert (value : Word) : Except IndexedTreeError InsertionWitness × IndexedMerkleTree :=
  if value = 0 then (.error .reservedZeroValue, t)
  else
    match t.lowLeafIndex value with
    | none => (.error .duplicateValue, t)
    | some lowLeafIndex =>
      let (witness, t') := t.insertAfter hash value lowLeafIndex
      (.ok witness, t')

end IndexedMerkleTree

/-! ## Levels and paths -/

def slotHash (t : IndexedMerkleTree) (j : Nat) : Word := (t.leaves.map (·.hash hash)).getD j (emptyLeafHash hash)

variable {hash}

theorem rootFromPath_eq (node : Word) (idx : UInt64) (siblings : List Word) :
    rootFromPath hash node idx siblings = foldPath (poseidon2 hash) node (indexPath idx.toNat siblings) := by
  induction siblings generalizing node idx with
  | nil => rfl
  | cons sibling siblings ih =>
    have hshift : (idx >>> 1).toNat = idx.toNat / 2 := by
      rw [UInt64.toNat_shiftRight]
      exact Nat.shiftRight_one _
    have hbit : idx &&& 1 = 0 ↔ idx.toNat % 2 = 0 := by
      rw [← UInt64.toNat_inj, UInt64.toNat_and]
      exact Nat.and_one_is_mod idx.toNat ▸ Iff.rfl
    have hstep : (if idx &&& 1 = 0 then poseidon2 hash node sibling else poseidon2 hash sibling node) =
        combine (poseidon2 hash) (decide (idx.toNat % 2 = 1)) sibling node := by
      unfold combine
      rcases Nat.mod_two_eq_zero_or_one idx.toNat with h | h
      · rw [if_pos (hbit.mpr h), h]
        rfl
      · rw [if_neg (fun h0 => by rw [hbit.mp h0] at h; exact absurd h Nat.zero_ne_one), h]
        rfl
    rw [rootFromPath, ih, hshift, hstep, indexPath, foldPath]

theorem zeroHashesFrom_eq (e : Word) (m n : Nat) : zeroHashesFrom hash (emptyNode (poseidon2 hash) e m) n =
      (List.range' m (n + 1)).map (emptyNode (poseidon2 hash) e) := by
  induction n generalizing m with
  | zero => rfl
  | succ n ih =>
    rw [zeroHashesFrom, List.range'_succ, List.map_cons]
    exact congrArg _ (ih (m + 1))

theorem zeroHashes_eq (n : Nat) : zeroHashesFrom hash (emptyLeafHash hash) n =
    (List.range' 0 (n + 1)).map (emptyNode (poseidon2 hash) (emptyLeafHash hash)) :=
  zeroHashesFrom_eq (emptyLeafHash hash) 0 n

theorem levelsFrom_eq (e : Word) (ls : List Word) (m n : Nat) :
    levelsFrom hash (padLevels (poseidon2 hash) e ls m) ((List.range' m n).map (emptyNode (poseidon2 hash) e)) =
      (List.range' m (n + 1)).map (padLevels (poseidon2 hash) e ls) := by
  induction n generalizing m with
  | zero => rfl
  | succ n ih =>
    rw [List.range'_succ, List.map_cons, levelsFrom, List.range'_succ, List.map_cons]
    exact congrArg _ (ih (m + 1))

theorem siblingsFrom_eq (e : Word) (ls : List Word) (m n idx : Nat) :
    siblingsFrom idx (((List.range' m n).map (padLevels (poseidon2 hash) e ls)).zip
        ((List.range' m (n + 1)).map (emptyNode (poseidon2 hash) e))) =
      (pathAt (poseidon2 hash) (fun j => ls.getD j e) m n idx).map (·.2) := by
  induction n generalizing m idx with
  | zero => rfl
  | succ n ih =>
    rw [List.range'_succ, List.map_cons, List.range'_succ, List.map_cons, List.zip_cons_cons, siblingsFrom,
      ih, Merkle.getD_padLevels, Merkle.xor_one, Nat.shiftRight_one, pathAt, List.map_cons]

section
variable {t : IndexedMerkleTree}
  (hzero : t.zeroHashes = zeroHashesFrom hash (emptyLeafHash hash) nullifierTreeDepth)
include hzero

theorem levels_eq : t.levels hash = (List.range' 0 (nullifierTreeDepth + 1)).map
      (padLevels (poseidon2 hash) (emptyLeafHash hash) (t.leaves.map (·.hash hash))) := by
  rw [IndexedMerkleTree.levels, hzero, zeroHashes_eq, ← levelsFrom_eq, padLevels, List.range'_concat,
    List.map_append, List.take_left']
  rw [List.length_map, List.length_range']

/-- The root is that of the tree of full depth over the leaves and empty leaves. -/
theorem root_eq (hne : t.leaves ≠ []) :
    t.root hash = nodeAt (poseidon2 hash) (slotHash hash t) nullifierTreeDepth 0 := by
  have hlevel : ∀ k, padLevels (poseidon2 hash) (emptyLeafHash hash) (t.leaves.map (·.hash hash)) k ≠ [] := by
    intro k
    induction k with
    | zero => exact fun h => hne (List.map_eq_nil_iff.mp h)
    | succ k ih => exact Merkle.padLevel_ne_nil ih
  rw [IndexedMerkleTree.root, levels_eq hzero, List.range'_concat, List.map_append, List.map_singleton,
    List.getLastD_concat, Nat.zero_add, Nat.one_mul]
  have hroot := @Merkle.getD_padLevels _ (poseidon2 hash) (emptyLeafHash hash)
    (t.leaves.map (·.hash hash)) nullifierTreeDepth 0
  obtain ⟨x, rest, hx⟩ := List.exists_cons_of_ne_nil (hlevel nullifierTreeDepth)
  rw [hx] at hroot ⊢
  exact hroot

theorem merklePath_eq (index : Nat) : t.merklePath hash index =
      (pathAt (poseidon2 hash) (slotHash hash t) 0 nullifierTreeDepth index).map (·.2) := by
  have htake : (t.levels hash).take nullifierTreeDepth = (List.range' 0 nullifierTreeDepth).map
      (padLevels (poseidon2 hash) (emptyLeafHash hash) (t.leaves.map (·.hash hash))) := by
    rw [levels_eq hzero, List.range'_concat, List.map_append, List.take_left']
    rw [List.length_map, List.length_range']
  rw [IndexedMerkleTree.merklePath, htake, hzero, zeroHashes_eq, siblingsFrom_eq]
  rfl

theorem length_merklePath (index : Nat) : (t.merklePath hash index).length = nullifierTreeDepth := by
  rw [merklePath_eq hzero, List.length_map, Merkle.length_pathAt]

end

/-! ## In the field -/

def leafScalar (hash : List F → F) (leaf : IndexedLeaf) : F :=
  hash [Scalar.ofNat leaf.value, Scalar.ofNat leaf.nextValue, Scalar.ofNat leaf.nextIndex.toNat]

def slot (hash : List F → F) (t : IndexedMerkleTree) (j : Nat) : F := Scalar.ofNat (slotHash hash t j)

/-- The root of a tree over the given slots. -/
def rootOf (hash : List F → F) (f : Nat → F) : Word :=
  Scalar.toNat (nodeAt (merkleHash hash) f nullifierTreeDepth 0)

theorem ofNat_hash (leaf : IndexedLeaf) : Scalar.ofNat (leaf.hash hash) = leafScalar hash leaf :=
  BnField.ofNat_toNat _

theorem ofNat_emptyLeafHash : Scalar.ofNat (emptyLeafHash hash) = leafScalar hash .empty :=
  BnField.ofNat_toNat _

theorem ofNat_poseidon2 (a b : Word) :
    Scalar.ofNat (poseidon2 hash a b) = merkleHash hash (Scalar.ofNat a) (Scalar.ofNat b) :=
  BnField.ofNat_toNat _

theorem toNat_ofNat_poseidon2 (a b : Word) :
    Scalar.toNat (Scalar.ofNat (poseidon2 hash a b) : F) = poseidon2 hash a b := by
  rw [ofNat_poseidon2]
  rfl

theorem slot_eq (t : IndexedMerkleTree) (j : Nat) :
    slot hash t j = (t.leaves.map (leafScalar hash)).getD j (leafScalar hash .empty) := by
  rw [slot, slotHash]
  rcases Nat.lt_or_ge j t.leaves.length with h | h
  · rw [List.getD_eq_getElem _ _ (by rwa [List.length_map]), List.getD_eq_getElem _ _ (by rwa [List.length_map]),
      List.getElem_map, List.getElem_map, ofNat_hash]
  · rw [List.getD_eq_default _ _ (by rwa [List.length_map]), List.getD_eq_default _ _ (by rwa [List.length_map]),
      ofNat_emptyLeafHash]

theorem root_eq_rootOf {t : IndexedMerkleTree}
    (hzero : t.zeroHashes = zeroHashesFrom hash (emptyLeafHash hash) nullifierTreeDepth)
    (hne : t.leaves ≠ []) : t.root hash = rootOf hash (slot hash t) := by
  have hmap := @Merkle.nodeAt_map _ (poseidon2 hash) (slotHash hash t) _ (merkleHash hash)
    (Scalar.ofNat (F := F)) ofNat_poseidon2 nullifierTreeDepth 0
  rw [root_eq hzero hne, rootOf]
  exact (toNat_ofNat_poseidon2 _ _).symm.trans (congrArg Scalar.toNat hmap)

/-- The path that a tree over the given slots holds. -/
def OwnPath (hash : List F → F) (f : Nat → F) (index : UInt64) (siblings : List Word) : Prop :=
  siblings.map Scalar.ofNat = (pathAt (merkleHash hash) f 0 nullifierTreeDepth
    (index.toNat % 2 ^ nullifierTreeDepth)).map (·.2)

section
variable {f : Nat → F} {index : UInt64} {siblings : List Word}

theorem rootFromPath_scalar (hlen : siblings.length = nullifierTreeDepth) (x : Word) (index : UInt64) :
    rootFromPath hash x index siblings = Scalar.toNat (foldPath (merkleHash hash) (Scalar.ofNat x)
      (indexPath index.toNat (siblings.map Scalar.ofNat))) := by
  have hne : indexPath index.toNat siblings ≠ [] :=
    List.ne_nil_of_length_pos (by rw [Merkle.length_indexPath, hlen]; decide)
  obtain ⟨l, r, hnode⟩ := @Merkle.exists_foldPath_eq _ (poseidon2 hash) x _ hne
  rw [rootFromPath_eq, ← Merkle.foldPath_map ofNat_poseidon2, hnode, toNat_ofNat_poseidon2]

/-- Another leaf along the tree's own path. -/
theorem OwnPath.rootFromPath (h : OwnPath hash f index siblings) (x : Word) :
    rootFromPath hash x index siblings =
      rootOf hash (Function.update f (index.toNat % 2 ^ nullifierTreeDepth) (Scalar.ofNat x)) := by
  have hlen := congrArg List.length h
  rw [List.length_map, List.length_map, Merkle.length_pathAt] at hlen
  rw [rootFromPath_scalar hlen, ← Merkle.indexPath_mod (n := nullifierTreeDepth) _ (by rw [List.length_map, hlen]),
    h, Merkle.indexPath_pathAt, Merkle.foldPath_pathAt_update,
    Nat.div_eq_of_lt (Nat.mod_lt _ (Nat.two_pow_pos _)), rootOf]

/-- With a collision-free hash, inclusion is shown for the leaf of the slot by the slot's own path. -/
theorem verifyInclusion_iff (H : Compliance.Ideal hash) (hlen : siblings.length = nullifierTreeDepth)
    {leafHash : Word} : verifyInclusion hash (rootOf hash f) leafHash index siblings = true ↔
      Scalar.ofNat leafHash = f (index.toNat % 2 ^ nullifierTreeDepth) ∧ OwnPath hash f index siblings := by
  rw [verifyInclusion, decide_eq_true_eq]
  constructor
  · intro h
    rw [rootFromPath_scalar hlen, rootOf] at h
    exact Merkle.indexPath_sound H.node_inj (by rw [List.length_map, hlen]) (Scalar.toNat_inj h)
  · intro h
    rw [h.2.rootFromPath, h.1, Function.update_eq_self]

end

/-- What an accepted insertion shows, and the tree that it leads to. -/
theorem verifyAndApply_eq_some (H : Compliance.Ideal hash) {w : InsertionWitness}
    (hlow : w.lowLeafSiblings.length = nullifierTreeDepth) (hnew : w.newLeafSiblings.length = nullifierTreeDepth)
    {f : Nat → F} {value root : Word} {s n : Nat} (hs : w.lowLeafIndex.toNat % 2 ^ nullifierTreeDepth = s)
    (hn : w.newLeafIndex.toNat % 2 ^ nullifierTreeDepth = n) :
    w.verifyAndApply hash (rootOf hash f) value = some root ↔
      leafScalar hash w.lowLeaf = f s ∧ OwnPath hash f w.lowLeafIndex w.lowLeafSiblings ∧
      covers w.lowLeaf value = true ∧ leafScalar hash .empty =
        Function.update f s (leafScalar hash ⟨w.lowLeaf.value, value, w.newLeafIndex⟩) n ∧
      OwnPath hash (Function.update f s (leafScalar hash ⟨w.lowLeaf.value, value, w.newLeafIndex⟩))
        w.newLeafIndex w.newLeafSiblings ∧ rootOf hash (Function.update
        (Function.update f s (leafScalar hash ⟨w.lowLeaf.value, value, w.newLeafIndex⟩)) n
        (leafScalar hash ⟨value, w.lowLeaf.nextValue, w.lowLeaf.nextIndex⟩)) = root := by
  simp only [InsertionWitness.verifyAndApply, Option.bind_eq_bind, Option.bind_eq_some_iff, guard_eq_some,
    exists_const, Option.some.injEq]
  rw [verifyInclusion_iff H hlow, ofNat_hash, hs, and_assoc]
  refine and_congr_right fun _ => and_congr_right fun hown => and_congr_right fun _ => ?_
  rw [hown.rootFromPath, hs, ofNat_hash, verifyInclusion_iff H hnew, ofNat_emptyLeafHash, hn, and_assoc]
  refine and_congr_right fun _ => and_congr_right fun hown' => ?_
  rw [hown'.rootFromPath, hn, ofNat_hash]

end

end Pocs.Epochs.Offchain
