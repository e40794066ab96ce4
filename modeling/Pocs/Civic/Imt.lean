import Pocs.Lib.Checked
import Pocs.Lib.IndexedList
import Pocs.Lib.Merkle
import Pocs.Civic.Poseidon

/-! # The indexed Merkle tree engine of `imt.rs`

The tree keeps its leaves in insertion order and a sparse map of node hashes per level. `Inv` is its
representation invariant: the leaves form a linked sorted list, and every stored or defaulted node is
the node of the perfect tree over the leaf hashes. `insert_eq_ok_iff` says when `insert` succeeds and
what it does; everything a caller needs of a run of inserts is `insertAll_ok`. -/

namespace Pocs.Civic

open IndexedList (Cell values)

def imtDepth : Nat := 24

inductive ImtError where
  | duplicateInsertion
  | capacityExhausted (depth : Nat)
  | lowLeafInvariant (msg : String)
  deriving DecidableEq, Repr

abbrev InternalLeaf (F : Type) := Cell F

section
variable {F : Type} [Scalar F]

def InternalLeaf.empty : InternalLeaf F := ⟨0, 0, 0⟩

/-- Matches Noir `hash_imt_leaf`: `(value, next_index, next_value, 0)`. -/
def InternalLeaf.hash (P : Poseidon F) (leaf : InternalLeaf F) : F :=
  hashImtLeaf P leaf.value (Scalar.ofNat leaf.nextIndex) leaf.nextValue

/-- `empty_subtree[i]` is the hash of the subtree of height `i` of empty leaves. -/
def computeEmptySubtree (P : Poseidon F) : Nat → F :=
  Merkle.emptyNode (hashMerkleNode P) (imtEmptyLeafHash P)

end

structure ImtPath (F : Type) where
  siblings : List F
  indices : List Nat

structure ImtMembership (F : Type) where
  leaf : InternalLeaf F
  leafIndex : Nat
  path : ImtPath F

/-- Both leaves an insertion writes, with their paths. -/
structure ImtInsertWitness (F : Type) where
  lowLeafBefore : InternalLeaf F
  lowLeafAfter : InternalLeaf F
  lowLeafIndex : Nat
  lowLeafPath : ImtPath F
  newLeaf : InternalLeaf F
  newLeafIndex : Nat
  newLeafPath : ImtPath F
  newRoot : F

/-- The leaves, and the cached nodes by level and index. -/
structure IndexedMerkleTree (F : Type) where
  leaves : List (InternalLeaf F)
  tree : Nat → Nat → Option F
  emptySubtree : Nat → F

namespace IndexedMerkleTree
variable {F : Type} [Scalar F] (P : Poseidon F) (t : IndexedMerkleTree F)

/-- `tree[level].get(&idx).copied().unwrap_or(empty_subtree[level])`. -/
def nodeOr (level idx : Nat) : F := (t.tree level idx).getD (t.emptySubtree level)

/-- `tree[level].insert(idx, h)`. -/
def insertNode (level idx : Nat) (h : F) : IndexedMerkleTree F :=
  { t with tree := fun l j => if l = level ∧ j = idx then some h else t.tree l j }

/-- One round of the loop of `set_leaf_hash`, on the tree and `idx`. -/
def setLeafHashStep (st : IndexedMerkleTree F × Nat) (level : Nat) : IndexedMerkleTree F × Nat :=
  let (t, idx) := st
  let me := t.nodeOr level idx
  let sib := t.nodeOr level (idx ^^^ 1)
  let (left, right) := if idx % 2 = 0 then (me, sib) else (sib, me)
  let parentIdx := idx / 2
  let parent := hashMerkleNode P left right
  (t.insertNode (level + 1) parentIdx parent, parentIdx)

def setLeafHash (i : Nat) (h : F) : IndexedMerkleTree F :=
  ((List.range imtDepth).foldl (setLeafHashStep P) (t.insertNode 0 i h, i)).1

/-- Fresh tree with the empty low leaf `(0, 0, 0)` at index `0`. -/
def new : IndexedMerkleTree F :=
  setLeafHash P ⟨[.empty], fun _ _ => none, computeEmptySubtree P⟩ 0 (InternalLeaf.empty.hash P)

def root : F := t.nodeOr imtDepth 0

def size : Nat := t.leaves.length

/-- The pairs `path_for` pushes from `level` on, `n` of them. -/
def pathFrom (level : Nat) : (n idx : Nat) → List (F × Nat)
  | 0, _ => []
  | n + 1, idx => (t.nodeOr level (idx ^^^ 1), idx % 2) :: pathFrom (level + 1) n (idx / 2)

/-- Merkle path for leaf index `i`. -/
def pathFor (i : Nat) : ImtPath F :=
  let p := t.pathFrom 0 imtDepth i
  ⟨p.map (·.1), p.map (·.2)⟩

/-- The loop body of `find_low_leaf_index`: the first equal value ends the scan. -/
def scanLow (target : F) (lowIdx : Option Nat) (leaf : InternalLeaf F × Nat) : Except ImtError (Option Nat) :=
  if leaf.1.value = target then .error .duplicateInsertion
  else if leaf.1.value < target ∧ (leaf.1.nextValue > target ∨ leaf.1.nextValue = 0) then
    .ok (some leaf.2)
  else .ok lowIdx

def findLowLeafIndex (target : F) : Except ImtError Nat := do
  let lowIdx ← t.leaves.zipIdx.foldlM (scanLow target) none
  okOr lowIdx (.lowLeafInvariant "no low leaf found")

/-- Membership witness if `v` is present. -/
def membership (v : F) : Option (ImtMembership F) :=
  match t.leaves.zipIdx.find? (fun leaf => leaf.1.value = v) with
  | some (leaf, i) => some ⟨leaf, i, t.pathFor i⟩
  | none => none

/-- `insert`, after the reduction of the value to the field. -/
def insert (v : F) : Except ImtError (ImtInsertWitness F × IndexedMerkleTree F) := do
  let cap := 1 <<< imtDepth
  failIf (t.leaves.length ≥ cap) (.capacityExhausted imtDepth)
  let lowIdx ← t.findLowLeafIndex v
  let lowLeafBefore := t.leaves.getD lowIdx .empty
  let newIndex := t.leaves.length
  let lowLeafPathBefore := t.pathFor lowIdx
  let lowLeafAfter : InternalLeaf F := ⟨lowLeafBefore.value, newIndex, v⟩
  let newLeaf : InternalLeaf F := ⟨v, lowLeafBefore.nextIndex, lowLeafBefore.nextValue⟩
  let t := { t with leaves := t.leaves.set lowIdx lowLeafAfter }
  let t := t.setLeafHash P lowIdx (lowLeafAfter.hash P)
  let t := { t with leaves := t.leaves ++ [newLeaf] }
  let t := t.setLeafHash P newIndex (newLeaf.hash P)
  pure (⟨lowLeafBefore, lowLeafAfter, lowIdx, lowLeafPathBefore, newLeaf, newIndex,
    t.pathFor newIndex, t.root⟩, t)

/-- Insert a list of values in order, stopping at the first error. -/
def insertAll (vs : List F) : Except ImtError (IndexedMerkleTree F) :=
  vs.foldlM (fun t v => do
    let (_, t) ← t.insert P v
    pure t) t

end IndexedMerkleTree

/-! ## The representation invariant -/

section
variable {F : Type} [Scalar F] {P : Poseidon F}

/-- The leaf hashes of the perfect tree: positions never written hold the empty leaf. -/
def leafHash (P : Poseidon F) (leaves : List (InternalLeaf F)) (i : Nat) : F :=
  (leaves.getD i .empty).hash P

theorem leafHash_set {leaves : List (InternalLeaf F)} {i : Nat} (c : InternalLeaf F) (hi : i < leaves.length) :
    leafHash P (leaves.set i c) = Function.update (leafHash P leaves) i (c.hash P) := by
  funext j
  rcases eq_or_ne j i with rfl | hji
  · simp [leafHash, hi]
  · simp [leafHash, Function.update_of_ne hji, List.getElem?_set_ne hji.symm]

theorem leafHash_append (leaves : List (InternalLeaf F)) (c : InternalLeaf F) :
    leafHash P (leaves ++ [c]) = Function.update (leafHash P leaves) leaves.length (c.hash P) := by
  funext j
  rcases Nat.lt_trichotomy j leaves.length with hj | rfl | hj
  · simp [leafHash, Function.update_of_ne hj.ne, List.getElem?_append_left hj]
  · simp [leafHash]
  · have h1 : (leaves ++ [c])[j]? = none := List.getElem?_eq_none (by simp; omega)
    have h2 : leaves[j]? = none := List.getElem?_eq_none hj.le
    simp [leafHash, Function.update_of_ne hj.ne', h1, h2]

theorem leafHash_of_ge {leaves : List (InternalLeaf F)} {i : Nat} (hi : leaves.length ≤ i) :
    leafHash P leaves i = imtEmptyLeafHash P := by
  simp [leafHash, List.getElem?_eq_none hi, InternalLeaf.hash, InternalLeaf.empty,
    imtEmptyLeafHash, Scalar.ofNat_zero]

/-- The node of the perfect tree over leaf hashes `f`. -/
abbrev imtNode (P : Poseidon F) (f : Nat → F) : Nat → Nat → F := Merkle.nodeAt (hashMerkleNode P) f

/-- The node map agrees with the perfect tree over `f` up to the root. -/
structure IndexedMerkleTree.Nodes (P : Poseidon F) (t : IndexedMerkleTree F) (f : Nat → F) : Prop where
  empty : t.emptySubtree = computeEmptySubtree P
  node : ∀ level ≤ imtDepth, ∀ idx, t.nodeOr level idx = imtNode P f level idx

structure IndexedMerkleTree.Inv (P : Poseidon F) (t : IndexedMerkleTree F) : Prop where
  linked : IndexedList.Linked 0 t.leaves
  nodes : t.Nodes P (leafHash P t.leaves)
  bound : t.leaves.length ≤ 2 ^ imtDepth

namespace IndexedMerkleTree
variable {t : IndexedMerkleTree F} {f : Nat → F}

omit [Scalar F] in
theorem nodeOr_insertNode_self (t : IndexedMerkleTree F) (level idx : Nat) (h : F) :
    (t.insertNode level idx h).nodeOr level idx = h := by
  simp [nodeOr, insertNode]

omit [Scalar F] in
theorem nodeOr_insertNode_of_ne (t : IndexedMerkleTree F) {level idx l j : Nat} (h : F)
    (hne : l ≠ level ∨ j ≠ idx) : (t.insertNode level idx h).nodeOr l j = t.nodeOr l j := by
  have : ¬ (l = level ∧ j = idx) := by tauto
  simp [nodeOr, insertNode, this]

/-- After `k` rounds the levels up to `k` belong to the tree with leaf `i` replaced, and the levels
above are still those of the old tree. -/
private theorem setLeafHash_rounds (H : t.Nodes P f) (i : Nat) (h : F) {k : Nat} (hk : k ≤ imtDepth) :
    let st := (List.range k).foldl (setLeafHashStep P) (t.insertNode 0 i h, i)
    st.2 = i / 2 ^ k ∧ st.1.leaves = t.leaves ∧ st.1.emptySubtree = t.emptySubtree ∧
      (∀ level ≤ k, ∀ idx, st.1.nodeOr level idx = imtNode P (Function.update f i h) level idx) ∧
      ∀ level, k < level → ∀ idx, st.1.nodeOr level idx = t.nodeOr level idx := by
  induction k with
  | zero =>
    refine ⟨by simp, rfl, rfl, fun level hl idx => ?_, fun level hl idx => ?_⟩
    · obtain rfl := Nat.le_zero.mp hl
      rcases eq_or_ne idx i with rfl | hne
      · simp [nodeOr_insertNode_self, Merkle.nodeAt]
      · have h0 := H.node 0 (by simp) idx
        simpa [nodeOr_insertNode_of_ne, hne, Merkle.nodeAt] using h0
    · exact nodeOr_insertNode_of_ne t h (.inl (by omega))
  | succ k ih =>
    simp only [List.range_succ, List.foldl_append, List.foldl_cons, List.foldl_nil]
    obtain ⟨hidx, hleaves, hempty, hlow, hhigh⟩ := ih (by omega)
    generalize (List.range k).foldl (setLeafHashStep P) (t.insertNode 0 i h, i) = st at *
    obtain ⟨s, idx⟩ := st
    simp only at hidx hleaves hempty hlow hhigh
    subst hidx
    have hnext : i / 2 ^ k / 2 = i / 2 ^ (k + 1) := by rw [Nat.div_div_eq_div_mul, Nat.pow_succ]
    -- the parent written in this round is the node of the updated tree
    have hparent : setLeafHashStep P (s, i / 2 ^ k) k = (s.insertNode (k + 1) (i / 2 ^ (k + 1))
          (imtNode P (Function.update f i h) (k + 1) (i / 2 ^ (k + 1))), i / 2 ^ (k + 1)) := by
      have hc := @Merkle.combine_nodeAt _ (hashMerkleNode P) (Function.update f i h) k (i / 2 ^ k)
      rw [hnext] at hc
      simp only [setLeafHashStep, Merkle.xor_one, hlow k (Nat.le_refl k), hnext]
      rcases Nat.mod_two_eq_zero_or_one (i / 2 ^ k) with hm | hm <;>
        simpa [hm, Merkle.combine] using congrArg (s.insertNode (k + 1) (i / 2 ^ (k + 1))) hc
    rw [hparent]
    refine ⟨rfl, hleaves, hempty, fun level hl j => ?_, fun level hl j => ?_⟩
    · rcases Nat.lt_or_eq_of_le hl with hl | rfl
      · rw [nodeOr_insertNode_of_ne s _ (.inl hl.ne)]
        exact hlow level (by omega) j
      rcases eq_or_ne j (i / 2 ^ (k + 1)) with rfl | hj
      · exact nodeOr_insertNode_self s _ _ _
      -- a node off the path is the node of the old tree
      · rw [nodeOr_insertNode_of_ne s _ (.inr hj), hhigh _ (Nat.lt_succ_self k), H.node _ hk]
        exact (Merkle.nodeAt_update_of_ne hj.symm).symm
    · rw [nodeOr_insertNode_of_ne s _ (.inl (by omega))]
      exact hhigh level (by omega) j

theorem setLeafHash_nodes (H : t.Nodes P f) (i : Nat) (h : F) :
    (t.setLeafHash P i h).Nodes P (Function.update f i h) := by
  obtain ⟨-, -, hempty, hlow, -⟩ := setLeafHash_rounds H i h (Nat.le_refl imtDepth)
  exact ⟨hempty.trans H.empty, hlow⟩

omit [Scalar F] in
theorem setLeafHash_leaves (t : IndexedMerkleTree F) (P : Poseidon F) (i : Nat) (h : F) :
    (t.setLeafHash P i h).leaves = t.leaves := by
  have : ∀ (ls : List Nat) (st : IndexedMerkleTree F × Nat),
      (ls.foldl (setLeafHashStep P) st).1.leaves = st.1.leaves := by
    intro ls
    induction ls with
    | nil => exact fun _ => rfl
    | cons l ls ih => exact fun st => ih _
  exact this _ _

/-- The sparse map of a tree that was never written stands for empty leaves everywhere. -/
theorem nodes_unwritten (leaves : List (InternalLeaf F)) :
    (⟨leaves, fun _ _ => none, computeEmptySubtree P⟩ : IndexedMerkleTree F).Nodes P
      (fun _ => imtEmptyLeafHash P) where
  empty := rfl
  node level _ idx := (Merkle.nodeAt_const (imtEmptyLeafHash P) level idx).symm

theorem new_leaves : (new P).leaves = [.empty] := setLeafHash_leaves _ _ _ _

theorem new_inv : (new P).Inv P where
  linked := by
    rw [new_leaves]
    exact .singleton Scalar.zero_le
  nodes := by
    have h := setLeafHash_nodes (nodes_unwritten (P := P) [.empty]) 0 (InternalLeaf.empty.hash P)
    have hf : leafHash P (new P).leaves = Function.update (fun _ => imtEmptyLeafHash P) 0
        (InternalLeaf.empty.hash P) := by
      rw [new_leaves]
      funext i
      have he : leafHash P [] = fun _ => imtEmptyLeafHash P :=
        funext fun _ => leafHash_of_ge (Nat.zero_le _)
      exact congrFun ((leafHash_append (P := P) [] .empty).trans (by rw [he]; rfl)) i
    rw [hf]
    exact h
  bound := by
    rw [new_leaves]
    exact Nat.one_le_two_pow

/-- The root is the root of the perfect tree over the leaf hashes. -/
theorem Inv.root_eq (H : t.Inv P) : t.root = imtNode P (leafHash P t.leaves) imtDepth 0 :=
  H.nodes.node imtDepth (Nat.le_refl _) 0

theorem Inv.zero_mem (H : t.Inv P) : (0 : F) ∈ values t.leaves := by
  obtain ⟨s, hs, hsv⟩ := H.linked.sentinel
  exact hsv ▸ IndexedList.mem_values (List.mem_of_getElem? hs)

/-- `path_for` reads the authentication path of the perfect tree. -/
theorem pathFrom_eq (H : t.Nodes P f) {level n idx : Nat} (h : level + n ≤ imtDepth) : t.pathFrom level n idx =
      (Merkle.pathAt (hashMerkleNode P) f level n idx).map fun p => (p.2, p.1.toNat) := by
  induction n generalizing level idx with
  | zero => rfl
  | succ n ih =>
    have hbit : (decide (idx % 2 = 1)).toNat = idx % 2 := by
      rcases Nat.mod_two_eq_zero_or_one idx with h | h <;> simp [h]
    simp only [pathFrom, Merkle.pathAt, List.map_cons, ih (show level + 1 + n ≤ imtDepth by omega),
      Merkle.xor_one, H.node level (by omega), hbit]

/-- `membership` finds every stored value. -/
theorem exists_membership {t : IndexedMerkleTree F} {v : F} (h : v ∈ values t.leaves) :
    ∃ i c, t.leaves[i]? = some c ∧ c.value = v ∧ t.membership v = some ⟨c, i, t.pathFor i⟩ := by
  obtain ⟨c, hc, hv⟩ := List.mem_map.mp h
  obtain ⟨i, hi⟩ := List.mem_iff_getElem?.mp hc
  unfold membership
  cases hfind : t.leaves.zipIdx.find? (fun leaf => leaf.1.value = v) with
  | none =>
    have hmem : (c, i) ∈ t.leaves.zipIdx := List.mem_zipIdx_iff_getElem?.mpr hi
    exact absurd (decide_eq_true hv) (List.find?_eq_none.mp hfind _ hmem)
  | some x =>
    have hmem := List.mem_zipIdx_iff_getElem?.mp (List.mem_of_find?_eq_some hfind)
    have hval := List.find?_some hfind
    exact ⟨x.2, x.1, hmem, of_decide_eq_true hval, rfl⟩

end IndexedMerkleTree

/-! ## Insertion -/

namespace IndexedMerkleTree

/-- A scan that meets no equal value ends at a low leaf, or has found none. -/
private theorem scan_ok {v : F} {leaves : List (InternalLeaf F)} (hv : v ∉ values leaves)
    (k : Nat) (acc : Option Nat) : ∃ r, (leaves.zipIdx k).foldlM (scanLow v) acc = .ok r ∧
      ((r = acc ∧ ∀ c ∈ leaves, ¬ c.Low 0 v) ∨
        ∃ j low, leaves[j]? = some low ∧ low.Low 0 v ∧ r = some (k + j)) := by
  induction leaves generalizing k acc with
  | nil => exact ⟨acc, rfl, .inl ⟨rfl, by simp⟩⟩
  | cons c cs ih =>
    simp only [values, List.map_cons, List.mem_cons, not_or] at hv
    obtain ⟨hc, hcs⟩ := hv
    have hscan : scanLow v acc (c, k) = .ok (if c.Low 0 v then some k else acc) := by
      rw [scanLow, if_neg (Ne.symm hc)]
      by_cases hl : c.Low 0 v
      · rw [if_pos hl]
        exact if_pos hl
      · rw [if_neg hl]
        exact if_neg hl
    obtain ⟨r, hr, hcase⟩ := ih hcs (k + 1) (if c.Low 0 v then some k else acc)
    refine ⟨r, by simp only [List.zipIdx_cons, List.foldlM_cons, hscan]; exact hr, ?_⟩
    rcases hcase with ⟨hra, hno⟩ | ⟨j, low, hj, hlow, hrj⟩
    · by_cases hcl : c.Low 0 v
      · exact .inr ⟨0, c, rfl, hcl, by simpa [hcl] using hra⟩
      · refine .inl ⟨by simpa [hcl] using hra, fun d hd => ?_⟩
        rcases List.mem_cons.mp hd with rfl | hd
        · exact hcl
        · exact hno d hd
    · exact .inr ⟨j + 1, low, hj, hlow, by rw [hrj, Nat.add_right_comm, Nat.add_assoc]⟩

private theorem scan_dup {v : F} {leaves : List (InternalLeaf F)} (hv : v ∈ values leaves)
    (k : Nat) (acc : Option Nat) : (leaves.zipIdx k).foldlM (scanLow v) acc = .error .duplicateInsertion := by
  induction leaves generalizing k acc with
  | nil => simp [values] at hv
  | cons c cs ih =>
    simp only [List.zipIdx_cons, List.foldlM_cons]
    rcases eq_or_ne c.value v with hc | hc
    · simp only [scanLow, if_pos hc]; rfl
    · have hcs : v ∈ values cs := by
        simp only [values, List.map_cons, List.mem_cons] at hv
        exact hv.resolve_left hc.symm
      simp only [scanLow, if_neg hc]
      split <;> exact ih hcs _ _

variable {t : IndexedMerkleTree F} {v : F} {f : Nat → F}

/-- `find_low_leaf_index` finds the leaf whose gap holds the value. -/
theorem findLowLeafIndex_eq_ok (H : t.Inv P) {i : Nat} :
    t.findLowLeafIndex v = .ok i ↔ ∃ low, t.leaves[i]? = some low ∧ low.Low 0 v := by
  by_cases hv : v ∈ values t.leaves
  · have herr : t.findLowLeafIndex v = .error .duplicateInsertion := by
      simp only [findLowLeafIndex, scan_dup hv]; rfl
    rw [herr]
    refine ⟨fun h => by simp at h, ?_⟩
    rintro ⟨low, hi, hlow⟩
    exact absurd hv (H.linked.not_mem_of_low (List.mem_of_getElem? hi) hlow)
  · obtain ⟨r, hr, hcase⟩ := scan_ok hv 0 none
    have hz : (0 : F) < v := Scalar.pos_iff.mpr fun h0 => hv (h0 ▸ H.zero_mem)
    obtain ⟨c, hc, hcl⟩ := H.linked.exists_low hz hv
    rcases hcase with ⟨-, hno⟩ | ⟨j, low, hj, hlow, rfl⟩
    · exact absurd hcl (hno c hc)
    · have hok : t.findLowLeafIndex v = .ok j := by
        simp only [findLowLeafIndex, hr, Nat.zero_add]; rfl
      rw [hok]
      constructor
      · intro h
        obtain rfl := Except.ok.inj h
        exact ⟨low, hj, hlow⟩
      · rintro ⟨low', hi, hlow'⟩
        rw [H.linked.low_unique hj hi hlow hlow']

theorem Nodes.withLeaves (H : t.Nodes P f) (leaves : List (InternalLeaf F)) :
    ({ t with leaves := leaves } : IndexedMerkleTree F).Nodes P f := ⟨H.empty, H.node⟩

/-- What a successful insertion does: it splits the gap that holds the value. -/
theorem insert_ok (H : t.Inv P) {w : ImtInsertWitness F} {t' : IndexedMerkleTree F}
    (h : t.insert P v = .ok (w, t')) : t.leaves.length < 2 ^ imtDepth ∧
      ∃ i low, t.leaves[i]? = some low ∧ low.Low 0 v ∧ t'.Inv P ∧
        t'.leaves = IndexedList.splice t.leaves i low v ∧
        w = ⟨low, ⟨low.value, t.size, v⟩, i, t.pathFor i, ⟨v, low.nextIndex, low.nextValue⟩,
          t.size, t'.pathFor t.size, t'.root⟩ := by
  simp only [insert, bind_eq_ok, failIf_eq_ok, pure_eq_ok, not_le, Nat.one_shiftLeft, Prod.mk.injEq] at h
  obtain ⟨_, hcap, i, hi, rfl, rfl⟩ := h
  obtain ⟨low, hlow, hgap⟩ := (findLowLeafIndex_eq_ok H).mp hi
  obtain ⟨hlt, -⟩ := List.getElem?_eq_some_iff.mp hlow
  have hget : t.leaves.getD i .empty = low := by simp [hlow]
  simp only [hget]
  set low' : InternalLeaf F := ⟨low.value, t.leaves.length, v⟩
  set new : InternalLeaf F := ⟨v, low.nextIndex, low.nextValue⟩
  refine ⟨hcap, i, low, hlow, hgap, ⟨?_, ?_, ?_⟩, ?_, rfl⟩
  · simp only [setLeafHash_leaves]
    exact H.linked.splice hlow hgap
  · -- the two writes are the two updates of the leaf hashes
    have hlow' := setLeafHash_nodes (H.nodes.withLeaves (t.leaves.set i low')) i (low'.hash P)
    rw [← leafHash_set _ hlt] at hlow'
    have hnew := setLeafHash_nodes (hlow'.withLeaves (t.leaves.set i low' ++ [new]))
      t.leaves.length (new.hash P)
    have hlen : (t.leaves.set i low').length = t.leaves.length := List.length_set
    rw [← hlen, ← leafHash_append, hlen] at hnew
    simpa only [setLeafHash_leaves] using hnew
  · simp only [setLeafHash_leaves, List.length_append, List.length_set, List.length_singleton]
    exact hcap
  · simp only [setLeafHash_leaves]
    rfl

/-- An insertion succeeds exactly when there is room and the value is not stored; the stored values
include the sentinel `0`. -/
theorem exists_insert_iff (H : t.Inv P) :
    (∃ r, t.insert P v = .ok r) ↔ t.leaves.length < 2 ^ imtDepth ∧ v ∉ values t.leaves := by
  constructor
  · rintro ⟨⟨w, t'⟩, h⟩
    obtain ⟨hcap, i, low, hi, hlow, -⟩ := insert_ok H h
    exact ⟨hcap, H.linked.not_mem_of_low (List.mem_of_getElem? hi) hlow⟩
  · rintro ⟨hcap, hv⟩
    have hz : (0 : F) < v := Scalar.pos_iff.mpr fun h0 => hv (h0 ▸ H.zero_mem)
    obtain ⟨c, hc, hcl⟩ := H.linked.exists_low hz hv
    obtain ⟨i, hi⟩ := List.mem_iff_getElem?.mp hc
    have hfind := (findLowLeafIndex_eq_ok H).mpr ⟨c, hi, hcl⟩
    simp only [insert, Nat.one_shiftLeft, ge_iff_le, failIf, if_neg (not_le.mpr hcap), hfind]
    exact ⟨_, rfl⟩

@[simp] theorem insertAll_nil : t.insertAll P [] = .ok t := rfl

theorem insertAll_cons_eq_ok {vs : List F} {t' : IndexedMerkleTree F} : t.insertAll P (v :: vs) = .ok t' ↔
      ∃ w t₁, t.insert P v = .ok (w, t₁) ∧ t₁.insertAll P vs = .ok t' := by
  simp only [insertAll, List.foldlM_cons, bind_eq_ok, pure_eq_ok]
  constructor
  · rintro ⟨_, ⟨⟨w, t₁⟩, h, rfl⟩, h'⟩
    exact ⟨w, t₁, h, h'⟩
  · rintro ⟨w, t₁, h, h'⟩
    exact ⟨t₁, ⟨(w, t₁), h, rfl⟩, h'⟩

theorem insertAll_append_eq_ok {vs ws : List F} {t' : IndexedMerkleTree F} : t.insertAll P (vs ++ ws) = .ok t' ↔
      ∃ t₁, t.insertAll P vs = .ok t₁ ∧ t₁.insertAll P ws = .ok t' := by
  simp [insertAll]

/-- A successful run of insertions keeps the invariant and appends its values. -/
theorem insertAll_ok (H : t.Inv P) {vs : List F} {t' : IndexedMerkleTree F} (h : t.insertAll P vs = .ok t') :
    t'.Inv P ∧ values t'.leaves = values t.leaves ++ vs := by
  induction vs generalizing t with
  | nil =>
    obtain rfl := Except.ok.inj h
    exact ⟨H, by simp⟩
  | cons v vs ih =>
    obtain ⟨w, t₁, h₁, hvs⟩ := insertAll_cons_eq_ok.mp h
    obtain ⟨-, i, low, hi, -, H₁, hl, -⟩ := insert_ok H h₁
    obtain ⟨H', hval⟩ := ih H₁ hvs
    rw [hl, IndexedList.values_splice v hi] at hval
    exact ⟨H', by simp [hval]⟩

/-- A run of insertions succeeds exactly when there is room and the values are new and distinct. -/
theorem exists_insertAll_iff (H : t.Inv P) {vs : List F} : (∃ t', t.insertAll P vs = .ok t') ↔
      t.leaves.length + vs.length ≤ 2 ^ imtDepth ∧ vs.Nodup ∧ ∀ v ∈ vs, v ∉ values t.leaves := by
  constructor
  · rintro ⟨t', h⟩
    obtain ⟨H', hval⟩ := insertAll_ok H h
    have hnd := H'.linked.nodup
    rw [hval, List.nodup_append] at hnd
    have hlen := congrArg List.length hval
    simp only [values, List.length_map, List.length_append] at hlen
    exact ⟨hlen ▸ H'.bound, hnd.2.1, fun v hv hv' => hnd.2.2 v hv' v hv rfl⟩
  · rintro ⟨hcap, hnd, hnew⟩
    induction vs generalizing t with
    | nil => exact ⟨t, rfl⟩
    | cons v vs ih =>
      simp only [List.length_cons] at hcap
      obtain ⟨hv, hnd⟩ := List.nodup_cons.mp hnd
      obtain ⟨⟨w, t₁⟩, h₁⟩ := (exists_insert_iff H).mpr ⟨by omega, hnew v List.mem_cons_self⟩
      obtain ⟨-, i, low, hi, -, H₁, hl, -⟩ := insert_ok H h₁
      have hval : values t₁.leaves = values t.leaves ++ [v] := by
        rw [hl, IndexedList.values_splice v hi]
      obtain ⟨t', h'⟩ := ih H₁ (by rw [hl, IndexedList.length_splice]; omega) hnd fun u hu => by
        simp only [hval, List.mem_append, List.mem_singleton, not_or]
        exact ⟨hnew u (List.mem_cons_of_mem v hu), fun he => hv (he ▸ hu)⟩
      exact ⟨t', insertAll_cons_eq_ok.mpr ⟨w, t₁, h₁, h'⟩⟩

end IndexedMerkleTree

end

end Pocs.Civic
