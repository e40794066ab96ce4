import Pocs.Epochs.Commitments

/-! # Paths read obliviously

`commitment_pir.rs` and the `SimplePirClient` of `pir_client.rs`: the nodes of the commitment tree as records of
16 bits, level after level, and the path of a leaf put together from the records of its siblings. -/

namespace Pocs.Epochs

/-! ## The crates -/

/-- An element of `stateless_path`. -/
structure PathElement where
  level : Nat
  siblingIndex : Nat
  isRight : Bool

structure NodedLeanImt (T : Type) extends HashedLeanImt (Bytes 32) T where
  nodes : T → List (List (Bytes 32))
  statelessPath : (leafIndex leafCount : Nat) → Option (List PathElement)

/-- The sibling on level `k` of the node above leaf `i`, if there is one over `n` leaves. -/
def siblingOn (n i k : Nat) : Option PathElement :=
  if Merkle.sibling (i / 2 ^ k) < Merkle.levelSize n k then
    some ⟨k, Merkle.sibling (i / 2 ^ k), decide (i / 2 ^ k % 2 = 1)⟩
  else none

/-- The levels up to the root. -/
structure NodedLeanImt.Lawful {T : Type} (L : NodedLeanImt T) (node : Bytes 32 → Bytes 32 → Bytes 32) : Prop
    extends L.toHashedLeanImt.Lawful node where
  nodes : ∀ t, L.leaves t ≠ [] → L.nodes t =
    (List.range (Nat.clog 2 (L.leaves t).length + 1)).map fun k => (Merkle.level node)^[k] (L.leaves t)
  statelessPath : ∀ {i n}, i < n →
    L.statelessPath i n = some ((List.range (Nat.clog 2 n)).filterMap (siblingOn n i))
  out_of_range : ∀ {i n}, n ≤ i → L.statelessPath i n = none

/-- `SimplePIR`: a database of records, fetched one by one. -/
structure Pir (D : Type) where
  fromRecords : List UInt64 → D
  fetch : D → (index : Nat) → UInt64

def plaintextMod : UInt64 := (1 : UInt64) <<< 17

/-- A fetch gives the record that is stored. -/
def Pir.Lawful {D : Type} (P : Pir D) : Prop :=
  ∀ {records index record}, (∀ r ∈ records, r < plaintextMod) → records[index]? = some record →
    P.fetch (P.fromRecords records) index = record

/-! ## `commitment_pir.rs` -/

def limbsPerNode : Nat := 16

/-- The sizes that `level_sizes` pushes. -/
def halvings (size : Nat) : List Nat :=
  if 1 < size then (size + 1) / 2 :: halvings ((size + 1) / 2) else []

def levelSizes (leafCount : Nat) : List Nat := if leafCount = 0 then [] else leafCount :: halvings leafCount

def nodeOffset (levelSizes : List Nat) (level index : Nat) : Nat := (levelSizes.take level).sum + index

def recordIndex (levelSizes : List Nat) (level index limb : Nat) : Nat :=
  nodeOffset levelSizes level index * limbsPerNode + limb

/-- `node_to_limbs`, each by `u16::from_be_bytes`. -/
def nodeToLimbs (node : Bytes 32) : List UInt64 :=
  (List.range limbsPerNode).map fun i => .ofNat (beToNat (slice node.1 (2 * i) 2))

/-- `limbs_to_node`, each by `u16::to_be_bytes`. -/
def limbsToNode (limbs : List UInt64) : Bytes 32 :=
  .resize 32 ((limbs.take limbsPerNode).flatMap fun limb => beOfNat 2 limb.toUInt16.toNat)

section
variable {T D : Type}

/-- The records of `build_commitment_pir_db`. -/
def NodedLeanImt.commitmentRecords (L : NodedLeanImt T) (t : T) : List UInt64 :=
  (L.nodes t).flatten.flatMap nodeToLimbs

def Pir.buildCommitmentPirDb (P : Pir D) (L : NodedLeanImt T) (t : T) : D :=
  P.fromRecords (L.commitmentRecords t)

/-! ## `pir_client.rs` -/

inductive PirError where
  | leafOutOfRange (leafIndex : UInt64)
  | emptyTree
  deriving DecidableEq, Repr

/-- A client of the database of a tree. -/
structure SimplePirClient (D : Type) where
  db : Option D
  leafCount : Nat

def SimplePirClient.fromTree (P : Pir D) (L : NodedLeanImt T) (t : T) : SimplePirClient D where
  db := if 0 < L.size t then some (P.buildCommitmentPirDb L t) else none
  leafCount := L.size t

def PathElement.recordIndices (sizes : List Nat) (element : PathElement) : List Nat :=
  (List.range limbsPerNode).map (recordIndex sizes element.level element.siblingIndex)

def SimplePirClient.fetchMembershipPath (P : Pir D) (L : NodedLeanImt T) (client : SimplePirClient D)
    (leafIndex : UInt64) : Except PirError (CommitmentMerkleProof (Bytes 32)) := do
  let db ← okOr client.db .emptyTree
  let elements ← okOr (L.statelessPath leafIndex.toNat client.leafCount) (.leafOutOfRange leafIndex)
  let sizes := levelSizes client.leafCount
  let path := elements.map fun element => limbsToNode ((element.recordIndices sizes).map (P.fetch db))
  let indices := elements.map fun element => if element.isRight then 1 else 0
  pure (.new path indices leafIndex.toNat)

end

/-! ## The layout -/

theorem length_nodeToLimbs (node : Bytes 32) : (nodeToLimbs node).length = limbsPerNode := by
  rw [nodeToLimbs, List.length_map, List.length_range]

theorem limbsToNode_nodeToLimbs (node : Bytes 32) : limbsToNode (nodeToLimbs node) = node := by
  have hlimb : ∀ i ∈ List.range limbsPerNode,
      beOfNat 2 (UInt64.ofNat (beToNat (slice node.1 (2 * i) 2))).toUInt16.toNat = slice node.1 (0 + i * 2) 2 := by
    intro i hi
    have hlen : (slice node.1 (2 * i) 2).length = 2 := by
      apply length_slice
      have hi := List.mem_range.mp hi
      have h32 := node.2
      rw [limbsPerNode] at hi
      omega
    apply beToNat_inj (by rw [length_beOfNat, Nat.zero_add, Nat.mul_comm i, hlen])
    have hlt := beToNat_lt (slice node.1 (2 * i) 2)
    rw [hlen] at hlt
    rw [beToNat_beOfNat, UInt64.toNat_toUInt16, UInt64.toNat_ofNat', Nat.zero_add, Nat.mul_comm i]
    omega
  rw [limbsToNode, List.take_of_length_le (length_nodeToLimbs node).le, nodeToLimbs, List.flatMap_map,
    List.flatMap_congr hlimb, flatMap_slice]
  apply Bytes.resize_eq
  rw [slice, List.drop_zero, List.take_take]
  exact List.take_of_length_le node.2.le

theorem lt_of_mem_nodeToLimbs {node : Bytes 32} {limb : UInt64} (h : limb ∈ nodeToLimbs node) :
    limb < plaintextMod := by
  obtain ⟨i, -, rfl⟩ := List.mem_map.mp h
  have hlt := beToNat_lt (slice node.1 (2 * i) 2)
  have hlen : (slice node.1 (2 * i) 2).length ≤ 2 := List.length_take_le _ _
  have hpow : 256 ^ (slice node.1 (2 * i) 2).length ≤ 256 ^ 2 := Nat.pow_le_pow_right (by decide) hlen
  rw [UInt64.lt_iff_toNat_lt, UInt64.toNat_ofNat_of_lt' (by rw [UInt64.size]; omega)]
  exact (hlt.trans_le hpow).trans (by decide)

theorem halvings_eq (size : Nat) :
    halvings size = (List.range (Nat.clog 2 size)).map fun k => Merkle.levelSize size (k + 1) := by
  fun_induction halvings size with
  | case1 size h ih =>
    rw [Nat.clog_of_two_le (by decide) h, List.range_succ_eq_map, List.map_cons, List.map_map, ih]
    rfl
  | case2 size h => rw [Nat.clog_of_right_le_one (by omega), List.range_zero, List.map_nil]

theorem levelSizes_eq {n : Nat} (h : n ≠ 0) :
    levelSizes n = (List.range (Nat.clog 2 n + 1)).map (Merkle.levelSize n) := by
  rw [levelSizes, if_neg h, halvings_eq, List.range_succ_eq_map, List.map_cons, List.map_map]
  rfl

section
variable {T D : Type} {L : NodedLeanImt T} {P : Pir D} {node : Bytes 32 → Bytes 32 → Bytes 32} {t : T}

theorem NodedLeanImt.Lawful.levelSizes (hL : L.Lawful node) (hne : L.leaves t ≠ []) :
    levelSizes (L.leaves t).length = (L.nodes t).map List.length := by
  rw [levelSizes_eq (List.length_pos_iff.mpr hne).ne', hL.nodes t hne, List.map_map]
  exact List.map_congr_left fun k _ => (Merkle.length_iterate_level_eq _ k).symm

/-- The limbs of a node are where the client looks for them. -/
theorem NodedLeanImt.Lawful.getElem?_commitmentRecords (hL : L.Lawful node) (hne : L.leaves t ≠ []) {k j : Nat}
    {level : List (Bytes 32)} {x : Bytes 32} (hk : (L.nodes t)[k]? = some level) (hj : level[j]? = some x)
    {limb : Nat} (hlimb : limb < limbsPerNode) :
    (L.commitmentRecords t)[recordIndex (Epochs.levelSizes (L.leaves t).length) k j limb]? =
      (nodeToLimbs x)[limb]? := by
  rw [commitmentRecords, recordIndex, nodeOffset, getElem?_flatMap_chunk length_nodeToLimbs _ _ hlimb,
    hL.levelSizes hne, ← List.map_take, getElem?_flatten_offset hk (List.getElem?_eq_some_iff.mp hj).1, hj]
  rfl

/-- The records of a node are in the database and give it back. -/
theorem NodedLeanImt.Lawful.fetch_node (hL : L.Lawful node) (hP : P.Lawful) (hne : L.leaves t ≠ []) {k j : Nat}
    {level : List (Bytes 32)} {x : Bytes 32} (hk : (L.nodes t)[k]? = some level) (hj : level[j]? = some x)
    (isRight : Bool) :
    let indices := PathElement.recordIndices (Epochs.levelSizes (L.leaves t).length) ⟨k, j, isRight⟩
    (∀ index ∈ indices, index < (L.commitmentRecords t).length) ∧
      limbsToNode (indices.map (P.fetch (P.buildCommitmentPirDb L t))) = x := by
  have hsmall : ∀ r ∈ L.commitmentRecords t, r < plaintextMod := by
    intro r hr
    obtain ⟨y, -, hy⟩ := List.mem_flatMap.mp hr
    exact lt_of_mem_nodeToLimbs hy
  have hrecord : ∀ limb (h : limb < limbsPerNode), ∃ record, (nodeToLimbs x)[limb]? = some record ∧
      (L.commitmentRecords t)[recordIndex (Epochs.levelSizes (L.leaves t).length) k j limb]? = some record := by
    intro limb h
    have hlt := h.trans_eq (length_nodeToLimbs x).symm
    refine ⟨_, List.getElem?_eq_getElem hlt, ?_⟩
    rw [hL.getElem?_commitmentRecords hne hk hj h, List.getElem?_eq_getElem hlt]
  intro indices
  have hindices : indices = (List.range limbsPerNode).map
    (recordIndex (Epochs.levelSizes (L.leaves t).length) k j) := rfl
  constructor
  · intro index hindex
    obtain ⟨limb, hlimb, rfl⟩ := List.mem_map.mp hindex
    obtain ⟨record, -, hrecord⟩ := hrecord limb (List.mem_range.mp hlimb)
    exact (List.getElem?_eq_some_iff.mp hrecord).1
  · have hlimbs : indices.map (P.fetch (P.buildCommitmentPirDb L t)) = nodeToLimbs x := by
      apply List.ext_getElem?
      intro limb
      rw [List.getElem?_map, hindices, List.getElem?_map]
      rcases Nat.lt_or_ge limb limbsPerNode with h | h
      · obtain ⟨record, hlimb, hrecord⟩ := hrecord limb h
        rw [List.getElem?_range h, hlimb]
        exact congrArg some (hP hsmall hrecord)
      · rw [List.getElem?_eq_none (by rwa [List.length_range]),
          List.getElem?_eq_none (by rwa [length_nodeToLimbs])]
        rfl
    rw [hlimbs, limbsToNode_nodeToLimbs]

/-- A sibling on a level, with the side of the node, as the client reads it. -/
theorem NodedLeanImt.Lawful.fetch_sibling (hL : L.Lawful node) (hP : P.Lawful) {i k : Nat}
    (hi : i < (L.leaves t).length) (hk : k < Nat.clog 2 (L.leaves t).length) {element : PathElement}
    (h : siblingOn (L.leaves t).length i k = some element) :
    (∀ index ∈ element.recordIndices (Epochs.levelSizes (L.leaves t).length),
        index < (L.commitmentRecords t).length) ∧
      (((Merkle.level node)^[k] (L.leaves t))[Merkle.sibling (i / 2 ^ k)]?.map fun s =>
          (decide (i / 2 ^ k % 2 = 1), s)) =
        some (element.isRight, limbsToNode ((element.recordIndices (Epochs.levelSizes (L.leaves t).length)).map
          (P.fetch (P.buildCommitmentPirDb L t)))) := by
  have hne : L.leaves t ≠ [] := List.ne_nil_of_length_pos (Nat.zero_lt_of_lt hi)
  have hlevel : (L.nodes t)[k]? = some ((Merkle.level node)^[k] (L.leaves t)) := by
    rw [hL.nodes t hne, List.getElem?_map, List.getElem?_range (Nat.lt_succ_of_lt hk)]
    rfl
  rw [siblingOn] at h
  split at h
  · next hlt =>
    cases h
    rw [← @Merkle.length_iterate_level_eq _ node (L.leaves t) k] at hlt
    obtain ⟨hmem, hfetch⟩ := hL.fetch_node hP hne hlevel (List.getElem?_eq_getElem hlt) (decide (i / 2 ^ k % 2 = 1))
    refine ⟨hmem, ?_⟩
    rw [hfetch, List.getElem?_eq_getElem hlt]
    rfl
  · cases h

/-- Where the client expects no sibling, there is none. -/
theorem siblingOn_eq_none {leaves : List (Bytes 32)} {i k : Nat} (h : siblingOn leaves.length i k = none) :
    ((Merkle.level node)^[k] leaves)[Merkle.sibling (i / 2 ^ k)]? = none := by
  rw [List.getElem?_eq_none_iff, Merkle.length_iterate_level_eq]
  rw [siblingOn] at h
  split at h
  · cases h
  · next hlt => exact Nat.le_of_not_lt hlt

/-- The client reads the path that the tree gives. -/
theorem NodedLeanImt.Lawful.map_elements (hL : L.Lawful node) (hP : P.Lawful) {i : Nat}
    (hi : i < (L.leaves t).length) :
    (((List.range (Nat.clog 2 (L.leaves t).length)).filterMap (siblingOn (L.leaves t).length i)).map fun element =>
        (element.isRight, limbsToNode ((element.recordIndices (Epochs.levelSizes (L.leaves t).length)).map
          (P.fetch (P.buildCommitmentPirDb L t))))) =
      Merkle.promotedPath node (L.leaves t).length (L.leaves t) i := by
  have hlen : (L.leaves t).length ≤ 2 ^ Nat.clog 2 (L.leaves t).length := Nat.le_pow_clog (by decide) _
  have hclog : Nat.clog 2 (L.leaves t).length ≤ (L.leaves t).length :=
    Nat.clog_le_of_le_pow Nat.lt_two_pow_self.le
  rw [Merkle.promotedPath_of_le hi hlen hclog, Merkle.promotedPath_eq_filterMap, List.map_filterMap]
  apply List.filterMap_congr
  intro k hk
  cases helement : siblingOn (L.leaves t).length i k with
  | none => rw [siblingOn_eq_none helement]; rfl
  | some element =>
    obtain ⟨-, hsibling⟩ := hL.fetch_sibling hP hi (List.mem_range.mp hk) helement
    rw [hsibling]
    rfl

/-- The path read record by record is the one that the tree gives. -/
theorem fetched_path (hL : L.Lawful node) (hP : P.Lawful) (hsize : 1 ≤ L.size t) (leafIndex : UInt64) :
    (leafIndex.toNat < L.size t → ∃ proof elements leaf,
      L.generateCommitmentProof t leafIndex.toNat = some proof ∧
      (SimplePirClient.fromTree P L t).fetchMembershipPath P L leafIndex = .ok proof ∧
      L.statelessPath leafIndex.toNat (L.size t) = some elements ∧
      (∀ element ∈ elements, ∀ index ∈ element.recordIndices (levelSizes (L.size t)),
        index < (L.commitmentRecords t).length) ∧ (L.leaves t)[leafIndex.toNat]? = some leaf ∧
      L.root t = some (proof.reconstructRoot node leaf)) ∧ (L.size t ≤ leafIndex.toNat →
      (SimplePirClient.fromTree P L t).fetchMembershipPath P L leafIndex = .error (.leafOutOfRange leafIndex)) := by
  have hdb : (SimplePirClient.fromTree P L t).db = some (P.buildCommitmentPirDb L t) := if_pos hsize
  have hcount : (SimplePirClient.fromTree P L t).leafCount = L.size t := rfl
  rw [hL.size] at hcount ⊢
  constructor
  · intro hi
    have hproof := hL.generateCommitmentProof hi (hL.map_elements hP hi).symm
    refine ⟨_, _, (L.leaves t).get ⟨_, hi⟩, hproof, ?_, hL.statelessPath hi, ?_, List.getElem?_eq_getElem hi, ?_⟩
    · rw [SimplePirClient.fetchMembershipPath, hdb, hcount, hL.statelessPath hi, List.map_map, List.map_map]
      rfl
    · intro element helement
      obtain ⟨k, hk, hsibling⟩ := List.mem_filterMap.mp helement
      exact (hL.fetch_sibling hP hi (List.mem_range.mp hk) hsibling).1
    · exact hL.reconstructRoot hproof (List.getElem?_eq_getElem hi)
  · intro hi
    rw [SimplePirClient.fetchMembershipPath, hdb, hcount, hL.out_of_range hi]
    rfl

end

/-! ## A tree of three leaves -/

namespace PathSample

def tree (node : Bytes 32 → Bytes 32 → Bytes 32) : NodedLeanImt (List (Bytes 32)) where
  toHashedLeanImt := listLeanImt node
  nodes leaves := (List.range (Nat.clog 2 leaves.length + 1)).map fun k => (Merkle.level node)^[k] leaves
  statelessPath i n := if i < n then some ((List.range (Nat.clog 2 n)).filterMap (siblingOn n i)) else none

def pir : Pir (List UInt64) where
  fromRecords := id
  fetch records index := records.getD index 0

def node (a b : Bytes 32) : Bytes 32 := .ofNat 32 (2 * a.toNat + 3 * b.toNat + 1)

def leaves : List (Bytes 32) := [.ofNat 32 1, .ofNat 32 2, .ofNat 32 3]

theorem tree_lawful : (tree node).Lawful node where
  toLawful := listLeanImt_lawful
  nodes _ _ := rfl
  statelessPath h := if_pos h
  out_of_range h := if_neg (Nat.not_lt.mpr h)

theorem pir_lawful : pir.Lawful := by
  intro records index record _ h
  show records.getD index 0 = record
  rw [List.getD_eq_getElem?_getD, h]
  rfl

end PathSample

open PathSample in
/-- The last of three leaves, without a sibling on the first level. -/
theorem fetched_path_sample : ∃ proof,
    (SimplePirClient.fromTree pir (tree node) leaves).fetchMembershipPath pir (tree node) 2 = .ok proof ∧
      (tree node).root leaves = some (proof.reconstructRoot node (Bytes.ofNat 32 3)) := by
  obtain ⟨proof, -, leaf, -, hfetch, -, -, hleaf, hroot⟩ :=
    (fetched_path tree_lawful pir_lawful (show 1 ≤ (tree node).size leaves by decide) 2).1 (by decide)
  obtain rfl : Bytes.ofNat 32 3 = leaf := Option.some.inj hleaf
  exact ⟨proof, hfetch, hroot⟩

end Pocs.Epochs
