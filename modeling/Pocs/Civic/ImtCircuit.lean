import Pocs.Civic.Imt

/-! # The insertion check of the batch circuit

`merkle.nr` and `imt.nr` as checks in `Except String`. `verifyInsert_root_iff` reads an accepted
witness against a tree: the low leaf is the tree's leaf at the witnessed index, the new position is
empty, and the new root is the root after the two writes. Nothing in the check makes the low leaf a
leaf that was ever written, so the empty leaf of an unused position, whose next index is `0`, passes
for the tail of the list. -/

namespace Pocs.Civic

open IndexedMerkleTree
open Merkle (foldPath ofBits pathAt)

section
variable {F : Type} [NoirField F]

/-! ## `merkle.nr` -/

/-- Binary Merkle root with a runtime depth bounded by `maxDepth`. -/
def binaryMerkleRoot {maxDepth : Nat} (hasher : F → F → F) (leaf : F) (depth : Nat)
    (indices : Fin maxDepth → Bool) (siblings : Fin maxDepth → F) : F :=
  (List.finRange maxDepth).foldl (fun node i =>
    if i.val < depth then
      let sibling := siblings i
      let (left, right) := if indices i then (sibling, node) else (node, sibling)
      hasher left right
    else node) leaf

def verifyMembershipDepth24 (P : Poseidon F) (leaf root : F) (proofLength : Nat)
    (pathIndices : Fin 24 → Bool) (pathElements : Fin 24 → F) : Except String Unit :=
  let computed := binaryMerkleRoot (hashMerkleNode P) leaf proofLength pathIndices pathElements
  require (computed = root) "merkle proof failed (depth 24)"

def computeRootDepth24 (P : Poseidon F) (leaf : F) (pathIndices : Fin 24 → Bool)
    (pathElements : Fin 24 → F) : F :=
  binaryMerkleRoot (hashMerkleNode P) leaf 24 pathIndices pathElements

/-- Decompose `x: u32` into 24 LSB-first bits: bit `i` is the low bit of `x` shifted `i` times. -/
def u32ToBits24 (x : Nat) : Except String (Fin 24 → Bool) := do
  require (x < 16777216) "merkle: index >= 2^24"
  pure fun i => (x >>> i.val) &&& 1 == 1

def assertBitsEq24 (a b : Fin 24 → Bool) : Except String Unit :=
  require (∀ i, a i = b i) "merkle: path-index bit mismatch"

/-! ## `imt.nr` -/

structure ImtLowLeafWitness (F : Type) where
  leafIndex : Nat
  value : F
  nextIndex : F
  nextValue : F
  pathIndices : Fin 24 → Bool
  pathElements : Fin 24 → F

/-- The witness of one insertion. -/
structure CircuitInsertWitness (F : Type) where
  low : ImtLowLeafWitness F
  newLowNextIndex : F
  newLeafPathIndices : Fin 24 → Bool
  newLeafPathElements : Fin 24 → F

def assertCanonicalField (f : F) : Except String Unit :=
  require (NoirField.canonical f = true) "cmp: scalar exceeds BN254 modulus high byte"

def verifyNonMembership (P : Poseidon F) (value root : F) (low : ImtLowLeafWitness F) : Except String Unit := do
  assertCanonicalField low.value
  assertCanonicalField low.nextValue
  assertCanonicalField value
  let ltLow := NoirField.ltField low.value value
  require (ltLow = true) "imt: low.value >= value (would be membership or out of order)"
  if low.nextIndex ≠ 0 then
    let ltNext := NoirField.ltField value low.nextValue
    require (ltNext = true) "imt: value >= low.next_value (would be membership or out of order)"
  let lowHash := hashImtLeaf P low.value low.nextIndex low.nextValue
  verifyMembershipDepth24 P lowHash root 24 low.pathIndices low.pathElements

/-- `verify_insert`, from the old root to the new one. -/
def verifyInsert (P : Poseidon F) (value priorRoot newRoot : F) (priorLeafCount : Nat)
    (insert : CircuitInsertWitness F) : Except String Unit := do
  require (priorLeafCount < 16777215) "imt: tree full"
  -- 1. non-membership of `value` against `prior_root`
  verifyNonMembership P value priorRoot insert.low
  let expectedLowBits ← u32ToBits24 insert.low.leafIndex
  assertBitsEq24 insert.low.pathIndices expectedLowBits
  let newAbsolute := priorLeafCount + 1
  require (insert.low.leafIndex ≠ newAbsolute) "imt: low.leaf_index collides with new insertion position"
  let expectedNewLowNext : F := Scalar.ofNat newAbsolute
  require (insert.newLowNextIndex = expectedNewLowNext) "imt: new_low_next_index != prior_leaf_count + 1"
  -- 2. the intermediate root
  let updatedLowHash := hashImtLeaf P insert.low.value insert.newLowNextIndex value
  let intermediateRoot :=
    computeRootDepth24 P updatedLowHash insert.low.pathIndices insert.low.pathElements
  -- 3. the position of the new leaf
  let expectedNewBits ← u32ToBits24 newAbsolute
  assertBitsEq24 insert.newLeafPathIndices expectedNewBits
  -- 4. it was empty
  let emptyLeaf := imtEmptyLeafHash P
  let intermediateViaNew :=
    computeRootDepth24 P emptyLeaf insert.newLeafPathIndices insert.newLeafPathElements
  require (intermediateViaNew = intermediateRoot) "imt: new-leaf position was not empty in intermediate root"
  -- 5. the new root
  let newLeafHash := hashImtLeaf P value insert.low.nextIndex insert.low.nextValue
  let recomputedRoot :=
    computeRootDepth24 P newLeafHash insert.newLeafPathIndices insert.newLeafPathElements
  require (recomputedRoot = newRoot) "imt: post-insert root mismatch"

end

/-! ## Paths of the circuit as authentication paths -/

section
variable {F : Type}

/-- The authentication path held in two arrays. -/
def circuitPath (indices : Fin 24 → Bool) (siblings : Fin 24 → F) : List (Bool × F) :=
  List.ofFn fun i => (indices i, siblings i)

@[simp] theorem length_circuitPath (indices : Fin 24 → Bool) (siblings : Fin 24 → F) :
    (circuitPath indices siblings).length = 24 := by
  simp [circuitPath]

theorem binaryMerkleRoot_eq (node : F → F → F) (leaf : F) (indices : Fin 24 → Bool) (siblings : Fin 24 → F) :
    binaryMerkleRoot node leaf 24 indices siblings = foldPath node leaf (circuitPath indices siblings) := by
  have hfold : ∀ (is : List (Fin 24)) (x : F), is.foldl (fun n i => if i.val < 24 then
        let sibling := siblings i
        let (left, right) := if indices i then (sibling, n) else (n, sibling)
        node left right else n) x =
      foldPath node x (is.map fun i => (indices i, siblings i)) := by
    intro is
    induction is with
    | nil => intro x; rfl
    | cons i is ih =>
      intro x
      simp only [List.foldl_cons, i.isLt, if_true, List.map_cons, foldPath, ← ih]
      cases indices i <;> rfl
  rw [binaryMerkleRoot, hfold, circuitPath, List.ofFn_eq_map]

theorem circuitPath_bits {x : Nat} (hx : x < 2 ^ 24) {indices : Fin 24 → Bool}
    (siblings : Fin 24 → F) (h : ∀ i, indices i = ((x >>> i.val) &&& 1 == 1)) :
    ofBits ((circuitPath indices siblings).map (·.1)) = x := by
  have hmap : (circuitPath indices siblings).map (·.1) = List.ofFn indices :=
    Merkle.map_fst_arrayPath indices siblings
  rw [hmap, funext h, Merkle.ofBits_ofFn, Nat.mod_eq_of_lt hx]

/-- The arrays of the path that a tree holds above leaf `i`. -/
def pathIndicesOf (i : Nat) (j : Fin 24) : Bool := (i >>> j.val) &&& 1 == 1

def pathElementsOf (node : F → F → F) (f : Nat → F) (i : Nat) (j : Fin 24) : F :=
  Merkle.nodeAt node f j.val (Merkle.sibling (i >>> j.val))

theorem circuitPath_of (node : F → F → F) (f : Nat → F) (i : Nat) :
    circuitPath (pathIndicesOf i) (pathElementsOf node f i) = pathAt node f 0 24 i :=
  Merkle.arrayPath_pathAt node f 24 i

theorem circuitPath_inj {indices indices' : Fin 24 → Bool} {siblings siblings' : Fin 24 → F}
    (h : circuitPath indices siblings = circuitPath indices' siblings') :
    indices = indices' ∧ siblings = siblings' := by
  have hfun := congrFun (List.ofFn_injective h)
  exact ⟨funext fun i => congrArg Prod.fst (hfun i), funext fun i => congrArg Prod.snd (hfun i)⟩

theorem circuitPath_getD [Zero F] {p : List (Bool × F)} (h : p.length = 24) :
    circuitPath (fun l => (p.map (·.1.toNat)).getD l.val 0 != 0) (fun l => (p.map (·.2)).getD l.val 0) = p := by
  have hbit : ∀ b : Bool, (b.toNat != 0) = b := by decide
  apply List.ext_getElem
  · rw [length_circuitPath, h]
  · intro l h₁ h₂
    simp only [circuitPath, List.getElem_ofFn, List.getD_eq_getElem?_getD, List.getElem?_map,
      List.getElem?_eq_getElem h₂, Option.map_some, Option.getD_some, hbit]

/-- The arrays of a path of the engine are the path of its tree. -/
theorem circuitPath_pathFor [Scalar F] {P : Poseidon F} {t : IndexedMerkleTree F} (Ht : t.Inv P) (i : Nat) :
    circuitPath (fun l => (t.pathFor i).indices.getD l.val 0 != 0)
        (fun l => (t.pathFor i).siblings.getD l.val 0) =
      pathAt (hashMerkleNode P) (leafHash P t.leaves) 0 24 i := by
  have hpath : t.pathFrom 0 imtDepth i = _ := pathFrom_eq Ht.nodes (Nat.le_refl _)
  have hlen := @Merkle.length_pathAt _ (hashMerkleNode P) (leafHash P t.leaves) 0 24 i
  rw [pathFor, hpath, List.map_map, List.map_map]
  exact circuitPath_getD hlen

end

/-! ## What an accepted insertion says about a tree -/

section
variable {F : Type} [NoirField F] {P : Poseidon F}

/-- The checks of `verify_insert`, on authentication paths. -/
structure InsertChecks (P : Poseidon F) (value priorRoot newRoot : F) (n : Nat)
    (w : CircuitInsertWitness F) : Prop where
  room : n < 16777215
  lowLt : w.low.value < value
  ltNext : w.low.nextIndex ≠ 0 → value < w.low.nextValue
  lowIndexLt : w.low.leafIndex < 2 ^ 24
  lowBits : ∀ i, w.low.pathIndices i = pathIndicesOf w.low.leafIndex i
  lowNe : w.low.leafIndex ≠ n + 1
  newLowNext : w.newLowNextIndex = Scalar.ofNat (n + 1)
  newBits : ∀ i, w.newLeafPathIndices i = pathIndicesOf (n + 1) i
  lowOpens : foldPath (hashMerkleNode P) (hashImtLeaf P w.low.value w.low.nextIndex w.low.nextValue)
      (circuitPath w.low.pathIndices w.low.pathElements) = priorRoot
  slotEmpty : foldPath (hashMerkleNode P) (imtEmptyLeafHash P)
      (circuitPath w.newLeafPathIndices w.newLeafPathElements) =
    foldPath (hashMerkleNode P) (hashImtLeaf P w.low.value w.newLowNextIndex value)
      (circuitPath w.low.pathIndices w.low.pathElements)
  newOpens : foldPath (hashMerkleNode P) (hashImtLeaf P value w.low.nextIndex w.low.nextValue)
      (circuitPath w.newLeafPathIndices w.newLeafPathElements) = newRoot

theorem u32ToBits24_eq_ok {x : Nat} {bits : Fin 24 → Bool} :
    u32ToBits24 x = .ok bits ↔ x < 2 ^ 24 ∧ pathIndicesOf x = bits := by
  simp only [u32ToBits24, bind_eq_ok, require_eq_ok, pure_eq_ok, exists_const]
  rfl

theorem verifyNonMembership_eq_ok {value root : F} {low : ImtLowLeafWitness F} {u : Unit} :
    verifyNonMembership P value root low = .ok u ↔
      low.value < value ∧ (low.nextIndex ≠ 0 → value < low.nextValue) ∧
        foldPath (hashMerkleNode P) (hashImtLeaf P low.value low.nextIndex low.nextValue)
          (circuitPath low.pathIndices low.pathElements) = root := by
  by_cases h0 : low.nextIndex = 0 <;>
    simp [verifyNonMembership, assertCanonicalField, verifyMembershipDepth24, NoirField.canonical_eq,
      NoirField.ltField_iff, Scalar.lt_iff, binaryMerkleRoot_eq, h0]

theorem verifyInsert_eq_ok {value priorRoot newRoot : F} {n : Nat} {w : CircuitInsertWitness F} :
    verifyInsert P value priorRoot newRoot n w = .ok () ↔ InsertChecks P value priorRoot newRoot n w := by
  simp only [verifyInsert, bind_eq_ok, require_eq_ok, u32ToBits24_eq_ok, assertBitsEq24,
    computeRootDepth24, binaryMerkleRoot_eq, exists_const, verifyNonMembership_eq_ok]
  constructor
  · rintro ⟨room, ⟨lowLt, ltNext, lowOpens⟩, _, ⟨lowIndexLt, rfl⟩, lowBits, lowNe, newLowNext, _,
      ⟨-, rfl⟩, newBits, slotEmpty, newOpens⟩
    exact ⟨room, lowLt, ltNext, lowIndexLt, lowBits, lowNe, newLowNext, newBits, lowOpens, slotEmpty, newOpens⟩
  · intro H
    have hroom := H.room
    exact ⟨H.room, ⟨H.lowLt, H.ltNext, H.lowOpens⟩, _, ⟨H.lowIndexLt, rfl⟩, H.lowBits, H.lowNe,
      H.newLowNext, _, ⟨by omega, rfl⟩, H.newBits, H.slotEmpty, H.newOpens⟩

/-- The leaf hashes after the two writes of an insertion at position `n + 1` with low leaf `j`. -/
def insertedLeaves (P : Poseidon F) (f : Nat → F) (j n : Nat) (value nextIndex nextValue v : F) : Nat → F :=
  Function.update (Function.update f j (hashImtLeaf P value (Scalar.ofNat (n + 1)) v)) (n + 1)
    (hashImtLeaf P v nextIndex nextValue)

omit [NoirField F] in
/-- A path of the circuit that folds to the root of a tree is the tree's own path. -/
theorem circuitPath_sound (hinj : Function.Injective2 (hashMerkleNode P)) {f : Nat → F} {x : F}
    {indices : Fin 24 → Bool} {siblings : Fin 24 → F}
    (h : foldPath (hashMerkleNode P) x (circuitPath indices siblings) = imtNode P f 24 0) :
    x = f (ofBits ((circuitPath indices siblings).map (·.1))) ∧
      circuitPath indices siblings = pathAt (hashMerkleNode P) f 0 24
        (ofBits ((circuitPath indices siblings).map (·.1))) := by
  have hbits : (circuitPath indices siblings).map (·.1) = List.ofFn indices :=
    Merkle.map_fst_arrayPath indices siblings
  rw [hbits]
  exact Merkle.arrayPath_sound hinj h

omit [NoirField F] in
private theorem root_eq {f : Nat → F} {i : Nat} (hi : i < 2 ^ 24) (x : F) :
    foldPath (hashMerkleNode P) x (pathAt (hashMerkleNode P) f 0 24 i) =
      imtNode P (Function.update f i x) 24 0 := by
  rw [Merkle.foldPath_pathAt_update, Nat.div_eq_of_lt hi]

/-- An accepted witness opens the tree's own leaves: the low leaf at its index, the empty leaf at
the new position, and no other root comes out. -/
theorem InsertChecks.tree (hinj : Function.Injective2 (hashMerkleNode P)) {f : Nat → F}
    {v r2 : F} {n : Nat} {w : CircuitInsertWitness F} (H : InsertChecks P v (imtNode P f 24 0) r2 n w) :
    f w.low.leafIndex = hashImtLeaf P w.low.value w.low.nextIndex w.low.nextValue ∧
      f (n + 1) = imtEmptyLeafHash P ∧
      r2 = imtNode P (insertedLeaves P f w.low.leafIndex n w.low.value w.low.nextIndex
        w.low.nextValue v) 24 0 := by
  have hroom := H.room
  have hlowBits := circuitPath_bits H.lowIndexLt w.low.pathElements H.lowBits
  have hnewBits := circuitPath_bits (by omega) w.newLeafPathElements H.newBits
  obtain ⟨hlow, hlowPath⟩ := circuitPath_sound hinj H.lowOpens
  rw [hlowBits] at hlow hlowPath
  -- the low-leaf path, read from the tree, gives the intermediate tree
  have hmid := H.slotEmpty
  rw [hlowPath, root_eq H.lowIndexLt, H.newLowNext] at hmid
  obtain ⟨hslot, hnewPath⟩ := circuitPath_sound hinj hmid
  rw [hnewBits] at hslot hnewPath
  refine ⟨hlow.symm, ?_, ?_⟩
  · rw [hslot, Function.update_of_ne H.lowNe.symm]
  · rw [← H.newOpens, hnewPath, root_eq (by omega)]
    rfl

/-- The witness that reads its paths from the tree. -/
def insertWitnessOf (P : Poseidon F) (f : Nat → F) (j n : Nat) (value nextIndex nextValue v : F) :
    CircuitInsertWitness F where
  low := ⟨j, value, nextIndex, nextValue, pathIndicesOf j, pathElementsOf (hashMerkleNode P) f j⟩
  newLowNextIndex := Scalar.ofNat (n + 1)
  newLeafPathIndices := pathIndicesOf (n + 1)
  newLeafPathElements := pathElementsOf (hashMerkleNode P)
    (Function.update f j (hashImtLeaf P value (Scalar.ofNat (n + 1)) v)) (n + 1)

/-- It is accepted whenever the leaf at `j` has a gap for the value and the new position is empty,
whether or not position `j` was ever written. -/
theorem insertWitnessOf_checks {f : Nat → F} {j n : Nat} {value nextIndex nextValue v : F}
    (hn : n < 16777215) (hj : j < 2 ^ 24) (hne : j ≠ n + 1)
    (hlow : f j = hashImtLeaf P value nextIndex nextValue)
    (hslot : f (n + 1) = imtEmptyLeafHash P) (hlt : value < v) (hnext : nextIndex ≠ 0 → v < nextValue) :
    InsertChecks P v (imtNode P f 24 0) (imtNode P (insertedLeaves P f j n value nextIndex nextValue v) 24 0) n
      (insertWitnessOf P f j n value nextIndex nextValue v) where
  room := hn
  lowLt := hlt
  ltNext := hnext
  lowIndexLt := hj
  lowBits _ := rfl
  lowNe := hne
  newLowNext := rfl
  newBits _ := rfl
  lowOpens := by
    simp only [insertWitnessOf, circuitPath_of]
    rw [← hlow, root_eq hj, Function.update_eq_self]
  slotEmpty := by
    simp only [insertWitnessOf, circuitPath_of]
    have hslot' : imtEmptyLeafHash P = Function.update f j
        (hashImtLeaf P value (Scalar.ofNat (n + 1)) v) (n + 1) := by
      rw [Function.update_of_ne hne.symm, hslot]
    rw [root_eq hj, root_eq (by omega), hslot', Function.update_eq_self]
  newOpens := by
    simp only [insertWitnessOf, circuitPath_of]
    rw [root_eq (by omega)]
    rfl

end

/-! ## Soundness over reachable trees -/

section
variable {F : Type} [NoirField F] {P : Poseidon F} {t : IndexedMerkleTree F} {vs : List F}

open IndexedList (values)

theorem leafHash_splice {leaves : List (InternalLeaf F)} {i : Nat} {low : InternalLeaf F} (v : F)
    (hi : leaves[i]? = some low) {n : Nat} (hn : leaves.length = n + 1) :
    leafHash P (IndexedList.splice leaves i low v) =
      insertedLeaves P (leafHash P leaves) i n low.value (Scalar.ofNat low.nextIndex) low.nextValue v := by
  obtain ⟨hlt, -⟩ := List.getElem?_eq_some_iff.mp hi
  rw [IndexedList.splice, leafHash_append, leafHash_set _ hlt, List.length_set, hn]
  rfl

/-- A tree reached by inserting `vs` holds `vs` after the sentinel. -/
theorem IndexedMerkleTree.reachable (ht : (IndexedMerkleTree.new P).insertAll P vs = .ok t) :
    t.Inv P ∧ values t.leaves = 0 :: vs ∧ t.leaves.length = vs.length + 1 := by
  obtain ⟨H, hval⟩ := insertAll_ok new_inv ht
  have hval' : values t.leaves = 0 :: vs := by
    rw [hval, new_leaves]
    rfl
  refine ⟨H, hval', ?_⟩
  have hlen := congrArg List.length hval'
  simpa [values] using hlen

/-- The circuit accepts any nonzero value, stored or not, against the empty leaf of an unused
position. -/
theorem verifyInsert_unused (ht : (IndexedMerkleTree.new P).insertAll P vs = .ok t) {v : F}
    (hv : v ≠ 0) {j : Nat} (hused : vs.length + 1 < j) (hj : j < 2 ^ 24) : verifyInsert P v t.root
      (imtNode P (insertedLeaves P (leafHash P t.leaves) j vs.length 0 0 0 v) 24 0) vs.length
      (insertWitnessOf P (leafHash P t.leaves) j vs.length 0 0 0 v) = .ok () := by
  obtain ⟨H, -, hlen⟩ := reachable ht
  have hempty : ∀ i, vs.length < i → leafHash P t.leaves i = imtEmptyLeafHash P :=
    fun i hi => leafHash_of_ge (by omega)
  rw [verifyInsert_eq_ok, H.root_eq]
  exact insertWitnessOf_checks (by omega) hj (by omega) (hempty j (by omega))
    (hempty _ (by omega)) (Scalar.pos_iff.mpr hv) (fun h => absurd rfl h)

/-- The honest low leaf is accepted too. -/
theorem verifyInsert_honest (H : t.Inv P) {v : F} {w : ImtInsertWitness F}
    {t' : IndexedMerkleTree F} (h : t.insert P v = .ok (w, t')) {n : Nat} (hn : t.size = n + 1) :
    verifyInsert P v t.root t'.root n
      (insertWitnessOf P (leafHash P t.leaves) w.lowLeafIndex n w.lowLeafBefore.value
        (Scalar.ofNat w.lowLeafBefore.nextIndex) w.lowLeafBefore.nextValue v) = .ok () := by
  obtain ⟨hcap, i, low, hi, hgap, H', hleaves, rfl⟩ := insert_ok H h
  obtain ⟨hlt, -⟩ := List.getElem?_eq_some_iff.mp hi
  have hmem := List.mem_of_getElem? hi
  have hsize : t.leaves.length = n + 1 := hn
  rw [verifyInsert_eq_ok, H.root_eq, H'.root_eq, hleaves, leafHash_splice v hi hsize]
  simp only [imtDepth] at hcap
  refine insertWitnessOf_checks (by omega) (by omega) (by omega) (by simp [leafHash, hi]; rfl)
    (leafHash_of_ge (by omega)) hgap.1 fun h0 => hgap.2.resolve_right fun hz => h0 ?_
  rw [(H.linked.nextIndex_eq_zero hmem).mpr hz]
  rfl

/-- An accepted insertion is the insertion of a new value into the tree exactly when the opened low
leaf sits at a position that was written. -/
theorem verifyInsert_sound_iff (hP : TreeIdeal P)
    (ht : (IndexedMerkleTree.new P).insertAll P vs = .ok t) {v r2 : F}
    {w : CircuitInsertWitness F} (hacc : verifyInsert P v t.root r2 vs.length w = .ok ()) :
    (v ∉ vs ∧ ∃ w' t', t.insert P v = .ok (w', t') ∧ t'.root = r2) ↔ w.low.leafIndex ≤ vs.length := by
  obtain ⟨H, hval, hlen⟩ := reachable ht
  have hchk := verifyInsert_eq_ok.mp hacc
  rw [H.root_eq] at hchk
  obtain ⟨hlow, -, hr2⟩ := hchk.tree hP.node_inj
  have hroom := hchk.room
  constructor
  · rintro ⟨-, w', t', hins, rfl⟩
    by_contra hused
    -- the honest tree leaves position `j` empty, the circuit writes a leaf there
    obtain ⟨-, i, low, hi, -, H', hleaves, -⟩ := insert_ok H hins
    rw [H'.root_eq, hleaves] at hr2
    have hj := Merkle.nodeAt_inj hP.node_inj hr2 (j := w.low.leafIndex) (Nat.div_eq_of_lt hchk.lowIndexLt)
    have hne := hchk.lowNe
    rw [leafHash_of_ge (by rw [IndexedList.length_splice]; omega), insertedLeaves,
      Function.update_of_ne hne, Function.update_self] at hj
    obtain ⟨-, -, hv⟩ := hP.imtLeaf_inj hj
    exact absurd (hv ▸ hchk.lowLt) (not_lt.mpr (Scalar.zero_le _))
  · intro hused
    obtain ⟨c, hc⟩ : ∃ c, t.leaves[w.low.leafIndex]? = some c :=
      ⟨_, List.getElem?_eq_getElem (by omega)⟩
    have hmem := List.mem_of_getElem? hc
    have hbound := H.linked.nextIndex_lt hmem
    obtain ⟨hcv, hci, hcn⟩ := hP.imtLeaf_inj (by simpa [leafHash, hc, InternalLeaf.hash] using hlow)
    have hgap : c.Low 0 v := by
      refine ⟨hcv ▸ hchk.lowLt, ?_⟩
      by_cases h0 : c.nextIndex = 0
      · exact .inr ((H.linked.nextIndex_eq_zero hmem).mp h0)
      · refine .inl (hcn ▸ hchk.ltNext fun hz => h0 ?_)
        exact Scalar.ofNat_inj (F := F) (by omega) (by omega) (hci.trans hz)
    have hnew := H.linked.not_mem_of_low hmem hgap
    obtain ⟨⟨w', t'⟩, hins⟩ := (exists_insert_iff H).mpr ⟨by simp only [imtDepth]; omega, hnew⟩
    obtain ⟨-, i, low, hi, hgap', H', hleaves, -⟩ := insert_ok H hins
    obtain rfl := H.linked.low_unique hi hc hgap' hgap
    obtain rfl := Option.some.inj (hi.symm.trans hc)
    rw [hval, List.mem_cons, not_or] at hnew
    refine ⟨hnew.2, w', t', hins, ?_⟩
    rw [H'.root_eq, hleaves, leafHash_splice v hi hlen, hr2, hcv, hci, hcn]
    rfl

end

/-! Over the collision-free hash, a tree that holds `1` accepts `1` again through position `3`. -/

private theorem exists_tree_one : ∃ t,
    (IndexedMerkleTree.new idealPoseidon).insertAll idealPoseidon [Unbounded.mk 1] = .ok t := by
  refine (IndexedMerkleTree.exists_insertAll_iff IndexedMerkleTree.new_inv).mpr ⟨?_, by simp, ?_⟩
  · rw [IndexedMerkleTree.new_leaves]
    decide
  · rw [IndexedMerkleTree.new_leaves]
    decide

theorem verifyInsert_duplicate_accepted :
    ∃ t, (IndexedMerkleTree.new idealPoseidon).insertAll idealPoseidon [Unbounded.mk 1] = .ok t ∧
      ∃ r2 w, verifyInsert idealPoseidon (Unbounded.mk 1) t.root r2 1 w = .ok () ∧
        w.low.leafIndex = 3 ∧ Unbounded.mk 1 ∈ [Unbounded.mk 1] := by
  obtain ⟨t, ht⟩ := exists_tree_one
  have hacc := verifyInsert_unused ht (v := Unbounded.mk 1) (by decide) (j := 3) (by decide)
    (by decide)
  exact ⟨t, ht, _, _, hacc, rfl, by simp⟩

theorem verifyInsert_sound_two :
    ∃ t r2 w, (IndexedMerkleTree.new idealPoseidon).insertAll idealPoseidon [Unbounded.mk 1] = .ok t ∧
      verifyInsert idealPoseidon (Unbounded.mk 2) t.root r2 1 w = .ok () ∧ ((Unbounded.mk 2 ∉ [Unbounded.mk 1] ∧
        ∃ w' t', t.insert idealPoseidon (Unbounded.mk 2) = .ok (w', t') ∧ t'.root = r2) ↔
        w.low.leafIndex ≤ 1) ∧ w.low.leafIndex ≤ 1 := by
  obtain ⟨t, ht⟩ := exists_tree_one
  obtain ⟨H, hval, hlen⟩ := reachable ht
  obtain ⟨⟨w, t'⟩, hins⟩ := (exists_insert_iff H (v := Unbounded.mk 2)).mpr
    ⟨by rw [hlen]; decide, by rw [hval]; decide⟩
  have hacc := verifyInsert_honest H hins (n := 1) hlen
  have hiff := verifyInsert_sound_iff idealPoseidon_leafIdeal.toTreeIdeal ht hacc
  refine ⟨t, _, _, ht, hacc, hiff, ?_⟩
  obtain ⟨-, i, low, hi, -, -, -, rfl⟩ := insert_ok H hins
  have hlt := (List.getElem?_eq_some_iff.mp hi).1
  rw [hlen] at hlt
  exact Nat.le_of_lt_succ hlt

end Pocs.Civic
