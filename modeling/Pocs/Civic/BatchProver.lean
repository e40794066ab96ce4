import Pocs.Civic.ImtCircuit
import Pocs.Civic.Types

/-! # The insertion witnesses handed to the batch circuit

`generate_batch_proof` of `bb_prover.rs` pads the paths of an insertion witness to the circuit's
arrays. The engine reads one path before its two writes and the other after them; the circuit folds
both through a tree between the writes. `insertInput_accepted` says that they meet. -/

namespace Pocs.Civic

open IndexedMerkleTree

section
variable {F : Type} [NoirField F]

def imtPathLen : Nat := 24

def padBoolTo (arr : List Nat) (n : Nat) : Except ProofError (List Bool) := do
  let len := arr.length
  failIf (arr.length > n) (.witnessSerialization s!"pad_bool_to: input length {len} exceeds cap {n}")
  pure (arr.map (· != 0) ++ List.replicate (n - arr.length) false)

def imtPathIndicesBool (p : ImtPath F) : Except ProofError (List Bool) :=
  padBoolTo p.indices imtPathLen

def imtPathElements (p : ImtPath F) : Except ProofError (List F) := do
  let len := p.siblings.length
  failIf (p.siblings.length > imtPathLen)
    (.witnessSerialization s!"imt_path_elements: {len} siblings exceeds depth {imtPathLen}")
  pure (p.siblings ++ List.replicate (imtPathLen - p.siblings.length) 0)

/-- The circuit's view of an insertion witness: what `generate_batch_proof` writes for one tree at
one position. -/
def insertInput (w : ImtInsertWitness F) : Except ProofError (CircuitInsertWitness F) := do
  let lowIndices ← imtPathIndicesBool w.lowLeafPath
  let lowElements ← imtPathElements w.lowLeafPath
  let newIndices ← imtPathIndicesBool w.newLeafPath
  let newElements ← imtPathElements w.newLeafPath
  pure {
    low := {
      leafIndex := w.lowLeafIndex
      value := w.lowLeafBefore.value
      nextIndex := Scalar.ofNat w.lowLeafBefore.nextIndex
      nextValue := w.lowLeafBefore.nextValue
      pathIndices := fun l => lowIndices.getD l.val false
      pathElements := fun l => lowElements.getD l.val 0 }
    newLowNextIndex := Scalar.ofNat w.newLeafIndex
    newLeafPathIndices := fun l => newIndices.getD l.val false
    newLeafPathElements := fun l => newElements.getD l.val 0 }

end

/-! ## Paths of the engine -/

section
variable {F : Type} [NoirField F] {P : Poseidon F} {t t' : IndexedMerkleTree F}

omit [NoirField F] in
theorem IndexedMerkleTree.length_pathFrom (t : IndexedMerkleTree F) (level n idx : Nat) :
    (t.pathFrom level n idx).length = n := by
  induction n generalizing level idx with
  | zero => rfl
  | succ n ih => simp [pathFrom, ih]

omit [NoirField F] in
/-- A path of the engine has the circuit's length and is not padded. -/
theorem imtPathIndicesBool_pathFor (i : Nat) :
    imtPathIndicesBool (t.pathFor i) = .ok ((t.pathFor i).indices.map (· != 0)) := by
  have hlen : (t.pathFor i).indices.length = imtPathLen := by
    simp [pathFor, length_pathFrom, imtPathLen, imtDepth]
  simp [imtPathIndicesBool, padBoolTo, failIf, hlen]

theorem imtPathElements_pathFor (i : Nat) : imtPathElements (t.pathFor i) = .ok (t.pathFor i).siblings := by
  have hlen : (t.pathFor i).siblings.length = imtPathLen := by
    simp [pathFor, length_pathFrom, imtPathLen, imtDepth]
  simp [imtPathElements, failIf, hlen]

theorem pathFor_arrays (Ht : t.Inv P) {f : Nat → F} {i : Nat}
    (hf : Merkle.pathAt (hashMerkleNode P) (leafHash P t.leaves) 0 24 i =
      Merkle.pathAt (hashMerkleNode P) f 0 24 i) :
    (fun l : Fin 24 => ((t.pathFor i).indices.map (· != 0)).getD l.val false) = pathIndicesOf i ∧
      (fun l : Fin 24 => (t.pathFor i).siblings.getD l.val 0) = pathElementsOf (hashMerkleNode P) f i := by
  have hpath := (circuitPath_pathFor Ht i).trans (hf.trans (circuitPath_of (hashMerkleNode P) f i).symm)
  obtain ⟨hindices, hsiblings⟩ := circuitPath_inj hpath
  refine ⟨?_, hsiblings⟩
  rw [← hindices]
  funext l
  exact List.getD_map _ 0 _

/-- The prover's input for an insertion of the engine is the witness read from the tree before the
insertion and from the tree between its two writes. -/
theorem insertInput_insert (H : t.Inv P) {v : F} {w : ImtInsertWitness F}
    (h : t.insert P v = .ok (w, t')) {n : Nat} (hn : t.size = n + 1) :
    insertInput w = .ok (insertWitnessOf P (leafHash P t.leaves) w.lowLeafIndex n
      w.lowLeafBefore.value (Scalar.ofNat w.lowLeafBefore.nextIndex) w.lowLeafBefore.nextValue v) := by
  obtain ⟨-, i, low, hi, -, H', hleaves, rfl⟩ := insert_ok H h
  obtain ⟨hlowIndices, hlowElements⟩ := pathFor_arrays (i := i) H rfl
  -- the new leaf is not on its own path, so that the last write does not show there
  have hnew : Merkle.pathAt (hashMerkleNode P) (leafHash P t'.leaves) 0 24 (n + 1) =
      Merkle.pathAt (hashMerkleNode P) (Function.update (leafHash P t.leaves) i
        (hashImtLeaf P low.value (Scalar.ofNat (n + 1)) v)) 0 24 (n + 1) := by
    rw [hleaves, leafHash_splice v hi hn, insertedLeaves]
    simpa using @Merkle.pathAt_update _ (hashMerkleNode P) (Function.update (leafHash P t.leaves) i
      (hashImtLeaf P low.value (Scalar.ofNat (n + 1)) v))
      (hashImtLeaf P v (Scalar.ofNat low.nextIndex) low.nextValue) 0 24 (n + 1)
  obtain ⟨hnewIndices, hnewElements⟩ := pathFor_arrays H' hnew
  simp only [insertInput, imtPathIndicesBool_pathFor, imtPathElements_pathFor, ok_bind, hn,
    hlowIndices, hlowElements, hnewIndices, hnewElements]
  rfl

/-- The witness of every insertion that the engine can make is accepted by the circuit. -/
theorem insertInput_accepted {vs : List F}
    (ht : (IndexedMerkleTree.new P).insertAll P vs = .ok t) {v : F} (hzero : v ≠ 0) (hnew : v ∉ vs)
    (hroom : t.size < 2 ^ 24) :
    ∃ w t' input, t.insert P v = .ok (w, t') ∧ w.newRoot = t'.root ∧ insertInput w = .ok input ∧
      verifyInsert P v t.root w.newRoot (t.size - 1) input = .ok () := by
  obtain ⟨H, hval, hlen⟩ := reachable ht
  have habsent : v ∉ IndexedList.values t.leaves := by
    rw [hval, List.mem_cons, not_or]
    exact ⟨hzero, hnew⟩
  obtain ⟨⟨w, t'⟩, h⟩ := (IndexedMerkleTree.exists_insert_iff H).mpr ⟨hroom, habsent⟩
  have hroot : w.newRoot = t'.root := by
    obtain ⟨-, i, low, -, -, -, -, rfl⟩ := insert_ok H h
    rfl
  have hsize : t.size - 1 = vs.length := by
    rw [IndexedMerkleTree.size, hlen]
    rfl
  refine ⟨w, t', _, h, hroot, insertInput_insert H h hlen, ?_⟩
  rw [hroot, hsize]
  exact verifyInsert_honest H h hlen

/-- Between two stored values. -/
theorem insertInput_accepted_between : ∃ t w t' input,
    (IndexedMerkleTree.new idealPoseidon).insertAll idealPoseidon [Unbounded.mk 7, Unbounded.mk 3] = .ok t ∧
    t.insert idealPoseidon (Unbounded.mk 5) = .ok (w, t') ∧ w.newRoot = t'.root ∧ insertInput w = .ok input ∧
    verifyInsert idealPoseidon (Unbounded.mk 5) t.root w.newRoot (t.size - 1) input = .ok () := by
  obtain ⟨t, ht⟩ : ∃ t, (IndexedMerkleTree.new idealPoseidon).insertAll idealPoseidon
      [Unbounded.mk 7, Unbounded.mk 3] = .ok t := by
    rw [IndexedMerkleTree.exists_insertAll_iff new_inv, new_leaves]
    exact ⟨by decide, by decide, by decide⟩
  obtain ⟨w, t', input, h⟩ := @insertInput_accepted _ _ _ _ _ ht (Unbounded.mk 5) (by decide) (by decide) (by
    rw [IndexedMerkleTree.size, (reachable ht).2.2]
    decide)
  exact ⟨t, w, t', input, ht, h⟩

end

end Pocs.Civic
