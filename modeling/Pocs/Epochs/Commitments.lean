import Pocs.Lib.LeanRoot
import Pocs.Compliance.Gadgets

/-! # The commitment tree off chain

`merkle_tree.rs` and `domain/merkle.rs` over the `lean-imt` crate, whose proofs leave out the levels on which
a node is promoted and keep the bits of the others in one number. -/

namespace Pocs.Epochs

open Compliance (BnField MerklePath)

/-- What the crate's tree offers: its root, and the siblings and the compacted index of a leaf. -/
structure HashedLeanImt (F T : Type) where
  new : T
  insert : T → F → T
  size : T → Nat
  root : T → Option F
  generateProof : T → (leafIndex : Nat) → Option (List F × Nat)
  leaves : T → List F

/-- Leaves hashed level by level. -/
structure HashedLeanImt.Lawful {F T : Type} (L : HashedLeanImt F T) (node : F → F → F) : Prop where
  leaves_new : L.leaves L.new = []
  leaves_insert : ∀ t leaf, L.leaves (L.insert t leaf) = L.leaves t ++ [leaf]
  size : ∀ t, L.size t = (L.leaves t).length
  root : ∀ t, L.root t = Merkle.leanRoot node (L.leaves t)
  generateProof : ∀ t i, L.generateProof t i = if i < (L.leaves t).length then
      let p := Merkle.promotedPath node (L.leaves t).length (L.leaves t) i
      some (p.map (·.2), Merkle.ofBits (p.map (·.1)))
    else none

/-- The crate's tree by the list of its leaves. -/
def listLeanImt {F : Type} (node : F → F → F) : HashedLeanImt F (List F) where
  new := []
  insert leaves leaf := leaves ++ [leaf]
  size := List.length
  root := Merkle.leanRoot node
  generateProof leaves i :=
    if i < leaves.length then
      let p := Merkle.promotedPath node leaves.length leaves i
      some (p.map (·.2), Merkle.ofBits (p.map (·.1)))
    else none
  leaves := id

theorem listLeanImt_lawful {F : Type} {node : F → F → F} : (listLeanImt node).Lawful node :=
  ⟨rfl, fun _ _ => rfl, fun _ => rfl, fun _ => rfl, fun _ _ => rfl⟩

/-- `decode_path`, least significant bit first. -/
def decodePath (index pathLen : Nat) : List Nat := (List.range pathLen).map fun i => (index >>> i) &&& 1

structure CommitmentMerkleProof (F : Type) where
  path : List F
  indices : List Nat
  leafIndex : Nat
  proofLength : Nat

def CommitmentMerkleProof.new {F : Type} (path : List F) (indices : List Nat) (leafIndex : Nat) :
    CommitmentMerkleProof F where
  path
  indices
  leafIndex
  proofLength := path.length

section
variable {F T : Type}

def HashedLeanImt.generateCommitmentProof (L : HashedLeanImt F T) (t : T) (leafIndex : Nat) :
    Option (CommitmentMerkleProof F) := do
  let (siblings, index) ← L.generateProof t leafIndex
  some (.new siblings (decodePath index siblings.length) leafIndex)

/-- The steps of a proof, with `bit == 0` for a left child. -/
def CommitmentMerkleProof.steps (p : CommitmentMerkleProof F) : List (Bool × F) :=
  (p.indices.map fun bit => decide (bit ≠ 0)).zip p.path

def CommitmentMerkleProof.reconstructRoot (node : F → F → F) (p : CommitmentMerkleProof F) (leaf : F) : F :=
  (p.path.zip p.indices).foldl (fun acc step =>
    if step.2 = 0 then node acc step.1 else node step.1 acc) leaf

/-- The arrays of a circuit of the given depth, filled up with zeros. -/
def CommitmentMerkleProof.toArrays [BnField F] (p : CommitmentMerkleProof F) (maxDepth : Nat) :
    MerklePath F maxDepth :=
  MerklePath.ofList p.steps

variable {L : HashedLeanImt F T} {node : F → F → F} {t : T} {i : Nat} {p : CommitmentMerkleProof F}

theorem decodePath_eq (bs : List Bool) :
    decodePath (Merkle.ofBits bs) bs.length = bs.map fun b => if b then 1 else 0 := by
  apply List.ext_getElem?
  intro k
  rw [decodePath, List.getElem?_map, List.getElem?_map]
  rcases Nat.lt_or_ge k bs.length with hk | hk
  · have hbit := Merkle.ofBits_bit (List.getElem?_eq_getElem hk)
    rw [List.getElem?_range hk, List.getElem?_eq_getElem hk, Option.map_some, Option.map_some,
      Nat.and_one_is_mod, Nat.shiftRight_eq_div_pow, hbit]
    cases bs[k] <;> rfl
  · rw [List.getElem?_eq_none hk, List.getElem?_eq_none (by rwa [List.length_range])]
    rfl

theorem HashedLeanImt.Lawful.generateCommitmentProof (hL : L.Lawful node) (hi : i < (L.leaves t).length)
    {steps : List (Bool × F)} (hsteps : Merkle.promotedPath node (L.leaves t).length (L.leaves t) i = steps) :
    L.generateCommitmentProof t i =
      some (.new (steps.map (·.2)) (steps.map fun step => if step.1 then 1 else 0) i) := by
  have hdecode := decodePath_eq (steps.map (·.1))
  rw [List.length_map, List.map_map] at hdecode
  rw [HashedLeanImt.generateCommitmentProof, hL.generateProof, if_pos hi, hsteps]
  show some (CommitmentMerkleProof.new _ (decodePath _ (steps.map (·.2)).length) i) = _
  rw [List.length_map, hdecode]
  rfl

/-- The steps of a proof are the path of its leaf. -/
theorem HashedLeanImt.Lawful.steps (hL : L.Lawful node) (h : L.generateCommitmentProof t i = some p) :
    i < (L.leaves t).length ∧ p.steps = Merkle.promotedPath node (L.leaves t).length (L.leaves t) i ∧
      p.proofLength = p.steps.length := by
  have hi : i < (L.leaves t).length := by
    rw [HashedLeanImt.generateCommitmentProof, hL.generateProof] at h
    split at h
    · assumption
    · cases h
  generalize hq : Merkle.promotedPath node (L.leaves t).length (L.leaves t) i = q
  rw [hL.generateCommitmentProof hi hq] at h
  cases h
  have hsteps : (CommitmentMerkleProof.new (q.map (·.2)) (q.map fun step => if step.1 then 1 else 0) i).steps = q := by
    have hbits : (q.map fun step => if step.1 then 1 else 0).map (fun bit => decide (bit ≠ 0)) = q.map (·.1) := by
      rw [List.map_map]
      exact List.map_congr_left fun step _ => by cases h : step.1 <;> simp [h]
    rw [CommitmentMerkleProof.steps, CommitmentMerkleProof.new, hbits]
    exact (List.zip_of_prod rfl rfl).symm
  refine ⟨hi, hsteps, ?_⟩
  rw [hsteps]
  exact List.length_map _

theorem HashedLeanImt.Lawful.exists_proof (hL : L.Lawful node) (hi : i < (L.leaves t).length) :
    ∃ p, L.generateCommitmentProof t i = some p :=
  ⟨_, hL.generateCommitmentProof hi rfl⟩

theorem CommitmentMerkleProof.reconstructRoot_eq (p : CommitmentMerkleProof F) (leaf : F) :
    p.reconstructRoot node leaf = Merkle.foldPath node leaf p.steps := by
  obtain ⟨path, indices, _, _⟩ := p
  rw [reconstructRoot, steps]
  induction path generalizing leaf indices with
  | nil => simp [Merkle.foldPath]
  | cons s path ih =>
    cases indices with
    | nil => rfl
    | cons bit indices =>
      rw [List.zip_cons_cons, List.foldl_cons, ih, List.map_cons, List.zip_cons_cons, Merkle.foldPath]
      by_cases hbit : bit = 0
      · simp [hbit, Merkle.combine]
      · simp [hbit, Merkle.combine]

/-- A proof leads from its leaf to the root. -/
theorem HashedLeanImt.Lawful.reconstructRoot (hL : L.Lawful node)
    (h : L.generateCommitmentProof t i = some p) {leaf : F} (hleaf : (L.leaves t)[i]? = some leaf) :
    L.root t = some (p.reconstructRoot node leaf) := by
  obtain ⟨hi, hsteps, -⟩ := hL.steps h
  have hfold := @Merkle.foldPath_promotedPath _ node (L.leaves t).length _ _ _ hleaf
  rw [Nat.div_eq_of_lt (hi.trans Nat.lt_two_pow_self)] at hfold
  rw [hL.root, Merkle.leanRoot, hfold, p.reconstructRoot_eq, hsteps]

end

end Pocs.Epochs
