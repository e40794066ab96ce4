import Pocs.Compliance.Attestations

/-! # The revocation tree of the client

`adapters/revocation_tree.rs`, which mirrors `AttesterRevocationTree.sol`. The two trees keep their
attesters in the same slots (`Mirrors`), so every operation succeeds on both or fails on both and they
agree on the members, their epochs and the root. -/

namespace Pocs.Compliance.Adapters

open Compliance.RevocationTree

inductive Side where
  | left
  | right
  deriving DecidableEq, Repr

structure PathStep (F : Type) where
  sibling : F
  side : Side

def PathStep.toPair {F : Type} (step : PathStep F) : Bool × F := (step.side = .right, step.sibling)

def foldSteps {F : Type} (hash : List F → F) (leaf : F) (path : List (PathStep F)) : F :=
  path.foldl (fun node step =>
    match step.side with
    | .left => hash [node, step.sibling]
    | .right => hash [step.sibling, node]) leaf

/-! ## The tree -/

inductive MerkleError where
  | attesterAlreadyExists (attester : Address)
  | revocationTreeFull
  | attesterNotFound (attester : Address)
  deriving DecidableEq, Repr

structure RevocationTree where
  attesters : List (Address × UInt64)
  revocationFloor : Address → Option UInt64

namespace RevocationTree
variable {F : Type} [BnField F]

def new : RevocationTree := ⟨[], fun _ => none⟩

def leafAt (hash : List F → F) (attesters : List (Address × UInt64)) (i : Nat) : F :=
  match attesters[i]? with
  | some (attester, revokedAt) => hash [ofAddress attester, ofU64 revokedAt]
  | none => hash [0, 0]

/-- `compute_root`, with the loops of `_computeRoot`. -/
def computeRoot (hash : List F → F) (attesters : List (Address × UInt64)) : F :=
  hashLevels hash Compliance.RevocationTree.depth (leafAt hash attesters) 0

/-- The `while` loop of `compute_proof` from `level_size = 2 ^ d`. -/
def proofSteps (hash : List F → F) : Nat → (Nat → F) → Nat → List (PathStep F)
  | 0, _, _ => []
  | d + 1, nodes, index =>
    ⟨nodes (index ^^^ 1), if index % 2 = 0 then .left else .right⟩ ::
      proofSteps hash d (hashLevel hash (2 ^ d) nodes) (index / 2)

def computeProof (hash : List F → F) (attesters : List (Address × UInt64)) (leafIndex : Nat) :
    List (PathStep F) :=
  proofSteps hash Compliance.RevocationTree.depth (leafAt hash attesters) leafIndex

variable (hash : List F → F) (self : RevocationTree)

def positionOf (attester : Address) : Except MerkleError Nat :=
  okOr (self.attesters.findIdx? fun p => p.1 == attester) (.attesterNotFound attester)

def root : F := computeRoot hash self.attesters

def contains (attester : Address) : Bool := self.attesters.any fun p => p.1 == attester

def revokedAtEpochOf (attester : Address) : Except MerkleError UInt64 := do
  let pos ← self.positionOf attester
  okOr (self.attesters[pos]?.map (·.2)) (.attesterNotFound attester)

def proof (attester : Address) : Except MerkleError (List (PathStep F)) := do
  let pos ← self.positionOf attester
  pure (computeProof hash self.attesters pos)

def addAttester (attester : Address) : Except MerkleError (RevocationTree × F) := do
  failIf (self.contains attester = true) (.attesterAlreadyExists attester)
  failIf (Compliance.RevocationTree.capacity ≤ self.attesters.length) .revocationTreeFull
  let floor := (self.revocationFloor attester).getD 0
  let revokedAt := if floor = 0 then uint64Max else floor
  let self := { self with attesters := self.attesters ++ [(attester, revokedAt)] }
  pure (self, self.root hash)

def swapRemove {α : Type} (xs : List α) (i : Nat) : List α :=
  match xs.getLast? with
  | some last => (xs.set i last).dropLast
  | none => xs

def removeAttester (attester : Address) : Except MerkleError (RevocationTree × F) := do
  let pos ← self.positionOf attester
  let self := { self with attesters := swapRemove self.attesters pos }
  pure (self, self.root hash)

def lowerRevocation (attester : Address) (revokedAtEpoch : UInt64) :
    Except MerkleError (RevocationTree × F) := do
  let pos ← self.positionOf attester
  let self := { self with
    attesters := self.attesters.modify pos fun p => (p.1, revokedAtEpoch)
    revocationFloor := Function.update self.revocationFloor attester (some revokedAtEpoch) }
  pure (self, self.root hash)

end RevocationTree

open RevocationTree

/-! ## One operation on both trees -/

/-- What both trees are told. -/
inductive RevocationOp where
  | add (attester : Address)
  | remove (attester : Address)
  | lower (attester : Address) (revokedAtEpoch : UInt64)

section
variable {F : Type} [BnField F] (hash : List F → F)

/-- The operation on `AttesterRevocationTree.sol`. -/
def RevocationOp.onContract (tree : Compliance.RevocationTree F) :
    RevocationOp → Except RegistryRevert (Compliance.RevocationTree F)
  | .add attester => tree.insert hash attester
  | .remove attester => tree.remove hash attester
  | .lower attester revokedAtEpoch => tree.lower hash attester revokedAtEpoch

def RevocationOp.onMirror (tree : RevocationTree) : RevocationOp → Except MerkleError (RevocationTree × F)
  | .add attester => tree.addAttester hash attester
  | .remove attester => tree.removeAttester hash attester
  | .lower attester revokedAtEpoch => tree.lowerRevocation hash attester revokedAtEpoch

/-- A revert leaves the storage as it was. -/
def contractAfter (tree : Compliance.RevocationTree F) (op : RevocationOp) : Compliance.RevocationTree F :=
  match op.onContract hash tree with
  | .ok tree' => tree'
  | .error _ => tree

/-- An error leaves the client's tree as it was. -/
def mirrorAfter (tree : RevocationTree) (op : RevocationOp) : RevocationTree :=
  match op.onMirror hash tree with
  | .ok (tree', _) => tree'
  | .error _ => tree

end

section
variable {F : Type} {hash : List F → F}

theorem foldSteps_eq_foldPath (leaf : F) (path : List (PathStep F)) : foldSteps hash leaf path =
    Merkle.foldPath (merkleHash hash) leaf (path.map PathStep.toPair) := by
  induction path generalizing leaf with
  | nil => rfl
  | cons step path ih =>
    obtain ⟨sibling, side⟩ := step
    cases side with
    | left => exact ih _
    | right => exact ih _

/-- The loop reads the siblings of the level it is at. -/
theorem proofSteps_eq_pathAt (d : Nat) {nodes leaves : Nat → F} {k index : Nat}
    (hnodes : ∀ j < 2 ^ d, nodes j = Merkle.nodeAt (merkleHash hash) leaves k j)
    (hindex : index < 2 ^ d) : (proofSteps hash d nodes index).map PathStep.toPair =
      Merkle.pathAt (merkleHash hash) leaves k d index := by
  induction d generalizing nodes k index with
  | zero => rfl
  | succ d ih =>
    have hpow : 2 ^ (d + 1) = 2 * 2 ^ d := Nat.pow_succ'
    have hsibling : Merkle.sibling index < 2 ^ (d + 1) := by
      unfold Merkle.sibling
      split <;> omega
    have hlevel : ∀ j < 2 ^ d, hashLevel hash (2 ^ d) nodes j =
        Merkle.nodeAt (merkleHash hash) leaves (k + 1) j := fun j hj => by
      rw [hashLevel_apply, if_pos hj, hnodes _ (by omega),
        hnodes _ (by omega)]
      rfl
    rw [proofSteps, List.map_cons, ih hlevel (by omega), Merkle.pathAt,
      Merkle.xor_one, hnodes _ hsibling]
    congr 1
    rcases Nat.mod_two_eq_zero_or_one index with hmod | hmod
    · simp [PathStep.toPair, hmod]
    · simp [PathStep.toPair, hmod]

variable [BnField F]

/-- The proof of a slot folds from its leaf to the root. -/
theorem foldSteps_computeProof (attesters : List (Address × UInt64)) {i : Nat}
    (hi : i < Compliance.RevocationTree.capacity) : foldSteps hash (RevocationTree.leafAt hash attesters i)
      (RevocationTree.computeProof hash attesters i) = RevocationTree.computeRoot hash attesters := by
  have hpath := @Merkle.foldPath_pathAt _ (merkleHash hash) (RevocationTree.leafAt hash attesters) 0
    Compliance.RevocationTree.depth i
  have hdiv : i / 2 ^ Compliance.RevocationTree.depth = 0 := Nat.div_eq_of_lt hi
  rw [Nat.zero_add, hdiv] at hpath
  have hsteps : (RevocationTree.computeProof hash attesters i).map PathStep.toPair =
      Merkle.pathAt (merkleHash hash) (RevocationTree.leafAt hash attesters) 0
        Compliance.RevocationTree.depth i := proofSteps_eq_pathAt _ (fun _ _ => rfl) hi
  rw [foldSteps_eq_foldPath, hsteps, RevocationTree.computeRoot, hashLevels_eq_nodeAt]
  exact hpath

end

/-! ## Positions in the array -/

section
variable {attesters : List (Address × UInt64)} {a : Address} {i : Nat}

theorem RevocationTree.positionOf_eq_ok {self : RevocationTree} : self.positionOf a = .ok i ↔
    (self.attesters.map Prod.fst).idxOf? a = some i := by
  rw [positionOf, okOr_eq_ok, List.idxOf?, List.findIdx?_map]
  rfl

theorem getElem?_of_idxOf? {xs : List Address} (h : xs.idxOf? a = some i) : xs[i]? = some a := by
  rw [List.idxOf?, List.findIdx?_eq_some_iff_getElem] at h
  obtain ⟨hi, heq, -⟩ := h
  rw [List.getElem?_eq_getElem hi, eq_of_beq heq]

theorem exists_idxOf? {xs : List Address} (h : a ∈ xs) : ∃ i, xs.idxOf? a = some i := by
  have hsome : (xs.idxOf? a).isSome := by
    rw [List.idxOf?, List.findIdx?_isSome, List.any_eq_true]
    exact ⟨a, h, beq_self_eq_true a⟩
  exact Option.isSome_iff_exists.mp hsome

/-- The contract's loop and `swap_remove` keep the same slots. -/
theorem map_swapRemove (h : (attesters.map Prod.fst).idxOf? a = some i) :
    (swapRemove attesters i).map Prod.fst = swapAndPop (attesters.map Prod.fst) a := by
  rw [swapAndPop, h]
  rcases List.eq_nil_or_concat attesters with rfl | ⟨init, last, rfl⟩
  · rfl
  · simp only [swapRemove, List.concat_eq_append, List.getLast?_concat,
      List.map_dropLast, List.map_set, List.map_append, List.map_cons, List.map_nil,
      List.getLastD_concat]

theorem mem_of_mem_swapRemove {p : Address × UInt64} (h : p ∈ swapRemove attesters i) : p ∈ attesters := by
  unfold swapRemove at h
  split at h
  next last hlast =>
    rcases List.mem_or_eq_of_mem_set (List.mem_of_mem_dropLast h) with hmem | rfl
    · exact hmem
    · exact List.mem_of_getLast? hlast
  · exact h

end

/-! ## The two trees side by side -/

section
variable {F : Type} [BnField F] {hash : List F → F} {tree tree' : Compliance.RevocationTree F}
  {mirror mirror' : RevocationTree} {a : Address}

/-- The client's tree has the contract's slots, epochs and floors. -/
structure Mirrors (hash : List F → F) (tree : Compliance.RevocationTree F)
    (mirror : RevocationTree) : Prop where
  inv : tree.Inv hash
  slots : tree.attesters = mirror.attesters.map Prod.fst
  epochs : ∀ p ∈ mirror.attesters, tree.revokedAtEpoch p.1 = p.2
  floor : ∀ a, tree.revocationFloor a = (mirror.revocationFloor a).getD 0
  le_capacity : mirror.attesters.length ≤ Compliance.RevocationTree.capacity

theorem mirrors_init : Mirrors hash (.init hash) .new where
  inv := inv_init
  slots := rfl
  epochs := nofun
  floor _ := rfl
  le_capacity := Nat.zero_le _

section
variable (h : Mirrors hash tree mirror)
include h

theorem Mirrors.contains (a : Address) :
    mirror.contains a = tree.contains a := by
  rw [Bool.eq_iff_iff, Compliance.RevocationTree.contains, ← h.inv.mem, h.slots,
    RevocationTree.contains, List.any_eq_true, List.mem_map]
  simp only [beq_iff_eq]

theorem Mirrors.leafAt (i : Nat) :
    RevocationTree.leafAt hash mirror.attesters i = tree.leafNodes hash i := by
  rw [RevocationTree.leafAt, leafNodes, h.slots, List.getElem?_map]
  cases hi : mirror.attesters[i]? with
  | none => rfl
  | some p =>
    rw [Option.map_some]
    show _ = hash [ofAddress p.1, ofU64 (tree.revokedAtEpoch p.1)]
    rw [h.epochs p (List.mem_of_getElem? hi)]

theorem Mirrors.root_eq_nodeAt : mirror.root hash =
    Merkle.nodeAt (merkleHash hash) (tree.leafNodes hash) Compliance.RevocationTree.depth 0 := by
  rw [RevocationTree.root, RevocationTree.computeRoot, hashLevels_eq_nodeAt]
  exact Merkle.nodeAt_congr fun i _ => h.leafAt i

theorem Mirrors.root : mirror.root hash = tree.cachedRoot := by
  rw [h.inv.cached, computeRoot_eq_nodeAt]
  exact h.root_eq_nodeAt

/-- The slot of a member. -/
theorem Mirrors.exists_position (ha : tree.contains a = true) :
    ∃ i, mirror.positionOf a = .ok i ∧ mirror.attesters[i]? = some (a, tree.revokedAtEpochOf a) := by
  have hmem : a ∈ mirror.attesters.map Prod.fst := by
    rw [← h.slots, h.inv.mem]
    exact ha
  obtain ⟨i, hi⟩ := exists_idxOf? hmem
  refine ⟨i, positionOf_eq_ok.mpr hi, ?_⟩
  have hget := getElem?_of_idxOf? hi
  rw [List.getElem?_map, Option.map_eq_some_iff] at hget
  obtain ⟨⟨b, e⟩, hget, rfl⟩ := hget
  have he := h.epochs _ (List.mem_of_getElem? hget)
  rw [hget, Compliance.RevocationTree.revokedAtEpochOf, he]

theorem Mirrors.contains_of_position {i : Nat}
    (hi : mirror.positionOf a = .ok i) : tree.contains a = true := by
  have hget := getElem?_of_idxOf? (positionOf_eq_ok.mp hi)
  exact (h.inv.mem a).mp (h.slots ▸ List.mem_of_getElem? hget)

/-! ### Each operation -/

theorem Mirrors.ok_iff (op : RevocationOp) :
    (∃ tree', op.onContract hash tree = .ok tree') ↔ ∃ r, op.onMirror hash mirror = .ok r := by
  have hlen : tree.attesters.length = mirror.attesters.length := by rw [h.slots, List.length_map]
  have hposition : ∀ a, tree.isAttester a = true ↔ ∃ i, mirror.positionOf a = .ok i := fun a =>
    ⟨fun ha => (h.exists_position ha).imp fun _ hi => hi.1, fun ⟨_, hi⟩ => h.contains_of_position hi⟩
  cases op with
  | add a =>
    simp only [RevocationOp.onContract, RevocationOp.onMirror, Compliance.RevocationTree.insert,
      addAttester, bind_eq_ok, failIf_eq_ok, pure_eq_ok, exists_const, h.contains a,
      Compliance.RevocationTree.contains, hlen]
    constructor
    · rintro ⟨_, hnew, hroom, -⟩
      exact ⟨_, hnew, hroom, rfl⟩
    · rintro ⟨_, hnew, hroom, -⟩
      exact ⟨_, hnew, hroom, rfl⟩
  | remove a | lower a =>
    simp only [RevocationOp.onContract, RevocationOp.onMirror, Compliance.RevocationTree.remove,
      Compliance.RevocationTree.lower, removeAttester, lowerRevocation,
      bind_eq_ok, failIf_eq_ok, pure_eq_ok, exists_const, Bool.not_eq_false, hposition a]
    constructor
    · rintro ⟨_, ⟨i, hi⟩, -⟩
      exact ⟨_, i, hi, rfl⟩
    · rintro ⟨_, i, hi, -⟩
      exact ⟨_, ⟨i, hi⟩, rfl⟩

theorem Mirrors.add {root : F} (hok : tree.insert hash a = .ok tree')
    (hok' : mirror.addAttester hash a = .ok (mirror', root)) : Mirrors hash tree' mirror' := by
  have inv' := h.inv.insert hok
  simp only [Compliance.RevocationTree.insert, bind_eq_ok, failIf_eq_ok, pure_eq_ok, exists_const] at hok
  obtain ⟨hnew, hroom, rfl⟩ := hok
  simp only [addAttester, bind_eq_ok, pure_eq_ok, Prod.mk.injEq] at hok'
  obtain ⟨_, -, _, -, rfl, -⟩ := hok'
  refine ⟨inv', ?_, fun p hp => ?_, h.floor, ?_⟩
  · show tree.attesters ++ [a] = (mirror.attesters ++ [(a, _)]).map Prod.fst
    rw [h.slots, List.map_append]
    rfl
  · show Function.update tree.revokedAtEpoch a _ p.1 = p.2
    rcases List.mem_append.mp hp with hmem | hp
    · have hne : p.1 ≠ a := by
        rintro rfl
        exact hnew ((h.inv.mem p.1).mp (h.slots ▸ List.mem_map_of_mem hmem))
      rw [Function.update_of_ne hne]
      exact h.epochs p hmem
    · rw [List.mem_singleton.mp hp, Function.update_self, h.floor]
  · rw [h.slots, List.length_map] at hroom
    rw [List.length_append]
    exact Nat.not_le.mp hroom

theorem Mirrors.remove {root : F} (hok : tree.remove hash a = .ok tree')
    (hok' : mirror.removeAttester hash a = .ok (mirror', root)) : Mirrors hash tree' mirror' := by
  have inv' := h.inv.remove hok
  simp only [Compliance.RevocationTree.remove, bind_eq_ok, pure_eq_ok] at hok
  obtain ⟨_, -, rfl⟩ := hok
  simp only [removeAttester, bind_eq_ok, pure_eq_ok, Prod.mk.injEq] at hok'
  obtain ⟨i, hi, rfl, -⟩ := hok'
  have hslots : swapAndPop tree.attesters a = (swapRemove mirror.attesters i).map Prod.fst := by
    rw [h.slots, map_swapRemove (positionOf_eq_ok.mp hi)]
  refine ⟨inv', hslots, fun p hp => ?_, h.floor, ?_⟩
  · -- whoever is still there is not the removed attester
    have hmem : Function.update tree.isAttester a false p.1 = true := by
      refine (inv'.mem p.1).mp ?_
      show p.1 ∈ swapAndPop tree.attesters a
      rw [hslots]
      exact List.mem_map_of_mem hp
    have hne : p.1 ≠ a := by
      rintro rfl
      rw [Function.update_self] at hmem
      cases hmem
    show Function.update tree.revokedAtEpoch a 0 p.1 = p.2
    rw [Function.update_of_ne hne]
    exact h.epochs p (mem_of_mem_swapRemove hp)
  · refine le_trans ?_ h.le_capacity
    show (swapRemove mirror.attesters i).length ≤ mirror.attesters.length
    unfold swapRemove
    split
    · rw [List.length_dropLast, List.length_set]
      exact Nat.sub_le _ _
    · exact le_rfl

theorem Mirrors.lower {e : UInt64} {root : F}
    (hok : tree.lower hash a e = .ok tree')
    (hok' : mirror.lowerRevocation hash a e = .ok (mirror', root)) : Mirrors hash tree' mirror' := by
  have inv' := h.inv.lower hok
  simp only [Compliance.RevocationTree.lower, bind_eq_ok, pure_eq_ok] at hok
  obtain ⟨_, -, rfl⟩ := hok
  simp only [lowerRevocation, bind_eq_ok, pure_eq_ok, Prod.mk.injEq] at hok'
  obtain ⟨i, hi, rfl, -⟩ := hok'
  have hslot := getElem?_of_idxOf? (positionOf_eq_ok.mp hi)
  refine ⟨inv', ?_, fun p hp => ?_, fun b => ?_, ?_⟩
  · show tree.attesters = (mirror.attesters.modify i _).map Prod.fst
    rw [h.slots]
    refine List.ext_getElem? fun j => ?_
    rw [List.getElem?_map, List.getElem?_map, List.getElem?_modify]
    cases mirror.attesters[j]? with
    | none => rfl
    | some p => split <;> rfl
  · show Function.update tree.revokedAtEpoch a e p.1 = p.2
    obtain ⟨j, hj⟩ := List.mem_iff_getElem?.mp hp
    rcases eq_or_ne i j with rfl | hne
    · rw [List.getElem?_map, Option.map_eq_some_iff] at hslot
      obtain ⟨q, hq, rfl⟩ := hslot
      rw [List.getElem?_modify_eq, hq] at hj
      cases hj
      exact Function.update_self _ _ _
    · rw [List.getElem?_modify_ne _ _ hne] at hj
      have hother : p.1 ≠ a := by
        -- an attester has one slot
        rintro rfl
        have hslot' : (mirror.attesters.map Prod.fst)[j]? = some p.1 := by
          rw [List.getElem?_map, hj, Option.map_some]
        have hlt := (List.getElem?_eq_some_iff.mp hslot).1
        exact hne ((List.getElem?_inj hlt (h.slots ▸ h.inv.nodup)).mp (hslot.trans hslot'.symm))
      rw [Function.update_of_ne hother]
      exact h.epochs p (List.mem_of_getElem? hj)
  · show Function.update tree.revocationFloor a e b =
      (Function.update mirror.revocationFloor a (some e) b).getD 0
    rcases eq_or_ne b a with rfl | hne
    · rw [Function.update_self, Function.update_self, Option.getD_some]
    · rw [Function.update_of_ne hne, Function.update_of_ne hne]
      exact h.floor b
  · show (mirror.attesters.modify i _).length ≤ _
    rw [List.length_modify]
    exact h.le_capacity

theorem Mirrors.keeps {op : RevocationOp} {root : F}
    (hok : op.onContract hash tree = .ok tree')
    (hok' : op.onMirror hash mirror = .ok (mirror', root)) : Mirrors hash tree' mirror' := by
  cases op with
  | add a => exact h.add hok hok'
  | remove a => exact h.remove hok hok'
  | lower a e => exact h.lower hok hok'

theorem Mirrors.after (op : RevocationOp) :
    Mirrors hash (contractAfter hash tree op) (mirrorAfter hash mirror op) := by
  have hiff := h.ok_iff op
  unfold contractAfter mirrorAfter
  cases hc : op.onContract hash tree with
  | ok tree' =>
    obtain ⟨⟨mirror', root⟩, hm⟩ := hiff.mp ⟨tree', hc⟩
    rw [hm]
    exact h.keeps hc hm
  | error e =>
    cases hm : op.onMirror hash mirror with
    | ok r =>
      obtain ⟨tree', hc'⟩ := hiff.mpr ⟨r, hm⟩
      cases hc.symm.trans hc'
    | error e' => exact h

theorem Mirrors.revokedAtEpochOf (ha : tree.contains a = true) :
    mirror.revokedAtEpochOf a = .ok (tree.revokedAtEpochOf a) := by
  obtain ⟨i, hi, hget⟩ := h.exists_position ha
  rw [RevocationTree.revokedAtEpochOf, hi, ok_bind, hget]
  rfl

/-- The proof of a member starts at the leaf of its address and epoch. -/
theorem Mirrors.proof (ha : tree.contains a = true) :
    ∃ path, mirror.proof hash a = .ok path ∧
      foldSteps hash (hash [ofAddress a, ofU64 (tree.revokedAtEpochOf a)]) path = mirror.root hash := by
  obtain ⟨i, hi, hget⟩ := h.exists_position ha
  refine ⟨_, bind_eq_ok.mpr ⟨i, hi, rfl⟩, ?_⟩
  have hlt : i < Compliance.RevocationTree.capacity :=
    (List.getElem?_eq_some_iff.mp hget).1.trans_le h.le_capacity
  have hleaf : RevocationTree.leafAt hash mirror.attesters i =
      hash [ofAddress a, ofU64 (tree.revokedAtEpochOf a)] := by
    rw [RevocationTree.leafAt, hget]
  rw [← hleaf]
  exact foldSteps_computeProof mirror.attesters hlt

end

theorem Mirrors.run (ops : List RevocationOp) : Mirrors hash
    (ops.foldl (contractAfter hash) (.init hash)) (ops.foldl (mirrorAfter hash) .new) :=
  List.foldl_rel mirrors_init fun op _ _ _ h => h.after op

/-- After any operations on the contract's tree and on the client's, the next operation succeeds on
both or fails on both; they have the same members, with the same epochs, and the same root, which is
the root of the full tree over the leaves; and the client's proof of a member leads from its leaf to
the root. -/
theorem mirror_agrees (hash : List F → F) (ops : List RevocationOp) :
    let tree := ops.foldl (contractAfter hash) (.init hash)
    let mirror := ops.foldl (mirrorAfter hash) .new
    (∀ op : RevocationOp, (∃ tree', op.onContract hash tree = .ok tree') ↔
      ∃ r, op.onMirror hash mirror = .ok r) ∧
    (∀ a, mirror.contains a = tree.contains a) ∧
    (∀ a, tree.contains a = true → mirror.revokedAtEpochOf a = .ok (tree.revokedAtEpochOf a)) ∧
    Scalar.toNat (mirror.root hash) = tree.root ∧
    mirror.root hash = Merkle.nodeAt (merkleHash hash) (tree.leafNodes hash) 5 0 ∧
    ∀ a, tree.contains a = true → ∃ path, mirror.proof hash a = .ok path ∧
      foldSteps hash (hash [ofAddress a, ofU64 (tree.revokedAtEpochOf a)]) path = mirror.root hash := by
  have h : Mirrors hash _ _ := .run ops
  exact ⟨h.ok_iff, h.contains, fun a ha => h.revokedAtEpochOf ha, congrArg Scalar.toNat h.root,
    h.root_eq_nodeAt, fun a ha => h.proof ha⟩

end

end Pocs.Compliance.Adapters
