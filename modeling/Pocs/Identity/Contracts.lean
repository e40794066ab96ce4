import Pocs.Identity.Circuits
import Pocs.Lib.LeanRoot

/-! # Enrollment, tree and verifier contracts

`Enrollment.sol`, `IdentityTree.sol` and `IdentityVerifier.sol`. Leaves and nullifiers are kept as words and
compared without reducing them; the verifiers read the residues. -/

namespace Pocs.Identity

open Compliance (BnField Word Address)

/-! ## Trees with removals -/

inductive LeafTreeError where
  | leafCannotBeZero
  | leafAlreadyExists
  | leafDoesNotExist
  | wrongSiblingNodes
  | leafGreaterThanSnarkScalarField
  deriving DecidableEq, Repr

/-- `LeanIMT`, as the contract sees it. -/
structure LeafTree (α T : Type) where
  empty : T
  insert : (leaf : α) → T → Except LeafTreeError T
  remove : (leaf : α) → (siblingNodes : List Nat) → T → Except LeafTreeError T
  root : T → α
  /-- The leaves that have not been removed. -/
  leaves : T → List α

/-- The tree keeps a set of non-zero leaves. -/
structure LeafTree.Lawful {α T : Type} [Zero α] (L : LeafTree α T) : Prop where
  leaves_empty : L.leaves L.empty = []
  insert : ∀ {leaf t t'}, L.insert leaf t = .ok t' →
    leaf ≠ 0 ∧ leaf ∉ L.leaves t ∧ ∀ x, x ∈ L.leaves t' ↔ x = leaf ∨ x ∈ L.leaves t
  remove : ∀ {leaf siblingNodes t t'}, L.remove leaf siblingNodes t = .ok t' →
    leaf ∈ L.leaves t ∧ ∀ x, x ∈ L.leaves t' ↔ x ≠ leaf ∧ x ∈ L.leaves t

def slotTree {F : Type} [Scalar F] (node : F → F → F) : LeafTree F (List F) where
  empty := []
  insert leaf slots := do
    failIf (leaf = 0) .leafCannotBeZero
    failIf (slots.any fun x => decide (x = leaf)) .leafAlreadyExists
    pure (slots ++ [leaf])
  remove leaf siblingNodes slots := do
    failIf (leaf = 0) .leafDoesNotExist
    failIf (slots.all fun x => decide (x ≠ leaf)) .leafDoesNotExist
    let path := Merkle.promotedPath node slots.length slots (slots.findIdx fun x => decide (x = leaf))
    failIf (path.map (fun s => Scalar.toNat s.2) ≠ siblingNodes) .wrongSiblingNodes
    pure (slots.map fun x => if x = leaf then 0 else x)
  root slots := (Merkle.leanRoot node slots).getD 0
  leaves slots := slots.filter fun x => decide (x ≠ 0)

theorem slotTree_lawful {F : Type} [Scalar F] {node : F → F → F} : (slotTree node).Lawful where
  leaves_empty := rfl
  insert {leaf t t'} h := by
    simp only [slotTree, bind_eq_ok, failIf_eq_ok, pure_eq_ok, exists_const, List.any_eq_true,
      decide_eq_true_iff, exists_eq_right] at h
    obtain ⟨hzero, hnew, rfl⟩ := h
    refine ⟨hzero, fun hmem => hnew (List.mem_of_mem_filter hmem), fun x => ?_⟩
    simp only [slotTree, List.mem_filter, List.mem_append, List.mem_singleton, decide_eq_true_iff]
    constructor
    · rintro ⟨hmem | rfl, hx⟩
      · exact .inr ⟨hmem, hx⟩
      · exact .inl rfl
    · rintro (rfl | ⟨hmem, hx⟩)
      · exact ⟨.inr rfl, hzero⟩
      · exact ⟨.inl hmem, hx⟩
  remove {leaf siblingNodes t t'} h := by
    simp only [slotTree, bind_eq_ok, failIf_eq_ok, pure_eq_ok, exists_const, List.all_eq_true,
      decide_eq_true_iff] at h
    obtain ⟨hzero, hhas, -, rfl⟩ := h
    have hmem : leaf ∈ t := by
      by_contra hnot
      exact hhas fun x hx he => hnot (he ▸ hx)
    refine ⟨List.mem_filter.mpr ⟨hmem, decide_eq_true hzero⟩, fun x => ?_⟩
    simp only [slotTree, List.mem_filter, List.mem_map, decide_eq_true_iff]
    constructor
    · rintro ⟨⟨y, hy, rfl⟩, hx⟩
      split at hx
      · exact absurd rfl hx
      · next hne =>
        rw [if_neg hne]
        exact ⟨hne, hy, hx⟩
    · rintro ⟨hne, hx, hx0⟩
      exact ⟨⟨x, hx, if_neg hne⟩, hx0⟩

/-! ## Storage -/

structure IdentityTree (T : Type) where
  tree : T
  recentRoots : Nat → Word
  rootIndex : Nat
  insertedLeaves : Word → Bool
  usedEnrollmentNullifiers : Word → Bool
  leafEnrollmentNullifier : Word → Word
  authorized : Address → Bool
  governance : Address
  paused : Bool

/-- The storage of `IdentityVerifier.sol`. -/
structure IdentityVerifier where
  governance : Address
  paused : Bool
  usedNullifiers : Word → Bool

/-- `Enrollment.ECPoint`: the coordinates as words. -/
structure ECPoint where
  x : Word
  y : Word
  deriving DecidableEq

structure Enrollment where
  mpcPublicKey : ECPoint
  previousMPCKey : ECPoint
  keyGraceExpiry : Nat
  pendingKey : ECPoint
  pendingKeyActivation : Nat
  multisig : Address
  guardian : Address
  stakeAmount : Nat
  stakers : Word → Address
  paused : Bool

/-- The hash, the curve and the tree, the address of `Enrollment` and the verifiers called. -/
structure Deployment (F P T : Type) where
  hash : List F → F
  curve : Bn254 F P
  imt : LeafTree F T
  enrollmentAddress : Address
  verifyEnrollment : List UInt8 → List Word → Bool
  verifyMembership : List UInt8 → List Word → Bool

/-- The two contracts, with the tree and the block they are in. -/
structure World (T : Type) where
  /-- `block.number`. -/
  blockNumber : Nat
  enrollment : Enrollment
  tree : IdentityTree T
  verifier : IdentityVerifier

inductive IdentityError where
  | notGovernance
  | notAuthorized
  | contractPaused
  | duplicateLeaf
  | duplicateEnrollmentNullifier
  | staleRoot
  | nullifierUsed
  | invalidAttrIndex
  | invalidProof
  | notMultisig
  | notGuardian
  | notOnCurve
  | noPendingKey
  | timelockNotExpired
  | keyAlreadyPending
  | stakeAmountMismatch
  | notStaker
  | transferFailed
  | imt (e : LeafTreeError)
  deriving DecidableEq, Repr

structure EnrollArgs where
  leaf : Word
  enrollmentNullifier : Word
  gIdX : Word
  gIdY : Word
  proof : List UInt8
  deriving DecidableEq

structure PresentArgs where
  proof : List UInt8
  root : Word
  nullifier : Word
  externalNullifier : Word
  version : Word
  predicateType : Word
  predicateAttrIndex : Word
  predicateValue : Word
  predicateResult : Word
  deriving DecidableEq

/-- `IdentityTree.recentRoots` has this many slots. -/
def recentRootsSize : Nat := 1000

/-- `TIMELOCK_BLOCKS` and `GRACE_BLOCKS`. -/
def timelockBlocks : Nat := 14400
def graceBlocks : Nat := 14400

def bn254P : Nat := 21888242871839275222246405745257275088696311157297823662689037894645226208583

section
variable {F P T : Type} [BnField F] (D : Deployment F P T)

/-! ## `IdentityTree.sol` -/

namespace IdentityTree
variable (tree : IdentityTree T)

def pushRoot : IdentityTree T :=
  let rootIndex := (tree.rootIndex + 1) % recentRootsSize
  { tree with
    rootIndex
    recentRoots := Function.update tree.recentRoots rootIndex (Scalar.toNat (D.imt.root tree.tree)) }

def insertLeaf (sender : Address) (leaf enrollmentNullifier : Word) :
    Except IdentityError (IdentityTree T) := do
  failIf (tree.authorized sender = false) .notAuthorized
  failIf (tree.paused = true) .contractPaused
  failIf (tree.insertedLeaves leaf = true) .duplicateLeaf
  failIf (tree.usedEnrollmentNullifiers enrollmentNullifier = true) .duplicateEnrollmentNullifier
  let insertedLeaves := Function.update tree.insertedLeaves leaf true
  let usedEnrollmentNullifiers := Function.update tree.usedEnrollmentNullifiers enrollmentNullifier true
  let leafEnrollmentNullifier := Function.update tree.leafEnrollmentNullifier leaf enrollmentNullifier
  failIf (BnField.canonical F leaf = false) (.imt .leafGreaterThanSnarkScalarField)
  let imt ← mapErr IdentityError.imt (D.imt.insert (Scalar.ofNat leaf) tree.tree)
  let tree := { tree with insertedLeaves, usedEnrollmentNullifiers, leafEnrollmentNullifier, tree := imt }
  pure (tree.pushRoot D)

def removeLeaf (sender : Address) (leaf : Word) (siblingNodes : List Word) :
    Except IdentityError (IdentityTree T) := do
  failIf (tree.authorized sender = false) .notAuthorized
  failIf (tree.paused = true) .contractPaused
  failIf (BnField.canonical F leaf = false) (.imt .leafDoesNotExist)
  let imt ← mapErr IdentityError.imt (D.imt.remove (Scalar.ofNat leaf) siblingNodes tree.tree)
  let insertedLeaves := Function.update tree.insertedLeaves leaf false
  let enrollmentNullifier := tree.leafEnrollmentNullifier leaf
  let usedEnrollmentNullifiers := Function.update tree.usedEnrollmentNullifiers enrollmentNullifier false
  let leafEnrollmentNullifier := Function.update tree.leafEnrollmentNullifier leaf 0
  let tree := { tree with insertedLeaves, usedEnrollmentNullifiers, leafEnrollmentNullifier, tree := imt }
  pure (tree.pushRoot D)

def isRecentRoot (root : Word) : Bool :=
  if root = 0 then false
  else (List.range recentRootsSize).any fun i => decide (tree.recentRoots i = root)

def setAuthorized (sender addr : Address) (value : Bool) : Except IdentityError (IdentityTree T) := do
  failIf (sender ≠ tree.governance) .notGovernance
  pure { tree with authorized := Function.update tree.authorized addr value }

/-- `addAuthorized` and `removeAuthorized`. -/
def addAuthorized (sender addr : Address) : Except IdentityError (IdentityTree T) :=
  tree.setAuthorized sender addr true
def removeAuthorized (sender addr : Address) : Except IdentityError (IdentityTree T) :=
  tree.setAuthorized sender addr false

def setPaused (sender : Address) (paused : Bool) : Except IdentityError (IdentityTree T) := do
  failIf (sender ≠ tree.governance) .notGovernance
  pure { tree with paused }

def new (governance : Address) : IdentityTree T where
  tree := D.imt.empty
  recentRoots _ := 0
  rootIndex := 0
  insertedLeaves _ := false
  usedEnrollmentNullifiers _ := false
  leafEnrollmentNullifier _ := 0
  authorized _ := false
  governance
  paused := false

end IdentityTree

/-! ## `IdentityVerifier.sol` -/

def PresentArgs.publicInputs (args : PresentArgs) : List Word :=
  [args.root, args.nullifier, args.externalNullifier, args.version, args.predicateType,
    args.predicateAttrIndex, args.predicateValue, args.predicateResult]

namespace IdentityVerifier
variable (verifier : IdentityVerifier)

def verifyProof (tree : IdentityTree T) (args : PresentArgs) : Except IdentityError IdentityVerifier := do
  failIf (verifier.paused = true) .contractPaused
  failIf (tree.isRecentRoot args.root = false) .staleRoot
  failIf (verifier.usedNullifiers args.nullifier = true) .nullifierUsed
  failIf (2 ≤ args.predicateAttrIndex) .invalidAttrIndex
  failIf (D.verifyMembership args.proof args.publicInputs = false) .invalidProof
  pure { verifier with usedNullifiers := Function.update verifier.usedNullifiers args.nullifier true }

def setPaused (sender : Address) (paused : Bool) : Except IdentityError IdentityVerifier := do
  failIf (sender ≠ verifier.governance) .notGovernance
  pure { verifier with paused }

end IdentityVerifier

/-! ## `Enrollment.sol` -/

def requireOnCurve (x y : Word) : Except IdentityError Unit :=
  failIf (y * y % bn254P ≠ (x * x % bn254P * x % bn254P + 3) % bn254P) .notOnCurve

def EnrollArgs.publicInputs (args : EnrollArgs) (key : ECPoint) : List Word :=
  [args.leaf, args.enrollmentNullifier, key.x, key.y, args.gIdX, args.gIdY]

namespace Enrollment
variable (enrollment : Enrollment)

/-- The proof verifies for the key or, in its time of grace, for the previous one. -/
def verifies (blockNumber : Nat) (args : EnrollArgs) : Bool :=
  let valid := D.verifyEnrollment args.proof (args.publicInputs enrollment.mpcPublicKey)
  if valid = false ∧ blockNumber ≤ enrollment.keyGraceExpiry then
    D.verifyEnrollment args.proof (args.publicInputs enrollment.previousMPCKey)
  else valid

def proposeMPCPublicKey (blockNumber : Nat) (sender : Address) (x y : Word) :
    Except IdentityError Enrollment := do
  failIf (sender ≠ enrollment.multisig) .notMultisig
  failIf (enrollment.pendingKeyActivation ≠ 0) .keyAlreadyPending
  requireOnCurve x y
  pure { enrollment with pendingKey := ⟨x, y⟩, pendingKeyActivation := blockNumber + timelockBlocks }

def finalizeMPCPublicKey (blockNumber : Nat) (sender : Address) : Except IdentityError Enrollment := do
  failIf (sender ≠ enrollment.multisig) .notMultisig
  failIf (enrollment.pendingKeyActivation = 0) .noPendingKey
  failIf (blockNumber < enrollment.pendingKeyActivation) .timelockNotExpired
  pure { enrollment with
    previousMPCKey := enrollment.mpcPublicKey
    mpcPublicKey := enrollment.pendingKey
    keyGraceExpiry := blockNumber + graceBlocks
    pendingKey := ⟨0, 0⟩
    pendingKeyActivation := 0 }

def vetoPendingKey (sender : Address) : Except IdentityError Enrollment := do
  failIf (sender ≠ enrollment.guardian) .notGuardian
  failIf (enrollment.pendingKeyActivation = 0) .noPendingKey
  pure { enrollment with pendingKey := ⟨0, 0⟩, pendingKeyActivation := 0 }

def setPaused (sender : Address) (paused : Bool) : Except IdentityError Enrollment := do
  failIf (sender ≠ enrollment.multisig) .notMultisig
  pure { enrollment with paused }

def new (key : ECPoint) (multisig guardian : Address) (stakeAmount : Nat) : Enrollment where
  mpcPublicKey := key
  previousMPCKey := ⟨0, 0⟩
  keyGraceExpiry := 0
  pendingKey := ⟨0, 0⟩
  pendingKeyActivation := 0
  multisig
  guardian
  stakeAmount
  stakers _ := 0
  paused := false

end Enrollment

/-! ## Calls -/

inductive Call where
  | enroll (value : Nat) (args : EnrollArgs)
  /-- `received` tells whether the stake is accepted. -/
  | unstake (leaf : Word) (siblingNodes : List Word) (received : Bool)
  | proposeMPCPublicKey (x y : Word)
  | finalizeMPCPublicKey
  | vetoPendingKey
  | pauseEnrollment (paused : Bool)
  | insertLeaf (leaf enrollmentNullifier : Word)
  | removeLeaf (leaf : Word) (siblingNodes : List Word)
  | addAuthorized (addr : Address)
  | removeAuthorized (addr : Address)
  | pauseTree (paused : Bool)
  | verifyProof (args : PresentArgs)
  | pauseVerifier (paused : Bool)

variable (sender : Address) (w : World T)

def enroll (value : Nat) (args : EnrollArgs) : Except IdentityError (World T) := do
  failIf (w.enrollment.paused = true) .contractPaused
  failIf (value ≠ w.enrollment.stakeAmount) .stakeAmountMismatch
  failIf (w.enrollment.verifies D w.blockNumber args = false) .invalidProof
  let enrollment :=
    { w.enrollment with stakers := Function.update w.enrollment.stakers args.leaf sender }
  let tree ← w.tree.insertLeaf D D.enrollmentAddress args.leaf args.enrollmentNullifier
  pure { w with enrollment, tree }

def unstake (leaf : Word) (siblingNodes : List Word) (received : Bool) : Except IdentityError (World T) := do
  failIf (w.enrollment.paused = true) .contractPaused
  failIf (w.enrollment.stakers leaf ≠ sender) .notStaker
  let enrollment := { w.enrollment with stakers := Function.update w.enrollment.stakers leaf 0 }
  let tree ← w.tree.removeLeaf D D.enrollmentAddress leaf siblingNodes
  failIf (received = false) .transferFailed
  pure { w with enrollment, tree }

def World.setEnrollment (enrollment : Enrollment) : World T := { w with enrollment }
def World.setTree (tree : IdentityTree T) : World T := { w with tree }
def World.setVerifier (verifier : IdentityVerifier) : World T := { w with verifier }

def Call.run : Call → Except IdentityError (World T)
  | .enroll value args => Identity.enroll D sender w value args
  | .unstake leaf siblingNodes received => Identity.unstake D sender w leaf siblingNodes received
  | .proposeMPCPublicKey x y => w.setEnrollment <$> w.enrollment.proposeMPCPublicKey w.blockNumber sender x y
  | .finalizeMPCPublicKey => w.setEnrollment <$> w.enrollment.finalizeMPCPublicKey w.blockNumber sender
  | .vetoPendingKey => w.setEnrollment <$> w.enrollment.vetoPendingKey sender
  | .pauseEnrollment paused => w.setEnrollment <$> w.enrollment.setPaused sender paused
  | .insertLeaf leaf enrollmentNullifier => w.setTree <$> w.tree.insertLeaf D sender leaf enrollmentNullifier
  | .removeLeaf leaf siblingNodes => w.setTree <$> w.tree.removeLeaf D sender leaf siblingNodes
  | .addAuthorized addr => w.setTree <$> w.tree.addAuthorized sender addr
  | .removeAuthorized addr => w.setTree <$> w.tree.removeAuthorized sender addr
  | .pauseTree paused => w.setTree <$> w.tree.setPaused sender paused
  | .verifyProof args => w.setVerifier <$> w.verifier.verifyProof D w.tree args
  | .pauseVerifier paused => w.setVerifier <$> w.verifier.setPaused sender paused

end

end Pocs.Identity
