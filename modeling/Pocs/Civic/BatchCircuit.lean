import Pocs.Civic.BatchProver
import Pocs.Civic.RecordLayout

/-! # The batch circuit

`circuits/batch/src/main.nr`, with the verification of the signer proofs as a parameter, and the
inputs `generate_batch_proof` of `bb_prover.rs` makes for it from the relayer's data. The signer
proofs and the signer key, which only the recursive verification reads, are left out. -/

namespace Pocs.Civic

/-! ## The circuit -/

structure BatchCircuitPublic where
  petitionId : Fr
  rRoot : Fr
  predicateHash : Fr
  classIndex : Fr
  slot : Fr
  batchSize : Nat
  priorRunningRoot : Fr
  newRunningRoot : Fr
  priorIdentityTagSetRoot : Fr
  newIdentityTagSetRoot : Fr
  priorLeafCount : Nat
  newLeafCount : Nat
  batchVersionedHash : Fr
  blsFields : Fin 24 → Fr

structure PositionInput where
  /-- `[r_root, petition_id, predicate_hash, class_index, class_tag, slot, nullifier, identity_tag]`. -/
  signerPublicInputs : Fin 8 → Fr
  runningImt : CircuitInsertWitness Fr
  runningImtIntermediateRoot : Fr
  idtagImt : CircuitInsertWitness Fr
  idtagImtIntermediateRoot : Fr

structure BatchCircuitWitness where
  positions : List PositionInput
  size : positions.length = batchSizeMax

structure BatchLoop where
  prevRunning : Fr
  prevIdtag : Fr
  prevLeaf : Fr

/-- `u32` addition. -/
def addU32 (a b : Nat) : Except String Nat := okOr (checkedAdd 32 a b) "attempt to add with overflow"

instance instNeZeroBlsFields : NeZero 24 := ⟨by decide⟩

/-- Constraint 8 at position `i`. -/
def checkBlsFields (pub : BatchCircuitPublic) (i : Nat) (fields : Noir.RecordFields) : Except String Unit := do
  let blsField (k : Nat) : Fr := pub.blsFields (Fin.ofNat 24 (i * 4 + k))
  require (blsField 0 = fields.fe0) "batch: fe0 mismatch"
  require (blsField 1 = fields.fe1) "batch: fe1 mismatch"
  require (blsField 2 = fields.fe2) "batch: fe2 mismatch"
  require (blsField 3 = fields.fe3) "batch: fe3 mismatch"

def checkPosition (P : Poseidon Fr) (verifyHonkProof : Nat → (Fin 8 → Fr) → Bool)
    (pub : BatchCircuitPublic) (st : BatchLoop) (entry : PositionInput × Nat) :
    Except String BatchLoop := do
  let (w, i) := entry
  require (w.signerPublicInputs 0 = pub.rRoot) "batch: signer pi[0] != r_root"
  require (w.signerPublicInputs 1 = pub.petitionId) "batch: signer pi[1] != petition_id"
  require (w.signerPublicInputs 2 = pub.predicateHash) "batch: signer pi[2] != predicate_hash"
  require (w.signerPublicInputs 3 = pub.classIndex) "batch: signer pi[3] != class_index"
  require (w.signerPublicInputs 5 = pub.slot) "batch: signer pi[5] != slot"
  require (verifyHonkProof i w.signerPublicInputs = true) "verify_honk_proof"
  let classTag := w.signerPublicInputs 4
  let nullifier := w.signerPublicInputs 6
  let identityTag := w.signerPublicInputs 7
  require (classTag.val % 2 ^ 32 < 65536) "batch: class_tag exceeds u16"
  let leaf := hashLeaf P nullifier classTag
  require (i = 0 → leaf ≠ 0) "batch: leaf_0 == 0"
  require (0 < i → ltField st.prevLeaf leaf = true) "batch: leaves not strictly increasing"
  let count ← addU32 pub.priorLeafCount i
  verifyInsert P leaf st.prevRunning w.runningImtIntermediateRoot count w.runningImt
  verifyInsert P identityTag st.prevIdtag w.idtagImtIntermediateRoot count w.idtagImt
  checkBlsFields pub i (Noir.recordToFields nullifier identityTag classTag)
  pure ⟨w.runningImtIntermediateRoot, w.idtagImtIntermediateRoot, leaf⟩

/-- `main` of the batch circuit. -/
def batchMain (P : Poseidon Fr) (verifyHonkProof : Nat → (Fin 8 → Fr) → Bool)
    (pub : BatchCircuitPublic) (w : BatchCircuitWitness) : Except String Unit := do
  require (pub.batchSize = batchSizeMax) "batch: batch_size != BATCH_SIZE (PoC enforces equality)"
  let expected ← addU32 pub.priorLeafCount pub.batchSize
  require (pub.newLeafCount = expected) "batch: leaf_count mismatch"
  let st ← w.positions.zipIdx.foldlM (checkPosition P verifyHonkProof pub)
    ⟨pub.priorRunningRoot, pub.priorIdentityTagSetRoot, 0⟩
  require (st.prevRunning = pub.newRunningRoot) "batch: new_running_root mismatch"
  require (st.prevIdtag = pub.newIdentityTagSetRoot) "batch: new_idtag_root mismatch"

/-! ## The prover's inputs -/

structure SignerPublicInputs where
  rRoot : Fr
  petitionId : Fr
  predicateHash : Fr
  classIndex : Fr
  classTag : Fr
  slot : Fr
  nullifier : Fr
  identityTag : Fr

/-- What a signer sends to the relayer. -/
structure SignerSubmission where
  petitionId : PetitionId
  rRoot : Bytes32
  predicateHash : Bytes32
  classIndex : UInt8
  slot : Nat
  nullifier : Bytes32
  identityTag : Bytes32
  classTag : ClassTag
  proofBytes : List UInt8

structure BatchPositionWitness where
  submission : SignerSubmission
  publicInputs : SignerPublicInputs
  runningInsert : Option (ImtInsertWitness Fr)
  idtagInsert : Option (ImtInsertWitness Fr)

/-- `pi_fields`. -/
def SignerPublicInputs.fields (pi : SignerPublicInputs) : Fin 8 → Fr :=
  ![pi.rRoot, pi.petitionId, pi.predicateHash, pi.classIndex, pi.classTag, pi.slot, pi.nullifier,
    pi.identityTag]

def positionInput (entry : BatchPositionWitness × Nat) : Except ProofError PositionInput := do
  let (p, i) := entry
  let running ← okOr p.runningInsert
    (.witnessSerialization s!"position {i}: BBProver requires running_insert (IMT witness)")
  let idtag ← okOr p.idtagInsert
    (.witnessSerialization s!"position {i}: BBProver requires idtag_insert (IMT witness)")
  let runningImt ← insertInput running
  let idtagImt ← insertInput idtag
  pure ⟨p.publicInputs.fields, runningImt, running.newRoot, idtagImt, idtag.newRoot⟩

/-- The public inputs; the counts have to fit the circuit's `u32`. -/
def batchCircuitPublic (pi : BatchPublicInputs) : Except ProofError BatchCircuitPublic := do
  failIf (2 ^ 32 ≤ pi.batchSize.val ∨ 2 ^ 32 ≤ pi.priorLeafCount.val ∨
    2 ^ 32 ≤ pi.newLeafCount.val) (.generation "batch: u32 input out of range")
  pure {
    petitionId := pi.petitionId
    rRoot := pi.rRoot
    predicateHash := pi.predicateHash
    classIndex := pi.classIndex
    slot := pi.slot
    batchSize := pi.batchSize.val
    priorRunningRoot := pi.priorRunningRoot
    newRunningRoot := pi.newRunningRoot
    priorIdentityTagSetRoot := pi.priorIdentityTagSetRoot
    newIdentityTagSetRoot := pi.newIdentityTagSetRoot
    priorLeafCount := pi.priorLeafCount.val
    newLeafCount := pi.newLeafCount.val
    batchVersionedHash := pi.batchVersionedHash
    blsFields := fun k => pi.blsFields.getD k.val 0 }

/-- What `generate_batch_proof` hands to the circuit. -/
def batchProverInput (pi : BatchPublicInputs) (positions : List BatchPositionWitness) :
    Except ProofError (BatchCircuitPublic × BatchCircuitWitness) := do
  let len := positions.length
  let wrongSize : ProofError := .witnessSerialization
    s!"BBProver: batch must contain exactly {batchSizeMax} positions (PoC cap); got {len}"
  failIf (positions.length ≠ batchSizeMax) wrongSize
  let inputs ← positions.zipIdx.mapM positionInput
  let pub ← batchCircuitPublic pi
  if size : inputs.length = batchSizeMax then pure (pub, ⟨inputs, size⟩) else throw wrongSize

end Pocs.Civic
