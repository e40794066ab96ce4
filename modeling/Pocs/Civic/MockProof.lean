import Pocs.Civic.BatchCircuit

/-! # Proof backends

What the relayer and the registry use of a proof backend, and the sentinel backend of
`adapters/mock_proof.rs`: a proof starts with a digest of the public inputs, and verification derives
the digest again. -/

namespace Pocs.Civic

structure ProofBackend where
  verifySignerProof : List UInt8 → SignerPublicInputs → Except ProofError Unit
  generateBatchProof : BatchPublicInputs → List BatchPositionWitness → Except ProofError (List UInt8)
  verifyBatchProof : List UInt8 → BatchPublicInputs → Except ProofError Unit

/-- What the backend proves, it accepts. -/
def ProofBackend.Complete (backend : ProofBackend) : Prop :=
  ∀ pub positions proof, backend.generateBatchProof pub positions = .ok proof →
    backend.verifyBatchProof proof pub = .ok ()

namespace MockProofBackend
variable (C : Primitives)

def ascii (s : String) : List UInt8 := s.toList.map fun c => UInt8.ofNat c.toNat

def signerDigest (pub : SignerPublicInputs) : Bytes32 :=
  C.sha256 (ascii "RCP-mock/signer/v1" ++ [pub.rRoot, pub.petitionId, pub.predicateHash,
    pub.classIndex, pub.classTag, pub.slot, pub.nullifier, pub.identityTag].flatMap
      fun fr => (frToBeBytes fr).1)

def batchDigest (pub : BatchPublicInputs) : Bytes32 :=
  C.sha256 (ascii "RCP-mock/batch/v1" ++ ([pub.petitionId, pub.rRoot, pub.predicateHash,
    pub.classIndex, pub.slot, pub.batchSize, pub.priorRunningRoot, pub.newRunningRoot,
    pub.priorIdentityTagSetRoot, pub.newIdentityTagSetRoot, pub.priorLeafCount, pub.newLeafCount,
    pub.batchVersionedHash, pub.signerVkHash] ++ pub.blsFields).flatMap fun fr => (frToBeBytes fr).1)

def StartsWith (proof : List UInt8) (expected : Bytes32) : Prop :=
  32 ≤ proof.length ∧ proof.take 32 = expected.1

instance (proof : List UInt8) (expected : Bytes32) : Decidable (StartsWith proof expected) :=
  inferInstanceAs (Decidable (_ ∧ _))

def verifySignerProof (proof : List UInt8) (pub : SignerPublicInputs) : Except ProofError Unit :=
  failIf (¬ StartsWith proof (signerDigest C pub)) (.verification "signer proof mismatch")

/-- The stand-in for the recursive verification at one position. -/
def checkRecursion (entry : BatchPositionWitness × Nat) : Except ProofError Unit :=
  let (p, i) := entry
  failIf (¬ StartsWith p.submission.proofBytes (signerDigest C p.publicInputs))
    (.verification s!"batch position {i} signer proof failed mock recursion check")

def generateBatchProof (pub : BatchPublicInputs) (positions : List BatchPositionWitness) :
    Except ProofError (List UInt8) := do
  failIf (positions = []) (.witnessSerialization "batch has no positions")
  positions.zipIdx.forM (checkRecursion C)
  pure ((batchDigest C pub).1 ++ ascii "batch-mock")

def verifyBatchProof (proof : List UInt8) (pub : BatchPublicInputs) : Except ProofError Unit :=
  failIf (¬ StartsWith proof (batchDigest C pub)) (.verification "batch proof mismatch")

def backend : ProofBackend := ⟨verifySignerProof C, generateBatchProof C, verifyBatchProof C⟩

variable {C}

theorem startsWith_append (expected : Bytes32) (suffix : List UInt8) :
    StartsWith (expected.1 ++ suffix) expected := by
  have hlen := expected.2
  refine ⟨?_, List.take_left' hlen⟩
  rw [List.length_append]
  omega

theorem backend_complete : (backend C).Complete := by
  intro pub positions proof h
  simp only [backend, generateBatchProof, bind_eq_ok, pure_eq_ok] at h
  obtain ⟨_, -, _, -, rfl⟩ := h
  exact failIf_neg (not_not.mpr (startsWith_append _ _)) _

/-- Positions with proofs of their public inputs are proved. -/
theorem exists_generateBatchProof (pub : BatchPublicInputs) {positions : List BatchPositionWitness}
    (hpos : positions ≠ []) (h : ∀ p ∈ positions,
      StartsWith p.submission.proofBytes (signerDigest C p.publicInputs)) :
    ∃ proof, (backend C).generateBatchProof pub positions = .ok proof := by
  have hforM : positions.zipIdx.forM (checkRecursion C) = .ok () := by
    apply forM_eq_ok.mpr
    intro entry hentry
    have hmem : entry.1 ∈ positions := by
      obtain ⟨p, i⟩ := entry
      exact List.fst_mem_of_mem_zipIdx hentry
    exact failIf_neg (not_not.mpr (h entry.1 hmem)) _
  refine ⟨(batchDigest C pub).1 ++ ascii "batch-mock", ?_⟩
  simp only [backend, generateBatchProof]
  rw [failIf_neg hpos, ok_bind, hforM, ok_bind]
  rfl

end MockProofBackend

end Pocs.Civic
