import Pocs.Compliance.Gadgets

/-! # The four circuits

`deposit`, `transfer`, `withdraw` and `withdraw_ungated`. Public inputs are a structure with the types
of the circuit's parameters; `toFields` lists them in the order of `main`, which is how a verifier
receives them. -/

namespace Pocs.Compliance

variable {F : Type} [BnField F]

def noteCommitment (hash : List F → F) (token amount ownerPubkey salt : F) : F :=
  hash [token, amount, ownerPubkey, salt]

/-- The nullifier of a value note, the same in the gated and the ungated circuits. -/
def noteNullifier (hash : List F → F) (commitment spendingKey : F) : F :=
  hash [commitment, spendingKey]

/-! ## `deposit` -/

structure DepositPublic (F : Type) where
  commitment : F
  token : F
  amount : UInt64
  attestationRoot : F
  velocityNullifier : F
  complianceCommitmentOut : F
  epoch : UInt64
  epochSeconds : UInt64
  policySourceHash : F
  commitmentRoot : F
  attesterRevocationRoot : F
  minAcceptedGeneration : UInt64
  payloadCommitment : F

def DepositPublic.toFields (pub : DepositPublic F) : List F :=
  [pub.commitment, pub.token, ofU64 pub.amount, pub.attestationRoot, pub.velocityNullifier,
    pub.complianceCommitmentOut, ofU64 pub.epoch, ofU64 pub.epochSeconds, pub.policySourceHash,
    pub.commitmentRoot, pub.attesterRevocationRoot, ofU64 pub.minAcceptedGeneration,
    pub.payloadCommitment]

structure DepositWitness (F : Type) where
  spendingKey : F
  salt : F
  attestationWitness : AttestationWitness F
  chain : ChainWitness F

def depositTx (hash : List F → F) (pub : DepositPublic F) (w : DepositWitness F) : TxFacts F where
  epoch := pub.epoch
  seq := w.chain.seq
  token := pub.token
  subject := hash [w.spendingKey]
  counterparty := (noCounterparty, noCounterparty)
  valueIn := pub.amount
  valueOut := 0
  exit := noExit

def depositCompliance (hash : List F → F) (pub : DepositPublic F) (w : DepositWitness F) :
    ComplianceInputs F where
  toChainWitness := w.chain
  epoch := pub.epoch
  epochSeconds := pub.epochSeconds
  policySourceHash := pub.policySourceHash
  commitmentRoot := pub.commitmentRoot
  velocityNullifier := pub.velocityNullifier
  complianceCommitmentOut := pub.complianceCommitmentOut
  spendingKey := w.spendingKey
  ownerPubkey := hash [w.spendingKey]

def depositMain (hash : List F → F) (tag : PolicyTag F) (pub : DepositPublic F)
    (w : DepositWitness F) : Except String Unit := do
  let ownerPubkey := hash [w.spendingKey]
  assertMaxBitSize 160 pub.token
  require (pub.commitment = noteCommitment hash pub.token (ofU64 pub.amount) ownerPubkey w.salt)
    "Failed constraint"
  verifyInstance hash ownerPubkey w.attestationWitness pub.epoch pub.minAcceptedGeneration
    pub.attestationRoot pub.attesterRevocationRoot
  complianceRun hash tag (depositCompliance hash pub w) (depositTx hash pub w) pub.amount 0

/-! ## `transfer` -/

structure TransferPublic (F : Type) where
  nullifier0 : F
  nullifier1 : F
  commitmentOut0 : F
  commitmentOut1 : F
  commitmentRoot : F
  velocityNullifier : F
  complianceCommitmentOut : F
  epoch : UInt64
  epochSeconds : UInt64
  policySourceHash : F
  attestationRoot : F
  attesterRevocationRoot : F
  minAcceptedGeneration : UInt64
  payloadCommitment : F

def TransferPublic.toFields (pub : TransferPublic F) : List F :=
  [pub.nullifier0, pub.nullifier1, pub.commitmentOut0, pub.commitmentOut1, pub.commitmentRoot,
    pub.velocityNullifier, pub.complianceCommitmentOut, ofU64 pub.epoch, ofU64 pub.epochSeconds,
    pub.policySourceHash, pub.attestationRoot, pub.attesterRevocationRoot,
    ofU64 pub.minAcceptedGeneration, pub.payloadCommitment]

structure TransferWitness (F : Type) where
  spendingKey : F
  tokenIn0 : F
  amountIn0 : UInt64
  saltIn0 : F
  tokenIn1 : F
  amountIn1 : UInt64
  saltIn1 : F
  tokenOut0 : F
  amountOut0 : UInt64
  ownerOut0 : F
  saltOut0 : F
  tokenOut1 : F
  amountOut1 : UInt64
  ownerOut1 : F
  saltOut1 : F
  path0 : MerklePath F maxCommitmentTreeDepth
  path1 : MerklePath F maxCommitmentTreeDepth
  subjectAttestation : AttestationWitness F
  out0Attestation : AttestationWitness F
  out1Attestation : AttestationWitness F
  chain : ChainWitness F

def TransferWitness.commitmentIn0 (hash : List F → F) (w : TransferWitness F) : F :=
  noteCommitment hash w.tokenIn0 (ofU64 w.amountIn0) (hash [w.spendingKey]) w.saltIn0

def TransferWitness.commitmentIn1 (hash : List F → F) (w : TransferWitness F) : F :=
  noteCommitment hash w.tokenIn1 (ofU64 w.amountIn1) (hash [w.spendingKey]) w.saltIn1

def transferValueOut (hash : List F → F) (w : TransferWitness F) : UInt64 :=
  let ownerPubkey := hash [w.spendingKey]
  let valueOut : UInt64 := 0
  let valueOut := if w.ownerOut0 ≠ ownerPubkey then satAdd valueOut w.amountOut0 else valueOut
  if w.ownerOut1 ≠ ownerPubkey then satAdd valueOut w.amountOut1 else valueOut

def transferTx (hash : List F → F) (pub : TransferPublic F) (w : TransferWitness F) : TxFacts F where
  epoch := pub.epoch
  seq := w.chain.seq
  token := w.tokenIn0
  subject := hash [w.spendingKey]
  counterparty := (w.ownerOut0, w.ownerOut1)
  valueIn := 0
  valueOut := transferValueOut hash w
  exit := noExit

def transferCompliance (hash : List F → F) (pub : TransferPublic F) (w : TransferWitness F) :
    ComplianceInputs F where
  toChainWitness := w.chain
  epoch := pub.epoch
  epochSeconds := pub.epochSeconds
  policySourceHash := pub.policySourceHash
  commitmentRoot := pub.commitmentRoot
  velocityNullifier := pub.velocityNullifier
  complianceCommitmentOut := pub.complianceCommitmentOut
  spendingKey := w.spendingKey
  ownerPubkey := hash [w.spendingKey]

def transferMain (hash : List F → F) (tag : PolicyTag F) (pub : TransferPublic F)
    (w : TransferWitness F) : Except String Unit := do
  let ownerPubkey := hash [w.spendingKey]
  require (w.tokenIn0 = w.tokenIn1) "Failed constraint"
  require (w.tokenIn0 = w.tokenOut0) "Failed constraint"
  require (w.tokenIn0 = w.tokenOut1) "Failed constraint"
  assertMaxBitSize 160 w.tokenIn0
  require (w.path0.proofLength ≤ maxCommitmentTreeDepth) "Failed constraint"
  require (w.path1.proofLength ≤ maxCommitmentTreeDepth) "Failed constraint"
  merkleVerify hash (w.commitmentIn0 hash) pub.commitmentRoot w.path0
  require (pub.nullifier0 = noteNullifier hash (w.commitmentIn0 hash) w.spendingKey) "Failed constraint"
  -- a one-input transfer pads the second input with a zero-value note; only inclusion is skipped
  let isZeroNote := w.amountIn1 = 0
  if ¬ isZeroNote then
    merkleVerify hash (w.commitmentIn1 hash) pub.commitmentRoot w.path1
  require (pub.nullifier1 = noteNullifier hash (w.commitmentIn1 hash) w.spendingKey) "Failed constraint"
  require (pub.commitmentOut0 =
    noteCommitment hash w.tokenOut0 (ofU64 w.amountOut0) w.ownerOut0 w.saltOut0) "Failed constraint"
  require (pub.commitmentOut1 =
    noteCommitment hash w.tokenOut1 (ofU64 w.amountOut1) w.ownerOut1 w.saltOut1) "Failed constraint"
  let totalIn ← u64Add w.amountIn0 w.amountIn1
  let totalOut ← u64Add w.amountOut0 w.amountOut1
  require (totalIn = totalOut) "Failed constraint"
  verifyInstance hash ownerPubkey w.subjectAttestation pub.epoch pub.minAcceptedGeneration
    pub.attestationRoot pub.attesterRevocationRoot
  verifyInstance hash w.ownerOut0 w.out0Attestation pub.epoch pub.minAcceptedGeneration
    pub.attestationRoot pub.attesterRevocationRoot
  verifyInstance hash w.ownerOut1 w.out1Attestation pub.epoch pub.minAcceptedGeneration
    pub.attestationRoot pub.attesterRevocationRoot
  complianceRun hash tag (transferCompliance hash pub w) (transferTx hash pub w) w.amountOut0 w.amountOut1

/-! ## `withdraw` -/

structure WithdrawPublic (F : Type) where
  nullifier : F
  token : F
  amount : UInt64
  recipient : F
  commitmentRoot : F
  velocityNullifier : F
  complianceCommitmentOut : F
  epoch : UInt64
  epochSeconds : UInt64
  policySourceHash : F
  attestationRoot : F
  attesterRevocationRoot : F
  minAcceptedGeneration : UInt64
  payloadCommitment : F

def WithdrawPublic.toFields (pub : WithdrawPublic F) : List F :=
  [pub.nullifier, pub.token, ofU64 pub.amount, pub.recipient, pub.commitmentRoot,
    pub.velocityNullifier, pub.complianceCommitmentOut, ofU64 pub.epoch, ofU64 pub.epochSeconds,
    pub.policySourceHash, pub.attestationRoot, pub.attesterRevocationRoot,
    ofU64 pub.minAcceptedGeneration, pub.payloadCommitment]

structure WithdrawWitness (F : Type) where
  spendingKey : F
  salt : F
  path : MerklePath F maxCommitmentTreeDepth
  subjectAttestation : AttestationWitness F
  chain : ChainWitness F

def withdrawTx (hash : List F → F) (pub : WithdrawPublic F) (w : WithdrawWitness F) : TxFacts F where
  epoch := pub.epoch
  seq := w.chain.seq
  token := pub.token
  subject := hash [w.spendingKey]
  counterparty := (noCounterparty, noCounterparty)
  valueIn := 0
  valueOut := pub.amount
  exit := pub.recipient

def withdrawCompliance (hash : List F → F) (pub : WithdrawPublic F) (w : WithdrawWitness F) :
    ComplianceInputs F where
  toChainWitness := w.chain
  epoch := pub.epoch
  epochSeconds := pub.epochSeconds
  policySourceHash := pub.policySourceHash
  commitmentRoot := pub.commitmentRoot
  velocityNullifier := pub.velocityNullifier
  complianceCommitmentOut := pub.complianceCommitmentOut
  spendingKey := w.spendingKey
  ownerPubkey := hash [w.spendingKey]

def withdrawMain (hash : List F → F) (tag : PolicyTag F) (pub : WithdrawPublic F)
    (w : WithdrawWitness F) : Except String Unit := do
  let ownerPubkey := hash [w.spendingKey]
  assertMaxBitSize 160 pub.token
  assertMaxBitSize 160 pub.recipient
  require (w.path.proofLength ≤ maxCommitmentTreeDepth) "Failed constraint"
  let commitment := noteCommitment hash pub.token (ofU64 pub.amount) ownerPubkey w.salt
  merkleVerify hash commitment pub.commitmentRoot w.path
  require (pub.nullifier = noteNullifier hash commitment w.spendingKey) "Failed constraint"
  verifyInstance hash ownerPubkey w.subjectAttestation pub.epoch pub.minAcceptedGeneration
    pub.attestationRoot pub.attesterRevocationRoot
  complianceRun hash tag (withdrawCompliance hash pub w) (withdrawTx hash pub w) pub.amount 0

/-! ## `withdraw_ungated` -/

structure UngatedWithdrawPublic (F : Type) where
  nullifier : F
  token : F
  amount : F
  recipient : F
  commitmentRoot : F

def UngatedWithdrawPublic.toFields (pub : UngatedWithdrawPublic F) : List F :=
  [pub.nullifier, pub.token, pub.amount, pub.recipient, pub.commitmentRoot]

structure UngatedWithdrawWitness (F : Type) where
  spendingKey : F
  salt : F
  path : MerklePath F maxCommitmentTreeDepth

/-- The parent's withdraw circuit: no range checks, no compliance gadget. -/
def withdrawUngatedMain (hash : List F → F) (pub : UngatedWithdrawPublic F)
    (w : UngatedWithdrawWitness F) : Except String Unit := do
  let ownerPubkey := hash [w.spendingKey]
  require (w.path.proofLength ≤ maxCommitmentTreeDepth) "Failed constraint"
  let commitment := noteCommitment hash pub.token pub.amount ownerPubkey w.salt
  merkleVerify hash commitment pub.commitmentRoot w.path
  let computedNullifier := noteNullifier hash commitment w.spendingKey
  require (pub.nullifier = computedNullifier) "Failed constraint"

/-! ## What the circuits enforce -/

section
variable {hash : List F → F} {tag : PolicyTag F}

theorem depositMain_ok {pub : DepositPublic F} {w : DepositWitness F}
    (h : depositMain hash tag pub w = .ok ()) : pub.commitment =
        noteCommitment hash pub.token (ofU64 pub.amount) (hash [w.spendingKey]) w.salt ∧
      verifyInstance hash (hash [w.spendingKey]) w.attestationWitness pub.epoch
        pub.minAcceptedGeneration pub.attestationRoot pub.attesterRevocationRoot = .ok () ∧
      complianceRun hash tag (depositCompliance hash pub w) (depositTx hash pub w) pub.amount 0 = .ok () := by
  simp only [depositMain, assertMaxBitSize, bind_eq_ok, require_eq_ok, exists_const] at h
  obtain ⟨-, commitment, _, hinstance, hrun⟩ := h
  exact ⟨commitment, hinstance, hrun⟩

/-- The facts of a transfer about its notes. -/
structure TransferOk (hash : List F → F) (pub : TransferPublic F) (w : TransferWitness F) : Prop where
  tokens : w.tokenIn1 = w.tokenIn0 ∧ w.tokenOut0 = w.tokenIn0 ∧ w.tokenOut1 = w.tokenIn0
  included0 : merkleVerify hash (w.commitmentIn0 hash) pub.commitmentRoot w.path0 = .ok ()
  nullifier0 : pub.nullifier0 = noteNullifier hash (w.commitmentIn0 hash) w.spendingKey
  included1 : w.amountIn1 ≠ 0 → merkleVerify hash (w.commitmentIn1 hash) pub.commitmentRoot w.path1 = .ok ()
  nullifier1 : pub.nullifier1 = noteNullifier hash (w.commitmentIn1 hash) w.spendingKey
  out0 : pub.commitmentOut0 = noteCommitment hash w.tokenOut0 (ofU64 w.amountOut0) w.ownerOut0 w.saltOut0
  out1 : pub.commitmentOut1 = noteCommitment hash w.tokenOut1 (ofU64 w.amountOut1) w.ownerOut1 w.saltOut1
  conserved : w.amountIn0.toNat + w.amountIn1.toNat = w.amountOut0.toNat + w.amountOut1.toNat

theorem transferMain_ok {pub : TransferPublic F} {w : TransferWitness F}
    (h : transferMain hash tag pub w = .ok ()) : TransferOk hash pub w ∧
      verifyInstance hash (hash [w.spendingKey]) w.subjectAttestation pub.epoch
        pub.minAcceptedGeneration pub.attestationRoot pub.attesterRevocationRoot = .ok () ∧
      verifyInstance hash w.ownerOut0 w.out0Attestation pub.epoch pub.minAcceptedGeneration
        pub.attestationRoot pub.attesterRevocationRoot = .ok () ∧
      verifyInstance hash w.ownerOut1 w.out1Attestation pub.epoch pub.minAcceptedGeneration
        pub.attestationRoot pub.attesterRevocationRoot = .ok () ∧
      complianceRun hash tag (transferCompliance hash pub w) (transferTx hash pub w) w.amountOut0
        w.amountOut1 = .ok () := by
  simp only [transferMain, assertMaxBitSize, bind_eq_ok, require_eq_ok, exists_const] at h
  obtain ⟨ht1, ht2, ht3, -, -, -, _, included0, nullifier0, h⟩ := h
  have htotal : ∀ {x y : UInt64}, u64Add w.amountIn0 w.amountIn1 = .ok x →
      u64Add w.amountOut0 w.amountOut1 = .ok y → x = y →
      w.amountIn0.toNat + w.amountIn1.toNat = w.amountOut0.toNat + w.amountOut1.toNat := by
    intro x y hx hy hxy
    rw [← toNat_of_u64Add hx, ← toNat_of_u64Add hy, hxy]
  split at h
  · next hne =>
    simp only [bind_eq_ok, require_eq_ok, exists_const] at h
    obtain ⟨_, included1, nullifier1, out0, out1, x, hx, y, hy, hxy, _, v0, _, v1, _, v2, hrun⟩ := h
    exact ⟨⟨⟨ht1.symm, ht2.symm, ht3.symm⟩, included0, nullifier0, fun _ => included1, nullifier1,
      out0, out1, htotal hx hy hxy⟩, v0, v1, v2, hrun⟩
  · next hzero =>
    simp only [bind_eq_ok, require_eq_ok, exists_const] at h
    obtain ⟨nullifier1, out0, out1, x, hx, y, hy, hxy, _, v0, _, v1, _, v2, hrun⟩ := h
    exact ⟨⟨⟨ht1.symm, ht2.symm, ht3.symm⟩, included0, nullifier0,
      fun hne => absurd hne hzero, nullifier1, out0, out1, htotal hx hy hxy⟩, v0, v1, v2, hrun⟩

theorem withdrawMain_ok {pub : WithdrawPublic F} {w : WithdrawWitness F}
    (h : withdrawMain hash tag pub w = .ok ()) :
    merkleVerify hash (noteCommitment hash pub.token (ofU64 pub.amount) (hash [w.spendingKey]) w.salt)
        pub.commitmentRoot w.path = .ok () ∧
      pub.nullifier = noteNullifier hash (noteCommitment hash pub.token (ofU64 pub.amount)
        (hash [w.spendingKey]) w.salt) w.spendingKey ∧
      verifyInstance hash (hash [w.spendingKey]) w.subjectAttestation pub.epoch
        pub.minAcceptedGeneration pub.attestationRoot pub.attesterRevocationRoot = .ok () ∧
      complianceRun hash tag (withdrawCompliance hash pub w) (withdrawTx hash pub w) pub.amount 0 = .ok () := by
  simp only [withdrawMain, assertMaxBitSize, bind_eq_ok, require_eq_ok, exists_const] at h
  obtain ⟨-, -, -, _, included, nullifier, _, hinstance, hrun⟩ := h
  exact ⟨included, nullifier, hinstance, hrun⟩

theorem withdrawUngatedMain_ok {pub : UngatedWithdrawPublic F} {w : UngatedWithdrawWitness F}
    (h : withdrawUngatedMain hash pub w = .ok ()) :
    merkleVerify hash (noteCommitment hash pub.token pub.amount (hash [w.spendingKey]) w.salt)
        pub.commitmentRoot w.path = .ok () ∧
      pub.nullifier = noteNullifier hash (noteCommitment hash pub.token pub.amount
        (hash [w.spendingKey]) w.salt) w.spendingKey := by
  simp only [withdrawUngatedMain, bind_eq_ok, require_eq_ok, exists_const] at h
  obtain ⟨-, _, included, nullifier⟩ := h
  exact ⟨included, nullifier⟩

end

/-! ## The gated circuits as one -/

/-- The public inputs and the witness of a gated circuit. -/
inductive GatedProof (F : Type) where
  | deposit (pub : DepositPublic F) (wit : DepositWitness F)
  | transfer (pub : TransferPublic F) (wit : TransferWitness F)
  | withdraw (pub : WithdrawPublic F) (wit : WithdrawWitness F)

namespace GatedProof

def main (hash : List F → F) (tag : PolicyTag F) : GatedProof F → Except String Unit
  | deposit pub wit => depositMain hash tag pub wit
  | transfer pub wit => transferMain hash tag pub wit
  | withdraw pub wit => withdrawMain hash tag pub wit

def compliance (hash : List F → F) : GatedProof F → ComplianceInputs F
  | deposit pub wit => depositCompliance hash pub wit
  | transfer pub wit => transferCompliance hash pub wit
  | withdraw pub wit => withdrawCompliance hash pub wit

def tx (hash : List F → F) : GatedProof F → TxFacts F
  | deposit pub wit => depositTx hash pub wit
  | transfer pub wit => transferTx hash pub wit
  | withdraw pub wit => withdrawTx hash pub wit

/-- The amounts that the compliance note binds. -/
def amounts : GatedProof F → UInt64 × UInt64
  | deposit pub _ => (pub.amount, 0)
  | transfer _ wit => (wit.amountOut0, wit.amountOut1)
  | withdraw pub _ => (pub.amount, 0)

/-- The keys that must be attested. -/
def screened (hash : List F → F) : GatedProof F → List F
  | deposit _ wit => [hash [wit.spendingKey]]
  | transfer _ wit => [hash [wit.spendingKey], wit.ownerOut0, wit.ownerOut1]
  | withdraw _ wit => [hash [wit.spendingKey]]

def spendingKey : GatedProof F → F
  | deposit _ wit => wit.spendingKey
  | transfer _ wit => wit.spendingKey
  | withdraw _ wit => wit.spendingKey

def epoch : GatedProof F → UInt64
  | deposit pub _ => pub.epoch
  | transfer pub _ => pub.epoch
  | withdraw pub _ => pub.epoch

def seq : GatedProof F → UInt64
  | deposit _ wit => wit.chain.seq
  | transfer _ wit => wit.chain.seq
  | withdraw _ wit => wit.chain.seq

def complianceCommitmentOut : GatedProof F → F
  | deposit pub _ => pub.complianceCommitmentOut
  | transfer pub _ => pub.complianceCommitmentOut
  | withdraw pub _ => pub.complianceCommitmentOut

/-- The roots and the generation floor that the attestations are proved against. -/
def attestationInputs : GatedProof F → F × F × UInt64
  | deposit pub _ => (pub.attestationRoot, pub.attesterRevocationRoot, pub.minAcceptedGeneration)
  | transfer pub _ => (pub.attestationRoot, pub.attesterRevocationRoot, pub.minAcceptedGeneration)
  | withdraw pub _ => (pub.attestationRoot, pub.attesterRevocationRoot, pub.minAcceptedGeneration)

omit [BnField F] in
@[simp] theorem compliance_seq (hash : List F → F) (g : GatedProof F) : (g.compliance hash).seq = g.seq := by
  cases g <;> rfl

omit [BnField F] in
@[simp] theorem compliance_epoch (hash : List F → F) (g : GatedProof F) :
    (g.compliance hash).epoch = g.epoch := by
  cases g <;> rfl

omit [BnField F] in
@[simp] theorem compliance_spendingKey (hash : List F → F) (g : GatedProof F) :
    (g.compliance hash).spendingKey = g.spendingKey := by
  cases g <;> rfl

omit [BnField F] in
@[simp] theorem compliance_out (hash : List F → F) (g : GatedProof F) :
    (g.compliance hash).complianceCommitmentOut = g.complianceCommitmentOut := by
  cases g <;> rfl

variable {hash : List F → F} {tag : PolicyTag F} {g : GatedProof F}

theorem chainStep (h : g.main hash tag = .ok ()) :
    ChainStep hash tag (g.compliance hash) (g.tx hash) g.amounts := by
  cases g with
  | deposit pub wit => exact complianceRun_chainStep (depositMain_ok h).2.2
  | transfer pub wit => exact complianceRun_chainStep (transferMain_ok h).2.2.2.2
  | withdraw pub wit => exact complianceRun_chainStep (withdrawMain_ok h).2.2.2

theorem verifyInstance_of_screened (h : g.main hash tag = .ok ()) {key : F}
    (hkey : key ∈ g.screened hash) : ∃ wit, verifyInstance hash key wit g.epoch
      g.attestationInputs.2.2 g.attestationInputs.1 g.attestationInputs.2.1 = .ok () := by
  cases g with
  | deposit pub wit =>
    obtain rfl := List.mem_singleton.mp hkey
    exact ⟨_, (depositMain_ok h).2.1⟩
  | transfer pub wit =>
    obtain ⟨-, v0, v1, v2, -⟩ := transferMain_ok h
    simp only [screened, List.mem_cons, List.not_mem_nil, or_false] at hkey
    rcases hkey with rfl | rfl | rfl
    · exact ⟨_, v0⟩
    · exact ⟨_, v1⟩
    · exact ⟨_, v2⟩
  | withdraw pub wit =>
    obtain rfl := List.mem_singleton.mp hkey
    exact ⟨_, (withdrawMain_ok h).2.2.1⟩

end GatedProof

end Pocs.Compliance
