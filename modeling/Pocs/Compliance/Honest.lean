import Pocs.Compliance.Attestations
import Pocs.Compliance.Notes

/-! # Honest operations

The other direction of soundness: with verifiers that accept what the circuits can prove
(`Deployment.Complete`), the pool accepts the words of a satisfied circuit whose public inputs agree
with the chain (`deposit_complete`, `withdraw_complete`). `Sample` is a deployment over any hash, with
a deposit and a withdrawal at the first two positions of a velocity chain. -/

namespace Pocs.Compliance

open Policy (evaluate zero)
open AttestationRegistry
open BnField

variable {F T τ : Type} [BnField F] {D : Deployment F T τ} {w : World F T τ} {sender : Address}

/-- Each verifier accepts what its circuit can prove. -/
structure Deployment.Complete (D : Deployment F T τ) : Prop where
  deposit : ∀ verifier proof {inputs pub wit}, inputs.map Scalar.ofNat = DepositPublic.toFields pub →
    depositMain D.hash D.policyTag pub wit = .ok () → D.verifyDeposit verifier proof inputs = true
  transfer : ∀ verifier proof {inputs pub wit}, inputs.map Scalar.ofNat = TransferPublic.toFields pub →
    transferMain D.hash D.policyTag pub wit = .ok () → D.verifyTransfer verifier proof inputs = true
  withdraw : ∀ verifier proof {inputs pub wit}, inputs.map Scalar.ofNat = WithdrawPublic.toFields pub →
    withdrawMain D.hash D.policyTag pub wit = .ok () → D.verifyWithdraw verifier proof inputs = true
  ungated : ∀ verifier proof {inputs pub wit}, inputs.map Scalar.ofNat = UngatedWithdrawPublic.toFields pub →
    withdrawUngatedMain D.hash pub wit = .ok () → D.verifyUngated verifier proof inputs = true

/-! ## The words of public inputs -/

def DepositPublic.params (pub : DepositPublic F) (encryptedNotes : List UInt8) : DepositParams where
  proof := []
  commitment := Scalar.toNat pub.commitment
  token := Scalar.toNat pub.token
  amount := pub.amount.toNat
  attestationRoot := Scalar.toNat pub.attestationRoot
  velocityNullifier := Scalar.toNat pub.velocityNullifier
  complianceCommitmentOut := Scalar.toNat pub.complianceCommitmentOut
  epoch := pub.epoch.toNat
  epochSeconds := pub.epochSeconds.toNat
  policySourceHash := Scalar.toNat pub.policySourceHash
  commitmentRoot := Scalar.toNat pub.commitmentRoot
  attesterRevocationRoot := Scalar.toNat pub.attesterRevocationRoot
  minAcceptedGeneration := pub.minAcceptedGeneration.toNat
  payloadCommitment := Scalar.toNat pub.payloadCommitment
  encryptedNotes := encryptedNotes

def WithdrawPublic.params (pub : WithdrawPublic F) (recipient : Address)
    (encryptedNotes : List UInt8) : WithdrawParams where
  proof := []
  nullifier := Scalar.toNat pub.nullifier
  token := Scalar.toNat pub.token
  amount := pub.amount.toNat
  recipient := recipient
  commitmentRoot := Scalar.toNat pub.commitmentRoot
  velocityNullifier := Scalar.toNat pub.velocityNullifier
  complianceCommitmentOut := Scalar.toNat pub.complianceCommitmentOut
  epoch := pub.epoch.toNat
  epochSeconds := pub.epochSeconds.toNat
  policySourceHash := Scalar.toNat pub.policySourceHash
  attestationRoot := Scalar.toNat pub.attestationRoot
  attesterRevocationRoot := Scalar.toNat pub.attesterRevocationRoot
  minAcceptedGeneration := pub.minAcceptedGeneration.toNat
  payloadCommitment := Scalar.toNat pub.payloadCommitment
  encryptedNotes := encryptedNotes

theorem canonical_u64 (x : UInt64) : canonical F x.toNat = true :=
  canonical_of_lt (x.toNat_lt.trans (by decide))

theorem canonical_address (a : Address) : canonical F a.toNat = true :=
  canonical_of_lt (a.isLt.trans (by decide))

theorem DepositPublic.params_inputs (pub : DepositPublic F) (encryptedNotes : List UInt8) :
    (pub.params encryptedNotes).inputs.map Scalar.ofNat = pub.toFields ∧
      ∀ n ∈ (pub.params encryptedNotes).inputs, canonical F n = true := by
  simp only [DepositParams.inputs, params, toFields, List.map_cons, List.map_nil, ofU64,
    ofNat_toNat, List.forall_mem_cons, List.not_mem_nil, false_imp_iff, implies_true,
    canonical_toNat, canonical_u64, and_self]

theorem WithdrawPublic.params_inputs (pub : WithdrawPublic F) {recipient : Address}
    (hrecipient : pub.recipient = ofAddress recipient) (encryptedNotes : List UInt8) :
    (pub.params recipient encryptedNotes).inputs.map Scalar.ofNat = pub.toFields ∧
      ∀ n ∈ (pub.params recipient encryptedNotes).inputs, canonical F n = true := by
  simp only [WithdrawParams.inputs, params, toFields, hrecipient, List.map_cons, List.map_nil, ofU64,
    ofAddress, ofNat_toNat, List.forall_mem_cons, List.not_mem_nil, false_imp_iff,
    implies_true, canonical_toNat, canonical_u64, canonical_address, and_self]

/-! ## Acceptance -/

/-- The public inputs of a gated circuit agree with the pool, which is open, and the registry. -/
structure Agrees (D : Deployment F T τ) (w : World F T τ) (g : GatedProof F) : Prop where
  unpaused : w.pool.pausedUntilEpoch ≤ w.epoch D
  settled : w.pool.pendingVerifier = 0
  policy : Scalar.toNat (g.compliance D.hash).policySourceHash = w.pool.activePolicySourceHash
  epoch : g.epoch.toNat = w.epoch D
  epochSeconds : (g.compliance D.hash).epochSeconds.toNat = D.epochSeconds
  root : isKnownRoot D w (Scalar.toNat (g.compliance D.hash).commitmentRoot) = true
  registry : RegistryChecked D w (Scalar.toNat g.attestationInputs.1)
    (Scalar.toNat g.attestationInputs.2.1) g.attestationInputs.2.2.toNat

def World.after (D : Deployment F T τ) (w : World F T τ) (nullifiers : List Word) (tree : T)
    (token : τ) : World F T τ :=
  { w with pool := recordRoot D { w.pool.markAll nullifiers with tree }, token }

omit [BnField F] in
theorem maybePromotePolicy_settled (h : w.pool.pendingVerifier = 0) : maybePromotePolicy D w = (w, []) :=
  if_neg fun hpending => hpending.1 h

theorem deposit_complete (hC : D.Complete) {pub : DepositPublic F} {wit : DepositWitness F}
    {encryptedNotes : List UInt8} {tree : T} {token : τ}
    (hmain : depositMain D.hash D.policyTag pub wit = .ok ()) (agrees : Agrees D w (.deposit pub wit))
    (htoken : pub.token = ofAddress D.tokenAddress) (hamount : pub.amount ≠ 0)
    (hpayload : pub.payloadCommitment = Scalar.ofNat (D.keccak256 encryptedNotes))
    (hfresh : w.pool.nullifiers (Scalar.toNat pub.velocityNullifier) = false)
    (htree : [pub.commitment, pub.complianceCommitmentOut].foldlM
      (fun tree leaf => D.imt.insert leaf tree) w.pool.tree = .ok tree)
    (hpaid : D.token.transferFrom D.address sender D.address pub.amount.toNat w.token = some token) :
    ∃ events, deposit D w sender (pub.params encryptedNotes) =
      .ok (w.after D [Scalar.toNat pub.velocityNullifier] tree token, events) := by
  obtain ⟨hinputs, hcanonical⟩ := pub.params_inputs encryptedNotes
  have hins : insertAll D (w.pool.markAll [Scalar.toNat pub.velocityNullifier])
      [Scalar.toNat pub.commitment, Scalar.toNat pub.complianceCommitmentOut] =
      .ok { w.pool.markAll [Scalar.toNat pub.velocityNullifier] with tree } := by
    simp only [insertAll, List.map_cons, List.map_nil, ofNat_toNat, bind_eq_ok, mapErr_eq_ok, pure_eq_ok]
    exact ⟨tree, htree, rfl⟩
  have hword : Scalar.toNat pub.token = D.tokenAddress.toNat := by
    rw [htoken]
    exact toNat_ofNat_of_canonical (canonical_address _)
  simp only [deposit, maybePromotePolicy_settled agrees.settled, bind_eq_ok, failIf_eq_ok,
    requireCanonical_eq_ok, checkRegistry_eq_ok, okOr_eq_ok, pure_eq_ok, exists_const, not_not,
    Bool.not_eq_false, Bool.not_eq_true, Prod.mk.injEq]
  refine ⟨_, Nat.not_lt.mpr agrees.unpaused, hcanonical, hword, ?_, agrees.epoch,
    agrees.epochSeconds, agrees.policy, hfresh, agrees.root, agrees.registry, (), ?_,
    hC.deposit _ _ hinputs hmain, _, hins, token, hpaid, rfl, rfl⟩
  · exact fun hzero => hamount (UInt64.toNat_inj.mp hzero)
  · rw [checkPayload, failIf_eq_ok, not_not]
    exact congrArg Scalar.toNat hpayload

theorem withdraw_complete (hC : D.Complete) {pub : WithdrawPublic F} {wit : WithdrawWitness F}
    {recipient : Address} {encryptedNotes : List UInt8} {tree : T} {token : τ}
    (hmain : withdrawMain D.hash D.policyTag pub wit = .ok ())
    (agrees : Agrees D w (.withdraw pub wit)) (htoken : pub.token = ofAddress D.tokenAddress)
    (hamount : pub.amount ≠ 0) (hrecipient : pub.recipient = ofAddress recipient)
    (hnonzero : recipient ≠ 0) (hallowed : w.pool.blockedDestination recipient = false)
    (hpayload : pub.payloadCommitment = Scalar.ofNat (D.keccak256 encryptedNotes))
    (hne : pub.nullifier ≠ pub.velocityNullifier)
    (hfresh : w.pool.nullifiers (Scalar.toNat pub.nullifier) = false ∧
      w.pool.nullifiers (Scalar.toNat pub.velocityNullifier) = false)
    (htree : [pub.complianceCommitmentOut].foldlM (fun tree leaf => D.imt.insert leaf tree)
      w.pool.tree = .ok tree)
    (hpaid : D.token.transfer D.address recipient pub.amount.toNat w.token = some token) :
    ∃ events, withdraw D w (pub.params recipient encryptedNotes) = .ok (w.after D
      [Scalar.toNat pub.nullifier, Scalar.toNat pub.velocityNullifier] tree token, events) := by
  obtain ⟨hinputs, hcanonical⟩ := pub.params_inputs hrecipient encryptedNotes
  have hins : insertAll D (w.pool.markAll [Scalar.toNat pub.nullifier, Scalar.toNat pub.velocityNullifier])
      [Scalar.toNat pub.complianceCommitmentOut] = .ok { w.pool.markAll
        [Scalar.toNat pub.nullifier, Scalar.toNat pub.velocityNullifier] with tree } := by
    simp only [insertAll, List.map_cons, List.map_nil, ofNat_toNat, bind_eq_ok, mapErr_eq_ok, pure_eq_ok]
    exact ⟨tree, htree, rfl⟩
  have hword : Scalar.toNat pub.token = D.tokenAddress.toNat := by
    rw [htoken]
    exact toNat_ofNat_of_canonical (canonical_address _)
  simp only [withdraw, maybePromotePolicy_settled agrees.settled, bind_eq_ok, failIf_eq_ok,
    requireCanonical_eq_ok, checkRegistry_eq_ok, okOr_eq_ok, pure_eq_ok, exists_const, not_not,
    not_or, Bool.not_eq_false, Bool.not_eq_true, Prod.mk.injEq]
  refine ⟨_, Nat.not_lt.mpr agrees.unpaused, hcanonical, hword, ?_, hnonzero, agrees.epoch,
    agrees.epochSeconds, agrees.policy, fun he => hne (Scalar.toNat_inj he), hfresh, agrees.root,
    agrees.registry, hallowed, (), ?_, hC.withdraw _ _ hinputs hmain, _, hins, token, hpaid, rfl, rfl⟩
  · exact fun hzero => hamount (UInt64.toNat_inj.mp hzero)
  · rw [checkPayload, failIf_eq_ok, not_not]
    exact congrArg Scalar.toNat hpayload

/-! ## A deployment -/

/-- A verifier that accepts exactly what can be proved. -/
noncomputable def accepts (provable : Prop) : Bool := @decide provable (Classical.propDecidable _)

theorem accepts_iff {provable : Prop} : accepts provable = true ↔ provable :=
  @decide_eq_true_iff _ (Classical.propDecidable _)

namespace Sample
variable (hash : List F → F)

def tag : PolicyTag F := ⟨0, stateTag hash 0⟩

noncomputable def deployment : Deployment F (LeanImtTree (merkleHash hash)) (Address → Nat) where
  hash := hash
  imt := leanImt (merkleHash hash)
  epochSeconds := 86400
  maxAttestationEpochs := 7
  minCohortSize := 1
  overlapEpochs := 2
  policyTag := tag hash
  address := 10
  tokenAddress := 9
  token := ledger Address
  timelockDelaySeconds := 0
  maxPauseEpochs := 2
  maxBlockedExitPauseEpochs := 1
  pauseBudgetEpochs := 4
  pauseWindowEpochs := 30
  keccak256 _ := 0
  hasCode _ := true
  verifyDeposit _ _ inputs := accepts (∃ pub wit,
    inputs.map Scalar.ofNat = DepositPublic.toFields pub ∧ depositMain hash (tag hash) pub wit = .ok ())
  verifyTransfer _ _ inputs := accepts (∃ pub wit, inputs.map Scalar.ofNat = TransferPublic.toFields pub ∧
      transferMain hash (tag hash) pub wit = .ok ())
  verifyWithdraw _ _ inputs := accepts (∃ pub wit, inputs.map Scalar.ofNat = WithdrawPublic.toFields pub ∧
      withdrawMain hash (tag hash) pub wit = .ok ())
  verifyUngated _ _ inputs := accepts (∃ pub wit, inputs.map Scalar.ofNat = UngatedWithdrawPublic.toFields pub ∧
      withdrawUngatedMain hash pub wit = .ok ())

theorem sound : (deployment hash).Sound where
  deposit h := accepts_iff.mp h
  transfer h := accepts_iff.mp h
  withdraw h := accepts_iff.mp h
  ungated h := accepts_iff.mp h

theorem lawful : (deployment hash).imt.Lawful (merkleHash (deployment hash).hash) := leanImt_lawful

theorem complete : (deployment hash).Complete where
  deposit _ _ _ _ _ hinputs hmain := accepts_iff.mpr ⟨_, _, hinputs, hmain⟩
  transfer _ _ _ _ _ hinputs hmain := accepts_iff.mpr ⟨_, _, hinputs, hmain⟩
  withdraw _ _ _ _ _ hinputs hmain := accepts_iff.mpr ⟨_, _, hinputs, hmain⟩
  ungated _ _ _ _ _ hinputs hmain := accepts_iff.mpr ⟨_, _, hinputs, hmain⟩

/-! ### The registry -/

def admin : Address := 1
def timelock : Address := 2
def depositor : Address := 12
def attester : Address := 13
def timestamp : Nat := 604800
def expiresAt : UInt64 := 1209600

def spendingKey : F := Scalar.ofNat 5

def owner : F := hash [spendingKey]

def registry₀ : AttestationRegistry F (LeanImtTree (merkleHash hash)) where
  attestationTree := (leanImt (merkleHash hash)).empty
  revocationTree := .init hash
  historicalAttestationRoots := fun _ => 0
  historicalAttestationRootIndex := 0
  validAttestationRoots := fun _ => false
  currentGeneration := 0
  storedMinAcceptedGeneration := 0
  pendingMinAcceptedGeneration := 0
  minAcceptedGenerationActivationEpoch := uint256Max
  roles := (Roles.set (fun _ _ => false) .defaultAdmin admin true).set .timelock timelock true

theorem registry_new : AttestationRegistry.new (deployment hash).toRegistryConfig admin timelock =
    .ok (registry₀ hash) := rfl

def revocationTree : RevocationTree F := .refresh hash { RevocationTree.init hash with
    isAttester := Function.update (fun _ => false) attester true
    revokedAtEpoch := Function.update (fun _ => 0) attester uint64Max
    attesters := [attester] }

/-- The registry with one attester, over the attestation tree `tree`. -/
def registry (tree : LeanImtTree (merkleHash hash)) : AttestationRegistry F (LeanImtTree (merkleHash hash)) :=
  { registry₀ hash with
    attestationTree := tree
    revocationTree := revocationTree hash
    roles := (registry₀ hash).roles.set .attester attester true }

theorem addAttester_ok : (registry₀ hash).addAttester (deployment hash).toRegistryConfig admin
    attester = .ok (registry hash (leanImt (merkleHash hash)).empty, [.attesterAdded attester]) := rfl

def leaf : F :=
  hash [owner hash, ofAddress attester, ofU64 0, ofU64 (UInt64.ofNat timestamp), ofU64 expiresAt]

theorem checkExpiry_ok : checkExpiry (deployment hash).toRegistryConfig timestamp expiresAt = .ok () := by
  have hcalendar : calendarExpiry (deployment hash).toRegistryConfig 7 = .ok expiresAt := by
    have hnat : (7 / (deployment hash).maxAttestationEpochs + 1) *
        (deployment hash).maxAttestationEpochs * (deployment hash).epochSeconds = 1209600 := by
      show (7 / 7 + 1) * 7 * 86400 = 1209600
      rfl
    simp only [calendarExpiry, u256, toUint64, bind_eq_ok, failIf_eq_ok, pure_eq_ok, hnat, exists_const]
    exact ⟨_, ⟨by decide, rfl⟩, by decide, rfl⟩
  have hepoch : currentEpoch (deployment hash).toRegistryConfig timestamp = 7 := by
    show 604800 / 86400 = 7
    rfl
  have hfirst : (7 + 1) * (deployment hash).epochSeconds = 691200 := by
    show (7 + 1) * 86400 = 691200
    rfl
  have hlast : (7 + 1 + (deployment hash).maxAttestationEpochs + (deployment hash).overlapEpochs) *
      (deployment hash).epochSeconds = 1468800 := by
    show (7 + 1 + 7 + 2) * 86400 = 1468800
    rfl
  have hcalendar' : ¬ (expiresAt ≠ expiresAt ∧ inOverlapWindow (deployment hash).toRegistryConfig 7 = true) :=
    fun h => h.1 rfl
  simp only [checkExpiry, hepoch, hfirst, hlast, u256, bind_eq_ok, failIf_eq_ok, pure_eq_ok, exists_const]
  refine ⟨_, ⟨by decide, rfl⟩, by decide, _, ⟨by decide, rfl⟩, by decide, _, hcalendar, ?_⟩
  rw [if_neg hcalendar']
  rfl

theorem addAttestations_ok (H : Ideal hash) : ∃ tree, (leanImt (merkleHash hash)).root tree = leaf hash ∧
      ∃ events, (registry hash (leanImt (merkleHash hash)).empty).addAttestations
        (deployment hash).toRegistryConfig attester timestamp [Scalar.toNat (owner hash)] expiresAt 0 =
          .ok (registry hash tree, events) := by
  have hne : leaf hash ≠ 0 := H.ne_zero (by simp) (by simp)
  obtain ⟨tree, htree, hdata⟩ := @leanImt_insert_first F _ _ (merkleHash hash) _ hne
  have hroot : (leanImt (merkleHash hash)).root tree = leaf hash := by
    show tree.data.root = leaf hash
    rw [hdata]
    rfl
  have hissue : (registry hash (leanImt (merkleHash hash)).empty).issueOne
      (deployment hash).toRegistryConfig attester 0 (UInt64.ofNat timestamp) expiresAt
      (Scalar.toNat (owner hash)) = .ok (registry hash tree) := by
    simp only [issueOne, bind_eq_ok, mapErr_eq_ok, pure_eq_ok, attestationLeaf, ofNat_toNat]
    exact ⟨tree, htree, rfl⟩
  have hbefore : (registry hash (leanImt (merkleHash hash)).empty).attestationRoot
      (deployment hash).toRegistryConfig = 0 := Scalar.toNat_zero
  have hadvance : (registry hash tree).advanceAttestationRoot 0 = registry hash tree := rfl
  refine ⟨tree, hroot, ?_⟩
  simp only [addAttestations, bind_eq_ok, pure_eq_ok, Prod.mk.injEq]
  refine ⟨_, (), rfl, (), rfl, (), checkExpiry_ok hash,
    registry hash (leanImt (merkleHash hash)).empty, rfl, registry hash tree, ?_, ?_, rfl⟩
  · rw [List.foldlM_cons, bind_eq_ok]
    exact ⟨_, hissue, rfl⟩
  · rw [hbefore, hadvance]

def constructorParams : ConstructorParams where
  attestationRegistry := 11
  initialVerifier := 3
  initialPolicySourceHash := 0
  ungatedWithdrawVerifier := 4
  blockedFundsAccount := 5
  singleTxThreshold := 1000
  timelockController := admin
  guardian := 6
  curator := 7
  committee := 8

/-- The fields of a new pool that the gated operations read. -/
structure FreshPool (pool : ShieldedPool (LeanImtTree (merkleHash hash))) : Prop where
  tree : pool.tree = (leanImt (merkleHash hash)).empty
  nullifiers : pool.nullifiers = fun _ => false
  unpaused : pool.pausedUntilEpoch = 0
  settled : pool.pendingVerifier = 0
  policy : pool.activePolicySourceHash = 0
  allowed : pool.blockedDestination = fun _ => false

theorem pool_new : ∃ pool, ShieldedPool.new (deployment hash) timestamp constructorParams = .ok pool ∧
    FreshPool hash pool :=
  ⟨_, rfl, rfl, rfl, rfl, rfl, rfl, rfl⟩

/-- The attestation of the key. -/
theorem exists_credential : ∃ wit : AttestationWitness F,
    verifyInstance hash (owner hash) wit 7 0 (leaf hash) (revocationTree hash).cachedRoot = .ok () := by
  obtain ⟨indices, path, hverify⟩ := @RevocationTree.merkleVerify_leafNodes F _ hash
    (revocationTree hash) 0 (by decide)
  have hleaf : (revocationTree hash).leafNodes hash 0 = hash [ofAddress attester, ofU64 uint64Max] := rfl
  have hcached : (revocationTree hash).cachedRoot = (revocationTree hash).computeRoot hash :=
    RevocationTree.refresh_cachedRoot _
  rw [hleaf, ← hcached] at hverify
  let wit : AttestationWitness F :=
    { attester := ofAddress attester
      generation := 0
      issuedAt := UInt64.ofNat timestamp
      expiresAt := expiresAt
      attPath := .ofList []
      revokedAt := uint64Max
      revIndices := indices
      revPath := path }
  have hok : InstanceOk hash (owner hash) wit 7 0 (leaf hash) (revocationTree hash).cachedRoot :=
    { included := (merkleVerify_ofList (Nat.zero_le _)).mpr rfl
      expiry := by
        show (UInt64.toNat 7 + 1) * noirEpochSeconds.toNat ≤ expiresAt.toNat
        decide
      generation := UInt64.le_refl _
      contained := hverify
      unrevoked := by
        show (7 : UInt64) < uint64Max
        decide }
  exact ⟨wit, hok.verifyInstance (Nat.zero_le _)⟩

/-! ### Two positions of a chain -/

def amount : UInt64 := 100

def token : F := ofAddress 9

def noteOf : F := noteCommitment hash token (ofU64 amount) (owner hash) 0

/-- The state after an operation that moves `valueOut`. -/
def advanced (st : Policy.State) (valueOut : UInt64) : Policy.State :=
  ⟨Function.update st.s ⟨0, Nat.one_pos⟩ (st.total + valueOut)⟩

/-- The chain witness of a position without a predecessor. -/
def chain₀ : ChainWitness F where
  seq := 0
  epochIn := 7
  prev := zero
  flagsIn := 0
  cpIn := (0, 0)
  amtIn := (0, 0)
  exitIn := 0
  saltIn := 0
  saltOut := 0
  cnPath := .ofList []

def depositTx₀ : TxFacts F where
  epoch := 7
  seq := 0
  token := token
  subject := owner hash
  counterparty := (noCounterparty, noCounterparty)
  valueIn := amount
  valueOut := 0
  exit := noExit

def depositNote : F :=
  chainNote hash (tag hash) (owner hash) 7 1 (advanced zero 0)
    (evaluate (depositTx₀ hash) zero (advanced zero 0)) (depositTx₀ hash)
    (amount, 0) 0

def depositPublic : DepositPublic F where
  commitment := noteOf hash
  token := token
  amount := amount
  attestationRoot := leaf hash
  velocityNullifier := hash [vnTag, spendingKey, ofU64 7, ofU64 0]
  complianceCommitmentOut := depositNote hash
  epoch := 7
  epochSeconds := noirEpochSeconds
  policySourceHash := 0
  commitmentRoot := 0
  attesterRevocationRoot := (revocationTree hash).cachedRoot
  minAcceptedGeneration := 0
  payloadCommitment := Scalar.ofNat 0

def depositWitness (wit : AttestationWitness F) : DepositWitness F where
  spendingKey := spendingKey
  salt := 0
  attestationWitness := wit
  chain := chain₀

def chain₁ : ChainWitness F where
  seq := 1
  epochIn := 7
  prev := advanced zero 0
  flagsIn := evaluate (depositTx₀ hash) zero (advanced zero 0)
  cpIn := (noCounterparty, noCounterparty)
  amtIn := (amount, 0)
  exitIn := noExit
  saltIn := 0
  saltOut := 0
  cnPath := .ofList [(true, noteOf hash)]

def withdrawTx₁ (recipient : Address) : TxFacts F where
  epoch := 7
  seq := 1
  token := token
  subject := owner hash
  counterparty := (noCounterparty, noCounterparty)
  valueIn := 0
  valueOut := amount
  exit := ofAddress recipient

def withdrawNote (recipient : Address) : F :=
  chainNote hash (tag hash) (owner hash) 7 2 (advanced (advanced zero 0) amount)
    (evaluate (withdrawTx₁ hash recipient) (advanced zero 0)
      (advanced (advanced zero 0) amount)) (withdrawTx₁ hash recipient) (amount, 0) 0

def withdrawPublic (recipient : Address) : WithdrawPublic F where
  nullifier := noteNullifier hash (noteOf hash) spendingKey
  token := token
  amount := amount
  recipient := ofAddress recipient
  commitmentRoot := merkleHash hash (noteOf hash) (depositNote hash)
  velocityNullifier := hash [vnTag, spendingKey, ofU64 7, ofU64 1]
  complianceCommitmentOut := withdrawNote hash recipient
  epoch := 7
  epochSeconds := noirEpochSeconds
  policySourceHash := 0
  attestationRoot := leaf hash
  attesterRevocationRoot := (revocationTree hash).cachedRoot
  minAcceptedGeneration := 0
  payloadCommitment := Scalar.ofNat 0

def withdrawWitness (wit : AttestationWitness F) : WithdrawWitness F where
  spendingKey := spendingKey
  salt := 0
  path := .ofList [(false, depositNote hash)]
  subjectAttestation := wit
  chain := chain₁ hash

theorem depositMain_ok {wit : AttestationWitness F} (hwit : verifyInstance hash (owner hash) wit 7 0
    (leaf hash) (revocationTree hash).cachedRoot = .ok ()) :
    depositMain hash (tag hash) (depositPublic hash) (depositWitness wit) = .ok () := by
  have htoken : Scalar.toNat (token : F) < 2 ^ 160 := toNat_ofAddress_lt _
  have step : ChainStep hash (tag hash) (depositCompliance hash (depositPublic hash)
      (depositWitness wit)) (depositTx hash (depositPublic hash) (depositWitness wit)) (amount, 0) :=
    { owner := rfl
      epochIn := rfl
      epochSeconds := rfl
      txSeq := rfl
      origin := fun _ => rfl
      included := fun h => absurd rfl h
      nullifier := rfl
      noted := ⟨advanced zero 0, 1, rfl, rfl, rfl⟩ }
  simp only [depositMain, assertMaxBitSize, bind_eq_ok, require_eq_ok, exists_const]
  exact ⟨htoken, rfl, (), hwit, step.complianceRun rfl rfl rfl rfl htoken (Nat.zero_le _) fun _ => rfl⟩

theorem withdrawMain_ok (recipient : Address) {wit : AttestationWitness F}
    (hwit : verifyInstance hash (owner hash) wit 7 0 (leaf hash) (revocationTree hash).cachedRoot = .ok ()) :
    withdrawMain hash (tag hash) (withdrawPublic hash recipient) (withdrawWitness hash wit) = .ok () := by
  have hone : 1 ≤ maxCommitmentTreeDepth := by decide
  have hseq : (1 : UInt64) ≠ 0 := by decide
  have htoken : Scalar.toNat (token : F) < 2 ^ 160 := toNat_ofAddress_lt _
  have step : ChainStep hash (tag hash) (withdrawCompliance hash (withdrawPublic hash recipient)
      (withdrawWitness hash wit)) (withdrawTx hash (withdrawPublic hash recipient)
        (withdrawWitness hash wit)) (amount, 0) :=
    { owner := rfl
      epochIn := rfl
      epochSeconds := rfl
      txSeq := rfl
      origin := fun h => absurd h hseq
      included := fun _ => (merkleVerify_ofList hone).mpr rfl
      nullifier := rfl
      noted := ⟨advanced (advanced zero 0) amount, 2, rfl, rfl, rfl⟩ }
  have hincluded : merkleVerify hash (noteOf hash) (merkleHash hash (noteOf hash) (depositNote hash))
      (withdrawWitness hash wit).path = .ok () := (merkleVerify_ofList hone).mpr rfl
  simp only [withdrawMain, assertMaxBitSize, bind_eq_ok, require_eq_ok, exists_const]
  exact ⟨htoken, toNat_ofAddress_lt _, hone, (), hincluded, rfl, (), hwit,
    step.complianceRun rfl rfl rfl rfl htoken hone fun h => absurd h hseq⟩

/-! ### The run -/

def funds (a : Address) : Nat := if a = depositor then 100 else 0

def world (tree : LeanImtTree (merkleHash hash)) (pool : ShieldedPool (LeanImtTree (merkleHash hash))) :
    World F (LeanImtTree (merkleHash hash)) (Address → Nat) :=
  ⟨timestamp, registry hash tree, pool, funds⟩

def registrySteps : List Step :=
  [.registry attester (.addAttestations [Scalar.toNat (owner hash)] expiresAt 0),
    .registry admin (.addAttester attester)]

theorem exists_setup (H : Ideal hash) : ∃ w₀ tree pool, Deployed (deployment hash) w₀ ∧
    w₀.token (deployment hash).address = 0 ∧ (leanImt (merkleHash hash)).root tree = leaf hash ∧
    FreshPool hash pool ∧
    Run (Transition (deployment hash)) w₀ (registrySteps hash) (world hash tree pool) := by
  obtain ⟨pool, hpool, hfresh⟩ := pool_new hash
  obtain ⟨tree, hroot, events, hissued⟩ := addAttestations_ok hash H
  refine ⟨⟨timestamp, registry₀ hash, pool, funds⟩, tree, pool, .mk (registry_new hash) hpool, rfl,
    hroot, hfresh, ?_⟩
  exact .cons (.cons .nil (.registry (addAttester_ok hash))) (.registry hissued)

/-- The roots and the floor of the proofs are those of the registry. -/
theorem registryChecked {tree : LeanImtTree (merkleHash hash)}
    {pool : ShieldedPool (LeanImtTree (merkleHash hash))} {balances : Address → Nat}
    (hroot : (leanImt (merkleHash hash)).root tree = leaf hash) :
    RegistryChecked (deployment hash) ⟨timestamp, registry hash tree, pool, balances⟩
      (Scalar.toNat (leaf hash)) (Scalar.toNat (revocationTree hash).cachedRoot) 0 where
  known := by
    rw [← hroot]
    simp [isKnownAttestationRoot, AttestationRegistry.attestationRoot, deployment, registry]
  revocation := rfl
  generation := rfl

theorem epoch_eq : UInt64.toNat 7 = timestamp / (deployment hash).epochSeconds := by
  show 7 = 604800 / 86400
  rfl

theorem depositNote_ne_noteOf (H : Ideal hash) : depositNote hash ≠ noteOf hash := fun h =>
  cnTag_ne_ofAddress _ (H.hash4_inj h).1

def paid : Address → Nat := moved funds depositor 10 100

/-- The chain after the deposit, over the commitment tree `leaves`. -/
noncomputable def deposited (tree leaves : LeanImtTree (merkleHash hash))
    (pool : ShieldedPool (LeanImtTree (merkleHash hash))) :
    World F (LeanImtTree (merkleHash hash)) (Address → Nat) :=
  (world hash tree pool).after (deployment hash)
    [Scalar.toNat (depositPublic hash).velocityNullifier] leaves paid

theorem exists_deposit (H : Ideal hash) {tree : LeanImtTree (merkleHash hash)}
    {pool : ShieldedPool (LeanImtTree (merkleHash hash))}
    (hroot : (leanImt (merkleHash hash)).root tree = leaf hash) (hpool : FreshPool hash pool) :
    ∃ leaves events, (leanImt (merkleHash hash)).root leaves =
        merkleHash hash (noteOf hash) (depositNote hash) ∧ leaves.leaves = [noteOf hash, depositNote hash] ∧
      deposit (deployment hash) (world hash tree pool) depositor ((depositPublic hash).params []) =
        .ok (deposited hash tree leaves pool, events) := by
  obtain ⟨wit, hwit⟩ := exists_credential hash
  have hnote : noteOf hash ≠ 0 := H.ne_zero (by simp) (by simp)
  have hdepositNote : depositNote hash ≠ 0 := H.ne_zero (by simp) (by simp)
  obtain ⟨t₁, hins₁, hdata₁⟩ := @leanImt_insert_first F _ _ (merkleHash hash) _ hnote
  obtain ⟨t₂, hins₂, hroot₂⟩ := leanImt_insert_second hdepositNote (depositNote_ne_noteOf hash H) hdata₁
  have hins : [noteOf hash, depositNote hash].foldlM
      (fun tree leaf => (leanImt (merkleHash hash)).insert leaf tree)
      (leanImt (merkleHash hash)).empty = .ok t₂ := by
    simp only [List.foldlM_cons, List.foldlM_nil, bind_eq_ok, pure_eq_ok]
    exact ⟨t₁, hins₁, t₂, hins₂, rfl⟩
  have hagrees : Agrees (deployment hash) (world hash tree pool)
      (.deposit (depositPublic hash) (depositWitness wit)) :=
    { unpaused := hpool.unpaused ▸ Nat.zero_le _
      settled := hpool.settled
      policy := Scalar.toNat_zero.trans hpool.policy.symm
      epoch := epoch_eq hash
      epochSeconds := rfl
      root := isKnownRoot_iff.mpr (.inl (by
        rw [commitmentRoot, world, hpool.tree]
        rfl))
      registry := registryChecked hash hroot }
  have hpaid : (deployment hash).token.transferFrom (deployment hash).address depositor
      (deployment hash).address (depositPublic hash).amount.toNat (world hash tree pool).token =
      some paid := ledger_transferFrom (by
    show 100 ≤ funds depositor
    decide)
  have hamount : amount ≠ 0 := by decide
  obtain ⟨events, hdeposit⟩ : ∃ events, deposit (deployment hash) (world hash tree pool) depositor
      ((depositPublic hash).params []) = .ok (deposited hash tree t₂ pool, events) :=
    deposit_complete (complete hash) (depositMain_ok hash hwit) hagrees rfl hamount rfl
      (by rw [world, hpool.nullifiers]) (by rw [world, hpool.tree]; exact hins) hpaid
  exact ⟨t₂, events, hroot₂, leanImt_lawful.insertAll hins, hdeposit⟩

theorem exists_withdraw (H : Ideal hash) {tree leaves : LeanImtTree (merkleHash hash)}
    {pool : ShieldedPool (LeanImtTree (merkleHash hash))} {recipient : Address}
    (hroot : (leanImt (merkleHash hash)).root tree = leaf hash) (hpool : FreshPool hash pool)
    (hroot₂ : (leanImt (merkleHash hash)).root leaves = merkleHash hash (noteOf hash) (depositNote hash))
    (hleaves : leaves.leaves = [noteOf hash, depositNote hash]) (hrecipient : recipient ≠ 0) :
    ∃ w' events, withdraw (deployment hash) (deposited hash tree leaves pool)
      ((withdrawPublic hash recipient).params recipient []) = .ok (w', events) := by
  obtain ⟨wit, hwit⟩ := exists_credential hash
  have hagrees : Agrees (deployment hash) (deposited hash tree leaves pool)
      (.withdraw (withdrawPublic hash recipient) (withdrawWitness hash wit)) :=
    { unpaused := hpool.unpaused.trans_le (Nat.zero_le _)
      settled := hpool.settled
      policy := Scalar.toNat_zero.trans hpool.policy.symm
      epoch := epoch_eq hash
      epochSeconds := rfl
      root := isKnownRoot_iff.mpr (.inl (congrArg Scalar.toNat hroot₂.symm))
      registry := registryChecked hash hroot }
  have hfresh : ∀ {x : F}, x ≠ (depositPublic hash).velocityNullifier →
      (deposited hash tree leaves pool).pool.nullifiers (Scalar.toNat x) = false := by
    intro x hx
    show ((world hash tree pool).pool.markAll
      [Scalar.toNat (depositPublic hash).velocityNullifier]).nullifiers (Scalar.toNat x) = false
    rw [← Bool.not_eq_true, mem_markAll, List.mem_singleton]
    rintro (he | he)
    · exact hx (Scalar.toNat_inj he)
    · rw [world, hpool.nullifiers] at he
      cases he
  have hnew : withdrawNote hash recipient ∉ leaves.leaves := by
    rw [hleaves, List.mem_cons, List.mem_singleton, not_or]
    refine ⟨fun h => cnTag_ne_ofAddress _ (H.hash4_inj h).1, fun h => ?_⟩
    obtain ⟨-, -, hstate, -⟩ := H.hash4_inj h
    exact absurd (ofU64_inj (H.hash5_inj hstate).2.1) (by decide)
  have hwithdrawNote : withdrawNote hash recipient ≠ 0 := H.ne_zero (by simp) (by simp)
  obtain ⟨t₃, hins₃⟩ := LeanImtTree.exists_insert_of_new hwithdrawNote hnew
  have hpaid : (deployment hash).token.transfer (deployment hash).address recipient
      (withdrawPublic hash recipient).amount.toNat paid =
      some (moved paid (deployment hash).address recipient 100) := ledger_transfer (by
    show 100 ≤ paid 10
    decide)
  have hnull₀ : (withdrawPublic hash recipient).nullifier ≠ (depositPublic hash).velocityNullifier :=
    H.ne_of_length (by simp) (by simp) (by simp) (by simp) (by simp)
  have hnull₁ : (withdrawPublic hash recipient).velocityNullifier ≠
      (depositPublic hash).velocityNullifier := fun h =>
    absurd (ofU64_inj (H.hash4_inj h).2.2.2) (by decide)
  have hdistinct : (withdrawPublic hash recipient).nullifier ≠
      (withdrawPublic hash recipient).velocityNullifier :=
    H.ne_of_length (by simp) (by simp) (by simp) (by simp) (by simp)
  have hamount : amount ≠ 0 := by decide
  obtain ⟨events, hwithdraw⟩ : ∃ events, withdraw (deployment hash)
      (deposited hash tree leaves pool) ((withdrawPublic hash recipient).params recipient []) =
        .ok (_, events) :=
    withdraw_complete (complete hash) (withdrawMain_ok hash recipient hwit) hagrees rfl hamount rfl
      hrecipient (congrFun hpool.allowed recipient) rfl hdistinct ⟨hfresh hnull₀, hfresh hnull₁⟩
      (bind_eq_ok.mpr ⟨t₃, hins₃, rfl⟩) hpaid
  exact ⟨_, events, hwithdraw⟩

/-- A deposit and a withdrawal to any recipient, at the first two positions of a chain. -/
theorem exists_run (H : Ideal hash) {recipient : Address} (hrecipient : recipient ≠ 0) :
    ∃ w₀ w dp wp w' events, Deployed (deployment hash) w₀ ∧ w₀.token (deployment hash).address = 0 ∧
      Run (Transition (deployment hash)) w₀ (.pool depositor (.deposit dp) :: registrySteps hash) w ∧
      PoolCall.run (deployment hash) depositor w (.withdraw wp) = .ok (w', events) ∧
      wp.recipient = recipient ∧ wp.amount = 100 := by
  obtain ⟨w₀, tree, pool, hdeployed, hzero, hroot, hpool, hrun⟩ := exists_setup hash H
  obtain ⟨leaves, _, hroot₂, hleaves, hdeposit⟩ := exists_deposit hash H hroot hpool
  obtain ⟨w', events, hwithdraw⟩ :=
    exists_withdraw hash H hroot hpool hroot₂ hleaves hrecipient
  have hne : depositor ≠ (deployment hash).address := by
    show (12 : Address) ≠ 10
    decide
  exact ⟨w₀, _, _, _, w', events, hdeployed, hzero, .cons hrun (.pool hne hdeposit), hwithdraw, rfl, rfl⟩

end Sample

end Pocs.Compliance
