import Pocs.Lib.Token
import Pocs.Compliance.Circuits
import Pocs.Compliance.Registry

/-! # The shielded pool

`ShieldedPool.sol`. A call is a function on the storages of the pool, the registry and the token; a
revert undoes all of it, and `nonReentrant` makes it atomic. The verifiers at their addresses, the
token, `keccak256` and the immutables are fields of `Deployment`. -/

namespace Pocs.Compliance

inductive PoolRole where
  | defaultAdmin
  | guardian
  | curator
  | committee
  deriving DecidableEq, Repr

structure ShieldedPool (T : Type) where
  tree : T
  historicalRoots : Nat → Word
  historicalRootIndex : Nat
  validRoots : Word → Bool
  nullifiers : Word → Bool
  activeVerifier : Address
  activePolicySourceHash : Word
  pendingVerifier : Address
  pendingPolicySourceHash : Word
  policyActivationEpoch : Nat
  ungatedWithdrawVerifier : Address
  blockedFundsAccount : Address
  blockedBalance : Word → Nat
  singleTxThreshold : Nat
  blockedDestination : Address → Bool
  auditGrant : Word → Bool
  committeeVersion : UInt64
  pausedUntilEpoch : Nat
  blockedExitPausedUntilEpoch : Nat
  pauseBudgetSpent : Nat
  pauseWindowStart : Nat
  guardianArmed : Bool
  roles : Roles PoolRole

/-- What the constructor fixes, with the token and the verifiers behind it. -/
structure Deployment (F T τ : Type) extends RegistryConfig F T where
  policyTag : PolicyTag F
  /-- `address(this)`. -/
  address : Address
  /-- `TOKEN`, and the contract behind it. -/
  tokenAddress : Address
  token : Token Address τ
  timelockDelaySeconds : Nat
  maxPauseEpochs : Nat
  maxBlockedExitPauseEpochs : Nat
  pauseBudgetEpochs : Nat
  pauseWindowEpochs : Nat
  keccak256 : List UInt8 → Nat
  /-- `account.code.length != 0`. -/
  hasCode : Address → Bool
  /-- `IVerifier(verifier).verifyDeposit(proof, inputs)`, and so on. -/
  verifyDeposit : Address → List UInt8 → List Word → Bool
  verifyTransfer : Address → List UInt8 → List Word → Bool
  verifyWithdraw : Address → List UInt8 → List Word → Bool
  /-- `IUltraVerifier(verifier).verify(proof, inputs)` of the ungated path. -/
  verifyUngated : Address → List UInt8 → List Word → Bool

/-- The contracts and the clock. -/
structure World (F T τ : Type) where
  /-- `block.timestamp`. -/
  timestamp : Nat
  registry : AttestationRegistry F T
  pool : ShieldedPool T
  token : τ

/-! ## Arguments, events and errors -/

structure DepositParams where
  proof : List UInt8
  commitment : Word
  token : Nat
  amount : Nat
  attestationRoot : Word
  velocityNullifier : Word
  complianceCommitmentOut : Word
  epoch : Nat
  epochSeconds : Nat
  policySourceHash : Word
  commitmentRoot : Word
  attesterRevocationRoot : Word
  minAcceptedGeneration : Nat
  payloadCommitment : Word
  encryptedNotes : List UInt8

/-- The inputs in `DepositPublicInputs` order. -/
def DepositParams.inputs (p : DepositParams) : List Word :=
  [p.commitment, p.token, p.amount, p.attestationRoot, p.velocityNullifier,
    p.complianceCommitmentOut, p.epoch, p.epochSeconds, p.policySourceHash, p.commitmentRoot,
    p.attesterRevocationRoot, p.minAcceptedGeneration, p.payloadCommitment]

structure TransferParams where
  proof : List UInt8
  nullifier0 : Word
  nullifier1 : Word
  commitmentOut0 : Word
  commitmentOut1 : Word
  commitmentRoot : Word
  velocityNullifier : Word
  complianceCommitmentOut : Word
  epoch : Nat
  epochSeconds : Nat
  policySourceHash : Word
  attestationRoot : Word
  attesterRevocationRoot : Word
  minAcceptedGeneration : Nat
  payloadCommitment : Word
  encryptedNotes : List UInt8

/-- The inputs in `TransferPublicInputs` order. -/
def TransferParams.inputs (p : TransferParams) : List Word :=
  [p.nullifier0, p.nullifier1, p.commitmentOut0, p.commitmentOut1, p.commitmentRoot,
    p.velocityNullifier, p.complianceCommitmentOut, p.epoch, p.epochSeconds, p.policySourceHash,
    p.attestationRoot, p.attesterRevocationRoot, p.minAcceptedGeneration, p.payloadCommitment]

structure WithdrawParams where
  proof : List UInt8
  nullifier : Word
  token : Nat
  amount : Nat
  recipient : Address
  commitmentRoot : Word
  velocityNullifier : Word
  complianceCommitmentOut : Word
  epoch : Nat
  epochSeconds : Nat
  policySourceHash : Word
  attestationRoot : Word
  attesterRevocationRoot : Word
  minAcceptedGeneration : Nat
  payloadCommitment : Word
  encryptedNotes : List UInt8

/-- The inputs in `WithdrawPublicInputs` order. -/
def WithdrawParams.inputs (p : WithdrawParams) : List Word :=
  [p.nullifier, p.token, p.amount, p.recipient.toNat, p.commitmentRoot, p.velocityNullifier,
    p.complianceCommitmentOut, p.epoch, p.epochSeconds, p.policySourceHash, p.attestationRoot,
    p.attesterRevocationRoot, p.minAcceptedGeneration, p.payloadCommitment]

structure WithdrawBlockedParams where
  proof : List UInt8
  nullifier : Word
  token : Nat
  amount : Nat
  recipient : Address
  commitmentRoot : Word

/-- The inputs in `UngatedWithdrawPublicInputs` order. -/
def WithdrawBlockedParams.inputs (p : WithdrawBlockedParams) : List Word :=
  [p.nullifier, p.token, p.amount, p.recipient.toNat, p.commitmentRoot]

/-- What the pool emits. -/
inductive PoolEvent where
  | deposit (commitment : Word) (amount : Nat) (velocityNullifier complianceCommitment : Word)
      (encryptedNotes : List UInt8)
  | transfer (nullifier0 nullifier1 commitmentOut0 commitmentOut1 velocityNullifier
      complianceCommitment : Word) (encryptedNotes : List UInt8)
  | withdraw (nullifier : Word) (recipient : Address) (amount : Nat)
      (velocityNullifier complianceCommitment : Word) (encryptedNotes : List UInt8)
  | withdrawBlocked (nullifier : Word) (amount : Nat)
  | sizeFlag (velocityNullifier : Word) (op : UInt8) (amount : Nat)
  | policyQueued (verifier : Address) (policySourceHash : Word) (activationEpoch : Nat)
      (sourceUri : String) (toolchainId : Word)
  | policyActivated (verifier : Address) (policySourceHash : Word)
  | policyCancelled
  | ungatedWithdrawVerifierUpdated (verifier : Address)
  | blockedFundsAccountUpdated (account : Address)
  | blockedFundsClaimed (nullifier : Word) (amount : Nat)
  | singleTxThresholdUpdated (value : Nat)
  | destinationBlocked (destination : Address) (blocked : Bool)
  | auditGrantRecorded (scopeCommitment : Word)
  | committeeVersionSet (version : UInt64) (committeeHash : Word)
  | pausedSet (untilEpoch : Nat) (blockedExit : Bool)

/-- The custom errors; `token` is a failed token call and `panic` a checked overflow. -/
inductive PoolRevert where
  | nonCanonicalInput
  | blockedDestination
  | wrongEpoch
  | wrongToken
  | wrongEpochSeconds
  | wrongPolicySourceHash
  | wrongGeneration
  | wrongAttesterRevocationRoot
  | unknownRoot
  | nullifierSpent
  | duplicateNullifier
  | notBlockedFundsAccount
  | contractPaused
  | invalidProof
  | zeroAmount
  | zeroAddress
  | zeroEpochSeconds
  | epochSecondsTooLarge
  | activationNotFuture
  | notGuardianOrAdmin
  | guardianNotArmed
  | pauseCeilingExceeded
  | pauseBudgetExceeded
  | blockedExitCeilingNotShorter
  | blockedFundsAccountLocked
  | blockedFundsAccountUnset
  | activationTooSoon
  | payloadMismatch
  | accessControlUnauthorizedAccount
  | accessControlBadConfirmation
  | leanImt (e : LeanImtError)
  | token
  | panic
  deriving DecidableEq, Repr

def opDeposit : UInt8 := 0
def opWithdraw : UInt8 := 1

section
variable {F T τ : Type} [BnField F] (D : Deployment F T τ) (w : World F T τ)

/-- `currentEpoch()`. -/
def World.epoch : Nat := w.timestamp / D.epochSeconds

def World.setPool (pool : ShieldedPool T) : World F T τ := { w with pool }

/-! ## Internal functions -/

def requireCanonical (F : Type) [BnField F] (inputs : List Word) : Except PoolRevert Unit :=
  inputs.forM fun input => failIf (BnField.canonical F input = false) .nonCanonicalInput

def maybePromotePolicy : World F T τ × List PoolEvent :=
  if w.pool.pendingVerifier ≠ 0 ∧ w.pool.policyActivationEpoch ≤ w.epoch D then
    (w.setPool { w.pool with
      activeVerifier := w.pool.pendingVerifier
      activePolicySourceHash := w.pool.pendingPolicySourceHash
      pendingVerifier := 0
      pendingPolicySourceHash := 0
      policyActivationEpoch := uint256Max },
    [.policyActivated w.pool.pendingVerifier w.pool.pendingPolicySourceHash])
  else (w, [])

def commitmentRoot : Word := Scalar.toNat (D.imt.root w.pool.tree)

def isKnownRoot (root : Word) : Bool := root = commitmentRoot D w || w.pool.validRoots root

def effectivePolicy : Address × Word :=
  if w.pool.pendingVerifier ≠ 0 ∧ w.pool.policyActivationEpoch ≤ w.epoch D then
    (w.pool.pendingVerifier, w.pool.pendingPolicySourceHash)
  else (w.pool.activeVerifier, w.pool.activePolicySourceHash)

def checkRegistry (attestationRoot attesterRevocationRoot : Word) (minAcceptedGeneration : Nat) :
    Except PoolRevert Unit := do
  failIf (w.registry.isKnownAttestationRoot D.toRegistryConfig attestationRoot = false) .unknownRoot
  failIf (attesterRevocationRoot ≠ w.registry.attesterRevocationRoot) .wrongAttesterRevocationRoot
  failIf (minAcceptedGeneration ≠
    (w.registry.minAcceptedGeneration D.toRegistryConfig w.timestamp).toNat) .wrongGeneration

/-- The payload must hash to its commitment, `keccak256(encryptedNotes) % BN254_MODULUS`. -/
def checkPayload (payloadCommitment : Word) (encryptedNotes : List UInt8) : Except PoolRevert Unit :=
  failIf (payloadCommitment ≠ Scalar.toNat (Scalar.ofNat (D.keccak256 encryptedNotes) : F)) .payloadMismatch

/-- `nullifiers[n] = true` for each of the nullifiers. -/
def ShieldedPool.markAll (pool : ShieldedPool T) (ns : List Word) : ShieldedPool T :=
  { pool with nullifiers := ns.foldl (fun m n => Function.update m n true) pool.nullifiers }

/-- `_tree.insert` for each of the leaves. -/
def insertAll (pool : ShieldedPool T) (leaves : List Word) : Except PoolRevert (ShieldedPool T) := do
  let tree ← mapErr .leanImt ((leaves.map Scalar.ofNat).foldlM (fun tree leaf =>
    D.imt.insert leaf tree) pool.tree)
  pure { pool with tree }

def recordRoot (pool : ShieldedPool T) : ShieldedPool T :=
  let currentRoot : Word := Scalar.toNat (D.imt.root pool.tree)
  let evicted := pool.historicalRoots pool.historicalRootIndex
  let valid := if evicted ≠ 0 then Function.update pool.validRoots evicted false else pool.validRoots
  { pool with
    validRoots := Function.update valid currentRoot true
    historicalRoots := Function.update pool.historicalRoots pool.historicalRootIndex currentRoot
    historicalRootIndex := (pool.historicalRootIndex + 1) % maxHistoricalRoots }

/-- `emit SizeFlag` above the threshold. -/
def sizeFlag (velocityNullifier : Word) (op : UInt8) (amount : Nat) : List PoolEvent :=
  if w.pool.singleTxThreshold < amount then [.sizeFlag velocityNullifier op amount] else []

/-! ## Value-preserving entry points -/

def deposit (sender : Address) (p : DepositParams) : Except PoolRevert (World F T τ × List PoolEvent) := do
  failIf (w.epoch D < w.pool.pausedUntilEpoch) .contractPaused
  requireCanonical F p.inputs
  let (w, promoted) := maybePromotePolicy D w
  failIf (p.token ≠ D.tokenAddress.toNat) .wrongToken
  failIf (p.amount = 0) .zeroAmount
  failIf (p.epoch ≠ w.epoch D) .wrongEpoch
  failIf (p.epochSeconds ≠ D.epochSeconds) .wrongEpochSeconds
  failIf (p.policySourceHash ≠ w.pool.activePolicySourceHash) .wrongPolicySourceHash
  failIf (w.pool.nullifiers p.velocityNullifier = true) .nullifierSpent
  failIf (isKnownRoot D w p.commitmentRoot = false) .unknownRoot
  checkRegistry D w p.attestationRoot p.attesterRevocationRoot p.minAcceptedGeneration
  checkPayload D p.payloadCommitment p.encryptedNotes
  failIf (D.verifyDeposit w.pool.activeVerifier p.proof p.inputs = false) .invalidProof
  let pool ← insertAll D (w.pool.markAll [p.velocityNullifier]) [p.commitment, p.complianceCommitmentOut]
  let pool := recordRoot D pool
  let token ← okOr (D.token.transferFrom D.address sender D.address p.amount w.token) .token
  pure ({ w with pool, token }, promoted ++
    .deposit p.commitment p.amount p.velocityNullifier p.complianceCommitmentOut p.encryptedNotes ::
      sizeFlag w p.velocityNullifier opDeposit p.amount)

def transfer (p : TransferParams) : Except PoolRevert (World F T τ × List PoolEvent) := do
  failIf (w.epoch D < w.pool.pausedUntilEpoch) .contractPaused
  requireCanonical F p.inputs
  let (w, promoted) := maybePromotePolicy D w
  failIf (p.epoch ≠ w.epoch D) .wrongEpoch
  failIf (p.epochSeconds ≠ D.epochSeconds) .wrongEpochSeconds
  failIf (p.policySourceHash ≠ w.pool.activePolicySourceHash) .wrongPolicySourceHash
  failIf (p.nullifier0 = p.nullifier1 ∨ p.nullifier0 = p.velocityNullifier ∨
    p.nullifier1 = p.velocityNullifier) .duplicateNullifier
  failIf (w.pool.nullifiers p.nullifier0 = true ∨ w.pool.nullifiers p.nullifier1 = true ∨
    w.pool.nullifiers p.velocityNullifier = true) .nullifierSpent
  failIf (isKnownRoot D w p.commitmentRoot = false) .unknownRoot
  checkRegistry D w p.attestationRoot p.attesterRevocationRoot p.minAcceptedGeneration
  checkPayload D p.payloadCommitment p.encryptedNotes
  failIf (D.verifyTransfer w.pool.activeVerifier p.proof p.inputs = false) .invalidProof
  let pool ← insertAll D (w.pool.markAll [p.nullifier0, p.nullifier1, p.velocityNullifier])
    [p.commitmentOut0, p.commitmentOut1, p.complianceCommitmentOut]
  let pool := recordRoot D pool
  pure ({ w with pool }, promoted ++ [.transfer p.nullifier0 p.nullifier1 p.commitmentOut0
    p.commitmentOut1 p.velocityNullifier p.complianceCommitmentOut p.encryptedNotes])

def withdraw (p : WithdrawParams) : Except PoolRevert (World F T τ × List PoolEvent) := do
  failIf (w.epoch D < w.pool.pausedUntilEpoch) .contractPaused
  requireCanonical F p.inputs
  let (w, promoted) := maybePromotePolicy D w
  failIf (p.token ≠ D.tokenAddress.toNat) .wrongToken
  failIf (p.amount = 0) .zeroAmount
  failIf (p.recipient = 0) .zeroAddress
  failIf (p.epoch ≠ w.epoch D) .wrongEpoch
  failIf (p.epochSeconds ≠ D.epochSeconds) .wrongEpochSeconds
  failIf (p.policySourceHash ≠ w.pool.activePolicySourceHash) .wrongPolicySourceHash
  failIf (p.nullifier = p.velocityNullifier) .duplicateNullifier
  failIf (w.pool.nullifiers p.nullifier = true ∨ w.pool.nullifiers p.velocityNullifier = true) .nullifierSpent
  failIf (isKnownRoot D w p.commitmentRoot = false) .unknownRoot
  checkRegistry D w p.attestationRoot p.attesterRevocationRoot p.minAcceptedGeneration
  failIf (w.pool.blockedDestination p.recipient = true) .blockedDestination
  checkPayload D p.payloadCommitment p.encryptedNotes
  failIf (D.verifyWithdraw w.pool.activeVerifier p.proof p.inputs = false) .invalidProof
  let pool ← insertAll D (w.pool.markAll [p.nullifier, p.velocityNullifier]) [p.complianceCommitmentOut]
  let pool := recordRoot D pool
  let token ← okOr (D.token.transfer D.address p.recipient p.amount w.token) .token
  pure ({ w with pool, token }, promoted ++
    .withdraw p.nullifier p.recipient p.amount p.velocityNullifier p.complianceCommitmentOut
      p.encryptedNotes :: sizeFlag w p.velocityNullifier opWithdraw p.amount)

/-- The parent's ungated withdraw circuit; credits `blockedBalance` instead of transferring. -/
def withdrawBlocked (p : WithdrawBlockedParams) : Except PoolRevert (World F T τ × List PoolEvent) := do
  failIf (w.epoch D < w.pool.blockedExitPausedUntilEpoch) .contractPaused
  requireCanonical F p.inputs
  let (w, promoted) := maybePromotePolicy D w
  failIf (p.token ≠ D.tokenAddress.toNat) .wrongToken
  failIf (p.amount = 0) .zeroAmount
  failIf (w.pool.nullifiers p.nullifier = true) .nullifierSpent
  failIf (isKnownRoot D w p.commitmentRoot = false) .unknownRoot
  failIf (w.pool.blockedFundsAccount = 0) .blockedFundsAccountUnset
  failIf (D.verifyUngated w.pool.ungatedWithdrawVerifier p.proof p.inputs = false) .invalidProof
  let pool := w.pool.markAll [p.nullifier]
  let credit ← okOr (checkedAdd 256 (pool.blockedBalance p.nullifier) p.amount) .panic
  pure (w.setPool { pool with
    blockedBalance := Function.update pool.blockedBalance p.nullifier credit },
    promoted ++ [.withdrawBlocked p.nullifier p.amount])

/-- Zeroes the credited balance before transferring, and only ever pays `blockedFundsAccount`. -/
def claimBlocked (sender : Address) (nullifier : Word) : Except PoolRevert (World F T τ × List PoolEvent) := do
  failIf (sender ≠ w.pool.blockedFundsAccount) .notBlockedFundsAccount
  let amount := w.pool.blockedBalance nullifier
  let pool := { w.pool with blockedBalance := Function.update w.pool.blockedBalance nullifier 0 }
  let token ← okOr (D.token.transfer D.address pool.blockedFundsAccount amount w.token) .token
  pure ({ w with pool, token }, [.blockedFundsClaimed nullifier amount])

/-! ## Governance -/

def onlyRole (role : PoolRole) (sender : Address) : Except PoolRevert Unit :=
  failIf (w.pool.roles role sender = false) .accessControlUnauthorizedAccount

def setPolicy (sender verifier : Address) (sourceHash : Word) (activationEpoch : Nat)
    (sourceUri : String) (toolchainId : Word) : Except PoolRevert (World F T τ × List PoolEvent) := do
  onlyRole w .defaultAdmin sender
  failIf (D.hasCode verifier = false) .zeroAddress
  failIf (activationEpoch ≤ w.epoch D) .activationNotFuture
  let minDelayEpochs := (D.timelockDelaySeconds + D.epochSeconds - 1) / D.epochSeconds
  failIf (activationEpoch < w.epoch D + minDelayEpochs + 1) .activationTooSoon
  let (w, promoted) := maybePromotePolicy D w
  pure (w.setPool { w.pool with
    pendingVerifier := verifier
    pendingPolicySourceHash := sourceHash
    policyActivationEpoch := activationEpoch },
    promoted ++ [.policyQueued verifier sourceHash activationEpoch sourceUri toolchainId])

def cancelPolicy (sender : Address) : Except PoolRevert (World F T τ × List PoolEvent) := do
  failIf (w.pool.roles .guardian sender = false ∧ w.pool.roles .defaultAdmin sender = false) .notGuardianOrAdmin
  let (w, promoted) := maybePromotePolicy D w
  pure (w.setPool { w.pool with
    pendingVerifier := 0
    pendingPolicySourceHash := 0
    policyActivationEpoch := uint256Max }, promoted ++ [.policyCancelled])

def setUngatedWithdrawVerifier (sender newVerifier : Address) :
    Except PoolRevert (World F T τ × List PoolEvent) := do
  onlyRole w .defaultAdmin sender
  failIf (D.hasCode newVerifier = false) .zeroAddress
  pure (w.setPool { w.pool with ungatedWithdrawVerifier := newVerifier },
    [.ungatedWithdrawVerifierUpdated newVerifier])

def setBlockedFundsAccount (sender newAccount : Address) :
    Except PoolRevert (World F T τ × List PoolEvent) := do
  onlyRole w .defaultAdmin sender
  failIf (newAccount = 0) .zeroAddress
  let epoch := w.epoch D
  failIf (epoch < w.pool.pausedUntilEpoch ∨ epoch < w.pool.blockedExitPausedUntilEpoch)
    .blockedFundsAccountLocked
  let laterLiftEpoch :=
    if w.pool.pausedUntilEpoch > w.pool.blockedExitPausedUntilEpoch then w.pool.pausedUntilEpoch
    else w.pool.blockedExitPausedUntilEpoch
  failIf (w.timestamp < laterLiftEpoch * D.epochSeconds + D.timelockDelaySeconds) .blockedFundsAccountLocked
  pure (w.setPool { w.pool with blockedFundsAccount := newAccount }, [.blockedFundsAccountUpdated newAccount])

def setSingleTxThreshold (sender : Address) (newThreshold : Nat) :
    Except PoolRevert (World F T τ × List PoolEvent) := do
  onlyRole w .curator sender
  pure (w.setPool { w.pool with singleTxThreshold := newThreshold }, [.singleTxThresholdUpdated newThreshold])

def setBlockedDestination (sender destination : Address) (blocked : Bool) :
    Except PoolRevert (World F T τ × List PoolEvent) := do
  onlyRole w .curator sender
  pure (w.setPool { w.pool with
    blockedDestination := Function.update w.pool.blockedDestination destination blocked },
    [.destinationBlocked destination blocked])

def recordGrant (sender : Address) (scopeCommitment : Word) :
    Except PoolRevert (World F T τ × List PoolEvent) := do
  onlyRole w .committee sender
  pure (w.setPool { w.pool with
    auditGrant := Function.update w.pool.auditGrant scopeCommitment true },
    [.auditGrantRecorded scopeCommitment])

def setCommittee (sender : Address) (committeeHash : Word) :
    Except PoolRevert (World F T τ × List PoolEvent) := do
  onlyRole w .defaultAdmin sender
  failIf (2 ^ 64 ≤ w.pool.committeeVersion.toNat + 1) .panic
  let committeeVersion := w.pool.committeeVersion + 1
  pure (w.setPool { w.pool with committeeVersion }, [.committeeVersionSet committeeVersion committeeHash])

def pause (sender : Address) (untilEpoch : Nat) (blockedExit : Bool) :
    Except PoolRevert (World F T τ × List PoolEvent) := do
  onlyRole w .guardian sender
  failIf (w.pool.guardianArmed = false) .guardianNotArmed
  let epoch := w.epoch D
  let ceiling := if blockedExit then D.maxBlockedExitPauseEpochs else D.maxPauseEpochs
  failIf (untilEpoch ≤ epoch ∨ ceiling < untilEpoch - epoch) .pauseCeilingExceeded
  let pool := if w.pool.pauseWindowStart + D.pauseWindowEpochs ≤ epoch
    then { w.pool with pauseWindowStart := epoch, pauseBudgetSpent := 0 } else w.pool
  let requested := untilEpoch - epoch
  failIf (D.pauseBudgetEpochs < pool.pauseBudgetSpent + requested) .pauseBudgetExceeded
  let pool := { pool with pauseBudgetSpent := pool.pauseBudgetSpent + requested }
  let pool := if D.pauseBudgetEpochs ≤ pool.pauseBudgetSpent then { pool with guardianArmed := false } else pool
  let pool := if blockedExit then { pool with blockedExitPausedUntilEpoch := untilEpoch }
    else { pool with pausedUntilEpoch := untilEpoch }
  pure (w.setPool pool, [.pausedSet untilEpoch blockedExit])

def rearmGuardian (sender : Address) : Except PoolRevert (World F T τ × List PoolEvent) := do
  onlyRole w .defaultAdmin sender
  pure (w.setPool { w.pool with
    guardianArmed := true
    pauseBudgetSpent := 0
    pauseWindowStart := w.epoch D }, [])

end

/-- The calls of the pool, with their arguments. -/
inductive PoolCall where
  | deposit (p : DepositParams)
  | transfer (p : TransferParams)
  | withdraw (p : WithdrawParams)
  | withdrawBlocked (p : WithdrawBlockedParams)
  | claimBlocked (nullifier : Word)
  | setPolicy (verifier : Address) (sourceHash : Word) (activationEpoch : Nat) (sourceUri : String)
      (toolchainId : Word)
  | cancelPolicy
  | setUngatedWithdrawVerifier (newVerifier : Address)
  | setBlockedFundsAccount (newAccount : Address)
  | setSingleTxThreshold (newThreshold : Nat)
  | setBlockedDestination (destination : Address) (blocked : Bool)
  | recordGrant (scopeCommitment : Word)
  | setCommittee (committeeHash : Word)
  | pause (untilEpoch : Nat) (blockedExit : Bool)
  | rearmGuardian
  | grantRole (role : PoolRole) (account : Address)
  | revokeRole (role : PoolRole) (account : Address)
  | renounceRole (role : PoolRole) (callerConfirmation : Address)

/-- A call of the pool; the role calls are those of `AccessControl`. -/
def PoolCall.run {F T τ : Type} [BnField F] (D : Deployment F T τ) (sender : Address)
    (w : World F T τ) : PoolCall → Except PoolRevert (World F T τ × List PoolEvent)
  | .deposit p => Compliance.deposit D w sender p
  | .transfer p => Compliance.transfer D w p
  | .withdraw p => Compliance.withdraw D w p
  | .withdrawBlocked p => Compliance.withdrawBlocked D w p
  | .claimBlocked nullifier => Compliance.claimBlocked D w sender nullifier
  | .setPolicy verifier sourceHash activationEpoch sourceUri toolchainId =>
    Compliance.setPolicy D w sender verifier sourceHash activationEpoch sourceUri toolchainId
  | .cancelPolicy => Compliance.cancelPolicy D w sender
  | .setUngatedWithdrawVerifier newVerifier =>
    Compliance.setUngatedWithdrawVerifier D w sender newVerifier
  | .setBlockedFundsAccount newAccount => Compliance.setBlockedFundsAccount D w sender newAccount
  | .setSingleTxThreshold newThreshold => Compliance.setSingleTxThreshold w sender newThreshold
  | .setBlockedDestination destination blocked =>
    Compliance.setBlockedDestination w sender destination blocked
  | .recordGrant scopeCommitment => Compliance.recordGrant w sender scopeCommitment
  | .setCommittee committeeHash => Compliance.setCommittee w sender committeeHash
  | .pause untilEpoch blockedExit => Compliance.pause D w sender untilEpoch blockedExit
  | .rearmGuardian => Compliance.rearmGuardian D w sender
  | .grantRole role account => do
    onlyRole w .defaultAdmin sender
    pure (w.setPool { w.pool with roles := w.pool.roles.set role account true }, [])
  | .revokeRole role account => do
    onlyRole w .defaultAdmin sender
    pure (w.setPool { w.pool with roles := w.pool.roles.set role account false }, [])
  | .renounceRole role callerConfirmation => do
    failIf (callerConfirmation ≠ sender) .accessControlBadConfirmation
    pure (w.setPool { w.pool with roles := w.pool.roles.set role callerConfirmation false }, [])

structure ConstructorParams where
  attestationRegistry : Address
  initialVerifier : Address
  initialPolicySourceHash : Word
  ungatedWithdrawVerifier : Address
  blockedFundsAccount : Address
  singleTxThreshold : Nat
  timelockController : Address
  guardian : Address
  curator : Address
  committee : Address

/-- The constructor. The registry of the deployment has the pool's `EPOCH_SECONDS`. -/
def ShieldedPool.new {F T τ : Type} (D : Deployment F T τ) (timestamp : Nat)
    (p : ConstructorParams) : Except PoolRevert (ShieldedPool T) := do
  failIf (D.tokenAddress = 0 ∨ p.attestationRegistry = 0 ∨ p.initialVerifier = 0 ∨
    p.ungatedWithdrawVerifier = 0 ∨ p.blockedFundsAccount = 0 ∨ p.timelockController = 0 ∨
    p.guardian = 0 ∨ p.curator = 0 ∨ p.committee = 0) .zeroAddress
  failIf (D.epochSeconds = 0) .zeroEpochSeconds
  failIf (timestamp < D.epochSeconds) .epochSecondsTooLarge
  failIf (D.maxPauseEpochs ≤ D.maxBlockedExitPauseEpochs) .blockedExitCeilingNotShorter
  let roles : Roles PoolRole := fun _ _ => false
  pure
    { tree := D.imt.empty
      historicalRoots := fun _ => 0
      historicalRootIndex := 0
      validRoots := fun _ => false
      nullifiers := fun _ => false
      activeVerifier := p.initialVerifier
      activePolicySourceHash := p.initialPolicySourceHash
      pendingVerifier := 0
      pendingPolicySourceHash := 0
      policyActivationEpoch := uint256Max
      ungatedWithdrawVerifier := p.ungatedWithdrawVerifier
      blockedFundsAccount := p.blockedFundsAccount
      blockedBalance := fun _ => 0
      singleTxThreshold := p.singleTxThreshold
      blockedDestination := fun _ => false
      auditGrant := fun _ => false
      committeeVersion := 0
      pausedUntilEpoch := 0
      blockedExitPausedUntilEpoch := 0
      pauseBudgetSpent := 0
      pauseWindowStart := timestamp / D.epochSeconds
      guardianArmed := true
      roles := (((roles.set .defaultAdmin p.timelockController true).set .guardian p.guardian
        true).set .curator p.curator true).set .committee p.committee true }

end Pocs.Compliance
