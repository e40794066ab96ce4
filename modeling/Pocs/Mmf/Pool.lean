import Pocs.Lib.Token
import Pocs.Mmf.Circuits
import Pocs.Mmf.Registry

/-! # The fund's shielded pool

`ShieldedPool.sol` of the shielded notes. A call is a function on the storages of the pool, the
registry and the token; a revert undoes all of it, and `nonReentrant` makes it atomic. The verifiers
at their addresses, the token, `keccak256` and the immutables are fields of `Deployment`. -/

namespace Pocs.Mmf

open Compliance (BnField Word Address Roles)

inductive PoolRole where
  | defaultAdmin
  | guardian
  deriving DecidableEq, Repr

structure ShieldedPool (T : Type) where
  tree : T
  /-- `historicalRoots`, `historicalRootIndex` and `_validRoots`. -/
  historicalRoots : RootRing
  nullifiers : Word → Bool
  totalUnits : Nat
  lastMultiplier : Nat
  halted : Bool
  verifier : Address
  claimKeyHash : Word
  transferAgent : Address
  registerKey : Word × Word
  registerKeyVersion : UInt64
  pausedUntilEpoch : Nat
  pauseBudgetSpent : Nat
  pauseWindowStart : Nat
  guardianArmed : Bool
  roles : Roles PoolRole

/-- What the constructor fixes, with the token and the verifiers behind it. -/
structure Deployment (F T τ : Type) extends RegistryConfig F T where
  /-- `block.chainid`. -/
  chainId : Nat
  /-- `address(this)`. -/
  address : Address
  /-- `TOKEN`, and the contract behind it. -/
  tokenAddress : Address
  token : Token Address τ
  maxPauseEpochs : Nat
  pauseBudgetEpochs : Nat
  pauseWindowEpochs : Nat
  keccak256 : List UInt8 → Nat
  /-- `account.code.length != 0`. -/
  hasCode : Address → Bool
  /-- `IVerifier(verifier).verifyDeposit(proof, inputs)`, and so on. -/
  verifyDeposit : Address → List UInt8 → List Word → Bool
  verifyTransfer : Address → List UInt8 → List Word → Bool
  verifyWithdraw : Address → List UInt8 → List Word → Bool

/-- The contracts and the clock. -/
structure World (T τ : Type) where
  /-- `block.timestamp`. -/
  timestamp : Nat
  registry : AttestationRegistry T
  pool : ShieldedPool T
  token : τ

/-! ## Arguments, events and errors -/

structure DepositParams where
  proof : List UInt8
  commitment : Word
  units : UInt64
  attestationRoot : Word
  epoch : Nat
  feedR : Word × Word
  feedCt : Fin feedFields → Word
  recipientPayload : List UInt8

structure TransferParams where
  proof : List UInt8
  nullifier0 : Word
  nullifier1 : Word
  commitmentOut0 : Word
  commitmentOut1 : Word
  commitmentRoot : Word
  attestationRoot : Word
  epoch : Nat
  feedR : Word × Word
  feedCt : Fin (2 * feedFields) → Word
  recipientPayload : List UInt8

structure WithdrawParams where
  proof : List UInt8
  nullifier : Word
  units : UInt64
  recipient : Address
  commitmentRoot : Word
  attestationRoot : Word
  epoch : Nat

/-- The events, of which `ChainView` reads the first three and the rotations. -/
inductive PoolEvent where
  | deposit (commitment : Word) (units : UInt64) (shares : Nat) (feedR : Word × Word)
      (feedCt : Fin feedFields → Word) (recipientPayload : List UInt8)
  | transfer (nullifier0 nullifier1 commitment0 commitment1 : Word) (feedR : Word × Word)
      (feedCt : Fin (2 * feedFields) → Word) (recipientPayload : List UInt8)
  | withdraw (nullifier : Word) (recipient : Address) (units : UInt64) (shares : Nat)
  | checkpoint (epoch balance totalUnits multiplier : Nat) (registerHash : Word)
  | halted (multiplier lastMultiplier : Nat)
  | haltCleared (multiplier : Nat)
  | grantRecorded (scopeCommitment : Word)
  | registerKeyRotated (version : UInt64) (key : Word × Word)
  | verifierSet (verifier : Address)
  | claimKeyHashSet (claimKeyHash : Word)
  | transferAgentSet (transferAgent : Address)
  | pausedSet (untilEpoch : Nat)
  | guardianRearmed

/-- The custom errors; `token` is a failed token call and `panic` a checked overflow. -/
inductive PoolRevert where
  | nonCanonicalInput
  | contractPaused
  | wrongEpoch
  | invalidFeedPoint
  | unknownRoot
  | nullifierSpent
  | duplicateNullifier
  | invalidProof
  | zeroUnits
  | emptyPool
  | zeroAddress
  | epochSecondsTooLarge
  | wrongEpochSeconds
  | multiplierDecreased
  | multiplierNotRestored
  | unitsChanged
  | poolHalted
  | notHalted
  | notTransferAgent
  | invalidRegisterKey
  | wrongRegisterKeyVersion
  | nonCanonicalClaimKeyHash
  | guardianNotArmed
  | pauseCeilingExceeded
  | pauseBudgetExceeded
  | invalidPauseParams
  | accessControlUnauthorizedAccount
  | accessControlBadConfirmation
  | leanImt (e : LeanImtError)
  | token
  | panic
  deriving DecidableEq, Repr

/-! ## `PublicInputs.sol` and `Math.sol` -/

def requireCanonical (F : Type) [BnField F] (inputs : List Word) : Except PoolRevert Unit :=
  inputs.forM fun input => failIf (BnField.canonical F input = false) .nonCanonicalInput

def onGrumpkin (point : Word × Word) : Bool :=
  let p := Civic.bn254
  if p ≤ point.1 ∨ p ≤ point.2 then false
  else
    let rhs := (point.1 * point.1 % p * point.1 % p + (p - 17)) % p
    point.2 * point.2 % p = rhs

/-- `Math.mulDiv`, which panics when the result does not fit. -/
def mulDiv (x y denominator : Nat) : Except PoolRevert Nat := do
  failIf (denominator = 0 ∨ 2 ^ 256 ≤ x * y / denominator) .panic
  pure (x * y / denominator)

/-- `Math.mulDiv` with `Rounding.Ceil`. -/
def mulDivUp (x y denominator : Nat) : Except PoolRevert Nat := do
  let result ← mulDiv x y denominator
  okOr (checkedAdd 256 result (if 0 < x * y % denominator then 1 else 0)) .panic

/-- The multiplier scale: `m = S` means one unit is worth one share. -/
def multiplierScale : Nat := 10 ^ 18

def circuitEpochSeconds : Nat := 86400

section
variable {F T τ : Type} [FeedField F] (D : Deployment F T τ) (w : World T τ)

/-- `currentEpoch()`. -/
def World.epoch : Nat := w.timestamp / D.epochSeconds

def World.setPool (pool : ShieldedPool T) : World T τ := { w with pool }

def payloadCommitment (payload : List UInt8) : Word :=
  Scalar.toNat (Scalar.ofNat (D.keccak256 payload) : F)

/-- The inputs in `DepositPublicInputs` order. -/
def DepositParams.inputs (sender : Address) (p : DepositParams) : List Word :=
  [p.commitment, D.tokenAddress.toNat, p.units.toNat, sender.toNat, p.attestationRoot,
    (w.registry.minAcceptedGeneration D.toRegistryConfig w.timestamp).toNat, p.epoch, D.chainId,
    D.address.toNat, w.pool.registerKey.1, w.pool.registerKey.2, p.feedR.1, p.feedR.2] ++
    List.ofFn p.feedCt ++ [payloadCommitment D p.recipientPayload]

/-- The inputs in `TransferPublicInputs` order. -/
def TransferParams.inputs (p : TransferParams) : List Word :=
  [p.nullifier0, p.nullifier1, p.commitmentOut0, p.commitmentOut1, p.commitmentRoot,
    p.attestationRoot, (w.registry.minAcceptedGeneration D.toRegistryConfig w.timestamp).toNat,
    p.epoch, D.chainId, D.address.toNat, w.pool.claimKeyHash, w.pool.registerKey.1,
    w.pool.registerKey.2, p.feedR.1, p.feedR.2] ++
    List.ofFn p.feedCt ++ [payloadCommitment D p.recipientPayload]

/-- The inputs in `WithdrawPublicInputs` order. -/
def WithdrawParams.inputs (p : WithdrawParams) : List Word :=
  [p.nullifier, D.tokenAddress.toNat, p.units.toNat, p.recipient.toNat, p.commitmentRoot,
    p.attestationRoot, (w.registry.minAcceptedGeneration D.toRegistryConfig w.timestamp).toNat,
    p.epoch, D.chainId, D.address.toNat]

/-! ## Views and internal functions -/

/-- `IERC20(TOKEN).balanceOf(address(this))`. -/
def World.balance : Nat := D.token.balanceOf w.token D.address

/-- `multiplier()`; while no units are left, the last value recorded. -/
def multiplier : Except PoolRevert Nat :=
  if w.pool.totalUnits = 0 then pure w.pool.lastMultiplier
  else mulDiv (w.balance D) multiplierScale w.pool.totalUnits

def commitmentRoot (pool : ShieldedPool T) : Word := Scalar.toNat (D.imt.root pool.tree)

def isKnownRoot (root : Word) : Bool :=
  root = commitmentRoot D w.pool || w.pool.historicalRoots.valid root

def requireNotPaused : Except PoolRevert Unit :=
  failIf (w.epoch D < w.pool.pausedUntilEpoch) .contractPaused

def checkEpoch (epoch : Nat) : Except PoolRevert Unit := failIf (epoch ≠ w.epoch D) .wrongEpoch

def checkFeedPoint (feedR : Word × Word) : Except PoolRevert Unit :=
  failIf (onGrumpkin feedR = false) .invalidFeedPoint

/-- `attestationRegistry.isKnownAttestationRoot`. -/
def checkAttestationRoot (root : Word) : Except PoolRevert Unit :=
  failIf (w.registry.isKnownAttestationRoot D.toRegistryConfig root = false) .unknownRoot

def checkedMultiplier : Except PoolRevert Nat := do
  failIf (w.pool.halted = true) .poolHalted
  let m ← multiplier D w
  failIf (m < w.pool.lastMultiplier) .multiplierDecreased
  pure m

def settleMultiplier (m : Nat) : Except PoolRevert (World T τ) := do
  let mAfter ← multiplier D w
  failIf (w.pool.totalUnits ≠ 0 ∧ mAfter < m) .multiplierDecreased
  pure (w.setPool { w.pool with lastMultiplier := mAfter })

/-- `nullifiers[n] = true` for each of the nullifiers. -/
def ShieldedPool.markAll (pool : ShieldedPool T) (ns : List Word) : ShieldedPool T :=
  { pool with nullifiers := ns.foldl (fun m n => Function.update m n true) pool.nullifiers }

/-- `_tree.insert` for each of the leaves. -/
def insertAll (pool : ShieldedPool T) (leaves : List Word) : Except PoolRevert (ShieldedPool T) := do
  let tree ← mapErr .leanImt ((leaves.map Scalar.ofNat).foldlM (fun tree leaf =>
    D.imt.insert leaf tree) pool.tree)
  pure { pool with tree }

def recordRoot (pool : ShieldedPool T) : ShieldedPool T :=
  { pool with
    historicalRoots := pool.historicalRoots.record maxHistoricalRoots (commitmentRoot D pool) }

def deposit (sender : Address) (p : DepositParams) : Except PoolRevert (World T τ × List PoolEvent) := do
  requireNotPaused D w
  let inputs := p.inputs D w sender
  requireCanonical F inputs
  failIf (p.units = 0) .zeroUnits
  -- an empty pool's first deposit is the transfer agent's
  failIf (w.pool.totalUnits = 0 ∧ sender ≠ w.pool.transferAgent) .emptyPool
  checkEpoch D w p.epoch
  checkFeedPoint p.feedR
  checkAttestationRoot D w p.attestationRoot
  let m ← checkedMultiplier D w
  failIf (D.verifyDeposit w.pool.verifier p.proof inputs = false) .invalidProof
  let pool ← insertAll D w.pool [p.commitment]
  let pool := recordRoot D pool
  let totalUnits ← okOr (checkedAdd 256 pool.totalUnits p.units.toNat) .panic
  let pool := { pool with totalUnits }
  let shares ← mulDivUp p.units.toNat m multiplierScale
  let token ← okOr (D.token.transferFrom D.address sender D.address shares w.token) .token
  let w ← settleMultiplier D { w with pool, token } m
  pure (w, [.deposit p.commitment p.units shares p.feedR p.feedCt p.recipientPayload])

def transfer (p : TransferParams) : Except PoolRevert (World T τ × List PoolEvent) := do
  requireNotPaused D w
  let inputs := p.inputs D w
  requireCanonical F inputs
  checkEpoch D w p.epoch
  checkFeedPoint p.feedR
  failIf (p.nullifier0 = p.nullifier1) .duplicateNullifier
  failIf (w.pool.nullifiers p.nullifier0 = true ∨ w.pool.nullifiers p.nullifier1 = true) .nullifierSpent
  failIf (isKnownRoot D w p.commitmentRoot = false) .unknownRoot
  checkAttestationRoot D w p.attestationRoot
  failIf (D.verifyTransfer w.pool.verifier p.proof inputs = false) .invalidProof
  let pool ← insertAll D (w.pool.markAll [p.nullifier0, p.nullifier1]) [p.commitmentOut0, p.commitmentOut1]
  let pool := recordRoot D pool
  pure (w.setPool pool, [.transfer p.nullifier0 p.nullifier1 p.commitmentOut0 p.commitmentOut1
    p.feedR p.feedCt p.recipientPayload])

def withdraw (p : WithdrawParams) : Except PoolRevert (World T τ × List PoolEvent) := do
  requireNotPaused D w
  let inputs := p.inputs D w
  requireCanonical F inputs
  failIf (p.units = 0) .zeroUnits
  failIf (p.recipient = 0) .zeroAddress
  checkEpoch D w p.epoch
  failIf (w.pool.nullifiers p.nullifier = true) .nullifierSpent
  failIf (isKnownRoot D w p.commitmentRoot = false) .unknownRoot
  checkAttestationRoot D w p.attestationRoot
  let m ← checkedMultiplier D w
  failIf (D.verifyWithdraw w.pool.verifier p.proof inputs = false) .invalidProof
  let pool := w.pool.markAll [p.nullifier]
  failIf (pool.totalUnits < p.units.toNat) .panic
  let pool := { pool with totalUnits := pool.totalUnits - p.units.toNat }
  let shares ← mulDiv p.units.toNat m multiplierScale
  let token ← okOr (D.token.transfer D.address p.recipient shares w.token) .token
  let w ← settleMultiplier D { w with pool, token } m
  pure (w, [.withdraw p.nullifier p.recipient p.units shares])

def onlyTransferAgent (sender : Address) : Except PoolRevert Unit :=
  failIf (sender ≠ w.pool.transferAgent) .notTransferAgent

def checkpoint (sender : Address) (registerHash : Word) (expectedUnits : Nat) :
    Except PoolRevert (World T τ × List PoolEvent) := do
  onlyTransferAgent w sender
  failIf (w.pool.totalUnits ≠ expectedUnits) .unitsChanged
  let m ← multiplier D w
  let event := PoolEvent.checkpoint (w.epoch D) (w.balance D) w.pool.totalUnits m registerHash
  pure (if m < w.pool.lastMultiplier then
      if w.pool.halted = false then
        (w.setPool { w.pool with halted := true }, [event, .halted m w.pool.lastMultiplier])
      else (w, [event])
    else (w.setPool { w.pool with lastMultiplier := m }, [event]))

def recordGrant (sender : Address) (scopeCommitment : Word) :
    Except PoolRevert (World T τ × List PoolEvent) := do
  onlyTransferAgent w sender
  pure (w, [.grantRecorded scopeCommitment])

def setRegisterKey (sender : Address) (key : Word × Word) (version : UInt64) :
    Except PoolRevert (World T τ × List PoolEvent) := do
  onlyTransferAgent w sender
  failIf (2 ^ 64 ≤ w.pool.registerKeyVersion.toNat + 1) .panic
  failIf (version ≠ w.pool.registerKeyVersion + 1) .wrongRegisterKeyVersion
  failIf (onGrumpkin key = false) .invalidRegisterKey
  pure (w.setPool { w.pool with registerKey := key, registerKeyVersion := version },
    [.registerKeyRotated version key])

/-! ## Governance -/

def onlyRole (role : PoolRole) (sender : Address) : Except PoolRevert Unit :=
  failIf (w.pool.roles role sender = false) .accessControlUnauthorizedAccount

def clearHalt (sender : Address) : Except PoolRevert (World T τ × List PoolEvent) := do
  onlyRole w .defaultAdmin sender
  failIf (w.pool.halted = false) .notHalted
  let m ← multiplier D w
  failIf (m < w.pool.lastMultiplier) .multiplierNotRestored
  pure (w.setPool { w.pool with halted := false, lastMultiplier := m }, [.haltCleared m])

def setVerifier (sender newVerifier : Address) : Except PoolRevert (World T τ × List PoolEvent) := do
  onlyRole w .defaultAdmin sender
  failIf (D.hasCode newVerifier = false) .zeroAddress
  pure (w.setPool { w.pool with verifier := newVerifier }, [.verifierSet newVerifier])

def setClaimKeyHash (F : Type) [BnField F] (sender : Address) (newClaimKeyHash : Word) :
    Except PoolRevert (World T τ × List PoolEvent) := do
  onlyRole w .defaultAdmin sender
  failIf (BnField.canonical F newClaimKeyHash = false) .nonCanonicalClaimKeyHash
  pure (w.setPool { w.pool with claimKeyHash := newClaimKeyHash }, [.claimKeyHashSet newClaimKeyHash])

def setTransferAgent (sender newTransferAgent : Address) : Except PoolRevert (World T τ × List PoolEvent) := do
  onlyRole w .defaultAdmin sender
  failIf (newTransferAgent = 0) .zeroAddress
  pure (w.setPool { w.pool with transferAgent := newTransferAgent }, [.transferAgentSet newTransferAgent])

def pause (sender : Address) (untilEpoch : Nat) : Except PoolRevert (World T τ × List PoolEvent) := do
  onlyRole w .guardian sender
  failIf (w.pool.guardianArmed = false) .guardianNotArmed
  let epoch := w.epoch D
  failIf (untilEpoch ≤ epoch ∨ D.maxPauseEpochs < untilEpoch - epoch) .pauseCeilingExceeded
  let pool := if w.pool.pauseWindowStart + D.pauseWindowEpochs ≤ epoch
    then { w.pool with pauseWindowStart := epoch, pauseBudgetSpent := 0 } else w.pool
  let requested := untilEpoch - epoch
  failIf (D.pauseBudgetEpochs < pool.pauseBudgetSpent + requested) .pauseBudgetExceeded
  let pool := { pool with pauseBudgetSpent := pool.pauseBudgetSpent + requested }
  let pool := if D.pauseBudgetEpochs ≤ pool.pauseBudgetSpent then { pool with guardianArmed := false } else pool
  pure (w.setPool { pool with pausedUntilEpoch := untilEpoch }, [.pausedSet untilEpoch])

def rearmGuardian (sender : Address) : Except PoolRevert (World T τ × List PoolEvent) := do
  onlyRole w .defaultAdmin sender
  pure (w.setPool { w.pool with
    guardianArmed := true
    pauseBudgetSpent := 0
    pauseWindowStart := w.epoch D }, [.guardianRearmed])

end

/-- The calls of the pool, with their arguments. -/
inductive PoolCall where
  | deposit (p : DepositParams)
  | transfer (p : TransferParams)
  | withdraw (p : WithdrawParams)
  | checkpoint (registerHash : Word) (expectedUnits : Nat)
  | recordGrant (scopeCommitment : Word)
  | setRegisterKey (key : Word × Word) (version : UInt64)
  | clearHalt
  | setVerifier (newVerifier : Address)
  | setClaimKeyHash (newClaimKeyHash : Word)
  | setTransferAgent (newTransferAgent : Address)
  | pause (untilEpoch : Nat)
  | rearmGuardian
  | grantRole (role : PoolRole) (account : Address)
  | revokeRole (role : PoolRole) (account : Address)
  | renounceRole (role : PoolRole) (callerConfirmation : Address)

/-- A call of the pool; the role calls are those of `AccessControl`. -/
def PoolCall.run {F T τ : Type} [FeedField F] (D : Deployment F T τ) (sender : Address)
    (w : World T τ) : PoolCall → Except PoolRevert (World T τ × List PoolEvent)
  | .deposit p => Mmf.deposit D w sender p
  | .transfer p => Mmf.transfer D w p
  | .withdraw p => Mmf.withdraw D w p
  | .checkpoint registerHash expectedUnits => Mmf.checkpoint D w sender registerHash expectedUnits
  | .recordGrant scopeCommitment => Mmf.recordGrant w sender scopeCommitment
  | .setRegisterKey key version => Mmf.setRegisterKey w sender key version
  | .clearHalt => Mmf.clearHalt D w sender
  | .setVerifier newVerifier => Mmf.setVerifier D w sender newVerifier
  | .setClaimKeyHash newClaimKeyHash => Mmf.setClaimKeyHash w F sender newClaimKeyHash
  | .setTransferAgent newTransferAgent => Mmf.setTransferAgent w sender newTransferAgent
  | .pause untilEpoch => Mmf.pause D w sender untilEpoch
  | .rearmGuardian => Mmf.rearmGuardian D w sender
  | .grantRole role account => do
    onlyRole w .defaultAdmin sender
    pure (w.setPool { w.pool with roles := w.pool.roles.set role account true }, [])
  | .revokeRole role account => do
    onlyRole w .defaultAdmin sender
    pure (w.setPool { w.pool with roles := w.pool.roles.set role account false }, [])
  | .renounceRole role callerConfirmation => do
    failIf (callerConfirmation ≠ sender) .accessControlBadConfirmation
    pure (w.setPool { w.pool with roles := w.pool.roles.set role callerConfirmation false }, [])

structure ConstructorParams where
  attestationRegistry : Address
  verifier : Address
  claimKeyHash : Word
  transferAgent : Address
  registerKey : Word × Word
  timelockController : Address
  guardian : Address

/-- The constructor. The registry of the deployment has the pool's `EPOCH_SECONDS`. -/
def ShieldedPool.new {F T τ : Type} [FeedField F] (D : Deployment F T τ) (timestamp : Nat)
    (p : ConstructorParams) : Except PoolRevert (ShieldedPool T) := do
  failIf (D.tokenAddress = 0 ∨ p.attestationRegistry = 0 ∨ p.verifier = 0 ∨ p.transferAgent = 0 ∨
    p.timelockController = 0 ∨ p.guardian = 0) .zeroAddress
  failIf (D.epochSeconds ≠ circuitEpochSeconds) .wrongEpochSeconds
  failIf (timestamp < D.epochSeconds) .epochSecondsTooLarge
  failIf (BnField.canonical F p.claimKeyHash = false) .nonCanonicalClaimKeyHash
  failIf (onGrumpkin p.registerKey = false) .invalidRegisterKey
  failIf (D.maxPauseEpochs = 0 ∨ D.pauseBudgetEpochs < D.maxPauseEpochs ∨
    D.pauseWindowEpochs ≤ D.pauseBudgetEpochs) .invalidPauseParams
  let roles : Roles PoolRole := fun _ _ => false
  pure
    { tree := D.imt.empty
      historicalRoots := .empty
      nullifiers := fun _ => false
      totalUnits := 0
      lastMultiplier := multiplierScale
      halted := false
      verifier := p.verifier
      claimKeyHash := p.claimKeyHash
      transferAgent := p.transferAgent
      registerKey := p.registerKey
      registerKeyVersion := 0
      pausedUntilEpoch := 0
      pauseBudgetSpent := 0
      pauseWindowStart := timestamp / D.epochSeconds
      guardianArmed := true
      roles := (roles.set .defaultAdmin p.timelockController true).set .guardian p.guardian true }

end Pocs.Mmf
