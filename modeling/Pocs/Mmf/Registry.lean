import Pocs.Lib.RootRing
import Pocs.Compliance.Registry
import Pocs.Mmf.Gadgets

/-! # The fund's attestation registry

`AttestationRegistry.sol` of the shielded notes: one attester, no revocation tree, and a generation
floor that retires every leaf below it. A call is a function on the storage that fails with the
contract's error. -/

namespace Pocs.Mmf

open Compliance (BnField Word Address Roles ofU64 ofAddress uint256Max)

inductive RegistryRole where
  | defaultAdmin
  | attester
  | timelock
  deriving DecidableEq, Repr

/-- `getRoleAdmin`: governance hands its own role over, and nobody holds the default admin. -/
def RegistryRole.admin : RegistryRole → RegistryRole
  | timelock => timelock
  | defaultAdmin | attester => defaultAdmin

inductive RegistryRevert where
  | zeroEpochSeconds
  | zeroAddress
  | batchTooSmall
  | minBatchSizeZero
  | expiryOutOfInterval
  | wrongGeneration
  | activationNotFuture
  | generationNotIncreasing
  | overlapTooLarge
  | registryFull
  | nonCanonicalOwner
  | noAttester
  | trustedUntilInFuture
  | accessControlUnauthorizedAccount
  | accessControlBadConfirmation
  | leanImt (e : LeanImtError)
  | panic
  deriving DecidableEq, Repr

inductive RegistryEvent where
  | attestationAdded (leaf owner : Word) (attester : Address) (generation issuedAt expiresAt : UInt64)
  | attesterSet (attester : Address)
  | attesterRevoked (attester : Address) (leavesRetired : Bool)
  | minAcceptedGenerationQueued (value : UInt64) (activationEpoch : Nat)

def maxHistoricalRoots : Nat := 300
def maxAttestations : Nat := 2 ^ 20

structure RegistryConfig (F T : Type) extends Primitives F where
  imt : LeanImt F T
  epochSeconds : Nat
  maxAttestationEpochs : Nat
  overlapEpochs : Nat
  minBatchSize : Nat

structure AttestationRegistry (T : Type) where
  attestationTree : T
  /-- `historicalAttestationRoots`, its index and `_validAttestationRoots`. -/
  historicalAttestationRoots : RootRing
  attester : Address
  currentGeneration : UInt64
  lastIssuedAt : UInt64
  storedMinAcceptedGeneration : UInt64
  pendingMinAcceptedGeneration : UInt64
  minAcceptedGenerationActivationEpoch : Nat
  roles : Roles RegistryRole

namespace AttestationRegistry
variable {F T : Type} [FeedField F] (C : RegistryConfig F T)

/-- A `uint256` result, which panics on overflow. -/
def u256 (n : Nat) : Except RegistryRevert Nat := do
  failIf (2 ^ 256 ≤ n) .panic
  pure n

def currentEpoch (timestamp : Nat) : Nat := timestamp / C.epochSeconds

/-- `_setAttester`. -/
def grantAttester (newAttester : Address) (self : AttestationRegistry T) : AttestationRegistry T :=
  { self with attester := newAttester, roles := self.roles.set .attester newAttester true }

def new (attester timelock : Address) : Except RegistryRevert (AttestationRegistry T) := do
  failIf (C.epochSeconds = 0) .zeroEpochSeconds
  failIf (attester = 0 ∨ timelock = 0) .zeroAddress
  failIf (C.maxAttestationEpochs ≤ C.overlapEpochs) .overlapTooLarge
  failIf (C.minBatchSize = 0) .minBatchSizeZero
  let roles : Roles RegistryRole := fun _ _ => false
  pure <| grantAttester attester
    { attestationTree := C.imt.empty
      historicalAttestationRoots := .empty
      attester := 0
      currentGeneration := 0
      lastIssuedAt := 0
      storedMinAcceptedGeneration := 0
      pendingMinAcceptedGeneration := 0
      minAcceptedGenerationActivationEpoch := uint256Max
      roles := roles.set .timelock timelock true }

def onlyRole (role : RegistryRole) (sender : Address) (self : AttestationRegistry T) :
    Except RegistryRevert Unit :=
  failIf (self.roles role sender = false) .accessControlUnauthorizedAccount

/-! ## Issuance -/

def checkExpiry (timestamp : Nat) (expiresAt : UInt64) : Except RegistryRevert Unit := do
  let epoch := currentEpoch C timestamp
  let first ← u256 ((epoch + 1) * C.epochSeconds)
  failIf (expiresAt.toNat < first) .expiryOutOfInterval
  let last ← u256 ((epoch + 1 + C.maxAttestationEpochs + C.overlapEpochs) * C.epochSeconds)
  failIf (last ≤ expiresAt.toNat) .expiryOutOfInterval

def checkGeneration (generation : UInt64) (self : AttestationRegistry T) :
    Except RegistryRevert (AttestationRegistry T) := do
  let gen := self.currentGeneration
  onlyIf (generation ≠ gen) do
    failIf (2 ^ 64 ≤ gen.toNat + 1) .panic
    failIf (generation ≠ gen + 1) .wrongGeneration
  pure (if generation > gen then { self with currentGeneration := generation } else self)

/-- `_attestationLeaf`, which is the leaf of `attestation.nr`. -/
def leafOf (sender : Address) (owner : Word) (generation issuedAt expiresAt : UInt64) : F :=
  C.hash [Scalar.ofNat owner, ofAddress sender, ofU64 generation, ofU64 issuedAt, ofU64 expiresAt]

def attestationRoot (self : AttestationRegistry T) : Word :=
  Scalar.toNat (C.imt.root self.attestationTree)

def isKnownAttestationRoot (self : AttestationRegistry T) (root : Word) : Bool :=
  root = self.attestationRoot C || self.historicalAttestationRoots.valid root

/-- One round of the loop of `addAttestations`. -/
def issueOne (sender : Address) (generation issuedAt expiresAt : UInt64)
    (self : AttestationRegistry T) (owner : Word) : Except RegistryRevert (AttestationRegistry T) := do
  failIf (BnField.canonical F owner = false) .nonCanonicalOwner
  let leaf := leafOf C sender owner generation issuedAt expiresAt
  let tree ← mapErr .leanImt (C.imt.insert leaf self.attestationTree)
  pure { self with attestationTree := tree }

def advanceAttestationRoot (rootBefore : Word) (self : AttestationRegistry T) : AttestationRegistry T :=
  if rootBefore = 0 then self
  else { self with
    historicalAttestationRoots := self.historicalAttestationRoots.record maxHistoricalRoots rootBefore }

def addAttestations (sender : Address) (timestamp : Nat) (owners : List Word)
    (expiresAt generation : UInt64) (self : AttestationRegistry T) :
    Except RegistryRevert (AttestationRegistry T × List RegistryEvent) := do
  onlyRole .attester sender self
  failIf (owners.length < C.minBatchSize) .batchTooSmall
  failIf (maxAttestations < (C.imt.leaves self.attestationTree).length + owners.length) .registryFull
  checkExpiry C timestamp expiresAt
  let self ← checkGeneration generation self
  let rootBefore := self.attestationRoot C
  let issuedAt := UInt64.ofNat timestamp
  let self := { self with lastIssuedAt := issuedAt }
  let self ← owners.foldlM (issueOne C sender generation issuedAt expiresAt) self
  pure (self.advanceAttestationRoot rootBefore, owners.map fun owner =>
    .attestationAdded (Scalar.toNat (leafOf C sender owner generation issuedAt expiresAt)) owner sender
      generation issuedAt expiresAt)

/-! ## The generation floor -/

def floorActive (timestamp : Nat) (self : AttestationRegistry T) : Prop :=
  self.minAcceptedGenerationActivationEpoch ≠ uint256Max ∧
    self.minAcceptedGenerationActivationEpoch ≤ currentEpoch C timestamp

instance decidableFloorActive (timestamp : Nat) (self : AttestationRegistry T) :
    Decidable (self.floorActive C timestamp) :=
  inferInstanceAs (Decidable (_ ∧ _))

def minAcceptedGeneration (timestamp : Nat) (self : AttestationRegistry T) : UInt64 :=
  if self.floorActive C timestamp then self.pendingMinAcceptedGeneration
  else self.storedMinAcceptedGeneration

def queueMinAcceptedGeneration (timestamp : Nat) (newValue : UInt64) (activationEpoch : Nat)
    (self : AttestationRegistry T) : AttestationRegistry T × List RegistryEvent :=
  ({ self with
    storedMinAcceptedGeneration := if self.floorActive C timestamp
      then self.pendingMinAcceptedGeneration else self.storedMinAcceptedGeneration
    pendingMinAcceptedGeneration := newValue
    minAcceptedGenerationActivationEpoch := activationEpoch },
    [.minAcceptedGenerationQueued newValue activationEpoch])

def raiseMinAcceptedGeneration (sender : Address) (timestamp : Nat) (newValue : UInt64)
    (activationEpoch : Nat) (self : AttestationRegistry T) :
    Except RegistryRevert (AttestationRegistry T × List RegistryEvent) := do
  onlyRole .timelock sender self
  failIf (activationEpoch ≤ currentEpoch C timestamp) .activationNotFuture
  failIf (newValue ≤ self.minAcceptedGeneration C timestamp) .generationNotIncreasing
  pure (self.queueMinAcceptedGeneration C timestamp newValue activationEpoch)

def setAttester (sender newAttester : Address) (self : AttestationRegistry T) :
    Except RegistryRevert (AttestationRegistry T × List RegistryEvent) := do
  onlyRole .timelock sender self
  failIf (newAttester = 0) .zeroAddress
  let self := { self with roles := self.roles.set .attester self.attester false }
  pure (self.grantAttester newAttester, [.attesterSet newAttester])

/-- Removes the attester. If it issued anything after `trustedUntil`, every leaf is retired from the
next epoch. -/
def revokeAttester (sender : Address) (timestamp : Nat) (trustedUntil : UInt64) (self : AttestationRegistry T) :
    Except RegistryRevert (AttestationRegistry T × List RegistryEvent) := do
  onlyRole .timelock sender self
  let revoked := self.attester
  failIf (revoked = 0) .noAttester
  failIf (timestamp < trustedUntil.toNat) .trustedUntilInFuture
  let self := { self with roles := self.roles.set .attester revoked false, attester := 0 }
  let retire := self.lastIssuedAt > trustedUntil
  onlyIf retire (failIf (2 ^ 64 ≤ self.currentGeneration.toNat + 1) .panic)
  let floor := self.currentGeneration + 1
  let (self, queued) := if retire ∧ floor > self.minAcceptedGeneration C timestamp
    then self.queueMinAcceptedGeneration C timestamp floor (currentEpoch C timestamp + 1)
    else (self, [])
  pure (self, queued ++ [.attesterRevoked revoked retire])

end AttestationRegistry

inductive RegistryCall where
  | addAttestations (owners : List Word) (expiresAt generation : UInt64)
  | setAttester (newAttester : Address)
  | revokeAttester (trustedUntil : UInt64)
  | raiseMinAcceptedGeneration (newValue : UInt64) (activationEpoch : Nat)
  | grantRole (role : RegistryRole) (account : Address)
  | revokeRole (role : RegistryRole) (account : Address)
  | renounceRole (role : RegistryRole) (callerConfirmation : Address)

/-- A call of the registry; the role calls are those of `AccessControl`. -/
def RegistryCall.run {F T : Type} [FeedField F] (C : RegistryConfig F T) (sender : Address)
    (timestamp : Nat) (self : AttestationRegistry T) : RegistryCall →
    Except RegistryRevert (AttestationRegistry T × List RegistryEvent)
  | .addAttestations owners expiresAt generation =>
    self.addAttestations C sender timestamp owners expiresAt generation
  | .setAttester newAttester => self.setAttester sender newAttester
  | .revokeAttester trustedUntil => self.revokeAttester C sender timestamp trustedUntil
  | .raiseMinAcceptedGeneration newValue activationEpoch =>
    self.raiseMinAcceptedGeneration C sender timestamp newValue activationEpoch
  | .grantRole role account => do
    self.onlyRole role.admin sender
    pure ({ self with roles := self.roles.set role account true }, [])
  | .revokeRole role account => do
    self.onlyRole role.admin sender
    pure ({ self with roles := self.roles.set role account false }, [])
  | .renounceRole role callerConfirmation => do
    failIf (callerConfirmation ≠ sender) .accessControlBadConfirmation
    pure ({ self with roles := self.roles.set role callerConfirmation false }, [])

end Pocs.Mmf
