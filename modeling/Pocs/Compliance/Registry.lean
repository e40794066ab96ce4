import Pocs.Lib.LeanImt
import Pocs.Compliance.Gadgets

/-! # The attestation registry

`AttestationRegistry.sol` and `AttesterRevocationTree.sol`. A call is a function on the storage that
fails with the contract's error; `uint256` values are natural numbers with the checks of Solidity
0.8. The immutables and the tree of `LeanIMT.sol` are fields of `RegistryConfig`. -/

namespace Pocs.Compliance

/-! ## Access control -/

/-- `AccessControl`: who holds which role. -/
abbrev Roles (ρ : Type) := ρ → Address → Bool

/-- `_grantRole` and `_revokeRole`. -/
def Roles.set {ρ : Type} [DecidableEq ρ] (roles : Roles ρ) (role : ρ) (account : Address)
    (held : Bool) : Roles ρ :=
  Function.update roles role (Function.update (roles role) account held)

inductive RegistryRole where
  | defaultAdmin
  | attester
  | timelock
  deriving DecidableEq, Repr

inductive RegistryRevert where
  | zeroEpochSeconds
  | zeroAddress
  | cohortTooSmall
  | expiryOutOfInterval
  | expiryNotOnCalendar
  | wrongGeneration
  | unknownAttester
  | revocationNotMonotone
  | activationNotFuture
  | generationNotIncreasing
  | overlapTooLarge
  | minCohortSizeZero
  | attesterAlreadyExists
  | attesterDoesNotExist
  | revocationTreeFull
  | accessControlUnauthorizedAccount
  | accessControlBadConfirmation
  | safeCastOverflowedUintDowncast
  | leanImt (e : LeanImtError)
  | panic
  deriving DecidableEq, Repr

/-- A `uint256` result, which panics on overflow. -/
def u256 (n : Nat) : Except RegistryRevert Nat := do
  failIf (2 ^ 256 ≤ n) .panic
  pure n

def toUint64 (n : Nat) : Except RegistryRevert UInt64 := do
  failIf (2 ^ 64 ≤ n) .safeCastOverflowedUintDowncast
  pure (.ofNat n)

/-- `type(uint256).max`. -/
def uint256Max : Nat := 2 ^ 256 - 1

/-- `type(uint64).max`. -/
def uint64Max : UInt64 := 0xffffffffffffffff

/-! ## `AttesterRevocationTree.sol` -/

structure RevocationTree (F : Type) where
  attesters : List Address
  revokedAtEpoch : Address → UInt64
  isAttester : Address → Bool
  cachedRoot : F
  revocationFloor : Address → UInt64

namespace RevocationTree
variable {F : Type} [BnField F]

def depth : Nat := 5
def capacity : Nat := 2 ^ depth

/-- The leaves, with the empty leaf behind the stored attesters. -/
def leafNodes (hash : List F → F) (self : RevocationTree F) (i : Nat) : F :=
  match self.attesters[i]? with
  | some a => hash [ofAddress a, ofU64 (self.revokedAtEpoch a)]
  | none => hash [0, 0]

/-- The `for` loop over one level, in place. -/
def hashLevel (hash : List F → F) (half : Nat) (nodes : Nat → F) : Nat → F :=
  (List.range half).foldl (fun nodes i =>
    Function.update nodes i (hash [nodes (2 * i), nodes (2 * i + 1)])) nodes

/-- The `while` loop from `levelSize = 2 ^ d`. -/
def hashLevels (hash : List F → F) : Nat → (Nat → F) → Nat → F
  | 0, nodes => nodes
  | d + 1, nodes => hashLevels hash d (hashLevel hash (2 ^ d) nodes)

def computeRoot (hash : List F → F) (self : RevocationTree F) : F :=
  hashLevels hash depth (self.leafNodes hash) 0

def refresh (hash : List F → F) (self : RevocationTree F) : RevocationTree F :=
  { self with cachedRoot := self.computeRoot hash }

/-- The storage after `init`. -/
def init (hash : List F → F) : RevocationTree F :=
  refresh hash ⟨[], fun _ => 0, fun _ => false, 0, fun _ => 0⟩

def insert (hash : List F → F) (attester : Address) (self : RevocationTree F) :
    Except RegistryRevert (RevocationTree F) := do
  failIf (self.isAttester attester = true) .attesterAlreadyExists
  failIf (capacity ≤ self.attesters.length) .revocationTreeFull
  let floor := self.revocationFloor attester
  pure <| refresh hash { self with
      isAttester := Function.update self.isAttester attester true
      revokedAtEpoch := Function.update self.revokedAtEpoch attester (if floor = 0 then uint64Max else floor)
      attesters := self.attesters ++ [attester] }

/-- The loop of `remove`: the first slot of the attester takes the last entry, which is popped. -/
def swapAndPop (attesters : List Address) (attester : Address) : List Address :=
  match attesters.idxOf? attester with
  | some i => (attesters.set i (attesters.getLastD attester)).dropLast
  | none => attesters

def remove (hash : List F → F) (attester : Address) (self : RevocationTree F) :
    Except RegistryRevert (RevocationTree F) := do
  failIf (self.isAttester attester = false) .attesterDoesNotExist
  pure <| refresh hash { self with
      isAttester := Function.update self.isAttester attester false
      revokedAtEpoch := Function.update self.revokedAtEpoch attester 0
      attesters := swapAndPop self.attesters attester }

def lower (hash : List F → F) (attester : Address) (newRevokedAtEpoch : UInt64)
    (self : RevocationTree F) : Except RegistryRevert (RevocationTree F) := do
  failIf (self.isAttester attester = false) .attesterDoesNotExist
  pure <| refresh hash { self with
      revokedAtEpoch := Function.update self.revokedAtEpoch attester newRevokedAtEpoch
      revocationFloor := Function.update self.revocationFloor attester newRevokedAtEpoch }

def contains (self : RevocationTree F) (attester : Address) : Bool := self.isAttester attester

def revokedAtEpochOf (self : RevocationTree F) (attester : Address) : UInt64 :=
  self.revokedAtEpoch attester

/-- `root`, a plain storage read. -/
def root (self : RevocationTree F) : Word := Scalar.toNat self.cachedRoot

end RevocationTree

/-! ## `AttestationRegistry.sol` -/

def maxHistoricalRoots : Nat := 300

structure RegistryConfig (F T : Type) where
  hash : List F → F
  imt : LeanImt F T
  epochSeconds : Nat
  maxAttestationEpochs : Nat
  minCohortSize : Nat
  overlapEpochs : Nat

/-- The storage of `AttestationRegistry.sol`. -/
structure AttestationRegistry (F T : Type) where
  attestationTree : T
  revocationTree : RevocationTree F
  historicalAttestationRoots : Nat → Word
  historicalAttestationRootIndex : Nat
  validAttestationRoots : Word → Bool
  currentGeneration : UInt64
  storedMinAcceptedGeneration : UInt64
  pendingMinAcceptedGeneration : UInt64
  minAcceptedGenerationActivationEpoch : Nat
  roles : Roles RegistryRole

/-- What the registry emits. -/
inductive RegistryEvent where
  | attestationAdded (leaf subjectPubkeyHash : Word) (attester : Address)
      (generation issuedAt expiresAt : UInt64)
  | attesterAdded (attester : Address)
  | attesterRemoved (attester : Address)
  | attesterRevocationLowered (attester : Address) (revokedAtEpoch : UInt64)
  | minAcceptedGenerationQueued (value : UInt64) (activationEpoch : Nat)

namespace AttestationRegistry
variable {F T : Type} [BnField F] (C : RegistryConfig F T)

/-- `currentEpoch()` at a block timestamp. -/
def currentEpoch (timestamp : Nat) : Nat := timestamp / C.epochSeconds

def new (admin timelock : Address) : Except RegistryRevert (AttestationRegistry F T) := do
  failIf (C.epochSeconds = 0) .zeroEpochSeconds
  failIf (admin = 0 ∨ timelock = 0) .zeroAddress
  failIf (C.maxAttestationEpochs ≤ C.overlapEpochs) .overlapTooLarge
  failIf (C.minCohortSize = 0) .minCohortSizeZero
  let roles : Roles RegistryRole := fun _ _ => false
  pure
    { attestationTree := C.imt.empty
      revocationTree := .init C.hash
      historicalAttestationRoots := fun _ => 0
      historicalAttestationRootIndex := 0
      validAttestationRoots := fun _ => false
      currentGeneration := 0
      storedMinAcceptedGeneration := 0
      pendingMinAcceptedGeneration := 0
      minAcceptedGenerationActivationEpoch := uint256Max
      roles := (roles.set .defaultAdmin admin true).set .timelock timelock true }

def onlyRole (role : RegistryRole) (sender : Address) (self : AttestationRegistry F T) :
    Except RegistryRevert Unit :=
  failIf (self.roles role sender = false) .accessControlUnauthorizedAccount

def calendarExpiry (epoch : Nat) : Except RegistryRevert UInt64 := do
  let period := epoch / C.maxAttestationEpochs
  let boundaryEpoch := (period + 1) * C.maxAttestationEpochs
  toUint64 (← u256 (boundaryEpoch * C.epochSeconds))

def nextCalendarExpiry (epoch : Nat) : Except RegistryRevert UInt64 := do
  let period := epoch / C.maxAttestationEpochs
  toUint64 (← u256 ((period + 2) * C.maxAttestationEpochs * C.epochSeconds))

def inOverlapWindow (epoch : Nat) : Bool :=
  if C.overlapEpochs = 0 then false
  else
    let boundary := (epoch / C.maxAttestationEpochs + 1) * C.maxAttestationEpochs
    epoch + C.overlapEpochs ≥ boundary

def checkExpiry (timestamp : Nat) (expiresAt : UInt64) : Except RegistryRevert Unit := do
  let epoch := currentEpoch C timestamp
  let first ← u256 ((epoch + 1) * C.epochSeconds)
  failIf (expiresAt.toNat < first) .expiryOutOfInterval
  let last ← u256 ((epoch + 1 + C.maxAttestationEpochs + C.overlapEpochs) * C.epochSeconds)
  failIf (last ≤ expiresAt.toNat) .expiryOutOfInterval
  let calendar ← calendarExpiry C epoch
  let onCalendar ← if expiresAt ≠ calendar ∧ inOverlapWindow C epoch = true then do
      let next ← nextCalendarExpiry C epoch
      pure (decide (expiresAt = next))
    else pure (decide (expiresAt = calendar))
  failIf (onCalendar = false) .expiryNotOnCalendar

def checkGeneration (generation : UInt64) (self : AttestationRegistry F T) :
    Except RegistryRevert (AttestationRegistry F T) := do
  let gen := self.currentGeneration
  if generation ≠ gen then
    failIf (2 ^ 64 ≤ gen.toNat + 1) .panic
    failIf (generation ≠ gen + 1) .wrongGeneration
  pure (if generation > gen then { self with currentGeneration := generation } else self)

def attestationLeaf (sender : Address) (subjectPubkeyHash : Word)
    (generation issuedAt expiresAt : UInt64) : F :=
  C.hash [Scalar.ofNat subjectPubkeyHash, ofAddress sender, ofU64 generation, ofU64 issuedAt, ofU64 expiresAt]

def attestationRoot (self : AttestationRegistry F T) : Word :=
  Scalar.toNat (C.imt.root self.attestationTree)

def isKnownAttestationRoot (self : AttestationRegistry F T) (root : Word) : Bool :=
  root = self.attestationRoot C || self.validAttestationRoots root

def issueOne (sender : Address) (generation issuedAt expiresAt : UInt64)
    (self : AttestationRegistry F T) (subjectPubkeyHash : Word) :
    Except RegistryRevert (AttestationRegistry F T) := do
  let leaf := attestationLeaf C sender subjectPubkeyHash generation issuedAt expiresAt
  let tree ← mapErr .leanImt (C.imt.insert leaf self.attestationTree)
  pure { self with attestationTree := tree }

def advanceAttestationRoot (rootBefore : Word) (self : AttestationRegistry F T) : AttestationRegistry F T :=
  if rootBefore = 0 then self
  else
    let evicted := self.historicalAttestationRoots self.historicalAttestationRootIndex
    let valid := if evicted ≠ 0 then Function.update self.validAttestationRoots evicted false
      else self.validAttestationRoots
    { self with
      validAttestationRoots := Function.update valid rootBefore true
      historicalAttestationRoots := Function.update self.historicalAttestationRoots
        self.historicalAttestationRootIndex rootBefore
      historicalAttestationRootIndex :=
        (self.historicalAttestationRootIndex + 1) % maxHistoricalRoots }

def addAttestations (sender : Address) (timestamp : Nat) (subjectPubkeyHashes : List Word)
    (expiresAt generation : UInt64) (self : AttestationRegistry F T) :
    Except RegistryRevert (AttestationRegistry F T × List RegistryEvent) := do
  onlyRole .attester sender self
  failIf (subjectPubkeyHashes.length < C.minCohortSize) .cohortTooSmall
  checkExpiry C timestamp expiresAt
  let self ← checkGeneration generation self
  let rootBefore := self.attestationRoot C
  let issuedAt := UInt64.ofNat timestamp
  let self ← subjectPubkeyHashes.foldlM (issueOne C sender generation issuedAt expiresAt) self
  pure (self.advanceAttestationRoot rootBefore, subjectPubkeyHashes.map fun s =>
    .attestationAdded (Scalar.toNat (attestationLeaf C sender s generation issuedAt expiresAt)) s sender
      generation issuedAt expiresAt)

def addAttester (sender attester : Address) (self : AttestationRegistry F T) :
    Except RegistryRevert (AttestationRegistry F T × List RegistryEvent) := do
  onlyRole .defaultAdmin sender self
  failIf (attester = 0) .zeroAddress
  let tree ← self.revocationTree.insert C.hash attester
  pure ({ self with
    roles := self.roles.set .attester attester true
    revocationTree := tree }, [.attesterAdded attester])

def removeAttester (sender attester : Address) (self : AttestationRegistry F T) :
    Except RegistryRevert (AttestationRegistry F T × List RegistryEvent) := do
  onlyRole .defaultAdmin sender self
  let tree ← self.revocationTree.remove C.hash attester
  pure ({ self with
    roles := self.roles.set .attester attester false
    revocationTree := tree }, [.attesterRemoved attester])

def lowerRevocation (sender : Address) (timestamp : Nat) (attester : Address)
    (newRevokedAtEpoch : UInt64) (self : AttestationRegistry F T) :
    Except RegistryRevert (AttestationRegistry F T × List RegistryEvent) := do
  onlyRole .timelock sender self
  failIf (self.revocationTree.contains attester = false) .unknownAttester
  let current := self.revocationTree.revokedAtEpochOf attester
  failIf (newRevokedAtEpoch ≥ current ∨ newRevokedAtEpoch.toNat < currentEpoch C timestamp)
    .revocationNotMonotone
  let tree ← self.revocationTree.lower C.hash attester newRevokedAtEpoch
  pure ({ self with revocationTree := tree }, [.attesterRevocationLowered attester newRevokedAtEpoch])

def attesterRevocationRoot (self : AttestationRegistry F T) : Word := self.revocationTree.root

def floorActive (timestamp : Nat) (self : AttestationRegistry F T) : Prop :=
  self.minAcceptedGenerationActivationEpoch ≠ uint256Max ∧
    self.minAcceptedGenerationActivationEpoch ≤ currentEpoch C timestamp

instance (timestamp : Nat) (self : AttestationRegistry F T) : Decidable (self.floorActive C timestamp) :=
  inferInstanceAs (Decidable (_ ∧ _))

def minAcceptedGeneration (timestamp : Nat) (self : AttestationRegistry F T) : UInt64 :=
  if self.floorActive C timestamp then self.pendingMinAcceptedGeneration
  else self.storedMinAcceptedGeneration

def raiseMinAcceptedGeneration (sender : Address) (timestamp : Nat) (newValue : UInt64)
    (activationEpoch : Nat) (self : AttestationRegistry F T) :
    Except RegistryRevert (AttestationRegistry F T × List RegistryEvent) := do
  onlyRole .timelock sender self
  failIf (activationEpoch ≤ currentEpoch C timestamp) .activationNotFuture
  failIf (newValue ≤ self.minAcceptedGeneration C timestamp) .generationNotIncreasing
  let stored := if self.floorActive C timestamp then self.pendingMinAcceptedGeneration
    else self.storedMinAcceptedGeneration
  pure ({ self with
    storedMinAcceptedGeneration := stored
    pendingMinAcceptedGeneration := newValue
    minAcceptedGenerationActivationEpoch := activationEpoch },
    [.minAcceptedGenerationQueued newValue activationEpoch])

end AttestationRegistry

inductive RegistryCall where
  | addAttestations (subjectPubkeyHashes : List Word) (expiresAt generation : UInt64)
  | addAttester (attester : Address)
  | removeAttester (attester : Address)
  | lowerRevocation (attester : Address) (newRevokedAtEpoch : UInt64)
  | raiseMinAcceptedGeneration (newValue : UInt64) (activationEpoch : Nat)
  | grantRole (role : RegistryRole) (account : Address)
  | revokeRole (role : RegistryRole) (account : Address)
  | renounceRole (role : RegistryRole) (callerConfirmation : Address)

/-- A call of the registry; the role calls are those of `AccessControl`. -/
def RegistryCall.run {F T : Type} [BnField F] (C : RegistryConfig F T) (sender : Address)
    (timestamp : Nat) (self : AttestationRegistry F T) : RegistryCall →
    Except RegistryRevert (AttestationRegistry F T × List RegistryEvent)
  | .addAttestations subjects expiresAt generation =>
    self.addAttestations C sender timestamp subjects expiresAt generation
  | .addAttester attester => self.addAttester C sender attester
  | .removeAttester attester => self.removeAttester C sender attester
  | .lowerRevocation attester newRevokedAtEpoch =>
    self.lowerRevocation C sender timestamp attester newRevokedAtEpoch
  | .raiseMinAcceptedGeneration newValue activationEpoch =>
    self.raiseMinAcceptedGeneration C sender timestamp newValue activationEpoch
  | .grantRole role account => do
    self.onlyRole .defaultAdmin sender
    pure ({ self with roles := self.roles.set role account true }, [])
  | .revokeRole role account => do
    self.onlyRole .defaultAdmin sender
    pure ({ self with roles := self.roles.set role account false }, [])
  | .renounceRole role callerConfirmation => do
    failIf (callerConfirmation ≠ sender) .accessControlBadConfirmation
    pure ({ self with roles := self.roles.set role callerConfirmation false }, [])

end Pocs.Compliance
