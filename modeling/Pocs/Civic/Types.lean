import Pocs.Civic.Poseidon
import Pocs.Civic.Predicate

/-! # Domain types shared by the actors

The records, submissions and public inputs of `types.rs`, the constants of `lib.rs` and the errors
of `error.rs`. Block numbers, counts and amounts are natural numbers; where the source checks a
fixed width the operations on them do too. -/

namespace Pocs.Civic

def fsrtSlotCount : Nat := 1 <<< 24
def batchSizeMax : Nat := 6
def recordsPerBlob : Nat := 1000
def recordLen : Nat := 96
def blocksPerDay : Nat := 24 * 60 * 60 / 12
def maxSigningWindowBlocks : Nat := 11 * blocksPerDay + blocksPerDay / 2
def cooldownBlocks : Nat := 2 * 60 * 60 / 12
def resolutionDeadlineBlocks : Nat := 14 * blocksPerDay
def markUnresolvedGraceBlocks : Nat := 300
def minRAgeBlocks : Nat := 30 * blocksPerDay

abbrev Address := Bytes 20
abbrev PetitionId := Bytes32

/-- 256-bit unsigned integer, big-endian. -/
abbrev U256Be := Bytes32

/-- The hash functions. -/
structure Primitives where
  poseidon : Poseidon Fr
  sha256 : List UInt8 → Bytes32
  keccak256 : List UInt8 → Bytes32

inductive PetitionState where
  | registered
  | signingOpen
  | signingClosed
  | cooldown
  | disputeWindow
  | resolved
  | unresolved
  deriving DecidableEq, Repr

inductive BatchState where
  | active
  | repudiated
  deriving DecidableEq, Repr

inductive ViolationType where
  | classTagOutOfSet
  | intraBatchDuplicateIdentityTag
  | leafOrderingViolation
  deriving DecidableEq, Repr

structure PetitionRecord where
  petitionId : PetitionId
  slot : Nat
  rRoot : Bytes32
  predicateDef : List UInt8
  predicateHash : Bytes32
  salt : Bytes32
  classSet : List ClassTag
  classThresholds : List Nat
  classIndex : UInt8
  closeAtBlock : Nat
  bounty : U256Be
  alphaAtRegistration : Nat
  organizer : Address
  runningRoot : Bytes32
  identityTagSetRoot : Bytes32
  leafCount : Nat
  resolutionProof : List UInt8
  b : Bool
  bPerClass : List Bool
  state : PetitionState
  registrationBlock : Nat

structure BatchRecord where
  petitionId : PetitionId
  batchIndex : Nat
  batchVersionedHash : Bytes32
  newRunningRoot : Bytes32
  newIdentityTagSetRoot : Bytes32
  priorRunningRoot : Bytes32
  priorIdentityTagSetRoot : Bytes32
  priorLeafCount : Nat
  newLeafCount : Nat
  relayer : Address
  submittedAtBlock : Nat
  state : BatchState

/-- The parameters common to all petitions. -/
structure GlobalState where
  s : Nat
  alpha : Nat
  alphaMin : Nat
  alphaMax : Nat
  srsHash : Bytes32
  chainId : Nat
  n : UInt8

/-- A signature as it is published. -/
structure RecordEntry where
  nullifier : Bytes32
  identityTag : Bytes32
  classTag : ClassTag
  deriving DecidableEq

/-- `RecordEntry::default()`. -/
def RecordEntry.zero : RecordEntry := ⟨Bytes.zero 32, Bytes.zero 32, 0⟩

structure BatchPublicInputs where
  petitionId : Fr
  rRoot : Fr
  predicateHash : Fr
  classIndex : Fr
  slot : Fr
  batchSize : Fr
  priorRunningRoot : Fr
  newRunningRoot : Fr
  priorIdentityTagSetRoot : Fr
  newIdentityTagSetRoot : Fr
  priorLeafCount : Fr
  newLeafCount : Fr
  batchVersionedHash : Fr
  blsFields : List Fr
  signerVkHash : Fr

structure ResolutionPublicInputs where
  predicateHash : Fr
  rRoot : Fr
  runningRoot : Fr
  leafCount : Fr
  classSet : List Fr
  classThresholds : List Fr
  b : Fr
  bPerClass : List Fr
  classIndex : Fr

/-- A batch with its proof. -/
structure BatchSubmission where
  publicInputs : BatchPublicInputs
  records : List RecordEntry
  proofBytes : List UInt8

structure ResolutionSubmission where
  publicInputs : ResolutionPublicInputs
  proofBytes : List UInt8

/-- Point-evaluation opening against `batch_versioned_hash`. -/
structure KzgOpening where
  fieldElementIndex : Nat
  claimedValue : Bytes32
  proofBytes : List UInt8

/-- Dispute envelope; record content is derived from `openings`. -/
structure Dispute where
  petitionId : PetitionId
  batchIndex : Nat
  violationType : ViolationType
  positionI : Nat
  positionJ : Option Nat
  openings : List KzgOpening

/-- The arguments of `register`. -/
structure PetitionDraft where
  organizer : Address
  rRoot : Bytes32
  predicateDef : PredicateDef
  salt : Bytes32
  classSet : List ClassTag
  classThresholds : List Nat
  classIndex : UInt8
  closeAtBlock : Nat
  bounty : U256Be

inductive ProofError where
  | generation (msg : String)
  | witnessSerialization (msg : String)
  | verification (msg : String)
  deriving DecidableEq, Repr

inductive BlobError where
  | capacity (records capacity : Nat)
  | malformed (msg : String)
  | invalidOpening (msg : String)
  | notFound
  deriving DecidableEq, Repr

end Pocs.Civic
