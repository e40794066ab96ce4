import Pocs.Lib.Token
import Pocs.Civic.ClassBinding
import Pocs.Civic.Types

/-! # The contract

`PetitionRegistry.sol`. A call is a function on the storage and the state of the bounty token; a
revert undoes all of it. `uint256` values are natural numbers with the checks of Solidity 0.8, the
verifiers, the point-evaluation precompile and the token are fields of the deployment. -/

namespace Pocs.Civic.Solidity

/-! ## Storage -/

inductive PetitionState where
  | unset
  | registered
  | signingOpen
  | signingClosed
  | cooldown
  | disputeWindow
  | resolved
  | unresolved
  deriving DecidableEq, Repr

inductive BatchState where
  | unset
  | active
  | repudiated
  deriving DecidableEq, Repr

structure PetitionRecord where
  rRoot : Bytes32
  predicateHash : Bytes32
  predicateHashPreId : Bytes32
  salt : Bytes32
  classSet : List ClassTag
  classThresholds : List Nat
  classIndex : UInt8
  closeAtBlock : Nat
  registrationBlock : Nat
  slot : Nat
  bounty : Nat
  alphaAtRegistration : Nat
  organizer : Address
  runningRoot : Bytes32
  identityTagSetRoot : Bytes32
  leafCount : Nat
  b : Bool
  bPerClass : List Bool
  state : PetitionState

/-- The value of an unwritten slot of the mapping. -/
def PetitionRecord.default : PetitionRecord where
  rRoot := .zero 32
  predicateHash := .zero 32
  predicateHashPreId := .zero 32
  salt := .zero 32
  classSet := []
  classThresholds := []
  classIndex := 0
  closeAtBlock := 0
  registrationBlock := 0
  slot := 0
  bounty := 0
  alphaAtRegistration := 0
  organizer := .zero 20
  runningRoot := .zero 32
  identityTagSetRoot := .zero 32
  leafCount := 0
  b := false
  bPerClass := []
  state := .unset

structure BatchRecord where
  batchVersionedHash : Bytes32
  priorRunningRoot : Bytes32
  newRunningRoot : Bytes32
  priorIdentityTagSetRoot : Bytes32
  newIdentityTagSetRoot : Bytes32
  priorLeafCount : Nat
  newLeafCount : Nat
  relayer : Address
  submittedAtBlock : Nat
  state : BatchState

structure Storage where
  petitions : Bytes32 → PetitionRecord
  batches : Bytes32 → List BatchRecord
  alpha : Nat
  s : Nat

def cooldownBlocks : Nat := 600
def resolutionDeadlineBlocks : Nat := 100800
def markUnresolvedGraceBlocks : Nat := 300
def batchSizeMax : Nat := 6
def tombstoneRunningRoot : Bytes32 := .ofNat 32 1
def gasRebateBps : Nat := 100
def markUnresolvedGasEstimate : Nat := 100000
def resolutionClassMax : Nat := 16

/-! ## Arguments, events and reverts -/

/-- The parameters of the Rust side. -/
structure PetitionParams extends Sol.PetitionParams where
  rRoot : Bytes32
  salt : Bytes32

structure BatchPublicInputs where
  petitionId : Bytes32
  rRoot : Bytes32
  predicateHash : Bytes32
  classIndex : UInt8
  slot : Nat
  batchSize : Nat
  priorRunningRoot : Bytes32
  newRunningRoot : Bytes32
  priorIdentityTagSetRoot : Bytes32
  newIdentityTagSetRoot : Bytes32
  priorLeafCount : Nat
  newLeafCount : Nat
  batchVersionedHash : Bytes32
  blsFields : Fin 24 → Bytes32
  signerVkHash : Bytes32

structure ResolutionPublicInputs where
  b : Bool
  bPerClass : List Bool

structure DisputeParams where
  petitionId : Bytes32
  batchIndex : Nat
  positionI : Nat
  positionJ : Nat
  violationType : UInt8

inductive Event where
  | petitionRegistered (petitionId : Bytes32) (slot : Nat) (rRoot predicateHash : Bytes32)
      (classSet : List ClassTag) (classThresholds : List Nat) (classIndex : UInt8)
      (closeAtBlock bounty : Nat)
  | batchPublished (petitionId : Bytes32) (batchIndex : Nat)
      (batchVersionedHash newRunningRoot newIdentityTagSetRoot : Bytes32) (newLeafCount : Nat)
  | batchRepudiated (petitionId : Bytes32) (batchIndex : Nat)
      (newRunningRoot newIdentityTagSetRoot : Bytes32) (newLeafCount : Nat)
  | petitionResolved (petitionId : Bytes32) (b : Bool) (bPerClass : List Bool)
  | petitionUnresolved (petitionId : Bytes32)
  | bountyPaid (petitionId : Bytes32) (recipient : Address) (amount : Nat)
  | bountyRefunded (petitionId : Bytes32) (recipient : Address) (amount : Nat)
  | alphaUpdated (oldAlpha newAlpha : Nat)

/-- The custom errors; `panic` is a checked overflow or an index out of bounds. -/
inductive RegistryRevert where
  | params (r : Revert)
  | notGovernance
  | invalidPetition
  | invalidState
  | invalidBatch
  | invalidDispute
  | batchSizeOutOfRange
  | priorStateMismatch
  | proofRejected
  | blobHashMismatch
  | alreadyResolved
  | tooEarly
  | disputeWindowClosed
  | alphaOutOfBounds
  | paymentFailed
  | violationFalse
  | signerVkHashMismatch
  | slotOverflow
  | panic
  deriving DecidableEq, Repr

structure Payment where
  recipient : Address
  amount : Nat
  deriving DecidableEq

structure Output where
  events : List Event
  payments : List Payment

structure Deployment (τ : Type) where
  primitives : Primitives
  address : Address
  chainId : Nat
  governance : Address
  alphaMin : Nat
  alphaMax : Nat
  attrCount : Nat
  emptyImtRoot : Bytes32
  pinnedSignerVkHash : Bytes32
  batchVerifier : List UInt8 → List Bytes32 → Bool
  resolutionVerifier : List UInt8 → List Bytes32 → Bool
  /-- `address(0x0a).staticcall`. -/
  pointEvaluation : List UInt8 → Option (List UInt8)
  bountyToken : Token Address τ

structure Msg where
  sender : Address
  blockNumber : Nat
  gasprice : Nat
  blobhash : Bytes32

structure World (τ : Type) where
  storage : Storage
  token : τ

variable {τ : Type}

/-- `rec.state`, `rec.bounty` and so on are written in place. -/
def World.setPetition (w : World τ) (petitionId : Bytes32) (rec : PetitionRecord) : World τ :=
  { w with
    storage := { w.storage with
      petitions := Function.update w.storage.petitions petitionId rec } }

/-- `_advanceStateOnRead`; the result is `none` when the call reverts. -/
def advanceStateOnRead (blockNumber closeAtBlock : Nat) (state : PetitionState) : Option PetitionState := do
  guard (state ≠ .unset)
  let state := if state = .registered then .signingOpen else state
  let state := if state = .signingOpen ∧ blockNumber ≥ closeAtBlock then .signingClosed else state
  let state := if state = .signingClosed then .cooldown else state
  if state = .cooldown then
    let cooldownEnd ← checkedAdd 64 closeAtBlock cooldownBlocks
    return if blockNumber ≥ cooldownEnd then .disputeWindow else state
  return state

/-- `_advanceStateOnRead(rec)`. -/
def PetitionRecord.advance (rec : PetitionRecord) (msg : Msg) : Except RegistryRevert PetitionRecord := do
  let state ← okOr (advanceStateOnRead msg.blockNumber rec.closeAtBlock rec.state)
    (if rec.state = .unset then .invalidPetition else .panic)
  pure { rec with state := state }

def PetitionRecord.withRoots (rec : PetitionRecord) (runningRoot identityTagSetRoot : Bytes32)
    (leafCount : Nat) : PetitionRecord :=
  { rec with
    runningRoot := runningRoot
    identityTagSetRoot := identityTagSetRoot
    leafCount := leafCount }

/-! ## Register -/

/-- `PoseidonT3.hash` on two words. -/
def poseidon2 (P : Poseidon Fr) (a b : Nat) : Nat :=
  (P.hash2 (PrimeField.reduce a) (PrimeField.reduce b)).val

/-- `PoseidonT4.hash` on three words. -/
def poseidon3 (P : Poseidon Fr) (a b c : Nat) : Nat :=
  (P.hash3 (PrimeField.reduce a) (PrimeField.reduce b) (PrimeField.reduce c)).val

/-- The bytes `[srcOff, srcOff + n)` of the definition, zero from its end on. -/
def defSlice (predicateDef : List UInt8) (srcOff n : Nat) : List UInt8 :=
  (List.range n).map fun k => predicateDef.getD (srcOff + k) 0

/-- Segment `i` of `_canonicalScalars`. -/
def canonicalSegment (predicateDef : List UInt8) (i : Nat) : Bytes32 :=
  let len := predicateDef.length
  if i = 0 then
    .resize 32 (0 :: UInt8.ofNat (len >>> 8) :: UInt8.ofNat (len &&& 0xff) :: defSlice predicateDef 0 29)
  else .resize 32 (0 :: defSlice predicateDef (29 + 31 * (i - 1)) 31)

def canonicalScalars (predicateDef : List UInt8) : List Bytes32 :=
  (List.range 34).map (canonicalSegment predicateDef)

def recomputePredicateHash (P : Poseidon Fr) (canonical : List Bytes32) (petitionId salt : Bytes32) :
    Bytes32 :=
  let acc := canonical.foldl (fun acc x => poseidon2 P acc x.toNat) 5
  let acc := poseidon2 P acc petitionId.toNat
  .ofNat 32 (poseidon2 P acc salt.toNat)

def domainPetitionId : List UInt8 :=
  "RCP/petition_id/v1".toList.map fun c => UInt8.ofNat c.toNat

def petitionIdOf (D : Deployment τ) (msg : Msg) (params : PetitionParams)
    (predicateHashPreId : Bytes32) (sAtReg : Nat) : Bytes32 :=
  let h := D.primitives.keccak256 ((D.primitives.keccak256 domainPetitionId).1 ++
    beOfNat 8 D.chainId ++ D.address.1 ++ msg.sender.1 ++ beOfNat 4 sAtReg ++
    predicateHashPreId.1 ++ beOfNat 8 params.closeAtBlock)
  ⟨h.1.set 0 0, by rw [List.length_set, h.2]⟩

/-- `petitionId`, `predicateHash` and `predicateHashPreId`. -/
def deriveIds (D : Deployment τ) (msg : Msg) (params : PetitionParams) (sAtReg : Nat) :
    Bytes32 × Bytes32 × Bytes32 :=
  let P := D.primitives.poseidon
  let canonical := canonicalScalars params.predicateDef
  let predicateHashPreId := recomputePredicateHash P canonical (.zero 32) params.salt
  let petitionId := petitionIdOf D msg params predicateHashPreId sAtReg
  (petitionId, recomputePredicateHash P canonical petitionId params.salt, predicateHashPreId)

/-- What `_writePetition` leaves in the slot. -/
def PetitionRecord.written (rec : PetitionRecord) (D : Deployment τ) (msg : Msg)
    (params : PetitionParams) (predicateHash predicateHashPreId : Bytes32) (alpha sAtReg : Nat) :
    PetitionRecord :=
  { rec with
    rRoot := params.rRoot
    predicateHash := predicateHash
    predicateHashPreId := predicateHashPreId
    salt := params.salt
    classIndex := params.classIndex
    closeAtBlock := params.closeAtBlock
    registrationBlock := msg.blockNumber
    slot := sAtReg
    bounty := params.bounty
    alphaAtRegistration := alpha
    organizer := msg.sender
    runningRoot := D.emptyImtRoot
    identityTagSetRoot := D.emptyImtRoot
    classSet := params.classSet
    classThresholds := params.classThresholds
    state := .signingOpen }

def register (D : Deployment τ) (msg : Msg) (params : PetitionParams) (w : World τ) :
    Except RegistryRevert (World τ × Output) := do
  mapErr .params (Sol.validateParams ⟨msg.blockNumber, D.attrCount, w.storage.alpha⟩ params.toPetitionParams)
  mapErr .params (Sol.validateClassBinding params.predicateDef params.classIndex params.classSet)
  let sAtReg := w.storage.s
  failIf (sAtReg ≥ 1 <<< 24) .slotOverflow
  let (petitionId, predicateHash, predicateHashPreId) := deriveIds D msg params sAtReg
  let rec₀ := w.storage.petitions petitionId
  failIf (rec₀.state ≠ .unset) .invalidPetition
  let w := w.setPetition petitionId
    (rec₀.written D msg params predicateHash predicateHashPreId w.storage.alpha sAtReg)
  let w := { w with storage := { w.storage with s := sAtReg + 1 } }
  let token ← okOr (D.bountyToken.transferFrom D.address msg.sender D.address params.bounty w.token)
    .paymentFailed
  pure ({ w with token := token }, ⟨[.petitionRegistered petitionId sAtReg params.rRoot predicateHash
    params.classSet params.classThresholds params.classIndex params.closeAtBlock params.bounty], []⟩)

/-! ## Openings -/

/-- The canonical evaluation points of the first 24 field elements. -/
def kzgEvalPoints : List Nat :=
  [0x0000000000000000000000000000000000000000000000000000000000000001,
    0x73eda753299d7d483339d80809a1d80553bda402fffe5bfeffffffff00000000,
    0x00000000000000008d51ccce760304d0ec030002760300000001000000000000,
    0x73eda753299d7d47a5e80b39939ed33467baa40089fb5bfefffeffff00000001,
    0x345766f603fa66e78c0625cd70d77ce2b38b21c28713b7007228fd3397743f7a,
    0x3f96405d25a31660a733b23a98ca5b22a032824078eaa4fe8dd702cb688bc087,
    0x1333b22e5ce11044babc5affca86bf658e74903694b04fd86037fe81ae99502e,
    0x60b9f524ccbc6d03787d7d083f1b189fc54913cc6b4e0c269fc8017d5166afd3,
    0x20b1ce9140267af9dd1c0af834cec32c17beb312f20b6f7653ea61d87742bcce,
    0x533bd8c1e977024e561dcd0fd4d314d93bfef0f00df2ec88ac159e2688bd4333,
    0x4f2c596e753e4fcc6e92a9c460afca4a1ef4e672ebc1e1bb95df4b360411fe73,
    0x24c14de4b45f2d7bc4a72e43a8f20dbb34c8bd90143c7a436a20b4c8fbee018e,
    0x1edc919ec91f38ac5ccd4631f16edba4967a6b6cfb0faca4807b811a823f728d,
    0x551115b4607e449bd66c91d61832fc60bd43389604eeaf5a7f847ee47dc08d74,
    0x38c7f2dd7e0c63fccabf643eda8951f257bc96af334c36bca1abb31fb37786b9,
    0x3b25b475ab91194b687a73c92f188612fc010d53ccb225425e544cdf4c887948,
    0x50e0903a157988bab4bcd40e22f55448bf6e88fb4c38fb8a360c60997369df4e,
    0x230d17191423f48d7e7d03f9e6ac83bc944f1b07b3c56074c9f39f658c9620b3,
    0x65f6c5837cb5fca206050b5832d1099726bc7f62d13a6e1c3ec50c9031a36ca3,
    0x0df6e1cface780a62d34ccafd6d0ce6e2d0124a02ec3ede2c13af36ece5c935e,
    0x2c7e0457c83a7d9c5aea51f540eb0c04963dc46688b5e11768cc0c58459f155b,
    0x476fa2fb6162ffabd84f8612c8b6cc00bd7fdf9c77487ae79733f3a6ba60eaa6,
    0x5303da18a9d30564a8f0cfd2438f018c01e943612401899720d4ed194fccfeb9]

/-- `_kzgEvalPoint`: every index from 23 on gets the last point. -/
def kzgEvalPoint (k : Nat) : Bytes32 :=
  .ofNat 32 (kzgEvalPoints.getD k 0x20e9cd3a7fca77e38a490835c612d67951d460a1dbfcd267df2b12e5b0330148)

def verifyKzgOpening (D : Deployment τ) (versionedHash z y : Bytes32) (commitment proof : List UInt8) :
    Except RegistryRevert Unit :=
  let input := versionedHash.1 ++ z.1 ++ y.1 ++ commitment ++ proof
  failIf (((D.pointEvaluation input).getD []).length = 0) .proofRejected

def read32 (data : List UInt8) (off : Nat) : Bytes32 := .resize 32 (data.drop off)

/-- `proofs[k * 48:(k + 1) * 48]`. -/
def proofAt (proofs : List UInt8) (k : Nat) : List UInt8 := (proofs.drop (k * 48)).take 48

/-! ## Publish batch -/

def checkPriorState (rec : PetitionRecord) (pi : BatchPublicInputs) : Except RegistryRevert Unit :=
  failIf (rec.runningRoot ≠ pi.priorRunningRoot ∨
    rec.identityTagSetRoot ≠ pi.priorIdentityTagSetRoot ∨ rec.leafCount ≠ pi.priorLeafCount ∨
    rec.rRoot ≠ pi.rRoot ∨ rec.predicateHash ≠ pi.predicateHash ∨ rec.classIndex ≠ pi.classIndex ∨
    pi.slot ≠ rec.slot) .priorStateMismatch

/-- `_preflightBatch`; the result is the record with its state advanced. -/
def preflightBatch (D : Deployment τ) (msg : Msg) (pi : BatchPublicInputs) (w : World τ) :
    Except RegistryRevert PetitionRecord := do
  let rec₁ ← (w.storage.petitions pi.petitionId).advance msg
  failIf (rec₁.state ≠ .signingOpen) .invalidState
  failIf (pi.batchSize = 0 ∨ pi.batchSize > batchSizeMax) .batchSizeOutOfRange
  let expected ← okOr (checkedAdd 64 pi.priorLeafCount pi.batchSize) .panic
  failIf (pi.newLeafCount ≠ expected) .invalidBatch
  failIf (pi.signerVkHash ≠ D.pinnedSignerVkHash) .signerVkHashMismatch
  checkPriorState rec₁ pi
  failIf (msg.blobhash ≠ pi.batchVersionedHash) .blobHashMismatch
  pure rec₁

def batchPublicInputs (pi : BatchPublicInputs) : List Bytes32 :=
  [pi.petitionId, pi.rRoot, pi.predicateHash, .ofNat 32 pi.classIndex.toNat, .ofNat 32 pi.slot,
    .ofNat 32 pi.batchSize, pi.priorRunningRoot, pi.newRunningRoot, pi.priorIdentityTagSetRoot,
    pi.newIdentityTagSetRoot, .ofNat 32 pi.priorLeafCount, .ofNat 32 pi.newLeafCount,
    pi.batchVersionedHash] ++ List.ofFn pi.blsFields ++ [pi.signerVkHash]

def verifyConstraint8Openings (D : Deployment τ) (pi : BatchPublicInputs)
    (kzgCommitment kzgProofs : List UInt8) : Except RegistryRevert Unit := do
  failIf (kzgCommitment.length ≠ 48) .invalidBatch
  failIf (kzgProofs.length ≠ 48 * 24) .invalidBatch
  (List.finRange 24).forM fun k =>
    verifyKzgOpening D pi.batchVersionedHash (kzgEvalPoint k.val) (pi.blsFields k) kzgCommitment
      (proofAt kzgProofs k.val)

/-- The batch `_commitBatch` pushes. -/
def BatchPublicInputs.batch (pi : BatchPublicInputs) (msg : Msg) : BatchRecord where
  batchVersionedHash := pi.batchVersionedHash
  priorRunningRoot := pi.priorRunningRoot
  newRunningRoot := pi.newRunningRoot
  priorIdentityTagSetRoot := pi.priorIdentityTagSetRoot
  newIdentityTagSetRoot := pi.newIdentityTagSetRoot
  priorLeafCount := pi.priorLeafCount
  newLeafCount := pi.newLeafCount
  relayer := msg.sender
  submittedAtBlock := msg.blockNumber
  state := .active

def publishBatch (D : Deployment τ) (msg : Msg) (pi : BatchPublicInputs)
    (batchProof kzgCommitment kzgProofs : List UInt8) (w : World τ) :
    Except RegistryRevert (World τ × Output) := do
  let rec₁ ← preflightBatch D msg pi w
  failIf (!D.batchVerifier batchProof (batchPublicInputs pi)) .proofRejected
  verifyConstraint8Openings D pi kzgCommitment kzgProofs
  let batchIndex := (w.storage.batches pi.petitionId).length % 2 ^ 32
  let w := w.setPetition pi.petitionId
    (rec₁.withRoots pi.newRunningRoot pi.newIdentityTagSetRoot pi.newLeafCount)
  let w := { w with
    storage := { w.storage with
      batches := Function.update w.storage.batches pi.petitionId
        (w.storage.batches pi.petitionId ++ [pi.batch msg]) } }
  pure (w, ⟨[.batchPublished pi.petitionId batchIndex pi.batchVersionedHash pi.newRunningRoot
    pi.newIdentityTagSetRoot pi.newLeafCount], []⟩)

/-! ## Resolve and mark unresolved -/

/-- The padded arrays of `_resolutionPublicInputs`. -/
def paddedWords (csLen : Nat) (xs : List Nat) : List Bytes32 :=
  (List.range resolutionClassMax).map fun i => .ofNat 32 (if i < csLen then xs.getD i 0 else 0)

def resolutionPublicInputs (rec : PetitionRecord) (pi : ResolutionPublicInputs) :
    Except RegistryRevert (List Bytes32) := do
  let csLen := rec.classSet.length
  failIf (pi.bPerClass.length ≠ csLen) .priorStateMismatch
  pure ([rec.predicateHash, rec.rRoot, rec.runningRoot, .ofNat 32 rec.leafCount] ++
    paddedWords csLen (rec.classSet.map (·.toNat)) ++ [.ofNat 32 csLen] ++
    paddedWords csLen rec.classThresholds ++ [.ofNat 32 pi.b.toNat] ++
    paddedWords csLen (pi.bPerClass.map (·.toNat)) ++ [.ofNat 32 rec.classIndex.toNat])

/-- `_safeTransfer` of the bounty token. -/
def safeTransfer (D : Deployment τ) (recipient : Address) (amount : Nat) (w : World τ) :
    Except RegistryRevert (World τ) := do
  let token ← okOr (D.bountyToken.transfer D.address recipient amount w.token) .paymentFailed
  pure { w with token := token }

def resolve (D : Deployment τ) (msg : Msg) (petitionId : Bytes32) (pi : ResolutionPublicInputs)
    (resolutionProof : List UInt8) (w : World τ) : Except RegistryRevert (World τ × Output) := do
  let rec₁ ← (w.storage.petitions petitionId).advance msg
  failIf (rec₁.state ≠ .disputeWindow) .invalidState
  failIf (msg.blockNumber < rec₁.closeAtBlock + resolutionDeadlineBlocks) .tooEarly
  failIf (rec₁.bPerClass.length ≠ 0) .alreadyResolved
  let inputs ← resolutionPublicInputs rec₁ pi
  failIf (!D.resolutionVerifier resolutionProof inputs) .proofRejected
  let rec₂ := { rec₁ with b := pi.b, bPerClass := pi.bPerClass, state := .resolved }
  let w ← safeTransfer D msg.sender rec₂.bounty (w.setPetition petitionId rec₂)
  pure (w, ⟨[.petitionResolved petitionId pi.b pi.bPerClass,
    .bountyPaid petitionId msg.sender rec₂.bounty], [⟨msg.sender, rec₂.bounty⟩]⟩)

/-- The rebate of `markUnresolved`: the estimated gas cost, at most 1% of the bounty. -/
def rebateOf (bounty gasprice : Nat) : Except RegistryRevert Nat := do
  let scaled ← okOr (checkedMul 256 bounty gasRebateBps) .panic
  let rebateCap := scaled / 10000
  let estimatedGasCost ← okOr (checkedMul 256 markUnresolvedGasEstimate gasprice) .panic
  pure (if estimatedGasCost < rebateCap then estimatedGasCost else rebateCap)

def markUnresolved (D : Deployment τ) (msg : Msg) (petitionId : Bytes32) (w : World τ) :
    Except RegistryRevert (World τ × Output) := do
  let rec₁ ← (w.storage.petitions petitionId).advance msg
  failIf (rec₁.state ≠ .disputeWindow) .invalidState
  failIf (msg.blockNumber < rec₁.closeAtBlock + resolutionDeadlineBlocks + markUnresolvedGraceBlocks) .tooEarly
  let rebate ← rebateOf rec₁.bounty msg.gasprice
  failIf (rec₁.bounty < rebate) .panic
  let refund := rec₁.bounty - rebate
  let rec₂ := { rec₁ with runningRoot := tombstoneRunningRoot, state := .unresolved }
  let w ← safeTransfer D rec₂.organizer refund (w.setPetition petitionId rec₂)
  let w ← if rebate > 0 then safeTransfer D msg.sender rebate w else pure w
  pure (w, ⟨[.petitionUnresolved petitionId, .bountyRefunded petitionId rec₂.organizer refund],
    ⟨rec₂.organizer, refund⟩ :: if rebate > 0 then [⟨msg.sender, rebate⟩] else []⟩)

/-- The low 248 bits of a word: the content of a field element. -/
def contentOf (y : Bytes32) : Nat := y.toNat &&& ((1 <<< 248) - 1)

def decodeRecordClassTag (openingsBlob : List UInt8) (base : Nat) : ClassTag :=
  let contentRaw := contentOf (read32 openingsBlob (base + 2 * 32))
  let hi4 := contentRaw >>> (27 * 8)
  UInt16.ofNat (hi4 &&& 0xffff)

def reconstructNullifier (openingsBlob : List UInt8) (base : Nat) : Bytes32 :=
  let fe0 := contentOf (read32 openingsBlob base)
  let fe1 := contentOf (read32 openingsBlob (base + 32))
  let fe1Byte0 := (fe1 >>> (30 * 8)) &&& 0xff
  .ofNat 32 ((fe0 <<< 8) % 2 ^ 256 ||| fe1Byte0)

def reconstructIdentityTag (openingsBlob : List UInt8) (base : Nat) : Bytes32 :=
  let fe1 := contentOf (read32 openingsBlob (base + 32))
  let fe2 := contentOf (read32 openingsBlob (base + 2 * 32))
  let fe1Body := fe1 &&& ((1 <<< (30 * 8)) - 1)
  let fe2Hi := (fe2 >>> (29 * 8)) &&& 0xffff
  .ofNat 32 ((fe1Body <<< 16) % 2 ^ 256 ||| fe2Hi)

/-! ## Dispute -/

/-- The checks of the positions in `_preflightDispute`. -/
def checkPositions (dp : DisputeParams) : Except RegistryRevert Unit := do
  failIf (dp.positionI ≥ batchSizeMax) .invalidDispute
  failIf (dp.violationType ≠ 0x01 ∧ dp.positionJ ≥ batchSizeMax) .invalidDispute
  failIf (dp.violationType ≠ 0x01 ∧ dp.positionI = dp.positionJ) .invalidDispute
  failIf (dp.violationType = 0x03 ∧ dp.positionJ ≠ dp.positionI + 1) .invalidDispute

def versionedHashOf (C : Primitives) (kzgCommitment : List UInt8) : Bytes32 :=
  let sha := C.sha256 kzgCommitment
  ⟨sha.1.set 0 1, by rw [List.length_set, sha.2]⟩

/-- `_preflightDispute`; the result is the record with its state advanced. -/
def preflightDispute (D : Deployment τ) (msg : Msg) (dp : DisputeParams)
    (kzgCommitment : List UInt8) (w : World τ) : Except RegistryRevert PetitionRecord := do
  let rec₁ ← (w.storage.petitions dp.petitionId).advance msg
  failIf (rec₁.state ≠ .disputeWindow) .invalidState
  failIf (msg.blockNumber ≥ rec₁.closeAtBlock + resolutionDeadlineBlocks) .disputeWindowClosed
  let bat ← okOr (w.storage.batches dp.petitionId)[dp.batchIndex]? .invalidBatch
  failIf (bat.state ≠ .active) .invalidBatch
  failIf (kzgCommitment.length ≠ 48) .invalidBatch
  checkPositions dp
  failIf (versionedHashOf D.primitives kzgCommitment ≠ bat.batchVersionedHash) .blobHashMismatch
  pure rec₁

/-- `_verifyOpenings`, against the versioned hash of the batch. -/
def verifyOpenings (D : Deployment τ) (dp : DisputeParams) (vh : Bytes32)
    (kzgCommitment openingsBlob proofsBlob : List UInt8) : Except RegistryRevert Unit := do
  let needed := if dp.violationType = 0x01 then 4 else 8
  failIf (openingsBlob.length ≠ needed * 32) .invalidBatch
  failIf (proofsBlob.length ≠ needed * 48) .invalidBatch
  (List.range needed).forM fun k =>
    let pos := if k < 4 then dp.positionI else dp.positionJ
    verifyKzgOpening D vh (kzgEvalPoint (pos * 4 + k % 4)) (read32 openingsBlob (k * 32))
      kzgCommitment (proofAt proofsBlob k)

def applyViolationPredicate (C : Primitives) (dp : DisputeParams) (classSet : List ClassTag)
    (openingsBlob : List UInt8) : Except RegistryRevert Bool :=
  if dp.violationType = 0x01 then
    .ok (!Sol.classInSetMemory (decodeRecordClassTag openingsBlob 0) classSet)
  else if dp.violationType = 0x02 then
    .ok (decide (reconstructIdentityTag openingsBlob 0 = reconstructIdentityTag openingsBlob (4 * 32)))
  else if dp.violationType = 0x03 then
    let leaf (base : Nat) := poseidon3 C.poseidon 3 (reconstructNullifier openingsBlob base).toNat
      (decodeRecordClassTag openingsBlob base).toNat
    .ok (decide (leaf 0 ≥ leaf (4 * 32)))
  else .error .invalidBatch

/-- The roots and the count `_cascadeRepudiation` rolls back to. -/
def rollBackTo (D : Deployment τ) (batches : List BatchRecord) (batchIndex : Nat) : Bytes32 × Bytes32 × Nat :=
  match batchIndex with
  | 0 => (D.emptyImtRoot, D.emptyImtRoot, 0)
  | i + 1 =>
    match batches[i]? with
    | some prev => (prev.newRunningRoot, prev.newIdentityTagSetRoot, prev.newLeafCount)
    | none => (.zero 32, .zero 32, 0)

/-- The batches from `batchIndex` on, repudiated. -/
def repudiateFrom (batches : List BatchRecord) (batchIndex : Nat) : List BatchRecord :=
  batches.take batchIndex ++ (batches.drop batchIndex).map fun bat =>
    if bat.state = .active then { bat with state := .repudiated } else bat

def dispute (D : Deployment τ) (msg : Msg) (dp : DisputeParams)
    (kzgCommitment openingsBlob proofsBlob : List UInt8) (w : World τ) :
    Except RegistryRevert (World τ × Output) := do
  let rec₁ ← preflightDispute D msg dp kzgCommitment w
  let bs := w.storage.batches dp.petitionId
  let bat ← okOr bs[dp.batchIndex]? .panic
  verifyOpenings D dp bat.batchVersionedHash kzgCommitment openingsBlob proofsBlob
  let violated ← applyViolationPredicate D.primitives dp rec₁.classSet openingsBlob
  failIf (!violated) .violationFalse
  let (newRunning, newIdtag, newLeafCount) := rollBackTo D bs dp.batchIndex
  let w := w.setPetition dp.petitionId (rec₁.withRoots newRunning newIdtag newLeafCount)
  let w := { w with
    storage := { w.storage with
      batches := Function.update w.storage.batches dp.petitionId (repudiateFrom bs dp.batchIndex) } }
  pure (w, ⟨[.batchRepudiated dp.petitionId dp.batchIndex newRunning newIdtag newLeafCount], []⟩)

def updateAlpha (D : Deployment τ) (msg : Msg) (newAlpha : Nat) (w : World τ) :
    Except RegistryRevert (World τ × Output) := do
  failIf (msg.sender ≠ D.governance) .notGovernance
  failIf (newAlpha < D.alphaMin ∨ newAlpha > D.alphaMax) .alphaOutOfBounds
  pure ({ w with storage := { w.storage with alpha := newAlpha } },
    ⟨[.alphaUpdated w.storage.alpha newAlpha], []⟩)

inductive Call where
  | register (params : PetitionParams)
  | publishBatch (pi : BatchPublicInputs) (batchProof kzgCommitment kzgProofs : List UInt8)
  | dispute (dp : DisputeParams) (kzgCommitment openingsBlob proofsBlob : List UInt8)
  | resolve (petitionId : Bytes32) (pi : ResolutionPublicInputs) (resolutionProof : List UInt8)
  | markUnresolved (petitionId : Bytes32)
  | updateAlpha (newAlpha : Nat)

def Call.run (D : Deployment τ) (msg : Msg) : Call → World τ → Except RegistryRevert (World τ × Output)
  | .register params => Solidity.register D msg params
  | .publishBatch pi batchProof kzgCommitment kzgProofs =>
    Solidity.publishBatch D msg pi batchProof kzgCommitment kzgProofs
  | .dispute dp kzgCommitment openingsBlob proofsBlob =>
    Solidity.dispute D msg dp kzgCommitment openingsBlob proofsBlob
  | .resolve petitionId pi resolutionProof => Solidity.resolve D msg petitionId pi resolutionProof
  | .markUnresolved petitionId => Solidity.markUnresolved D msg petitionId
  | .updateAlpha newAlpha => Solidity.updateAlpha D msg newAlpha

def Storage.deployed (alpha : Nat) : Storage where
  petitions _ := .default
  batches _ := []
  alpha := alpha
  s := 0

end Pocs.Civic.Solidity
