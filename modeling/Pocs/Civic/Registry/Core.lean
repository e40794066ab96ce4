import Pocs.Lib.Method
import Pocs.Civic.Blob
import Pocs.Civic.Imt

/-! # The petition registry

The state machine of `registry/core.rs`. An operation on a petition is a method on its entry; the
ports it calls (clock, proof backend, credential layer, blob carrier) are the answers they give
during the call. The block number does not change within a call. -/

namespace Pocs.Civic

open Method (get set ofExcept orPanic)

/-! ## Errors, events and ports -/

inductive RegistryError where
  | duplicatePetition
  | unknownPetition
  | badState (state : PetitionState) (operation : String)
  | rRootTooYoung
  | alphaOutOfBounds (alpha min max : Nat)
  | bountyBelowMinimum (bounty min : Nat)
  | slotCounterExhausted (s : Nat)
  | predicate (e : PredicateError)
  | badBatchProof (e : ProofError)
  | batchPriorMismatch (expectedRr expectedIdt : Bytes32) (expectedLc : Nat)
      (gotRr gotIdt : Bytes32) (gotLc : Nat)
  | batchSizeOutOfRange (n : Nat)
  | badResolutionProof (e : ProofError)
  | resolutionStateMismatch
  | badDisputeOpening (e : BlobError)
  | disputePredicateNotMet
  | disputeUnknownBatch (batchIndex : Nat)
  | disputeBatchAlreadyRepudiated (batchIndex : Nat)
  | disputeWindowClosed
  | imt (e : ImtError)
  | blob (e : BlobError)
  deriving DecidableEq

namespace RegistryError

def malformed (msg : String) : RegistryError := .predicate (.malformed msg)
def badBatch (msg : String) : RegistryError := .badBatchProof (.verification msg)
def badOpening (msg : String) : RegistryError := .badDisputeOpening (.malformed msg)

end RegistryError

/-- The `Display` text of an IMT error. -/
def ImtError.display : ImtError → String
  | .duplicateInsertion => "duplicate insertion: value already present in IMT"
  | .capacityExhausted depth => s!"tree depth exhausted (max {depth})"
  | .lowLeafInvariant msg => s!"low-leaf invariants violated: {msg}"

structure RegisteredPetition where
  petitionId : PetitionId
  slot : Nat
  predicateHash : Bytes32
  registeredAtBlock : Nat

structure PetitionRegisteredEvent where
  petitionId : PetitionId
  slot : Nat
  rRoot : Bytes32
  predicateHash : Bytes32
  classSet : List ClassTag
  classThresholds : List Nat
  classIndex : UInt8
  closeAtBlock : Nat
  bounty : Nat

structure BatchPublishedEvent where
  petitionId : PetitionId
  batchIndex : Nat
  batchVersionedHash : Bytes32
  newRunningRoot : Bytes32
  newIdentityTagSetRoot : Bytes32
  newLeafCount : Nat

structure BatchRepudiatedEvent where
  petitionId : PetitionId
  batchIndex : Nat
  newRunningRoot : Bytes32
  newIdentityTagSetRoot : Bytes32
  newLeafCount : Nat

structure PetitionResolvedEvent where
  petitionId : PetitionId
  b : Bool
  bPerClass : List Bool

structure PetitionUnresolvedEvent where
  petitionId : PetitionId

/-- `BountyPaid` and `BountyRefunded`. -/
structure BountyEvent where
  petitionId : PetitionId
  recipient : Address
  amount : Nat

structure AlphaUpdatedEvent where
  oldAlpha : Nat
  newAlpha : Nat

/-- The clock, the verifiers, the ring and the blobs, as the registry calls them. -/
structure Ports where
  now : Nat
  verifyBatchProof : List UInt8 → BatchPublicInputs → Except ProofError Unit
  verifyResolutionProof : List UInt8 → ResolutionPublicInputs → Except ProofError Unit
  rootFirstSeen : Bytes32 → Option Nat
  verify : Bytes32 → KzgOpening → Except BlobError Unit
  fetchRecords : Bytes32 → Except BlobError (List RecordEntry)

/-- What the registry keeps of a petition: the record, its batches and both trees. -/
structure PetitionEntry where
  record : PetitionRecord
  batches : List BatchRecord
  runningImt : IndexedMerkleTree Fr
  identityTagImt : IndexedMerkleTree Fr

/-- The registry of the Rust side. -/
structure PetitionRegistry where
  address : Address
  global : GlobalState
  petitions : PetitionId → Option PetitionEntry
  emptyImtRoot : Bytes32

def IndexedMerkleTree.rootBytes (t : IndexedMerkleTree Fr) : Bytes32 := frToBeBytes t.root

def PetitionRegistry.new (C : Primitives) (address : Address) (global : GlobalState) : PetitionRegistry where
  address := address
  global := global
  petitions := fun _ => none
  emptyImtRoot := (IndexedMerkleTree.new C.poseidon).rootBytes

/-! ## Conversions -/

def frToU64 (fr : Fr) : Except RegistryError Nat := do
  let be := (frToBeBytes fr).1
  failIf ((be.take 24).any (· ≠ 0)) (.badBatch "public-input field element exceeds u64 range")
  pure (beToNat (be.drop 24))

def u256ToU128 (v : U256Be) : Except RegistryError Nat := do
  failIf ((v.1.take 16).any (· ≠ 0)) (.malformed "bounty exceeds u128 range")
  pure (beToNat (v.1.drop 16))

/-- `leaf = hash_leaf(nullifier mod r, class_tag)`. -/
def RecordEntry.leaf (C : Primitives) (record : RecordEntry) : Fr :=
  hashLeaf C.poseidon (frFromBeBytes record.nullifier.1) (Scalar.ofNat record.classTag.toNat)

def RecordEntry.tag (record : RecordEntry) : Fr := frFromBeBytes record.identityTag.1

/-- Violation predicate: `leaf_i >= leaf_{i+1}` under big-endian byte ordering. -/
def leafOrderingViolated (leafI leafIp1 : Fr) : Bool :=
  !decide (frToBeBytes leafI < frToBeBytes leafIp1)

def domainPetition : List UInt8 :=
  "RCP/petition_id/v1".toList.map fun c => UInt8.ofNat c.toNat

def derivePetitionId (C : Primitives) (chainId : Nat) (registryAddress organizer : Address)
    (sAtRegistration : Nat) (predicateHashPreId : Bytes32) (closeAtBlock : Nat) : PetitionId :=
  let h := C.keccak256 ((C.keccak256 domainPetition).1 ++ beOfNat 8 chainId ++ registryAddress.1 ++
    organizer.1 ++ beOfNat 4 sAtRegistration ++ predicateHashPreId.1 ++ beOfNat 8 closeAtBlock)
  ⟨h.1.set 0 0, by rw [List.length_set, h.2]⟩

/-! ## Lifecycle -/

/-- The transition out of `state`, if there is one; the sum of the cooldown guard may overflow. -/
def nextState (block closeAtBlock : Nat) : PetitionState → Option (Option PetitionState)
  | .registered => some (some .signingOpen)
  | .signingOpen => some (if block ≥ closeAtBlock then some .signingClosed else none)
  | .signingClosed => some (some .cooldown)
  | .cooldown => do
    let cooldownEnd ← checkedAdd 64 closeAtBlock cooldownBlocks
    some (if block ≥ cooldownEnd then some .disputeWindow else none)
  | _ => some none

/-- The loop of `step_state`, for at most `n` rounds. -/
def stepStateLoop (block closeAtBlock : Nat) : Nat → PetitionState → Option PetitionState
  | 0, state => some state
  | n + 1, state => do
    match ← nextState block closeAtBlock state with
    | some next => stepStateLoop block closeAtBlock n next
    | none => some state

/-- Advance the lifecycle to the current block. Four transitions lead from the first state to the
last one the loop reaches (`stepState_final`). -/
def stepState (block closeAtBlock : Nat) (state : PetitionState) : Option PetitionState :=
  stepStateLoop block closeAtBlock 5 state

def PetitionEntry.withState (e : PetitionEntry) (state : PetitionState) : PetitionEntry :=
  { e with record := { e.record with state := state } }

/-- `step_state` on the entry of a petition. -/
def stepEntry (env : Ports) : Method PetitionEntry RegistryError PetitionState := do
  let entry ← get
  let state ← orPanic (stepState env.now entry.record.closeAtBlock entry.record.state)
  set (entry.withState state)
  return state

/-- `petition_mut(id)?` and a method on the entry. -/
def onPetition (id : PetitionId) (m : Method PetitionEntry RegistryError α) :
    Method PetitionRegistry RegistryError α := fun reg =>
  (Method.onKey id .unknownPetition m reg.petitions).map fun r =>
    (r.1, { reg with petitions := r.2 })

/-! ## `register` -/

/-- What the checks of `register` compute. -/
structure DraftBindings where
  petitionId : PetitionId
  encoded : List UInt8
  predicateHash : Bytes32
  bounty : Nat

open RegistryError (malformed) in
/-- The checks of `register`. -/
def checkDraft (C : Primitives) (env : Ports) (reg : PetitionRegistry) (draft : PetitionDraft) :
    Except RegistryError DraftBindings := do
  mapErr .predicate draft.predicateDef.validate
  failIf (draft.classSet = []) (malformed "class_set must be non-empty")
  failIf (draft.classThresholds.length ≠ draft.classSet.length)
    (malformed "class_thresholds.len() != class_set.len()")
  failIf (0 ∈ draft.classThresholds) (malformed "every class_thresholds[i] must be >= 1")
  failIf (¬ draft.classSet.IsChain (· < ·)) (malformed "class_set must be strictly increasing")
  let (index, n) := (draft.classIndex.toNat, reg.global.n.toNat)
  failIf (index ≥ n) (malformed s!"class_index {index} >= n ({n})")
  let operand ← mapErr .predicate (draft.predicateDef.findClassBindingOperand draft.classIndex)
  failIf (operand ∉ draft.classSet) (.predicate .missingClassBinding)
  let rootFirstSeen ← okOr (env.rootFirstSeen draft.rRoot) (malformed "R is not a known RI root")
  failIf (env.now < rootFirstSeen ∨ env.now - rootFirstSeen < minRAgeBlocks) .rRootTooYoung
  failIf (draft.closeAtBlock ≤ env.now) (malformed "close_at_block must be in the future")
  failIf (draft.closeAtBlock - env.now > maxSigningWindowBlocks) (malformed "signing window exceeds 11.5 days")
  let encoded ← mapErr .predicate draft.predicateDef.encode
  let canonical ← mapErr .predicate (canonicalScalars encoded)
  let salt := frFromBeBytes draft.salt.1
  let preIdHash := hashPredicate C.poseidon canonical 0 salt
  failIf (reg.global.s ≥ fsrtSlotCount) (.slotCounterExhausted reg.global.s)
  let petitionId := derivePetitionId C reg.global.chainId reg.address draft.organizer reg.global.s
    (frToBeBytes preIdHash) draft.closeAtBlock
  failIf (reg.petitions petitionId).isSome .duplicatePetition
  let predicateHash := hashPredicate C.poseidon canonical (frFromBeBytes petitionId.1) salt
  failIf (¬ (reg.global.alphaMin ≤ reg.global.alpha ∧ reg.global.alpha ≤ reg.global.alphaMax))
    (.alphaOutOfBounds reg.global.alpha reg.global.alphaMin reg.global.alphaMax)
  let thresholdSum ← okOr (draft.classThresholds.foldlM (checkedAdd 128) 0)
    (malformed "class_thresholds sum overflow")
  let nExpected ← okOr (checkedMul 128 thresholdSum 10) (malformed "N_expected overflow")
  let bMin ← okOr ((checkedMul 128 reg.global.alpha nExpected).bind
    (checkedMul 128 · draft.predicateDef.ops.length)) (malformed "B_min overflow")
  let bounty ← u256ToU128 draft.bounty
  failIf (bounty < bMin) (.bountyBelowMinimum bounty bMin)
  pure ⟨petitionId, encoded, frToBeBytes predicateHash, bounty⟩

/-- The entry `register` inserts. -/
def newEntry (C : Primitives) (env : Ports) (reg : PetitionRegistry) (draft : PetitionDraft)
    (d : DraftBindings) : PetitionEntry where
  record := {
    petitionId := d.petitionId
    slot := reg.global.s
    rRoot := draft.rRoot
    predicateDef := d.encoded
    predicateHash := d.predicateHash
    salt := draft.salt
    classSet := draft.classSet
    classThresholds := draft.classThresholds
    classIndex := draft.classIndex
    closeAtBlock := draft.closeAtBlock
    bounty := draft.bounty
    alphaAtRegistration := reg.global.alpha
    organizer := draft.organizer
    runningRoot := reg.emptyImtRoot
    identityTagSetRoot := reg.emptyImtRoot
    leafCount := 0
    resolutionProof := []
    b := false
    bPerClass := []
    state := .registered
    registrationBlock := env.now }
  batches := []
  runningImt := .new C.poseidon
  identityTagImt := .new C.poseidon

def register (C : Primitives) (env : Ports) (draft : PetitionDraft) :
    Method PetitionRegistry RegistryError (RegisteredPetition × PetitionRegisteredEvent) := do
  let reg ← get
  let d ← ofExcept (checkDraft C env reg draft)
  let slot := reg.global.s
  let s ← ofExcept (okOr (checkedAdd 32 slot 1) (.slotCounterExhausted slot))
  set { reg with
    global := { reg.global with s := s }
    petitions := Function.update reg.petitions d.petitionId (some (newEntry C env reg draft d)) }
  let _ ← onPetition d.petitionId (stepEntry env)
  return (⟨d.petitionId, slot, d.predicateHash, env.now⟩,
    ⟨d.petitionId, slot, draft.rRoot, d.predicateHash, draft.classSet, draft.classThresholds,
      draft.classIndex, draft.closeAtBlock, d.bounty⟩)

/-! ## `publish_batch` -/

/-- The variables of the loop that re-executes the batch on cloned trees. -/
structure Scratch where
  runningImt : IndexedMerkleTree Fr
  identityTagImt : IndexedMerkleTree Fr
  prevLeaf : Option Bytes32
  lastRunningRoot : Bytes32
  lastIdentityTagRoot : Bytes32

def insertError (tree : String) (i : Nat) (e : ImtError) : RegistryError :=
  let msg := e.display
  .badBatch s!"{tree} insert at position {i}: {msg}"

/-- One round of the loop, for the record at position `i`. -/
def insertRecord (C : Primitives) (classSet : List ClassTag) (st : Scratch) (entry : RecordEntry × Nat) :
    Except RegistryError Scratch := do
  let (record, i) := entry
  let tag := record.classTag.toNat
  failIf (record.classTag ∉ classSet)
    (.badBatch s!"class_tag {tag} at position {i} not in petition's class_set")
  let leaf := frToBeBytes (record.leaf C)
  failIf (st.prevLeaf.any fun prev => !decide (prev < leaf))
    (.badBatch s!"leaf ordering violation at position {i}")
  let (leafWitness, runningImt) ← mapErr (insertError "running_imt" i)
    (st.runningImt.insert C.poseidon (frFromBeBytes leaf.1))
  let (idWitness, identityTagImt) ← mapErr (insertError "identity_tag_imt" i)
    (st.identityTagImt.insert C.poseidon record.tag)
  pure ⟨runningImt, identityTagImt, some leaf, frToBeBytes leafWitness.newRoot, frToBeBytes idWitness.newRoot⟩

/-- What the checks of `publish_batch` compute. -/
structure BatchUpdate where
  localVh : Bytes32
  priorRr : Bytes32
  priorIdt : Bytes32
  priorLc : Nat
  newRr : Bytes32
  newIdt : Bytes32
  newLc : Nat
  runningImt : IndexedMerkleTree Fr
  identityTagImt : IndexedMerkleTree Fr

open RegistryError (badBatch) in
/-- The checks of `publish_batch` after `step_state`, up to the commit. -/
def checkBatch (C : Primitives) (env : Ports) (entry : PetitionEntry) (state : PetitionState)
    (submission : BatchSubmission) : Except RegistryError BatchUpdate := do
  failIf (state ≠ .signingOpen) (.badState state "publish_batch")
  let fieldElements ← mapErr .blob (encodeBlob submission.records)
  let localVh := computeBatchVersionedHash C fieldElements
  let pub := submission.publicInputs
  failIf (localVh ≠ frToBeBytes pub.batchVersionedHash) (.blob (.malformed "batch_versioned_hash mismatch"))
  mapErr .badBatchProof (env.verifyBatchProof submission.proofBytes pub)
  failIf (pub.petitionId ≠ frFromBeBytes entry.record.petitionId.1 ∨
      pub.rRoot ≠ frFromBeBytes entry.record.rRoot.1 ∨
      pub.predicateHash ≠ frFromBeBytes entry.record.predicateHash.1 ∨
      pub.classIndex ≠ Scalar.ofNat entry.record.classIndex.toNat)
    (badBatch "batch public-input petition bindings mismatch")
  failIf (pub.slot ≠ Scalar.ofNat entry.record.slot) (badBatch "batch public-input slot mismatch")
  let batchSize ← frToU64 pub.batchSize
  failIf (batchSize = 0 ∨ batchSize > batchSizeMax) (.batchSizeOutOfRange batchSize)
  failIf (submission.records.length ≠ batchSize) (.batchSizeOutOfRange submission.records.length)
  let priorRr := frToBeBytes pub.priorRunningRoot
  let priorIdt := frToBeBytes pub.priorIdentityTagSetRoot
  let priorLc ← frToU64 pub.priorLeafCount
  failIf (priorRr ≠ entry.record.runningRoot ∨ priorIdt ≠ entry.record.identityTagSetRoot ∨
      priorLc ≠ entry.record.leafCount)
    (.batchPriorMismatch entry.record.runningRoot entry.record.identityTagSetRoot
      entry.record.leafCount priorRr priorIdt priorLc)
  let newLc ← frToU64 pub.newLeafCount
  let expectedNewLc ← okOr (checkedAdd 64 priorLc batchSize) (badBatch "prior_leaf_count + batch_size overflow")
  failIf (newLc ≠ expectedNewLc) (badBatch "new_leaf_count != prior_leaf_count + batch_size")
  let st ← submission.records.zipIdx.foldlM (insertRecord C entry.record.classSet)
    ⟨entry.runningImt, entry.identityTagImt, none, priorRr, priorIdt⟩
  let newRr := frToBeBytes pub.newRunningRoot
  let newIdt := frToBeBytes pub.newIdentityTagSetRoot
  failIf (newRr ≠ st.lastRunningRoot) (badBatch "submitted new_running_root disagrees with registry IMT")
  failIf (newIdt ≠ st.lastIdentityTagRoot)
    (badBatch "submitted new_identity_tag_set_root disagrees with registry IMT")
  pure ⟨localVh, priorRr, priorIdt, priorLc, newRr, newIdt, newLc, st.runningImt, st.identityTagImt⟩

/-- The batch record `publish_batch` appends. -/
def BatchUpdate.batch (u : BatchUpdate) (petitionId : PetitionId) (batchIndex : Nat)
    (relayer : Address) (submittedAtBlock : Nat) : BatchRecord where
  petitionId := petitionId
  batchIndex := batchIndex
  batchVersionedHash := u.localVh
  newRunningRoot := u.newRr
  newIdentityTagSetRoot := u.newIdt
  priorRunningRoot := u.priorRr
  priorIdentityTagSetRoot := u.priorIdt
  priorLeafCount := u.priorLc
  newLeafCount := u.newLc
  relayer := relayer
  submittedAtBlock := submittedAtBlock
  state := .active

def PetitionEntry.withTrees (e : PetitionEntry) (u : BatchUpdate) : PetitionEntry :=
  { e with runningImt := u.runningImt, identityTagImt := u.identityTagImt }

def PetitionEntry.withBatch (e : PetitionEntry) (u : BatchUpdate) (b : BatchRecord) :
    PetitionEntry :=
  { e with
    record := { e.record with
      runningRoot := u.newRr
      identityTagSetRoot := u.newIdt
      leafCount := u.newLc }
    batches := e.batches ++ [b] }

/-- `publish_batch` on the entry of the petition. -/
def publishEntry (C : Primitives) (env : Ports) (petitionId : PetitionId) (relayer : Address)
    (submission : BatchSubmission) : Method PetitionEntry RegistryError BatchPublishedEvent := do
  let state ← stepEntry env
  let entry ← get
  let u ← ofExcept (checkBatch C env entry state submission)
  set (entry.withTrees u)
  -- the trees are already committed when the batch index is converted
  let batchIndex := entry.batches.length
  ofExcept (failIf (2 ^ 32 ≤ batchIndex) (.badBatch "batch index overflow"))
  set ((entry.withTrees u).withBatch u (u.batch petitionId batchIndex relayer env.now))
  return ⟨petitionId, batchIndex, u.localVh, u.newRr, u.newIdt, u.newLc⟩

/-- `publish_batch` of a relayer's submission. -/
def publishBatch (C : Primitives) (env : Ports) (petitionId : PetitionId) (relayer : Address)
    (submission : BatchSubmission) : Method PetitionRegistry RegistryError BatchPublishedEvent :=
  onPetition petitionId (publishEntry C env petitionId relayer submission)

/-! ## `dispute` -/

/-- Store an opening at its offset from `base`; a second opening of an offset is refused. -/
def placeOpening (base : Nat) (byOffset : List (Option KzgOpening)) (o : KzgOpening) :
    Option (List (Option KzgOpening)) :=
  if base ≤ o.fieldElementIndex ∧ o.fieldElementIndex - base < 4 then
    let off := o.fieldElementIndex - base
    if (byOffset.getD off none).isSome then none else some (byOffset.set off (some o))
  else some byOffset

def deriveEvidence (dispute : Dispute) (position : Nat) : Option RecordEntry := do
  let base ← checkedMul 32 position 4
  let last ← checkedAdd 32 base 3
  guard (last < recordsPerBlob * fePerRecord)
  let byOffset ← dispute.openings.foldlM (placeOpening base) (List.replicate 4 none)
  let openings ← byOffset.mapM id
  some (decodeRecord (assembleRecord (openings.map (·.claimedValue))))

/-- The violation predicate of a dispute, with its error paths. -/
def checkViolation (C : Primitives) (classSet : List ClassTag) (dispute : Dispute) :
    Except RegistryError Unit := do
  let evidenceI ← okOr (deriveEvidence dispute dispute.positionI)
    (.badOpening "could not derive evidence_i from openings")
  match dispute.violationType with
  | .classTagOutOfSet => failIf (evidenceI.classTag ∈ classSet) .disputePredicateNotMet
  | .intraBatchDuplicateIdentityTag =>
    let posJ ← okOr dispute.positionJ (.badOpening "missing position_j")
    failIf (posJ = dispute.positionI) .disputePredicateNotMet
    let evidenceJ ← okOr (deriveEvidence dispute posJ) (.badOpening "could not derive evidence_j from openings")
    failIf (evidenceI.identityTag ≠ evidenceJ.identityTag) .disputePredicateNotMet
  | .leafOrderingViolation =>
    let posJ ← okOr dispute.positionJ (.badOpening "missing position_j")
    let expectedJ ← okOr (checkedAdd 32 dispute.positionI 1) (.badOpening "position_i overflow")
    failIf (posJ ≠ expectedJ) .disputePredicateNotMet
    let evidenceJ ← okOr (deriveEvidence dispute posJ) (.badOpening "could not derive evidence_j from openings")
    failIf (!leafOrderingViolated (evidenceI.leaf C) (evidenceJ.leaf C)) .disputePredicateNotMet

structure Trees where
  running : IndexedMerkleTree Fr
  identityTag : IndexedMerkleTree Fr

def Trees.new (C : Primitives) : Trees := ⟨.new C.poseidon, .new C.poseidon⟩

/-- One round of the replay loop of `dispute`. -/
def replayRecord (C : Primitives) (t : Trees) (record : RecordEntry) : Except ImtError Trees := do
  let (_, running) ← t.running.insert C.poseidon (frFromBeBytes (frToBeBytes (record.leaf C)).1)
  let (_, identityTag) ← t.identityTag.insert C.poseidon record.tag
  pure ⟨running, identityTag⟩

def replay (C : Primitives) (records : List RecordEntry) : Except ImtError Trees :=
  records.foldlM (replayRecord C) (.new C)

/-- The roots and count after the last active batch before `repudiatedIdx`. -/
def rollBackToPredecessor (batches : List BatchRecord) (repudiatedIdx : Nat)
    (emptyImtRoot : Bytes32) : Bytes32 × Bytes32 × Nat :=
  match (batches.take repudiatedIdx).reverse.find? (·.state = .active) with
  | some prev => (prev.newRunningRoot, prev.newIdentityTagSetRoot, prev.newLeafCount)
  | none => (emptyImtRoot, emptyImtRoot, 0)

/-- The checks of `dispute` after `step_state`, up to the verification of the openings; the result
is the disputed batch. -/
def checkDispute (env : Ports) (entry : PetitionEntry) (state : PetitionState) (dispute : Dispute) :
    Except RegistryError BatchRecord := do
  failIf (state ≠ .disputeWindow) (.badState state "dispute")
  let disputeClose ← okOr (checkedAdd 64 entry.record.closeAtBlock resolutionDeadlineBlocks)
    (.badState state "dispute")
  failIf (env.now ≥ disputeClose) .disputeWindowClosed
  let batch ← okOr entry.batches[dispute.batchIndex]? (.disputeUnknownBatch dispute.batchIndex)
  failIf (batch.state = .repudiated) (.disputeBatchAlreadyRepudiated dispute.batchIndex)
  dispute.openings.forM fun o => mapErr .badDisputeOpening (env.verify batch.batchVersionedHash o)
  pure batch

/-- The records of the active batches before `batchIdx`, from the blob carrier. -/
def fetchReplay (env : Ports) (batches : List BatchRecord) (batchIdx : Nat) :
    Except RegistryError (List RecordEntry) := do
  let vhs := ((batches.take batchIdx).filter (·.state = .active)).map (·.batchVersionedHash)
  let records ← vhs.mapM fun vh => mapErr .blob (env.fetchRecords vh)
  pure records.flatten

/-- The entry after the rollback of the batches from `batchIdx` on. -/
def PetitionEntry.rolledBack (e : PetitionEntry) (batchIdx : Nat) (rr idt : Bytes32) (lc : Nat)
    (t : Trees) : PetitionEntry where
  record := { e.record with runningRoot := rr, identityTagSetRoot := idt, leafCount := lc }
  batches := e.batches.take batchIdx ++ (e.batches.drop batchIdx).map fun b => { b with state := .repudiated }
  runningImt := t.running
  identityTagImt := t.identityTag

/-- `dispute` on the entry of the petition. -/
def disputeEntry (C : Primitives) (env : Ports) (emptyImtRoot : Bytes32) (dispute : Dispute) :
    Method PetitionEntry RegistryError BatchRepudiatedEvent := do
  let state ← stepEntry env
  let entry ← get
  let _ ← ofExcept (checkDispute env entry state dispute)
  ofExcept (checkViolation C entry.record.classSet dispute)
  let records ← ofExcept (fetchReplay env entry.batches dispute.batchIndex)
  let t ← ofExcept (mapErr .imt (replay C records))
  let (rr, idt, lc) := rollBackToPredecessor entry.batches dispute.batchIndex emptyImtRoot
  set (entry.rolledBack dispute.batchIndex rr idt lc t)
  return ⟨dispute.petitionId, dispute.batchIndex, rr, idt, lc⟩

/-- `dispute` of a published batch. -/
def dispute (C : Primitives) (env : Ports) (d : Dispute) :
    Method PetitionRegistry RegistryError BatchRepudiatedEvent := do
  let reg ← get
  onPetition d.petitionId (disputeEntry C env reg.emptyImtRoot d)

/-! ## `resolve` and `mark_unresolved` -/

/-- The checks of `resolve` after `step_state`. -/
def checkResolution (env : Ports) (entry : PetitionEntry) (state : PetitionState)
    (submission : ResolutionSubmission) : Except RegistryError Unit := do
  failIf (state ≠ .disputeWindow) (.badState state "resolve")
  let deadline ← okOr (checkedAdd 64 entry.record.closeAtBlock resolutionDeadlineBlocks)
    (.badState state "resolve")
  failIf (env.now < deadline) (.badState state "resolve")
  let pub := submission.publicInputs
  mapErr .badResolutionProof (env.verifyResolutionProof submission.proofBytes pub)
  let leafCount ← frToU64 pub.leafCount
  failIf (frToBeBytes pub.predicateHash ≠ entry.record.predicateHash ∨
      frToBeBytes pub.rRoot ≠ entry.record.rRoot ∨
      frToBeBytes pub.runningRoot ≠ entry.record.runningRoot ∨
      leafCount ≠ entry.record.leafCount)
    .resolutionStateMismatch
  failIf (pub.classSet.length ≠ entry.record.classSet.length ∨
      pub.classThresholds.length ≠ entry.record.classThresholds.length ∨
      pub.bPerClass.length ≠ entry.record.classSet.length)
    .resolutionStateMismatch
  entry.record.classSet.zipIdx.forM fun (c, i) => do
    failIf (pub.classSet.getD i 0 ≠ Scalar.ofNat c.toNat) .resolutionStateMismatch
    failIf (pub.classThresholds.getD i 0 ≠ Scalar.ofNat (entry.record.classThresholds.getD i 0))
      .resolutionStateMismatch

def PetitionEntry.withOutcome (e : PetitionEntry) (b : Bool) (bPerClass : List Bool)
    (proof : List UInt8) : PetitionEntry :=
  { e with record := { e.record with
    b := b, bPerClass := bPerClass, state := .resolved, resolutionProof := proof } }

/-- `resolve` on the entry of the petition. -/
def resolveEntry (env : Ports) (petitionId : PetitionId) (resolver : Address)
    (submission : ResolutionSubmission) :
    Method PetitionEntry RegistryError (PetitionResolvedEvent × BountyEvent) := do
  let state ← stepEntry env
  let entry ← get
  ofExcept (checkResolution env entry state submission)
  let b := decide (submission.publicInputs.b ≠ 0)
  let bPerClass := submission.publicInputs.bPerClass.map fun x => decide (x ≠ 0)
  set (entry.withOutcome b bPerClass submission.proofBytes)
  let bountyAmount ← ofExcept (u256ToU128 entry.record.bounty)
  return (⟨petitionId, b, bPerClass⟩, ⟨petitionId, resolver, bountyAmount⟩)

def resolve (env : Ports) (petitionId : PetitionId) (resolver : Address) (submission : ResolutionSubmission) :
    Method PetitionRegistry RegistryError (PetitionResolvedEvent × BountyEvent) :=
  onPetition petitionId (resolveEntry env petitionId resolver submission)

/-- Tombstone written into `running_root` when the petition becomes `Unresolved`. -/
def tombstoneMarker : Bytes32 := .ofNat 32 1

def PetitionEntry.tombstoned (e : PetitionEntry) : PetitionEntry :=
  { e with record := { e.record with runningRoot := tombstoneMarker, state := .unresolved } }

/-- The checks of `mark_unresolved` after `step_state`; the result is the bounty. -/
def checkUnresolved (env : Ports) (entry : PetitionEntry) (state : PetitionState) :
    Except RegistryError Nat := do
  let deadline ← okOr ((checkedAdd 64 entry.record.closeAtBlock resolutionDeadlineBlocks).bind
    (checkedAdd 64 · markUnresolvedGraceBlocks)) (.badState state "mark_unresolved")
  failIf (env.now < deadline) (.badState state "mark_unresolved")
  failIf (state ≠ .disputeWindow) (.badState state "mark_unresolved")
  u256ToU128 entry.record.bounty

def cappedRebate (bountyTotal gasRebate : Nat) : Nat :=
  let rebateCap := bountyTotal / 100
  min gasRebate rebateCap

/-- `mark_unresolved` on the entry of the petition. -/
def markUnresolvedEntry (env : Ports) (petitionId : PetitionId) (caller : Address) (gasRebate : Nat) :
    Method PetitionEntry RegistryError (PetitionUnresolvedEvent × BountyEvent × BountyEvent) := do
  let state ← stepEntry env
  let entry ← get
  let bountyTotal ← ofExcept (checkUnresolved env entry state)
  let rebate := cappedRebate bountyTotal gasRebate
  set entry.tombstoned
  return (⟨petitionId⟩, ⟨petitionId, entry.record.organizer, bountyTotal - rebate⟩,
    ⟨petitionId, caller, rebate⟩)

def markUnresolved (env : Ports) (petitionId : PetitionId) (caller : Address) (gasRebate : Nat) :
    Method PetitionRegistry RegistryError (PetitionUnresolvedEvent × BountyEvent × BountyEvent) :=
  onPetition petitionId (markUnresolvedEntry env petitionId caller gasRebate)

/-! ## `update_alpha` -/

def updateAlpha (newAlpha : Nat) : Method PetitionRegistry RegistryError AlphaUpdatedEvent := do
  let reg ← get
  ofExcept (failIf (¬ (reg.global.alphaMin ≤ newAlpha ∧ newAlpha ≤ reg.global.alphaMax))
    (.alphaOutOfBounds newAlpha reg.global.alphaMin reg.global.alphaMax))
  set { reg with global := { reg.global with alpha := newAlpha } }
  return ⟨reg.global.alpha, newAlpha⟩

end Pocs.Civic
