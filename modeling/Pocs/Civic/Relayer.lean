import Mathlib
import Pocs.Civic.MockProof

/-! # The relayer

`relayer/core.rs`: submissions are checked against a petition, sorted by their leaves, inserted into
the relayer's replicas of the two trees and handed to the batch prover. A batch that was built meets
the constraints of the circuit exactly when each submission carries the coordinates of the petition
and canonical nullifier and tag bytes (`buildBatch_circuit_iff`). -/

namespace Pocs.Civic

open IndexedMerkleTree
open MockProofBackend

/-- What the relayer knows of a petition. -/
structure PetitionView where
  petitionId : PetitionId
  rRoot : Bytes32
  predicateHash : Bytes32
  classIndex : UInt8
  classSet : List ClassTag
  slot : Nat
  runningRoot : Bytes32
  identityTagSetRoot : Bytes32
  leafCount : Nat
  signerVkHash : Bytes32

/-- A submission with the insertions of its two values. -/
structure BatchPosition where
  submission : SignerSubmission
  leafInsert : ImtInsertWitness Fr
  identityTagInsert : ImtInsertWitness Fr

inductive RelayerError where
  | emptyBatch
  | batchSizeExceeded (size max : Nat)
  | duplicateNullifier (j i : Nat)
  | duplicateIdentityTag (j i : Nat)
  | signerProofInvalid (i : Nat) (e : ProofError)
  | classTagOutOfSet (classTag : ClassTag) (i : Nat)
  | petitionIdMismatch (i : Nat)
  | stateDiverged
  | leafCountOverflow
  | blob (e : BlobError)
  | imt (e : ImtError)
  | proof (e : ProofError)
  deriving DecidableEq

/-- Per-petition replicas of the two trees. -/
structure RelayerPetitionState where
  runningImt : IndexedMerkleTree Fr
  identityTagImt : IndexedMerkleTree Fr
  leafCount : Nat

def RelayerPetitionState.new (C : Primitives) : RelayerPetitionState :=
  ⟨.new C.poseidon, .new C.poseidon, 0⟩

/-- A relayer with a blob carrier of type `β`. -/
structure Relayer (β : Type) where
  address : Address
  proofBackend : ProofBackend
  blobCarrier : β

namespace Relayer
variable {β : Type} (C : Primitives) (publish : β → List RecordEntry → Except BlobError (Bytes32 × β))

/-- The signer public inputs `verify_submission` reads off a submission. -/
def signerPublic (s : SignerSubmission) : SignerPublicInputs where
  rRoot := frFromBeBytes s.rRoot.1
  petitionId := frFromBeBytes s.petitionId.1
  predicateHash := frFromBeBytes s.predicateHash.1
  classIndex := Scalar.ofNat s.classIndex.toNat
  classTag := Scalar.ofNat s.classTag.toNat
  slot := Scalar.ofNat s.slot
  nullifier := frFromBeBytes s.nullifier.1
  identityTag := frFromBeBytes s.identityTag.1

/-- A checked submission with its public inputs and its leaf. -/
structure Verified where
  submission : SignerSubmission
  pi : SignerPublicInputs
  leaf : Fr

/-- Verify a signer submission against `petition`. -/
def verifySubmission (backend : ProofBackend) (petition : PetitionView) (entry : SignerSubmission × Nat) :
    Except RelayerError Verified := do
  let (s, idx) := entry
  failIf (s.petitionId ≠ petition.petitionId) (.petitionIdMismatch idx)
  failIf (s.classTag ∉ petition.classSet) (.classTagOutOfSet s.classTag idx)
  let pi := signerPublic s
  mapErr (.signerProofInvalid idx) (backend.verifySignerProof s.proofBytes pi)
  pure ⟨s, pi, hashLeaf C.poseidon pi.nullifier pi.classTag⟩

/-- The maps `seen_nullifiers` and `seen_ids`. -/
structure Seen where
  nullifiers : Bytes32 → Option Nat
  ids : Bytes32 → Option Nat

def markSeen (seen : Seen) (entry : Verified × Nat) : Except RelayerError Seen := do
  let (v, i) := entry
  match seen.nullifiers v.submission.nullifier with
  | some j => throw (.duplicateNullifier j i)
  | none =>
    match seen.ids v.submission.identityTag with
    | some j => throw (.duplicateIdentityTag j i)
    | none => pure ⟨Function.update seen.nullifiers v.submission.nullifier (some i),
        Function.update seen.ids v.submission.identityTag (some i)⟩

def Verified.KeyLe (a b : Verified) : Prop := ¬ frToBeBytes b.leaf < frToBeBytes a.leaf

instance : DecidableRel Verified.KeyLe := fun _ _ => inferInstanceAs (Decidable (¬ _))

/-- `sort_by_cached_key`; it is stable. -/
def sortByLeaf (verified : List Verified) : List Verified := verified.insertionSort Verified.KeyLe

def recordOf (s : SignerSubmission) : RecordEntry := ⟨s.nullifier, s.identityTag, s.classTag⟩

open Method in
def insertOne (v : Verified) : Method RelayerPetitionState RelayerError BatchPosition := do
  let st ← get
  let leafBe := frToBeBytes v.leaf
  let (leafInsert, runningImt) ← ofExcept (mapErr .imt
    (st.runningImt.insert C.poseidon (frFromBeBytes leafBe.1)))
  set { st with runningImt := runningImt }
  let st ← get
  let (identityTagInsert, identityTagImt) ← ofExcept (mapErr .imt
    (st.identityTagImt.insert C.poseidon (frFromBeBytes v.submission.identityTag.1)))
  set { st with identityTagImt := identityTagImt }
  return ⟨v.submission, leafInsert, identityTagInsert⟩

def insertVerified : List Verified → Method RelayerPetitionState RelayerError (List BatchPosition)
  | [] => pure []
  | v :: vs => do
    let position ← insertOne C v
    let positions ← insertVerified vs
    pure (position :: positions)

def verifyAll (backend : ProofBackend) (petition : PetitionView) (st : RelayerPetitionState)
    (submissions : List SignerSubmission) : Except RelayerError (List Verified) := do
  failIf (submissions = []) .emptyBatch
  failIf (submissions.length > batchSizeMax) (.batchSizeExceeded submissions.length batchSizeMax)
  failIf (frToBeBytes st.runningImt.root ≠ petition.runningRoot ∨
    frToBeBytes st.identityTagImt.root ≠ petition.identityTagSetRoot) .stateDiverged
  let verified ← submissions.zipIdx.mapM (verifySubmission C backend petition)
  let _ ← verified.zipIdx.foldlM markSeen ⟨fun _ => none, fun _ => none⟩
  pure (sortByLeaf verified)

/-- The field elements of the records, filled up to a full batch. -/
def blsFieldsOf (records : List RecordEntry) : List Fr :=
  let fePerBatch := batchSizeMax * fePerRecord
  let fields := records.flatMap recordToBlsFields
  fields.take fePerBatch ++ List.replicate (fePerBatch - fields.length) 0

def batchPublic (petition : PetitionView) (before after : RelayerPetitionState)
    (records : List RecordEntry) (batchVersionedHash : Bytes32) : BatchPublicInputs where
  petitionId := frFromBeBytes petition.petitionId.1
  rRoot := frFromBeBytes petition.rRoot.1
  predicateHash := frFromBeBytes petition.predicateHash.1
  classIndex := Scalar.ofNat petition.classIndex.toNat
  slot := Scalar.ofNat petition.slot
  batchSize := Scalar.ofNat records.length
  priorRunningRoot := frFromBeBytes (frToBeBytes before.runningImt.root).1
  newRunningRoot := frFromBeBytes (frToBeBytes after.runningImt.root).1
  priorIdentityTagSetRoot := frFromBeBytes (frToBeBytes before.identityTagImt.root).1
  newIdentityTagSetRoot := frFromBeBytes (frToBeBytes after.identityTagImt.root).1
  priorLeafCount := Scalar.ofNat before.leafCount
  newLeafCount := Scalar.ofNat after.leafCount
  batchVersionedHash := frFromBeBytes batchVersionedHash.1
  blsFields := blsFieldsOf records
  signerVkHash := frFromBeBytes petition.signerVkHash.1

/-- The witnesses handed to the prover. -/
def positionWitnesses (verified : List Verified) (positions : List BatchPosition) : List BatchPositionWitness :=
  verified.zipWith (fun v bp => ⟨v.submission, v.pi, some bp.leafInsert, some bp.identityTagInsert⟩) positions

open Method in
/-- Build a `BatchSubmission` and `BatchPosition`s; advances the replicas, also where it fails after
the checks. -/
def buildBatch (petition : PetitionView) (submissions : List SignerSubmission) :
    Method (Relayer β × RelayerPetitionState) RelayerError (BatchSubmission × List BatchPosition) := do
  let (relayer, before) ← get
  let verified ← ofExcept (verifyAll C relayer.proofBackend petition before submissions)
  let positions ← onSnd (insertVerified C verified)
  let records := positions.map fun p => recordOf p.submission
  let (relayer, inserted) ← get
  let leafCount ← ofExcept (okOr (checkedAdd 64 before.leafCount positions.length) .leafCountOverflow)
  let after := { inserted with leafCount := leafCount }
  set (relayer, after)
  let (batchVersionedHash, blobCarrier) ← ofExcept (mapErr .blob (publish relayer.blobCarrier records))
  set ({ relayer with blobCarrier := blobCarrier }, after)
  let pi := batchPublic petition before after records batchVersionedHash
  let proofBytes ← ofExcept (mapErr .proof
    (relayer.proofBackend.generateBatchProof pi (positionWitnesses verified positions)))
  return (⟨pi, records, proofBytes⟩, positions)

section
variable {C publish} {backend : ProofBackend} {petition : PetitionView}
  {st st' : RelayerPetitionState} {submissions : List SignerSubmission} {vs : List Verified}
  {positions : List BatchPosition}

/-! ## What a built batch is -/

def verifiedOf (C : Primitives) (s : SignerSubmission) : Verified where
  submission := s
  pi := signerPublic s
  leaf := hashLeaf C.poseidon (frFromBeBytes s.nullifier.1) (Scalar.ofNat s.classTag.toNat)

theorem Verified.keyLe_iff {a b : Verified} : a.KeyLe b ↔ a.leaf ≤ b.leaf := by
  rw [KeyLe, frToBeBytes_lt, not_lt]

instance : Std.Total Verified.KeyLe :=
  ⟨fun a b => by simpa only [Verified.keyLe_iff] using le_total a.leaf b.leaf⟩

instance : IsTrans Verified Verified.KeyLe :=
  ⟨fun a b c => by simpa only [Verified.keyLe_iff] using le_trans⟩

theorem verifySubmission_eq_ok {s : SignerSubmission} {idx : Nat} {v : Verified}
    (h : verifySubmission C backend petition (s, idx) = .ok v) :
    v = verifiedOf C s ∧ s.petitionId = petition.petitionId ∧ s.classTag ∈ petition.classSet := by
  simp only [verifySubmission, bind_eq_ok, failIf_eq_ok, not_not, mapErr_eq_ok, pure_eq_ok] at h
  obtain ⟨_, hpid, _, hclass, _, -, rfl⟩ := h
  exact ⟨rfl, hpid, hclass⟩

theorem verifySubmissions_eq_ok {k : Nat} {verified : List Verified}
    (h : List.Forall₂ (fun entry v => verifySubmission C backend petition entry = .ok v)
      (submissions.zipIdx k) verified) : verified = submissions.map (verifiedOf C) ∧ ∀ s ∈ submissions,
      s.petitionId = petition.petitionId ∧ s.classTag ∈ petition.classSet := by
  induction submissions generalizing k verified with
  | nil =>
    cases h
    exact ⟨rfl, by simp⟩
  | cons s submissions ih =>
    rw [List.zipIdx_cons] at h
    cases h with
    | cons hv hvs =>
      obtain ⟨rfl, hs⟩ := verifySubmission_eq_ok hv
      obtain ⟨rfl, hall⟩ := ih hvs
      exact ⟨rfl, List.forall_mem_cons.mpr ⟨hs, hall⟩⟩

structure Checked (C : Primitives) (petition : PetitionView) (st : RelayerPetitionState)
    (submissions : List SignerSubmission) (vs : List Verified) : Prop where
  pos : submissions ≠ []
  size : submissions.length ≤ batchSizeMax
  runningRoot : frToBeBytes st.runningImt.root = petition.runningRoot
  identityTagSetRoot : frToBeBytes st.identityTagImt.root = petition.identityTagSetRoot
  petitionId : ∀ s ∈ submissions, s.petitionId = petition.petitionId
  classTag : ∀ s ∈ submissions, s.classTag ∈ petition.classSet
  perm : vs.Perm (submissions.map (verifiedOf C))
  sorted : vs.Pairwise fun a b => a.leaf ≤ b.leaf

theorem verifyAll_ok (h : verifyAll C backend petition st submissions = .ok vs) :
    Checked C petition st submissions vs := by
  simp only [verifyAll, bind_eq_ok, failIf_eq_ok, not_lt, not_or, not_not, mapM_eq_ok, pure_eq_ok] at h
  obtain ⟨_, hpos, _, hsize, _, ⟨hrr, hidt⟩, verified, hverified, _, -, rfl⟩ := h
  obtain ⟨hmap, hchecks⟩ := verifySubmissions_eq_ok hverified
  refine ⟨hpos, hsize, hrr, hidt, fun s hs => (hchecks s hs).1, fun s hs => (hchecks s hs).2, ?_, ?_⟩
  · rw [hmap]
    exact List.perm_insertionSort _ _
  · have hsorted := List.pairwise_insertionSort Verified.KeyLe verified
    exact hsorted.imp Verified.keyLe_iff.mp

inductive Inserted (C : Primitives) : RelayerPetitionState → List Verified → List BatchPosition →
    RelayerPetitionState → Prop where
  | nil {s : RelayerPetitionState} : Inserted C s [] [] s
  | cons {s s' : RelayerPetitionState} {v : Verified} {vs : List Verified} {ps : List BatchPosition}
    {wr wt : ImtInsertWitness Fr} {T U : IndexedMerkleTree Fr}
    (running : s.runningImt.insert C.poseidon v.leaf = .ok (wr, T))
    (idtag : s.identityTagImt.insert C.poseidon (frFromBeBytes v.submission.identityTag.1) = .ok (wt, U))
    (rest : Inserted C { s with runningImt := T, identityTagImt := U } vs ps s') :
    Inserted C s (v :: vs) (⟨v.submission, wr, wt⟩ :: ps) s'

theorem insertOne_eq_ok {v : Verified} {p : BatchPosition} : insertOne C v st = some (.ok p, st') ↔ ∃ wr T wt U,
      st.runningImt.insert C.poseidon v.leaf = .ok (wr, T) ∧
      st.identityTagImt.insert C.poseidon (frFromBeBytes v.submission.identityTag.1) = .ok (wt, U) ∧
      p = ⟨v.submission, wr, wt⟩ ∧ st' = { st with runningImt := T, identityTagImt := U } := by
  simp only [insertOne, Method.get_bind, Method.ofExcept_bind_eq_ok, mapErr_eq_ok,
    frFromBeBytes_frToBeBytes, Method.set_bind, Method.pure_apply, Option.some.injEq, Prod.mk.injEq,
    Except.ok.injEq, Prod.exists]
  constructor
  · rintro ⟨wr, T, hr, wt, U, ht, rfl, rfl⟩
    exact ⟨wr, T, wt, U, hr, ht, rfl, rfl⟩
  · rintro ⟨wr, T, wt, U, hr, ht, rfl, rfl⟩
    exact ⟨wr, T, hr, wt, U, ht, rfl, rfl⟩

theorem insertVerified_eq_ok :
    insertVerified C vs st = some (.ok positions, st') ↔ Inserted C st vs positions st' := by
  induction vs generalizing st positions st' with
  | nil =>
    simp only [insertVerified, Method.pure_apply, Option.some.injEq, Prod.mk.injEq, Except.ok.injEq]
    constructor
    · rintro ⟨rfl, rfl⟩
      exact .nil
    · intro h
      cases h
      exact ⟨rfl, rfl⟩
  | cons v vs ih =>
    simp only [insertVerified, Method.bind_eq_ok, insertOne_eq_ok, ih, Method.pure_apply,
      Option.some.injEq, Prod.mk.injEq, Except.ok.injEq]
    constructor
    · rintro ⟨_, _, ⟨wr, T, wt, U, hr, ht, rfl, rfl⟩, ps, _, hrest, rfl, rfl⟩
      exact .cons hr ht hrest
    · intro h
      cases h with
      | cons hr ht hrest => exact ⟨_, _, ⟨_, _, _, _, hr, ht, rfl, rfl⟩, _, _, hrest, rfl, rfl⟩

def witnessOf (p : BatchPosition) : BatchPositionWitness :=
  ⟨p.submission, signerPublic p.submission, some p.leafInsert, some p.identityTagInsert⟩

theorem Inserted.map_submission (h : Inserted C st vs positions st') :
    positions.map (·.submission) = vs.map (·.submission) := by
  induction h with
  | nil => rfl
  | cons _ _ _ ih => rw [List.map_cons, List.map_cons, ih]

theorem Inserted.leafCount (h : Inserted C st vs positions st') : st'.leafCount = st.leafCount := by
  induction h with
  | nil => rfl
  | cons _ _ _ ih => exact ih

theorem Inserted.witnesses (h : Inserted C st vs positions st')
    (hvs : ∀ v ∈ vs, v.pi = signerPublic v.submission) :
    positionWitnesses vs positions = positions.map witnessOf := by
  induction h with
  | nil => rfl
  | cons _ _ _ ih =>
    obtain ⟨hv, hvs⟩ := List.forall_mem_cons.mp hvs
    rw [positionWitnesses, List.zipWith_cons_cons, hv, List.map_cons, ← ih hvs]
    rfl

/-- Everything a successful `build_batch` did. -/
structure Built (C : Primitives) (publish : β → List RecordEntry → Except BlobError (Bytes32 × β))
    (petition : PetitionView) (submissions : List SignerSubmission) (relayer relayer' : Relayer β)
    (st st' : RelayerPetitionState) (batch : BatchSubmission) (positions : List BatchPosition)
    (vs : List Verified) (vh : Bytes32) : Prop where
  checked : Checked C petition st submissions vs
  inserted : Inserted C st vs positions { st' with leafCount := st.leafCount }
  leafCount : st'.leafCount = st.leafCount + positions.length
  leafCount_lt : st'.leafCount < 2 ^ 64
  records : batch.records = positions.map fun p => recordOf p.submission
  published : publish relayer.blobCarrier batch.records = .ok (vh, relayer'.blobCarrier)
  publicInputs : batch.publicInputs = batchPublic petition st st' batch.records vh
  proved : relayer.proofBackend.generateBatchProof batch.publicInputs (positions.map witnessOf) =
    .ok batch.proofBytes

theorem buildBatch_ok {relayer relayer' : Relayer β} {batch : BatchSubmission}
    (h : buildBatch C publish petition submissions (relayer, st) =
      some (.ok (batch, positions), (relayer', st'))) :
    ∃ vs vh, Built C publish petition submissions relayer relayer' st st' batch positions vs vh := by
  simp only [buildBatch, Method.get_bind, Method.bind_eq_ok, Method.ofExcept_eq_some, Prod.exists,
    Method.onSnd_eq_some, insertVerified_eq_ok, okOr_eq_ok, checkedAdd_eq_some, mapErr_eq_ok,
    Method.set_bind, Method.pure_apply, Option.some.injEq, Prod.mk.injEq, Except.ok.injEq] at h
  obtain ⟨vs, _, _, ⟨hvs, rfl, rfl⟩, ps, _, mid, ⟨hins, rfl⟩, lc, _, _, ⟨⟨hlt, rfl⟩, rfl, rfl⟩, vh,
    carrier, _, _, ⟨hpub, rfl, rfl⟩, proof, _, _, ⟨hproof, rfl, rfl⟩, ⟨rfl, rfl⟩, rfl, rfl⟩ := h
  have hchecked := verifyAll_ok hvs
  have hpi : ∀ v ∈ vs, v.pi = signerPublic v.submission := by
    intro v hv
    obtain ⟨s, -, rfl⟩ := List.mem_map.mp (hchecked.perm.subset hv)
    rfl
  rw [hins.witnesses hpi] at hproof
  refine ⟨vs, vh, hchecked, ?_, rfl, hlt, rfl, hpub, rfl, hproof⟩
  rw [← hins.leafCount]
  exact hins

/-! ## Batches that are built -/

theorem exists_verifySubmissions
    (h : ∀ s ∈ submissions, s.petitionId = petition.petitionId ∧ s.classTag ∈ petition.classSet ∧
      backend.verifySignerProof s.proofBytes (signerPublic s) = .ok ()) (k : Nat) :
    (submissions.zipIdx k).mapM (verifySubmission C backend petition) =
      .ok (submissions.map (verifiedOf C)) := by
  induction submissions generalizing k with
  | nil => rfl
  | cons s submissions ih =>
    obtain ⟨⟨hpid, hclass, hverify⟩, h⟩ := List.forall_mem_cons.mp h
    have hs : verifySubmission C backend petition (s, k) = .ok (verifiedOf C s) := by
      simp only [verifySubmission]
      rw [failIf_neg (not_not.mpr hpid), ok_bind, failIf_neg (not_not.mpr hclass), ok_bind, hverify]
      rfl
    rw [List.zipIdx_cons, List.mapM_cons, hs, ok_bind, ih h]
    rfl

/-- The search passes over submissions with distinct nullifiers and tags that were not seen. -/
theorem exists_markSeen (hn : (vs.map (·.submission.nullifier)).Nodup)
    (hid : (vs.map (·.submission.identityTag)).Nodup) (k : Nat) {seen : Seen}
    (hseen : ∀ v ∈ vs, seen.nullifiers v.submission.nullifier = none ∧
      seen.ids v.submission.identityTag = none) : ∃ seen', (vs.zipIdx k).foldlM markSeen seen = .ok seen' := by
  induction vs generalizing k seen with
  | nil => exact ⟨seen, rfl⟩
  | cons v vs ih =>
    rw [List.map_cons, List.nodup_cons] at hn hid
    obtain ⟨hnv, hn⟩ := hn
    obtain ⟨hidv, hid⟩ := hid
    obtain ⟨⟨hseenN, hseenId⟩, hseen⟩ := List.forall_mem_cons.mp hseen
    rw [List.zipIdx_cons, List.foldlM_cons]
    simp only [markSeen, hseenN, hseenId]
    apply ih hn hid
    intro u hu
    obtain ⟨huN, huId⟩ := hseen u hu
    have hneN : u.submission.nullifier ≠ v.submission.nullifier := fun he =>
      hnv (List.mem_map.mpr ⟨u, hu, he⟩)
    have hneId : u.submission.identityTag ≠ v.submission.identityTag := fun he =>
      hidv (List.mem_map.mpr ⟨u, hu, he⟩)
    exact ⟨(Function.update_of_ne hneN _ _).trans huN, (Function.update_of_ne hneId _ _).trans huId⟩

/-- The submissions pass the checks against the petition. -/
structure Accepts (backend : ProofBackend) (petition : PetitionView) (submissions : List SignerSubmission) :
    Prop where
  pos : submissions ≠ []
  size : submissions.length ≤ batchSizeMax
  verified : ∀ s ∈ submissions, s.petitionId = petition.petitionId ∧ s.classTag ∈ petition.classSet ∧
    backend.verifySignerProof s.proofBytes (signerPublic s) = .ok ()
  nullifiers : (submissions.map (·.nullifier)).Nodup
  identityTags : (submissions.map (·.identityTag)).Nodup

/-- The replicas have the roots of the view. -/
structure Synced (C : Primitives) (petition : PetitionView) (st : RelayerPetitionState) : Prop where
  inv : st.runningImt.Inv C.poseidon
  runningRoot : frToBeBytes st.runningImt.root = petition.runningRoot
  identityTagSetRoot : frToBeBytes st.identityTagImt.root = petition.identityTagSetRoot

theorem verifyAll_of_accepts (hsync : Synced C petition st) (h : Accepts backend petition submissions) :
    verifyAll C backend petition st submissions = .ok (sortByLeaf (submissions.map (verifiedOf C))) := by
  obtain ⟨seen, hseen⟩ := @exists_markSeen (submissions.map (verifiedOf C))
    (by rw [List.map_map]; exact h.nullifiers) (by rw [List.map_map]; exact h.identityTags) 0
    ⟨fun _ => none, fun _ => none⟩ (fun _ _ => ⟨rfl, rfl⟩)
  have hall := exists_verifySubmissions (C := C) h.verified 0
  have hroots : ¬ (frToBeBytes st.runningImt.root ≠ petition.runningRoot ∨
      frToBeBytes st.identityTagImt.root ≠ petition.identityTagSetRoot) := by
    rw [hsync.runningRoot, hsync.identityTagSetRoot]
    simp
  simp only [verifyAll]
  rw [failIf_neg h.pos, ok_bind, failIf_neg (not_lt.mpr h.size), ok_bind, failIf_neg hroots, ok_bind, hall,
    ok_bind, hseen, ok_bind]
  rfl

theorem exists_inserted (hr : ∃ T, st.runningImt.insertAll C.poseidon (vs.map (·.leaf)) = .ok T)
    (ht : ∃ U, st.identityTagImt.insertAll C.poseidon
      (vs.map fun v => frFromBeBytes v.submission.identityTag.1) = .ok U) :
    ∃ positions st', Inserted C st vs positions st' := by
  induction vs generalizing st with
  | nil => exact ⟨[], st, .nil⟩
  | cons v vs ih =>
    obtain ⟨T, hT⟩ := hr
    obtain ⟨U, hU⟩ := ht
    obtain ⟨wr, T₁, hr₁, hT⟩ := insertAll_cons_eq_ok.mp hT
    obtain ⟨wt, U₁, ht₁, hU⟩ := insertAll_cons_eq_ok.mp hU
    obtain ⟨positions, st', hrest⟩ :=
      @ih { st with runningImt := T₁, identityTagImt := U₁ } ⟨T, hT⟩ ⟨U, hU⟩
    exact ⟨_, st', .cons hr₁ ht₁ hrest⟩

structure Buildable (C : Primitives) (petition : PetitionView) (submissions : List SignerSubmission) :
    Prop where
  pos : submissions ≠ []
  size : submissions.length ≤ batchSizeMax
  petitionId : ∀ s ∈ submissions, s.petitionId = petition.petitionId
  classTag : ∀ s ∈ submissions, s.classTag ∈ petition.classSet
  nullifiers : (submissions.map (·.nullifier)).Nodup
  identityTags : (submissions.map (·.identityTag)).Nodup
  leaves : (submissions.map fun s => (verifiedOf C s).leaf).Nodup
  tags : (submissions.map fun s => (frFromBeBytes s.identityTag.1 : Fr)).Nodup
  leaf_ne_zero : ∀ s ∈ submissions, (verifiedOf C s).leaf ≠ 0
  tag_ne_zero : ∀ s ∈ submissions, (frFromBeBytes s.identityTag.1 : Fr) ≠ 0

theorem exists_insertAll_new {vs : List Fr} (hlen : vs.length ≤ batchSizeMax) (hnd : vs.Nodup)
    (h0 : ∀ v ∈ vs, v ≠ 0) : ∃ t, (IndexedMerkleTree.new C.poseidon).insertAll C.poseidon vs = .ok t := by
  apply (exists_insertAll_iff new_inv).mpr
  rw [new_leaves]
  refine ⟨?_, hnd, fun v hv hmem => h0 v hv (List.mem_singleton.mp hmem)⟩
  simp only [List.length_singleton, imtDepth, batchSizeMax] at *
  omega

/-- A backend and a carrier that refuse none of them build a batch from buildable submissions. -/
theorem exists_buildBatch {relayer : Relayer β}
    (hrr : petition.runningRoot = frToBeBytes (IndexedMerkleTree.new C.poseidon).root)
    (hidt : petition.identityTagSetRoot = frToBeBytes (IndexedMerkleTree.new C.poseidon).root)
    (hverify : ∀ s ∈ submissions, relayer.proofBackend.verifySignerProof s.proofBytes (signerPublic s) = .ok ())
    (hprove : ∀ pi (ps : List BatchPosition), ps ≠ [] → (∀ p ∈ ps, p.submission ∈ submissions) →
      ∃ bs, relayer.proofBackend.generateBatchProof pi (ps.map witnessOf) = .ok bs)
    (hpublish : ∀ c records, records.length ≤ batchSizeMax → ∃ r, publish c records = .ok r)
    (H : Buildable C petition submissions) : ∃ batch positions relayer' st',
      buildBatch C publish petition submissions (relayer, .new C) =
        some (.ok (batch, positions), (relayer', st')) := by
  have hsync : Synced C petition (.new C) := ⟨new_inv, hrr.symm, hidt.symm⟩
  have hvs : verifyAll C relayer.proofBackend petition (.new C) submissions =
      .ok (sortByLeaf (submissions.map (verifiedOf C))) :=
    verifyAll_of_accepts hsync
      { pos := H.pos
        size := H.size
        verified := fun s hs => ⟨H.petitionId s hs, H.classTag s hs, hverify s hs⟩
        nullifiers := H.nullifiers
        identityTags := H.identityTags }
  have hperm : (sortByLeaf (submissions.map (verifiedOf C))).Perm (submissions.map (verifiedOf C)) :=
    List.perm_insertionSort _ _
  have hleaves := (hperm.map (·.leaf)).trans (List.Perm.of_eq (List.map_map))
  have htags := (hperm.map fun v => (frFromBeBytes v.submission.identityTag.1 : Fr)).trans
    (List.Perm.of_eq (List.map_map))
  obtain ⟨positions, inserted, hins⟩ := @exists_inserted C (.new C) _
    (exists_insertAll_new (by rw [hleaves.length_eq, List.length_map]; exact H.size)
      (hleaves.nodup_iff.mpr H.leaves) fun v hv => by
        obtain ⟨s, hs, rfl⟩ := List.mem_map.mp (hleaves.subset hv)
        exact H.leaf_ne_zero s hs)
    (exists_insertAll_new (by rw [htags.length_eq, List.length_map]; exact H.size)
      (htags.nodup_iff.mpr H.tags) fun v hv => by
        obtain ⟨s, hs, rfl⟩ := List.mem_map.mp (htags.subset hv)
        exact H.tag_ne_zero s hs)
  have hsub : (positions.map (·.submission)).Perm submissions := by
    rw [hins.map_submission]
    have hmap := hperm.map (·.submission)
    rwa [List.map_map, show ((·.submission) ∘ verifiedOf C) = id from rfl, List.map_id] at hmap
  have hlen : positions.length = submissions.length := by
    rw [← hsub.length_eq, List.length_map]
  obtain ⟨⟨vh, carrier⟩, hpub⟩ := hpublish relayer.blobCarrier
    (positions.map fun p => recordOf p.submission) (by rw [List.length_map, hlen]; exact H.size)
  have hadd : checkedAdd 64 (RelayerPetitionState.new C).leafCount positions.length =
      some positions.length := by
    have hsize := H.size
    rw [checkedAdd_eq_some, hlen]
    simp only [RelayerPetitionState.new, batchSizeMax] at *
    omega
  set after : RelayerPetitionState := { inserted with leafCount := positions.length }
  obtain ⟨proof, hproof⟩ := hprove
    (batchPublic petition (.new C) after (positions.map fun p => recordOf p.submission) vh) positions
    (by
      rw [← List.length_pos_iff, hlen, List.length_pos_iff]
      exact H.pos)
    (fun p hp => hsub.subset (List.mem_map_of_mem hp))
  rw [← hins.witnesses fun v hv => by
    obtain ⟨s, -, rfl⟩ := List.mem_map.mp (hperm.subset hv)
    rfl] at hproof
  refine ⟨⟨batchPublic petition (.new C) after (positions.map fun p => recordOf p.submission) vh,
    positions.map fun p => recordOf p.submission, proof⟩, positions,
    { relayer with blobCarrier := carrier }, after, ?_⟩
  simp only [buildBatch, Method.get_bind, Method.bind_eq_ok, Method.ofExcept_eq_some, Prod.exists,
    Method.onSnd_eq_some, insertVerified_eq_ok, okOr_eq_ok, mapErr_eq_ok,
    Method.set_bind, Method.pure_apply, Option.some.injEq, Prod.mk.injEq, Except.ok.injEq]
  exact ⟨_, _, _, ⟨hvs, rfl, rfl⟩, positions, _, inserted, ⟨hins, rfl⟩, _, _, _, ⟨hadd, rfl, rfl⟩,
    vh, carrier, _, _, ⟨hpub, rfl, rfl⟩, proof, _, _, ⟨hproof, rfl, rfl⟩, ⟨rfl, rfl⟩, rfl, rfl⟩

/-- The same for the sentinel backend and the in-memory carrier. -/
theorem exists_buildBatch_mock {relayer : Relayer InMemoryBlobCarrier}
    (hbackend : relayer.proofBackend = MockProofBackend.backend C)
    (hrr : petition.runningRoot = frToBeBytes (IndexedMerkleTree.new C.poseidon).root)
    (hidt : petition.identityTagSetRoot = frToBeBytes (IndexedMerkleTree.new C.poseidon).root)
    (hproofs : ∀ s ∈ submissions, MockProofBackend.StartsWith s.proofBytes
      (signerDigest C (signerPublic s))) (H : Buildable C petition submissions) :
    ∃ batch positions relayer' st', buildBatch C (fun c => c.publish C) petition submissions (relayer, .new C) =
        some (.ok (batch, positions), (relayer', st')) := by
  apply exists_buildBatch hrr hidt _ _ _ H
  · intro s hs
    rw [hbackend]
    exact failIf_neg (not_not.mpr (hproofs s hs)) _
  · intro pi ps hpos hps
    rw [hbackend]
    apply exists_generateBatchProof pi (by simpa using hpos)
    intro w hw
    obtain ⟨p, hp, rfl⟩ := List.mem_map.mp hw
    exact hproofs p.submission (hps p hp)
  · intro c records hlen
    have hblob : records.length ≤ recordsPerBlob := hlen.trans (by decide)
    exact ⟨_, InMemoryBlobCarrier.publish_eq_ok.mpr ⟨_, encodeBlob_eq_ok.mpr ⟨hblob, rfl⟩, rfl, rfl⟩⟩

/-! ## The circuit on a built batch -/

/-- What a submission has to carry for its position to be provable: the petition's coordinates, as
scalars, and canonical bytes. -/
structure MatchesPetition (petition : PetitionView) (s : SignerSubmission) : Prop where
  rRoot : frFromBeBytes s.rRoot.1 = frFromBeBytes petition.rRoot.1
  predicateHash : frFromBeBytes s.predicateHash.1 = frFromBeBytes petition.predicateHash.1
  classIndex : s.classIndex = petition.classIndex
  slot : (Scalar.ofNat s.slot : Fr) = Scalar.ofNat petition.slot
  nullifier : s.nullifier.toNat < bn254
  identityTag : s.identityTag.toNat < bn254

/-- The circuit's public inputs for a petition with `n` leaves. -/
structure PublicFor (petition : PetitionView) (n : Nat) (pub : BatchCircuitPublic) : Prop where
  rRoot : pub.rRoot = frFromBeBytes petition.rRoot.1
  petitionId : pub.petitionId = frFromBeBytes petition.petitionId.1
  predicateHash : pub.predicateHash = frFromBeBytes petition.predicateHash.1
  classIndex : pub.classIndex = Scalar.ofNat petition.classIndex.toNat
  slot : pub.slot = Scalar.ofNat petition.slot
  priorLeafCount : pub.priorLeafCount = n

/-- The field elements at position `k` are those of the record. -/
def BlsFieldsAt (pub : BatchCircuitPublic) (k : Nat) (r : RecordEntry) : Prop :=
  (List.range fePerRecord).map (fun j => pub.blsFields (Fin.ofNat 24 (k * 4 + j))) = recordToBlsFields r

theorem checkBlsFields_eq_ok {pub : BatchCircuitPublic} {k : Nat} {r : RecordEntry}
    (hbls : BlsFieldsAt pub k r) {fields : Noir.RecordFields} :
    checkBlsFields pub k fields = .ok () ↔ fields.toList = recordToBlsFields r := by
  have hrange : List.range fePerRecord = [0, 1, 2, 3] := rfl
  rw [← hbls, hrange]
  simp only [checkBlsFields, bind_eq_ok, require_eq_ok, exists_const, Noir.RecordFields.toList,
    List.map_cons, List.map_nil, List.cons.injEq, and_true]
  constructor
  · rintro ⟨h0, h1, h2, h3⟩
    exact ⟨h0.symm, h1.symm, h2.symm, h3.symm⟩
  · rintro ⟨h0, h1, h2, h3⟩
    exact ⟨h0.symm, h1.symm, h2.symm, h3.symm⟩

theorem ofNat_uint8_inj {a b : UInt8} (h : (Scalar.ofNat a.toNat : Fr) = Scalar.ofNat b.toNat) : a = b := by
  have ha := a.toNat_lt
  have hb := b.toNat_lt
  exact UInt8.toNat_inj.mp (Scalar.ofNat_inj (by omega) (by omega) h)

/-- A tree of the relayer after `n` insertions. -/
structure Replica (C : Primitives) (t : IndexedMerkleTree Fr) (n : Nat) : Prop where
  inv : t.Inv C.poseidon
  size : t.size = n + 1

/-- What an insertion does to a replica, and that the circuit accepts it. -/
structure InsertStep (C : Primitives) (t t' : IndexedMerkleTree Fr) (n : Nat) (v : Fr)
    (w : ImtInsertWitness Fr) : Prop where
  replica : Replica C t' (n + 1)
  fresh : v ∉ IndexedList.values t.leaves
  values : IndexedList.values t'.leaves = IndexedList.values t.leaves ++ [v]
  room : n < 2 ^ 24
  newRoot : w.newRoot = t'.root
  accepted : ∃ input, insertInput w = .ok input ∧ verifyInsert C.poseidon v t.root t'.root n input = .ok ()

theorem Replica.insert {t t' : IndexedMerkleTree Fr} {n : Nat} {v : Fr} {w : ImtInsertWitness Fr}
    (H : Replica C t n) (h : t.insert C.poseidon v = .ok (w, t')) : InsertStep C t t' n v w := by
  have hinput := insertInput_insert H.inv h H.size
  have hok := verifyInsert_honest H.inv h H.size
  obtain ⟨hcap, i, low, hi, hlow, H', hleaves, rfl⟩ := insert_ok H.inv h
  have hsize : t'.size = n + 1 + 1 := by
    rw [IndexedMerkleTree.size, hleaves, IndexedList.length_splice]
    exact congrArg (· + 1) H.size
  have hlen : t.leaves.length = n + 1 := H.size
  simp only [imtDepth] at hcap
  exact
    { replica := ⟨H', hsize⟩
      fresh := H.inv.linked.not_mem_of_low (List.mem_of_getElem? hi) hlow
      values := by rw [hleaves, IndexedList.values_splice v hi]
      room := by omega
      newRoot := rfl
      accepted := ⟨_, hinput, hok⟩ }

theorem signerFields (s : SignerSubmission) : (signerPublic s).fields 0 = frFromBeBytes s.rRoot.1 ∧
    (signerPublic s).fields 1 = frFromBeBytes s.petitionId.1 ∧
    (signerPublic s).fields 2 = frFromBeBytes s.predicateHash.1 ∧
    (signerPublic s).fields 3 = Scalar.ofNat s.classIndex.toNat ∧
    (signerPublic s).fields 4 = Scalar.ofNat s.classTag.toNat ∧
    (signerPublic s).fields 5 = Scalar.ofNat s.slot ∧ (signerPublic s).fields 6 = frFromBeBytes s.nullifier.1 ∧
    (signerPublic s).fields 7 = frFromBeBytes s.identityTag.1 :=
  ⟨rfl, rfl, rfl, rfl, rfl, rfl, rfl, rfl⟩

/-- The round of the circuit at a position the relayer built. -/
theorem checkPosition_iff {T T' U U' : IndexedMerkleTree Fr} {n k : Nat} {s : SignerSubmission}
    {wr wt : ImtInsertWitness Fr} {prev : Fr} {pub : BatchCircuitPublic}
    (hpub : PublicFor petition n pub) (hbls : BlsFieldsAt pub k (recordOf s))
    (hpid : s.petitionId = petition.petitionId) (hr : InsertStep C T T' (n + k) (verifiedOf C s).leaf wr)
    (ht : InsertStep C U U' (n + k) (frFromBeBytes s.identityTag.1) wt)
    (hzero : (verifiedOf C s).leaf ≠ 0) (hprev : 0 < k → prev < (verifiedOf C s).leaf) :
    ∃ input, positionInput (witnessOf ⟨s, wr, wt⟩, k) = .ok input ∧
      ∀ x, checkPosition C.poseidon (fun _ _ => true) pub ⟨T.root, U.root, prev⟩ (input, k) = .ok x ↔
        MatchesPetition petition s ∧ x = ⟨T'.root, U'.root, (verifiedOf C s).leaf⟩ := by
  obtain ⟨ir, hir, hvr⟩ := hr.accepted
  obtain ⟨it, hit, hvt⟩ := ht.accepted
  have hcount : addU32 pub.priorLeafCount k = .ok (n + k) := by
    have hroom := hr.room
    rw [hpub.priorLeafCount, addU32, okOr_eq_ok, checkedAdd_eq_some]
    exact ⟨by omega, rfl⟩
  have hclass : (Scalar.ofNat s.classTag.toNat : Fr).val % 2 ^ 32 < 65536 := by
    have hlt := s.classTag.toNat_lt
    have hval : (Scalar.ofNat s.classTag.toNat : Fr).val = s.classTag.toNat :=
      PrimeField.val_reduce (hlt.trans (by decide))
    omega
  refine ⟨⟨(signerPublic s).fields, ir, T'.root, it, U'.root⟩, ?_, fun x => ?_⟩
  · simp only [positionInput, witnessOf, okOr, ok_bind, hir, hit, hr.newRoot, ht.newRoot]
    rfl
  · have hleaf : hashLeaf C.poseidon (frFromBeBytes s.nullifier.1) (Scalar.ofNat s.classTag.toNat) =
      (verifiedOf C s).leaf := rfl
    have hrecord := @recordToFields_eq_iff (recordOf s)
    simp only [checkPosition, signerFields, bind_eq_ok, require_eq_ok, exists_const, hcount, hleaf, hvr,
      hvt, hclass, checkBlsFields_eq_ok hbls, pure_eq_ok, Except.ok.injEq, exists_eq_left', true_and,
      hpub.rRoot, hpub.petitionId, hpub.predicateHash, hpub.classIndex, hpub.slot, hpid]
    constructor
    · rintro ⟨hrr, hph, hci, hslot, -, -, hfields, rfl⟩
      obtain ⟨hn, hid⟩ := hrecord.mp hfields
      exact ⟨⟨hrr, hph, ofNat_uint8_inj hci, hslot, hn, hid⟩, rfl⟩
    · rintro ⟨hm, rfl⟩
      refine ⟨hm.rRoot, hm.predicateHash, by rw [hm.classIndex], hm.slot, fun _ => hzero, fun hk => ?_,
        hrecord.mpr ⟨hm.nullifier, hm.identityTag⟩, rfl⟩
      exact ltField_iff.mpr (hprev hk)

/-- The loop of the circuit over the positions the relayer built from `k` on. It succeeds exactly when
the submissions match the petition, and it ends at the roots of the replicas. -/
theorem Inserted.circuit (h : Inserted C st vs positions st') {n : Nat} (k : Nat) (prev : Fr)
    {pub : BatchCircuitPublic} (hpub : PublicFor petition n pub)
    (hr : Replica C st.runningImt (n + k)) (ht : Replica C st.identityTagImt (n + k))
    (hvs : ∀ v ∈ vs, v = verifiedOf C v.submission ∧ v.submission.petitionId = petition.petitionId)
    (hsorted : vs.Pairwise fun a b => a.leaf ≤ b.leaf)
    (hprev : 0 < k → prev ∈ IndexedList.values st.runningImt.leaves ∧ ∀ v ∈ vs, prev ≤ v.leaf)
    (hbls : ∀ i p, positions[i]? = some p → BlsFieldsAt pub (k + i) (recordOf p.submission)) :
    ∃ inputs, ((positions.map witnessOf).zipIdx k).mapM positionInput = .ok inputs ∧
      (∀ x, (inputs.zipIdx k).foldlM (checkPosition C.poseidon (fun _ _ => true) pub)
          ⟨st.runningImt.root, st.identityTagImt.root, prev⟩ = .ok x →
        x.prevRunning = st'.runningImt.root ∧ x.prevIdtag = st'.identityTagImt.root) ∧
      ((∃ x, (inputs.zipIdx k).foldlM (checkPosition C.poseidon (fun _ _ => true) pub)
          ⟨st.runningImt.root, st.identityTagImt.root, prev⟩ = .ok x) ↔
        ∀ p ∈ positions, MatchesPetition petition p.submission) := by
  induction h generalizing k prev with
  | nil => exact ⟨[], rfl, fun x hx => Except.ok.inj hx ▸ ⟨rfl, rfl⟩, by simp⟩
  | @cons s s' v vs ps wr wt T U running idtag rest ih =>
    obtain ⟨⟨hv, hpid⟩, hvs⟩ := List.forall_mem_cons.mp hvs
    obtain ⟨hle, hsorted⟩ := List.pairwise_cons.mp hsorted
    have hR := hr.insert running
    have hT := ht.insert idtag
    have hzero : v.leaf ≠ 0 := fun h0 => hR.fresh (h0 ▸ hr.inv.zero_mem)
    have hlt : 0 < k → prev < v.leaf := by
      intro hk
      obtain ⟨hmem, hall⟩ := hprev hk
      exact lt_of_le_of_ne (hall v List.mem_cons_self) fun he => hR.fresh (he ▸ hmem)
    have hleaf : v.leaf = (verifiedOf C v.submission).leaf := congrArg Verified.leaf hv
    rw [hleaf] at hR hzero hlt
    have hrecord := hbls 0 _ rfl
    rw [Nat.add_zero] at hrecord
    obtain ⟨input, hinput, hstep⟩ := checkPosition_iff hpub hrecord hpid hR hT hzero hlt
    obtain ⟨inputs, hinputs, hroots, hiff⟩ := ih (k + 1) v.leaf hR.replica hT.replica hvs hsorted
      (fun _ => ⟨by rw [hR.values]; simp [hleaf], hle⟩)
      (fun i p hp => by
        have hb := hbls (i + 1) p hp
        rwa [← Nat.add_assoc, Nat.add_right_comm] at hb)
    refine ⟨input :: inputs, ?_, ?_, ?_⟩
    · simp only [List.map_cons, List.zipIdx_cons, List.mapM_cons, hinput, hinputs, ok_bind]
      rfl
    · intro x hx
      simp only [List.zipIdx_cons, List.foldlM_cons, bind_eq_ok, hstep] at hx
      obtain ⟨_, ⟨-, rfl⟩, hx⟩ := hx
      exact hroots x (hleaf ▸ hx)
    · simp only [List.zipIdx_cons, List.foldlM_cons, bind_eq_ok, hstep, List.forall_mem_cons, ← hiff]
      constructor
      · rintro ⟨x, _, ⟨hm, rfl⟩, hx⟩
        exact ⟨hm, x, hleaf ▸ hx⟩
      · rintro ⟨hm, x, hx⟩
        exact ⟨x, _, ⟨hm, rfl⟩, hleaf ▸ hx⟩

/-- The relayer's trees are those of the petition. -/
structure InSync (C : Primitives) (petition : PetitionView) (st : RelayerPetitionState) : Prop where
  running : ∃ vs, (IndexedMerkleTree.new C.poseidon).insertAll C.poseidon vs = .ok st.runningImt ∧
    vs.length = petition.leafCount
  idtag : ∃ vs, (IndexedMerkleTree.new C.poseidon).insertAll C.poseidon vs = .ok st.identityTagImt ∧
    vs.length = petition.leafCount
  runningRoot : frToBeBytes st.runningImt.root = petition.runningRoot
  identityTagSetRoot : frToBeBytes st.identityTagImt.root = petition.identityTagSetRoot
  leafCount : st.leafCount = petition.leafCount

theorem replica_of_insertAll {us : List Fr} {t : IndexedMerkleTree Fr} {n : Nat}
    (h : (IndexedMerkleTree.new C.poseidon).insertAll C.poseidon us = .ok t) (hn : us.length = n) :
    Replica C t n := by
  obtain ⟨H, -, hlen⟩ := reachable h
  exact ⟨H, hn ▸ hlen⟩

theorem blsFieldsAt_blsFieldsOf {records : List RecordEntry} (hsix : records.length = batchSizeMax)
    {pub : BatchCircuitPublic} (hpub : pub.blsFields = fun k => (blsFieldsOf records).getD k.val 0)
    {i : Nat} {r : RecordEntry} (hr : records[i]? = some r) : BlsFieldsAt pub i r := by
  have hchunk : ∀ r : RecordEntry, (recordToBlsFields r).length = fePerRecord := fun r => by
    simp [recordToBlsFields]
  have hlen : (records.flatMap recordToBlsFields).length = batchSizeMax * fePerRecord := by
    rw [length_flatMap_chunk hchunk, hsix]
  have hall : blsFieldsOf records = records.flatMap recordToBlsFields := by
    simp [blsFieldsOf, hlen, List.take_of_length_le]
  have hi := (List.getElem?_eq_some_iff.mp hr).1
  rw [hsix, batchSizeMax] at hi
  apply List.ext_getElem?
  intro j
  by_cases hj : j < fePerRecord
  · have hj4 : j < 4 := hj
    have hidx : (Fin.ofNat 24 (i * 4 + j)).val = i * fePerRecord + j :=
      Nat.mod_eq_of_lt (by omega)
    have hget := getElem?_flatMap_chunk hchunk records i hj
    rw [hr, Option.bind_some] at hget
    rw [List.getElem?_map, List.getElem?_range hj, Option.map_some, hpub]
    dsimp only
    rw [hidx, hall, List.getD_eq_getElem?_getD, hget]
    rw [List.getElem?_eq_getElem (by rw [hchunk]; exact hj), Option.getD_some]
  · rw [List.getElem?_eq_none (by simpa using hj), List.getElem?_eq_none (by rw [hchunk]; omega)]

section
variable {relayer relayer' : Relayer β} {batch : BatchSubmission} {vh : Bytes32}

/-- The positions are the submissions in the order of their leaves. -/
theorem Built.positions_eq
    (B : Built C publish petition submissions relayer relayer' st st' batch positions vs vh) :
    (∀ v ∈ vs, v = verifiedOf C v.submission ∧ v.submission.petitionId = petition.petitionId) ∧
      positions.length = submissions.length ∧ ∀ s, s ∈ positions.map (·.submission) ↔ s ∈ submissions := by
  have hsub : (vs.map (·.submission)).Perm submissions := by
    have hperm := B.checked.perm.map (·.submission)
    rwa [List.map_map, show ((·.submission) ∘ verifiedOf C) = id from rfl, List.map_id] at hperm
  have hpos := B.inserted.map_submission
  refine ⟨fun v hv => ?_, ?_, fun s => ?_⟩
  · obtain ⟨s, hs, rfl⟩ := List.mem_map.mp (B.checked.perm.subset hv)
    exact ⟨rfl, B.checked.petitionId s hs⟩
  · rw [← List.length_map (f := (·.submission)), hpos, hsub.length_eq]
  · rw [hpos]
    exact hsub.mem_iff

/-- The circuit's public inputs of a batch of six. -/
theorem Built.circuitPublic
    (B : Built C publish petition submissions relayer relayer' st st' batch positions vs vh)
    (hR : Replica C st.runningImt st.leafCount) (hsix : submissions.length = batchSizeMax) :
    ∃ pub, batchCircuitPublic batch.publicInputs = .ok pub ∧ PublicFor petition st.leafCount pub ∧
      pub.batchSize = batchSizeMax ∧ pub.newLeafCount = st.leafCount + batchSizeMax ∧
      (∀ i p, positions[i]? = some p → BlsFieldsAt pub (0 + i) (recordOf p.submission)) ∧
      pub.priorRunningRoot = st.runningImt.root ∧ pub.newRunningRoot = st'.runningImt.root ∧
      pub.priorIdentityTagSetRoot = st.identityTagImt.root ∧
      pub.newIdentityTagSetRoot = st'.identityTagImt.root := by
  obtain ⟨-, hlen, -⟩ := B.positions_eq
  have hn : st.leafCount < 2 ^ 24 := by
    have hsize : st.runningImt.leaves.length = st.leafCount + 1 := hR.size
    have hbound := hR.inv.bound
    simp only [imtDepth] at hbound
    omega
  have hval : ∀ m < 2 ^ 25, (Scalar.ofNat m : Fr).val = m := fun m hm =>
    PrimeField.val_reduce (hm.trans (by decide))
  have hrecords : batch.records.length = batchSizeMax := by
    rw [B.records, List.length_map, hlen, hsix]
  have hcount : st'.leafCount = st.leafCount + batchSizeMax := by rw [B.leafCount, hlen, hsix]
  have hsmall : st.leafCount + batchSizeMax < 2 ^ 25 := by
    simp only [batchSizeMax]
    omega
  rw [B.publicInputs]
  simp only [batchCircuitPublic, batchPublic, hrecords, hcount, hval _ hsmall,
    hval _ (show batchSizeMax < 2 ^ 25 by decide), hval _ (show st.leafCount < 2 ^ 25 by omega),
    frFromBeBytes_frToBeBytes]
  rw [failIf_neg (by simp only [batchSizeMax] at *; omega), ok_bind]
  refine ⟨_, rfl, ⟨rfl, rfl, rfl, rfl, rfl, rfl⟩, rfl, rfl, ?_, rfl, rfl, rfl, rfl⟩
  intro i p hp
  rw [Nat.zero_add]
  apply blsFieldsAt_blsFieldsOf hrecords rfl
  rw [B.records, List.getElem?_map, hp, Option.map_some]

end

/-- A batch of six submissions that the relayer built satisfies the circuit it is proved in, apart
from the recursive verification, exactly when every submission carries the petition's credential
root, predicate hash, class index and slot and the bytes of its nullifier and tag are canonical. -/
theorem buildBatch_circuit_iff {relayer relayer' : Relayer β} {batch : BatchSubmission}
    (hsync : InSync C petition st) (hsix : submissions.length = batchSizeMax)
    (h : buildBatch C publish petition submissions (relayer, st) =
      some (.ok (batch, positions), (relayer', st'))) :
    relayer.proofBackend.generateBatchProof batch.publicInputs (positions.map witnessOf) =
      .ok batch.proofBytes ∧
    ((∃ input, batchProverInput batch.publicInputs (positions.map witnessOf) = .ok input ∧
      batchMain C.poseidon (fun _ _ => true) input.1 input.2 = .ok ()) ↔
        ∀ s ∈ submissions, MatchesPetition petition s) := by
  obtain ⟨vs, vh, B⟩ := buildBatch_ok h
  refine ⟨B.proved, ?_⟩
  obtain ⟨us, hus, huslen⟩ := hsync.running
  obtain ⟨ws, hws, hwslen⟩ := hsync.idtag
  have hR := replica_of_insertAll hus (huslen.trans hsync.leafCount.symm)
  have hT := replica_of_insertAll hws (hwslen.trans hsync.leafCount.symm)
  obtain ⟨pub, hpub, hfor, hsize, hnew, hbls, hroots⟩ := B.circuitPublic hR hsix
  obtain ⟨hverified, hlen, hmem⟩ := B.positions_eq
  obtain ⟨inputs, hinputs, hend, hiff⟩ := B.inserted.circuit 0 0 hfor hR hT hverified B.checked.sorted
    (fun h0 => absurd h0 (Nat.lt_irrefl 0)) hbls
  have hpositions : (positions.map witnessOf).length = batchSizeMax := by
    rw [List.length_map, hlen, hsix]
  have hinputlen : inputs.length = batchSizeMax := by
    have hzip := (mapM_eq_ok.mp hinputs).length_eq
    rw [← hzip, List.length_zipIdx, hpositions]
  have hprover : batchProverInput batch.publicInputs (positions.map witnessOf) =
      .ok (pub, ⟨inputs, hinputlen⟩) := by
    simp only [batchProverInput]
    rw [failIf_neg (not_not.mpr hpositions), ok_bind, hinputs, ok_bind, hpub, ok_bind, dif_pos hinputlen]
    rfl
  have hcount : addU32 pub.priorLeafCount batchSizeMax = .ok pub.newLeafCount := by
    have hroom := hR.inv.bound
    have hleaves : st.runningImt.leaves.length = st.leafCount + 1 := hR.size
    simp only [imtDepth] at hroom
    rw [hfor.priorLeafCount, hnew, addU32, okOr_eq_ok, checkedAdd_eq_some]
    exact ⟨by simp only [batchSizeMax]; omega, rfl⟩
  obtain ⟨hprior, hnewRoot, hpriorTag, hnewTag⟩ := hroots
  have hmain : batchMain C.poseidon (fun _ _ => true) pub ⟨inputs, hinputlen⟩ = .ok () ↔
      ∀ p ∈ positions, MatchesPetition petition p.submission := by
    simp only [batchMain, bind_eq_ok, require_eq_ok, exists_const, hcount, Except.ok.injEq,
      exists_eq_left', hsize, hprior, hpriorTag, hnewRoot, hnewTag, true_and, ← hiff]
    constructor
    · rintro ⟨x, hx, -⟩
      exact ⟨x, hx⟩
    · rintro ⟨x, hx⟩
      exact ⟨x, hx, hend x hx⟩
  simp only [hprover, Except.ok.injEq, exists_eq_left', hmain, ← hmem, List.mem_map,
    forall_exists_index, and_imp, forall_apply_eq_imp_iff₂]

end

/-! ### Six submissions to a petition in slot 7 -/

namespace Sample
open Civic.Sample (poseidon primitives)

def relayer : Relayer InMemoryBlobCarrier := ⟨.zero 20, MockProofBackend.backend primitives, .new⟩

def petition : PetitionView where
  petitionId := .zero 32
  rRoot := .zero 32
  predicateHash := .zero 32
  classIndex := 0
  classSet := [100]
  slot := 7
  runningRoot := frToBeBytes (IndexedMerkleTree.new primitives.poseidon).root
  identityTagSetRoot := frToBeBytes (IndexedMerkleTree.new primitives.poseidon).root
  leafCount := 0
  signerVkHash := .zero 32

def proved (s : SignerSubmission) : SignerSubmission :=
  { s with proofBytes := (signerDigest primitives (signerPublic s)).1 }

theorem startsWith_proved (s : SignerSubmission) : MockProofBackend.StartsWith (proved s).proofBytes
    (signerDigest primitives (signerPublic (proved s))) := by
  have h := startsWith_append (signerDigest primitives (signerPublic s)) []
  rwa [List.append_nil] at h

def numbers : List Nat := [6, 5, 4, 3, 2, 1]

/-- Six signers of class 100, proved for `slot`, with decreasing nullifiers. -/
def submissions (slot : Nat) : List SignerSubmission :=
  numbers.map fun n => proved ⟨.zero 32, .zero 32, .zero 32, 0, slot, .ofNat 32 n, .ofNat 32 (n + 10), 100, []⟩

theorem inSync : InSync primitives petition (.new primitives) :=
  ⟨⟨[], rfl, rfl⟩, ⟨[], rfl, rfl⟩, rfl, rfl, rfl⟩

theorem buildable (slot : Nat) : Buildable primitives petition (submissions slot) where
  pos := List.cons_ne_nil _ _
  size := le_refl 6
  petitionId s hs := by
    obtain ⟨n, -, rfl⟩ := List.mem_map.mp hs
    rfl
  classTag s hs := by
    obtain ⟨n, -, rfl⟩ := List.mem_map.mp hs
    exact List.mem_singleton_self _
  nullifiers := by
    show (numbers.map (Bytes.ofNat 32)).Nodup
    decide +kernel
  identityTags := by
    show (numbers.map fun n => Bytes.ofNat 32 (n + 10)).Nodup
    decide +kernel
  leaves := by
    show (numbers.map fun n => hashLeaf poseidon (frFromBeBytes (Bytes.ofNat 32 n).1) (Scalar.ofNat 100)).Nodup
    decide +kernel
  tags := by
    show (numbers.map fun n => (frFromBeBytes (Bytes.ofNat 32 (n + 10)).1 : Fr)).Nodup
    decide +kernel
  leaf_ne_zero := by
    have hne : ∀ n ∈ numbers, hashLeaf poseidon (frFromBeBytes (Bytes.ofNat 32 n).1)
      (Scalar.ofNat 100) ≠ 0 := by decide +kernel
    exact List.forall_mem_map.mpr hne
  tag_ne_zero := by
    have hne : ∀ n ∈ numbers, (frFromBeBytes (Bytes.ofNat 32 (n + 10)).1 : Fr) ≠ 0 := by
      decide +kernel
    exact List.forall_mem_map.mpr hne

theorem exists_batch (slot : Nat) : ∃ batch positions relayer' st',
    buildBatch primitives (fun c => c.publish primitives) petition (submissions slot)
      (relayer, .new primitives) = some (.ok (batch, positions), (relayer', st')) := by
  apply exists_buildBatch_mock rfl rfl rfl _ (buildable slot)
  intro s hs
  obtain ⟨n, -, rfl⟩ := List.mem_map.mp hs
  exact startsWith_proved _

end Sample

theorem buildBatch_circuit_iff_sample : ∃ batch positions relayer' st',
    buildBatch Civic.Sample.primitives (fun c => c.publish Civic.Sample.primitives) Sample.petition
      (Sample.submissions 7) (Sample.relayer, .new Civic.Sample.primitives) =
        some (.ok (batch, positions), (relayer', st')) ∧
    ∃ input, batchProverInput batch.publicInputs (positions.map witnessOf) = .ok input ∧
      batchMain Civic.Sample.poseidon (fun _ _ => true) input.1 input.2 = .ok () := by
  obtain ⟨batch, positions, relayer', st', h⟩ := Sample.exists_batch 7
  refine ⟨batch, positions, relayer', st', h, ?_⟩
  apply (buildBatch_circuit_iff Sample.inSync rfl h).2.mpr
  intro s hs
  obtain ⟨n, hn, rfl⟩ := List.mem_map.mp hs
  have hsmall : ∀ k ∈ Sample.numbers, (Bytes.ofNat 32 k).toNat < bn254 ∧
      (Bytes.ofNat 32 (k + 10)).toNat < bn254 := by decide +kernel
  exact ⟨rfl, rfl, rfl, rfl, (hsmall n hn).1, (hsmall n hn).2⟩

/-- Submissions proved for slot 8 pass every check of the relayer, and no proof of the batch exists. -/
theorem buildBatch_unprovable : ∃ batch positions relayer' st',
    InSync Civic.Sample.primitives Sample.petition (.new Civic.Sample.primitives) ∧
    (Sample.submissions 8).length = batchSizeMax ∧
    buildBatch Civic.Sample.primitives (fun c => c.publish Civic.Sample.primitives) Sample.petition
      (Sample.submissions 8) (Sample.relayer, .new Civic.Sample.primitives) =
        some (.ok (batch, positions), (relayer', st')) ∧
    ¬ ∃ input, batchProverInput batch.publicInputs (positions.map witnessOf) = .ok input ∧
      batchMain Civic.Sample.poseidon (fun _ _ => true) input.1 input.2 = .ok () := by
  obtain ⟨batch, positions, relayer', st', h⟩ := Sample.exists_batch 8
  refine ⟨batch, positions, relayer', st', Sample.inSync, rfl, h, fun hc => ?_⟩
  have hm := (buildBatch_circuit_iff Sample.inSync rfl h).2.mp hc _ List.mem_cons_self
  exact absurd hm.slot (by decide +kernel)

end Relayer

end Pocs.Civic
