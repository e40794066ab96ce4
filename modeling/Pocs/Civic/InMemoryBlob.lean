import Pocs.Civic.Blob

/-! # The in-process blob carrier

`adapters/in_memory_blob.rs`: blobs are stored under their versioned hash, and an opening proof is a
digest of what it opens. What is published is returned by its hash. -/

namespace Pocs.Civic

structure BlobEntry where
  fes : List Bytes32
  records : List RecordEntry

structure InMemoryBlobCarrier where
  blobs : Bytes32 → Option BlobEntry

namespace InMemoryBlobCarrier
variable (C : Primitives) (c : InMemoryBlobCarrier)

def new : InMemoryBlobCarrier := ⟨fun _ => none⟩

def openingDomain : List UInt8 := "RCP-mock-kzg/v1".toList.map fun c => UInt8.ofNat c.toNat

def openingProofBytes (versionedHash : Bytes32) (index : Nat) (value : Bytes32) : List UInt8 :=
  (C.sha256 (openingDomain ++ versionedHash.1 ++ beOfNat 4 index ++ value.1)).1

/-- Publish a batch's record payload; the result is its versioned hash. -/
def publish (records : List RecordEntry) : Except BlobError (Bytes32 × InMemoryBlobCarrier) := do
  let fes ← encodeBlob records
  let vh := computeBatchVersionedHash C fes
  pure (vh, ⟨Function.update c.blobs vh (some ⟨fes, records⟩)⟩)

/-- Verify a single opening against `versionedHash`. -/
def verify (versionedHash : Bytes32) (opening : KzgOpening) : Except BlobError Unit := do
  let entry ← okOr (c.blobs versionedHash) .notFound
  let (idx, len) := (opening.fieldElementIndex, entry.fes.length)
  let value ← okOr entry.fes[idx]? (.invalidOpening s!"fe index {idx} out of range (blob len {len})")
  failIf (value ≠ opening.claimedValue)
    (.invalidOpening "opening claims a value the published blob does not carry")
  failIf (openingProofBytes C versionedHash idx opening.claimedValue ≠ opening.proofBytes)
    (.invalidOpening "mock KZG opening proof mismatch")

def fetchRecords (versionedHash : Bytes32) : Except BlobError (List RecordEntry) := do
  let entry ← okOr (c.blobs versionedHash) .notFound
  pure entry.records

variable {C c}

theorem publish_eq_ok {records : List RecordEntry} {vh : Bytes32} {c' : InMemoryBlobCarrier} :
    c.publish C records = .ok (vh, c') ↔ ∃ fes, encodeBlob records = .ok fes ∧
      vh = computeBatchVersionedHash C fes ∧ c' = ⟨Function.update c.blobs vh (some ⟨fes, records⟩)⟩ := by
  simp only [publish, bind_eq_ok, pure_eq_ok, Prod.mk.injEq]
  constructor
  · rintro ⟨fes, hfes, rfl, rfl⟩
    exact ⟨fes, hfes, rfl, rfl⟩
  · rintro ⟨fes, hfes, rfl, rfl⟩
    exact ⟨fes, hfes, rfl, rfl⟩

theorem blobs_publish {records : List RecordEntry} {vh : Bytes32} {c' : InMemoryBlobCarrier}
    (h : c.publish C records = .ok (vh, c')) : c'.blobs vh = some ⟨blobElements records, records⟩ := by
  obtain ⟨fes, hfes, -, rfl⟩ := publish_eq_ok.mp h
  obtain ⟨-, rfl⟩ := encodeBlob_eq_ok.mp hfes
  exact Function.update_self ..

/-- Published records are read back, as long as nothing else is published under their hash. -/
theorem fetchRecords_publish {records : List RecordEntry} {vh : Bytes32} {c' : InMemoryBlobCarrier}
    (h : c.publish C records = .ok (vh, c')) (vh' : Bytes32) :
    c'.fetchRecords vh' = if vh' = vh then .ok records else c.fetchRecords vh' := by
  obtain ⟨fes, -, -, rfl⟩ := publish_eq_ok.mp h
  unfold fetchRecords
  dsimp only
  split
  · next heq =>
    rw [heq, Function.update_self]
    rfl
  · next hne => rw [Function.update_of_ne hne]

/-- An accepted opening names the stored field element. -/
theorem verify_eq_ok {vh : Bytes32} {o : KzgOpening} : c.verify C vh o = .ok () ↔
    ∃ entry, c.blobs vh = some entry ∧ entry.fes[o.fieldElementIndex]? = some o.claimedValue ∧
      openingProofBytes C vh o.fieldElementIndex o.claimedValue = o.proofBytes := by
  simp only [verify, bind_eq_ok, okOr_eq_ok, failIf_eq_ok, not_not]
  constructor
  · rintro ⟨entry, hentry, value, hvalue, -, rfl, hproof⟩
    exact ⟨entry, hentry, hvalue, hproof⟩
  · rintro ⟨entry, hentry, hvalue, hproof⟩
    exact ⟨entry, hentry, _, hvalue, (), rfl, hproof⟩

theorem verify_of_blobs {vh : Bytes32} {fes : List Bytes32} {records : List RecordEntry}
    (h : c.blobs vh = some ⟨fes, records⟩) {o : KzgOpening} : c.verify C vh o = .ok () ↔
      fes[o.fieldElementIndex]? = some o.claimedValue ∧
        openingProofBytes C vh o.fieldElementIndex o.claimedValue = o.proofBytes := by
  rw [verify_eq_ok, h]
  simp only [Option.some.injEq, exists_eq_left']

end InMemoryBlobCarrier

end Pocs.Civic
