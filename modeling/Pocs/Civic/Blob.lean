import Pocs.Civic.Types

/-! # Blob payloads

The record and blob encoders of `blob.rs`. A record takes 96 bytes, cut into four field elements of
31 content bytes under a zero high byte; a blob has room for 1000 records and is padded with zeros.
`assembleRecord_fieldElements` and `decodeRecord_encodeRecord` read a record back from the field
elements of its position (`encodeBlob_getElem?`). -/

namespace Pocs.Civic

def fePerRecord : Nat := 4
def contentPerFe : Nat := 31

def encodeRecord (r : RecordEntry) : Bytes recordLen :=
  ⟨r.nullifier.1 ++ r.identityTag.1 ++ beOfNat 2 r.classTag.toNat ++ List.replicate 30 0, by
    simp [r.nullifier.2, r.identityTag.2, recordLen]⟩

def decodeRecord (bytes : Bytes recordLen) : RecordEntry where
  nullifier := .resize 32 bytes.1
  identityTag := .resize 32 (bytes.1.drop 32)
  classTag := UInt16.ofNat (beToNat ((bytes.1.drop 64).take 2))

/-- The number of content bytes of the `j`-th field element of a record. -/
def feTake (j : Nat) : Nat := min ((j + 1) * contentPerFe) recordLen - j * contentPerFe

/-- The content of the `j`-th field element of a record. -/
def feSlice (recordBytes : List UInt8) (j : Nat) : List UInt8 :=
  (recordBytes.drop (j * contentPerFe)).take (feTake j)

/-- The `j`-th field element of a record, with a zero high byte. -/
def fieldElement (recordBytes : List UInt8) (j : Nat) : Bytes32 :=
  .resize 32 (0 :: feSlice recordBytes j)

/-- The bytes at record position `i`: zeros beyond the records. -/
def recordBytesAt (records : List RecordEntry) (i : Nat) : List UInt8 :=
  match records[i]? with
  | some r => (encodeRecord r).1
  | none => List.replicate recordLen 0

def blobElements (records : List RecordEntry) : List Bytes32 :=
  (List.range recordsPerBlob).flatMap fun i =>
    (List.range fePerRecord).map (fieldElement (recordBytesAt records i))

/-- Encode `records` into the field-element byte string, padded to `RECORDS_PER_BLOB`. -/
def encodeBlob (records : List RecordEntry) : Except BlobError (List Bytes32) := do
  failIf (records.length > recordsPerBlob) (.capacity records.length recordsPerBlob)
  pure (blobElements records)

def computeBatchVersionedHash (C : Primitives) (fieldElements : List Bytes32) : Bytes32 :=
  let h := C.sha256 (fieldElements.flatMap (·.1))
  ⟨h.1.set 0 0, by rw [List.length_set, h.2]⟩

/-- Copy the contents of the field elements of a record back to its 96 bytes. The slices are
adjacent, so that writing them in order is appending them. -/
def assembleRecord (values : List Bytes32) : Bytes recordLen :=
  .resize recordLen (values.zipIdx.flatMap fun v => (v.1.1.drop 1).take (feTake v.2))

theorem decodeRecord_encodeRecord (r : RecordEntry) : decodeRecord (encodeRecord r) = r := by
  obtain ⟨⟨n, hn⟩, ⟨t, ht⟩, c⟩ := r
  unfold decodeRecord encodeRecord
  congr 1
  · apply Subtype.ext
    simp [Bytes.resize, hn, ht]
  · apply Subtype.ext
    simp [Bytes.resize, hn, ht]
  · have htag : ((n ++ t ++ beOfNat 2 c.toNat ++ List.replicate 30 0).drop 64).take 2 = beOfNat 2 c.toNat := by
      have hnt : (n ++ t).length = 64 := by simp [hn, ht]
      rw [List.append_assoc, ← hnt, List.drop_left, List.take_left' (length_beOfNat _ _)]
    have hlt : c.toNat < 256 ^ 2 := c.toNat_lt
    rw [htag, beToNat_beOfNat, Nat.mod_eq_of_lt hlt]
    exact UInt16.ofNat_toNat

theorem decodeRecord_zero : decodeRecord (.zero recordLen) = .zero := by decide

theorem assembleRecord_fieldElements (bytes : Bytes recordLen) :
    assembleRecord ((List.range fePerRecord).map (fieldElement bytes.1)) = bytes := by
  obtain ⟨bs, hbs⟩ := bytes
  have hbs' : bs.length = 96 := hbs
  have hcontent : ∀ j < 4, ((fieldElement bs j).1.drop 1).take (feTake j) = feSlice bs j := by
    intro j hj
    have hlen : (feSlice bs j).length = feTake j := by
      have : feTake j ≤ bs.length - j * contentPerFe := by
        rw [hbs']; unfold feTake recordLen; omega
      simp [feSlice, this]
    have htake : feTake j ≤ 31 := by unfold feTake contentPerFe; omega
    simp [fieldElement, Bytes.resize, hlen, htake]
  apply Subtype.ext
  have hall : (((List.range fePerRecord).map (fieldElement bs)).zipIdx.flatMap
      fun v => (v.1.1.drop 1).take (feTake v.2)) =
      feSlice bs 0 ++ feSlice bs 1 ++ feSlice bs 2 ++ feSlice bs 3 := by
    rw [← hcontent 0 (by decide), ← hcontent 1 (by decide), ← hcontent 2 (by decide),
      ← hcontent 3 (by decide)]
    simp [fePerRecord, List.range_succ]
  have hjoin : feSlice bs 0 ++ feSlice bs 1 ++ feSlice bs 2 ++ feSlice bs 3 = bs := by
    have hslice : feSlice bs 0 ++ feSlice bs 1 ++ feSlice bs 2 ++ feSlice bs 3 =
        bs.take 31 ++ (bs.drop 31).take 31 ++ (bs.drop 62).take 31 ++ (bs.drop 93).take 3 := rfl
    rw [hslice, ← List.take_add, ← List.take_add, ← List.take_add]
    exact List.take_of_length_le (by omega)
  rw [assembleRecord, hall, hjoin]
  exact Bytes.resize_val hbs

theorem recordBytesAt_length (records : List RecordEntry) (i : Nat) :
    (recordBytesAt records i).length = recordLen := by
  unfold recordBytesAt
  split
  · exact (encodeRecord _).2
  · exact List.length_replicate

/-- The record at position `i` of a blob: the zero record beyond the published ones. -/
def recordAt (records : List RecordEntry) (i : Nat) : RecordEntry := records.getD i .zero

theorem decodeRecord_recordBytesAt (records : List RecordEntry) (i : Nat) :
    decodeRecord ⟨recordBytesAt records i, recordBytesAt_length records i⟩ = recordAt records i := by
  unfold recordAt
  cases h : records[i]? with
  | some r =>
    have : (⟨recordBytesAt records i, recordBytesAt_length records i⟩ : Bytes recordLen) =
        encodeRecord r := Subtype.ext (by simp [recordBytesAt, h])
    rw [this, decodeRecord_encodeRecord, List.getD_eq_getElem?_getD, h, Option.getD_some]
  | none =>
    have : (⟨recordBytesAt records i, recordBytesAt_length records i⟩ : Bytes recordLen) =
        Bytes.zero recordLen := Subtype.ext (by simp [recordBytesAt, h, Bytes.zero])
    rw [this, decodeRecord_zero, List.getD_eq_getElem?_getD, h, Option.getD_none]

theorem encodeBlob_eq_ok {records : List RecordEntry} {fes : List Bytes32} :
    encodeBlob records = .ok fes ↔ records.length ≤ recordsPerBlob ∧ blobElements records = fes := by
  simp only [encodeBlob, bind_eq_ok, failIf_eq_ok, pure_eq_ok, not_lt, exists_const]

/-- The field elements of position `i`. -/
theorem encodeBlob_getElem? {records : List RecordEntry} {fes : List Bytes32}
    (h : encodeBlob records = .ok fes) {i j : Nat} (hi : i < recordsPerBlob) (hj : j < fePerRecord) :
    fes[i * fePerRecord + j]? = some (fieldElement (recordBytesAt records i) j) := by
  obtain ⟨-, rfl⟩ := encodeBlob_eq_ok.mp h
  rw [blobElements, getElem?_flatMap_chunk (fun i => by simp) _ i hj, List.getElem?_range hi,
    Option.bind_some, List.getElem?_map, List.getElem?_range hj, Option.map_some]

end Pocs.Civic
