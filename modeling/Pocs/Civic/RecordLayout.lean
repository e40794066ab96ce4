import Pocs.Civic.Contract
import Pocs.Civic.Registry.Disputes

/-! # One record layout

A record is cut into four field elements by `blob.rs`, by the EIP-4844 carrier, by the relayer and by
the batch circuit, and read back by the contract, the registry and the disputant. `Elements` gives the
four numbers in terms of the numbers of the record; every encoder is shown to produce them and every
reader to invert them (`record_layout`). -/

namespace Pocs.Civic

/-! ## Encoders -/

/-- The four field elements of `record` as BN254 scalars. -/
def recordToBlsFields (record : RecordEntry) : List Fr :=
  (List.range fePerRecord).map fun j => frFromBeBytes (fieldElement (encodeRecord record).1 j).1

namespace Eip4844

def bytesPerFieldElement : Nat := 32
def fieldElementsPerBlob : Nat := 4096
def blobBytes : Nat := bytesPerFieldElement * fieldElementsPerBlob

def recordBytes (r : RecordEntry) : List UInt8 :=
  let bytes := copyFromSlice (List.replicate 96 0) 0 r.nullifier.1
  let bytes := copyFromSlice bytes 32 r.identityTag.1
  copyFromSlice bytes 64 (beOfNat 2 r.classTag.toNat)

def writeElement (i : Nat) (recordBytes : List UInt8) (blob : List UInt8) (j : Nat) : List UInt8 :=
  let feIdx := i * fePerRecord + j
  let feOff := feIdx * bytesPerFieldElement
  let blob := blob.set feOff 0
  let srcLo := 31 * j
  let srcHi := min (31 * (j + 1)) 96
  let content := (recordBytes.drop srcLo).take (srcHi - srcLo)
  copyFromSlice blob (feOff + 1) content

def writeRecord (blob : List UInt8) (entry : RecordEntry × Nat) : List UInt8 :=
  (List.range fePerRecord).foldl (writeElement entry.2 (recordBytes entry.1)) blob

/-- `encode_blob`: the 131072 bytes of the blob. -/
def encodeBlob (records : List RecordEntry) : Except BlobError (List UInt8) := do
  failIf (records.length > recordsPerBlob) (.capacity records.length recordsPerBlob)
  pure (records.zipIdx.foldl writeRecord (List.replicate blobBytes 0))

end Eip4844

namespace Noir

structure RecordFields where
  fe0 : Fr
  fe1 : Fr
  fe2 : Fr
  fe3 : Fr

def fieldToBeBytes32 (f : Fr) : List UInt8 := (frToBeBytes f).1

def assembleBlsFe (bytes : List UInt8) : Fr :=
  bytes.foldl (fun acc b => acc * .reduce 256 + .reduce b.toNat) 0

/-- `record_to_fields`; the byte arrays have 31 entries. -/
def recordToFields (nullifier identityTag classTag : Fr) : RecordFields :=
  let nullBytes := fieldToBeBytes32 nullifier
  let idtagBytes := fieldToBeBytes32 identityTag
  let classBytes := fieldToBeBytes32 classTag
  let fe0Bytes := (List.range 31).map fun i => nullBytes.getD i 0
  let fe1Bytes := nullBytes.getD 31 0 :: (List.range 30).map fun i => idtagBytes.getD i 0
  let fe2Bytes := [idtagBytes.getD 30 0, idtagBytes.getD 31 0, classBytes.getD 30 0,
    classBytes.getD 31 0] ++ List.replicate 27 0
  let fe3Bytes := List.replicate 31 0
  ⟨assembleBlsFe fe0Bytes, assembleBlsFe fe1Bytes, assembleBlsFe fe2Bytes, assembleBlsFe fe3Bytes⟩

def RecordFields.toList (f : RecordFields) : List Fr := [f.fe0, f.fe1, f.fe2, f.fe3]

end Noir

def feIndex (i j : Nat) : Nat := (fePerRecord * i + j) % 2 ^ 32

/-- `Disputant::read_record`, with the carrier's `open`. -/
def readRecord (openElement : Bytes32 → Nat → Except BlobError KzgOpening)
    (batchVersionedHash : Bytes32) (position : Nat) :
    Except BlobError (RecordEntry × List KzgOpening) := do
  let o0 ← openElement batchVersionedHash (feIndex position 0)
  let o1 ← openElement batchVersionedHash (feIndex position 1)
  let o2 ← openElement batchVersionedHash (feIndex position 2)
  let o3 ← openElement batchVersionedHash (feIndex position 3)
  let openings := [o0, o1, o2, o3]
  pure (decodeRecord (assembleRecord (openings.map (·.claimedValue))), openings)

/-! ## The numbers of the elements -/

/-- The `j`-th element of a record with nullifier `n`, identity tag `t` and class tag `c`. -/
def elementNat (n t c : Nat) : Nat → Nat
  | 0 => n / 256
  | 1 => n % 256 * 2 ^ 240 + t / 2 ^ 16
  | 2 => t % 2 ^ 16 * 2 ^ 232 + c * 2 ^ 216
  | _ => 0

def RecordEntry.elementNat (r : RecordEntry) : Nat → Nat :=
  Civic.elementNat r.nullifier.toNat r.identityTag.toNat r.classTag.toNat

theorem elementNat_lt {n t c : Nat} (hn : n < 256 ^ 32) (ht : t < 256 ^ 32) (hc : c < 256 ^ 2)
    {j : Nat} (hj : j < 4) : elementNat n t c j < 2 ^ 248 := by
  match j, hj with
  | 0, _ | 1, _ | 2, _ | 3, _ =>
    norm_num [elementNat] at hn ht hc ⊢
    try omega

theorem beToNat_encodeRecord (r : RecordEntry) : beToNat (encodeRecord r).1 =
    ((r.nullifier.toNat * 256 ^ 32 + r.identityTag.toNat) * 256 ^ 2 + r.classTag.toNat) * 256 ^ 30 := by
  have hclass : r.classTag.toNat < 256 ^ 2 := r.classTag.toNat_lt
  have hpad : beToNat (List.replicate 30 0) = 0 := beToNat_replicate_zero 30
  have htag : beToNat (beOfNat 2 r.classTag.toNat) = r.classTag.toNat := by
    rw [beToNat_beOfNat, Nat.mod_eq_of_lt hclass]
  rw [encodeRecord]
  dsimp only
  rw [beToNat_append, beToNat_append, beToNat_append, hpad, htag, r.identityTag.2, length_beOfNat,
    List.length_replicate, Nat.add_zero]
  rfl

theorem slice_encodeRecord {n t c : Nat} (hn : n < 256 ^ 32) (ht : t < 256 ^ 32) (hc : c < 256 ^ 2)
    {j : Nat} (hj : j < 4) :
    ((n * 256 ^ 32 + t) * 256 ^ 2 + c) * 256 ^ 30 / 256 ^ (96 - j * 31 - feTake j) % 256 ^ feTake j *
      256 ^ (31 - feTake j) = elementNat n t c j := by
  match j, hj with
  | 0, _ | 1, _ | 2, _ | 3, _ =>
    norm_num [feTake, contentPerFe, recordLen, elementNat] at hn ht hc ⊢
    omega

theorem toNat_fieldElement (r : RecordEntry) {j : Nat} (hj : j < fePerRecord) :
    (fieldElement (encodeRecord r).1 j).toNat = r.elementNat j := by
  have hlen : (encodeRecord r).1.length = 96 := (encodeRecord r).2
  have htake : feTake j ≤ 31 := by unfold feTake contentPerFe; omega
  have hin : j * contentPerFe + feTake j ≤ (encodeRecord r).1.length := by
    rw [hlen]
    unfold feTake contentPerFe recordLen
    simp only [fePerRecord] at hj
    omega
  have hslen : (feSlice (encodeRecord r).1 j).length = feTake j := by
    rw [feSlice, List.length_take, List.length_drop]
    omega
  have hpad : 32 - (feTake j + 1) = 31 - feTake j := by omega
  rw [fieldElement, Bytes.toNat_resize (by rw [List.length_cons, hslen]; omega), beToNat,
    List.length_cons, hslen, feSlice, beToNat_slice hin, beToNat_encodeRecord, hlen, hpad,
    UInt8.toNat_zero, Nat.zero_mul, Nat.zero_add]
  exact slice_encodeRecord r.nullifier.toNat_lt r.identityTag.toNat_lt r.classTag.toNat_lt hj

theorem recordToBlsFields_eq (r : RecordEntry) :
    recordToBlsFields r = (List.range fePerRecord).map fun j => PrimeField.reduce (r.elementNat j) := by
  apply List.map_congr_left
  intro j hj
  rw [← toNat_fieldElement r (List.mem_range.mp hj)]
  rfl

theorem Noir.assembleBlsFe_eq (bytes : List UInt8) :
    Noir.assembleBlsFe bytes = PrimeField.reduce (beToNat bytes) := foldl_horner bytes

/-- Copying bytes one by one. -/
theorem range_map_getD {bs : List UInt8} {n : Nat} (h : n ≤ bs.length) :
    (List.range n).map (fun i => bs.getD i 0) = bs.take n := by
  apply List.ext_getElem
  · simp [h]
  · intro i h₁ h₂
    simp only [List.getElem_map, List.getElem_range, List.getElem_take]
    rw [List.getD_eq_getElem]

theorem drop_thirty {bs : List UInt8} (h : bs.length = 32) : bs.drop 30 = [bs.getD 30 0, bs.getD 31 0] := by
  apply List.ext_getElem
  · simp [h]
  · intro i h₁ h₂
    simp only [List.length_drop, h] at h₁
    match i, h₁ with
    | 0, _ | 1, _ => simp [h]

theorem drop_thirtyOne {bs : List UInt8} (h : bs.length = 32) : bs.drop 31 = [bs.getD 31 0] := by
  apply List.ext_getElem
  · simp [h]
  · intro i h₁ h₂
    simp only [List.length_drop, h] at h₁
    match i, h₁ with
    | 0, _ => simp [h]

theorem Noir.recordToFields_eq (n t c : Fr) :
    (Noir.recordToFields n t c).toList = (List.range fePerRecord).map fun j =>
      PrimeField.reduce (elementNat n.val t.val (c.val % 2 ^ 16) j) := by
  have hlen : ∀ x : Fr, (frToBeBytes x).1.length = 32 := fun x => (frToBeBytes x).2
  have hval : ∀ x : Fr, beToNat (frToBeBytes x).1 = x.val := toNat_frToBeBytes
  have hhead : ∀ (x : Fr) k, beToNat ((frToBeBytes x).1.take k) = x.val / 256 ^ (32 - k) := by
    intro x k
    rw [(beToNat_take_drop _ k).1, hlen, hval]
  have htail : ∀ (x : Fr) k, beToNat ((frToBeBytes x).1.drop k) = x.val % 256 ^ (32 - k) := by
    intro x k
    rw [(beToNat_take_drop _ k).2, hlen, hval]
  have hfe0 : beToNat ((List.range 31).map fun i => (frToBeBytes n).1.getD i 0) = n.val / 256 := by
    rw [range_map_getD (by rw [hlen]; decide), hhead, Nat.pow_one]
  have hfe1 : beToNat ((frToBeBytes n).1.getD 31 0 :: (List.range 30).map fun i => (frToBeBytes t).1.getD i 0) =
        n.val % 256 * 2 ^ 240 + t.val / 2 ^ 16 := by
    rw [range_map_getD (by rw [hlen]; decide), ← List.singleton_append, ← drop_thirtyOne (hlen n),
      beToNat_append, hhead, htail, List.length_take, hlen]
    norm_num
  have hfe2 : beToNat ([(frToBeBytes t).1.getD 30 0, (frToBeBytes t).1.getD 31 0,
      (frToBeBytes c).1.getD 30 0, (frToBeBytes c).1.getD 31 0] ++ List.replicate 27 0) =
        t.val % 2 ^ 16 * 2 ^ 232 + c.val % 2 ^ 16 * 2 ^ 216 := by
    have hsplit : [(frToBeBytes t).1.getD 30 0, (frToBeBytes t).1.getD 31 0,
        (frToBeBytes c).1.getD 30 0, (frToBeBytes c).1.getD 31 0] =
          (frToBeBytes t).1.drop 30 ++ (frToBeBytes c).1.drop 30 := by
      rw [drop_thirty (hlen t), drop_thirty (hlen c)]
      rfl
    rw [hsplit, beToNat_append, beToNat_append, htail, htail, beToNat_replicate_zero, List.length_drop,
      hlen, List.length_replicate]
    norm_num
    ring
  have hfe3 : beToNat (List.replicate 31 0) = 0 := beToNat_replicate_zero 31
  simp only [Noir.recordToFields, Noir.RecordFields.toList, Noir.assembleBlsFe_eq,
    Noir.fieldToBeBytes32, hfe0, hfe1, hfe2, hfe3]
  rfl

/-! ## The contract's readers -/

/-- The field elements of a record. -/
def elementsOf (r : RecordEntry) : List Bytes32 :=
  (List.range fePerRecord).map (fieldElement (encodeRecord r).1)

namespace Solidity
variable {r : RecordEntry} {before after : List UInt8}

theorem read32_elementsOf {j : Nat} (hj : j < fePerRecord) :
    read32 (before ++ (elementsOf r).flatMap (·.1) ++ after) (before.length + j * 32) =
      fieldElement (encodeRecord r).1 j := by
  apply Bytes.resize_eq
  have hget : (elementsOf r)[j]? = some (fieldElement (encodeRecord r).1 j) := by
    rw [elementsOf, List.getElem?_map, List.getElem?_range hj, Option.map_some]
  rw [List.append_assoc, ← List.drop_drop, List.drop_left]
  exact slice_flatMap_chunk (fun b : Bytes32 => b.2) hget after

theorem contentOf_eq (y : Bytes32) : contentOf y = y.toNat % 2 ^ 248 := by
  rw [contentOf, Nat.one_shiftLeft, Nat.and_two_pow_sub_one_eq_mod]

theorem contentOf_fieldElement {j : Nat} (hj : j < fePerRecord) :
    contentOf (fieldElement (encodeRecord r).1 j) = r.elementNat j := by
  rw [contentOf_eq, toNat_fieldElement r hj]
  exact Nat.mod_eq_of_lt (elementNat_lt r.nullifier.toNat_lt r.identityTag.toNat_lt r.classTag.toNat_lt hj)

/-- Joining two parts of a word. -/
theorem shiftLeft_or {a b k : Nat} (ha : a * 2 ^ k < 2 ^ 256) (hb : b < 2 ^ k) :
    (a <<< k) % 2 ^ 256 ||| b = a * 2 ^ k + b := by
  rw [Nat.shiftLeft_eq, Nat.mod_eq_of_lt ha, ← Nat.shiftLeft_eq, Nat.shiftLeft_add_eq_or_of_lt hb]

theorem shiftRight_and (x k m : Nat) : (x >>> k) &&& (2 ^ m - 1) = x / 2 ^ k % 2 ^ m := by
  rw [Nat.and_two_pow_sub_one_eq_mod, Nat.shiftRight_eq_div_pow]

/-- The last byte of the nullifier is the first content byte of the second element. -/
theorem nullifier_arith {n t : Nat} (hn : n < 256 ^ 32) (ht : t < 256 ^ 32) :
    (((n / 256) <<< 8) % 2 ^ 256 ||| ((n % 256 * 2 ^ 240 + t / 2 ^ 16) >>> (30 * 8)) &&& 0xff) = n := by
  have hlast : ((n % 256 * 2 ^ 240 + t / 2 ^ 16) >>> (30 * 8)) &&& 0xff = n % 256 := by
    rw [show (0xff : Nat) = 2 ^ 8 - 1 from rfl, shiftRight_and]
    norm_num at ht ⊢
    omega
  rw [hlast, shiftLeft_or]
  · omega
  · norm_num at hn ⊢
    omega
  · omega

/-- The identity tag is split after its thirtieth byte. -/
theorem identityTag_arith {n t c : Nat} (ht : t < 256 ^ 32) (hc : c < 256 ^ 2) :
    (((n % 256 * 2 ^ 240 + t / 2 ^ 16) &&& ((1 <<< (30 * 8)) - 1)) <<< 16) % 2 ^ 256 |||
      ((t % 2 ^ 16 * 2 ^ 232 + c * 2 ^ 216) >>> (29 * 8)) &&& 0xffff = t := by
  have hbody : (n % 256 * 2 ^ 240 + t / 2 ^ 16) &&& ((1 <<< (30 * 8)) - 1) = t / 2 ^ 16 := by
    rw [Nat.one_shiftLeft, Nat.and_two_pow_sub_one_eq_mod]
    norm_num at ht ⊢
    omega
  have hlast : ((t % 2 ^ 16 * 2 ^ 232 + c * 2 ^ 216) >>> (29 * 8)) &&& 0xffff = t % 2 ^ 16 := by
    rw [show (0xffff : Nat) = 2 ^ 16 - 1 from rfl, shiftRight_and]
    norm_num at hc ⊢
    omega
  rw [hbody, hlast, shiftLeft_or]
  · omega
  · norm_num at ht ⊢
    omega
  · omega

theorem classTag_arith {t c : Nat} (hc : c < 256 ^ 2) :
    ((t % 2 ^ 16 * 2 ^ 232 + c * 2 ^ 216) >>> (27 * 8)) &&& 0xffff = c := by
  rw [show (0xffff : Nat) = 2 ^ 16 - 1 from rfl, shiftRight_and]
  norm_num at hc ⊢
  omega

section
variable (r : RecordEntry) (before after : List UInt8)

/-- What the contract reads at the three elements that carry content. -/
theorem contents_elementsOf : let blob := before ++ (elementsOf r).flatMap (·.1) ++ after
    contentOf (read32 blob before.length) = r.elementNat 0 ∧
      contentOf (read32 blob (before.length + 32)) = r.elementNat 1 ∧
      contentOf (read32 blob (before.length + 2 * 32)) = r.elementNat 2 := by
  have h : ∀ j < fePerRecord, contentOf (read32 (before ++ (elementsOf r).flatMap (·.1) ++ after)
      (before.length + j * 32)) = r.elementNat j := by
    intro j hj
    rw [read32_elementsOf hj, contentOf_fieldElement hj]
  exact ⟨h 0 (by decide), h 1 (by decide), h 2 (by decide)⟩

theorem reconstructNullifier_elementsOf :
    reconstructNullifier (before ++ (elementsOf r).flatMap (·.1) ++ after) before.length = r.nullifier := by
  obtain ⟨h0, h1, -⟩ := contents_elementsOf r before after
  have hn := r.nullifier.toNat_lt
  have harith := nullifier_arith hn r.identityTag.toNat_lt
  apply Bytes.toNat_inj
  simp only [reconstructNullifier, h0, h1, RecordEntry.elementNat, elementNat, harith, Bytes.toNat_ofNat]
  exact Nat.mod_eq_of_lt hn

theorem reconstructIdentityTag_elementsOf :
    reconstructIdentityTag (before ++ (elementsOf r).flatMap (·.1) ++ after) before.length = r.identityTag := by
  obtain ⟨-, h1, h2⟩ := contents_elementsOf r before after
  have ht := r.identityTag.toNat_lt
  have harith := @identityTag_arith r.nullifier.toNat _ _ ht r.classTag.toNat_lt
  apply Bytes.toNat_inj
  simp only [reconstructIdentityTag, h1, h2, RecordEntry.elementNat, elementNat, harith, Bytes.toNat_ofNat]
  exact Nat.mod_eq_of_lt ht

theorem decodeRecordClassTag_elementsOf :
    decodeRecordClassTag (before ++ (elementsOf r).flatMap (·.1) ++ after) before.length = r.classTag := by
  obtain ⟨-, -, h2⟩ := contents_elementsOf r before after
  have harith := @classTag_arith r.identityTag.toNat _ r.classTag.toNat_lt
  simp only [decodeRecordClassTag, h2, RecordEntry.elementNat, elementNat, harith]
  exact UInt16.ofNat_toNat

end

end Solidity

open Solidity

/-! ## The EIP-4844 encoder -/

namespace Eip4844

/-- A blob is written from left to right over zeros. -/
theorem recordBytes_eq (r : RecordEntry) : recordBytes r = (encodeRecord r).1 := by
  have hn := copyFromSlice_zeros [] r.nullifier.1 96
  have ht := copyFromSlice_zeros ([] ++ r.nullifier.1) r.identityTag.1 64
  have hc := copyFromSlice_zeros ([] ++ r.nullifier.1 ++ r.identityTag.1) (beOfNat 2 r.classTag.toNat) 32
  simp only [List.nil_append, List.length_append, List.length_nil, r.nullifier.2, r.identityTag.2,
    length_beOfNat, Nat.reduceSub, Nat.reduceAdd] at hn ht hc
  rw [recordBytes, hn, ht, hc]
  rfl

theorem writeElement_eq {i j m : Nat} {before : List UInt8} (r : RecordEntry)
    (hbefore : before.length = (i * fePerRecord + j) * 32) (hm : 32 ≤ m) :
    writeElement i (recordBytes r) (before ++ List.replicate m 0) j =
      before ++ (fieldElement (encodeRecord r).1 j).1 ++ List.replicate (m - 32) 0 := by
  have hcontent : ((encodeRecord r).1.drop (31 * j)).take (min (31 * (j + 1)) 96 - 31 * j) =
      feSlice (encodeRecord r).1 j := by
    simp only [feSlice, feTake, contentPerFe, recordLen, Nat.mul_comm]
  have hlen : (feSlice (encodeRecord r).1 j).length ≤ 31 := by
    rw [feSlice, List.length_take]
    unfold feTake contentPerFe
    omega
  have hzero : (before ++ List.replicate m 0).set before.length 0 =
      (before ++ [0]) ++ List.replicate (m - 1) (0 : UInt8) := by
    obtain ⟨m, rfl⟩ : ∃ k, m = k + 1 := ⟨m - 1, by omega⟩
    rw [List.set_append_right _ _ (Nat.le_refl _), Nat.sub_self, List.replicate_succ, List.set_cons_zero,
      List.append_assoc]
    rfl
  have hcopy := copyFromSlice_zeros (before ++ [0]) (feSlice (encodeRecord r).1 j) (m - 1)
  have helement : (fieldElement (encodeRecord r).1 j).1 = 0 :: feSlice (encodeRecord r).1 j ++
      List.replicate (31 - (feSlice (encodeRecord r).1 j).length) 0 := by
    simp only [fieldElement, Bytes.resize, List.length_cons, List.take_succ_cons, List.take_of_length_le hlen]
    congr 2
    omega
  have hfill : List.replicate (m - 1 - (feSlice (encodeRecord r).1 j).length) (0 : UInt8) =
      List.replicate (31 - (feSlice (encodeRecord r).1 j).length) 0 ++ List.replicate (m - 32) 0 := by
    rw [List.replicate_append_replicate]
    congr 1
    omega
  simp only [writeElement, recordBytes_eq, hcontent, bytesPerFieldElement, ← hbefore, hzero]
  rw [List.length_append, List.length_singleton] at hcopy
  rw [hcopy, helement, hfill]
  simp only [List.append_assoc, List.cons_append, List.nil_append]

/-- The elements written so far are followed by zeros. -/
theorem foldl_writeElement {i k m : Nat} {before : List UInt8} (r : RecordEntry)
    (hk : k ≤ fePerRecord) (hbefore : before.length = i * fePerRecord * 32) (hm : k * 32 ≤ m) :
    (List.range k).foldl (writeElement i (recordBytes r)) (before ++ List.replicate m 0) =
      before ++ ((List.range k).map (fieldElement (encodeRecord r).1)).flatMap (·.1) ++
        List.replicate (m - k * 32) 0 := by
  induction k with
  | zero => simp
  | succ k ih =>
    have hlen : (before ++ ((List.range k).map (fieldElement (encodeRecord r).1)).flatMap (·.1)).length =
        (i * fePerRecord + k) * 32 := by
      rw [List.length_append, length_flatMap_chunk fun b : Bytes32 => b.2, List.length_map,
        List.length_range, hbefore, Nat.add_mul]
    rw [List.range_succ, List.foldl_append, ih (by omega) (by omega), List.foldl_cons, List.foldl_nil,
      writeElement_eq r hlen (by omega), List.map_append, List.flatMap_append]
    have hrest : m - k * 32 - 32 = m - (k + 1) * 32 := by omega
    simp only [List.map_cons, List.map_nil, List.flatMap_cons, List.flatMap_nil, List.append_nil,
      List.append_assoc, hrest]

theorem foldl_writeRecord {records : List RecordEntry} {i m : Nat} {before : List UInt8}
    (hbefore : before.length = i * fePerRecord * 32) (hm : records.length * (fePerRecord * 32) ≤ m) :
    (records.zipIdx i).foldl writeRecord (before ++ List.replicate m 0) =
      before ++ (records.flatMap elementsOf).flatMap (·.1) ++
        List.replicate (m - records.length * (fePerRecord * 32)) 0 := by
  induction records generalizing i m before with
  | nil => simp
  | cons r records ih =>
    rw [List.length_cons, Nat.succ_mul] at hm
    have hone : writeRecord (before ++ List.replicate m 0) (r, i) =
        before ++ (elementsOf r).flatMap (·.1) ++ List.replicate (m - fePerRecord * 32) 0 :=
      foldl_writeElement r (Nat.le_refl _) hbefore (by omega)
    have hlen : (before ++ (elementsOf r).flatMap (·.1)).length = (i + 1) * fePerRecord * 32 := by
      rw [List.length_append, length_flatMap_chunk fun b : Bytes32 => b.2, hbefore, elementsOf,
        List.length_map, List.length_range, ← Nat.add_mul, Nat.succ_mul]
    rw [List.zipIdx_cons, List.foldl_cons, hone, ih hlen (by omega), List.flatMap_cons,
      List.flatMap_append, List.length_cons, Nat.succ_mul, Nat.sub_sub]
    simp only [List.append_assoc, Nat.add_comm]

/-- The blob holds the elements of its records at the record positions. -/
theorem encodeBlob_slice {records : List RecordEntry} {blob : List UInt8}
    (h : encodeBlob records = .ok blob) {i : Nat} {r : RecordEntry} (hr : records[i]? = some r)
    {j : Nat} (hj : j < fePerRecord) :
    (blob.drop ((i * fePerRecord + j) * 32)).take 32 = (fieldElement (encodeRecord r).1 j).1 := by
  simp only [encodeBlob, bind_eq_ok, failIf_eq_ok, pure_eq_ok, not_lt] at h
  obtain ⟨-, hlen, rfl⟩ := h
  have hroom : records.length * (fePerRecord * 32) ≤ blobBytes := by
    simp only [recordsPerBlob, fePerRecord, blobBytes, bytesPerFieldElement, fieldElementsPerBlob] at hlen ⊢
    omega
  have hblob := @foldl_writeRecord records 0 blobBytes [] (by simp) hroom
  rw [List.nil_append, List.nil_append] at hblob
  rw [hblob]
  have hget : (records.flatMap elementsOf)[i * fePerRecord + j]? =
      some (fieldElement (encodeRecord r).1 j) := by
    rw [getElem?_flatMap_chunk (n := fePerRecord) (fun r => by simp [elementsOf]) records i hj, hr,
      Option.bind_some, elementsOf, List.getElem?_map, List.getElem?_range hj, Option.map_some]
  exact slice_flatMap_chunk (fun b : Bytes32 => b.2) hget _

end Eip4844

/-! ## The registry and the disputant -/

def openingsAt (os : List KzgOpening) (idx : Nat) : List KzgOpening :=
  os.filter fun o => o.fieldElementIndex = idx

/-- Openings with no second one of an offset are all placed. -/
theorem exists_placeAll {base : Nat} {os : List KzgOpening} {l : List (Option KzgOpening)} (hlen : l.length = 4)
    (hone : ∀ off < 4, ((l.getD off none).toList ++ openingsAt os (base + off)).length ≤ 1) :
    ∃ l', os.foldlM (placeOpening base) l = some l' ∧ l'.length = 4 ∧
      ∀ off < 4, (l'.getD off none).toList = (l.getD off none).toList ++ openingsAt os (base + off) := by
  induction os generalizing l with
  | nil => exact ⟨l, rfl, hlen, fun off _ => by simp [openingsAt]⟩
  | cons o os ih =>
    have hcons : ∀ off, openingsAt (o :: os) (base + off) =
        if o.fieldElementIndex = base + off then o :: openingsAt os (base + off)
        else openingsAt os (base + off) := by
      intro off
      simp [openingsAt, List.filter_cons]
    by_cases hin : base ≤ o.fieldElementIndex ∧ o.fieldElementIndex - base < 4
    · -- the offset of this opening is free, and takes it
      set off₀ := o.fieldElementIndex - base with hoff₀
      have hidx : o.fieldElementIndex = base + off₀ := by omega
      have hfree : l.getD off₀ none = none := by
        have h := hone off₀ hin.2
        rw [hcons, if_pos hidx, List.length_append, List.length_cons] at h
        cases hl : l.getD off₀ none with
        | none => rfl
        | some x =>
          rw [hl, Option.toList_some, List.length_singleton] at h
          omega
      have hplace : placeOpening base l o = some (l.set off₀ (some o)) := by
        rw [placeOpening, if_pos hin]
        dsimp only
        rw [← hoff₀, hfree]
        rfl
      have hmove : ∀ off, ((l.set off₀ (some o)).getD off none).toList ++ openingsAt os (base + off) =
          (l.getD off none).toList ++ openingsAt (o :: os) (base + off) := by
        intro off
        rw [hcons]
        by_cases hoff : off₀ = off
        · rw [if_pos (by rw [hidx, hoff]), ← hoff, hfree, List.getD_eq_getElem?_getD,
            List.getElem?_set_self (by omega)]
          rfl
        · rw [if_neg (by omega), List.getD_eq_getElem?_getD, List.getElem?_set_ne hoff,
            List.getD_eq_getElem?_getD]
      obtain ⟨l', hl', hlen', hslots⟩ := @ih (l.set off₀ (some o)) (by rw [List.length_set, hlen])
        (fun off hoff => by rw [hmove]; exact hone off hoff)
      refine ⟨l', ?_, hlen', fun off hoff => ?_⟩
      · rw [List.foldlM_cons, hplace]
        exact hl'
      · rw [hslots off hoff, hmove]
    · have hplace : placeOpening base l o = some l := by rw [placeOpening, if_neg hin]
      have hskip : ∀ off < 4, openingsAt (o :: os) (base + off) = openingsAt os (base + off) := by
        intro off hoff
        rw [hcons, if_neg (by omega)]
      obtain ⟨l', hl', hlen', hslots⟩ := ih hlen fun off hoff => by
        rw [← hskip off hoff]
        exact hone off hoff
      refine ⟨l', ?_, hlen', fun off hoff => ?_⟩
      · rw [List.foldlM_cons, hplace]
        exact hl'
      · rw [hslots off hoff, hskip off hoff]

theorem decodeRecord_elementsOf (r : RecordEntry) : decodeRecord (assembleRecord (elementsOf r)) = r := by
  rw [elementsOf, assembleRecord_fieldElements, decodeRecord_encodeRecord]

/-- The field elements of position `i` are opened once each, with the values of the record. -/
def OpensOnce (os : List KzgOpening) (i : Nat) (r : RecordEntry) : Prop :=
  ∀ j < fePerRecord, ∃ o, openingsAt os (i * 4 + j) = [o] ∧ o.claimedValue = fieldElement (encodeRecord r).1 j

theorem deriveEvidence_of_opensOnce {d : Dispute} {i : Nat} {r : RecordEntry}
    (hi : i < recordsPerBlob) (h : OpensOnce d.openings i r) : deriveEvidence d i = some r := by
  have hpos : i * 4 + 3 < recordsPerBlob * fePerRecord := by
    simp only [recordsPerBlob, fePerRecord] at hi ⊢
    omega
  have hsmall : recordsPerBlob * fePerRecord < 2 ^ 32 := by decide
  have hnone : ∀ off < 4, (List.replicate 4 (none : Option KzgOpening)).getD off none = none := by
    decide
  obtain ⟨l, hl, hlen, hslots⟩ := @exists_placeAll (i * 4) d.openings (List.replicate 4 none) rfl
    fun off hoff => by
      obtain ⟨o, ho, -⟩ := h off hoff
      rw [ho, hnone off hoff]
      exact Nat.le_refl 1
  obtain ⟨o, ho⟩ := Classical.axiomOfChoice fun j : Fin 4 => h j.val j.isLt
  have hget : ∀ j : Fin 4, l.getD j.val none = some (o j) := by
    intro j
    have hj := hslots j.val j.isLt
    rw [(ho j).1, hnone j.val j.isLt] at hj
    exact Option.toList_eq_singleton_iff.mp hj
  have hall : l = [some (o 0), some (o 1), some (o 2), some (o 3)] := by
    obtain ⟨a, l₁, rfl⟩ := List.exists_cons_of_length_eq_add_one hlen
    obtain ⟨b, c, d, rfl⟩ := List.length_eq_three.mp (Nat.succ.inj hlen)
    exact congr (congrArg _ (hget 0)) (congr (congrArg _ (hget 1))
      (congr (congrArg _ (hget 2)) (congrArg (· :: []) (hget 3))))
  have hvalues : [o 0, o 1, o 2, o 3].map (·.claimedValue) = elementsOf r := by
    simp only [List.map_cons, List.map_nil, (ho _).2]
    rfl
  have hbase : checkedMul 32 i 4 = some (i * 4) := checkedMul_eq_some.mpr ⟨by omega, rfl⟩
  have hlast : checkedAdd 32 (i * 4) 3 = some (i * 4 + 3) := checkedAdd_eq_some.mpr ⟨by omega, rfl⟩
  have hmap : l.mapM id = some [o 0, o 1, o 2, o 3] := by
    rw [hall]
    rfl
  simp only [deriveEvidence, hbase, hlast, Option.bind_eq_bind, Option.bind_some, hl, hmap, hvalues,
    decodeRecord_elementsOf, guard, if_pos hpos]
  rfl

theorem readRecord_of_elements {openElement : Bytes32 → Nat → Except BlobError KzgOpening}
    {vh : Bytes32} {i : Nat} {r : RecordEntry} (hi : i < recordsPerBlob)
    (h : ∀ j < fePerRecord, ∃ o, openElement vh (i * 4 + j) = .ok o ∧
      o.claimedValue = fieldElement (encodeRecord r).1 j) :
    ∃ openings, readRecord openElement vh i = .ok (r, openings) := by
  have hidx : ∀ j < fePerRecord, feIndex i j = i * 4 + j := by
    intro j hj
    simp only [recordsPerBlob, fePerRecord] at hi hj
    rw [feIndex, fePerRecord, Nat.mod_eq_of_lt (by omega), Nat.mul_comm]
  obtain ⟨o, ho⟩ := Classical.axiomOfChoice fun j : Fin 4 => h j.val j.isLt
  have hopen : ∀ j : Fin 4, openElement vh (feIndex i j.val) = .ok (o j) := by
    intro j
    rw [hidx j.val j.isLt, (ho j).1]
  have hvalues : [o 0, o 1, o 2, o 3].map (·.claimedValue) = elementsOf r := by
    simp only [List.map_cons, List.map_nil, (ho _).2]
    rfl
  refine ⟨[o 0, o 1, o 2, o 3], ?_⟩
  have h0 : openElement vh (feIndex i 0) = .ok (o 0) := hopen 0
  have h1 : openElement vh (feIndex i 1) = .ok (o 1) := hopen 1
  have h2 : openElement vh (feIndex i 2) = .ok (o 2) := hopen 2
  have h3 : openElement vh (feIndex i 3) = .ok (o 3) := hopen 3
  simp only [readRecord, h0, h1, h2, h3, ok_bind, hvalues, decodeRecord_elementsOf]
  rfl

/-! ## All of them -/

theorem recordToFields_of_canonical {r : RecordEntry} (hn : r.nullifier.toNat < bn254)
    (ht : r.identityTag.toNat < bn254) :
    (Noir.recordToFields (frFromBeBytes r.nullifier.1) (frFromBeBytes r.identityTag.1)
      (Scalar.ofNat r.classTag.toNat)).toList = recordToBlsFields r := by
  have hc : r.classTag.toNat < 2 ^ 16 := r.classTag.toNat_lt
  have hcv : (Scalar.ofNat r.classTag.toNat : Fr).val = r.classTag.toNat :=
    Nat.mod_eq_of_lt (hc.trans (by decide))
  have hnv : (frFromBeBytes r.nullifier.1).val = r.nullifier.toNat := Nat.mod_eq_of_lt hn
  have htv : (frFromBeBytes r.identityTag.1).val = r.identityTag.toNat := Nat.mod_eq_of_lt ht
  rw [Noir.recordToFields_eq, recordToBlsFields_eq, hnv, htv, hcv, Nat.mod_eq_of_lt hc]
  rfl

/-- The elements determine the nullifier and the identity tag. -/
theorem elementNat_inj {n t c n' t' c' : Nat} (ht : t < 256 ^ 32) (ht' : t' < 256 ^ 32)
    (hc : c < 256 ^ 2) (hc' : c' < 256 ^ 2)
    (h : ∀ j < 4, elementNat n t c j = elementNat n' t' c' j) : n = n' ∧ t = t' := by
  have h0 := h 0 (by decide)
  have h1 := h 1 (by decide)
  have h2 := h 2 (by decide)
  norm_num [elementNat] at ht ht' hc hc' h0 h1 h2
  omega

/-- The circuit recomputes the elements of a record from its scalars exactly when the bytes of its
nullifier and of its identity tag are canonical. -/
theorem recordToFields_eq_iff {r : RecordEntry} :
    (Noir.recordToFields (frFromBeBytes r.nullifier.1) (frFromBeBytes r.identityTag.1)
      (Scalar.ofNat r.classTag.toNat)).toList = recordToBlsFields r ↔
      r.nullifier.toNat < bn254 ∧ r.identityTag.toNat < bn254 := by
  refine ⟨fun h => ?_, fun h => recordToFields_of_canonical h.1 h.2⟩
  rw [Noir.recordToFields_eq, recordToBlsFields_eq] at h
  have hc : r.classTag.toNat < 256 ^ 2 := r.classTag.toNat_lt
  have hsmall : ∀ x : Fr, x.val < 256 ^ 32 := fun x => x.isLt.trans (by decide)
  have hclass : (Scalar.ofNat r.classTag.toNat : Fr).val % 2 ^ 16 < 256 ^ 2 :=
    Nat.mod_lt _ (by decide)
  have heq : ∀ j < 4, elementNat (frFromBeBytes r.nullifier.1).val (frFromBeBytes r.identityTag.1).val
      ((Scalar.ofNat r.classTag.toNat : Fr).val % 2 ^ 16) j = r.elementNat j := by
    intro j hj
    have hj' := congrArg (fun l => l[j]?) h
    simp only [List.getElem?_map, List.getElem?_range (show j < fePerRecord from hj), Option.map_some,
      Option.some.injEq] at hj'
    have hlt := elementNat_lt (hsmall (frFromBeBytes r.nullifier.1))
      (hsmall (frFromBeBytes r.identityTag.1)) hclass hj
    have hlt' := elementNat_lt r.nullifier.toNat_lt r.identityTag.toNat_lt hc hj
    have hp : 2 ^ 248 < bn254 := by decide
    exact PrimeField.reduce_inj (hlt.trans hp) (hlt'.trans hp) hj'
  obtain ⟨hn, ht⟩ := elementNat_inj (hsmall _) r.identityTag.toNat_lt hclass hc heq
  exact ⟨hn ▸ (frFromBeBytes r.nullifier.1).isLt, ht ▸ (frFromBeBytes r.identityTag.1).isLt⟩

/-- The scalars of the elements are the elements. -/
theorem map_frToBeBytes_recordToBlsFields (r : RecordEntry) :
    (recordToBlsFields r).map frToBeBytes = elementsOf r := by
  rw [recordToBlsFields, List.map_map, elementsOf]
  apply List.map_congr_left
  intro j hj
  have hlt := elementNat_lt r.nullifier.toNat_lt r.identityTag.toNat_lt r.classTag.toNat_lt
    (List.mem_range.mp hj)
  apply frToBeBytes_frFromBeBytes
  rw [toNat_fieldElement r (List.mem_range.mp hj)]
  exact hlt.trans (by decide)

/-- At every position the encoders produce the same four elements, and every reader gets the record
back from them. -/
theorem record_layout {records : List RecordEntry} (hlen : records.length ≤ recordsPerBlob) {i : Nat}
    {r : RecordEntry} (hr : records[i]? = some r) (hn : r.nullifier.toNat < bn254)
    (ht : r.identityTag.toNat < bn254) :
    (∃ fes blob, encodeBlob records = .ok fes ∧ Eip4844.encodeBlob records = .ok blob ∧
      ∀ j < fePerRecord, ∃ fe : Bytes32, fes[i * fePerRecord + j]? = some fe ∧
        (blob.drop ((i * fePerRecord + j) * 32)).take 32 = fe.1 ∧
        ((recordToBlsFields r).map frToBeBytes)[j]? = some fe ∧
        ((Noir.recordToFields (frFromBeBytes r.nullifier.1) (frFromBeBytes r.identityTag.1)
          (Scalar.ofNat r.classTag.toNat)).toList.map frToBeBytes)[j]? = some fe ∧
        (elementsOf r)[j]? = some fe) ∧
    (∀ before after, let openingsBlob := before ++ (elementsOf r).flatMap (·.1) ++ after
      reconstructNullifier openingsBlob before.length = r.nullifier ∧
      reconstructIdentityTag openingsBlob before.length = r.identityTag ∧
      decodeRecordClassTag openingsBlob before.length = r.classTag) ∧
    (∀ d : Dispute, OpensOnce d.openings i r → deriveEvidence d i = some r) ∧
    ∀ openElement vh, (∀ j < fePerRecord, ∃ o, openElement vh (i * 4 + j) = .ok o ∧
      (elementsOf r)[j]? = some o.claimedValue) →
      ∃ openings, readRecord openElement vh i = .ok (r, openings) := by
  have hi : i < recordsPerBlob := (List.getElem?_eq_some_iff.mp hr).1.trans_le hlen
  have hat : ∀ j < fePerRecord, (elementsOf r)[j]? = some (fieldElement (encodeRecord r).1 j) := by
    intro j hj
    rw [elementsOf, List.getElem?_map, List.getElem?_range hj, Option.map_some]
  have hfes : encodeBlob records = .ok (blobElements records) := encodeBlob_eq_ok.mpr ⟨hlen, rfl⟩
  have hblob : ∃ blob, Eip4844.encodeBlob records = .ok blob := by
    simp only [Eip4844.encodeBlob, failIf, if_neg (not_lt.mpr hlen)]
    exact ⟨_, rfl⟩
  obtain ⟨blob, hblob⟩ := hblob
  refine ⟨⟨blobElements records, blob, hfes, hblob, fun j hj => ⟨fieldElement (encodeRecord r).1 j,
    ?_, Eip4844.encodeBlob_slice hblob hr hj, ?_, ?_, hat j hj⟩⟩, fun before after => ⟨?_, ?_, ?_⟩,
    fun d hd => deriveEvidence_of_opensOnce hi hd, fun openElement vh h => ?_⟩
  · rw [encodeBlob_getElem? hfes hi hj, recordBytesAt, hr]
  · rw [map_frToBeBytes_recordToBlsFields, hat j hj]
  · rw [recordToFields_of_canonical hn ht, map_frToBeBytes_recordToBlsFields, hat j hj]
  · exact reconstructNullifier_elementsOf r before after
  · exact reconstructIdentityTag_elementsOf r before after
  · exact decodeRecordClassTag_elementsOf r before after
  · apply readRecord_of_elements hi
    intro j hj
    obtain ⟨o, ho, hval⟩ := h j hj
    exact ⟨o, ho, (Option.some.inj ((hat j hj).symm.trans hval)).symm⟩

/-- The second of two records, behind the openings of the first. -/
theorem record_layout_two : ∃ fes, encodeBlob [Sample.record 5 6, Sample.record 9 10] = .ok fes ∧
    (∀ j < fePerRecord, fes[1 * fePerRecord + j]? = (elementsOf (Sample.record 9 10))[j]?) ∧
    let first := (elementsOf (Sample.record 5 6)).flatMap (·.1)
    let openingsBlob := first ++ (elementsOf (Sample.record 9 10)).flatMap (·.1) ++ []
    reconstructNullifier openingsBlob first.length = (Sample.record 9 10).nullifier ∧
      reconstructIdentityTag openingsBlob first.length = (Sample.record 9 10).identityTag ∧
      decodeRecordClassTag openingsBlob first.length = (Sample.record 9 10).classTag := by
  have htwo : [Sample.record 5 6, Sample.record 9 10][1]? = some (Sample.record 9 10) := rfl
  obtain ⟨⟨fes, _, hfes, -, hat⟩, hread, -, -⟩ :=
    record_layout (by decide) htwo (by decide +kernel) (by decide +kernel)
  refine ⟨fes, hfes, fun j hj => ?_, hread _ []⟩
  obtain ⟨fe, hfe, -, -, -, helement⟩ := hat j hj
  rw [hfe, helement]

end Pocs.Civic
