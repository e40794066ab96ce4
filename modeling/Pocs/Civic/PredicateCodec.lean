import Pocs.Lib.Reader
import Pocs.Civic.ClassBinding

/-! # Decoding predicates

`decode` of `predicate.rs`. A predicate is decoded from exactly the byte strings that start with its
encoding (`decode_eq_ok`): what follows the last op is not looked at, where `_validateParams` of the
contract checks the length. -/

namespace Pocs.Civic

/-- `match b { .. }` over literal bytes; any other byte is the error. -/
def matchByte {α : Type} (arms : List (UInt8 × α)) (b : UInt8) : Except UInt8 α :=
  okOr ((arms.find? fun arm => arm.1 = b).map (·.2)) b

def TypeTag.tryFrom : UInt8 → Except UInt8 TypeTag :=
  matchByte [(0x01, .int64), (0x02, .hash), (0x03, .bool)]

def Comparator.tryFrom : UInt8 → Except UInt8 Comparator :=
  matchByte [(0x10, .eq), (0x11, .le), (0x12, .ge)]

def OpCode.tryFrom : UInt8 → Except UInt8 OpCode :=
  matchByte [(0x20, .pushTuple), (0x21, .and), (0x22, .or), (0x23, .not), (0xff, .nop)]

namespace PredicateDef

/-- The tuple whose 35 bytes start at `idx`. -/
def decodeTuple (bytes : List UInt8) (idx : Nat) : Except PredicateError Tuple := do
  let claimIndex := bytes.getD idx 0
  let operand := Bytes.resize 32 (slice bytes (idx + 1) 32)
  let typeTag ← mapErr .badTypeTag (TypeTag.tryFrom (bytes.getD (idx + 33) 0))
  let comparator ← mapErr .badComparator (Comparator.tryFrom (bytes.getD (idx + 34) 0))
  pure ⟨claimIndex, operand, typeTag, comparator⟩

/-- The op whose 2 bytes start at `idx`. -/
def decodeOp (bytes : List UInt8) (idx : Nat) : Except PredicateError PredOp := do
  let code ← mapErr .badOpcode (OpCode.tryFrom (bytes.getD idx 0))
  pure ⟨code, bytes.getD (idx + 1) 0⟩

/-- Wire decoding. The length checks come before the reads, so that no index is out of bounds. -/
def decode (bytes : List UInt8) : Except PredicateError PredicateDef := do
  failIf (bytes.length > predicateBytesMax) .tooLarge
  failIf (bytes.length < 2) (.malformed "buffer too short")
  let tupleCount := (bytes.getD 0 0).toNat
  failIf (tupleCount > predicateTupleMax) (.tupleCountOutOfRange tupleCount)
  let expectedTupleBytes := tupleCount * 35
  failIf (bytes.length < 1 + expectedTupleBytes + 1) (.malformed "truncated tuples")
  let tuples ← readRecords (decodeTuple bytes) 35 tupleCount 1
  let idx := 1 + expectedTupleBytes
  let opCount := (bytes.getD idx 0).toNat
  let idx := idx + 1
  let expectedOpBytes := opCount * 2
  failIf (bytes.length < idx + expectedOpBytes) (.malformed "truncated ops")
  let ops ← readRecords (decodeOp bytes) 2 opCount idx
  let p : PredicateDef := ⟨tuples, ops⟩
  p.validate
  pure p

/-- The length the two counts of a byte string announce, which `_validateParams` compares with. -/
def announcedLen (bytes : List UInt8) : Nat :=
  let tupleCount := (bytes.getD 0 0).toNat
  let opOff := 1 + tupleCount * 35
  let opCount := (bytes.getD opOff 0).toNat
  opOff + 1 + opCount * 2

end PredicateDef

/-! ## The parts -/

/-- A match whose arms are the bytes of the values inverts the conversion to bytes. -/
theorem matchByte_eq_ok {α : Type} {arms : List (UInt8 × α)} {toByte : α → UInt8}
    (harms : ∀ arm ∈ arms, arm.1 = toByte arm.2) (hall : ∀ a, matchByte arms (toByte a) = .ok a) {b : UInt8}
    {a : α} : matchByte arms b = .ok a ↔ b = toByte a := by
  constructor
  · intro h
    rw [matchByte, okOr_eq_ok, Option.map_eq_some_iff] at h
    obtain ⟨arm, hfind, rfl⟩ := h
    have hb := List.find?_some hfind
    rw [← harms arm (List.mem_of_find?_eq_some hfind)]
    exact (of_decide_eq_true hb).symm
  · rintro rfl
    exact hall a

theorem TypeTag.tryFrom_eq_ok {b : UInt8} {t : TypeTag} : tryFrom b = .ok t ↔ b = t.toByte :=
  matchByte_eq_ok (by simp [toByte]) fun t => by cases t <;> rfl

theorem Comparator.tryFrom_eq_ok {b : UInt8} {c : Comparator} : tryFrom b = .ok c ↔ b = c.toByte :=
  matchByte_eq_ok (by simp [toByte]) fun c => by cases c <;> rfl

theorem OpCode.tryFrom_eq_ok {b : UInt8} {c : OpCode} : tryFrom b = .ok c ↔ b = c.toByte :=
  matchByte_eq_ok (by simp [toByte]) fun c => by cases c <;> rfl

namespace PredicateDef

section
variable {bytes : List UInt8} {idx : Nat}

theorem decodeTuple_eq_ok {t : Tuple} (h : idx + 35 ≤ bytes.length) :
    decodeTuple bytes idx = .ok t ↔ slice bytes idx 35 = (raw t).bytes := by
  have hcut : slice bytes idx 35 = bytes.getD idx 0 ::
      (slice bytes (idx + 1) 32 ++ [bytes.getD (idx + 33) 0, bytes.getD (idx + 34) 0]) := by
    rw [← slice_append bytes idx 1 34, slice_singleton (by omega), ← slice_append bytes (idx + 1) 32 2,
      ← slice_append bytes (idx + 1 + 32) 1 1, slice_singleton (by omega), slice_singleton (by omega)]
    rfl
  have hoperand : (Bytes.resize 32 (slice bytes (idx + 1) 32)).1 = slice bytes (idx + 1) 32 :=
    Bytes.resize_val (length_slice (by omega))
  simp only [decodeTuple, bind_eq_ok, mapErr_eq_ok, pure_eq_ok, TypeTag.tryFrom_eq_ok, Comparator.tryFrom_eq_ok]
  rw [hcut, raw, RawTuple.bytes, List.cons_append, List.cons.injEq]
  constructor
  · rintro ⟨tag, htag, cmp, hcmp, rfl⟩
    rw [htag, hcmp, hoperand]
    exact ⟨rfl, rfl⟩
  · rintro ⟨hclaim, hrest⟩
    obtain ⟨hop, htail⟩ := List.append_inj hrest ((length_slice (by omega)).trans t.operand.2.symm)
    simp only [List.cons.injEq, and_true] at htail
    refine ⟨t.typeTag, htail.1, t.comparator, htail.2, ?_⟩
    have hopt : Bytes.resize 32 (slice bytes (idx + 1) 32) = t.operand := Subtype.ext (hoperand.trans hop)
    rw [hopt, hclaim]

theorem decodeOp_eq_ok {o : PredOp} (h : idx + 2 ≤ bytes.length) :
    decodeOp bytes idx = .ok o ↔ slice bytes idx 2 = (rawOp o).bytes := by
  have hcut : slice bytes idx 2 = [bytes.getD idx 0, bytes.getD (idx + 1) 0] := by
    rw [← slice_append bytes idx 1 1, slice_singleton (by omega), slice_singleton (by omega)]
    rfl
  simp only [decodeOp, bind_eq_ok, mapErr_eq_ok, pure_eq_ok, OpCode.tryFrom_eq_ok]
  rw [hcut, rawOp, RawOp.bytes, List.cons.injEq, List.cons.injEq]
  constructor
  · rintro ⟨code, hcode, rfl⟩
    exact ⟨hcode, rfl, rfl⟩
  · rintro ⟨hcode, hoperand, -⟩
    exact ⟨o.code, hcode, by rw [hoperand]⟩

end

/-! ## What is decoded -/

section
variable {p : PredicateDef} {bytes : List UInt8}

abbrev wire (p : PredicateDef) : List UInt8 := layout (p.tuples.map raw) (p.ops.map rawOp)

theorem wire_eq (p : PredicateDef) : p.wire = UInt8.ofNat p.tuples.length ::
    (p.tuples.flatMap (fun t => (raw t).bytes) ++
      UInt8.ofNat p.ops.length :: p.ops.flatMap (fun o => (rawOp o).bytes)) := by
  simp [layout, List.flatMap_map]

theorem length_wire (p : PredicateDef) : p.wire.length = p.serializedLen := by
  rw [wire_eq, List.length_cons, List.length_append, List.length_cons,
    length_flatMap_chunk (fun t => (raw t).length_bytes),
    length_flatMap_chunk (fun o => (rawOp o).length_bytes), serializedLen]
  omega

/-- The two counts of a byte string that starts with the wire format. -/
theorem counts_wire (hv : p.Valid) (rest : List UInt8) : ((p.wire ++ rest).getD 0 0).toNat = p.tuples.length ∧
      ((p.wire ++ rest).getD (1 + p.tuples.length * 35) 0).toNat = p.ops.length := by
  have htoNat : ∀ {n : Nat}, n ≤ 20 → (UInt8.ofNat n).toNat = n := fun h => by
    rw [UInt8.toNat_ofNat', Nat.mod_eq_of_lt (by omega)]
  have htlen := length_flatMap_chunk (fun t => (raw t).length_bytes) p.tuples
  constructor
  · rw [wire_eq]
    exact htoNat hv.tuples_le
  · have hslice : slice (p.wire ++ rest) (1 + p.tuples.length * 35) 1 = [UInt8.ofNat p.ops.length] := by
      have hparts : p.wire ++ rest = (UInt8.ofNat p.tuples.length :: p.tuples.flatMap fun t => (raw t).bytes) ++
          ([UInt8.ofNat p.ops.length] ++ (p.ops.flatMap (fun o => (rawOp o).bytes) ++ rest)) := by
        rw [wire_eq, List.cons_append, List.append_assoc]
        rfl
      rw [hparts]
      refine slice_middle ?_ rfl
      rw [List.length_cons, htlen, Nat.add_comm]
    have hlt : 1 + p.tuples.length * 35 < (p.wire ++ rest).length := by
      rw [List.length_append, length_wire, serializedLen]
      omega
    rw [slice_singleton hlt] at hslice
    rw [(List.cons.inj hslice).1]
    exact htoNat hv.ops_le

/-- A predicate is decoded from the byte strings that start with its wire format. -/
theorem decode_eq_ok : decode bytes = .ok p ↔
    bytes.length ≤ predicateBytesMax ∧ p.validate = .ok () ∧ ∃ rest, bytes = p.wire ++ rest := by
  simp only [decode, bind_eq_ok, failIf_eq_ok, exists_const, pure_eq_ok, not_lt]
  constructor
  · rintro ⟨hmax, -, htc, hlen, tuples, htuples, hops, ops, hops', _, hvalid, rfl⟩
    refine ⟨hmax, hvalid, bytes.drop (1 + (bytes.getD 0 0).toNat * 35 + 1 +
      (bytes.getD (1 + (bytes.getD 0 0).toNat * 35) 0).toNat * 2), ?_⟩
    obtain ⟨htlen, htslice⟩ := (readRecords_eq_ok (fun t => (raw t).length_bytes)
      (fun idx a h => decodeTuple_eq_ok h) (by omega)).mp htuples
    obtain ⟨holen, hoslice⟩ := (readRecords_eq_ok (fun o => (rawOp o).length_bytes)
      (fun idx a h => decodeOp_eq_ok h) (by omega)).mp hops'
    generalize hn : (bytes.getD 0 0).toNat = n at *
    generalize hm : (bytes.getD (1 + n * 35) 0).toNat = m at *
    have hn' : UInt8.ofNat n = bytes.getD 0 0 := by rw [← hn, UInt8.ofNat_toNat]
    have hm' : UInt8.ofNat m = bytes.getD (1 + n * 35) 0 := by rw [← hm, UInt8.ofNat_toNat]
    have hcut : slice bytes 0 (1 + n * 35 + 1 + m * 2) = (PredicateDef.mk tuples ops).wire := by
      rw [← slice_append bytes 0 (1 + n * 35 + 1) (m * 2), ← slice_append bytes 0 (1 + n * 35) 1,
        ← slice_append bytes 0 1 (n * 35), slice_singleton (by omega), Nat.zero_add, htslice, Nat.zero_add,
        slice_singleton (by omega), Nat.zero_add, hoslice, wire_eq, htlen, holen, hn', hm']
      simp
    rw [← hcut, slice, List.drop_zero, List.take_append_drop]
  · rintro ⟨hmax, hvalid, rest, rfl⟩
    have hv := valid_of_validate hvalid
    obtain ⟨hcount, hopCount⟩ := counts_wire hv rest
    have hlen : (p.wire ++ rest).length = 1 + p.tuples.length * 35 + 1 + p.ops.length * 2 + rest.length := by
      rw [List.length_append, length_wire, serializedLen]
    have htlen := length_flatMap_chunk (fun t => (raw t).length_bytes) p.tuples
    have holen := length_flatMap_chunk (fun o => (rawOp o).length_bytes) p.ops
    have htuples : readRecords (decodeTuple (p.wire ++ rest)) 35 p.tuples.length 1 = .ok p.tuples := by
      refine (readRecords_eq_ok (fun t => (raw t).length_bytes) (fun idx a h => decodeTuple_eq_ok h)
        (by omega)).mpr ⟨rfl, ?_⟩
      rw [wire_eq, ← List.singleton_append, List.append_assoc, List.append_assoc]
      exact slice_middle rfl htlen
    have hops : readRecords (decodeOp (p.wire ++ rest)) 2 p.ops.length (1 + p.tuples.length * 35 + 1) =
        .ok p.ops := by
      refine (readRecords_eq_ok (fun o => (rawOp o).length_bytes) (fun idx a h => decodeOp_eq_ok h)
        (by omega)).mpr ⟨rfl, ?_⟩
      rw [wire_eq, ← List.cons_append, List.append_cons, List.append_assoc]
      refine slice_middle ?_ holen
      rw [List.length_append, List.length_cons, htlen, List.length_singleton]
      omega
    rw [hcount, hopCount]
    refine ⟨hmax, by omega, hv.tuples_le, by omega, _, htuples, by omega, _, hops, _, hvalid, rfl⟩

theorem encode_eq_ok : p.encode = .ok bytes ↔ p.validate = .ok () ∧ bytes = p.wire := by
  constructor
  · intro h
    have hvalid : p.validate = .ok () := by
      simp only [encode, bind_eq_ok] at h
      obtain ⟨_, hvalid, -⟩ := h
      exact hvalid
    rw [encode_eq hvalid] at h
    exact ⟨hvalid, (Except.ok.inj h).symm⟩
  · rintro ⟨hvalid, rfl⟩
    exact encode_eq hvalid

/-- An encoding is decoded to its predicate, and a byte string that is decoded is the encoding of the
result exactly when it has the length its counts announce. -/
theorem decode_canonical_iff (p : PredicateDef) (bytes : List UInt8) :
    (p.encode = .ok bytes → decode bytes = .ok p) ∧
    (decode bytes = .ok p → (p.encode = .ok bytes ↔ bytes.length = announcedLen bytes)) := by
  constructor
  · intro h
    obtain ⟨hvalid, rfl⟩ := encode_eq_ok.mp h
    have hv := valid_of_validate hvalid
    have htuples := hv.tuples_le
    have hops := hv.ops_le
    refine decode_eq_ok.mpr ⟨?_, hvalid, [], (List.append_nil _).symm⟩
    rw [length_wire, serializedLen, predicateBytesMax]
    omega
  · intro h
    obtain ⟨-, hvalid, rest, rfl⟩ := decode_eq_ok.mp h
    obtain ⟨hcount, hopCount⟩ := counts_wire (valid_of_validate hvalid) rest
    have hlen : announcedLen (p.wire ++ rest) = p.serializedLen := by
      simp only [announcedLen, hcount, hopCount, serializedLen]
    rw [encode_eq_ok, hlen, List.length_append, length_wire, and_iff_right hvalid, List.append_right_eq_self]
    constructor
    · rintro rfl
      rfl
    · intro hrest
      exact List.eq_nil_of_length_eq_zero (by omega)

end

namespace Sample

/-- `attr[0] == 0`. -/
def zeroTest : PredicateDef := ⟨[⟨0, .zero 32, .int64, .eq⟩], [⟨.pushTuple, 0⟩]⟩

theorem zeroTest_valid : zeroTest.validate = .ok () := rfl

end Sample

open Sample

/-- A byte behind the last op is accepted and lost. -/
theorem decode_trailing : decode zeroTest.wire = .ok zeroTest ∧ decode (zeroTest.wire ++ [7]) = .ok zeroTest ∧
      ¬ ∀ (bytes : List UInt8) (p : PredicateDef), decode bytes = .ok p → p.encode = .ok bytes := by
  have hdecode : ∀ rest : List UInt8, rest.length ≤ 1 → decode (zeroTest.wire ++ rest) = .ok zeroTest := by
    intro rest hrest
    refine decode_eq_ok.mpr ⟨?_, zeroTest_valid, rest, rfl⟩
    rw [List.length_append, length_wire]
    exact le_trans (Nat.add_le_add_left hrest _) (by decide)
  have hwire := hdecode [] (Nat.zero_le _)
  rw [List.append_nil] at hwire
  refine ⟨hwire, hdecode [7] (le_refl _), fun h => ?_⟩
  have hlen := congrArg List.length (encode_eq_ok.mp (h _ _ (hdecode [7] (le_refl _)))).2
  rw [List.length_append] at hlen
  exact absurd hlen (Nat.succ_ne_self _)

theorem decode_canonical_iff_zeroTest : zeroTest.wire.length = announcedLen zeroTest.wire := by
  have hencode : zeroTest.encode = .ok zeroTest.wire := encode_eq zeroTest_valid
  obtain ⟨hdecode, hiff⟩ := decode_canonical_iff zeroTest zeroTest.wire
  exact (hiff (hdecode hencode)).mp hencode

end PredicateDef

end Pocs.Civic
