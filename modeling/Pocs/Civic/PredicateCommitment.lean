import Pocs.Civic.Contract
import Pocs.Civic.PredicateEval

/-! # The commitment to a predicate

The 34 scalars that are hashed for a predicate are computed by `canonical_scalars` in Rust, by
`_canonicalScalars` in the contract and by `encode_canonical_def` in the signer circuit. On the
encoding of a validated predicate the three agree, and the scalars determine the encoded bytes
(`predicate_commitment`). -/

namespace Pocs.Civic

/-! ## `encode_canonical_def` -/

namespace PredicateProgram

def fieldFromBeBytes32 (bytes : List UInt8) : Except String Fr := do
  require (bytes.getD 0 0 ≤ 0x30) "predicate: scalar top byte exceeds BN254 modulus"
  pure (bytes.foldl (fun acc b => acc * .reduce 256 + .reduce b.toNat) 0)

def checkOperands (w : PredicateProgram) : Except String Unit :=
  (List.finRange 20).forM fun t => do
    let bytes := (frToBeBytes (w.tupleOperand t)).1
    if t.val < w.tupleCount then
      require (bytes.getD 0 0 < 0x30) "predicate: tuple operand exceeds BN254 modulus"
      if w.tupleTypeTag t = 0x01 then
        (List.range 24).forM fun k =>
          require (bytes.getD k 0 = 0) "predicate: INT64 operand exceeds 64 bits"

/-- The tuple section of step 1, 35 bytes per tuple. -/
def writeTuples (w : PredicateProgram) (buf : List UInt8) : List UInt8 :=
  (List.finRange 20).foldl (fun buf t =>
    if t.val < w.tupleCount then copyFromSlice buf (1 + t.val * 35) (w.rawTuple t).bytes else buf) buf

/-- The ops behind their count at `ocPos`. -/
def writeOps (w : PredicateProgram) (ocPos : Nat) (buf : List UInt8) : List UInt8 :=
  (List.finRange 20).foldl (fun buf o =>
    if o.val < w.opCount then copyFromSlice buf (ocPos + 1 + o.val * 2) (w.rawOp o).bytes else buf)
    (buf.set ocPos (UInt8.ofNat w.opCount))

/-- Step 1: the serialized buffer of maximal size. The op section is found by trying the tuple
counts. -/
def buffer (w : PredicateProgram) : List UInt8 :=
  let buf := w.writeTuples ((List.replicate 742 0).set 0 (UInt8.ofNat w.tupleCount))
  (List.range 21).foldl (fun buf tc =>
    if tc = w.tupleCount then w.writeOps (1 + tc * 35) buf else buf) buf

/-- The scalars the circuit hashes. -/
def encodeCanonicalDef (w : PredicateProgram) : Except String (List Fr) := do
  w.checkOperands
  let buf := w.buffer
  let serializedLen := 2 + w.tupleCount * 35 + w.opCount * 2
  require (serializedLen < 2 ^ 32) "attempt to add with overflow"
  let seg0 := 0 :: UInt8.ofNat (serializedLen / 256) :: UInt8.ofNat (serializedLen % 256) ::
    (List.range 29).map fun k => buf.getD k 0
  let first ← fieldFromBeBytes32 seg0
  let rest ← (List.range' 1 33).mapM fun i =>
    let srcOff := 29 + 31 * (i - 1)
    fieldFromBeBytes32 (0 :: (List.range 31).map fun k =>
      if srcOff + k < 742 then buf.getD (srcOff + k) 0 else 0)
  pure (first :: rest)

end PredicateProgram

/-! ## The segments -/

/-- The bytes of the `seg`-th scalar. -/
def segmentBytes (encoded : List UInt8) (seg : Nat) : List UInt8 :=
  if seg = 0 then
    0 :: UInt8.ofNat (encoded.length / 256) :: UInt8.ofNat encoded.length ::
      (List.range 29).map fun k => encoded.getD (0 + k) 0
  else 0 :: (List.range 31).map fun k => encoded.getD (29 + 31 * (seg - 1) + k) 0

section
variable {encoded : List UInt8} {seg : Nat}

theorem length_segmentBytes : (segmentBytes encoded seg).length = 32 := by
  unfold segmentBytes
  split <;> simp

theorem segmentBytes_head : ∃ bs, segmentBytes encoded seg = 0 :: bs := by
  unfold segmentBytes
  split
  · exact ⟨_, rfl⟩
  · exact ⟨_, rfl⟩

/-- The high byte is zero, so that nothing is reduced. -/
theorem beToNat_segmentBytes_lt : beToNat (segmentBytes encoded seg) < bn254 := by
  obtain ⟨bs, hbs⟩ := @segmentBytes_head encoded seg
  have hlen := @length_segmentBytes encoded seg
  rw [hbs] at hlen ⊢
  have hlt := beToNat_lt bs
  rw [Nat.succ.inj hlen] at hlt
  calc beToNat (0 :: bs) = beToNat bs := by simp [beToNat]
    _ < 256 ^ 31 := hlt
    _ ≤ bn254 := by decide

theorem canonicalScalar_eq : canonicalScalar encoded seg = frFromBeBytes (segmentBytes encoded seg) := by
  unfold canonicalScalar segmentBytes
  split
  · have hwindow := range_map_getD_window encoded 0 29
    rw [List.drop_zero] at hwindow
    have hhigh : encoded.length >>> 8 = encoded.length / 256 := Nat.shiftRight_eq_div_pow _ 8
    simp only [hwindow, hhigh]
    rfl
  · rw [range_map_getD_window]
    rfl

theorem val_canonicalScalar : (canonicalScalar encoded seg).val = beToNat (segmentBytes encoded seg) := by
  rw [canonicalScalar_eq]
  exact PrimeField.val_reduce beToNat_segmentBytes_lt

theorem canonicalScalars_eq_ok {scalars : List Fr} : canonicalScalars encoded = .ok scalars ↔
    encoded.length ≤ predicateBytesMax ∧ scalars = (List.range 34).map (canonicalScalar encoded) := by
  simp only [canonicalScalars, bind_eq_ok, failIf_eq_ok, not_lt, exists_const, pure_eq_ok]
  exact and_congr_right fun _ => eq_comm

/-- The contract computes the same segments. -/
theorem canonicalSegment_eq : (Solidity.canonicalSegment encoded seg).1 = segmentBytes encoded seg := by
  have hhigh : encoded.length >>> 8 = encoded.length / 256 := Nat.shiftRight_eq_div_pow _ 8
  have hlow : UInt8.ofNat (encoded.length &&& 0xff) = UInt8.ofNat encoded.length := by
    apply UInt8.toNat_inj.mp
    rw [UInt8.toNat_ofNat', UInt8.toNat_ofNat', Nat.and_two_pow_sub_one_eq_mod _ 8, Nat.mod_mod]
  unfold Solidity.canonicalSegment segmentBytes Solidity.defSlice
  simp only [hhigh, hlow]
  split
  · exact Bytes.resize_val (by simp)
  · exact Bytes.resize_val (by simp)

theorem segmentBytes_inj {encoded' : List UInt8}
    (h : canonicalScalar encoded seg = canonicalScalar encoded' seg) :
    segmentBytes encoded seg = segmentBytes encoded' seg := by
  apply beToNat_inj (length_segmentBytes.trans length_segmentBytes.symm)
  rw [← val_canonicalScalar, ← val_canonicalScalar, h]

theorem getD_of_window_eq {a b : List UInt8} {off n : Nat}
    (h : (List.range n).map (fun k => a.getD (off + k) 0) =
      (List.range n).map fun k => b.getD (off + k) 0) {k : Nat} (hk : k < n) :
    a.getD (off + k) 0 = b.getD (off + k) 0 :=
  List.map_inj_left.mp h k (List.mem_range.mpr hk)

/-- Equal scalars have equal lengths and equal bytes. -/
theorem canonicalScalars_inj {a b : List UInt8} {scalars : List Fr}
    (ha : canonicalScalars a = .ok scalars) (hb : canonicalScalars b = .ok scalars) : a = b := by
  obtain ⟨halen, rfl⟩ := canonicalScalars_eq_ok.mp ha
  obtain ⟨hblen, hscalars⟩ := canonicalScalars_eq_ok.mp hb
  simp only [predicateBytesMax] at halen hblen
  have hseg : ∀ seg < 34, segmentBytes a seg = segmentBytes b seg := fun seg hlt =>
    segmentBytes_inj (List.map_inj_left.mp hscalars seg (List.mem_range.mpr hlt))
  have hfirst := hseg 0 (by decide)
  simp only [segmentBytes, if_true, List.cons.injEq, true_and] at hfirst
  obtain ⟨hhigh, hlow, hwindow⟩ := hfirst
  have hlen : a.length = b.length := by
    have hhigh := congrArg UInt8.toNat hhigh
    have hlow := congrArg UInt8.toNat hlow
    simp only [UInt8.toNat_ofNat'] at hhigh hlow
    omega
  have hget : ∀ i < a.length, a.getD i 0 = b.getD i 0 := by
    intro i hi
    rcases Nat.lt_or_ge i 29 with hlt | hge
    · have h := getD_of_window_eq hwindow hlt
      rwa [Nat.zero_add] at h
    · -- the byte lies in a later segment
      have hrest := hseg ((i - 29) / 31 + 1) (by omega)
      simp only [segmentBytes, Nat.succ_ne_zero, if_false, List.cons.injEq, true_and,
        Nat.add_sub_cancel] at hrest
      have h := getD_of_window_eq hrest (Nat.mod_lt (i - 29) (by decide : 0 < 31))
      have hidx : 29 + 31 * ((i - 29) / 31) + (i - 29) % 31 = i := by
        rw [Nat.add_assoc, Nat.div_add_mod]
        omega
      rwa [hidx] at h
  apply List.ext_getElem hlen
  intro i h₁ h₂
  have h := hget i h₁
  simpa [List.getD_eq_getElem?_getD, h₁, h₂] using h

end

/-! ## The circuit's buffer -/

namespace PredicateProgram
variable {w : PredicateProgram}

/-- A loop that skips the positions from `n` on. -/
theorem foldl_active {β : Type} {n : Nat} (f : β → Fin 20 → β) (b : β) :
    (List.finRange 20).foldl (fun b t => if t.val < n then f b t else b) b = (active n).foldl f b := by
  have hskip : ∀ (is : List (Fin 20)) (b : β), (∀ i ∈ is, n ≤ i.val) →
      is.foldl (fun b t => if t.val < n then f b t else b) b = b := by
    intro is
    induction is with
    | nil => exact fun b _ => rfl
    | cons i is ih =>
      intro b his
      obtain ⟨hi, his⟩ := List.forall_mem_cons.mp his
      rw [List.foldl_cons, if_neg (not_lt.mpr hi)]
      exact ih b his
  have hall : ∀ (is : List (Fin 20)) (b : β), (∀ i ∈ is, i.val < n) →
      is.foldl (fun b t => if t.val < n then f b t else b) b = is.foldl f b := by
    intro is
    induction is with
    | nil => exact fun b _ => rfl
    | cons i is ih =>
      intro b his
      obtain ⟨hi, his⟩ := List.forall_mem_cons.mp his
      rw [List.foldl_cons, List.foldl_cons, if_pos hi]
      exact ih _ his
  rw [← List.take_append_drop n (List.finRange 20), List.foldl_append, hskip _ _ fun i hi => le_of_mem_drop hi]
  exact hall _ _ fun i hi => lt_of_mem_active hi

/-- The chunks of the active positions, written behind `before`. -/
theorem foldl_active_copy {g : Fin 20 → List UInt8} {k n base : Nat} (hg : ∀ t, (g t).length = k)
    (hn : n ≤ 20) {before : List UInt8} (hbefore : before.length = base) (m : Nat) : (List.finRange 20).foldl
        (fun buf t => if t.val < n then copyFromSlice buf (base + t.val * k) (g t) else buf)
        (before ++ List.replicate m 0) = before ++ (active n).flatMap g ++ List.replicate (m - n * k) 0 := by
  have hzip : (active n).zipIdx.map (·.1) = active n := by simp
  have hpos : ∀ x ∈ (active n).zipIdx, x.1.val = x.2 := by
    rintro ⟨t, i⟩ hx
    have hget := List.mem_zipIdx_iff_getElem?.mp hx
    have hlt := (List.getElem?_eq_some_iff.mp hget).1
    rw [length_active hn] at hlt
    rw [getElem?_active hlt (by omega)] at hget
    exact (congrArg Fin.val (Option.some.inj hget)).symm
  have hcopy := foldl_copyFromSlice hg (active n) before m 0 (by rw [hbefore, Nat.zero_mul]; rfl)
  rw [length_active hn] at hcopy
  rw [foldl_active, ← hcopy]
  conv_lhs => rw [← hzip, List.foldl_map]
  apply List.foldl_ext
  intro buf x hx
  rw [hpos x hx]

def serialized (w : PredicateProgram) : List UInt8 :=
  layout ((active w.tupleCount).map w.rawTuple) ((active w.opCount).map w.rawOp)

theorem length_serialized (htc : w.tupleCount ≤ 20) (hoc : w.opCount ≤ 20) :
    w.serialized.length = 2 + w.tupleCount * 35 + w.opCount * 2 := by
  rw [serialized, layout, List.length_append, List.length_cons, List.length_cons,
    length_flatMap_chunk RawTuple.length_bytes, length_flatMap_chunk RawOp.length_bytes]
  simp only [List.length_map, length_active htc, length_active hoc]
  omega

def tupleSection (w : PredicateProgram) : List UInt8 :=
  (active w.tupleCount).flatMap fun t => (w.rawTuple t).bytes

def opSection (w : PredicateProgram) : List UInt8 :=
  (active w.opCount).flatMap fun o => (w.rawOp o).bytes

theorem length_tupleSection (htc : w.tupleCount ≤ 20) : w.tupleSection.length = w.tupleCount * 35 := by
  rw [tupleSection, length_flatMap_chunk fun t => RawTuple.length_bytes (w.rawTuple t), length_active htc]

theorem serialized_eq (htc : w.tupleCount ≤ 20) (hoc : w.opCount ≤ 20) :
    w.serialized = [UInt8.ofNat w.tupleCount] ++ w.tupleSection ++ [UInt8.ofNat w.opCount] ++ w.opSection := by
  rw [serialized, layout, List.length_map, List.length_map, length_active htc, length_active hoc,
    List.flatMap_map, List.flatMap_map]
  simp only [List.cons_append, List.nil_append, List.append_assoc]
  rfl

theorem writeTuples_eq (htc : w.tupleCount ≤ 20) (head : UInt8) (m : Nat) :
    w.writeTuples ((List.replicate (m + 1) 0).set 0 head) =
      [head] ++ w.tupleSection ++ List.replicate (m - w.tupleCount * 35) 0 := by
  rw [List.replicate_succ, List.set_cons_zero]
  exact @foldl_active_copy (fun t => (w.rawTuple t).bytes) _ _ 1
    (fun t => RawTuple.length_bytes (w.rawTuple t)) htc [head] rfl m

theorem writeOps_eq (hoc : w.opCount ≤ 20) {before : List UInt8} {ocPos : Nat}
    (hbefore : before.length = ocPos) (m : Nat) : w.writeOps ocPos (before ++ List.replicate (m + 1) 0) =
      before ++ [UInt8.ofNat w.opCount] ++ w.opSection ++ List.replicate (m - w.opCount * 2) 0 := by
  have hset : (before ++ List.replicate (m + 1) 0).set ocPos (UInt8.ofNat w.opCount) =
      before ++ [UInt8.ofNat w.opCount] ++ List.replicate m 0 := by
    rw [← hbefore, List.set_append_right _ _ (Nat.le_refl _), Nat.sub_self, List.replicate_succ,
      List.set_cons_zero, List.append_assoc, List.singleton_append]
  rw [writeOps, hset]
  exact @foldl_active_copy (fun o => (w.rawOp o).bytes) _ _ (ocPos + 1)
    (fun o => RawOp.length_bytes (w.rawOp o)) hoc _
    (by rw [List.length_append, hbefore, List.length_singleton]) m

/-- Only the round with the tuple count of the program writes. -/
theorem foldl_range_eq {β : Type} (f : Nat → β → β) (c n : Nat) (b : β) :
    (List.range n).foldl (fun b i => if i = c then f i b else b) b = if c < n then f c b else b := by
  induction n with
  | zero => rfl
  | succ n ih =>
    rw [List.range_succ, List.foldl_append, ih, List.foldl_cons, List.foldl_nil]
    rcases Nat.lt_trichotomy c n with h | h | h
    · rw [if_pos h, if_neg (by omega), if_pos (by omega)]
    · rw [if_pos h.symm, if_neg (by omega), if_pos (by omega), h]
    · rw [if_neg (by omega), if_neg (by omega), if_neg (by omega)]

/-- The buffer is the serialization, filled up with zeros. -/
theorem buffer_eq (htc : w.tupleCount ≤ 20) (hoc : w.opCount ≤ 20) :
    w.buffer = w.serialized ++ List.replicate (742 - w.serialized.length) 0 := by
  have hlen : ([UInt8.ofNat w.tupleCount] ++ w.tupleSection).length = 1 + w.tupleCount * 35 := by
    rw [List.length_append, length_tupleSection htc, List.length_singleton]
  obtain ⟨m, hm⟩ : ∃ m, 741 - w.tupleCount * 35 = m + 1 := ⟨740 - w.tupleCount * 35, by omega⟩
  have htuples := writeTuples_eq htc (UInt8.ofNat w.tupleCount) 741
  rw [hm] at htuples
  have hcount := length_serialized htc hoc
  rw [buffer, htuples, foldl_range_eq (fun tc => w.writeOps (1 + tc * 35)), if_pos (by omega),
    writeOps_eq hoc hlen, ← serialized_eq htc hoc]
  congr 2
  omega

theorem fieldFromBeBytes32_segment {encoded : List UInt8} {seg : Nat} :
    fieldFromBeBytes32 (segmentBytes encoded seg) = .ok (canonicalScalar encoded seg) := by
  have hhead : (segmentBytes encoded seg).getD 0 0 ≤ 0x30 := by
    obtain ⟨bs, hbs⟩ := @segmentBytes_head encoded seg
    rw [hbs]
    exact UInt8.le_iff_toNat_le.mpr (Nat.zero_le _)
  rw [fieldFromBeBytes32, require, if_pos hhead, ok_bind, foldl_horner, canonicalScalar_eq]
  rfl

/-- The circuit packs the serialization as Rust does. -/
theorem encodeCanonicalDef_eq (htc : w.tupleCount ≤ 20) (hoc : w.opCount ≤ 20)
    (hcheck : w.checkOperands = .ok ()) :
    w.encodeCanonicalDef = .ok ((List.range 34).map (canonicalScalar w.serialized)) := by
  have hlen := length_serialized htc hoc
  have hget : ∀ i, w.buffer.getD i 0 = w.serialized.getD i 0 := by
    intro i
    rw [buffer_eq htc hoc, List.getD_eq_getElem?_getD, List.getD_eq_getElem?_getD]
    rcases Nat.lt_or_ge i w.serialized.length with hi | hi
    · rw [List.getElem?_append_left hi]
    · rw [List.getElem?_append_right hi, List.getElem?_eq_none hi, List.getElem?_replicate]
      split <;> rfl
  have hsegment : ∀ i k, (if 29 + 31 * (i - 1) + k < 742 then
      w.buffer.getD (29 + 31 * (i - 1) + k) 0 else 0) = w.serialized.getD (29 + 31 * (i - 1) + k) 0 := by
    intro i k
    split
    · exact hget _
    · rw [List.getD_eq_getElem?_getD, List.getElem?_eq_none (by omega)]
      rfl
  have hfirst : 0 :: UInt8.ofNat ((2 + w.tupleCount * 35 + w.opCount * 2) / 256) ::
      UInt8.ofNat ((2 + w.tupleCount * 35 + w.opCount * 2) % 256) ::
        (List.range 29).map (fun k => w.buffer.getD k 0) = segmentBytes w.serialized 0 := by
    have hlow : UInt8.ofNat (w.serialized.length % 256) = UInt8.ofNat w.serialized.length := by
      apply UInt8.toNat_inj.mp
      rw [UInt8.toNat_ofNat', UInt8.toNat_ofNat']
      exact Nat.mod_mod _ _
    rw [← hlen, hlow]
    simp only [segmentBytes, if_true, hget, Nat.zero_add]
  have hrest : (List.range' 1 33).mapM (fun i => fieldFromBeBytes32 (0 :: (List.range 31).map fun k =>
      if 29 + 31 * (i - 1) + k < 742 then w.buffer.getD (29 + 31 * (i - 1) + k) 0 else 0)) =
        .ok ((List.range' 1 33).map (canonicalScalar w.serialized)) := by
    apply mapM_eq_ok.mpr
    rw [List.forall₂_map_right_iff, List.forall₂_same]
    intro i hi
    have hpos : i ≠ 0 := by
      have := (List.mem_range'_1.mp hi).1
      omega
    rw [← fieldFromBeBytes32_segment, segmentBytes, if_neg hpos]
    simp only [hsegment]
  have hrange : List.range 34 = 0 :: List.range' 1 33 := rfl
  simp only [encodeCanonicalDef]
  rw [hcheck, ok_bind, require, if_pos (by omega), ok_bind, hfirst, fieldFromBeBytes32_segment, ok_bind,
    hrest, ok_bind, hrange, List.map_cons]
  rfl

end PredicateProgram

/-! ## The padded program of a predicate -/

namespace PredicateDef
open PredicateProgram (active length_active getElem?_active)
variable {p : PredicateDef}

/-- An operand with a small high byte is canonical. -/
theorem operand_lt {operand : Bytes32} (h : operand.1.getD 0 0 < 0x30) : operand.toNat < bn254 := by
  obtain ⟨bs, hlen⟩ := operand
  obtain _ | ⟨b, bs⟩ := bs
  · cases hlen
  have hb : b.toNat < 0x30 := UInt8.lt_iff_toNat_lt.mp h
  have hlt := beToNat_lt bs
  rw [Nat.succ.inj hlen] at hlt
  have hval : beToNat (b :: bs) = b.toNat * 256 ^ 31 + beToNat bs := by
    rw [beToNat, Nat.succ.inj hlen]
  calc beToNat (b :: bs) = b.toNat * 256 ^ 31 + beToNat bs := hval
    _ < b.toNat * 256 ^ 31 + 256 ^ 31 := Nat.add_lt_add_left hlt _
    _ = (b.toNat + 1) * 256 ^ 31 := (Nat.succ_mul _ _).symm
    _ ≤ 0x30 * 256 ^ 31 := Nat.mul_le_mul_right _ hb
    _ ≤ bn254 := by decide

/-- Every operand has a high byte below `0x30`. -/
def SmallOperands (p : PredicateDef) : Prop := ∀ t ∈ p.tuples, t.operand.1.getD 0 0 < 0x30

theorem padded_operand (hsmall : p.SmallOperands) {t : Tuple} {i : Fin 20}
    (ht : p.tuples[i.val]? = some t) : frToBeBytes (p.padded.tupleOperand i) = t.operand := by
  have hoperand : p.padded.tupleOperand i = frFromBeBytes t.operand.1 := by simp [padded, ht]
  rw [hoperand, frToBeBytes_frFromBeBytes (operand_lt (hsmall t (List.mem_of_getElem? ht)))]

theorem padded_rawTuples (hv : p.Valid) (hsmall : p.SmallOperands) :
    (active p.tuples.length).map p.padded.rawTuple = p.tuples.map raw := by
  apply List.ext_getElem?
  intro k
  rw [List.getElem?_map, List.getElem?_map]
  rcases Nat.lt_or_ge k p.tuples.length with hk | hk
  · have hget := List.getElem?_eq_getElem hk
    rw [getElem?_active hk (hk.trans_le hv.tuples_le), Option.map_some, PredicateProgram.rawTuple,
      padded_operand hsmall hget]
    simp [padded, raw, hk]
  · rw [List.getElem?_eq_none hk, List.getElem?_eq_none (by rw [length_active hv.tuples_le]; exact hk)]
    rfl

theorem padded_checkOperands (h : p.validate = .ok ()) (hsmall : p.SmallOperands) :
    p.padded.checkOperands = .ok () := by
  apply forM_eq_ok.mpr
  intro i _
  cases ht : p.tuples[i.val]? with
  | none =>
    have hge : ¬ i.val < p.padded.tupleCount := not_lt.mpr (List.getElem?_eq_none_iff.mp ht)
    rw [if_neg hge]
    rfl
  | some t =>
    have hmem := List.mem_of_getElem? ht
    have hlt : i.val < p.padded.tupleCount := (List.getElem?_eq_some_iff.mp ht).1
    have htag : p.padded.tupleTypeTag i = t.typeTag.toByte := by simp [padded, ht]
    rw [if_pos hlt, padded_operand hsmall ht, require, if_pos (hsmall t hmem), ok_bind, htag]
    split
    · next hone =>
      have hint : t.typeTag = .int64 := by
        cases htt : t.typeTag with
        | int64 => rfl
        | hash | bool => rw [htt] at hone; cases hone
      have hzero := List.all_eq_true.mp (isInt64InRange_of_mem h hmem hint)
      apply forM_eq_ok.mpr
      intro k hk
      have hk24 := List.mem_range.mp hk
      have hk32 : k < t.operand.1.length := by rw [t.operand.2]; omega
      have hbyte : t.operand.1.getD k 0 = 0 := by
        have hmemk : t.operand.1[k] ∈ t.operand.1.take 24 :=
          List.mem_take_iff_getElem.mpr ⟨k, by omega, rfl⟩
        rw [List.getD_eq_getElem?_getD, List.getElem?_eq_getElem hk32, Option.getD_some]
        simpa using hzero _ hmemk
      rw [hbyte]
      rfl
    · rfl

/-- The circuit's scalars are those of the encoding. -/
theorem padded_encodeCanonicalDef (h : p.validate = .ok ()) (hsmall : p.SmallOperands) :
    p.padded.encodeCanonicalDef = .ok ((List.range 34).map
      (canonicalScalar (layout (p.tuples.map raw) (p.ops.map rawOp)))) := by
  have hv := valid_of_validate h
  have hserialized : p.padded.serialized = layout (p.tuples.map raw) (p.ops.map rawOp) := by
    rw [← padded_rawTuples hv hsmall, ← hv.padded_rawOps]
    rfl
  rw [← hserialized]
  exact PredicateProgram.encodeCanonicalDef_eq hv.tuples_le hv.ops_le (padded_checkOperands h hsmall)

/-! ## The encoding determines the predicate -/

theorem bytes_injective : Function.Injective RawTuple.bytes := by
  intro t u h
  obtain ⟨ci, operand, tag, cmp⟩ := t
  obtain ⟨ci', operand', tag', cmp'⟩ := u
  simp only [RawTuple.bytes, List.cons_append, List.cons.injEq] at h
  obtain ⟨rfl, h⟩ := h
  obtain ⟨hop, h⟩ := List.append_inj h (operand.2.trans operand'.2.symm)
  simp only [List.cons.injEq, and_true] at h
  obtain ⟨rfl, rfl⟩ := h
  obtain rfl : operand = operand' := Subtype.ext hop
  rfl

theorem rawOp_bytes_injective : Function.Injective RawOp.bytes := by
  intro o o' h
  obtain ⟨code, operand⟩ := o
  obtain ⟨code', operand'⟩ := o'
  simp only [RawOp.bytes, List.cons.injEq, and_true] at h
  obtain ⟨rfl, rfl⟩ := h
  rfl

theorem raw_injective : Function.Injective raw := by
  intro t u h
  obtain ⟨ci, operand, tag, cmp⟩ := t
  obtain ⟨ci', operand', tag', cmp'⟩ := u
  simp only [raw, RawTuple.mk.injEq] at h
  obtain ⟨rfl, rfl, htag, hcmp⟩ := h
  obtain rfl : tag = tag' := by
    cases tag <;> cases tag' <;> first | rfl | cases htag
  obtain rfl : cmp = cmp' := by
    cases cmp <;> cases cmp' <;> first | rfl | cases hcmp
  rfl

theorem rawOp_injective : Function.Injective rawOp := by
  intro o o' h
  obtain ⟨code, operand⟩ := o
  obtain ⟨code', operand'⟩ := o'
  simp only [rawOp, RawOp.mk.injEq] at h
  obtain ⟨hcode, rfl⟩ := h
  obtain rfl : code = code' := by
    cases code <;> cases code' <;> first | rfl | cases hcode
  rfl

theorem layout_inj {tuples tuples' : List RawTuple} {ops ops' : List RawOp}
    (ht : tuples.length ≤ 20) (ht' : tuples'.length ≤ 20) (ho : ops.length ≤ 20)
    (ho' : ops'.length ≤ 20) (h : layout tuples ops = layout tuples' ops') : tuples = tuples' ∧ ops = ops' := by
  have hcount : ∀ {m n : Nat}, m ≤ 20 → n ≤ 20 → UInt8.ofNat m = UInt8.ofNat n → m = n := by
    intro m n hm hn h
    have h := congrArg UInt8.toNat h
    rw [UInt8.toNat_ofNat', UInt8.toNat_ofNat'] at h
    omega
  simp only [layout, List.cons_append, List.cons.injEq] at h
  obtain ⟨htc, h⟩ := h
  obtain ⟨htuples, hrest⟩ :=
    flatMap_chunk_inj RawTuple.length_bytes bytes_injective (hcount ht ht' htc) h
  obtain ⟨hoc, hops⟩ := List.cons.inj hrest
  rw [← List.append_nil (ops.flatMap _), ← List.append_nil (ops'.flatMap _)] at hops
  exact ⟨htuples, (flatMap_chunk_inj RawOp.length_bytes rawOp_bytes_injective (hcount ho ho' hoc) hops).1⟩

theorem validate_of_encode {encoded : List UInt8} (h : p.encode = .ok encoded) : p.validate = .ok () := by
  simp only [encode, bind_eq_ok] at h
  obtain ⟨_, hv, -⟩ := h
  exact hv

theorem encode_inj {q : PredicateDef} {encoded : List UInt8} (hp : p.encode = .ok encoded)
    (hq : q.encode = .ok encoded) : p = q := by
  have hpv := validate_of_encode hp
  have hqv := validate_of_encode hq
  rw [encode_eq hpv] at hp
  rw [encode_eq hqv] at hq
  have hp' := valid_of_validate hpv
  have hq' := valid_of_validate hqv
  obtain ⟨htuples, hops⟩ := layout_inj (by simpa using hp'.tuples_le) (by simpa using hq'.tuples_le)
    (by simpa using hp'.ops_le) (by simpa using hq'.ops_le)
    (Except.ok.inj (hp.trans hq.symm))
  exact PredicateDef.mk.injEq .. ▸ ⟨raw_injective.list_map htuples, rawOp_injective.list_map hops⟩

end PredicateDef

open PredicateDef

/-! ## The hash chain -/

/-- The value of the chain before its `i`-th input. -/
def chainAt (P : Poseidon Fr) (xs : List Fr) (i : Nat) : Fr := (xs.take i).foldl P.hash2 (Scalar.ofNat 5)

/-- At some step the chains over two lists hash different pairs to the same value. -/
def ChainCollision (P : Poseidon Fr) (xs ys : List Fr) : Prop :=
  ∃ i x y, xs[i]? = some x ∧ ys[i]? = some y ∧ (chainAt P xs i, x) ≠ (chainAt P ys i, y) ∧
    P.hash2 (chainAt P xs i) x = P.hash2 (chainAt P ys i) y

theorem chainCollision_of_foldl_eq {P : Poseidon Fr} {xs ys : List Fr} (hlen : xs.length = ys.length)
    (hne : xs ≠ ys) (h : xs.foldl P.hash2 (Scalar.ofNat 5) = ys.foldl P.hash2 (Scalar.ofNat 5)) :
    ChainCollision P xs ys := by
  induction xs using List.reverseRecOn generalizing ys with
  | nil => exact absurd (List.length_eq_zero_iff.mp hlen.symm).symm hne
  | append_singleton xs x ih =>
    induction ys using List.reverseRecOn with
    | nil => simp at hlen
    | append_singleton ys y _ =>
      have hlen' : xs.length = ys.length := by simpa using hlen
      have hat : ∀ (zs : List Fr) (z : Fr) {i : Nat}, i ≤ zs.length →
          chainAt P (zs ++ [z]) i = chainAt P zs i := fun zs z i hi => by
        rw [chainAt, List.take_append_of_le_length hi, chainAt]
      have hend : ∀ (zs : List Fr), chainAt P zs zs.length = zs.foldl P.hash2 (Scalar.ofNat 5) :=
        fun zs => by rw [chainAt, List.take_length]
      rw [List.foldl_append, List.foldl_append, List.foldl_cons, List.foldl_cons, List.foldl_nil,
        List.foldl_nil, ← hend, ← hend] at h
      have hmeet : chainAt P ys xs.length = chainAt P ys ys.length := by rw [hlen']
      by_cases hlast : (chainAt P xs xs.length, x) = (chainAt P ys ys.length, y)
      · -- the last step hashed the same pair, so that the chains met before
        obtain ⟨hchain, rfl⟩ := Prod.mk.inj hlast
        rw [hend, hend] at hchain
        obtain ⟨i, a, b, ha, hb, hpair, hhash⟩ := ih hlen' (fun he => hne (by rw [he])) hchain
        have hi := (List.getElem?_eq_some_iff.mp ha).1
        refine ⟨i, a, b, ?_, ?_, ?_, ?_⟩
        · rw [List.getElem?_append_left hi, ha]
        · rw [List.getElem?_append_left (hlen' ▸ hi), hb]
        · rwa [hat xs x hi.le, hat ys x (hlen' ▸ hi.le)]
        · rwa [hat xs x hi.le, hat ys x (hlen' ▸ hi.le)]
      · refine ⟨xs.length, x, y, List.getElem?_concat_length, ?_, ?_, ?_⟩
        · rw [hlen']
          exact List.getElem?_concat_length
        · rwa [hat xs x (Nat.le_refl _), hat ys y hlen'.le, hmeet]
        · rwa [hat xs x (Nat.le_refl _), hat ys y hlen'.le, hmeet]

theorem hashPredicate_eq_foldl (P : Poseidon Fr) (scalars : List Fr) (petitionId salt : Fr) :
    hashPredicate P scalars petitionId salt =
      (scalars ++ [petitionId, salt]).foldl P.hash2 (Scalar.ofNat 5) := by
  rw [hashPredicate, List.foldl_append]
  rfl

/-- The commitment to a predicate: Rust, the contract and the circuit compute the same 34 scalars,
these determine the encoded bytes and the predicate, and different byte strings have the same hash
only through a collision in the chain that computes it. -/
theorem predicate_commitment : (∀ p : PredicateDef, p.validate = .ok () → p.SmallOperands →
      ∃ encoded scalars w, p.encode = .ok encoded ∧ canonicalScalars encoded = .ok scalars ∧
        scalars.length = 34 ∧ (Solidity.canonicalScalars encoded).map Bytes.toNat = scalars.map (·.val) ∧
        signerProgram p = .ok w ∧ w.encodeCanonicalDef = .ok scalars) ∧
    (∀ a b : List UInt8, a.length ≤ predicateBytesMax → b.length ≤ predicateBytesMax →
      canonicalScalars a = canonicalScalars b → a = b) ∧
    (∀ (p q : PredicateDef) (encoded : List UInt8), p.encode = .ok encoded → q.encode = .ok encoded → p = q) ∧
    (∀ (P : Poseidon Fr) (a b : List UInt8) (scalars scalars' : List Fr) (petitionId salt petitionId'
      salt' : Fr), canonicalScalars a = .ok scalars → canonicalScalars b = .ok scalars' → a ≠ b →
        hashPredicate P scalars petitionId salt = hashPredicate P scalars' petitionId' salt' →
          ChainCollision P (scalars ++ [petitionId, salt]) (scalars' ++ [petitionId', salt'])) := by
  refine ⟨fun p hv hsmall => ?_, fun a b ha hb h => ?_, fun p q encoded hp hq => ?_, ?_⟩
  · have hvalid := valid_of_validate hv
    have htuples := hvalid.tuples_le
    have hops := hvalid.ops_le
    have hencode := encode_eq hv
    set encoded := layout (p.tuples.map raw) (p.ops.map rawOp)
    have hbytes : encoded.length ≤ predicateBytesMax := by
      have hraw := length_flatMap_chunk RawTuple.length_bytes (p.tuples.map raw)
      have hrawOps := length_flatMap_chunk RawOp.length_bytes (p.ops.map rawOp)
      rw [List.length_map] at hraw hrawOps
      simp only [encoded, layout, List.length_append, List.length_cons, hraw, hrawOps, predicateBytesMax]
      omega
    have hprogram : signerProgram p = .ok p.padded := by
      rw [signerProgram, failIf_neg (by omega)]
      rfl
    refine ⟨encoded, _, p.padded, hencode, canonicalScalars_eq_ok.mpr ⟨hbytes, rfl⟩, ?_, ?_, hprogram,
      padded_encodeCanonicalDef hv hsmall⟩
    · rw [List.length_map, List.length_range]
    · rw [Solidity.canonicalScalars, List.map_map, List.map_map]
      apply List.map_congr_left
      intro seg _
      show beToNat (Solidity.canonicalSegment encoded seg).1 = (canonicalScalar encoded seg).val
      rw [canonicalSegment_eq, val_canonicalScalar]
  · have hok := canonicalScalars_eq_ok.mpr ⟨ha, rfl⟩
    exact canonicalScalars_inj hok (h ▸ hok)
  · exact encode_inj hp hq
  · intro P a b scalars scalars' petitionId salt petitionId' salt' ha hb hne h
    have hlen : ∀ {c : List UInt8} {s : List Fr}, canonicalScalars c = .ok s → s.length = 34 := by
      intro c s hs
      obtain ⟨-, rfl⟩ := canonicalScalars_eq_ok.mp hs
      rw [List.length_map, List.length_range]
    rw [hashPredicate_eq_foldl, hashPredicate_eq_foldl] at h
    refine chainCollision_of_foldl_eq ?_ (fun he => hne ?_) h
    · rw [List.length_append, List.length_append, hlen ha, hlen hb]
      rfl
    · obtain ⟨rfl, -⟩ := List.append_inj he ((hlen ha).trans (hlen hb).symm)
      exact canonicalScalars_inj ha hb

/-- The scalars of `attr[0] <= 100`. -/
theorem predicate_commitment_hundred : ∃ encoded scalars w, atMostHundred.encode = .ok encoded ∧
      canonicalScalars encoded = .ok scalars ∧ scalars.length = 34 ∧
      (Solidity.canonicalScalars encoded).map Bytes.toNat = scalars.map (·.val) ∧
      signerProgram atMostHundred = .ok w ∧ w.encodeCanonicalDef = .ok scalars :=
  predicate_commitment.1 atMostHundred (by decide +kernel)
    (List.forall_mem_singleton.mpr (by decide +kernel))

end Pocs.Civic
