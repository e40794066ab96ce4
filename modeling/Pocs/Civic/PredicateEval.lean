import Pocs.Civic.SignerCircuit
import Pocs.Civic.Types

/-! # Predicate evaluation in Rust and in the signer circuit

`PredicateDef::evaluate` of `predicate.rs` runs a predicate on an attribute vector;
`signer_to_input` of `bb_prover.rs` pads it for the circuit, which evaluates it once more. An
INT64 attribute is compared on its low 64 bits by the one and in full by the other, so the two agree
on every program over the tuples of a predicate exactly when no such comparison tells the
difference (`evaluate_agrees_iff`). -/

namespace Pocs.Civic

open PredOp (toOp)

/-! ## `PredicateDef::evaluate` -/

/-- The `Debug` text of a type tag. -/
def TypeTag.debug : TypeTag → String
  | .int64 => "Int64"
  | .hash => "Hash"
  | .bool => "Bool"

/-- The `Debug` text of a comparator. -/
def Comparator.debug : Comparator → String
  | .eq => "Eq"
  | .le => "Le"
  | .ge => "Ge"

def frToU64Low (fr : Fr) : Nat := beToNat ((frToBeBytes fr).1.drop 24)

/-- `u64::from_be_bytes(operand[24..32])`. -/
def Tuple.operandU64 (t : Tuple) : Nat := beToNat (t.operand.1.drop 24)

def evalTuple (t : Tuple) (attrVector : List Fr) : Except PredicateError Bool := do
  let (claimIndex, attrCount) := (t.claimIndex.toNat, attrVector.length)
  let attrFr ← okOr attrVector[t.claimIndex.toNat]?
    (.malformed s!"claim_index {claimIndex} out of range (attr_count {attrCount})")
  let operandFr := frFromBeBytes t.operand.1
  match t.typeTag, t.comparator with
  | .bool, .eq | .hash, .eq => pure (decide (attrFr = operandFr))
  | .int64, .eq => pure (decide (attrFr = operandFr))
  | .int64, .le => pure (decide (frToU64Low attrFr ≤ t.operandU64))
  | .int64, .ge => pure (decide (frToU64Low attrFr ≥ t.operandU64))
  | _, _ =>
    let (typeTag, comparator) := (t.typeTag.debug, t.comparator.debug)
    throw (.typeMismatch s!"tuple type {typeTag} comparator {comparator} not allowed")

namespace PredicateDef

/-- One op of the evaluation; the stack is kept top first. -/
def evaluateStep (p : PredicateDef) (attrVector : List Fr) (stack : List Bool) (op : PredOp × Nat) :
    Except PredicateError (List Bool) :=
  match op.1.code, stack with
  | .pushTuple, _ => do
    -- `validate` has checked the index
    let t ← okOr p.tuples[op.1.operand.toNat]? (.malformed "index out of bounds")
    let v ← evalTuple t attrVector
    pure (v :: stack)
  | .and, b :: a :: rest => pure ((a && b) :: rest)
  | .or, b :: a :: rest => pure ((a || b) :: rest)
  | .not, a :: rest => pure ((!a) :: rest)
  | .nop, _ => pure stack
  | _, _ => throw (.stackUnderflow op.2)

/-- Evaluate the predicate over `attrVector`. -/
def evaluate (p : PredicateDef) (attrVector : List Fr) : Except PredicateError Bool := do
  p.validate
  let stack ← p.ops.zipIdx.foldlM (p.evaluateStep attrVector) []
  match stack with
  | [result] => pure result
  | _ => throw (.nonSingletonResult stack.length)

end PredicateDef

/-- The arrays of the circuit, filled up with NOPs and with INT64 equality sentinels. -/
def PredicateDef.padded (p : PredicateDef) : PredicateProgram where
  opCodes i := (p.ops.map fun o => o.code.toByte).getD i 255
  opOperands i := (p.ops.map fun o => o.operand).getD i 0
  opCount := p.ops.length
  tupleClaimIndex i := (p.tuples.map fun t => t.claimIndex).getD i 0
  tupleOperand i := (p.tuples.map fun t => frFromBeBytes t.operand.1).getD i 0
  tupleTypeTag i := (p.tuples.map fun t => t.typeTag.toByte).getD i 1
  tupleComparator i := (p.tuples.map fun t => t.comparator.toByte).getD i 16
  tupleCount := p.tuples.length

/-- The predicate part of `signer_to_input`. -/
def signerProgram (p : PredicateDef) : Except ProofError PredicateProgram := do
  let (ops, tuples) := (p.ops.length, p.tuples.length)
  failIf (p.ops.length > 20 ∨ p.tuples.length > 20)
    (.witnessSerialization s!"predicate ops {ops} or tuples {tuples} exceeds 20")
  pure p.padded

/-- The first four attributes, filled up with zeros. -/
def signerAttrs (attrVector : List Fr) : Fin 4 → Fr := fun i => (attrVector.take 4).getD i 0

/-- Rust and the circuit give the same result, for each result. -/
def EvaluatesAlike (p : PredicateDef) (attrVector : List Fr) : Prop :=
  ∀ b, p.evaluate attrVector = .ok b ↔
    ∃ w, signerProgram p = .ok w ∧ w.evaluatePredicate (signerAttrs attrVector) = .ok b

/-! ## The values of a tuple -/

namespace Tuple
variable {t : Tuple} {a : Fr}

def lowValue (t : Tuple) (a : Fr) : Bool :=
  match t.comparator with
  | .eq => decide (a = frFromBeBytes t.operand.1)
  | .le => decide (frToU64Low a ≤ t.operandU64)
  | .ge => decide (frToU64Low a ≥ t.operandU64)

def fullValue (t : Tuple) (a : Fr) : Bool :=
  match t.comparator with
  | .eq => decide (a = frFromBeBytes t.operand.1)
  | .le => leField a (frFromBeBytes t.operand.1)
  | .ge => geField a (frFromBeBytes t.operand.1)

/-- The comparison of an attribute tells nothing beyond its low 64 bits: it has no others, or they
decide as the whole attribute does. -/
def ComparesAlike (t : Tuple) (a : Fr) : Prop :=
  match t.comparator with
  | .eq => True
  | .le => a.val < 2 ^ 64 ∨ t.operand.toNat < a.val % 2 ^ 64
  | .ge => a.val < 2 ^ 64 ∨ t.operand.toNat ≤ a.val % 2 ^ 64

/-- What `validate` has checked of a tuple. -/
structure Valid (t : Tuple) : Prop where
  ordered : t.comparator ≠ .eq → t.typeTag = .int64
  small : t.typeTag = .int64 → t.operand.toNat < 2 ^ 64

theorem frToU64Low_eq (a : Fr) : frToU64Low a = a.val % 2 ^ 64 := by
  have hval : beToNat (frToBeBytes a).1 = a.val := toNat_frToBeBytes a
  have hlow := (beToNat_take_drop (frToBeBytes a).1 24).2
  rwa [(frToBeBytes a).2, hval] at hlow

theorem Valid.operandU64_eq (h : t.Valid) (ht : t.typeTag = .int64) : t.operandU64 = t.operand.toNat := by
  have hlow := (beToNat_take_drop t.operand.1 24).2
  rw [t.operand.2] at hlow
  rw [operandU64, hlow]
  exact Nat.mod_eq_of_lt (h.small ht)

theorem Valid.operandFr_val (h : t.Valid) (ht : t.typeTag = .int64) :
    (frFromBeBytes t.operand.1 : Fr).val = t.operand.toNat :=
  PrimeField.val_reduce ((h.small ht).trans (by decide))

theorem leField_eq (a b : Fr) : leField a b = decide (a.val ≤ b.val) := by
  have h : ltField b a = decide (b.val < a.val) := by
    rw [Bool.eq_iff_iff, decide_eq_true_iff]
    exact ltField_iff
  rw [leField, h, ← decide_not, decide_eq_decide]
  exact not_lt

theorem geField_eq (a b : Fr) : geField a b = decide (b.val ≤ a.val) := leField_eq b a

/-- The two values of a tuple are the same exactly when the comparison tells no difference. -/
theorem Valid.lowValue_eq_iff (h : t.Valid) : t.lowValue a = t.fullValue a ↔ t.ComparesAlike a := by
  unfold lowValue fullValue ComparesAlike
  have hle := Nat.mod_le a.val (2 ^ 64)
  cases hc : t.comparator with
  | eq => simp
  | le =>
    have ht := h.ordered (by rw [hc]; decide)
    have hop := h.small ht
    rw [leField_eq, h.operandFr_val ht, frToU64Low_eq, h.operandU64_eq ht]
    rw [Bool.eq_iff_iff, decide_eq_true_iff, decide_eq_true_iff]
    rcases Nat.lt_or_ge a.val (2 ^ 64) with hlt | hge
    · rw [Nat.mod_eq_of_lt hlt]
      exact iff_of_true Iff.rfl (.inl hlt)
    · constructor
      · intro hiff
        right
        by_contra hnot
        have := hiff.mp (by omega)
        omega
      · rintro (hlt | hgt)
        · omega
        · exact iff_of_false (by omega) (by omega)
  | ge =>
    have ht := h.ordered (by rw [hc]; decide)
    have hop := h.small ht
    rw [geField_eq, h.operandFr_val ht, frToU64Low_eq, h.operandU64_eq ht]
    rw [Bool.eq_iff_iff, decide_eq_true_iff, decide_eq_true_iff]
    rcases Nat.lt_or_ge a.val (2 ^ 64) with hlt | hge
    · rw [Nat.mod_eq_of_lt hlt]
      exact iff_of_true Iff.rfl (.inl hlt)
    · constructor
      · intro hiff
        exact .inr (hiff.mpr (by omega))
      · rintro (hlt | hgt)
        · omega
        · exact iff_of_true hgt (by omega)

theorem Valid.evalTuple_eq (h : t.Valid) {attrVector : List Fr}
    (ha : attrVector[t.claimIndex.toNat]? = some a) : evalTuple t attrVector = .ok (t.lowValue a) := by
  obtain ⟨ci, operand, tag, cmp⟩ := t
  simp only [evalTuple, ha, okOr, ok_bind, lowValue]
  cases cmp with
  | eq => cases tag <;> rfl
  | le | ge =>
    obtain rfl : tag = .int64 := h.ordered (by simp)
    rfl

theorem Valid.evaluateTuple_eq (h : t.Valid) :
    evaluateTuple a (frFromBeBytes t.operand.1) t.typeTag.toByte t.comparator.toByte = .ok (t.fullValue a) := by
  obtain ⟨ci, operand, tag, cmp⟩ := t
  simp only [fullValue]
  cases cmp with
  | eq => cases tag <;> rfl
  | le | ge =>
    obtain rfl : tag = .int64 := h.ordered (by simp)
    rfl

end Tuple

/-! ## Both evaluations as runs of the program -/

namespace PredicateDef
variable {p : PredicateDef} {attrVector : List Fr}

/-- The value of the tuple at index `k`, given the value of a tuple on its attribute. -/
def tupleValue (p : PredicateDef) (attrVector : List Fr) (value : Tuple → Fr → Bool) (k : Nat) : Bool :=
  match p.tuples[k]? with
  | some t => value t (attrVector.getD t.claimIndex.toNat 0)
  | none => false

/-- What a validated predicate whose claim indices name attributes satisfies. -/
structure Evaluable (p : PredicateDef) (attrVector : List Fr) : Prop where
  valid : p.Valid
  tuples : ∀ t ∈ p.tuples, t.Valid
  four : attrVector.length = 4
  claims : ∀ t ∈ p.tuples, t.claimIndex.toNat < 4

theorem validateTuple_of_mem (h : p.validate = .ok ()) {t : Tuple} (ht : t ∈ p.tuples) :
    ∃ i, validateTuple t i = .ok () := by
  simp only [validate, bind_eq_ok, forM_eq_ok] at h
  obtain ⟨_, -, _, -, _, -, htuples⟩ := h
  obtain ⟨i, hi⟩ := List.mem_iff_getElem?.mp ht
  exact ⟨i, htuples (t, i) (List.mem_zipIdx_iff_getElem?.mpr hi)⟩

theorem isInt64InRange_of_mem (h : p.validate = .ok ()) {t : Tuple} (ht : t ∈ p.tuples)
    (hint : t.typeTag = .int64) : isInt64InRange t.operand = true := by
  obtain ⟨i, hcheck⟩ := validateTuple_of_mem h ht
  simpa [validateTuple, hint] using hcheck

theorem tuples_valid (h : p.validate = .ok ()) : ∀ t ∈ p.tuples, t.Valid := by
  intro t ht
  refine ⟨fun hne => ?_, fun hint => ?_⟩
  · obtain ⟨i, hcheck⟩ := validateTuple_of_mem h ht
    obtain ⟨ci, operand, tag, cmp⟩ := t
    cases tag with
    | int64 => rfl
    | hash | bool =>
      cases cmp with
      | eq => exact absurd rfl hne
      | le | ge => cases hcheck
  · have hhigh : beToNat (t.operand.1.take 24) = 0 :=
      beToNat_eq_zero (isInt64InRange_of_mem h ht hint)
    have hsplit := beToNat_append (t.operand.1.take 24) (t.operand.1.drop 24)
    have hlt := beToNat_lt (t.operand.1.drop 24)
    rw [List.length_drop, t.operand.2] at hlt
    rw [List.take_append_drop, hhigh, Nat.zero_mul, Nat.zero_add] at hsplit
    exact hsplit.trans_lt hlt

theorem Evaluable.attr (H : Evaluable p attrVector) {t : Tuple} (ht : t ∈ p.tuples) :
    attrVector[t.claimIndex.toNat]? = some (attrVector.getD t.claimIndex.toNat 0) := by
  have hlt : t.claimIndex.toNat < attrVector.length := H.four ▸ H.claims t ht
  rw [List.getD_eq_getElem?_getD, List.getElem?_eq_getElem hlt, Option.getD_some]

/-- One op in Rust is one op of the program. -/
theorem Evaluable.evaluateStep_eq_ok (H : Evaluable p attrVector) {o : PredOp} (ho : o ∈ p.ops)
    {i : Nat} {stack stack' : List Bool} : p.evaluateStep attrVector stack (o, i) = .ok stack' ↔
      Postfix.step (boolAlg (p.tupleValue attrVector Tuple.lowValue)) stack o.toOp = some stack' := by
  obtain ⟨code, operand⟩ := o
  cases code with
  | pushTuple =>
    have hlt := H.valid.push_lt _ ho rfl
    have hget := List.getElem?_eq_getElem hlt
    have hmem := List.mem_of_getElem? hget
    simp [evaluateStep, toOp, Postfix.step, boolAlg, hget, okOr, tupleValue,
      (H.tuples _ hmem).evalTuple_eq (H.attr hmem)]
  | nop => cases stack <;> simp [evaluateStep, toOp, Postfix.step]
  | not => cases stack <;> simp [evaluateStep, toOp, Postfix.step, boolAlg]
  | and | or =>
    rcases stack with _ | ⟨b, _ | ⟨a, rest⟩⟩ <;> simp [evaluateStep, toOp, Postfix.step, boolAlg]

theorem Evaluable.foldlM_evaluateStep (H : Evaluable p attrVector) {os : List PredOp}
    (hos : ∀ o ∈ os, o ∈ p.ops) (k : Nat) {stack stack' : List Bool} :
    (os.zipIdx k).foldlM (p.evaluateStep attrVector) stack = .ok stack' ↔
      Postfix.run (boolAlg (p.tupleValue attrVector Tuple.lowValue)) (os.map toOp) stack = some stack' := by
  induction os generalizing k stack with
  | nil => simp
  | cons o os ih =>
    obtain ⟨ho, hos⟩ := List.forall_mem_cons.mp hos
    simp only [List.zipIdx_cons, List.foldlM_cons, bind_eq_ok, H.evaluateStep_eq_ok ho,
      List.map_cons, Postfix.run_cons, Option.bind_eq_some_iff, ih hos]

/-- A result is read off a stack of one value. -/
theorem singleton_eq_ok {ε : Type} {stack : List Bool} {b : Bool} {e : ε} : (match stack with
      | [result] => (pure result : Except ε Bool)
      | _ => throw e) = .ok b ↔ stack = [b] := by
  rcases stack with _ | ⟨x, _ | ⟨y, rest⟩⟩ <;> simp [pure, Except.pure, throw, throwThe, MonadExceptOf.throw]

theorem Evaluable.evaluate_eq_ok (H : Evaluable p attrVector) (hv : p.validate = .ok ()) {b : Bool} :
    p.evaluate attrVector = .ok b ↔
      Postfix.run (boolAlg (p.tupleValue attrVector Tuple.lowValue)) (p.ops.map toOp) [] = some [b] := by
  have hloop := @Evaluable.foldlM_evaluateStep p attrVector H p.ops (fun _ h => h) 0 []
  rw [evaluate, hv, ok_bind, bind_eq_ok]
  constructor
  · rintro ⟨stack, hstack, hlast⟩
    obtain rfl := singleton_eq_ok.mp hlast
    exact hloop.mp hstack
  · intro hrun
    exact ⟨[b], hloop.mpr hrun, rfl⟩

open PredicateProgram (active length_active getElem?_active lt_of_mem_active le_of_mem_drop)

/-- The tuple loop of the circuit computes the full values. -/
theorem Evaluable.tupleBools_eq (H : Evaluable p attrVector) : p.padded.tupleBools (signerAttrs attrVector) =
      .ok ((List.finRange 20).map fun t => p.tupleValue attrVector Tuple.fullValue t.val) := by
  apply mapM_eq_ok.mpr
  rw [List.forall₂_map_right_iff, List.forall₂_same]
  intro i _
  have hattr : ∀ j : Fin 4, signerAttrs attrVector j = attrVector.getD j.val 0 := fun j => by
    rw [signerAttrs, List.take_of_length_le H.four.le]
  cases ht : p.tuples[i.val]? with
  | some t =>
    have hmem := List.mem_of_getElem? ht
    have hlt : i.val < p.tuples.length := (List.getElem?_eq_some_iff.mp ht).1
    have hclaim : p.padded.tupleClaimIndex i = t.claimIndex := by simp [padded, ht]
    have hoperand : p.padded.tupleOperand i = frFromBeBytes t.operand.1 := by simp [padded, ht]
    have htag : p.padded.tupleTypeTag i = t.typeTag.toByte := by simp [padded, ht]
    have hcmp : p.padded.tupleComparator i = t.comparator.toByte := by simp [padded, ht]
    rw [hclaim, hoperand, htag, hcmp, dif_pos (H.claims t hmem), ok_bind]
    dsimp only
    rw [(H.tuples t hmem).evaluateTuple_eq, hattr, tupleValue, ht]
    exact congrArg Except.ok (if_pos hlt)
  | none =>
    have hge : ¬ i.val < p.tuples.length := not_lt.mpr (List.getElem?_eq_none_iff.mp ht)
    have hclaim : p.padded.tupleClaimIndex i = 0 := by simp [padded, ht]
    have hoperand : p.padded.tupleOperand i = 0 := by simp [padded, ht]
    have htag : p.padded.tupleTypeTag i = 0x01 := by simp [padded, ht]
    have hcmp : p.padded.tupleComparator i = 0x10 := by simp [padded, ht]
    rw [hclaim, hoperand, htag, hcmp, tupleValue, ht]
    exact congrArg Except.ok (if_neg hge)

/-- One round of the circuit is one op of the program, as long as there is room on the stack. -/
theorem evaluateOp_rawOp {vals stack stack' : List Bool} {o : PredOp}
    (hlt : o.operand.toNat < vals.length) (hroom : stack.length < 20) :
    evaluateOp vals true stack (rawOp o) = .ok stack' ↔
      Postfix.step (boolAlg fun k => vals.getD k false) stack o.toOp = some stack' := by
  obtain ⟨code, operand⟩ := o
  have hget := List.getElem?_eq_getElem hlt
  cases code with
  | pushTuple =>
    simp [evaluateOp, rawOp, OpCode.toByte, toOp, Postfix.step, boolAlg, hget, okOr, require, hroom]
  | nop =>
    cases stack <;> simp [evaluateOp, rawOp, OpCode.toByte, toOp, Postfix.step, hget, okOr, require]
  | not =>
    cases stack <;> simp [evaluateOp, rawOp, OpCode.toByte, toOp, Postfix.step, boolAlg, hget, okOr]
  | and | or =>
    rcases stack with _ | ⟨b, _ | ⟨a, rest⟩⟩ <;>
      simp [evaluateOp, rawOp, OpCode.toByte, toOp, Postfix.step, boolAlg, hget, okOr,
        Bool.and_comm, Bool.or_comm]

/-- The rounds at the positions `is`, which hold the ops `os`. -/
theorem foldlM_evaluateOp {vals : List Bool} {n : Nat} {w : PredicateProgram} {is : List (Fin 20)}
    {os : List PredOp} (hmap : is.map w.rawOp = os.map rawOp) (his : ∀ i ∈ is, i.val < n)
    (hos : ∀ o ∈ os, o.operand.toNat < vals.length) {stack stack' : List Bool}
    (hroom : stack.length + os.length ≤ 20) :
    is.foldlM (fun stack i => evaluateOp vals (decide (i.val < n)) stack (w.rawOp i)) stack = .ok stack' ↔
      Postfix.run (boolAlg fun k => vals.getD k false) (os.map toOp) stack = some stack' := by
  induction os generalizing is stack with
  | nil =>
    obtain rfl := List.map_eq_nil_iff.mp hmap
    simp
  | cons o os ih =>
    obtain ⟨i, is, rfl, hi, hmap⟩ := List.map_eq_cons_iff.mp hmap
    obtain ⟨hlt, his⟩ := List.forall_mem_cons.mp his
    obtain ⟨ho, hos⟩ := List.forall_mem_cons.mp hos
    rw [List.length_cons] at hroom
    simp only [List.foldlM_cons, decide_eq_true hlt, hi, bind_eq_ok, List.map_cons,
      Postfix.run_cons, Option.bind_eq_some_iff]
    have hstep := fun st => @evaluateOp_rawOp vals stack st o ho (by omega)
    constructor
    · rintro ⟨st, hst, hrest⟩
      have hlen := Postfix.length_step ((hstep st).mp hst)
      exact ⟨st, (hstep st).mp hst, (ih hmap his hos (by omega)).mp hrest⟩
    · rintro ⟨st, hst, hrest⟩
      have hlen := Postfix.length_step hst
      exact ⟨st, (hstep st).mpr hst, (ih hmap his hos (by omega)).mpr hrest⟩

/-- Past the ops there are NOPs only. -/
theorem foldlM_evaluateOp_padding {vals : List Bool} (hvals : vals ≠ []) {is : List (Fin 20)}
    (his : ∀ i ∈ is, p.ops.length ≤ i.val) (stack : List Bool) : is.foldlM (fun stack i =>
      evaluateOp vals (decide (i.val < p.ops.length)) stack (p.padded.rawOp i)) stack = .ok stack := by
  induction is with
  | nil => rfl
  | cons i is ih =>
    obtain ⟨hge, his⟩ := List.forall_mem_cons.mp his
    have hnop : p.padded.rawOp i = ⟨0xff, 0⟩ := by
      simp [PredicateProgram.rawOp, padded, List.getElem?_eq_none hge]
    obtain ⟨v, vals, rfl⟩ := List.exists_cons_of_ne_nil hvals
    rw [List.foldlM_cons, hnop, decide_eq_false (not_lt.mpr hge)]
    exact ih his

theorem Valid.padded_rawOps (hv : p.Valid) : (active p.ops.length).map p.padded.rawOp = p.ops.map rawOp := by
  apply List.ext_getElem?
  intro k
  rw [List.getElem?_map, List.getElem?_map]
  rcases Nat.lt_or_ge k p.ops.length with hk | hk
  · rw [getElem?_active hk (hk.trans_le hv.ops_le), List.getElem?_eq_getElem hk]
    simp [PredicateProgram.rawOp, padded, rawOp, hk]
  · rw [List.getElem?_eq_none hk, List.getElem?_eq_none (by rw [length_active hv.ops_le]; exact hk)]
    rfl

theorem Evaluable.evaluatePredicate_eq_ok (H : Evaluable p attrVector) {b : Bool} :
    p.padded.evaluatePredicate (signerAttrs attrVector) = .ok b ↔
      Postfix.run (boolAlg (p.tupleValue attrVector Tuple.fullValue)) (p.ops.map toOp) [] = some [b] := by
  set vals := (List.finRange 20).map fun t => p.tupleValue attrVector Tuple.fullValue t.val with hvals
  have hlen : vals.length = 20 := by simp [hvals]
  have hvalue : (fun k => vals.getD k false) = p.tupleValue attrVector Tuple.fullValue := by
    funext k
    rcases Nat.lt_or_ge k 20 with hk | hk
    · simp [hvals, hk]
    · have hnone : p.tuples[k]? = none := List.getElem?_eq_none (H.valid.tuples_le.trans hk)
      rw [List.getD_eq_getElem?_getD, List.getElem?_eq_none (hlen.le.trans hk), tupleValue, hnone]
      rfl
  have hoperands : ∀ o ∈ p.ops, o.operand.toNat < vals.length := by
    intro o ho
    rw [hlen]
    by_cases hc : o.code = .pushTuple
    · exact (H.valid.push_lt o ho hc).trans_le H.valid.tuples_le
    · rw [H.valid.operand_zero o ho hc]
      decide
  have hroom : ([] : List Bool).length + p.ops.length ≤ 20 := by simpa using H.valid.ops_le
  have hactive := fun stack => @foldlM_evaluateOp vals p.ops.length p.padded _ p.ops H.valid.padded_rawOps
    (fun i hi => lt_of_mem_active hi) hoperands [] stack hroom
  rw [hvalue] at hactive
  have hpad := @foldlM_evaluateOp_padding p vals (List.ne_nil_of_length_pos (by omega))
    ((List.finRange 20).drop p.ops.length) (fun i hi => le_of_mem_drop hi)
  rw [PredicateProgram.evaluatePredicate, H.tupleBools_eq, ok_bind, bind_eq_ok, ← hvals,
    ← List.take_append_drop p.ops.length (List.finRange 20)]
  simp only [List.foldlM_append, bind_eq_ok]
  constructor
  · rintro ⟨stack, ⟨st, hst, hrest⟩, hlast⟩
    obtain rfl := singleton_eq_ok.mp hlast
    obtain rfl := Except.ok.inj ((hpad st).symm.trans hrest)
    exact (hactive [b]).mp hst
  · intro hrun
    exact ⟨[b], ⟨[b], (hactive [b]).mpr hrun, hpad [b]⟩, rfl⟩

theorem Evaluable.evaluatesAlike_iff (H : Evaluable p attrVector) (hv : p.validate = .ok ()) :
    EvaluatesAlike p attrVector ↔ ∀ b,
      Postfix.run (boolAlg (p.tupleValue attrVector Tuple.lowValue)) (p.ops.map toOp) [] = some [b] ↔
        Postfix.run (boolAlg (p.tupleValue attrVector Tuple.fullValue)) (p.ops.map toOp) [] = some [b] := by
  have hprogram : signerProgram p = .ok p.padded := by
    have htuples := H.valid.tuples_le
    have hops := H.valid.ops_le
    rw [signerProgram, failIf_neg (by omega)]
    rfl
  simp only [EvaluatesAlike, H.evaluate_eq_ok hv, hprogram, Except.ok.injEq, exists_eq_left',
    H.evaluatePredicate_eq_ok]

/-- A predicate is evaluated alike if every comparison it pushes is. -/
theorem Evaluable.evaluatesAlike (H : Evaluable p attrVector) (hv : p.validate = .ok ())
    (h : ∀ o ∈ p.ops, o.code = .pushTuple → ∀ t, p.tuples[o.operand.toNat]? = some t →
      t.ComparesAlike (attrVector.getD t.claimIndex.toNat 0)) : EvaluatesAlike p attrVector := by
  apply (H.evaluatesAlike_iff hv).mpr
  intro b
  have hrun := @Postfix.run_congr Nat Bool (boolAlg (p.tupleValue attrVector Tuple.lowValue))
    (p.tupleValue attrVector Tuple.fullValue) (p.ops.map toOp) (fun k hk => by
      obtain ⟨o, ho, hop⟩ := List.mem_map.mp hk
      obtain ⟨code, operand⟩ := o
      cases code with
      | pushTuple =>
        obtain rfl : operand.toNat = k := Postfix.Op.push.inj hop
        have hget := List.getElem?_eq_getElem (H.valid.push_lt _ ho rfl)
        have hmem := List.mem_of_getElem? hget
        simp only [boolAlg, tupleValue, hget]
        exact (H.tuples _ hmem).lowValue_eq_iff.mpr (h _ ho rfl _ hget)
      | and | or | not | nop => cases hop) []
  rw [hrun]
  rfl

end PredicateDef

open PredicateDef in
/-- For a validated predicate and four attributes: the evaluations agree if every comparison the
program pushes tells nothing beyond the low 64 bits, and they agree on all programs over its tuples
only if that holds for each of them. -/
theorem evaluate_agrees_iff {p : PredicateDef} {attrVector : List Fr} (hv : p.validate = .ok ())
    (hclaims : ∀ t ∈ p.tuples, t.claimIndex.toNat < 4) (hfour : attrVector.length = 4) :
    ((∀ o ∈ p.ops, o.code = .pushTuple → ∀ t, p.tuples[o.operand.toNat]? = some t →
      t.ComparesAlike (attrVector.getD t.claimIndex.toNat 0)) → EvaluatesAlike p attrVector) ∧
    ((∀ ops, PredicateDef.validate ⟨p.tuples, ops⟩ = .ok () → EvaluatesAlike ⟨p.tuples, ops⟩ attrVector) ↔
      ∀ t ∈ p.tuples, t.ComparesAlike (attrVector.getD t.claimIndex.toNat 0)) := by
  have htuples := tuples_valid hv
  have hcount := (valid_of_validate hv).tuples_le
  refine ⟨Evaluable.evaluatesAlike ⟨valid_of_validate hv, htuples, hfour, hclaims⟩ hv, ?_, ?_⟩
  · intro hall t ht
    -- the program that pushes the tuple and nothing else
    obtain ⟨k, hk⟩ := List.mem_iff_getElem?.mp ht
    have hlt : k < p.tuples.length := (List.getElem?_eq_some_iff.mp hk).1
    have hk256 : (UInt8.ofNat k).toNat = k := by
      rw [UInt8.toNat_ofNat']
      exact Nat.mod_eq_of_lt (by omega)
    set q : PredicateDef := ⟨p.tuples, [⟨.pushTuple, UInt8.ofNat k⟩]⟩
    have hq : q.validate = .ok () := by
      simp only [validate, bind_eq_ok, failIf_eq_ok, not_not, forM_eq_ok] at hv ⊢
      obtain ⟨_, hcounts, _, -, _, -, hchecks⟩ := hv
      refine ⟨(), hcounts, (), ⟨Nat.le_refl 1, Nat.succ_le_succ (Nat.zero_le 19)⟩, (), ?_, hchecks⟩
      intro o ho
      obtain rfl := List.mem_singleton.mp ho
      rw [validateOp, if_pos rfl, failIf_eq_ok, hk256]
      exact not_le.mpr hlt
    have H : Evaluable q attrVector := ⟨valid_of_validate hq, htuples, hfour, hclaims⟩
    have hrun : ∀ value b, Postfix.run (boolAlg (q.tupleValue attrVector value))
        (q.ops.map toOp) [] = some [b] ↔ value t (attrVector.getD t.claimIndex.toNat 0) = b := by
      intro value b
      have hvalue : q.tupleValue attrVector value k = value t (attrVector.getD t.claimIndex.toNat 0) := by
        simp only [tupleValue, q, hk]
      simp [q, toOp, Postfix.step, boolAlg, hk256, hvalue]
    have halike := (H.evaluatesAlike_iff hq).mp (hall _ hq)
    simp only [hrun] at halike
    exact (htuples t ht).lowValue_eq_iff.mp ((halike _).mpr rfl)
  · intro h ops hops
    apply Evaluable.evaluatesAlike ⟨valid_of_validate hops, htuples, hfour, hclaims⟩ hops
    intro o _ _ t ht
    exact h t (List.mem_of_getElem? ht)

/-- `attr[0] <= 100`. -/
def atMostHundred : PredicateDef := ⟨[⟨0, .ofNat 32 100, .int64, .le⟩], [⟨.pushTuple, 0⟩]⟩

/-- The attribute `2 ^ 64` is at most 100 in Rust and not in the circuit. -/
theorem evaluate_disagrees : atMostHundred.validate = .ok () ∧
    atMostHundred.evaluate [.reduce (2 ^ 64), 0, 0, 0] = .ok true ∧
    signerProgram atMostHundred = .ok atMostHundred.padded ∧
    atMostHundred.padded.evaluatePredicate (signerAttrs [.reduce (2 ^ 64), 0, 0, 0]) = .ok false ∧
    ¬ EvaluatesAlike atMostHundred [.reduce (2 ^ 64), 0, 0, 0] := by
  have hrust : atMostHundred.evaluate [.reduce (2 ^ 64), 0, 0, 0] = .ok true := by decide +kernel
  have hcircuit : atMostHundred.padded.evaluatePredicate
      (signerAttrs [.reduce (2 ^ 64), 0, 0, 0]) = .ok false := by decide +kernel
  refine ⟨by decide +kernel, hrust, rfl, hcircuit, fun h => ?_⟩
  obtain ⟨w, hw, htrue⟩ := (h true).mp hrust
  obtain rfl : atMostHundred.padded = w := Except.ok.inj hw
  cases hcircuit.symm.trans htrue

theorem evaluate_agrees_iff_hundred : EvaluatesAlike atMostHundred [.reduce 50, 0, 0, 0] ∧
    ¬ ∀ ops, PredicateDef.validate ⟨atMostHundred.tuples, ops⟩ = .ok () →
      EvaluatesAlike ⟨atMostHundred.tuples, ops⟩ [.reduce (2 ^ 64), 0, 0, 0] := by
  have hv : atMostHundred.validate = .ok () := by decide +kernel
  have hclaims : ∀ t ∈ atMostHundred.tuples, t.claimIndex.toNat < 4 := by decide
  refine ⟨(evaluate_agrees_iff hv hclaims rfl).2.mpr ?_ _ hv, fun h => ?_⟩
  · exact List.forall_mem_singleton.mpr (.inl (by decide +kernel))
  · have halike := (evaluate_agrees_iff hv hclaims rfl).2.mp h _ (List.mem_singleton_self _)
    revert halike
    show ¬ (_ ∨ _)
    decide +kernel

end Pocs.Civic
