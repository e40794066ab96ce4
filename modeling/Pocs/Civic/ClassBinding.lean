import Pocs.Lib.BinarySearch
import Pocs.Civic.Predicate

/-! # The class-binding check of the contract

`validateParams` and `validateClassBinding` are `_validateParams` and `_validateClassBinding` of
`PetitionRegistry.sol`, on the bytes of a serialized predicate. On bytes laid out as tuples and ops
the check is one statement about the program (`validateClassBinding_layout`): the program decodes
and commits to a tuple whose tag is in the class set. -/

namespace Pocs.Civic

open Postfix (Commits)

/-- The reverts of the two checks; `panic` is an out-of-bounds read or a checked overflow. -/
inductive Revert where
  | invalidPetition
  | signingWindowTooLong
  | classSetInvalid
  | classThresholdsInvalid
  | predicateMalformed
  | bountyFloor
  | classBindingMissing
  | panic
  deriving DecidableEq, Repr

namespace Sol

/-- What `_validateParams` reads of the chain and the contract storage. -/
structure Context where
  blockNumber : Nat
  attrCount : Nat
  alpha : Nat

/-- What `_validateParams` reads of `PetitionParams`. -/
structure PetitionParams where
  closeAtBlock : Nat
  classIndex : UInt8
  classSet : List ClassTag
  classThresholds : List Nat
  predicateDef : List UInt8
  bounty : Nat

def maxSigningWindowBlocks : Nat := 82800

/-- An indexed read of a `bytes` value. -/
def byteAt (bs : List UInt8) (i : Nat) : Except Revert UInt8 := okOr bs[i]? .panic

def classInSetMemory (c : ClassTag) (set : List ClassTag) : Bool :=
  (binarySearch set c 0 set.length).isSome

def validateParams (ctx : Context) (params : PetitionParams) : Except Revert Unit := do
  failIf (params.closeAtBlock ≤ ctx.blockNumber) .invalidPetition
  failIf (params.closeAtBlock - ctx.blockNumber > maxSigningWindowBlocks) .signingWindowTooLong
  failIf (params.classIndex.toNat ≥ ctx.attrCount) .invalidPetition
  let n := params.classSet.length
  failIf (n = 0 ∨ n ≠ params.classThresholds.length) .classSetInvalid
  failIf (n > 16) .classSetInvalid
  failIf (¬ params.classSet.IsChain (· < ·)) .classSetInvalid
  let sumThresholds ← params.classThresholds.foldlM (fun sum threshold => do
    failIf (threshold < 1) .classThresholdsInvalid
    okOr (checkedAdd 256 sum threshold) Revert.panic) 0
  failIf (params.predicateDef.length > 1024) .predicateMalformed
  failIf (params.predicateDef.length < 2) .predicateMalformed
  let tupleCount := (← byteAt params.predicateDef 0).toNat
  failIf (tupleCount < 1 ∨ tupleCount > 20) .predicateMalformed
  let opOff := 1 + tupleCount * 35
  failIf (opOff ≥ params.predicateDef.length) .predicateMalformed
  let opCount := (← byteAt params.predicateDef opOff).toNat
  failIf (opCount < 1 ∨ opCount > 20) .predicateMalformed
  failIf (params.predicateDef.length ≠ opOff + 1 + opCount * 2) .predicateMalformed
  let alphaTen ← okOr (checkedMul 256 ctx.alpha 10) .panic
  let perOp ← okOr (checkedMul 256 alphaTen sumThresholds) .panic
  let floor ← okOr (checkedMul 256 perOp opCount) .panic
  failIf (params.bounty < floor) .bountyFloor

def markBindingTuple (predicateDef : List UInt8) (classIndex : UInt8) (classSet : List ClassTag)
    (t : Nat) : Except Revert Bool := do
  let tOff := 1 + t * 35
  if (← byteAt predicateDef tOff) ≠ classIndex then return false
  let typeTag ← byteAt predicateDef (tOff + 33)
  failIf (typeTag ≠ 0x01 ∧ typeTag ≠ 0x02 ∧ typeTag ≠ 0x03) .predicateMalformed
  if (← byteAt predicateDef (tOff + 34)) ≠ 0x10 then return false
  let highZero ← (List.range 30).allM fun b => do
    pure (decide ((← byteAt predicateDef (tOff + 1 + b)) = 0))
  if !highZero then return false
  let hi ← byteAt predicateDef (tOff + 1 + 30)
  let lo ← byteAt predicateDef (tOff + 1 + 31)
  let ct : ClassTag := hi.toUInt16 <<< 8 ||| lo.toUInt16
  if classInSetMemory ct classSet then
    -- `isBindingTuple[t] = true` in an array of 20
    failIf (t ≥ 20) .panic
    return true
  return false

/-- A read of the array `isBindingTuple`. -/
def bindingAt (isBindingTuple : List Bool) (t : Nat) : Except Revert Bool := do
  failIf (t ≥ 20) .panic
  pure (isBindingTuple.getD t false)

/-- One round of the taint loop; the array and its stack pointer are kept as a list, top first. -/
def taintOp (isBindingTuple : List Bool) (tupleCount : Nat) (taint : List Tag)
    (code operand : UInt8) : Except Revert (List Tag) := do
  if code = 0x20 then
    failIf (taint.length ≥ 20) .predicateMalformed
    failIf (operand.toNat ≥ tupleCount) .predicateMalformed
    let binding ← bindingAt isBindingTuple operand.toNat
    return (if binding then .bound else .free) :: taint
  else if code = 0x21 then
    failIf (operand ≠ 0) .predicateMalformed
    match taint with
    | a :: b :: rest =>
      let combined := if a = .bound ∨ b = .bound then Tag.bound
        else if a = .tainted ∨ b = .tainted then .tainted else .free
      return combined :: rest
    | _ => throw .predicateMalformed
  else if code = 0x22 then
    failIf (operand ≠ 0) .predicateMalformed
    match taint with
    | a :: b :: rest =>
      let combined := if a = .bound ∧ b = .bound then Tag.bound
        else if a = .bound ∨ b = .bound ∨ a = .tainted ∨ b = .tainted then .tainted else .free
      return combined :: rest
    | _ => throw .predicateMalformed
  else if code = 0x23 then
    failIf (operand ≠ 0) .predicateMalformed
    match taint with
    | a :: rest => return (if a = .bound then .tainted else a) :: rest
    | [] => throw .predicateMalformed
  else if code = 0xff then
    failIf (operand ≠ 0) .predicateMalformed
    return taint
  else throw .predicateMalformed

/-- The registry's walk over the program. -/
def validateClassBinding (predicateDef : List UInt8) (classIndex : UInt8)
    (classSet : List ClassTag) : Except Revert Unit := do
  let tupleCount := (← byteAt predicateDef 0).toNat
  let opOff := 1 + tupleCount * 35
  let opCount := (← byteAt predicateDef opOff).toNat
  let isBindingTuple ← (List.range tupleCount).mapM (markBindingTuple predicateDef classIndex classSet)
  let anyBinding ← (List.range tupleCount).anyM (bindingAt isBindingTuple)
  failIf (!anyBinding) .classBindingMissing
  let taint ← (List.range opCount).foldlM (fun taint i => do
    let code ← byteAt predicateDef (opOff + 1 + i * 2)
    let operand ← byteAt predicateDef (opOff + 1 + i * 2 + 1)
    taintOp isBindingTuple tupleCount taint code operand) []
  match taint with
  | [tag] => failIf (tag ≠ .bound) .classBindingMissing
  | _ => throw .predicateMalformed

end Sol

/-! ## Serialized programs -/

structure RawTuple where
  claimIndex : UInt8
  operand : Bytes32
  typeTag : UInt8
  comparator : UInt8
  deriving DecidableEq

structure RawOp where
  code : UInt8
  operand : UInt8
  deriving DecidableEq

def RawTuple.bytes (t : RawTuple) : List UInt8 :=
  t.claimIndex :: t.operand.1 ++ [t.typeTag, t.comparator]

def RawOp.bytes (o : RawOp) : List UInt8 := [o.code, o.operand]

/-- The wire format of a predicate. -/
def layout (tuples : List RawTuple) (ops : List RawOp) : List UInt8 :=
  UInt8.ofNat tuples.length :: tuples.flatMap RawTuple.bytes ++
    UInt8.ofNat ops.length :: ops.flatMap RawOp.bytes

/-- A tuple `attr[classIndex] == tag` with a tag of 16 bits in the class set. -/
def RawTuple.IsClassBinding (classIndex : UInt8) (classSet : List ClassTag) (t : RawTuple) :
    Prop :=
  t.claimIndex = classIndex ∧ t.comparator = 0x10 ∧ (t.operand.1.take 30).all (· = 0) ∧
    operandTag t.operand ∈ classSet

instance (classIndex : UInt8) (classSet : List ClassTag) (t : RawTuple) :
    Decidable (t.IsClassBinding classIndex classSet) :=
  inferInstanceAs (Decidable (_ ∧ _))

/-- The op a code and an operand stand for in a program of `tupleCount` tuples. -/
def RawOp.decode (tupleCount : Nat) (o : RawOp) : Option (Postfix.Op Nat) :=
  if o.code = 0x20 then if o.operand.toNat < tupleCount then some (.push o.operand.toNat) else none
  else if o.operand ≠ 0 then none
  else if o.code = 0x21 then some .and
  else if o.code = 0x22 then some .or
  else if o.code = 0x23 then some .not
  else if o.code = 0xff then some .nop
  else none

/-- The tuple at index `k` satisfies `B`. -/
def TupleAt (tuples : List RawTuple) (B : RawTuple → Prop) (k : Nat) : Prop :=
  ∃ t, tuples[k]? = some t ∧ B t

instance (tuples : List RawTuple) (B : RawTuple → Prop) [DecidablePred B] :
    DecidablePred (TupleAt tuples B) := fun k =>
  match h : tuples[k]? with
  | none => isFalse fun ⟨_, ht, _⟩ => by simp [h] at ht
  | some t =>
    if hB : B t then isTrue ⟨t, h, hB⟩
    else isFalse fun ⟨_, ht, hB'⟩ => hB (Option.some.inj (h.symm.trans ht) ▸ hB')

theorem RawTuple.length_bytes (t : RawTuple) : t.bytes.length = 35 := by
  simp [RawTuple.bytes, t.operand.2]

theorem RawOp.length_bytes (o : RawOp) : o.bytes.length = 2 := rfl

section
variable {tuples : List RawTuple} {ops : List RawOp}

theorem layout_tuple (t : Nat) {j : Nat} (hj : j < 35) (ht : t < tuples.length) :
    (layout tuples ops)[1 + t * 35 + j]? = tuples[t]?.bind fun x => x.bytes[j]? := by
  have hlen := length_flatMap_chunk RawTuple.length_bytes tuples
  have hlt : t * 35 + j < (tuples.flatMap RawTuple.bytes).length := by rw [hlen]; omega
  rw [layout, show 1 + t * 35 + j = t * 35 + j + 1 by omega, List.cons_append,
    List.getElem?_cons_succ, List.getElem?_append_left hlt,
    getElem?_flatMap_chunk RawTuple.length_bytes tuples t hj]

private theorem layout_tail (j : Nat) : (layout tuples ops)[1 + tuples.length * 35 + j]? =
    (UInt8.ofNat ops.length :: ops.flatMap RawOp.bytes)[j]? := by
  have hlen := length_flatMap_chunk RawTuple.length_bytes tuples
  rw [layout, show 1 + tuples.length * 35 + j = tuples.length * 35 + j + 1 by omega,
    List.cons_append, List.getElem?_cons_succ, ← hlen, List.getElem?_append_right (by omega)]
  congr 1
  omega

theorem layout_opCount : (layout tuples ops)[1 + tuples.length * 35]? = some (UInt8.ofNat ops.length) :=
  layout_tail 0

theorem layout_op (i : Nat) {j : Nat} (hj : j < 2) :
    (layout tuples ops)[1 + tuples.length * 35 + 1 + i * 2 + j]? = ops[i]?.bind fun o => o.bytes[j]? := by
  have h := @layout_tail tuples ops (i * 2 + j + 1)
  rw [List.getElem?_cons_succ, getElem?_flatMap_chunk RawOp.length_bytes ops i hj] at h
  rw [← h]
  congr 1
  omega

end

/-! ## The check on a serialized program -/

namespace Sol
variable {tuples : List RawTuple} {ops : List RawOp} {classIndex : UInt8} {classSet : List ClassTag}

private theorem byteAt_tuple {k : Nat} {t : RawTuple} (ht : tuples[k]? = some t) {j : Nat} {b : UInt8}
    (hj : j < 35) (hb : t.bytes[j]? = some b) : byteAt (layout tuples ops) (1 + k * 35 + j) = .ok b := by
  obtain ⟨hk, -⟩ := List.getElem?_eq_some_iff.mp ht
  rw [byteAt, layout_tuple k hj hk, ht, Option.bind_some, hb]
  rfl

private theorem bytes_operand (t : RawTuple) {b : Nat} (hb : b < 32) :
    t.bytes[1 + b]? = some (t.operand.1.getD b 0) := by
  have hlt : b < t.operand.1.length := by rw [t.operand.2]; exact hb
  rw [RawTuple.bytes, Nat.add_comm, List.cons_append, List.getElem?_cons_succ,
    List.getElem?_append_left hlt, List.getD_eq_getElem?_getD, List.getElem?_eq_getElem hlt,
    Option.getD_some]

private theorem bytes_tail (t : RawTuple) (j : Nat) : t.bytes[33 + j]? = [t.typeTag, t.comparator][j]? := by
  rw [RawTuple.bytes, show 33 + j = 32 + j + 1 by omega, List.cons_append,
    List.getElem?_cons_succ, List.getElem?_append_right (by rw [t.operand.2]; omega), t.operand.2]
  congr 1
  omega

private theorem allM_ok {f : Nat → Except Revert Bool} {p : Nat → Bool} {xs : List Nat}
    (h : ∀ b ∈ xs, f b = .ok (p b)) : xs.allM f = .ok (xs.all p) := by
  induction xs with
  | nil => rfl
  | cons x xs ih =>
    rw [List.allM, h x List.mem_cons_self, List.all_cons]
    cases hp : p x with
    | false => rfl
    | true => exact ih fun b hb => h b (List.mem_cons_of_mem x hb)

private theorem anyM_ok {f : Nat → Except Revert Bool} {p : Nat → Bool} {xs : List Nat}
    (h : ∀ b ∈ xs, f b = .ok (p b)) : xs.anyM f = .ok (xs.any p) := by
  induction xs with
  | nil => rfl
  | cons x xs ih =>
    rw [List.anyM, h x List.mem_cons_self, List.any_cons]
    cases hp : p x with
    | true => rfl
    | false => exact ih fun b hb => h b (List.mem_cons_of_mem x hb)

private theorem take_all_zero (operand : Bytes32) :
    (List.range 30).all (fun b => decide (operand.1.getD b 0 = 0)) = (operand.1.take 30).all (· = 0) := by
  have htake : operand.1.take 30 = (List.range 30).map fun b => operand.1.getD b 0 := by
    apply List.ext_getElem
    · simp [operand.2]
    · intro i h1 h2
      have hi : i < operand.1.length := by
        rw [operand.2]
        simp only [List.length_map, List.length_range] at h2
        omega
      simp [List.getElem?_eq_getElem hi]
  rw [htake, List.all_map]
  rfl

/-- What `markBindingTuple` computes of the tuple it reads. -/
private theorem markBindingTuple_layout (hlen : tuples.length ≤ 20)
    (hset : classSet.Pairwise (· < ·)) {k : Nat} {t : RawTuple} (ht : tuples[k]? = some t) :
    markBindingTuple (layout tuples ops) classIndex classSet k =
      if t.claimIndex = classIndex ∧ t.typeTag ≠ 0x01 ∧ t.typeTag ≠ 0x02 ∧ t.typeTag ≠ 0x03 then
        .error .predicateMalformed else .ok (decide (t.IsClassBinding classIndex classSet)) := by
  have hk : ¬ k ≥ 20 := by
    obtain ⟨hk, -⟩ := List.getElem?_eq_some_iff.mp ht
    omega
  have hclaim : byteAt (layout tuples ops) (1 + k * 35) = .ok t.claimIndex :=
    byteAt_tuple ht (j := 0) (by decide) rfl
  have htag : byteAt (layout tuples ops) (1 + k * 35 + 33) = .ok t.typeTag :=
    byteAt_tuple ht (by decide) (bytes_tail t 0)
  have hcmp : byteAt (layout tuples ops) (1 + k * 35 + 34) = .ok t.comparator :=
    byteAt_tuple ht (by decide) (bytes_tail t 1)
  have hoperand : ∀ b < 32, byteAt (layout tuples ops) (1 + k * 35 + 1 + b) = .ok (t.operand.1.getD b 0) := by
    intro b hb
    rw [Nat.add_assoc]
    exact byteAt_tuple ht (by omega) (bytes_operand t hb)
  have hhigh : ((List.range 30).allM fun b => do
      pure (decide ((← byteAt (layout tuples ops) (1 + k * 35 + 1 + b)) = 0))) =
      .ok ((t.operand.1.take 30).all (· = 0)) := by
    rw [← take_all_zero]
    refine allM_ok fun b hb => ?_
    rw [hoperand b (by have := List.mem_range.mp hb; omega)]
    rfl
  have hset' : classInSetMemory (operandTag t.operand) classSet = true ↔
      operandTag t.operand ∈ classSet := binarySearch_isSome hset
  simp only [markBindingTuple, hclaim, htag, hcmp, hhigh, hoperand 30 (by decide),
    hoperand 31 (by decide), ok_bind]
  have hno : ¬ t.IsClassBinding classIndex classSet →
      (pure false : Except Revert Bool) = .ok (decide (t.IsClassBinding classIndex classSet)) := by
    intro h
    rw [decide_eq_false h]
    rfl
  by_cases hci : t.claimIndex = classIndex
  · rw [if_neg (not_not.mpr hci)]
    by_cases hbad : t.typeTag ≠ 0x01 ∧ t.typeTag ≠ 0x02 ∧ t.typeTag ≠ 0x03
    · rw [failIf_pos hbad, error_bind]
      exact (if_pos ⟨hci, hbad⟩).symm
    · rw [failIf_neg hbad, ok_bind]
      refine Eq.trans ?_ (if_neg fun h => hbad h.2).symm
      by_cases heq : t.comparator = 0x10
      · rw [if_neg (not_not.mpr heq)]
        by_cases hz : (t.operand.1.take 30).all (· = 0) = true
        · rw [if_neg (by simp only [hz]; decide)]
          by_cases hm : operandTag t.operand ∈ classSet
          · have hin : t.IsClassBinding classIndex classSet := ⟨hci, heq, hz, hm⟩
            refine (if_pos (hset'.mpr hm)).trans ?_
            rw [failIf_neg hk, ok_bind, decide_eq_true hin]
            rfl
          · refine (if_neg fun h => hm (hset'.mp h)).trans (hno fun h => hm h.2.2.2)
        · rw [if_pos (by simpa using hz)]
          exact hno fun h => hz h.2.2.1
      · rw [if_pos heq]
        exact hno fun h => heq h.2.1
  · rw [if_pos hci]
    refine Eq.trans ?_ (if_neg fun h => hci h.1).symm
    exact hno fun h => hci h.1

section
variable {B : Nat → Prop} [DecidablePred B] {isBinding : List Bool} {tupleCount : Nat}

private theorem taintOp_eq_ok (hcount : tupleCount ≤ 20)
    (hB : ∀ k < tupleCount, isBinding.getD k false = decide (B k)) {taint taint' : List Tag}
    (hsp : taint.length < 20) {o : RawOp} : taintOp isBinding tupleCount taint o.code o.operand = .ok taint' ↔
      ∃ op, o.decode tupleCount = some op ∧ Postfix.step (taintAlg B) taint op = some taint' := by
  obtain ⟨code, operand⟩ := o
  unfold taintOp RawOp.decode
  simp only
  by_cases hpush : code = 0x20
  · rw [if_pos hpush, if_pos hpush]
    by_cases hk : operand.toNat < tupleCount
    · rw [failIf_neg (by omega), ok_bind, failIf_neg (by omega), ok_bind, if_pos hk, bindingAt,
        failIf_neg (by omega), ok_bind, hB _ hk]
      simp [Postfix.step, taintAlg, bind, Except.bind, pure, Except.pure]
    · rw [failIf_neg (by omega), ok_bind, failIf_pos (by omega), error_bind, if_neg hk]
      simp
  rw [if_neg hpush, if_neg hpush]
  by_cases h0 : operand ≠ 0
  · simp only [failIf_pos h0, error_bind, if_pos h0]
    split_ifs <;> simp
  simp only [failIf_neg h0, ok_bind, if_neg h0]
  by_cases hand : code = 0x21
  · simp only [if_pos hand, Option.some.injEq, exists_eq_left']
    rcases taint with _ | ⟨a, _ | ⟨b, rest⟩⟩
    · simp [Postfix.step]
    · simp [Postfix.step]
    · cases a <;> cases b <;> simp [Postfix.step, taintAlg, Tag.and]
  simp only [if_neg hand]
  by_cases hor : code = 0x22
  · simp only [if_pos hor, Option.some.injEq, exists_eq_left']
    rcases taint with _ | ⟨a, _ | ⟨b, rest⟩⟩
    · simp [Postfix.step]
    · simp [Postfix.step]
    · cases a <;> cases b <;> simp [Postfix.step, taintAlg, Tag.or]
  simp only [if_neg hor]
  by_cases hnot : code = 0x23
  · simp only [if_pos hnot, Option.some.injEq, exists_eq_left']
    rcases taint with _ | ⟨a, rest⟩
    · simp [Postfix.step]
    · cases a <;> simp [Postfix.step, taintAlg, Tag.not]
  simp only [if_neg hnot]
  by_cases hnop : code = 0xff
  · simp only [if_pos hnop, Option.some.injEq, exists_eq_left']
    cases taint <;> simp [Postfix.step]
  · simp [if_neg hnop]

private theorem taintLoop_eq_ok (hcount : tupleCount ≤ 20)
    (hB : ∀ k < tupleCount, isBinding.getD k false = decide (B k)) {taint taint' : List Tag}
    {os : List RawOp} (hsp : taint.length + os.length ≤ 20) :
    os.foldlM (fun taint o => taintOp isBinding tupleCount taint o.code o.operand) taint = .ok taint' ↔
      ∃ prog, os.mapM (RawOp.decode tupleCount) = some prog ∧
        Postfix.run (taintAlg B) prog taint = some taint' := by
  induction os generalizing taint with
  | nil => simp
  | cons o os ih =>
    simp only [List.length_cons] at hsp
    simp only [List.foldlM_cons, bind_eq_ok, taintOp_eq_ok hcount hB (show taint.length < 20 by omega),
      List.mapM_cons, Option.bind_eq_bind, Option.bind_eq_some_iff, Option.pure_def,
      Option.some.injEq]
    constructor
    · rintro ⟨taint₁, ⟨op, hop, hstep⟩, hrest⟩
      obtain ⟨prog, hprog, hrun⟩ := (ih (by have := Postfix.length_step hstep; omega)).mp hrest
      exact ⟨op :: prog, ⟨op, hop, prog, hprog, rfl⟩, by simp [hstep, hrun]⟩
    · rintro ⟨_, ⟨op, hop, prog, hprog, rfl⟩, hrun⟩
      obtain ⟨taint₁, hstep, hrun⟩ := Option.bind_eq_some_iff.mp hrun
      exact ⟨taint₁, ⟨op, hop, hstep⟩,
        (ih (by have := Postfix.length_step hstep; omega)).mpr ⟨prog, hprog, hrun⟩⟩

end

/-- The marks of the tuples, when no tuple on the class index has an unknown type tag. -/
private theorem mapM_mark (hset : classSet.Pairwise (· < ·)) (hlen : tuples.length ≤ 20) {marks : List Bool} :
    (List.range tuples.length).mapM (markBindingTuple (layout tuples ops) classIndex classSet) = .ok marks ↔
      (∀ t ∈ tuples, t.claimIndex = classIndex → t.typeTag = 0x01 ∨ t.typeTag = 0x02 ∨ t.typeTag = 0x03) ∧
      marks = tuples.map fun t => decide (t.IsClassBinding classIndex classSet) := by
  rw [mapM_range fun k t (ht : tuples[k]? = some t) => markBindingTuple_layout hlen hset ht]
  generalize tuples = ts
  induction ts generalizing marks with
  | nil =>
    simp only [List.mapM_nil, pure_eq_ok]
    simp [eq_comm]
  | cons t ts ih =>
    simp only [List.mapM_cons, bind_eq_ok, pure_eq_ok, ih, List.forall_mem_cons, List.map_cons]
    constructor
    · rintro ⟨b, hb, bs, ⟨hts, rfl⟩, rfl⟩
      split at hb
      · simp at hb
      · obtain rfl := Except.ok.inj hb
        exact ⟨⟨by tauto, hts⟩, rfl⟩
    · rintro ⟨⟨ht, hts⟩, rfl⟩
      refine ⟨_, if_neg ?_, _, ⟨hts, rfl⟩, rfl⟩
      tauto

/-- On a serialized program the check says that the program decodes and commits to a tuple whose
tag is in the class set. -/
theorem validateClassBinding_layout (hset : classSet.Pairwise (· < ·)) (hlen : tuples.length ≤ 20)
    (hops : ops.length ≤ 20) : validateClassBinding (layout tuples ops) classIndex classSet = .ok () ↔
      (∀ t ∈ tuples, t.claimIndex = classIndex → t.typeTag = 0x01 ∨ t.typeTag = 0x02 ∨ t.typeTag = 0x03) ∧
      ∃ prog, ops.mapM (RawOp.decode tuples.length) = some prog ∧
        Commits (TupleAt tuples (RawTuple.IsClassBinding classIndex classSet)) prog := by
  set marks := tuples.map fun t => decide (t.IsClassBinding classIndex classSet) with hmarks
  have hmark : ∀ k < tuples.length, marks.getD k false =
      decide (TupleAt tuples (RawTuple.IsClassBinding classIndex classSet) k) := by
    intro k hk
    have hget : tuples[k]? = some tuples[k] := List.getElem?_eq_getElem hk
    simp [hmarks, TupleAt, hget]
  have hany : (List.range tuples.length).anyM (bindingAt marks) =
      .ok ((List.range tuples.length).any fun k => marks.getD k false) := by
    refine anyM_ok fun k hk => ?_
    have hlt := List.mem_range.mp hk
    rw [bindingAt, failIf_neg (by omega), ok_bind]
    rfl
  have hcode : ∀ i o, ops[i]? = some o →
      byteAt (layout tuples ops) (1 + tuples.length * 35 + 1 + i * 2) = .ok o.code ∧
      byteAt (layout tuples ops) (1 + tuples.length * 35 + 1 + i * 2 + 1) = .ok o.operand := by
    intro i o ho
    have h0 := @layout_op tuples ops i 0 (by decide)
    have h1 := @layout_op tuples ops i 1 (by decide)
    rw [ho] at h0 h1
    simp only [Nat.add_zero] at h0
    exact ⟨by rw [byteAt, h0]; rfl, by rw [byteAt, h1]; rfl⟩
  have hloop : (List.range ops.length).foldlM (fun taint i => do
      let code ← byteAt (layout tuples ops) (1 + tuples.length * 35 + 1 + i * 2)
      let operand ← byteAt (layout tuples ops) (1 + tuples.length * 35 + 1 + i * 2 + 1)
      taintOp marks tuples.length taint code operand) [] =
      ops.foldlM (fun taint o => taintOp marks tuples.length taint o.code o.operand) [] := by
    refine foldlM_range (fun taint i o ho => ?_) []
    rw [(hcode i o ho).1, ok_bind, (hcode i o ho).2, ok_bind]
  have hcount : ∀ n ≤ 20, (UInt8.ofNat n).toNat = n := fun n hn =>
    UInt8.toNat_ofNat_of_lt' (by simp [UInt8.size]; omega)
  have htc : byteAt (layout tuples ops) 0 = .ok (UInt8.ofNat tuples.length) := rfl
  have hoc : byteAt (layout tuples ops) (1 + tuples.length * 35) = .ok (UInt8.ofNat ops.length) := by
    rw [byteAt, layout_opCount]
    rfl
  simp only [validateClassBinding, htc, ok_bind, hcount _ hlen, hoc, hcount _ hops, bind_eq_ok,
    mapM_mark hset hlen]
  constructor
  · rintro ⟨_, ⟨htags, rfl⟩, _, -, _, -, taint, hrun, hlast⟩
    rw [← hmarks, hloop, taintLoop_eq_ok hlen hmark (by simpa using hops)] at hrun
    obtain ⟨prog, hprog, hrun⟩ := hrun
    refine ⟨htags, prog, hprog, run_taintAlg.mp ?_⟩
    rcases taint with _ | ⟨tag, _ | ⟨tag', rest⟩⟩
    · simp at hlast
    · simp only [failIf_eq_ok, not_not] at hlast
      rw [hrun, hlast]
    · simp at hlast
  · rintro ⟨htags, prog, hprog, hcommits⟩
    refine ⟨marks, ⟨htags, hmarks⟩, _, hany, (), ?_, [.bound], ?_, by simp⟩
    · -- a committed tuple is a marked one
      obtain ⟨k, hpush, hk⟩ := hcommits.exists_push
      have hlt : k < tuples.length := by
        obtain ⟨t, ht, -⟩ := hk
        exact (List.getElem?_eq_some_iff.mp ht).1
      have hmem : ((List.range tuples.length).any fun k => marks.getD k false) = true :=
        List.any_eq_true.mpr ⟨k, List.mem_range.mpr hlt, by rw [hmark k hlt]; simpa using hk⟩
      rw [hmem]
      exact failIf_neg (by decide) _
    · rw [hloop, taintLoop_eq_ok hlen hmark (by simpa using hops)]
      exact ⟨prog, hprog, run_taintAlg.mpr hcommits⟩

end Sol

/-! ## The registry's check against the contract's -/

namespace PredicateDef

def raw (t : Tuple) : RawTuple := ⟨t.claimIndex, t.operand, t.typeTag.toByte, t.comparator.toByte⟩

def rawOp (o : PredOp) : RawOp := ⟨o.code.toByte, o.operand⟩

/-- The program commits to a tuple satisfying `B`: through either branch of an AND, both branches of
an OR, and never through a NOT. -/
def CommitsTo (p : PredicateDef) (B : Tuple → Prop) : Prop :=
  Commits (fun k => ∃ t, p.tuples[k]? = some t ∧ B t) (p.ops.map PredOp.toOp)

theorem CommitsTo.mono {p : PredicateDef} {B C : Tuple → Prop} (h : ∀ t, B t → C t)
    (hp : p.CommitsTo B) : p.CommitsTo C :=
  Postfix.Commits.mono (fun _ ⟨t, ht, hB⟩ => ⟨t, ht, h t hB⟩) hp

def InSet (classIndex : UInt8) (classSet : List ClassTag) (t : Tuple) : Prop :=
  t.IsShortBinding classIndex ∧ operandTag t.operand ∈ classSet

/-- What validation guarantees. -/
structure Valid (p : PredicateDef) : Prop where
  tuples_le : p.tuples.length ≤ 20
  ops_le : p.ops.length ≤ 20
  push_lt : ∀ o ∈ p.ops, o.code = .pushTuple → o.operand.toNat < p.tuples.length
  operand_zero : ∀ o ∈ p.ops, o.code ≠ .pushTuple → o.operand = 0

theorem valid_of_validate {p : PredicateDef} (h : p.validate = .ok ()) : p.Valid := by
  simp only [validate, bind_eq_ok, failIf_eq_ok, not_not, forM_eq_ok] at h
  obtain ⟨_, ht, _, ho, _, hops, -⟩ := h
  refine ⟨ht.2, ho.2, fun o hmem hc => ?_, fun o hmem hc => ?_⟩
  · have := hops o hmem
    rw [validateOp, if_pos hc, failIf_eq_ok] at this
    omega
  · have := hops o hmem
    rw [validateOp, if_neg hc] at this
    simpa using this

theorem encode_eq {p : PredicateDef} (h : p.validate = .ok ()) :
    p.encode = .ok (layout (p.tuples.map raw) (p.ops.map rawOp)) := by
  have hv := valid_of_validate h
  have hlen : ¬ p.serializedLen > predicateBytesMax := by
    have h1 := hv.tuples_le
    have h2 := hv.ops_le
    simp only [serializedLen, predicateBytesMax]
    omega
  rw [encode, h, ok_bind, failIf_neg hlen, ok_bind]
  simp [layout, List.flatMap_map, raw, rawOp, RawTuple.bytes, RawOp.bytes, pure, Except.pure]

theorem decode_rawOps {p : PredicateDef} (hv : p.Valid) :
    (p.ops.map rawOp).mapM (RawOp.decode p.tuples.length) = some (p.ops.map PredOp.toOp) := by
  have key : ∀ os : List PredOp, (∀ o ∈ os, o ∈ p.ops) →
      (os.map rawOp).mapM (RawOp.decode p.tuples.length) = some (os.map PredOp.toOp) := by
    intro os
    induction os with
    | nil => intro _; rfl
    | cons o os ih =>
      intro hmem
      have ho := hmem o List.mem_cons_self
      have hdecode : (rawOp o).decode p.tuples.length = some o.toOp := by
        obtain ⟨code, operand⟩ := o
        cases code with
        | pushTuple =>
          have hlt := hv.push_lt _ ho rfl
          simp [rawOp, RawOp.decode, OpCode.toByte, PredOp.toOp, hlt]
        | and | or | not | nop =>
          have h0 : operand = 0 := hv.operand_zero _ ho (by simp)
          simp [rawOp, RawOp.decode, OpCode.toByte, PredOp.toOp, h0]
      rw [List.map_cons, List.mapM_cons, hdecode, ih fun o ho => hmem o (List.mem_cons_of_mem _ ho)]
      rfl
  exact key p.ops fun _ h => h

theorem comparator_toByte {c : Comparator} : c.toByte = 0x10 ↔ c = .eq := by
  cases c <;> decide

/-- The contract accepts an encoded predicate exactly when it commits to a tuple whose tag is in
the class set. -/
theorem sol_validateClassBinding_iff {p : PredicateDef} (h : p.validate = .ok ()) {classIndex : UInt8}
    {classSet : List ClassTag} (hset : classSet.Pairwise (· < ·)) :
    Sol.validateClassBinding (layout (p.tuples.map raw) (p.ops.map rawOp)) classIndex classSet = .ok () ↔
      p.CommitsTo (InSet classIndex classSet) := by
  have hv := valid_of_validate h
  have htags : ∀ t ∈ p.tuples.map raw, t.claimIndex = classIndex →
      t.typeTag = 0x01 ∨ t.typeTag = 0x02 ∨ t.typeTag = 0x03 := by
    intro t ht _
    obtain ⟨t', -, rfl⟩ := List.mem_map.mp ht
    cases htag : t'.typeTag <;> simp [raw, htag, TypeTag.toByte]
  have hat : TupleAt (p.tuples.map raw) (RawTuple.IsClassBinding classIndex classSet) =
      fun k => ∃ t, p.tuples[k]? = some t ∧ t.IsShortBinding classIndex ∧ operandTag t.operand ∈ classSet := by
    funext k
    simp only [TupleAt, RawTuple.IsClassBinding, Tuple.IsShortBinding, List.getElem?_map,
      Option.map_eq_some_iff, eq_iff_iff]
    constructor
    · rintro ⟨_, ⟨t, ht, rfl⟩, h1, h2, h3, h4⟩
      exact ⟨t, ht, ⟨h1, comparator_toByte.mp h2, h3⟩, h4⟩
    · rintro ⟨t, ht, ⟨h1, h2, h3⟩, h4⟩
      exact ⟨raw t, ⟨t, ht, rfl⟩, h1, comparator_toByte.mpr h2, h3, h4⟩
  rw [Sol.validateClassBinding_layout hset (by simpa using hv.tuples_le) (by simpa using hv.ops_le),
    List.length_map, hat]
  constructor
  · rintro ⟨-, prog, hprog, hcommits⟩
    obtain rfl := Option.some.inj (hprog.symm.trans (decode_rawOps hv))
    exact hcommits
  · intro hcommits
    exact ⟨htags, _, decode_rawOps hv, hcommits⟩

private theorem map_filter_zipIdx {α β : Type} (xs : List α) (q : α → Bool) (f : α → β) (k : Nat) :
    ((xs.zipIdx k).filter fun x => q x.1).map (fun x => f x.1) = (xs.filter q).map f := by
  induction xs generalizing k with
  | nil => rfl
  | cons x xs ih =>
    rw [List.zipIdx_cons, List.filter_cons, List.filter_cons]
    cases q x <;> simp [ih]

/-- The registry's operand is the tag of the first short tuple, and it is found exactly when the
program commits to a short tuple. -/
theorem findClassBindingOperand_eq_ok {p : PredicateDef} {classIndex : UInt8} {op : ClassTag} :
    p.findClassBindingOperand classIndex = .ok op ↔ p.CommitsTo (Tuple.IsShortBinding classIndex) ∧
        ∃ t, p.tuples.find? (fun t => t.IsShortBinding classIndex) = some t ∧ operandTag t.operand = op := by
  set binding := p.tuples.zipIdx.filter fun t => decide (t.1.IsShortBinding classIndex) with hb
  have hmem : (fun k => k ∈ binding.map (·.2)) =
      fun k => ∃ t, p.tuples[k]? = some t ∧ t.IsShortBinding classIndex := by
    funext k
    simp only [hb, List.mem_map, List.mem_filter, eq_iff_iff, Prod.exists,
      List.mem_zipIdx_iff_getElem?, decide_eq_true_eq]
    constructor
    · rintro ⟨t, k', ⟨ht, hs⟩, rfl⟩
      exact ⟨t, ht, hs⟩
    · rintro ⟨t, ht, hs⟩
      exact ⟨t, k, ⟨ht, hs⟩, rfl⟩
  have hfirst : (binding.map fun t => operandTag t.1.operand).head? =
      (p.tuples.find? fun t => t.IsShortBinding classIndex).map fun t => operandTag t.operand := by
    rw [hb, map_filter_zipIdx p.tuples (fun t => decide (t.IsShortBinding classIndex))
      fun t => operandTag t.operand, List.head?_map, List.head?_filter]
  have htaint : ∀ tag, evaluateClassBindingTaint p.ops (binding.map (·.2)) = .ok tag ↔
      Postfix.run (taintAlg (· ∈ binding.map (·.2))) (p.ops.map PredOp.toOp) [] = some [tag] :=
    fun tag => evaluateClassBindingTaint_eq_ok
  have hcommits : Postfix.run (taintAlg (· ∈ binding.map (·.2))) (p.ops.map PredOp.toOp) [] =
      some [.bound] ↔ p.CommitsTo (Tuple.IsShortBinding classIndex) := by
    rw [run_taintAlg, hmem]
    rfl
  simp only [findClassBindingOperand, ← hb, bind_eq_ok, failIf_eq_ok, htaint]
  constructor
  · rintro ⟨_, hne, tag, hrun, hlast⟩
    cases tag with
    | bound =>
      refine ⟨hcommits.mp hrun, ?_⟩
      rcases hbl : binding with _ | ⟨t, rest⟩
      · simp [hbl] at hne
      · rw [hbl, List.map_cons, List.head?_cons] at hfirst
        obtain ⟨t', ht', htag⟩ := Option.map_eq_some_iff.mp hfirst.symm
        simp only [hbl, pure_eq_ok] at hlast
        exact ⟨t', ht', htag.trans hlast⟩
    | free => simp at hlast
    | tainted => simp at hlast
  · rintro ⟨hc, t, ht, rfl⟩
    rw [ht, Option.map_some] at hfirst
    rcases hbl : binding with _ | ⟨t', rest⟩
    · simp [hbl] at hfirst
    · rw [← hbl]
      refine ⟨(), by simp [hbl], .bound, hcommits.mpr hc, ?_⟩
      simp only [hbl, List.map_cons, List.head?_cons, Option.some.injEq] at hfirst
      simp [hbl, hfirst, pure, Except.pure]

def FirstTagIn (p : PredicateDef) (classIndex : UInt8) (classSet : List ClassTag) : Prop :=
  ∃ t, p.tuples.find? (fun t => t.IsShortBinding classIndex) = some t ∧ operandTag t.operand ∈ classSet

/-- If the tag of the first short tuple is in the class set, a commitment to short tuples is one to
tuples with a tag in the set; if it is not, the program does not commit to such tuples. -/
structure ClassBindingAgrees (p : PredicateDef) (classIndex : UInt8) (classSet : List ClassTag) : Prop where
  first_in : p.FirstTagIn classIndex classSet →
    p.CommitsTo (Tuple.IsShortBinding classIndex) → p.CommitsTo (InSet classIndex classSet)
  first_out : ¬ p.FirstTagIn classIndex classSet → ¬ p.CommitsTo (InSet classIndex classSet)

end PredicateDef

open PredicateDef in
/-- The registry's class-binding check and the contract's agree exactly on the predicates that
commit to the class set whenever they commit to a short tuple, first tuple included. -/
theorem classBinding_agree_iff {p : PredicateDef} (h : p.validate = .ok ()) {classIndex : UInt8}
    {classSet : List ClassTag} (hset : classSet.Pairwise (· < ·)) : ∃ bytes, p.encode = .ok bytes ∧
      (((∃ op, p.findClassBindingOperand classIndex = .ok op ∧ op ∈ classSet) ↔
        Sol.validateClassBinding bytes classIndex classSet = .ok ()) ↔
      p.ClassBindingAgrees classIndex classSet) := by
  refine ⟨_, encode_eq h, ?_⟩
  rw [sol_validateClassBinding_iff h hset]
  have hrust : (∃ op, p.findClassBindingOperand classIndex = .ok op ∧ op ∈ classSet) ↔
      p.CommitsTo (Tuple.IsShortBinding classIndex) ∧ p.FirstTagIn classIndex classSet := by
    simp only [findClassBindingOperand_eq_ok]
    constructor
    · rintro ⟨op, ⟨hc, t, ht, rfl⟩, hop⟩
      exact ⟨hc, t, ht, hop⟩
    · rintro ⟨hc, t, ht, hop⟩
      exact ⟨_, ⟨hc, t, ht, rfl⟩, hop⟩
  have hmono : p.CommitsTo (InSet classIndex classSet) →
      p.CommitsTo (Tuple.IsShortBinding classIndex) := CommitsTo.mono fun _ ht => ht.1
  rw [hrust]
  constructor
  · intro hagree
    exact ⟨fun hf hs => hagree.mp ⟨hs, hf⟩, fun hf hin => hf (hagree.mpr hin).2⟩
  · rintro ⟨hin, hout⟩
    refine ⟨fun ⟨hs, hf⟩ => hin hf hs, fun hc => ⟨hmono hc, ?_⟩⟩
    by_contra hf
    exact hout hf hc

/-! `attr == 1 OR attr == 2` with the class set `[1]`: the registry accepts on the tag `1` of the
first tuple, the contract rejects the branch that lets class `2` through. -/

/-- `attr[0] == 1 OR attr[0] == 2`. -/
def twoClassPredicate : PredicateDef where
  tuples := [⟨0, Bytes.ofNat 32 1, .int64, .eq⟩, ⟨0, Bytes.ofNat 32 2, .int64, .eq⟩]
  ops := [⟨.pushTuple, 0⟩, ⟨.pushTuple, 1⟩, ⟨.or, 0⟩]

theorem twoClassPredicate_rust_only : twoClassPredicate.validate = .ok () ∧ [(1 : ClassTag)].Pairwise (· < ·) ∧
      (∃ op, twoClassPredicate.findClassBindingOperand 0 = .ok op ∧ op ∈ [(1 : ClassTag)]) ∧
      ∃ bytes, twoClassPredicate.encode = .ok bytes ∧ Sol.validateClassBinding bytes 0 [1] ≠ .ok () := by
  have hvalid : twoClassPredicate.validate = .ok () := by decide
  refine ⟨hvalid, by simp, ⟨1, by decide, by simp⟩, _, PredicateDef.encode_eq hvalid, ?_⟩
  rw [ne_eq, PredicateDef.sol_validateClassBinding_iff hvalid (by simp)]
  rintro ⟨e, hparse, hcommits⟩
  obtain rfl := List.singleton_inj.mp (Option.some.inj hparse)
  obtain ⟨-, t, ht, -, htag⟩ := hcommits
  obtain rfl := Option.some.inj ht
  exact absurd htag (by decide)

/-- `attr[0] == 1`. -/
def oneClassPredicate : PredicateDef where
  tuples := [⟨0, Bytes.ofNat 32 1, .int64, .eq⟩]
  ops := [⟨.pushTuple, 0⟩]

theorem oneClassPredicate_agree : oneClassPredicate.validate = .ok () ∧
      ∃ bytes, oneClassPredicate.encode = .ok bytes ∧
        (((∃ op, oneClassPredicate.findClassBindingOperand 0 = .ok op ∧ op ∈ [(1 : ClassTag)]) ↔
          Sol.validateClassBinding bytes 0 [1] = .ok ()) ↔ oneClassPredicate.ClassBindingAgrees 0 [1]) :=
  ⟨by decide, classBinding_agree_iff (by decide) (by simp)⟩

end Pocs.Civic
