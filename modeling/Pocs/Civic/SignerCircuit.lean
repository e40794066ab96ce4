import Pocs.Civic.ClassBinding

/-! # The predicate constraints of the signer circuit

The witness carries the predicate as padded arrays of ops and tuples (`PredicateProgram`).
`encodeDef` is the serialization the circuit hashes, `evaluatePredicate` the evaluation of the
program on the attributes, and `checkClassBinding` the circuit's own taint pass, in which an OR
needs only one bound branch. `classBinding_sound` relates the three to the contract's check. -/

namespace Pocs.Civic

open Postfix (Alg Expr)

/-- The predicate as the circuit takes it, padded. -/
structure PredicateProgram where
  opCodes : Fin 20 → UInt8
  opOperands : Fin 20 → UInt8
  opCount : Nat
  tupleClaimIndex : Fin 20 → UInt8
  tupleOperand : Fin 20 → Fr
  tupleTypeTag : Fin 20 → UInt8
  tupleComparator : Fin 20 → UInt8
  tupleCount : Nat

namespace PredicateProgram

/-- The positions below a count. -/
def active (n : Nat) : List (Fin 20) := (List.finRange 20).take n

def rawTuple (w : PredicateProgram) (t : Fin 20) : RawTuple :=
  ⟨w.tupleClaimIndex t, frToBeBytes (w.tupleOperand t), w.tupleTypeTag t, w.tupleComparator t⟩

def rawOp (w : PredicateProgram) (i : Fin 20) : RawOp := ⟨w.opCodes i, w.opOperands i⟩

/-- Constraint 2: the serialization that is packed and hashed, with the checks of the operands. -/
def encodeDef (w : PredicateProgram) : Except String (List UInt8) := do
  (active w.tupleCount).forM fun t => do
    let bytes := (frToBeBytes (w.tupleOperand t)).1
    require (bytes.getD 0 0 < 0x30) "predicate: tuple operand exceeds BN254 modulus"
    if w.tupleTypeTag t = 0x01 then
      require ((bytes.take 24).all (· = 0)) "predicate: INT64 operand exceeds 64 bits"
  pure (layout ((active w.tupleCount).map w.rawTuple) ((active w.opCount).map w.rawOp))

/-- Constraint 2a: non-empty predicate. -/
def checkCounts (w : PredicateProgram) : Except String Unit := do
  require (w.tupleCount ≥ 1) "signer: tuple_count must be >= 1"
  require (w.tupleCount ≤ 20) "signer: tuple_count > PREDICATE_TUPLE_MAX"
  require (w.opCount ≥ 1) "signer: op_count must be >= 1"
  require (w.opCount ≤ 20) "signer: op_count > PREDICATE_OP_MAX"

end PredicateProgram

def leField (a b : Fr) : Bool := !ltField b a

def geField (a b : Fr) : Bool := !ltField a b

/-- Per-tuple evaluation: `attrs[claim_index] OP operand`. -/
def evaluateTuple (attrValue operand : Fr) (typeTag comparator : UInt8) : Except String Bool := do
  if typeTag = 0x02 ∨ typeTag = 0x03 then
    require (comparator = 0x10) "predicate: HASH/BOOL must use =="
    return decide (attrValue = operand)
  else if typeTag = 0x01 then
    if comparator = 0x10 then return decide (attrValue = operand)
    else if comparator = 0x11 then return leField attrValue operand
    else if comparator = 0x12 then return geField attrValue operand
    else throw "predicate: unknown comparator"
  else throw "predicate: unknown type_tag"

/-- One round of `predicate::evaluate`; the array and its stack pointer are a list, top first. -/
def evaluateOp (tupleBool : List Bool) (active : Bool) (stack : List Bool) (o : RawOp) :
    Except String (List Bool) := do
  let pushV ← okOr tupleBool[o.operand.toNat]? "index out of bounds"
  if active then
    if o.code = 0x20 then
      require (stack.length < 20) "index out of bounds"
      return pushV :: stack
    else if o.code = 0x21 then
      match stack with
      | a :: b :: rest => return (a && b) :: rest
      | _ => throw "predicate: AND on short stack"
    else if o.code = 0x22 then
      match stack with
      | a :: b :: rest => return (a || b) :: rest
      | _ => throw "predicate: OR on short stack"
    else if o.code = 0x23 then
      match stack with
      | a :: rest => return (!a) :: rest
      | [] => throw "predicate: NOT on empty stack"
    else
      require (o.code = 0xff) "predicate: unknown opcode"
      return stack
  else
    require (o.code = 0xff) "predicate: non-NOP past op_count"
    return stack

namespace PredicateProgram

/-- The tuple loop of constraint 3: every tuple is evaluated, an inactive one counts as false. -/
def tupleBools (w : PredicateProgram) (attrs : Fin 4 → Fr) : Except String (List Bool) :=
  (List.finRange 20).mapM fun t => do
    let ci := (w.tupleClaimIndex t).toNat
    let attrV ← if h : ci < 4 then .ok (attrs ⟨ci, h⟩) else throw "signer: tuple claim_index >= ATTR_COUNT"
    let v ← evaluateTuple attrV (w.tupleOperand t) (w.tupleTypeTag t) (w.tupleComparator t)
    pure (if t.val < w.tupleCount then v else false)

/-- `predicate::evaluate` on the attributes. -/
def evaluatePredicate (w : PredicateProgram) (attrs : Fin 4 → Fr) : Except String Bool := do
  let tupleBool ← w.tupleBools attrs
  let stack ← (List.finRange 20).foldlM (fun stack i =>
    evaluateOp tupleBool (decide (i.val < w.opCount)) stack (w.rawOp i)) []
  match stack with
  | [result] => pure result
  | _ => throw "predicate: final stack depth != 1"

def isBindingTuple (w : PredicateProgram) (classIndex classTag : Fr) (t : Fin 20) : Bool :=
  decide (t.val < w.tupleCount) && decide ((Scalar.ofNat (w.tupleClaimIndex t).toNat : Fr) = classIndex) &&
    decide (w.tupleOperand t = classTag) && decide (w.tupleComparator t = 0x10)

/-- AND and OR of the circuit's taint pass. -/
def joinTaint (a b : Tag) : Tag :=
  if a = .bound ∨ b = .bound then .bound
  else if a = .tainted ∨ b = .tainted then .tainted
  else .free

/-- One round of constraint 4b. -/
def taintOp (isBinding : List Bool) (active : Bool) (taint : List Tag) (o : RawOp) :
    Except String (List Tag) := do
  if active then
    if o.code = 0x20 then
      let v ← okOr isBinding[o.operand.toNat]? "index out of bounds"
      require (taint.length < 20) "index out of bounds"
      return (if v then .bound else .free) :: taint
    else if o.code = 0x21 then
      require (o.operand = 0) "signer: AND op operand must be 0"
      match taint with
      | a :: b :: rest => return joinTaint a b :: rest
      | _ => throw "signer: AND underflow"
    else if o.code = 0x22 then
      require (o.operand = 0) "signer: OR op operand must be 0"
      match taint with
      | a :: b :: rest => return joinTaint a b :: rest
      | _ => throw "signer: OR underflow"
    else if o.code = 0x23 then
      require (o.operand = 0) "signer: NOT op operand must be 0"
      match taint with
      | a :: rest => return (if a = .bound then .tainted else a) :: rest
      | [] => throw "signer: NOT underflow"
    else
      require (o.code = 0xff) "signer: unknown opcode"
      require (o.operand = 0) "signer: NOP op operand must be 0"
      return taint
  else return taint

/-- Constraints 4a and 4b for the signer's class tag. -/
def checkClassBinding (w : PredicateProgram) (classIndex classTag : Fr) : Except String Unit := do
  let isBinding := (List.finRange 20).map (w.isBindingTuple classIndex classTag)
  require (isBinding.any id) "signer: no class-binding tuple matches (class_index, class_tag)"
  let taint ← (List.finRange 20).foldlM (fun taint i =>
    taintOp isBinding (decide (i.val < w.opCount)) taint (w.rawOp i)) []
  match taint with
  | [tag] =>
    require (tag = .bound) "signer: class binding not bound at top level (outside OR/NOT)"
  | _ => throw "signer: predicate stack must terminate with exactly 1 element"

end PredicateProgram

/-! ## The loops as runs of the decoded program -/

/-- The Boolean meaning of a program over the values of its tuples. -/
def boolAlg (v : Nat → Bool) : Alg Nat Bool := ⟨v, (· && ·), (· || ·), (!·)⟩

/-- The circuit's taint pass. -/
def signerTaintAlg (v : Nat → Bool) : Alg Nat Tag where
  leaf k := if v k then .bound else .free
  and := PredicateProgram.joinTaint
  or := PredicateProgram.joinTaint
  not := Tag.not

namespace PredicateProgram

theorem lt_of_mem_active {n : Nat} {i : Fin 20} (h : i ∈ active n) : i.val < n := by
  obtain ⟨j, hj, rfl⟩ := List.mem_take_iff_getElem.mp h
  simp only [List.getElem_finRange, Fin.val_cast]
  omega

theorem le_of_mem_drop {n : Nat} {i : Fin 20} (h : i ∈ (List.finRange 20).drop n) : n ≤ i.val := by
  obtain ⟨j, hj, rfl⟩ := List.mem_drop_iff_getElem.mp h
  simp only [List.getElem_finRange, Fin.val_cast]
  omega

theorem getElem?_active {n k : Nat} (hk : k < n) (h20 : k < 20) : (active n)[k]? = some ⟨k, h20⟩ := by
  rw [active, List.getElem?_take_of_lt hk, List.getElem?_eq_getElem (by simpa using h20)]
  simp

theorem length_active {n : Nat} (hn : n ≤ 20) : (active n).length = n := by
  simp [active, hn]

section
variable {tupleCount : Nat} {vals : List Bool}

private theorem evaluateOp_step {stack stack' : List Bool} {o : RawOp} {op : Postfix.Op Nat}
    (hop : o.decode tupleCount = some op) (h : evaluateOp vals true stack o = .ok stack') :
    Postfix.step (boolAlg fun k => vals.getD k false) stack op = some stack' := by
  obtain ⟨code, operand⟩ := o
  simp only [evaluateOp, bind_eq_ok, okOr_eq_ok, if_true] at h
  obtain ⟨pushV, hv, h⟩ := h
  simp only [RawOp.decode] at hop
  by_cases hpush : code = 0x20
  · rw [if_pos hpush] at hop h
    split at hop
    · obtain rfl := Option.some.inj hop
      simp only [bind_eq_ok, pure_eq_ok] at h
      obtain ⟨_, -, rfl⟩ := h
      simp [Postfix.step, boolAlg, hv]
    · simp at hop
  rw [if_neg hpush] at hop h
  split at hop
  · simp at hop
  by_cases hand : code = 0x21
  · rw [if_pos hand] at hop h
    obtain rfl := Option.some.inj hop
    rcases stack with _ | ⟨a, _ | ⟨b, rest⟩⟩
    · simp at h
    · simp at h
    · simp only [pure_eq_ok] at h
      simp [Postfix.step, boolAlg, ← h, Bool.and_comm]
  rw [if_neg hand] at hop h
  by_cases hor : code = 0x22
  · rw [if_pos hor] at hop h
    obtain rfl := Option.some.inj hop
    rcases stack with _ | ⟨a, _ | ⟨b, rest⟩⟩
    · simp at h
    · simp at h
    · simp only [pure_eq_ok] at h
      simp [Postfix.step, boolAlg, ← h, Bool.or_comm]
  rw [if_neg hor] at hop h
  by_cases hnot : code = 0x23
  · rw [if_pos hnot] at hop h
    obtain rfl := Option.some.inj hop
    rcases stack with _ | ⟨a, rest⟩
    · simp at h
    · simp only [pure_eq_ok] at h
      simp [Postfix.step, boolAlg, ← h]
  rw [if_neg hnot] at hop h
  by_cases hnop : code = 0xff
  · rw [if_pos hnop] at hop
    obtain rfl := Option.some.inj hop
    simp only [bind_eq_ok, pure_eq_ok] at h
    obtain ⟨_, -, rfl⟩ := h
    cases stack <;> rfl
  · simp [if_neg hnop] at hop

private theorem joinTaint_comm (a b : Tag) : joinTaint a b = joinTaint b a := by
  cases a <;> cases b <;> rfl

/-- The taint pass follows the program's ops. -/
private theorem taintOp_step {taint taint' : List Tag} {o : RawOp} {op : Postfix.Op Nat}
    (hlen : tupleCount ≤ vals.length) (hop : o.decode tupleCount = some op) (hsp : taint.length < 20)
    (h : Postfix.step (signerTaintAlg fun k => vals.getD k false) taint op = some taint') :
    taintOp vals true taint o = .ok taint' := by
  obtain ⟨code, operand⟩ := o
  simp only [RawOp.decode] at hop
  simp only [taintOp, if_true]
  by_cases hpush : code = 0x20
  · rw [if_pos hpush] at hop ⊢
    split at hop
    · rename_i hk
      obtain rfl := Option.some.inj hop
      obtain rfl := Option.some.inj h
      have hget : vals[operand.toNat]? = some vals[operand.toNat] :=
        List.getElem?_eq_getElem (by omega)
      simp [hget, okOr, ok_bind, require, hsp, signerTaintAlg, pure, Except.pure]
    · simp at hop
  rw [if_neg hpush] at hop ⊢
  split at hop
  · simp at hop
  rename_i h0
  have hzero : ∀ msg, require (operand = 0) msg = .ok () := fun msg => if_pos (not_not.mp h0)
  simp only [hzero, ok_bind]
  by_cases hand : code = 0x21
  · rw [if_pos hand] at hop ⊢
    obtain rfl := Option.some.inj hop
    rcases taint with _ | ⟨a, _ | ⟨b, rest⟩⟩
    · simp [Postfix.step] at h
    · simp [Postfix.step] at h
    · obtain rfl := Option.some.inj h
      exact congrArg (fun t => Except.ok (t :: rest)) (joinTaint_comm a b)
  rw [if_neg hand] at hop ⊢
  by_cases hor : code = 0x22
  · rw [if_pos hor] at hop ⊢
    obtain rfl := Option.some.inj hop
    rcases taint with _ | ⟨a, _ | ⟨b, rest⟩⟩
    · simp [Postfix.step] at h
    · simp [Postfix.step] at h
    · obtain rfl := Option.some.inj h
      exact congrArg (fun t => Except.ok (t :: rest)) (joinTaint_comm a b)
  rw [if_neg hor] at hop ⊢
  by_cases hnot : code = 0x23
  · rw [if_pos hnot] at hop ⊢
    obtain rfl := Option.some.inj hop
    rcases taint with _ | ⟨a, rest⟩
    · simp [Postfix.step] at h
    · obtain rfl := Option.some.inj h
      cases a <;> rfl
  rw [if_neg hnot] at hop ⊢
  by_cases hnop : code = 0xff
  · rw [if_pos hnop] at hop
    obtain rfl := Option.some.inj hop
    have : taint = taint' := by cases taint <;> exact Option.some.inj h
    simp [require, hnop, this, ok_bind, pure, Except.pure]
  · simp [if_neg hnop] at hop

end

section
variable {w : PredicateProgram} {tupleCount : Nat} {vals : List Bool}

private theorem evaluate_active {is : List (Fin 20)} (his : ∀ i ∈ is, i.val < w.opCount)
    {prog : List (Postfix.Op Nat)} (hprog : (is.map w.rawOp).mapM (RawOp.decode tupleCount) = some prog)
    {stack stack' : List Bool}
    (h : is.foldlM (fun stack i => evaluateOp vals (decide (i.val < w.opCount)) stack (w.rawOp i))
      stack = .ok stack') : Postfix.run (boolAlg fun k => vals.getD k false) prog stack = some stack' := by
  induction is generalizing stack prog with
  | nil =>
    obtain rfl := Option.some.inj hprog
    simpa using h
  | cons i is ih =>
    simp only [List.map_cons, List.mapM_cons, Option.bind_eq_bind, Option.bind_eq_some_iff,
      Option.pure_def, Option.some.injEq] at hprog
    obtain ⟨op, hop, prog', hprog', rfl⟩ := hprog
    simp only [List.foldlM_cons, bind_eq_ok, decide_eq_true (his i List.mem_cons_self)] at h
    obtain ⟨stack₁, hstep, hrest⟩ := h
    rw [Postfix.run_cons, evaluateOp_step hop hstep]
    exact ih (fun i hi => his i (List.mem_cons_of_mem _ hi)) hprog' hrest

private theorem evaluate_inactive {is : List (Fin 20)} (his : ∀ i ∈ is, w.opCount ≤ i.val)
    {stack stack' : List Bool}
    (h : is.foldlM (fun stack i => evaluateOp vals (decide (i.val < w.opCount)) stack (w.rawOp i))
      stack = .ok stack') : stack' = stack := by
  refine foldlM_ok_induction (motive := fun s => s = stack) h rfl fun i hi c c' hstep hc => ?_
  have hlt : ¬ i.val < w.opCount := by
    have := his i hi
    omega
  simp only [evaluateOp, decide_eq_false hlt, bind_eq_ok, Bool.false_eq_true, if_false, pure_eq_ok] at hstep
  obtain ⟨_, -, _, -, rfl⟩ := hstep
  exact hc

/-- The evaluation loop runs the decoded program. -/
private theorem evaluate_run {prog : List (Postfix.Op Nat)}
    (hprog : ((active w.opCount).map w.rawOp).mapM (RawOp.decode tupleCount) = some prog) {stack' : List Bool}
    (h : (List.finRange 20).foldlM
      (fun stack i => evaluateOp vals (decide (i.val < w.opCount)) stack (w.rawOp i)) [] = .ok stack') :
    Postfix.run (boolAlg fun k => vals.getD k false) prog [] = some stack' := by
  rw [← List.take_append_drop w.opCount (List.finRange 20), List.foldlM_append, bind_eq_ok] at h
  obtain ⟨stack, hactive, hrest⟩ := h
  obtain rfl := evaluate_inactive (fun i hi => le_of_mem_drop hi) hrest
  exact evaluate_active (fun i hi => lt_of_mem_active hi) hprog hactive

private theorem taint_active (hlen : tupleCount ≤ vals.length) {is : List (Fin 20)}
    (his : ∀ i ∈ is, i.val < w.opCount) {prog : List (Postfix.Op Nat)}
    (hprog : (is.map w.rawOp).mapM (RawOp.decode tupleCount) = some prog) {taint taint' : List Tag}
    (hsp : taint.length + is.length ≤ 20)
    (h : Postfix.run (signerTaintAlg fun k => vals.getD k false) prog taint = some taint') :
    is.foldlM (fun taint i => taintOp vals (decide (i.val < w.opCount)) taint (w.rawOp i)) taint =
      .ok taint' := by
  induction is generalizing taint prog with
  | nil =>
    obtain rfl := Option.some.inj hprog
    obtain rfl := Option.some.inj h
    rfl
  | cons i is ih =>
    simp only [List.length_cons] at hsp
    simp only [List.map_cons, List.mapM_cons, Option.bind_eq_bind, Option.bind_eq_some_iff,
      Option.pure_def, Option.some.injEq] at hprog
    obtain ⟨op, hop, prog', hprog', rfl⟩ := hprog
    obtain ⟨taint₁, hstep, hrun⟩ := Option.bind_eq_some_iff.mp h
    have hsize := Postfix.length_step hstep
    rw [List.foldlM_cons, decide_eq_true (his i List.mem_cons_self),
      taintOp_step hlen hop (by omega) hstep, ok_bind]
    exact ih (fun i hi => his i (List.mem_cons_of_mem _ hi)) hprog' (by omega) hrun

/-- The taint pass runs the decoded program. -/
private theorem taint_run (hlen : tupleCount ≤ vals.length) (hcount : w.opCount ≤ 20)
    {prog : List (Postfix.Op Nat)}
    (hprog : ((active w.opCount).map w.rawOp).mapM (RawOp.decode tupleCount) = some prog) {taint' : List Tag}
    (h : Postfix.run (signerTaintAlg fun k => vals.getD k false) prog [] = some taint') :
    (List.finRange 20).foldlM (fun taint i => taintOp vals (decide (i.val < w.opCount)) taint (w.rawOp i)) [] =
      .ok taint' := by
  have hrest : ∀ is : List (Fin 20), (∀ i ∈ is, w.opCount ≤ i.val) →
      is.foldlM (fun taint i => taintOp vals (decide (i.val < w.opCount)) taint (w.rawOp i)) taint' =
        .ok taint' := by
    intro is his
    induction is with
    | nil => rfl
    | cons i is ih =>
      have hlt : ¬ i.val < w.opCount := by
        have := his i List.mem_cons_self
        omega
      rw [List.foldlM_cons, decide_eq_false hlt]
      exact ih fun i hi => his i (List.mem_cons_of_mem _ hi)
  rw [← List.take_append_drop w.opCount (List.finRange 20), List.foldlM_append]
  have hactive := taint_active hlen (fun i hi => lt_of_mem_active hi) hprog
    (by simpa using (length_active hcount).le.trans hcount) h
  rw [active] at hactive
  rw [hactive, ok_bind]
  exact hrest _ fun i hi => le_of_mem_drop hi

end

end PredicateProgram

/-! ## Soundness and completeness of the class binding -/

/-- In a program that evaluates to true, a commitment to tuples that the circuit binds whenever
they hold ends bound in the circuit. -/
theorem signerTaint_of_commits {B : Nat → Prop} {v b : Nat → Bool}
    (hB : ∀ k, B k → v k = true → b k = true) {e : Expr Nat} (hc : e.Commits B)
    (hv : e.fold (boolAlg v) = true) : e.fold (signerTaintAlg b) = .bound ∧ ∃ k, B k ∧ v k = true := by
  induction e with
  | leaf k =>
    have hk : v k = true := hv
    exact ⟨if_pos (hB k hc hk), k, hc, hk⟩
  | and a b iha ihb =>
    obtain ⟨hva, hvb⟩ := Bool.and_eq_true_iff.mp hv
    rcases hc with hc | hc
    · obtain ⟨hbound, hk⟩ := iha hc hva
      exact ⟨if_pos (.inl hbound), hk⟩
    · obtain ⟨hbound, hk⟩ := ihb hc hvb
      exact ⟨if_pos (.inr hbound), hk⟩
  | or a b iha ihb =>
    rcases Bool.or_eq_true_iff.mp hv with hva | hvb
    · obtain ⟨hbound, hk⟩ := iha hc.1 hva
      exact ⟨if_pos (.inl hbound), hk⟩
    · obtain ⟨hbound, hk⟩ := ihb hc.2 hvb
      exact ⟨if_pos (.inr hbound), hk⟩
  | not a => exact hc.elim

/-- An operand whose high 30 bytes are zero is its tag. -/
theorem toNat_eq_operandTag {operand : Bytes32} (h : (operand.1.take 30).all (· = 0) = true) :
    operand.toNat = (operandTag operand).toNat := by
  obtain ⟨bs, hlen⟩ := operand
  have hsplit : bs = bs.take 30 ++ [bs.getD 30 0, bs.getD 31 0] := by
    apply List.ext_getElem
    · simp [hlen]
    · intro i h1 h2
      rcases Nat.lt_or_ge i 30 with hi | hi
      · rw [List.getElem_append_left (by simp [hlen]; omega)]
        simp
      · rw [List.getElem_append_right (by simp [hlen]; omega)]
        obtain rfl | rfl : i = 30 ∨ i = 31 := by omega
        · simp [hlen]
        · simp [hlen]
  have hval : beToNat bs = (bs.getD 30 0).toNat * 256 + (bs.getD 31 0).toNat := by
    rw [hsplit, beToNat_append, beToNat_eq_zero h, ← hsplit]
    simp [beToNat]
  have hi := (bs.getD 30 0).toNat_lt
  have hlo := (bs.getD 31 0).toNat_lt
  have hor : (bs.getD 30 0).toNat <<< 8 ||| (bs.getD 31 0).toNat =
      (bs.getD 30 0).toNat * 256 + (bs.getD 31 0).toNat := by
    rw [← Nat.shiftLeft_add_eq_or_of_lt hlo, Nat.shiftLeft_eq]
  have htag : (operandTag ⟨bs, hlen⟩).toNat = (bs.getD 30 0).toNat <<< 8 % 2 ^ 16 ||| (bs.getD 31 0).toNat := by
    simp [operandTag, UInt16.toNat_or, UInt16.toNat_shiftLeft]
  rw [htag, Nat.mod_eq_of_lt (by rw [Nat.shiftLeft_eq]; omega), hor]
  exact hval

theorem evaluateTuple_eq {attrValue operand : Fr} {typeTag : UInt8}
    (h : evaluateTuple attrValue operand typeTag 0x10 = .ok true) : attrValue = operand := by
  unfold evaluateTuple at h
  by_cases h23 : typeTag = 0x02 ∨ typeTag = 0x03
  · rw [if_pos h23] at h
    simpa [require, ok_bind, pure, Except.pure] using h
  rw [if_neg h23] at h
  by_cases h1 : typeTag = 0x01
  · rw [if_pos h1] at h
    simpa [pure, Except.pure] using h
  · simp [if_neg h1] at h

namespace PredicateProgram
variable {w : PredicateProgram} {attrs : Fin 4 → Fr}

/-- What the tuple loop computes of an active tuple. -/
theorem tupleBools_get {vals : List Bool} (h : w.tupleBools attrs = .ok vals) :
    vals.length = 20 ∧ ∀ t : Fin 20, t.val < w.tupleCount → ∃ hc : (w.tupleClaimIndex t).toNat < 4,
        evaluateTuple (attrs ⟨_, hc⟩) (w.tupleOperand t) (w.tupleTypeTag t) (w.tupleComparator t) =
          .ok (vals.getD t.val false) := by
  have hall := mapM_eq_ok.mp h
  have hlen : vals.length = 20 := by simpa using hall.length_eq.symm
  refine ⟨hlen, fun t ht => ?_⟩
  have htv : t.val < vals.length := by omega
  have hget := (List.forall₂_iff_get.mp hall).2 t.val (by simp) htv
  simp only [List.get_eq_getElem, List.getElem_finRange, Fin.cast_mk, Fin.eta, if_pos ht] at hget
  split at hget
  · rename_i hc
    simp only [ok_bind, bind_eq_ok, pure_eq_ok] at hget
    obtain ⟨v, hv, hval⟩ := hget
    refine ⟨hc, ?_⟩
    rw [List.getD_eq_getElem?_getD, List.getElem?_eq_getElem htv, Option.getD_some, ← hval]
    exact hv
  · simp at hget

theorem counts_of_check (h : w.checkCounts = .ok ()) : w.tupleCount ≤ 20 ∧ w.opCount ≤ 20 := by
  simp only [checkCounts, bind_eq_ok, require_eq_ok, exists_const] at h
  exact ⟨h.2.1, h.2.2.2⟩

end PredicateProgram

open PredicateProgram in
/-- Class binding across the contract and the circuit: on a predicate the contract accepts, a true
program has an attribute in the class set, and passes the circuit's class-binding constraints for
that attribute. -/
theorem classBinding_sound {ctx : Sol.Context} {params : Sol.PetitionParams} {w : PredicateProgram}
    {attrs : Fin 4 → Fr} (hparams : Sol.validateParams ctx params = .ok ()) (hbinding :
      Sol.validateClassBinding params.predicateDef params.classIndex params.classSet = .ok ())
    (hcounts : w.checkCounts = .ok ()) (henc : w.encodeDef = .ok params.predicateDef)
    (heval : w.evaluatePredicate attrs = .ok true) : ∃ h : params.classIndex.toNat < 4,
      (∃ c ∈ params.classSet, attrs ⟨_, h⟩ = Scalar.ofNat c.toNat) ∧
      w.checkClassBinding (Scalar.ofNat params.classIndex.toNat) (attrs ⟨_, h⟩) = .ok () := by
  obtain ⟨htc, hoc⟩ := counts_of_check hcounts
  have hset : params.classSet.Pairwise (· < ·) := by
    simp only [Sol.validateParams, bind_eq_ok, failIf_eq_ok, not_not, exists_const] at hparams
    exact List.isChain_iff_pairwise.mp hparams.2.2.2.2.2.1
  have hdef : params.predicateDef =
      layout ((active w.tupleCount).map w.rawTuple) ((active w.opCount).map w.rawOp) := by
    simp only [encodeDef, bind_eq_ok, pure_eq_ok] at henc
    obtain ⟨_, -, henc⟩ := henc
    exact henc.symm
  rw [hdef, Sol.validateClassBinding_layout hset (by simpa [length_active htc] using htc)
    (by simpa [length_active hoc] using hoc)] at hbinding
  obtain ⟨-, prog, hprog, e, hparse, hcommits⟩ := hbinding
  simp only [evaluatePredicate, bind_eq_ok] at heval
  obtain ⟨vals, hvals, stack, hloop, hlast⟩ := heval
  obtain ⟨hlen, hget⟩ := tupleBools_get hvals
  -- the evaluation is the Boolean fold of the parsed expression
  have hstack : stack = [true] := by
    rcases stack with _ | ⟨r, _ | ⟨r', rest⟩⟩
    · simp at hlast
    · rw [pure_eq_ok.mp hlast]
    · simp at hlast
  have hrun := evaluate_run hprog (hstack ▸ hloop)
  obtain ⟨e', hparse', htrue⟩ := Postfix.run_eq_singleton.mp hrun
  obtain rfl := List.singleton_inj.mp (Option.some.inj (hparse.symm.trans hparse'))
  -- a true class-binding tuple names the signer's own attribute
  have hnames : ∀ k, TupleAt ((active w.tupleCount).map w.rawTuple)
      (RawTuple.IsClassBinding params.classIndex params.classSet) k → vals.getD k false = true →
      ∃ (h : params.classIndex.toNat < 4) (t : Fin 20), t.val = k ∧ t.val < w.tupleCount ∧
        w.tupleClaimIndex t = params.classIndex ∧ w.tupleComparator t = 0x10 ∧
        attrs ⟨_, h⟩ = w.tupleOperand t ∧
        ∃ c ∈ params.classSet, w.tupleOperand t = Scalar.ofNat c.toNat := by
    rintro k ⟨raw, hraw, hci, hcmp, hzero, htag⟩ hk
    obtain ⟨hklt, -⟩ := List.getElem?_eq_some_iff.mp hraw
    rw [List.length_map, length_active htc] at hklt
    have hk20 : k < 20 := by omega
    rw [List.getElem?_map, getElem?_active hklt hk20, Option.map_some, Option.some.injEq] at hraw
    subst hraw
    obtain ⟨hc, heq⟩ := hget ⟨k, hk20⟩ hklt
    simp only [rawTuple] at hci hcmp hzero htag
    rw [hk, hcmp] at heq
    refine ⟨hci ▸ hc, ⟨k, hk20⟩, rfl, hklt, hci, hcmp, ?_, _, htag, ?_⟩
    · rw [← evaluateTuple_eq heq]
      simp only [hci]
    · apply Scalar.toNat_inj
      have hnat := toNat_eq_operandTag hzero
      rw [toNat_frToBeBytes] at hnat
      have hsmall := (operandTag (frToBeBytes (w.tupleOperand ⟨k, hk20⟩))).toNat_lt
      rw [Scalar.toNat_ofNat (by omega), ← hnat]
      rfl
  obtain ⟨-, k, hk, hkv⟩ := signerTaint_of_commits (b := fun _ => true) (fun _ _ _ => rfl) hcommits htrue
  obtain ⟨hci, t, htk, htlt, htci, htcmp, htattr, c, hc, hopc⟩ := hnames k hk hkv
  refine ⟨hci, ⟨c, hc, htattr.trans hopc⟩, ?_⟩
  -- the circuit's marks, for the attribute as class tag
  set tag := attrs ⟨params.classIndex.toNat, hci⟩
  set marks := (List.finRange 20).map (w.isBindingTuple (Scalar.ofNat params.classIndex.toNat) tag) with hmarks
  have hmarked : ∀ k, TupleAt ((active w.tupleCount).map w.rawTuple)
      (RawTuple.IsClassBinding params.classIndex params.classSet) k → vals.getD k false = true →
      marks.getD k false = true := by
    intro k hk hkv
    obtain ⟨_, t, rfl, htlt, htci, htcmp, htattr, -⟩ := hnames k hk hkv
    have : w.isBindingTuple (Scalar.ofNat params.classIndex.toNat) tag t = true := by
      simp [isBindingTuple, htlt, htci, htcmp, tag, htattr]
    simpa [hmarks] using this
  have hany : marks.any id = true := by
    refine List.any_eq_true.mpr ⟨true, ?_, rfl⟩
    have hget := hmarked k hk hkv
    rw [List.getD_eq_getElem?_getD] at hget
    obtain ⟨m, hm, hmt⟩ : ∃ m, marks[k]? = some m ∧ m = true := by
      rcases hm : marks[k]? with _ | m
      · simp [hm] at hget
      · exact ⟨m, rfl, by simpa [hm] using hget⟩
    exact hmt ▸ List.mem_of_getElem? hm
  obtain ⟨hbound, -⟩ := signerTaint_of_commits hmarked hcommits htrue
  have htaint := @taint_run w _ marks (by simp [hmarks, length_active htc, htc]) hoc _ hprog _
    (Postfix.run_eq_singleton.mpr ⟨e, hparse, hbound⟩)
  rw [checkClassBinding, ← hmarks, hany, require, if_pos rfl, ok_bind, htaint, ok_bind]
  exact if_pos rfl

/-- `attr[0] == 7` as a padded program. -/
def classSevenProgram : PredicateProgram where
  opCodes i := if i = 0 then 0x20 else 0xff
  opOperands _ := 0
  opCount := 1
  tupleClaimIndex _ := 0
  tupleOperand _ := PrimeField.reduce 7
  tupleTypeTag _ := 0x02
  tupleComparator _ := 0x10
  tupleCount := 1

def classSevenParams : Sol.PetitionParams where
  closeAtBlock := 10
  classIndex := 0
  classSet := [7]
  classThresholds := [1]
  predicateDef := layout [⟨0, Bytes.ofNat 32 7, 0x02, 0x10⟩] [⟨0x20, 0⟩]
  bounty := 10

theorem classBinding_sound_seven : Sol.validateParams ⟨5, 4, 1⟩ classSevenParams = .ok () ∧
      classSevenProgram.evaluatePredicate (fun _ => PrimeField.reduce 7) = .ok true ∧
      ∃ h : classSevenParams.classIndex.toNat < 4,
        (∃ c ∈ classSevenParams.classSet, (fun _ : Fin 4 => (PrimeField.reduce 7 : Fr)) ⟨_, h⟩ =
          Scalar.ofNat c.toNat) ∧
        classSevenProgram.checkClassBinding (Scalar.ofNat classSevenParams.classIndex.toNat)
          ((fun _ : Fin 4 => PrimeField.reduce 7) ⟨_, h⟩) = .ok () := by
  have hparams : Sol.validateParams ⟨5, 4, 1⟩ classSevenParams = .ok () := by decide +kernel
  have heval : classSevenProgram.evaluatePredicate (fun _ => PrimeField.reduce 7) = .ok true := by
    decide +kernel
  have hbinding : Sol.validateClassBinding classSevenParams.predicateDef
      classSevenParams.classIndex classSevenParams.classSet = .ok () := by
    refine (Sol.validateClassBinding_layout (by simp [classSevenParams]) (by simp) (by simp)).mpr
      ⟨by decide, [.push 0], rfl, .leaf 0, rfl, ?_⟩
    exact ⟨_, rfl, by decide⟩
  exact ⟨hparams, heval, classBinding_sound hparams hbinding (by decide) (by decide +kernel) heval⟩

end Pocs.Civic
