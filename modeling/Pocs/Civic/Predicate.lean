import Pocs.Lib.Checked
import Pocs.Lib.Postfix
import Pocs.Civic.Field

/-! # Predicates: grammar, encoding and the class-binding taint of `predicate.rs`

`evaluateClassBindingTaint_eq_ok` reads the taint analysis as a run of the postfix program in the
three-valued algebra `taintAlg`, whose fold is `bound` exactly when the expression commits to a
binding tuple (`fold_taintAlg`). -/

namespace Pocs.Civic

open Postfix (Alg Expr)

def predicateOpMax : Nat := 20
def predicateTupleMax : Nat := 20
def predicateBytesMax : Nat := 1024

/-- Class tag (uint16) partitioning signatures into classes. -/
abbrev ClassTag := UInt16

instance instLawfulBEqClassTag : LawfulBEq ClassTag := inferInstance

instance instLinearOrderClassTag : LinearOrder UInt16 where
  le a b := a ≤ b
  lt a b := a < b
  le_refl := UInt16.le_refl
  le_trans _ _ _ := UInt16.le_trans
  le_antisymm _ _ := UInt16.le_antisymm
  le_total := UInt16.le_total
  lt_iff_le_not_ge a b := by
    rw [UInt16.lt_iff_toNat_lt, UInt16.le_iff_toNat_le, UInt16.le_iff_toNat_le]
    omega
  toDecidableLE := inferInstance
  toDecidableLT := inferInstance
  toDecidableEq := inferInstance

inductive TypeTag where
  | int64
  | hash
  | bool
  deriving DecidableEq, Repr

def TypeTag.toByte : TypeTag → UInt8
  | .int64 => 0x01
  | .hash => 0x02
  | .bool => 0x03

inductive Comparator where
  | eq
  | le
  | ge
  deriving DecidableEq, Repr

def Comparator.toByte : Comparator → UInt8
  | .eq => 0x10
  | .le => 0x11
  | .ge => 0x12

inductive OpCode where
  | pushTuple
  | and
  | or
  | not
  | nop
  deriving DecidableEq, Repr

def OpCode.toByte : OpCode → UInt8
  | .pushTuple => 0x20
  | .and => 0x21
  | .or => 0x22
  | .not => 0x23
  | .nop => 0xff

/-- The `Debug` text of an op code. -/
def OpCode.debug : OpCode → String
  | .pushTuple => "PushTuple"
  | .and => "And"
  | .or => "Or"
  | .not => "Not"
  | .nop => "Nop"

structure Tuple where
  claimIndex : UInt8
  operand : Bytes32
  typeTag : TypeTag
  comparator : Comparator
  deriving DecidableEq

structure PredOp where
  code : OpCode
  operand : UInt8
  deriving DecidableEq, Repr

/-- A postfix program over comparisons of claims. -/
structure PredicateDef where
  tuples : List Tuple
  ops : List PredOp
  deriving DecidableEq

inductive PredicateError where
  | tooLarge
  | tupleCountOutOfRange (n : Nat)
  | opCountOutOfRange (n : Nat)
  | badTypeTag (byte : UInt8)
  | badComparator (byte : UInt8)
  | badOpcode (byte : UInt8)
  | operandOutOfRange (operand tupleCount : UInt8)
  | malformed (msg : String)
  | stackUnderflow (op : Nat)
  | nonSingletonResult (size : Nat)
  | missingClassBinding
  | int64OperandOutOfRange
  | typeMismatch (msg : String)
  deriving DecidableEq, Repr

def isInt64InRange (bytes : Bytes32) : Bool := (bytes.1.take 24).all (· = 0)

def isBoolOperand (bytes : Bytes32) : Bool :=
  (bytes.1.take 31).all (· = 0) && bytes.1.getD 31 0 ≤ 1

namespace PredicateDef

/-- The check of one op: a push names a tuple, any other op has operand `0`. -/
def validateOp (tupleCount : Nat) (op : PredOp) : Except PredicateError Unit :=
  if op.code = .pushTuple then
    failIf (op.operand.toNat ≥ tupleCount) (.operandOutOfRange op.operand (UInt8.ofNat tupleCount))
  else
    let (code, operand) := (op.code.debug, op.operand.toNat)
    failIf (op.operand ≠ 0) (.malformed s!"non-PUSH op {code} has nonzero operand {operand}")

/-- The check of the tuple at index `i`. -/
def validateTuple (t : Tuple) (i : Nat) : Except PredicateError Unit :=
  match t.typeTag, t.comparator with
  | .int64, _ => failIf (!isInt64InRange t.operand) .int64OperandOutOfRange
  | .hash, .eq => .ok ()
  | .hash, _ => .error (.typeMismatch s!"tuple {i}: HASH supports `==` only")
  | .bool, .eq =>
    failIf (!isBoolOperand t.operand) (.typeMismatch s!"tuple {i}: BOOL operand must be 0 or 1")
  | .bool, _ => .error (.typeMismatch s!"tuple {i}: BOOL supports `==` only")

def validate (p : PredicateDef) : Except PredicateError Unit := do
  failIf (¬ (1 ≤ p.tuples.length ∧ p.tuples.length ≤ predicateTupleMax)) (.tupleCountOutOfRange p.tuples.length)
  failIf (¬ (1 ≤ p.ops.length ∧ p.ops.length ≤ predicateOpMax)) (.opCountOutOfRange p.ops.length)
  p.ops.forM (validateOp p.tuples.length)
  p.tuples.zipIdx.forM fun t => validateTuple t.1 t.2

def serializedLen (p : PredicateDef) : Nat := 1 + p.tuples.length * 35 + 1 + p.ops.length * 2

def encode (p : PredicateDef) : Except PredicateError (List UInt8) := do
  p.validate
  failIf (p.serializedLen > predicateBytesMax) .tooLarge
  pure (UInt8.ofNat p.tuples.length :: p.tuples.flatMap (fun t =>
      t.claimIndex :: t.operand.1 ++ [t.typeTag.toByte, t.comparator.toByte]) ++
    UInt8.ofNat p.ops.length :: p.ops.flatMap (fun o => [o.code.toByte, o.operand]))

end PredicateDef

/-- The `seg`-th of the 34 scalars: the first one starts with the length marker. -/
def canonicalScalar (encoded : List UInt8) (seg : Nat) : Fr :=
  if seg = 0 then
    let n := encoded.length
    let content := encoded.take 29
    frFromBeBytes (0 :: UInt8.ofNat (n >>> 8) :: UInt8.ofNat n ::
      content ++ List.replicate (29 - content.length) 0)
  else
    let content := (encoded.drop (29 + 31 * (seg - 1))).take 31
    frFromBeBytes (0 :: content ++ List.replicate (31 - content.length) 0)

def canonicalScalars (encoded : List UInt8) : Except PredicateError (List Fr) := do
  failIf (encoded.length > predicateBytesMax) .tooLarge
  pure ((List.range 34).map (canonicalScalar encoded))

/-! ## Class binding -/

inductive Tag where
  | bound
  | free
  | tainted
  deriving DecidableEq, Repr

def Tag.and : Tag → Tag → Tag
  | .bound, _ => .bound
  | _, .bound => .bound
  | .tainted, _ => .tainted
  | _, .tainted => .tainted
  | _, _ => .free

def Tag.or (a b : Tag) : Tag :=
  if a = .bound ∧ b = .bound then .bound
  else if a = .bound ∨ b = .bound ∨ a = .tainted ∨ b = .tainted then .tainted
  else .free

def Tag.not : Tag → Tag
  | .bound => .tainted
  | other => other

def popTwo (stack : List Tag) (opIdx : Nat) : Except PredicateError (Tag × Tag × List Tag) :=
  match stack with
  | b :: a :: rest => .ok (b, a, rest)
  | _ => .error (.stackUnderflow opIdx)

/-- One op of the taint analysis; the stack is kept top first. -/
def taintStep (bindingTupleIndices : List Nat) (stack : List Tag) (op : PredOp × Nat) :
    Except PredicateError (List Tag) :=
  match op.1.code with
  | .pushTuple =>
    .ok ((if op.1.operand.toNat ∈ bindingTupleIndices then .bound else .free) :: stack)
  | .and => do
    let (b, a, rest) ← popTwo stack op.2
    pure (a.and b :: rest)
  | .or => do
    let (b, a, rest) ← popTwo stack op.2
    pure (a.or b :: rest)
  | .not =>
    match stack with
    | a :: rest => .ok (a.not :: rest)
    | [] => .error (.stackUnderflow op.2)
  | .nop => .ok stack

/-- Shared taint analysis: `OR(Bound, Free) -> Tainted`, `OR(Bound, Bound) -> Bound`. -/
def evaluateClassBindingTaint (ops : List PredOp) (bindingTupleIndices : List Nat) :
    Except PredicateError Tag := do
  let stack ← ops.zipIdx.foldlM (taintStep bindingTupleIndices) []
  match stack with
  | [tag] => pure tag
  | _ => .error (.nonSingletonResult stack.length)

def operandTag (operand : Bytes32) : ClassTag :=
  (operand.1.getD 30 0).toUInt16 <<< 8 ||| (operand.1.getD 31 0).toUInt16

/-- The tuples `find_class_binding_operand` takes for class bindings: `attr[class_index] == tag`
with a tag of 16 bits. -/
def Tuple.IsShortBinding (classIndex : UInt8) (t : Tuple) : Prop :=
  t.claimIndex = classIndex ∧ t.comparator = .eq ∧ (t.operand.1.take 30).all (· = 0)

instance (classIndex : UInt8) (t : Tuple) : Decidable (t.IsShortBinding classIndex) :=
  inferInstanceAs (Decidable (_ ∧ _))

/-- Loose variant: the operand of the first class-binding tuple. -/
def PredicateDef.findClassBindingOperand (p : PredicateDef) (classIndex : UInt8) :
    Except PredicateError ClassTag := do
  let binding := p.tuples.zipIdx.filter fun t => t.1.IsShortBinding classIndex
  let bindingTupleIndices := binding.map (·.2)
  let bindingOperands := binding.map fun t => operandTag t.1.operand
  failIf (bindingTupleIndices = []) .missingClassBinding
  let tag ← evaluateClassBindingTaint p.ops bindingTupleIndices
  match tag with
  | .bound => pure (bindingOperands.getD 0 0)
  | _ => .error .missingClassBinding

/-! ## The taint analysis as a fold -/

/-- The algebra of the taint analysis whose binding tuples are those of `B`. -/
def taintAlg {τ : Type} (B : τ → Prop) [DecidablePred B] : Alg τ Tag where
  leaf t := if B t then .bound else .free
  and := Tag.and
  or := Tag.or
  not := Tag.not

theorem Tag.and_eq_bound {a b : Tag} : a.and b = .bound ↔ a = .bound ∨ b = .bound := by
  cases a <;> cases b <;> simp [Tag.and]

theorem Tag.or_eq_bound {a b : Tag} : a.or b = .bound ↔ a = .bound ∧ b = .bound := by
  cases a <;> cases b <;> simp [Tag.or]

theorem Tag.not_ne_bound (a : Tag) : a.not ≠ .bound := by
  cases a <;> simp [Tag.not]

/-- The analysis ends `bound` exactly when the expression commits to a binding tuple. -/
theorem fold_taintAlg {τ : Type} {B : τ → Prop} [DecidablePred B] (e : Expr τ) :
    e.fold (taintAlg B) = .bound ↔ e.Commits B := by
  induction e with
  | leaf t =>
    simp only [Expr.fold, taintAlg, Expr.Commits]
    split <;> simp_all
  | and a b iha ihb => exact Tag.and_eq_bound.trans (or_congr iha ihb)
  | or a b iha ihb => exact Tag.or_eq_bound.trans (and_congr iha ihb)
  | not a => exact iff_of_false (Tag.not_ne_bound _) id

theorem run_taintAlg {τ : Type} {B : τ → Prop} [DecidablePred B] {ops : List (Postfix.Op τ)} :
    Postfix.run (taintAlg B) ops [] = some [.bound] ↔ Postfix.Commits B ops := by
  simp only [Postfix.run_eq_singleton, fold_taintAlg, Postfix.Commits]

def PredOp.toOp (op : PredOp) : Postfix.Op Nat :=
  match op.code with
  | .pushTuple => .push op.operand.toNat
  | .and => .and
  | .or => .or
  | .not => .not
  | .nop => .nop

private theorem taintStep_eq_ok {binding : List Nat} {stack stack' : List Tag} {op : PredOp}
    {i : Nat} : taintStep binding stack (op, i) = .ok stack' ↔
      Postfix.step (taintAlg (· ∈ binding)) stack op.toOp = some stack' := by
  unfold taintStep PredOp.toOp
  rcases op with ⟨code, operand⟩
  cases code with
  | pushTuple => simp [Postfix.step, taintAlg]
  | nop => cases stack <;> simp [Postfix.step]
  | not => cases stack <;> simp [Postfix.step, taintAlg]
  | and | or =>
    rcases stack with _ | ⟨b, _ | ⟨a, rest⟩⟩ <;> simp [Postfix.step, taintAlg, popTwo]

private theorem foldlM_taintStep {binding : List Nat} {ops : List PredOp} {k : Nat} {stack stack' : List Tag} :
    (ops.zipIdx k).foldlM (taintStep binding) stack = .ok stack' ↔
      Postfix.run (taintAlg (· ∈ binding)) (ops.map PredOp.toOp) stack = some stack' := by
  induction ops generalizing k stack with
  | nil => simp
  | cons op ops ih =>
    simp only [List.zipIdx_cons, List.foldlM_cons, bind_eq_ok, taintStep_eq_ok, List.map_cons,
      Postfix.run_cons, Option.bind_eq_some_iff, ih]

theorem evaluateClassBindingTaint_eq_ok {ops : List PredOp} {binding : List Nat} {tag : Tag} :
    evaluateClassBindingTaint ops binding = .ok tag ↔
      Postfix.run (taintAlg (· ∈ binding)) (ops.map PredOp.toOp) [] = some [tag] := by
  simp only [evaluateClassBindingTaint, bind_eq_ok, foldlM_taintStep]
  constructor
  · rintro ⟨stack, hrun, hmatch⟩
    rcases stack with _ | ⟨x, _ | ⟨y, rest⟩⟩
    · simp at hmatch
    · simp only [pure_eq_ok] at hmatch
      exact hmatch ▸ hrun
    · simp at hmatch
  · intro hrun
    exact ⟨[tag], hrun, rfl⟩

end Pocs.Civic
