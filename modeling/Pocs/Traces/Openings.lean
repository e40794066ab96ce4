import Pocs.Traces.Amounts

/-! # Opening the notes

`check_notes` of `trace-recorder/src/lib.rs`: the amounts of all notes, then the balances that list them. The
opener is called once for each sealed note and may keep a state. `Recorder::check` runs this after
`validate`, whose rules leave only some of its branches (`Reason`). -/

namespace Pocs.Traces

/-- Why the notes are refused; all are `Error::Opening` with their text. -/
inductive Refusal where
  | undeclared (note : UInt32)
  | unopened (note : UInt32)
  | amount (note : UInt32) (error : AmountError)
  | neither (note : UInt32)
  | noAmount (position : Nat) (note : UInt32)
  | overflows (position : Nat) (persona : String)
  | differs (position : Nat) (persona amount : String) (sum : Nat)

def Refusal.text : Refusal → String
  | undeclared note => s!"note {note} names something undeclared"
  | unopened note => s!"note {note} does not open under its key"
  | amount note error => s!"note {note}: {error.text}"
  | neither note => s!"note {note} is neither sealed nor opened"
  | noAmount position note => s!"step {position}: note {note} carries no amount"
  | overflows position persona => s!"step {position}: wallet `{persona}` overflows u128"
  | differs position persona held sum =>
    s!"step {position}: wallet `{persona}` holds {held} but its notes sum to {sum}"

def Artifact.note? : Artifact → Option Note
  | note n => some n
  | _ => none

def Trace.notes (t : Trace) : List Note := t.artifacts.filterMap Artifact.note?

/-- The opener, with what it keeps from call to call. -/
abbrev Opener (σ : Type) := σ → NoteDomain → Key → Sealed → Option (List UInt8) × σ

namespace Header

def findDomain (h : Header) (sealed : Sealed) : Option NoteDomain :=
  h.noteDomains.find? fun d => d.id == sealed.domain

def findLayout (h : Header) (sealed : Sealed) : Option NoteLayout :=
  h.noteLayouts.find? fun l => l.id == sealed.layout

def findKey (h : Header) (note : Note) (sealed : Sealed) : Option Key :=
  (h.personas.find? fun p => p.id == note.recipient).bind fun p => p.keys.find? fun k => k.id == sealed.key

end Header

section
variable (fromSlice : List UInt8 → Option Value) {σ : Type} (opener : Opener σ)

def openSealed (h : Header) (note : Note) (sealed : Sealed) (s : σ) : Except Refusal (Option Nat × σ) :=
  match h.findDomain sealed, h.findLayout sealed, h.findKey note sealed with
  | some domain, some layout, some key =>
    match opener s domain key sealed with
    | (none, _) => .error (.unopened note.id)
    | (some plaintext, s) => do
      let amount ← mapErr (.amount note.id) (readAmount fromSlice layout.codec plaintext)
      pure (amount, s)
  | _, _, _ => .error (.undeclared note.id)

def noteAmount (h : Header) (note : Note) (s : σ) : Except Refusal (Option Nat × σ) :=
  match note.sealed, note.opened with
  | some sealed, _ => openSealed fromSlice opener h note sealed s
  | none, some opened =>
    match opened.plaintext.get "amount" with
    | none => pure (none, s)
    | some value => do
      let amount ← mapErr (.amount note.id) (jsonAmount value)
      pure (some amount, s)
  | none, none => .error (.neither note.id)

/-- Enter the amounts of the notes. -/
def readNotes (h : Header) : List Note → List (UInt32 × Option Nat) → σ →
    Except Refusal (List (UInt32 × Option Nat))
  | [], amounts, _ => pure amounts
  | note :: notes, amounts, s => do
    let (amount, s) ← noteAmount fromSlice opener h note s
    readNotes h notes (SortedMap.insert note.id amount amounts) s

end

section
variable (amounts : List (UInt32 × Option Nat)) (position : Nat) (persona : String)

def addNote (sum : Nat) (id : UInt32) : Except Refusal Nat := do
  let amount ← okOr (amounts.lookup id).join (.noAmount position id)
  okOr (checkedAdd 128 sum amount) (.overflows position persona)

/-- The balance is the sum of the notes it lists. -/
def checkBalance (balance : Balance) : Except Refusal Unit := do
  let sum ← balance.notes.foldlM (addNote amounts position persona) 0
  failIf (fromStrRadix 128 10 balance.amount.toList ≠ some sum) (.differs position persona balance.amount sum)

def checkStep (step : Step) : Except Refusal Unit :=
  step.wallets.entries.forM fun e =>
    (e.2.filter fun b => !b.notes.isEmpty).forM (checkBalance amounts position e.1)

end

section
variable (fromSlice : List UInt8 → Option Value) {σ : Type} (opener : Opener σ)

/-- Open every sealed note, then check each balance that lists notes. -/
def checkNotes (t : Trace) (s : σ) : Except Refusal Unit := do
  let amounts ← readNotes fromSlice opener t.header t.notes [] s
  t.steps.zipIdx.forM fun e => checkStep amounts e.2 e.1

/-- The rules of the trace, then the openings of its notes. -/
def check (t : Trace) (s : σ) : Except Error Unit := do
  validate t
  mapErr (fun refusal => Error.opening refusal.text) (checkNotes fromSlice opener t s)

end

/-! ## What is read -/

section
variable (fromSlice : List UInt8 → Option Value) {σ : Type} (opener : Opener σ)

def plaintexts (h : Header) : List Note → σ → List (UInt32 × List UInt8)
  | [], _ => []
  | note :: notes, s =>
    match note.sealed with
    | none => plaintexts h notes s
    | some sealed =>
      match h.findDomain sealed, h.findKey note sealed with
      | some domain, some key =>
        let (answer, s) := opener s domain key sealed
        (answer.toList.map fun plaintext => (note.id, plaintext)) ++ plaintexts h notes s
      | _, _ => plaintexts h notes s

/-- The amount of a note: from its plaintext by the codec of its layout, or from the opened note. -/
inductive Note.Reads (h : Header) (ps : List (UInt32 × List UInt8)) (n : Note) : Option Nat → Prop where
  | sealed {x l plaintext amount} (sealed : n.sealed = some x) (layout : l ∈ h.noteLayouts)
    (id : l.id = x.layout) (given : ps.lookup n.id = some plaintext)
    (read : readAmount fromSlice l.codec plaintext = .ok amount) : Reads h ps n amount
  | opened {x value amount} (unsealed : n.sealed = none) (opened : n.opened = some x)
    (member : x.plaintext.get "amount" = some value) (read : jsonAmount value = .ok amount) :
    Reads h ps n (some amount)
  | without {x} (unsealed : n.sealed = none) (opened : n.opened = some x)
    (member : x.plaintext.get "amount" = none) : Reads h ps n none

/-- The text is not an amount, or not one below `2 ^ 128`. -/
inductive BadAmount : Json → AmountError → Prop where
  | notString {value} (text : value.asStr = none) : BadAmount value .notString
  | notNumeral {text} (amount : ∀ n < 2 ^ 128, ¬ AmountText (.string text) n) :
    BadAmount (.string text) (.notNumeral text)

/-- The plaintext does not follow its codec, or its amount is not below `2 ^ 128`. -/
inductive Malformed : Codec → List UInt8 → AmountError → Prop where
  | length {len fields plaintext} (length : plaintext.length ≠ UInt32.toNat len) :
    Malformed (.fixed len fields) plaintext (.length plaintext.length len)
  | exceeds {len fields plaintext f} (field : f ∈ fields) (name : f.name = "amount")
    (length : plaintext.length = UInt32.toNat len)
    (large : 2 ^ 128 ≤ beToNat ((plaintext.drop f.offset.toNat).take f.ty.width)) :
    Malformed (.fixed len fields) plaintext .exceeds
  | notJson {plaintext} (parsed : fromSlice plaintext = none) : Malformed .json plaintext .notJson
  | notObject {plaintext value} (parsed : fromSlice plaintext = some value) (object : ¬ value.isObject) :
    Malformed .json plaintext .notObject
  | member {plaintext value amount error} (parsed : fromSlice plaintext = some value)
    (member : value.get "amount" = some amount) (bad : BadAmount amount error) :
    Malformed .json plaintext error

/-- Why the notes of a valid trace are refused. -/
inductive Reason (t : Trace) (ps : List (UInt32 × List UInt8)) : Refusal → Prop where
  | unopened {n x d k s} (mem : n ∈ t.notes) (sealed : n.sealed = some x)
    (domain : t.header.findDomain x = some d) (key : t.header.findKey n x = some k)
    (answer : (opener s d k x).1 = none) : Reason t ps (.unopened n.id)
  | plaintext {n x d k l s plaintext error} (mem : n ∈ t.notes) (sealed : n.sealed = some x)
    (domain : t.header.findDomain x = some d) (key : t.header.findKey n x = some k)
    (layout : l ∈ t.header.noteLayouts) (id : l.id = x.layout)
    (answer : (opener s d k x).1 = some plaintext) (malformed : Malformed fromSlice l.codec plaintext error) :
    Reason t ps (.amount n.id error)
  | opened {n x value error} (mem : n ∈ t.notes) (unsealed : n.sealed = none) (opened : n.opened = some x)
    (member : x.plaintext.get "amount" = some value) (bad : BadAmount value error) :
    Reason t ps (.amount n.id error)
  /-- The plaintext of a `json` layout lacks the member. -/
  | noAmount {i s p b n x l plaintext} (step : t.steps[i]? = some s) (balance : s.HasBalance p b)
    (listed : n.id ∈ b.notes) (mem : n ∈ t.notes) (sealed : n.sealed = some x)
    (layout : l ∈ t.header.noteLayouts) (id : l.id = x.layout) (json : l.codec = .json)
    (given : ps.lookup n.id = some plaintext) (read : readAmount fromSlice .json plaintext = .ok none) :
    Reason t ps (.noAmount i n.id)
  | overflows {i s p b ids amounts} (step : t.steps[i]? = some s) (balance : s.HasBalance p b)
    (listed : ids <+: b.notes)
    (reads : ids.Forall₂ (fun id m => ∃ n ∈ t.notes, n.id = id ∧ n.Reads fromSlice t.header ps (some m)) amounts)
    (sum : 2 ^ 128 ≤ amounts.sum) : Reason t ps (.overflows i p)
  | differs {i s p b amounts} (step : t.steps[i]? = some s) (balance : s.HasBalance p b)
    (reads : b.notes.Forall₂
      (fun id m => ∃ n ∈ t.notes, n.id = id ∧ n.Reads fromSlice t.header ps (some m)) amounts)
    (sum : ¬ Denotes 10 b.amount.toList amounts.sum) : Reason t ps (.differs i p b.amount amounts.sum)

end

end Pocs.Traces
