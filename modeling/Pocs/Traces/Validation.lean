import Pocs.Lib.Checked
import Pocs.Traces.Domain

/-! # Validation

`validate` of `trace-recorder/src/lib.rs`, function by function. What is recorded so far is a map that the
steps fill one after the other; proofs are checked once it is full. -/

namespace Pocs.Traces

open SortedMap (collect collectKeys)

def invalid (rule : Nat) (detail : String) : Error := .invalid rule detail

/-- `if let Some(a) = x { return Err(e(a)) }`. -/
def failWith {α : Type} (x : Option α) (e : α → Error) : Except Error Unit :=
  match x with
  | some a => .error (e a)
  | none => .ok ()

def isDecimal (value : String) : Bool := !value.isEmpty && value.toList.all Char.isDigit

/-- The contiguous parts of length `n`. -/
def windows {α : Type} (n : Nat) (xs : List α) : List (List α) :=
  (List.range (xs.length + 1 - n)).map fun i => (xs.drop i).take n

/-- The first of the ids that stands among those seen before it. -/
def firstRepeat (seen : List String) : List String → Option String
  | [] => none
  | id :: ids => if seen.contains id then some id else firstRepeat (id :: seen) ids

def unique (what : String) (ids : List String) : Except Error Unit :=
  failWith (firstRepeat [] ids) fun id => invalid 12 s!"{what}: id `{id}` repeats"

structure Declared where
  personas : List String
  observers : List String
  fields : List String
  chains : List UInt64
  assets : List String
  actions : List String
  domains : List String
  circuits : List (String × Nat)
  /-- The pairs of a persona and a key. -/
  keys : List (String × String)
  layouts : List (String × NoteLayout)

def Declared.new (h : Header) : Declared where
  personas := collectKeys (h.personas.map Persona.id)
  observers := collectKeys (h.observers.map Observer.id)
  fields := collectKeys (h.fields.map Field.id)
  chains := collectKeys (h.chains.map Chain.chainId)
  assets := collectKeys (h.assets.map Asset.id)
  actions := collectKeys (coreActions ++ h.actions.map ActionDef.id)
  domains := collectKeys (h.noteDomains.map NoteDomain.id)
  circuits := collect (h.circuits.map fun c => (c.id, c.publicInputs.length))
  keys := h.personas.flatMap fun p => p.keys.map fun k => (p.id, k.id)
  layouts := collect (h.noteLayouts.map fun l => (l.id, l))

/-- Artifacts recorded so far. -/
abbrev Seen := List (UInt32 × Artifact)

/-! ## Proofs -/

def TxOutcome.isConfirmed : TxOutcome → Bool
  | confirmed .. => true
  | _ => false

def Tx.carries (verifier : Tx) (bytes : Hex) : Bool :=
  !bytes.isEmpty && verifier.input.any fun input => (windows bytes.length input).any (· == bytes)

def validateInputs (proof : Proof) (declared : Declared) : Except Error Unit :=
  match declared.circuits.lookup proof.circuit with
  | some names => failIf (names ≠ proof.publicInputs.length) (invalid 13
      s!"proof {proof.id} has {proof.publicInputs.length} public inputs; circuit `{proof.circuit}` names {names}")
  | none => .ok ()

/-- The artifact with the id is the transaction that verified the proof. -/
def validateVerifier (proof : Proof) (tx : UInt32) : Option Artifact → Except Error Unit
  | some (.tx verifier) => do
    failIf (¬ verifier.outcome.isConfirmed)
      (invalid 8 s!"proof {proof.id} verified_by {tx}, which is not confirmed")
    failIf (¬ verifier.carries proof.bytes)
      (invalid 8 s!"tx {tx}'s input does not carry proof {proof.id}'s bytes")
  | _ => .error (invalid 8 s!"proof {proof.id} verified_by {tx} is not a recorded tx")

def validateProof (proof : Proof) (declared : Declared) (seen : Seen) : Except Error Unit := do
  validateInputs proof declared
  match proof.verifiedBy with
  | none => .ok ()
  | some tx => validateVerifier proof tx (seen.lookup tx)

def LayoutField.overruns (len : UInt32) (f : LayoutField) : Bool :=
  match checkedAdd 32 f.offset.toNat f.ty.width with
  | some last => last > len.toNat
  | none => true

def validateLayout (layout : NoteLayout) : Except Error Unit :=
  match layout.codec with
  | .fixed len fields => do
    unique s!"layout `{layout.id}` fields" (fields.map LayoutField.name)
    failWith (fields.find? (LayoutField.overruns len)) fun field =>
      invalid 12 s!"layout `{layout.id}` field `{field.name}` overruns it"
  | .json => .ok ()

def validateHeader (h : Header) : Except Error Unit := do
  failIf (h.schema ≠ schemaVersion) (invalid 12 s!"schema {h.schema} is not {schemaVersion}")
  unique "personas" (h.personas.map Persona.id)
  unique "observers" (h.observers.map Observer.id)
  unique "fields" (h.fields.map Field.id)
  unique "assets" (h.assets.map Asset.id)
  unique "actions" (h.actions.map ActionDef.id)
  unique "circuits" (h.circuits.map CircuitDef.id)
  unique "note_domains" (h.noteDomains.map NoteDomain.id)
  unique "note_layouts" (h.noteLayouts.map NoteLayout.id)
  h.personas.forM fun persona => unique s!"persona `{persona.id}` keys" (persona.keys.map Key.id)
  failWith (h.actions.find? fun a => coreActions.contains a.id) fun action =>
    invalid 12 s!"action `{action.id}` is already core"
  let chains := collectKeys (h.chains.map Chain.chainId)
  failIf (chains.length ≠ h.chains.length) (invalid 12 "a chain id repeats")
  failWith (h.assets.find? fun a => !chains.contains a.chainId) fun asset =>
    invalid 12 s!"asset `{asset.id}` is on an undeclared chain"
  h.noteLayouts.forM validateLayout

/-! ## Artifacts -/

/-- `seen.insert`, refusing an id that is there. -/
def record (seen : Seen) (artifact : Artifact) : Except Error Seen := do
  failIf (seen.lookup artifact.id).isSome (invalid 3 s!"artifact id {artifact.id} repeats")
  pure (SortedMap.insert artifact.id artifact seen)

def refersTo (seen : Seen) (id : UInt32) (kinds : List String) : Except Error Unit :=
  match seen.lookup id with
  | none => .error (invalid 8 s!"{id} is not recorded yet")
  | some artifact => failIf (¬ kinds.contains artifact.kind)
      (invalid 8 (toString id ++ " is not a " ++ " or ".intercalate kinds))

/-- The note is one of sealed and opened, under declared names. -/
def validateForm (note : Note) (declared : Declared) : Except Error Unit :=
  match note.sealed, note.opened with
  | some sealed, none =>
    failIf (¬ declared.domains.contains sealed.domain ∨ (declared.layouts.lookup sealed.layout).isNone ∨
        ¬ declared.keys.contains (note.recipient, sealed.key))
      (invalid 5 s!"note {note.id} names an undeclared domain or layout, or a key its recipient lacks")
  | none, some opened => do
    failIf (¬ opened.plaintext.isObject) (invalid 5 s!"note {note.id} plaintext is not an object")
    failIf (¬ declared.personas.contains opened.decryptedBy)
      (invalid 5 s!"note {note.id} decrypted_by is not a persona")
  | _, _ => .error (invalid 5 s!"note {note.id} must be exactly one of sealed and opened")

def validateNote (note : Note) (declared : Declared) (seen : Seen) : Except Error Unit := do
  failIf (¬ declared.personas.contains note.recipient) (invalid 5 s!"note {note.id} recipient is not a persona")
  refersTo seen note.carriedBy ["tx", "message"]
  validateForm note declared

def validateArtifact (artifact : Artifact) (declared : Declared) (seen : Seen) : Except Error Unit :=
  match artifact with
  | .tx tx => failIf (¬ declared.chains.contains tx.chainId)
      (invalid 4 s!"tx {tx.id} is on an undeclared chain")
  | .note note => validateNote note declared seen
  | .message message =>
    failWith ([message.from, message.to].find? fun party => !declared.personas.contains party) fun party =>
      invalid 2 s!"message {message.id} end `{party}` is not a persona"
  | .proof _ | .state _ => .ok ()

/-! ## Observations and wallets -/

def validateCell (observer : String) (seen : Seen) (field : String) (cell : Cell) : Except Error Unit := do
  failIf ((cell.level == .notApplicable) ≠ cell.evidence.isEmpty)
    (invalid 7 s!"cell `{observer}.{field}` must cite evidence unless it is n/a, and only then")
  failWith (cell.evidence.find? fun id => (seen.lookup id).isNone) fun id =>
    invalid 8 s!"cell `{observer}.{field}` cites {id}, which is not recorded yet"

def validateRow (declared : Declared) (seen : Seen) (observer : String) (row : BTreeMap String Cell) :
    Except Error Unit := do
  failIf (row.keys ≠ declared.fields) (invalid 6 s!"observer `{observer}` does not cover exactly the fields")
  row.entries.forM fun e => validateCell observer seen e.1 e.2

def validateObservations (step : Step) (declared : Declared) (seen : Seen) : Except Error Unit := do
  failIf (step.observations.keys ≠ declared.observers)
    (invalid 6 "observations do not cover exactly the observers")
  step.observations.entries.forM fun e => validateRow declared seen e.1 e.2

def FieldType.isInteger : FieldType → Bool
  | u64 | u128 | u256 => true
  | _ => false

def LayoutField.isAmount (f : LayoutField) : Bool := f.name == "amount" && f.ty.isInteger

def Codec.hasAmount : Codec → Bool
  | fixed _ fields => fields.any LayoutField.isAmount
  -- the member is inside the ciphertext
  | json => true

def Opened.hasAmount (opened : Opened) : Bool :=
  ((opened.plaintext.get "amount").bind Json.asStr).any isDecimal

def noteHasAmount (note : Note) (layouts : List (String × NoteLayout)) : Bool :=
  match note.sealed, note.opened with
  | some sealed, _ => (layouts.lookup sealed.layout).any fun layout => layout.codec.hasAmount
  | none, some opened => opened.hasAmount
  | none, none => false

/-- The place of a balance in an error. -/
def walletAt (persona : String) (balance : Balance) : String :=
  s!"wallet `{persona}` balance in `{balance.asset}`"

def listNote (declared : Declared) (seen : Seen) (persona : String) (balance : Balance)
    (listed : List UInt32) (id : UInt32) : Except Error (List UInt32) :=
  match seen.lookup id with
  | some (.note note) => do
    failIf (listed.contains id) (invalid 10 s!"{walletAt persona balance}: note {id} is listed twice")
    failIf (note.recipient ≠ persona)
      (invalid 10 s!"{walletAt persona balance}: note {id} is addressed to `{note.recipient}`")
    failIf (¬ noteHasAmount note declared.layouts)
      (invalid 10 s!"{walletAt persona balance}: note {id} carries no `amount`")
    pure (id :: listed)
  | _ => .error (invalid 10 s!"{walletAt persona balance} lists {id}, which is not a recorded note")

def validateBalance (declared : Declared) (seen : Seen) (persona : String) (listed : List UInt32)
    (balance : Balance) : Except Error (List UInt32) := do
  failIf (¬ declared.assets.contains balance.asset) (invalid 9 s!"{walletAt persona balance}: undeclared asset")
  failIf (¬ isDecimal balance.amount) (invalid 9 s!"{walletAt persona balance}: amount is not decimal")
  failIf (balance.kind = .public ∧ ¬ balance.notes.isEmpty)
    (invalid 10 s!"{walletAt persona balance}: a public balance lists notes")
  balance.notes.foldlM (listNote declared seen persona balance) listed

def validateWallets (step : Step) (declared : Declared) (seen : Seen) : Except Error Unit := do
  failIf (step.wallets.keys ≠ declared.personas) (invalid 9 "wallets do not cover exactly the personas")
  let _ ← step.wallets.entries.foldlM (fun listed e => e.2.foldlM (validateBalance declared seen e.1) listed) []
  pure ()

def validateStep (step : Step) (declared : Declared) (seen : Seen) : Except Error Seen := do
  failIf (¬ declared.personas.contains step.actor) (invalid 2 s!"actor `{step.actor}` is not a persona")
  failIf (¬ declared.actions.contains step.action) (invalid 2 s!"action `{step.action}` is not declared")
  failWith (step.roles.entries.find? fun e =>
      !declared.observers.contains e.1 || !declared.personas.contains e.2) fun e =>
    invalid 2 s!"role `{e.1}: {e.2}` is not declared"
  let seen ← step.artifacts.foldlM record seen
  step.artifacts.forM fun artifact => validateArtifact artifact declared seen
  validateObservations step declared seen
  validateWallets step declared seen
  pure seen

def validateProofs (step : Step) (declared : Declared) (seen : Seen) : Except Error Unit :=
  step.artifacts.forM fun artifact =>
    match artifact with
    | .proof proof => validateProof proof declared seen
    | _ => .ok ()

/-- All rules of a trace, in the order of the source. -/
def validate (trace : Trace) : Except Error Unit := do
  validateHeader trace.header
  let declared := Declared.new trace.header
  let seen ← trace.steps.zipIdx.foldlM
    (fun seen e => mapErr (Error.inStep e.2) (validateStep e.1 declared seen)) []
  trace.steps.zipIdx.forM fun e => mapErr (Error.inStep e.2) (validateProofs e.1 declared seen)

end Pocs.Traces
