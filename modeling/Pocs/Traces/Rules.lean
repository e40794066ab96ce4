import Pocs.Traces.Domain

/-! # The rules of a trace

Section 4.2 of `SPEC.md`, rule by rule and in its own words (`Trace.Valid`). Rules 1 and 11 are of the
text. -/

namespace Pocs.Traces

/-! ## Declarations -/

namespace Header
variable (h : Header) (id : String)

def HasPersona : Prop := ∃ p ∈ h.personas, p.id = id
def HasObserver : Prop := ∃ o ∈ h.observers, o.id = id
def HasField : Prop := ∃ f ∈ h.fields, f.id = id
def HasAsset : Prop := ∃ a ∈ h.assets, a.id = id
def HasAction : Prop := id ∈ coreActions ∨ ∃ a ∈ h.actions, a.id = id
def HasDomain : Prop := ∃ d ∈ h.noteDomains, d.id = id
def HasLayout : Prop := ∃ l ∈ h.noteLayouts, l.id = id
def HasChain (chainId : UInt64) : Prop := ∃ c ∈ h.chains, c.chainId = chainId

def HoldsKey (persona key : String) : Prop := ∃ p ∈ h.personas, p.id = persona ∧ ∃ k ∈ p.keys, k.id = key

end Header

namespace Trace
variable (t : Trace)

def artifacts : List Artifact := t.steps.flatMap Step.artifacts

/-- What is recorded in the step at the position or an earlier one. -/
def upTo (i : Nat) : List Artifact := (t.steps.take (i + 1)).flatMap Step.artifacts

end Trace

/-! ## The rules -/

/-- A non-empty decimal numeral. -/
def IsDecimal (value : String) : Prop := value ≠ "" ∧ ∀ c ∈ value.toList, c.isDigit

/-- The field is an integer named `amount`. -/
def LayoutField.IsAmount (f : LayoutField) : Prop :=
  f.name = "amount" ∧ (f.ty = .u64 ∨ f.ty = .u128 ∨ f.ty = .u256)

/-- Rule 12. -/
structure Header.Valid (h : Header) : Prop where
  schema : h.schema = 1
  personas : (h.personas.map Persona.id).Nodup
  observers : (h.observers.map Observer.id).Nodup
  fields : (h.fields.map Field.id).Nodup
  assets : (h.assets.map Asset.id).Nodup
  actions : (h.actions.map ActionDef.id).Nodup
  circuits : (h.circuits.map CircuitDef.id).Nodup
  noteDomains : (h.noteDomains.map NoteDomain.id).Nodup
  noteLayouts : (h.noteLayouts.map NoteLayout.id).Nodup
  keys : ∀ p ∈ h.personas, (p.keys.map Key.id).Nodup
  not_core : ∀ a ∈ h.actions, a.id ∉ coreActions
  chains : (h.chains.map Chain.chainId).Nodup
  asset_chain : ∀ a ∈ h.assets, h.HasChain a.chainId
  layouts : ∀ l ∈ h.noteLayouts, ∀ len fields, l.codec = .fixed len fields →
    (fields.map LayoutField.name).Nodup ∧ ∀ f ∈ fields, f.offset.toNat + f.ty.width ≤ len.toNat

/-- Rule 2. -/
structure Step.Named (h : Header) (s : Step) : Prop where
  actor : h.HasPersona s.actor
  action : h.HasAction s.action
  roles : ∀ e ∈ s.roles.entries, h.HasObserver e.1 ∧ h.HasPersona e.2
  messages : ∀ m, .message m ∈ s.artifacts → h.HasPersona m.from ∧ h.HasPersona m.to

/-- Rule 5. -/
structure Note.Valid (h : Header) (n : Note) : Prop where
  recipient : h.HasPersona n.recipient
  exactly_one : n.sealed.isSome ≠ n.opened.isSome
  sealed : ∀ x, n.sealed = some x → h.HasDomain x.domain ∧ h.HasLayout x.layout ∧ h.HoldsKey n.recipient x.key
  opened : ∀ x, n.opened = some x → x.plaintext.isObject ∧ h.HasPersona x.decryptedBy

def Step.HasCell (s : Step) (c : Cell) : Prop :=
  ∃ row ∈ s.observations.entries, ∃ e ∈ row.2.entries, e.2 = c

/-- The step shows the balance of the persona. -/
def Step.HasBalance (s : Step) (persona : String) (b : Balance) : Prop :=
  ∃ e ∈ s.wallets.entries, e.1 = persona ∧ b ∈ e.2

inductive Note.HasAmount (h : Header) (n : Note) : Prop where
  | sealed {x l} (sealed : n.sealed = some x) (layout : l ∈ h.noteLayouts) (id : l.id = x.layout)
    (amount : ∀ len fields, l.codec = .fixed len fields → ∃ f ∈ fields, f.IsAmount)
  | opened {x amount} (unsealed : n.sealed = none) (opened : n.opened = some x)
    (member : x.plaintext.get "amount" = some (.string amount)) (decimal : IsDecimal amount)

structure Proof.Verified (t : Trace) (p : Proof) : Prop where
  verifier : ∀ id, p.verifiedBy = some id → ∃ tx, .tx tx ∈ t.artifacts ∧ tx.id = id ∧
    (∃ hash blockNumber gasUsed, tx.outcome = .confirmed hash blockNumber gasUsed) ∧
    ∃ input, tx.input = some input ∧ p.bytes ≠ [] ∧ p.bytes <:+: input

/-- The rules of section 4.2 that are about the trace. -/
structure Trace.Valid (t : Trace) : Prop where
  rule2 : ∀ s ∈ t.steps, s.Named t.header
  rule3 : (t.artifacts.map Artifact.id).Nodup
  rule4 : ∀ tx, .tx tx ∈ t.artifacts → t.header.HasChain tx.chainId
  rule5 : ∀ n, .note n ∈ t.artifacts → n.Valid t.header
  rule6 : ∀ s ∈ t.steps, (∀ o, o ∈ s.observations.keys ↔ t.header.HasObserver o) ∧
    ∀ row ∈ s.observations.entries, ∀ f, f ∈ row.2.keys ↔ t.header.HasField f
  rule7 : ∀ s ∈ t.steps, ∀ c, s.HasCell c → (c.evidence ≠ [] ↔ c.level ≠ .notApplicable)
  rule8_evidence : ∀ i s, t.steps[i]? = some s → ∀ c, s.HasCell c → ∀ id ∈ c.evidence, ∃ a ∈ t.upTo i, a.id = id
  rule8_carried : ∀ i s, t.steps[i]? = some s → ∀ n, .note n ∈ s.artifacts →
    ∃ a ∈ t.upTo i, a.id = n.carriedBy ∧ ((∃ tx, a = .tx tx) ∨ ∃ m, a = .message m)
  rule8_verified : ∀ p, .proof p ∈ t.artifacts → p.Verified t
  rule9 : ∀ s ∈ t.steps, (∀ p, p ∈ s.wallets.keys ↔ t.header.HasPersona p) ∧
    ∀ p b, s.HasBalance p b → t.header.HasAsset b.asset ∧ IsDecimal b.amount
  rule10 : ∀ i s, t.steps[i]? = some s → ∀ p b, s.HasBalance p b → (b.notes ≠ [] → b.kind = .confidential) ∧
    ∀ id ∈ b.notes, ∃ n, .note n ∈ t.upTo i ∧ n.id = id ∧ n.recipient = p ∧ n.HasAmount t.header
  rule10_once : ∀ s ∈ t.steps, (s.wallets.entries.flatMap fun e => e.2.flatMap Balance.notes).Nodup
  rule12 : t.header.Valid
  rule13 : ∀ p, .proof p ∈ t.artifacts → ∀ c ∈ t.header.circuits, c.id = p.circuit →
    p.publicInputs.length = c.publicInputs.length

end Pocs.Traces
