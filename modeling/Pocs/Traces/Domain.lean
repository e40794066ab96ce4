import Pocs.Lib.Json

/-! # The data of a trace

The types of `trace-recorder/src/lib.rs`, with the fields that the modelled functions read. Strings and bytes are
owned. -/

namespace Pocs.Traces

/-- Bytes that travel as hex. -/
abbrev Hex := List UInt8

def schemaVersion : UInt32 := 1

/-- Actions every trace may use undeclared. -/
def coreActions : List String :=
  ["onboard", "deposit", "transfer", "receive", "withdraw", "disclose", "swap", "redeem", "prove", "submit",
    "reject"]

/-! ## The header -/

structure Chain where
  chainId : UInt64

structure Asset where
  id : String
  chainId : UInt64

structure Key where
  id : String

structure Persona where
  id : String
  keys : List Key

structure Observer where
  id : String

structure Field where
  id : String

structure ActionDef where
  id : String

structure CircuitDef where
  id : String
  publicInputs : List String

structure NoteDomain where
  id : String

inductive FieldType where
  | bytes32
  | address
  | u64
  | u128
  | u256
deriving DecidableEq

def FieldType.width : FieldType → Nat
  | bytes32 | address | u256 => 32
  | u128 => 16
  | u64 => 8

structure LayoutField where
  name : String
  offset : UInt32
  ty : FieldType

/-- How a note's plaintext encodes its fields. -/
inductive Codec where
  | fixed (len : UInt32) (fields : List LayoutField)
  | json

structure NoteLayout where
  id : String
  codec : Codec

structure Header where
  schema : UInt32
  chains : List Chain
  assets : List Asset
  personas : List Persona
  observers : List Observer
  fields : List Field
  actions : List ActionDef
  circuits : List CircuitDef
  noteDomains : List NoteDomain
  noteLayouts : List NoteLayout

/-! ## Steps -/

inductive TxOutcome where
  | confirmed (hash : Hex) (blockNumber gasUsed : UInt64)
  | rejected (revert : String)
  | reverted (hash : Hex) (blockNumber gasUsed : UInt64) (revert : String)

structure Tx where
  id : UInt32
  chainId : UInt64
  outcome : TxOutcome
  input : Option Hex

structure Proof where
  id : UInt32
  circuit : String
  publicInputs : List Hex
  bytes : Hex
  verifiedBy : Option UInt32

structure Sealed where
  domain : String
  layout : String
  key : String
  aad : Hex
  ciphertext : Hex

structure Opened where
  plaintext : Value
  decryptedBy : String

structure Note where
  id : UInt32
  recipient : String
  carriedBy : UInt32
  sealed : Option Sealed
  opened : Option Opened

structure Message where
  id : UInt32
  «from» : String
  «to» : String

structure State where
  id : UInt32

inductive Artifact where
  | tx (tx : Tx)
  | proof (proof : Proof)
  | note (note : Note)
  | message (message : Message)
  | state (state : State)

namespace Artifact

def id : Artifact → UInt32
  | tx a => a.id
  | proof a => a.id
  | note a => a.id
  | message a => a.id
  | state a => a.id

def kind : Artifact → String
  | tx _ => "tx"
  | proof _ => "proof"
  | note _ => "note"
  | message _ => "message"
  | state _ => "state"

end Artifact

inductive Level where
  | hidden
  | visible
  | keyGated
  | inferable
  | notApplicable
deriving DecidableEq

structure Cell where
  level : Level
  evidence : List UInt32

inductive BalanceKind where
  | confidential
  | «public»
deriving DecidableEq

/-- What a persona holds of an asset. -/
structure Balance where
  asset : String
  kind : BalanceKind
  amount : String
  notes : List UInt32

/-- One action and all that is seen of it. -/
structure Step where
  actor : String
  action : String
  roles : BTreeMap String String
  artifacts : List Artifact
  /-- Observer id, then field id. -/
  observations : BTreeMap String (BTreeMap String Cell)
  /-- Every persona's holdings once the step has happened. -/
  wallets : BTreeMap String (List Balance)

/-- What a trace file says. -/
structure Trace where
  header : Header
  steps : List Step

inductive Error where
  | json (line : Nat)
  | invalid (rule : Nat) (detail : String)
  | opening (detail : String)

def Error.inStep (position : Nat) : Error → Error
  | invalid rule detail => invalid rule s!"step {position}: {detail}"
  | other => other

end Pocs.Traces
