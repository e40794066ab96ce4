import Pocs.Lib.SortedMap
import Pocs.Mmf.ChainView

/-! # The transfer agent's register

`TransferAgent` of `agent.rs`, as far as the register goes: register keys and their rotation, owner
records, `read_feed`, the totals and `reconcile`. A register secret is its scalar. The decryption of
recipient payloads with the agent's viewing key is a field of `Wallet`. -/

namespace Pocs.Mmf

open Compliance (ofU64)

/-! ## Data -/

structure OwnedNote (F : Type) where
  note : Note F
  opening : LockOpening F
  commitment : F
  leafIndex : Nat
  spent : Bool

/-- Holds `pk` and `nk`, never the spend key. -/
structure Wallet (F : Type) where
  pk : SpendKey
  nk : F
  /-- `decrypt_payload` with the viewing key. -/
  decryptPayload : List UInt8 → Nat → Option (Note F × LockOpening F)
  notes : List (OwnedNote F)

/-- Whom an owner value belongs to. -/
inductive Holder where
  | agent
  | padding
  | investor (id : String)
  deriving DecidableEq, Repr

structure InvestorRecord (F : Type) where
  holder : Holder
  pk : SpendKey
  nk : F

/-- A note the agent has read, with its terms and whether it is spent. -/
structure RegisterEntry (F : Type) where
  note : Note F
  opening : LockOpening F
  commitment : F
  leafIndex : Nat
  holder : Option Holder
  spent : Bool

structure ClaimRecord (F : Type) where
  target : F
  outputs : F × F

structure RegisterKeyRotation (F : Type) where
  version : UInt64
  publicKey : F × F

/-- A note that no register key of its version opens. -/
structure UnreadableNote (F : Type) where
  commitment : F
  keyVersion : UInt64

structure PoolTotals where
  units : Nat
  balance : Nat
  multiplier : Nat

structure Reconciliation where
  remainder : Nat
  outflows : List Outflow

inductive ActorError where
  | staleRotation (version : UInt64)
  | unpreparedRotation (version : UInt64)
  | unreadableNotes (count : Nat)
  | registerMismatch (register pool : Nat)
  | sharesShort
  deriving DecidableEq, Repr

/-- The state of the transfer agent. -/
structure TransferAgent (F : Type) where
  wallet : Wallet F
  /-- By version, smallest first; version 0 is set at construction and never removed. -/
  registerKeys : List (UInt64 × Nat)
  registerKeys_ne : registerKeys ≠ []
  /-- Prepared and not yet committed, by version. -/
  preparedRegisterKeys : List (UInt64 × Nat)
  unreadableNotes : List (UnreadableNote F)
  /-- By owner value. -/
  investors : F → Option (InvestorRecord F)
  register : List (RegisterEntry F)
  pendingClaims : List (ClaimRecord F)
  claims : List (ClaimRecord F)

/-! ## `domain/note.rs` and `domain/feed.rs` -/

section
variable {F : Type} [FeedField F] (P : Primitives F)

/-- A field element that holds a `u64`. -/
def small (f : F) : Option UInt64 :=
  if Scalar.toNat f < 2 ^ 64 then some (.ofNat (Scalar.toNat f)) else none

local instance neZero_feedFields : NeZero 8 := ⟨by decide⟩

/-- `feed::open`, the inverse of the feed record. -/
def openFeed (f : Fin 8 → F) : Option (Note F × LockOpening F) := do
  let units ← small (f 1)
  let reason ← small (f 5)
  let releaseAfter ← small (f 6)
  pure (⟨f 0, units, f 2, f 3, f 4⟩, ⟨ofU64 reason, releaseAfter, f 7⟩)

def Wallet.owner (wallet : Wallet F) : F := ownerValue P wallet.pk wallet.nk

def Wallet.holds (wallet : Wallet F) (commitment : F) : Bool :=
  wallet.notes.any fun n => n.commitment = commitment

/-- One record of `Wallet::scan`. -/
def Wallet.scanRecord (wallet : Wallet F) (record : NoteRecord F) : Wallet F :=
  if wallet.holds record.commitment then wallet
  else match wallet.decryptPayload record.payload record.output with
    | none => wallet
    | some (note, opening) =>
      if note.owner = wallet.owner P ∧ note.commitment P = record.commitment then
        { wallet with notes := wallet.notes ++
          [⟨note, opening, record.commitment, record.leafIndex, false⟩] }
      else wallet

def Wallet.scan (wallet : Wallet F) (view : ChainView F) : Wallet F :=
  let wallet := view.notes.foldl (Wallet.scanRecord P) wallet
  { wallet with notes := wallet.notes.map fun n =>
    { n with spent := decide (nullifier P n.commitment wallet.nk ∈ view.nullifiers) } }

/-! ## Register keys -/

namespace TransferAgent

def new (wallet : Wallet F) (secret : Nat) : TransferAgent F where
  wallet := wallet
  registerKeys := [(0, secret)]
  registerKeys_ne := List.cons_ne_nil _ _
  preparedRegisterKeys := []
  unreadableNotes := []
  investors _ := none
  register := []
  pendingClaims := []
  claims := []

variable (self : TransferAgent F)

/-- `register_keys.last_key_value()`. -/
def lastRegisterKey : UInt64 × Nat := self.registerKeys.getLast self.registerKeys_ne

def nextRegisterKeyVersion : UInt64 := self.lastRegisterKey.1 + 1

/-- `new_register_key` with the fresh secret drawn. -/
def newRegisterKey (secret : Nat) : TransferAgent F × RegisterKeyRotation F :=
  let version := self.nextRegisterKeyVersion
  ({ self with preparedRegisterKeys := self.preparedRegisterKeys ++ [(version, secret)] },
    ⟨version, P.curve.fixedBaseMul secret⟩)

def commitRegisterKey (rotation : RegisterKeyRotation F) : Except ActorError (TransferAgent F) := do
  failIf (rotation.version ≠ self.nextRegisterKeyVersion) (.staleRotation rotation.version)
  let (_, secret) ← okOr (self.preparedRegisterKeys.find? fun (version, tk) =>
    version = rotation.version ∧ P.curve.fixedBaseMul tk = rotation.publicKey)
    (.unpreparedRotation rotation.version)
  pure { self with
    registerKeys := SortedMap.insert rotation.version secret self.registerKeys
    registerKeys_ne := SortedMap.insert_ne_nil
    preparedRegisterKeys := self.preparedRegisterKeys.filter fun (version, _) =>
      version > rotation.version }

def owner : F := self.wallet.owner P

def recordOwner (holder : Holder) (pk : SpendKey) (nk : F) : TransferAgent F :=
  { self with investors := Function.update self.investors (ownerValue P pk nk) (some ⟨holder, pk, nk⟩) }

def holderOf (owner : F) : Option Holder :=
  if owner = self.owner P then some .agent else (self.investors owner).map InvestorRecord.holder

def nkOf (owner : F) : Option F :=
  if owner = self.owner P then some self.wallet.nk else (self.investors owner).map InvestorRecord.nk

/-! ## Reading the feed -/

def keysFor (version : UInt64) : List Nat :=
  match self.registerKeys.lookup version with
  | some tk => [tk]
  | none => (self.preparedRegisterKeys.filter fun (v, _) => v = version).map Prod.snd

/-- Decrypt a record, and keep what opens its commitment. -/
def tryKey (record : NoteRecord F) (tk : Nat) : Option (Note F × LockOpening F) :=
  (openFeed (decrypt P tk record.feedR record.feedCt record.output)).filter fun (note, _) =>
    note.commitment P = record.commitment

def holds (commitment : F) : Bool := self.register.any fun e => e.commitment = commitment

/-- One record of the loop of `read_feed`. -/
def readRecord (record : NoteRecord F) : TransferAgent F :=
  if self.holds record.commitment then self
  else match (self.keysFor record.keyVersion).findSome? (tryKey P record) with
    | none => { self with
      unreadableNotes := self.unreadableNotes ++ [⟨record.commitment, record.keyVersion⟩] }
    | some (note, opening) => { self with
      register := self.register ++ [⟨note, opening, record.commitment, record.leafIndex,
        self.holderOf P note.owner, false⟩]
      -- the payload is not bound, so the agent's own notes come from the feed too
      wallet := if note.owner = self.owner P ∧ self.wallet.holds record.commitment = false then
          { self.wallet with notes := self.wallet.notes ++
            [⟨note, opening, record.commitment, record.leafIndex, false⟩] }
        else self.wallet }

def isSpent (view : ChainView F) (e : RegisterEntry F) : Bool :=
  match self.nkOf P e.note.owner with
  | some nk => decide (nullifier P e.commitment nk ∈ view.nullifiers)
  | none => false

def markSpent (view : ChainView F) : TransferAgent F :=
  { self with register := self.register.map fun e => { e with spent := self.isSpent P view e } }

/-- A pending claim is mined once its outputs appear; one whose target another transaction spent
never will be. -/
def settleClaims (view : ChainView F) : TransferAgent F :=
  let mined (c : ClaimRecord F) : Bool :=
    view.spends.any fun s => s.outputs = [c.outputs.1, c.outputs.2]
  let targetSpent (c : ClaimRecord F) : Bool :=
    self.register.any fun e => e.commitment = c.target && e.spent
  { self with
    claims := self.claims ++ self.pendingClaims.filter mined
    pendingClaims := self.pendingClaims.filter fun c => !mined c && !targetSpent c }

/-- Reads the notes of the view, then what was spent. -/
def readFeed (view : ChainView F) : TransferAgent F :=
  let self := view.notes.foldl (readRecord P) { self with unreadableNotes := [] }
  let self := (self.markSpent P view).settleClaims view
  { self with wallet := self.wallet.scan P view }

/-! ## Totals -/

def unspentEntries : List (RegisterEntry F) := self.register.filter fun e => !e.spent

/-- A sum of `u64`s over a list in memory, which fits a `u128`. -/
def totalUnits : Nat := (self.unspentEntries.map fun e => e.note.units.toNat).sum

/-- `remainder`; the products and the sum wrap. -/
def remainder (balance m : Nat) : Option Nat :=
  let withdrawable := (self.unspentEntries.map fun e =>
    e.note.units.toNat * m % 2 ^ 256 / multiplierScale).sum % 2 ^ 256
  if withdrawable ≤ balance then some (balance - withdrawable) else none

def unexplainedOutflows (view : ChainView F) : List Outflow :=
  view.outflows.filter fun o => !o.byWithdrawal

/-- `reconcile`: the result, and the agent after reading the feed. -/
def reconcile (view : ChainView F) (pool : PoolTotals) : Except ActorError Reconciliation × TransferAgent F :=
  let self := self.readFeed P view
  let result : Except ActorError Reconciliation := do
    failIf (self.unreadableNotes ≠ []) (.unreadableNotes self.unreadableNotes.length)
    failIf (self.totalUnits ≠ pool.units) (.registerMismatch self.totalUnits pool.units)
    let remainder ← okOr (self.remainder pool.balance pool.multiplier) .sharesShort
    pure ⟨remainder, unexplainedOutflows view⟩
  (result, self)

end TransferAgent

end

end Pocs.Mmf
