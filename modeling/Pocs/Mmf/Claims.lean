import Pocs.Mmf.Builder

/-! # Claims, the seed and redemptions

What the transfer agent of `agent.rs` spends: claims, the seed's deposit and freeze, and hand-outs, with
the claim records that tell its own transfers from the redemptions of investors. The keys the agent
holds and its seed are the rest of `TransferAgent` here. -/

namespace Pocs.Mmf

open Compliance (Address)

/-- `TransferAgent` with the keys it signs with and its seed. -/
structure KeyedAgent (F : Type) extends TransferAgent F where
  /-- Signs for the agent's own owner value. -/
  signer : PlanSigner F
  claimKey : PlanSigner F
  /-- The commitment of the seed's deposit, once it was built. -/
  seedDeposit : Option F

inductive ClaimAction (F : Type) where
  | freeze
  | hold (untilEpoch : UInt64)
  | release
  | seize (newOwner : F)

structure Redemption (F : Type) where
  investorId : String
  units : UInt64
  commitment : F

/-- The investor, for a holder that counts toward the caps. -/
def Holder.investorId : Holder → Option String
  | .investor id => some id
  | .agent | .padding => none

variable {F : Type} [FeedField F] (P : Primitives F)

/-! ## Redemptions -/

namespace TransferAgent
variable (self : TransferAgent F)

/-- Whether the outputs of a spend are those of a claim of the agent's. -/
def isClaim (s : SpendRecord F) : Bool :=
  (self.claims ++ self.pendingClaims).any fun c => s.outputs = [c.outputs.1, c.outputs.2]

local instance lawfulBEq_nullifiers : LawfulBEq F := inferInstance

def spentBy (s : SpendRecord F) (e : RegisterEntry F) : Option String := do
  let id ← e.holder.bind Holder.investorId
  let nk ← self.nkOf P e.note.owner
  if nullifier P e.commitment nk ∈ s.nullifiers then some id else none

def redeemer (s : SpendRecord F) : Option String := self.register.findSome? (self.spentBy P s)

/-- An output paid to the agent that the agent has not spent. -/
def redemptionOf (view : ChainView F) (id : String) (c : F) : Option (Redemption F) :=
  if nullifier P c self.wallet.nk ∈ view.nullifiers then none
  else (self.register.find? fun e =>
    e.commitment = c ∧ e.note.owner = self.owner P ∧ e.note.units > 0).map fun e =>
      ⟨id, e.note.units, c⟩

/-- Investors' spends that paid units to the agent, still pending. -/
def redemptions (view : ChainView F) : List (Redemption F) :=
  (view.spends.filter fun s => !self.isClaim s).flatMap fun s =>
    match self.redeemer P s with
    | none => []
    | some id => s.outputs.filterMap (self.redemptionOf P view id)

end TransferAgent

namespace KeyedAgent
variable (self : KeyedAgent F)

/-! ## Claims -/

/-- The seed's deposit, or the note its freeze creates, from the claim's record. -/
def isSeed (commitment : F) : Bool :=
  match self.seedDeposit with
  | none => false
  | some deposit => commitment = deposit || (self.pendingClaims ++ self.claims).any fun c =>
      c.target = deposit && c.outputs.1 = commitment

def keysOf (owner : F) : Except (BuildError F) (InvestorRecord F) :=
  if owner = self.owner P then pure ⟨.agent, self.wallet.pk, self.wallet.nk⟩
  else okOr (self.investors owner) (.unknownOwner owner)

def claimOutputs (note : Note F) (action : ClaimAction F) : Fin 2 → Output F :=
  let moved : Output F := match action with
    | .freeze => ⟨note.owner, note.units, .freeze⟩
    | .hold untilEpoch => ⟨note.owner, note.units, .hold untilEpoch⟩
    | .release => ⟨note.owner, note.units, noLock⟩
    | .seize newOwner => ⟨newOwner, note.units, noLock⟩
  ![moved, ⟨note.owner, 0, noLock⟩]

def buildClaim (payloadCommitment : List UInt8 → F) (draws : Draws F) (view : AttestedView F)
    (env : PoolEnv F) (target : F) (action : ClaimAction F) :
    Except (BuildError F) (KeyedAgent F × BuiltTransfer F) := do
  let entry ← okOr (self.register.find? fun e => e.commitment = target ∧ e.spent = false) (.unknownNote target)
  let record ← self.keysOf P entry.note.owner
  let input : OwnedNote F := ⟨entry.note, entry.opening, entry.commitment, entry.leafIndex, false⟩
  let built ← buildTransfer P payloadCommitment
    ⟨true, record.pk, record.nk, self.claimKey.publicKey, [input], claimOutputs entry.note action⟩
    self.claimKey draws view env
  let record : ClaimRecord F := ⟨target, (built.pub.commitmentOut0, built.pub.commitmentOut1)⟩
  pure ({ self with pendingClaims := self.pendingClaims ++ [record] }, built)

/-- `claim`; the seed takes none. -/
def claim (payloadCommitment : List UInt8 → F) (draws : Draws F) (view : AttestedView F)
    (env : PoolEnv F) (target : F) (action : ClaimAction F) :
    Except (BuildError F) (KeyedAgent F × BuiltTransfer F) := do
  failIf (self.isSeed target = true) (.seedNote target)
  self.buildClaim P payloadCommitment draws view env target action

def attestedInvestor (view : AttestedView F) : Option (AttestationRecord F) :=
  view.attestationRecords.find? fun r => ((self.holderOf P r.owner).bind Holder.investorId).isSome

/-- `seed_deposit`. -/
def depositSeed (payloadCommitment : List UInt8 → F) (draws : Draws F) (view : AttestedView F)
    (env : PoolEnv F) (units : UInt64) (funder : Address) :
    Except (BuildError F) (KeyedAgent F × DepositPublic F × DepositWitness F × List UInt8) := do
  failIf (self.seedDeposit.isSome = true) .seedExists
  match self.attestedInvestor P view with
  | some r => .error (.investorBeforeSeed r.owner)
  | none => do
    let (pub, witness, payload) ←
      self.wallet.deposit P payloadCommitment self.signer draws view env units funder
    pure ({ self with seedDeposit := some pub.commitment }, pub, witness, payload)

/-- `freeze_seed`, the one claim the seed takes. -/
def freezeSeed (payloadCommitment : List UInt8 → F) (draws : Draws F) (view : AttestedView F)
    (env : PoolEnv F) : Except (BuildError F) (KeyedAgent F × BuiltTransfer F) := do
  let deposit ← okOr self.seedDeposit .noSeed
  self.buildClaim P payloadCommitment draws view env deposit .freeze

local instance neZero_handOutOutputs : NeZero 2 := ⟨by decide⟩

/-- Whether an output is locked, which only the claim path can do. -/
def locks (outputs : Fin 2 → Output F) : Bool :=
  let locked (o : Output F) : Bool :=
    !(o.opening.reason = 0 && o.opening.releaseAfter = 0 && o.opening.claimParty = 0)
  locked (outputs 0) || locked (outputs 1)

def handOutTransfer (payloadCommitment : List UInt8 → F) (draws : Draws F) (view : AttestedView F)
    (env : PoolEnv F) (source : OwnedNote F) (outputs : Fin 2 → Output F) :
    Except (BuildError F) (BuiltTransfer F) := do
  failIf (source.note.owner ≠ self.owner P) (.unknownNote source.commitment)
  failIf (self.isSeed source.commitment = true) (.seedNote source.commitment)
  failIf (source.note.lock ≠ 0) (.lockedNote source.commitment)
  failIf (∃ r ∈ self.redemptions P view.toChainView, r.commitment = source.commitment)
    (.pendingRedemption source.commitment)
  let claim := locks outputs
  buildTransfer P payloadCommitment
    ⟨claim, self.wallet.pk, self.wallet.nk, self.claimKey.publicKey, [source], outputs⟩
    (if claim then self.claimKey else self.signer) draws view env

end KeyedAgent

end Pocs.Mmf
