import Mathlib.Data.UInt
import Pocs.Lib.MerkleStore
import Pocs.Mmf.Agent

/-! # What the wallets build

The builders of `wallet.rs`: a spend is prepared from the notes alone, signed by a `PlanSigner`, and
finished from the chain as it is at that moment. What a builder draws at random, and the encryption of
the recipient payload, are arguments (`Draws`). A path is rendered into the circuit's arrays at once. -/

namespace Pocs.Mmf

open Compliance (Address merkleHash ofU64 ofAddress)

/-! ## Data -/

/-- The values every proof is built against. -/
structure PoolEnv (F : Type) where
  chainId : UInt64
  pool : Address
  token : Address
  registerKey : F × F
  claimKeyHash : F
  minAcceptedGeneration : UInt64
  epoch : UInt64

structure AttestationRecord (F : Type) where
  owner : F
  attester : Address
  generation : UInt64
  issuedAt : UInt64
  expiresAt : UInt64
  leafIndex : Nat

/-- The view with its part from the registry's events. -/
structure AttestedView (F : Type) extends ChainView F where
  /-- The leaves of the tree. -/
  attestations : List F
  attestationRecords : List (AttestationRecord F)

inductive CryptoError where
  | malformedCiphertext
  | decryptionFailed
  | invalidKey
  | planMismatch
  | registrationKeyMismatch
  | badSignature
  deriving DecidableEq, Repr

/-- The errors of `ActorError` that building a spend returns. -/
inductive BuildError (F : Type) where
  | insufficientUnits (held need : UInt64)
  | notAttested (owner : F)
  | unknownNote (commitment : F)
  | seedNote (commitment : F)
  | lockedNote (commitment : F)
  | seedExists
  | noSeed
  | investorBeforeSeed (owner : F)
  | pendingRedemption (commitment : F)
  | unknownOwner (owner : F)
  | planExpired (expiry epoch : UInt64)
  | inputCount (count : Nat)
  | crypto (e : CryptoError)

structure PlanSigner (F : Type) where
  publicKey : SpendKey
  signPlan : Plan F → List (Note F) → Except CryptoError (Bytes 64)

/-- A sender's scalar: not zero, and below `2 ^ 253`. -/
structure FeedScalar where
  lo : Nat
  hi : Nat
  lo_lt : lo < 2 ^ 128
  hi_lt : hi < 2 ^ 125
  ne_zero : lo ≠ 0 ∨ hi ≠ 0

/-- One output of a transfer; who can read it is left to `Draws.encryptPayload`. -/
structure Output (F : Type) where
  owner : F
  units : UInt64
  opening : LockOpening F

/-- Two fresh salts for the outputs, one for the padding, the scalar of the feed, and
`encrypt_payload`. -/
structure Draws (F : Type) where
  salts : Fin 2 → F
  paddingSalt : F
  feedSecret : FeedScalar
  encryptPayload : List (Note F × LockOpening F) → List UInt8

structure TransferSpec (F : Type) where
  claim : Bool
  ownerKey : SpendKey
  nk : F
  claimKey : SpendKey
  inputs : List (OwnedNote F)
  outputs : Fin 2 → Output F

inductive SecondInput (F : Type) where
  | owned (n : OwnedNote F)
  | padding (input : InputNote F)

structure PendingTransfer (F : Type) where
  plan : Plan F
  outputs : Fin 2 → Note F
  outputLocks : Fin 2 → LockOpening F
  claim : Bool
  ownerKey : SpendKey
  nk : F
  claimKey : SpendKey
  first : OwnedNote F
  second : SecondInput F
  payload : List UInt8

structure BuiltTransfer (F : Type) where
  pub : TransferPublic F
  witness : TransferWitness F
  payload : List UInt8

structure PendingDeposit (F : Type) where
  plan : Plan F
  note : Note F
  ownerKey : SpendKey
  nk : F
  funder : Address
  payload : List UInt8

variable {F : Type} [FeedField F] (P : Primitives F)

/-- `LeanTree::root`. -/
def treeRoot (leaves : List F) : F :=
  ((Merkle.level (merkleHash P.hash))^[maxCommitmentTreeDepth] leaves).headD 0

/-- `LeanTree::proof`; a tree holds as many leaves as its depth allows. -/
def treeProof (leaves : List F) (index : Nat) : Option (List (Bool × F)) :=
  if index < leaves.length ∧ leaves.length ≤ 2 ^ maxCommitmentTreeDepth then
    some (Merkle.promotedPath (merkleHash P.hash) maxCommitmentTreeDepth leaves index)
  else none

/-- `attestation_of`: the newest record that is current and not retired. -/
def AttestedView.attestationOf (view : AttestedView F) (owner : F) (epoch minGeneration : UInt64) :
    Option (AttestationRecord F) :=
  view.attestationRecords.reverse.find? fun r =>
    r.owner = owner ∧ (epoch + 1) * epochSeconds ≤ r.expiresAt ∧ r.generation ≥ minGeneration

/-! ## Shared building blocks -/

def LockOpening.freeze : LockOpening F := ⟨lockFreeze, .ofNat (2 ^ 64 - 1), 0⟩

def LockOpening.hold (epoch : UInt64) : LockOpening F := ⟨lockHold, epoch, 0⟩

def LockOpening.value (opening : LockOpening F) : F :=
  if opening.reason = 0 then 0 else lockValue P opening

def attestationWitness (view : AttestedView F) (env : PoolEnv F) (owner : F) :
    Option (AttestationWitness F) := do
  let r ← view.attestationOf owner env.epoch env.minAcceptedGeneration
  let path ← treeProof P view.attestations r.leafIndex
  pure ⟨ofAddress r.attester, r.generation, r.issuedAt, r.expiresAt, .ofList path⟩

def uncheckedAttestation : AttestationWitness F := ⟨ofAddress 0, 0, 0, 0, .ofList []⟩

def requireAttestation (view : AttestedView F) (env : PoolEnv F) (owner : F) :
    Except (BuildError F) (AttestationWitness F) :=
  okOr (attestationWitness P view env owner) (.notAttested owner)

def OwnedNote.input (n : OwnedNote F) (view : AttestedView F) : Except (BuildError F) (InputNote F) := do
  let path ← okOr ((treeProof P view.commitments n.leafIndex).filter fun _ =>
    view.commitments[n.leafIndex]? = some n.commitment) (.unknownNote n.commitment)
  pure ⟨n.note.units, n.note.salt, n.note.lock, n.opening, .ofList path⟩

def InputNote.padding (salt : F) : InputNote F := ⟨0, salt, 0, noLock, .ofList []⟩

def SecondInput.input (second : SecondInput F) (view : AttestedView F) : Except (BuildError F) (InputNote F) :=
  match second with
  | owned n => n.input P view
  | padding input => pure input

def PoolEnv.expiry (env : PoolEnv F) : UInt64 := (env.epoch + 2) * epochSeconds

def requireUnexpired (plan : Plan F) (env : PoolEnv F) : Except (BuildError F) Unit :=
  failIf ((env.epoch + 1) * epochSeconds > plan.expiry) (.planExpired plan.expiry env.epoch)

def FeedScalar.scalar (r : FeedScalar) : Nat := r.lo + r.hi * 2 ^ 128

/-- The two limbs as the circuits take them. -/
def FeedScalar.limbs (r : FeedScalar) : FeedSecret F := ⟨Scalar.ofNat r.lo, Scalar.ofNat r.hi⟩

/-- `feed::derive`. -/
def deriveFeed (r : FeedScalar) (registerKey : F × F) : (F × F) × F :=
  (P.curve.fixedBaseMul r.scalar, feedKey P (P.curve.mul r.scalar registerKey))

/-! ## Transfers -/

local instance neZero_transferOutputs : NeZero 2 := ⟨by decide⟩

def TransferSpec.notes (spec : TransferSpec F) (env : PoolEnv F) (draws : Draws F) (j : Fin 2) : Note F :=
  ⟨ofAddress env.token, (spec.outputs j).units, (spec.outputs j).owner, draws.salts j,
    (spec.outputs j).opening.value P⟩

/-- The transfer of the two inputs, the second of which has the given commitment. -/
def TransferSpec.pending (spec : TransferSpec F) (env : PoolEnv F) (draws : Draws F)
    (first : OwnedNote F) (second : SecondInput F) (commitment : F) : PendingTransfer F where
  plan :=
    { chainId := ofU64 env.chainId
      pool := ofAddress env.pool
      op := opTransfer
      path := if spec.claim then pathClaim else pathOwner
      nullifiers := (nullifier P first.commitment spec.nk, nullifier P commitment spec.nk)
      outputs := ((spec.notes P env draws 0).commitment P, (spec.notes P env draws 1).commitment P)
      publicUnits := 0
      recipient := 0
      expiry := env.expiry }
  outputs := spec.notes P env draws
  outputLocks j := (spec.outputs j).opening
  claim := spec.claim
  ownerKey := spec.ownerKey
  nk := spec.nk
  claimKey := spec.claimKey
  first := first
  second := second
  payload := draws.encryptPayload [(spec.notes P env draws 0, (spec.outputs 0).opening),
    (spec.notes P env draws 1, (spec.outputs 1).opening)]

def prepareTransfer (spec : TransferSpec F) (env : PoolEnv F) (draws : Draws F) :
    Except (BuildError F) (PendingTransfer F) :=
  match spec.inputs with
  | [first] =>
    let padding := InputNote.padding draws.paddingSalt
    let note := padding.note (ofAddress env.token) (ownerValue P spec.ownerKey spec.nk)
    pure (spec.pending P env draws first (.padding padding) (note.commitment P))
  | [first, second] => pure (spec.pending P env draws first (.owned second) second.commitment)
  | inputs => .error (.inputCount inputs.length)

def transferFeed (k : F) (outputs : Fin 2 → Note F) (locks : Fin 2 → LockOpening F)
    (i : Fin (2 * feedFields)) : F :=
  encrypt P k (outputs i.divNat) (locks i.divNat) i.divNat.val i.modNat

namespace PendingTransfer
variable (self : PendingTransfer F)

def ownerIn : F := ownerValue P self.ownerKey self.nk

/-- The attestation of the input's owner; the claim path checks none. -/
def inputAttestation (view : AttestedView F) (env : PoolEnv F) : Except (BuildError F) (AttestationWitness F) :=
  if self.claim then pure uncheckedAttestation
  else requireAttestation P view env (self.ownerIn P)

/-- The attestation of an output's owner, which the claim path asks for a new owner only. -/
def outputAttestation (view : AttestedView F) (env : PoolEnv F) (j : Fin 2) :
    Except (BuildError F) (AttestationWitness F) :=
  if self.claim = false ∨ (self.outputs j).owner ≠ self.ownerIn P then
    requireAttestation P view env (self.outputs j).owner
  else pure ((attestationWitness P view env (self.outputs j).owner).getD uncheckedAttestation)

def finish (payloadCommitment : List UInt8 → F) (signature : Bytes 64) (draws : Draws F)
    (view : AttestedView F) (env : PoolEnv F) : Except (BuildError F) (BuiltTransfer F) := do
  requireUnexpired self.plan env
  let input0 ← self.first.input P view
  let input1 ← self.second.input P view
  let inputAttestation ← self.inputAttestation P view env
  let attestation0 ← self.outputAttestation P view env 0
  let attestation1 ← self.outputAttestation P view env 1
  let (feedR, k) := deriveFeed P draws.feedSecret env.registerKey
  pure
    { pub :=
        { nullifier0 := self.plan.nullifiers.1
          nullifier1 := self.plan.nullifiers.2
          commitmentOut0 := self.plan.outputs.1
          commitmentOut1 := self.plan.outputs.2
          commitmentRoot := treeRoot P view.commitments
          attestationRoot := treeRoot P view.attestations
          minAcceptedGeneration := env.minAcceptedGeneration
          epoch := env.epoch
          chainId := ofU64 env.chainId
          pool := ofAddress env.pool
          claimKeyHash := env.claimKeyHash
          registerKey := env.registerKey
          feedR
          feedCt := transferFeed P k self.outputs self.outputLocks
          payloadCommitment := payloadCommitment self.payload }
      witness :=
        { claim := self.claim
          token := ofAddress env.token
          ownerKey := self.ownerKey
          nk := self.nk
          claimKey := self.claimKey
          signature
          expiry := self.plan.expiry
          inputs := ![input0, input1]
          outputs := self.outputs
          outputLocks := self.outputLocks
          inputAttestation
          outputAttestations := ![attestation0, attestation1]
          feedSecret := draws.feedSecret.limbs }
      payload := self.payload }

end PendingTransfer

def buildTransfer (payloadCommitment : List UInt8 → F) (spec : TransferSpec F) (signer : PlanSigner F)
    (draws : Draws F) (view : AttestedView F) (env : PoolEnv F) :
    Except (BuildError F) (BuiltTransfer F) := do
  let pending ← prepareTransfer P spec env draws
  let signature ← mapErr .crypto (signer.signPlan pending.plan [pending.outputs 0, pending.outputs 1])
  pending.finish P payloadCommitment signature draws view env

/-! ## The wallet -/

namespace Wallet
variable (wallet : Wallet F)

/-- Unspent notes the owner path can move at `epoch`. -/
def spendable (epoch : UInt64) : List (OwnedNote F) :=
  wallet.notes.filter fun n =>
    !n.spent ∧ n.note.units > 0 ∧ (n.note.lock = 0 ∨ epoch ≥ n.opening.releaseAfter)

def prepareDeposit (env : PoolEnv F) (units : UInt64) (funder : Address) (draws : Draws F) : PendingDeposit F :=
  let note : Note F := ⟨ofAddress env.token, units, wallet.owner P, draws.salts 0, 0⟩
  { plan :=
      { chainId := ofU64 env.chainId
        pool := ofAddress env.pool
        op := opDeposit
        path := pathOwner
        nullifiers := (0, 0)
        outputs := (note.commitment P, 0)
        publicUnits := ofU64 units
        recipient := ofAddress funder
        expiry := env.expiry }
    note
    ownerKey := wallet.pk
    nk := wallet.nk
    funder
    payload := draws.encryptPayload [(note, noLock)] }

def transfer (payloadCommitment : List UInt8 → F) (signer : PlanSigner F) (draws : Draws F)
    (view : AttestedView F) (env : PoolEnv F) (inputs : List (OwnedNote F)) (outputs : Fin 2 → Output F) :
    Except (BuildError F) (BuiltTransfer F) :=
  buildTransfer P payloadCommitment ⟨false, wallet.pk, wallet.nk, wallet.pk, inputs, outputs⟩ signer
    draws view env

def totalOf (notes : List (OwnedNote F)) : UInt64 := (notes.map fun n => n.note.units).sum

/-- The notes that `pay` spends: the smallest that covers the units, else the two largest. -/
def payInputs (env : PoolEnv F) (units : UInt64) : Except (BuildError F) (List (OwnedNote F)) :=
  let notes := (wallet.spendable env.epoch).insertionSort fun a b => a.note.units ≤ b.note.units
  match notes.find? fun n => n.note.units ≥ units with
  | some n => pure [n]
  | none => do
    let top := notes.reverse.take 2
    failIf (totalOf top < units) (.insufficientUnits (totalOf top) units)
    pure top

def pay (payloadCommitment : List UInt8 → F) (signer : PlanSigner F) (draws : Draws F)
    (view : AttestedView F) (env : PoolEnv F) (recipient : F) (units : UInt64) :
    Except (BuildError F) (BuiltTransfer F) := do
  let inputs ← wallet.payInputs env units
  wallet.transfer P payloadCommitment signer draws view env inputs
    ![⟨recipient, units, noLock⟩, ⟨wallet.owner P, totalOf inputs - units, noLock⟩]

end Wallet

/-- `PendingDeposit::finish`, with the recipient payload beside the inputs of the circuit. -/
def PendingDeposit.finish (self : PendingDeposit F) (payloadCommitment : List UInt8 → F)
    (signature : Bytes 64) (draws : Draws F) (view : AttestedView F) (env : PoolEnv F) :
    Except (BuildError F) (DepositPublic F × DepositWitness F × List UInt8) := do
  requireUnexpired self.plan env
  let attestation ← requireAttestation P view env (ownerValue P self.ownerKey self.nk)
  let (feedR, k) := deriveFeed P draws.feedSecret env.registerKey
  let pub : DepositPublic F :=
    { commitment := self.note.commitment P
      token := ofAddress env.token
      units := self.note.units
      fundingAddress := ofAddress self.funder
      attestationRoot := treeRoot P view.attestations
      minAcceptedGeneration := env.minAcceptedGeneration
      epoch := env.epoch
      chainId := ofU64 env.chainId
      pool := ofAddress env.pool
      registerKey := env.registerKey
      feedR
      feedCt := encrypt P k self.note noLock 0
      payloadCommitment := payloadCommitment self.payload }
  pure (pub, ⟨self.ownerKey, self.nk, signature, self.plan.expiry, self.note.salt, attestation,
    draws.feedSecret.limbs⟩, self.payload)

namespace Wallet
variable (wallet : Wallet F)

def deposit (payloadCommitment : List UInt8 → F) (signer : PlanSigner F) (draws : Draws F)
    (view : AttestedView F) (env : PoolEnv F) (units : UInt64) (funder : Address) :
    Except (BuildError F) (DepositPublic F × DepositWitness F × List UInt8) := do
  let pending := wallet.prepareDeposit P env units funder draws
  let signature ← mapErr .crypto (signer.signPlan pending.plan [pending.note])
  pending.finish P payloadCommitment signature draws view env

end Wallet

end Pocs.Mmf
