import Pocs.Lib.LeanImt
import Pocs.Lib.RootRing
import Pocs.Swap.Circuit

/-! # The commitment tree and the nullifier set

`PrivateUTXO.sol`. A call is a function on the storage; a revert undoes all of it. The verifier sees
the nine words of a transfer, the contract keeps and compares the same words without reducing them. -/

namespace Pocs.Swap

open Compliance (BnField Word Address merkleHash)

def maxHistoricalRoots : Nat := 100

structure PrivateUtxo (T : Type) where
  tree : T
  /-- `historicalRoots`, `historicalRootIndex` and `validRoots`. -/
  roots : RootRing
  nullifiers : Word → Bool
  owner : Address

/-- The hash, the curve, the tree and the verifier that the contract uses. -/
structure Deployment (F P T : Type) where
  hash : List F → F
  curve : EmbeddedCurve F P
  imt : LeanImt F T
  /-- `verifier.verify(proof, publicInputs)`. -/
  verify : List UInt8 → List Word → Bool

structure TransferArgs where
  proof : List UInt8
  nullifier : Word
  root : Word
  newCommitment : Word
  timeout : Word
  pkStealth : Word
  hSwap : Word
  hR : Word
  hMeta : Word
  hEnc : Word

def TransferArgs.publicInputs (args : TransferArgs) : List Word :=
  [args.nullifier, args.root, args.newCommitment, args.timeout, args.pkStealth, args.hSwap, args.hR,
    args.hMeta, args.hEnc]

inductive Event where
  | swapNoteLocked (commitment timeout pkStealth hSwap hR hMeta hEnc : Word)
  | noteCreated (commitment : Word)
  | noteSpent (nullifier : Word)
  deriving DecidableEq, Repr

inductive UtxoError where
  | invalidProof
  | nullifierAlreadySpent
  | invalidRoot
  | claimExpired
  | refundNotReady
  | onlyOwner
  | leafGreaterThanSnarkScalarField
  | imt (e : LeanImtError)
  deriving DecidableEq, Repr

namespace PrivateUtxo
variable {F P T : Type} [BnField F] (D : Deployment F P T) (utxo : PrivateUtxo T)

def leaves : List F := D.imt.leaves utxo.tree

def commitmentRoot : Word := Scalar.toNat (D.imt.root utxo.tree)

def isKnownRoot (root : Word) : Bool :=
  if root = 0 then false
  else if root = utxo.commitmentRoot D then true
  else utxo.roots.valid root

def insertCommitment (commitment : Word) : Except UtxoError (PrivateUtxo T) := do
  let currentRoot := utxo.commitmentRoot D
  let roots := if currentRoot ≠ 0 then utxo.roots.record maxHistoricalRoots currentRoot else utxo.roots
  failIf (BnField.canonical F commitment = false) .leafGreaterThanSnarkScalarField
  let tree ← mapErr UtxoError.imt (D.imt.insert (Scalar.ofNat commitment) utxo.tree)
  pure { utxo with tree, roots }

def new (sender : Address) : PrivateUtxo T where
  tree := D.imt.empty
  roots := .empty
  nullifiers _ := false
  owner := sender

def fund (sender : Address) (commitment : Word) : Except UtxoError (PrivateUtxo T × List Event) := do
  failIf (sender ≠ utxo.owner) .onlyOwner
  let utxo ← utxo.insertCommitment D commitment
  pure (utxo, [.noteCreated commitment])

/-- The mode discrimination of `transfer` and its time checks. -/
def checkTimeout (timestamp : Nat) (args : TransferArgs) : Except UtxoError Unit :=
  onlyIf (0 < args.timeout) <| if args.pkStealth ≠ 0 then
      onlyIf (args.hSwap = 0) (failIf (args.timeout < timestamp) .claimExpired)
    else failIf (timestamp ≤ args.timeout) .refundNotReady

def transferEvents (args : TransferArgs) : List Event :=
  (if 0 < args.timeout ∧ args.pkStealth ≠ 0 ∧ args.hSwap ≠ 0 then
    [.swapNoteLocked args.newCommitment args.timeout args.pkStealth args.hSwap args.hR args.hMeta args.hEnc]
  else []) ++ [.noteCreated args.newCommitment, .noteSpent args.nullifier]

def transfer (timestamp : Nat) (args : TransferArgs) : Except UtxoError (PrivateUtxo T × List Event) := do
  failIf (utxo.isKnownRoot D args.root = false) .invalidRoot
  failIf (utxo.nullifiers args.nullifier = true) .nullifierAlreadySpent
  failIf (D.verify args.proof args.publicInputs = false) .invalidProof
  checkTimeout timestamp args
  let utxo := { utxo with nullifiers := Function.update utxo.nullifiers args.nullifier true }
  let utxo ← utxo.insertCommitment D args.newCommitment
  pure (utxo, transferEvents args)

/-! ## What a successful call does -/

/-- The insertion of a leaf, with the root before it remembered. -/
structure Inserted (commitment : Word) (utxo' : PrivateUtxo T) : Prop where
  canonical : BnField.canonical F commitment = true
  tree : D.imt.insert (Scalar.ofNat commitment) utxo.tree = .ok utxo'.tree
  roots : ∀ r, utxo'.roots.valid r = true → utxo.roots.valid r = true ∨ r = utxo.commitmentRoot D ∧ r ≠ 0
  remembers : utxo.commitmentRoot D ≠ 0 → utxo'.roots.valid (utxo.commitmentRoot D) = true
  nullifiers : utxo'.nullifiers = utxo.nullifiers
  owner : utxo'.owner = utxo.owner

structure Transferred (timestamp : Nat) (args : TransferArgs) (utxo' : PrivateUtxo T)
    (events : List Event) : Prop where
  root : utxo.isKnownRoot D args.root = true
  fresh : utxo.nullifiers args.nullifier = false
  proof : D.verify args.proof args.publicInputs = true
  time : checkTimeout timestamp args = .ok ()
  inserted : Inserted D { utxo with nullifiers := Function.update utxo.nullifiers args.nullifier true }
    args.newCommitment utxo'
  events : events = transferEvents args

variable {D utxo} {utxo' : PrivateUtxo T}

theorem insertCommitment_ok {commitment : Word}
    (h : utxo.insertCommitment D commitment = .ok utxo') : Inserted D utxo commitment utxo' := by
  simp only [insertCommitment, bind_eq_ok, failIf_eq_ok, mapErr_eq_ok, pure_eq_ok, exists_const,
    Bool.not_eq_false] at h
  obtain ⟨hcanonical, tree, htree, rfl⟩ := h
  refine ⟨hcanonical, htree, fun r hr => ?_, fun hne => ?_, rfl, rfl⟩
  · replace hr : (if utxo.commitmentRoot D ≠ 0 then
      utxo.roots.record maxHistoricalRoots (utxo.commitmentRoot D) else utxo.roots).valid r = true := hr
    split at hr
    · next hne =>
      rcases RootRing.valid_of_record hr with rfl | hold
      · exact .inr ⟨rfl, hne⟩
      · exact .inl hold
    · exact .inl hr
  · show (if utxo.commitmentRoot D ≠ 0 then
      utxo.roots.record maxHistoricalRoots (utxo.commitmentRoot D) else utxo.roots).valid _ = true
    rw [if_pos hne]
    exact RootRing.valid_record_self

section
variable (hins : D.imt.Inserts) {commitment : Word} (hcanonical : BnField.canonical F commitment = true)
  (hzero : (Scalar.ofNat commitment : F) ≠ 0) (hnew : Scalar.ofNat commitment ∉ utxo.leaves D)
include hins hcanonical hzero hnew

theorem exists_insertCommitment : ∃ utxo', utxo.insertCommitment D commitment = .ok utxo' := by
  obtain ⟨tree, htree⟩ := hins hzero hnew
  simp only [insertCommitment, bind_eq_ok, failIf_eq_ok, mapErr_eq_ok, pure_eq_ok, exists_const,
    Bool.not_eq_false]
  exact ⟨_, hcanonical, tree, htree, rfl⟩

theorem exists_fund : ∃ utxo' events, utxo.fund D utxo.owner commitment = .ok (utxo', events) := by
  obtain ⟨utxo', hinsert⟩ := exists_insertCommitment hins hcanonical hzero hnew
  exact ⟨utxo', _, by rw [fund, failIf_neg (not_not.mpr rfl), ok_bind, hinsert]; rfl⟩

end

/-- A transfer that passes the checks succeeds, if its output can be inserted. -/
theorem exists_transfer (hins : D.imt.Inserts) {timestamp : Nat} {args : TransferArgs}
    (hroot : utxo.isKnownRoot D args.root = true) (hfresh : utxo.nullifiers args.nullifier = false)
    (hproof : D.verify args.proof args.publicInputs = true) (htime : checkTimeout timestamp args = .ok ())
    (hcanonical : BnField.canonical F args.newCommitment = true)
    (hzero : (Scalar.ofNat args.newCommitment : F) ≠ 0)
    (hnew : Scalar.ofNat args.newCommitment ∉ utxo.leaves D) :
    ∃ utxo' events, utxo.transfer D timestamp args = .ok (utxo', events) := by
  obtain ⟨utxo', hinsert⟩ := @exists_insertCommitment _ _ _ _ D
    { utxo with nullifiers := Function.update utxo.nullifiers args.nullifier true } hins _ hcanonical
    hzero hnew
  refine ⟨utxo', transferEvents args, ?_⟩
  simp only [transfer, bind_eq_ok, failIf_eq_ok, pure_eq_ok, exists_const, Prod.mk.injEq,
    Bool.not_eq_false, Bool.not_eq_true]
  exact ⟨hroot, hfresh, hproof, (), htime, utxo', hinsert, rfl, trivial⟩

theorem fund_ok {sender : Address} {commitment : Word} {events : List Event}
    (h : utxo.fund D sender commitment = .ok (utxo', events)) :
    sender = utxo.owner ∧ Inserted D utxo commitment utxo' := by
  simp only [fund, bind_eq_ok, failIf_eq_ok, pure_eq_ok, exists_const, Prod.mk.injEq, ne_eq, not_not] at h
  obtain ⟨howner, _, hinsert, rfl, -⟩ := h
  exact ⟨howner, insertCommitment_ok hinsert⟩

theorem transfer_ok {timestamp : Nat} {args : TransferArgs} {events : List Event}
    (h : utxo.transfer D timestamp args = .ok (utxo', events)) :
    Transferred D utxo timestamp args utxo' events := by
  simp only [transfer, bind_eq_ok, failIf_eq_ok, pure_eq_ok, exists_const, Prod.mk.injEq,
    Bool.not_eq_false, Bool.not_eq_true] at h
  obtain ⟨hroot, hfresh, hproof, _, htime, _, hinsert, rfl, rfl⟩ := h
  exact ⟨hroot, hfresh, hproof, htime, insertCommitment_ok hinsert, rfl⟩

section
variable {timestamp : Nat} {args : TransferArgs} {events : List Event}
  (h : Transferred D utxo timestamp args utxo' events)
include h

theorem Transferred.nullifiers :
    utxo'.nullifiers = Function.update utxo.nullifiers args.nullifier true := h.inserted.nullifiers

theorem Transferred.remembers (hroot : utxo.commitmentRoot D ≠ 0) :
    utxo'.roots.valid (utxo.commitmentRoot D) = true := h.inserted.remembers hroot

theorem Transferred.leaves (hL : D.imt.Lawful (merkleHash D.hash)) :
    (Scalar.ofNat args.newCommitment : F) ∉ utxo.leaves D ∧
      utxo'.leaves D = utxo.leaves D ++ [Scalar.ofNat args.newCommitment] :=
  (hL.insert h.inserted.tree).2

end

/-- A known root was current at some time, and is not zero. -/
theorem isKnownRoot_iff {root : Word} : utxo.isKnownRoot D root = true ↔
    root ≠ 0 ∧ (root = utxo.commitmentRoot D ∨ utxo.roots.valid root = true) := by
  unfold isKnownRoot
  split
  · next h => simp [h]
  · next h =>
    split
    · next hcurrent => exact iff_of_true rfl ⟨h, .inl hcurrent⟩
    · next hcurrent => simp [h, hcurrent]

end PrivateUtxo

end Pocs.Swap
