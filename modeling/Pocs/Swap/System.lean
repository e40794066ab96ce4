import Pocs.Swap.Contract

/-! # Runs of the commitment contract

Funding and transfers by anyone in any order, reverted calls and the clock. `UtxoInv` is what every run
keeps of the tree, the roots and the nullifiers, whatever words the callers send. -/

namespace Pocs.Swap

open Compliance (BnField Word Address merkleHash)
open PrivateUtxo

variable {F P T : Type} [BnField F] [AddCommGroup P]

def TransferArgs.toPublic (args : TransferArgs) : TransferPublic F where
  nullifier := Scalar.ofNat args.nullifier
  root := Scalar.ofNat args.root
  newCommitment := Scalar.ofNat args.newCommitment
  timeout := Scalar.ofNat args.timeout
  pkStealth := Scalar.ofNat args.pkStealth
  hSwap := Scalar.ofNat args.hSwap
  hR := Scalar.ofNat args.hR
  hMeta := Scalar.ofNat args.hMeta
  hEnc := Scalar.ofNat args.hEnc

/-- The residues of the inputs satisfy the circuit with the witness. -/
def Proves (D : Deployment F P T) (args : TransferArgs) (wit : TransferWitness F) : Prop :=
  main D.hash D.curve args.toPublic wit = .ok ()

/-- Some proof for the inputs is accepted exactly where the circuit has a witness for their residues. -/
def Deployment.Verifies (D : Deployment F P T) : Prop :=
  ∀ args : TransferArgs, (∃ proof, D.verify proof args.publicInputs = true) ↔ ∃ wit, Proves D args wit

open Classical in
/-- The contract with a verifier that has just this property. -/
noncomputable def Deployment.ofCircuit (hash : List F → F) (curve : EmbeddedCurve F P)
    (imt : LeanImt F T) : Deployment F P T where
  hash
  curve
  imt
  verify _ inputs := ∃ (args : TransferArgs) (wit : TransferWitness F), args.publicInputs = inputs ∧
    main hash curve args.toPublic wit = .ok ()

theorem toPublic_congr {args args' : TransferArgs} (h : args.publicInputs = args'.publicInputs) :
    (args.toPublic : TransferPublic F) = args'.toPublic := by
  simp only [TransferArgs.publicInputs, List.cons.injEq, and_true] at h
  obtain ⟨hnullifier, hroot, hnew, htimeout, hstealth, hswap, hr, hmeta, henc⟩ := h
  simp only [TransferArgs.toPublic, hnullifier, hroot, hnew, htimeout, hstealth, hswap, hr, hmeta, henc]

theorem Deployment.verify_ofCircuit {hash : List F → F} {curve : EmbeddedCurve F P} {imt : LeanImt F T}
    {args : TransferArgs} {proof : List UInt8} :
    (Deployment.ofCircuit hash curve imt).verify proof args.publicInputs = true ↔
      ∃ wit, Proves (Deployment.ofCircuit hash curve imt) args wit := by
  simp only [ofCircuit, decide_eq_true_iff]
  constructor
  · rintro ⟨args', wit, hinputs, hmain⟩
    rw [toPublic_congr hinputs] at hmain
    exact ⟨wit, hmain⟩
  · rintro ⟨wit, hmain⟩
    exact ⟨args, wit, rfl, hmain⟩

theorem Deployment.ofCircuit_verifies (hash : List F → F) (curve : EmbeddedCurve F P)
    (imt : LeanImt F T) : (Deployment.ofCircuit hash curve imt).Verifies :=
  fun args => ⟨fun ⟨_, h⟩ => verify_ofCircuit.mp h, fun h => ⟨args.proof, verify_ofCircuit.mpr h⟩⟩

/-- The contract and the time of the block. -/
structure World (T : Type) where
  /-- `block.timestamp`. -/
  timestamp : Nat
  utxo : PrivateUtxo T

/-- A call that succeeds or reverts, or time that passes. -/
inductive Step where
  | fund (sender : Address) (commitment : Word) (events : List Event)
  | transfer (timestamp : Nat) (args : TransferArgs) (events : List Event)
  | reverted
  | tick (timestamp : Nat)

/-- Calls, failed calls and the passage of time. -/
inductive Transition (D : Deployment F P T) (w : World T) : Step → World T → Prop where
  | fund {sender commitment utxo events} (ok : w.utxo.fund D sender commitment = .ok (utxo, events)) :
    Transition D w (.fund sender commitment events) { w with utxo }
  | transfer {args utxo events} (ok : w.utxo.transfer D w.timestamp args = .ok (utxo, events)) :
    Transition D w (.transfer w.timestamp args events) { w with utxo }
  | fundReverted {sender commitment e} (err : w.utxo.fund D sender commitment = .error e) :
    Transition D w .reverted w
  | transferReverted {args e} (err : w.utxo.transfer D w.timestamp args = .error e) : Transition D w .reverted w
  | tick {timestamp} (le : w.timestamp ≤ timestamp) : Transition D w (.tick timestamp) { w with timestamp }

/-- The contract as it was deployed. -/
inductive Deployed (D : Deployment F P T) : World T → Prop where
  | mk {timestamp sender} : Deployed D ⟨timestamp, PrivateUtxo.new D sender⟩

def Step.nullifiers : Step → List Word
  | .transfer _ args _ => [args.nullifier]
  | _ => []

/-- The nullifiers marked in a run, newest first. -/
def marked (tr : List Step) : List Word := tr.flatMap Step.nullifiers

variable {D : Deployment F P T} {w w' w₀ : World T} {tr : List Step} {st : Step}

/-! ## Invariants -/

structure Accepted (D : Deployment F P T) (timestamp : Nat) (args : TransferArgs)
    (events : List Event) : Prop where
  proof : D.verify args.proof args.publicInputs = true
  time : checkTimeout timestamp args = .ok ()
  canonical : BnField.canonical F args.newCommitment = true
  events : events = transferEvents args

structure UtxoInv (D : Deployment F P T) (tr : List Step) (w : World T) : Prop where
  marked : ∀ n, w.utxo.nullifiers n = true ↔ n ∈ Swap.marked tr
  marked_nodup : (Swap.marked tr).Nodup
  leaves_nodup : (w.utxo.leaves D).Nodup
  /-- Every known root is the root of a tree over some of the leaves. -/
  spans : ∀ r, w.utxo.isKnownRoot D r = true →
    Merkle.Spans (merkleHash D.hash) (w.utxo.leaves D) (Scalar.ofNat r : F)
  accepted : ∀ timestamp args events, .transfer timestamp args events ∈ tr → Accepted D timestamp args events

omit [AddCommGroup P] in
theorem PrivateUtxo.Inserted.leaves {utxo utxo' : PrivateUtxo T} {commitment : Word}
    (h : Inserted D utxo commitment utxo') (hL : D.imt.Lawful (merkleHash D.hash)) :
    (Scalar.ofNat commitment : F) ≠ 0 ∧ Scalar.ofNat commitment ∉ utxo.leaves D ∧
      utxo'.leaves D = utxo.leaves D ++ [Scalar.ofNat commitment] :=
  hL.insert h.tree

omit [AddCommGroup P] in
theorem PrivateUtxo.spans_commitmentRoot (hL : D.imt.Lawful (merkleHash D.hash)) {utxo : PrivateUtxo T}
    (hroot : utxo.commitmentRoot D ≠ 0) :
    Merkle.Spans (merkleHash D.hash) (utxo.leaves D) (Scalar.ofNat (utxo.commitmentRoot D) : F) := by
  rw [commitmentRoot, BnField.ofNat_toNat]
  apply hL.root
  intro hnil
  apply hroot
  rw [commitmentRoot, hL.root_nil hnil, Scalar.toNat_zero]

omit [AddCommGroup P] in
/-- An insertion keeps the known roots and adds the one before it and the new one. -/
theorem PrivateUtxo.Inserted.spans {utxo utxo' : PrivateUtxo T} {commitment : Word}
    (h : Inserted D utxo commitment utxo') (hL : D.imt.Lawful (merkleHash D.hash))
    (hspans : ∀ r, utxo.isKnownRoot D r = true →
      Merkle.Spans (merkleHash D.hash) (utxo.leaves D) (Scalar.ofNat r : F)) :
    ∀ r, utxo'.isKnownRoot D r = true →
      Merkle.Spans (merkleHash D.hash) (utxo'.leaves D) (Scalar.ofNat r : F) := by
  have hgrow : utxo.leaves D ⊆ utxo'.leaves D := by
    rw [(h.leaves hL).2.2]
    exact List.subset_append_left _ _
  intro r hr
  obtain ⟨hne, rfl | hvalid⟩ := isKnownRoot_iff.mp hr
  · exact spans_commitmentRoot hL hne
  · rcases h.roots r hvalid with hold | ⟨rfl, hzero⟩
    · exact (hspans r (isKnownRoot_iff.mpr ⟨hne, .inr hold⟩)).mono hgrow
    · exact (spans_commitmentRoot hL hzero).mono hgrow

omit [AddCommGroup P] in
theorem PrivateUtxo.Inserted.nodup {utxo utxo' : PrivateUtxo T} {commitment : Word}
    (h : Inserted D utxo commitment utxo') (hL : D.imt.Lawful (merkleHash D.hash))
    (hnodup : (utxo.leaves D).Nodup) : (utxo'.leaves D).Nodup := by
  obtain ⟨-, hnew, hleaves⟩ := h.leaves hL
  rw [hleaves]
  exact List.nodup_append.mpr ⟨hnodup, List.nodup_singleton _, fun a ha b hb hab =>
    hnew (List.mem_singleton.mp hb ▸ hab ▸ ha)⟩

omit [AddCommGroup P] in
theorem UtxoInv.initial (hL : D.imt.Lawful (merkleHash D.hash)) (h₀ : Deployed D w₀) : UtxoInv D [] w₀ := by
  cases h₀ with
  | @mk timestamp sender =>
    have hleaves : (PrivateUtxo.new D sender).leaves D = [] := hL.leaves_empty
    have hroot : (PrivateUtxo.new D sender).commitmentRoot D = 0 := by
      rw [commitmentRoot, hL.root_nil hleaves, Scalar.toNat_zero]
    refine ⟨fun n => ?_, List.nodup_nil, ?_, fun r hr => ?_, fun _ _ _ hmem => ?_⟩
    · exact iff_of_false Bool.noConfusion List.not_mem_nil
    · rw [hleaves]
      exact List.nodup_nil
    · obtain ⟨hne, rfl | hvalid⟩ := PrivateUtxo.isKnownRoot_iff.mp hr
      · exact absurd hroot hne
      · cases hvalid
    · cases hmem

omit [AddCommGroup P] in
theorem UtxoInv.step (inv : UtxoInv D tr w) (hL : D.imt.Lawful (merkleHash D.hash))
    (h : Transition D w st w') : UtxoInv D (st :: tr) w' := by
  cases h with
  | @fund sender commitment utxo events ok =>
    obtain ⟨-, hins⟩ := fund_ok ok
    refine ⟨fun n => ?_, inv.marked_nodup, hins.nodup hL inv.leaves_nodup, hins.spans hL inv.spans,
      fun t args ev hmem => ?_⟩
    · show utxo.nullifiers n = true ↔ n ∈ Swap.marked tr
      rw [hins.nullifiers, inv.marked n]
    · rcases List.mem_cons.mp hmem with heq | hmem
      · cases heq
      · exact inv.accepted t args ev hmem
  | @transfer args utxo events ok =>
    have htransfer := transfer_ok ok
    have hins := htransfer.inserted
    have hnew : args.nullifier ∉ Swap.marked tr := fun hmem => by
      have hspent := (inv.marked _).mpr hmem
      rw [htransfer.fresh] at hspent
      cases hspent
    refine ⟨fun n => ?_, List.nodup_cons.mpr ⟨hnew, inv.marked_nodup⟩, ?_, ?_, fun t args' ev hmem => ?_⟩
    · show utxo.nullifiers n = true ↔ n ∈ args.nullifier :: Swap.marked tr
      rw [htransfer.nullifiers, List.mem_cons, ← inv.marked n]
      rcases eq_or_ne n args.nullifier with rfl | hne
      · simp
      · simp [hne]
    · exact hins.nodup hL inv.leaves_nodup
    · exact hins.spans hL inv.spans
    · rcases List.mem_cons.mp hmem with heq | hmem
      · cases heq
        exact ⟨htransfer.proof, htransfer.time, hins.canonical, htransfer.events⟩
      · exact inv.accepted t args' ev hmem
  | fundReverted | transferReverted | tick =>
    exact ⟨inv.marked, inv.marked_nodup, inv.leaves_nodup, inv.spans, fun t args ev hmem =>
      inv.accepted t args ev ((List.mem_cons.mp hmem).resolve_left Step.noConfusion)⟩

omit [AddCommGroup P] in
theorem Run.utxoInv (hL : D.imt.Lawful (merkleHash D.hash)) (h₀ : Deployed D w₀)
    (hrun : Run (Transition D) w₀ tr w) : UtxoInv D tr w :=
  hrun.invariant (UtxoInv.initial hL h₀) fun _ _ _ _ _ hstep inv => inv.step hL hstep

end Pocs.Swap
