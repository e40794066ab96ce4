import Pocs.Lib.Method
import Pocs.Identity.Contracts

/-! # Runs of the identity contracts

Calls of anyone in any order, and blocks. The verifiers accept what the circuits can prove of the residues of
the words they are given. -/

namespace Pocs.Identity

open Compliance (BnField Word Address merkleHash)
open Swap (IdealHash Doubled)

section
variable {F P T : Type} [BnField F] [AddCommGroup P]

/-! ## Verifiers -/

/-- The field elements of the words, as `FrLib.fromBytes32` reads them. -/
def PresentArgs.toPublic (args : PresentArgs) : MembershipPublic F where
  root := Scalar.ofNat args.root
  nullifier := Scalar.ofNat args.nullifier
  externalNullifier := Scalar.ofNat args.externalNullifier
  version := Scalar.ofNat args.version
  predicateType := Scalar.ofNat args.predicateType
  predicateAttrIndex := Scalar.ofNat args.predicateAttrIndex
  predicateValue := Scalar.ofNat args.predicateValue
  predicateResult := Scalar.ofNat args.predicateResult

def EnrollArgs.toPublic (args : EnrollArgs) (key : ECPoint) : EnrollmentPublic F where
  leaf := Scalar.ofNat args.leaf
  enrollmentNullifier := Scalar.ofNat args.enrollmentNullifier
  mpcPublicKeyX := Scalar.ofNat key.x
  mpcPublicKeyY := Scalar.ofNat key.y
  gIdX := Scalar.ofNat args.gIdX
  gIdY := Scalar.ofNat args.gIdY

/-- The membership circuit is satisfied for the call with the witness. -/
def Presents (D : Deployment F P T) (args : PresentArgs) (wit : MembershipWitness F) : Prop :=
  membershipMain D.hash args.toPublic wit = .ok ()

def Enrolls (D : Deployment F P T) (args : EnrollArgs) (key : ECPoint) (wit : EnrollmentWitness F) : Prop :=
  enrollmentMain D.hash D.curve (args.toPublic key) wit = .ok ()

/-- Some proof for the words is accepted exactly where the circuit has a witness for their residues. -/
structure Deployment.Verifies (D : Deployment F P T) : Prop where
  membership : ∀ args : PresentArgs,
    (∃ proof, D.verifyMembership proof args.publicInputs = true) ↔ ∃ wit, Presents D args wit
  enrollment : ∀ (args : EnrollArgs) (key : ECPoint),
    (∃ proof, D.verifyEnrollment proof (args.publicInputs key) = true) ↔ ∃ wit, Enrolls D args key wit

section
variable (hash : List F → F) (curve : Bn254 F P) (imt : LeafTree F T) (enrollmentAddress : Address)

open Classical in
/-- The contracts with verifiers that have just this property. -/
noncomputable def Deployment.ofCircuits : Deployment F P T where
  hash
  curve
  imt
  enrollmentAddress
  verifyEnrollment _ inputs := ∃ (args : EnrollArgs) (key : ECPoint) (wit : EnrollmentWitness F),
    args.publicInputs key = inputs ∧ enrollmentMain hash curve (args.toPublic key) wit = .ok ()
  verifyMembership _ inputs := ∃ (args : PresentArgs) (wit : MembershipWitness F),
    args.publicInputs = inputs ∧ membershipMain hash args.toPublic wit = .ok ()

end

section
variable {hash : List F → F} {curve : Bn254 F P} {imt : LeafTree F T} {enrollmentAddress : Address}

theorem Deployment.verifyMembership_ofCircuits {args : PresentArgs} {proof : List UInt8} :
    (Deployment.ofCircuits hash curve imt enrollmentAddress).verifyMembership proof args.publicInputs =
      true ↔ ∃ wit, Presents (Deployment.ofCircuits hash curve imt enrollmentAddress) args wit := by
  simp only [ofCircuits, decide_eq_true_iff]
  constructor
  · rintro ⟨args', wit, hinputs, hmain⟩
    simp only [PresentArgs.publicInputs, List.cons.injEq, and_true] at hinputs
    obtain ⟨hroot, hnullifier, hexternal, hversion, htype, hindex, hvalue, hresult⟩ := hinputs
    simp only [PresentArgs.toPublic, hroot, hnullifier, hexternal, hversion, htype, hindex, hvalue,
      hresult] at hmain
    exact ⟨wit, hmain⟩
  · rintro ⟨wit, hmain⟩
    exact ⟨args, wit, rfl, hmain⟩

theorem Deployment.verifyEnrollment_ofCircuits {args : EnrollArgs} {key : ECPoint} {proof : List UInt8} :
    (Deployment.ofCircuits hash curve imt enrollmentAddress).verifyEnrollment proof
      (args.publicInputs key) = true ↔
      ∃ wit, Enrolls (Deployment.ofCircuits hash curve imt enrollmentAddress) args key wit := by
  simp only [ofCircuits, decide_eq_true_iff]
  constructor
  · rintro ⟨args', key', wit, hinputs, hmain⟩
    simp only [EnrollArgs.publicInputs, List.cons.injEq, and_true] at hinputs
    obtain ⟨hleaf, hnullifier, hx, hy, hgIdX, hgIdY⟩ := hinputs
    simp only [EnrollArgs.toPublic, hleaf, hnullifier, hx, hy, hgIdX, hgIdY] at hmain
    exact ⟨wit, hmain⟩
  · rintro ⟨wit, hmain⟩
    exact ⟨args, key, wit, rfl, hmain⟩

theorem Deployment.ofCircuits_verifies : (Deployment.ofCircuits hash curve imt enrollmentAddress).Verifies where
  membership args :=
    ⟨fun ⟨_, h⟩ => verifyMembership_ofCircuits.mp h, fun h => ⟨args.proof, verifyMembership_ofCircuits.mpr h⟩⟩
  enrollment args _ :=
    ⟨fun ⟨_, h⟩ => verifyEnrollment_ofCircuits.mp h, fun h => ⟨args.proof, verifyEnrollment_ofCircuits.mpr h⟩⟩

end

/-- A transaction, or the passage of time. -/
inductive Step where
  | call (sender : Address) (call : Call)
  | reverted
  | block (number : Nat)

/-- `Enrollment` calls the tree in its own functions only. -/
inductive Transition (D : Deployment F P T) (w : World T) : Step → World T → Prop where
  | call {sender call w'} (sender_ne : sender ≠ D.enrollmentAddress) (ok : call.run D sender w = .ok w') :
    Transition D w (.call sender call) w'
  | reverted {sender call e} (err : Call.run D sender w call = .error e) : Transition D w .reverted w
  | block {number} (le : w.blockNumber ≤ number) :
    Transition D w (.block number) { w with blockNumber := number }

/-- The contracts as they were deployed. -/
inductive Deployed (D : Deployment F P T) (key : ECPoint) : World T → Prop where
  | mk {blockNumber multisig guardian stakeAmount governance governance'} : Deployed D key
      ⟨blockNumber, Enrollment.new key multisig guardian stakeAmount, IdentityTree.new D governance,
        ⟨governance', false, fun _ => false⟩⟩

/-! ## What a call changes -/

variable {D : Deployment F P T} {w w' w₀ : World T} {tr : List Step} {st : Step}

theorem map_eq_ok {ε α β : Type} {f : α → β} {x : Except ε α} {b : β} :
    f <$> x = .ok b ↔ ∃ a, x = .ok a ∧ f a = b := by
  cases x <;> simp [Functor.map, Except.map]

omit [BnField F] [AddCommGroup P] in
/-- What a presentation has passed, and what it writes. -/
theorem verifyProof_eq_ok {verifier verifier' : IdentityVerifier} {tree : IdentityTree T} {args : PresentArgs} :
    verifier.verifyProof D tree args = .ok verifier' ↔
      verifier.paused = false ∧ tree.isRecentRoot args.root = true ∧
      verifier.usedNullifiers args.nullifier = false ∧ args.predicateAttrIndex < 2 ∧
      D.verifyMembership args.proof args.publicInputs = true ∧
      { verifier with usedNullifiers := Function.update verifier.usedNullifiers args.nullifier true } =
        verifier' := by
  simp only [IdentityVerifier.verifyProof, bind_eq_ok, failIf_eq_ok, pure_eq_ok, exists_const,
    Bool.not_eq_true, Bool.not_eq_false, Nat.not_le]

section
variable {tree tree' : IdentityTree T} {sender : Address} {leaf enrollmentNullifier : Word}

omit [AddCommGroup P] in
theorem insertLeaf_eq_ok : tree.insertLeaf D sender leaf enrollmentNullifier = .ok tree' ↔
      tree.authorized sender = true ∧ tree.paused = false ∧ tree.insertedLeaves leaf = false ∧
      tree.usedEnrollmentNullifiers enrollmentNullifier = false ∧ BnField.canonical F leaf = true ∧
      ∃ imt, D.imt.insert (Scalar.ofNat leaf) tree.tree = .ok imt ∧ ({ tree with
            insertedLeaves := Function.update tree.insertedLeaves leaf true
            usedEnrollmentNullifiers := Function.update tree.usedEnrollmentNullifiers enrollmentNullifier true
            leafEnrollmentNullifier := Function.update tree.leafEnrollmentNullifier leaf enrollmentNullifier
            tree := imt } : IdentityTree T).pushRoot D = tree' := by
  simp only [IdentityTree.insertLeaf, bind_eq_ok, failIf_eq_ok, mapErr_eq_ok, pure_eq_ok, exists_const,
    Bool.not_eq_true, Bool.not_eq_false]

omit [AddCommGroup P] in
theorem removeLeaf_eq_ok {siblingNodes : List Word} : tree.removeLeaf D sender leaf siblingNodes = .ok tree' ↔
      tree.authorized sender = true ∧ tree.paused = false ∧ BnField.canonical F leaf = true ∧
      ∃ imt, D.imt.remove (Scalar.ofNat leaf) siblingNodes tree.tree = .ok imt ∧ ({ tree with
            insertedLeaves := Function.update tree.insertedLeaves leaf false
            usedEnrollmentNullifiers :=
              Function.update tree.usedEnrollmentNullifiers (tree.leafEnrollmentNullifier leaf) false
            leafEnrollmentNullifier := Function.update tree.leafEnrollmentNullifier leaf 0
            tree := imt } : IdentityTree T).pushRoot D = tree' := by
  simp only [IdentityTree.removeLeaf, bind_eq_ok, failIf_eq_ok, mapErr_eq_ok, pure_eq_ok, exists_const,
    Bool.not_eq_true, Bool.not_eq_false]

omit [AddCommGroup P] in
theorem isRecentRoot_pushRoot (h : D.imt.root tree.tree ≠ 0) :
    (tree.pushRoot D).isRecentRoot (Scalar.toNat (D.imt.root tree.tree)) = true := by
  have hword : Scalar.toNat (D.imt.root tree.tree) ≠ 0 :=
    fun hzero => h (Scalar.toNat_inj (hzero.trans Scalar.toNat_zero.symm))
  rw [IdentityTree.isRecentRoot, if_neg hword, List.any_eq_true]
  refine ⟨(tree.rootIndex + 1) % recentRootsSize, List.mem_range.mpr (Nat.mod_lt _ (by decide)), ?_⟩
  exact decide_eq_true (Function.update_self _ _ _)

end

def Step.nullifiers : Step → List Word
  | .call _ (.verifyProof args) => [args.nullifier]
  | _ => []

def marked (tr : List Step) : List Word := tr.flatMap Step.nullifiers

@[simp] theorem marked_cons (st : Step) (tr : List Step) : marked (st :: tr) = st.nullifiers ++ marked tr := rfl

omit [AddCommGroup P] in
/-- A call other than `verifyProof` leaves the used nullifiers. -/
theorem Transition.usedNullifiers (h : Transition D w st w') :
    (st.nullifiers = [] ∧ w'.verifier.usedNullifiers = w.verifier.usedNullifiers) ∨
      ∃ sender args, st = .call sender (.verifyProof args) ∧ w.verifier.usedNullifiers args.nullifier = false ∧
        w'.verifier.usedNullifiers = Function.update w.verifier.usedNullifiers args.nullifier true := by
  cases h with
  | reverted err => exact .inl ⟨rfl, rfl⟩
  | block le => exact .inl ⟨rfl, rfl⟩
  | @call sender call _ _ ok =>
    cases call with
    | verifyProof args =>
      obtain ⟨verifier, hverify, rfl⟩ := map_eq_ok.mp ok
      obtain ⟨-, -, hfresh, -, -, rfl⟩ := verifyProof_eq_ok.mp hverify
      exact .inr ⟨sender, args, rfl, hfresh, rfl⟩
    | pauseVerifier paused =>
      obtain ⟨verifier, hpause, rfl⟩ := map_eq_ok.mp ok
      simp only [IdentityVerifier.setPaused, bind_eq_ok, failIf_eq_ok, pure_eq_ok, exists_const] at hpause
      obtain ⟨-, rfl⟩ := hpause
      exact .inl ⟨rfl, rfl⟩
    | enroll value args =>
      simp only [Call.run, enroll, bind_eq_ok, pure_eq_ok] at ok
      obtain ⟨_, _, _, _, _, _, tree, _, rfl⟩ := ok
      exact .inl ⟨rfl, rfl⟩
    | unstake leaf siblingNodes received =>
      simp only [Call.run, unstake, bind_eq_ok, pure_eq_ok] at ok
      obtain ⟨_, _, _, _, tree, _, _, _, rfl⟩ := ok
      exact .inl ⟨rfl, rfl⟩
    | proposeMPCPublicKey | finalizeMPCPublicKey | vetoPendingKey | pauseEnrollment =>
      obtain ⟨enrollment, _, rfl⟩ := map_eq_ok.mp ok
      exact .inl ⟨rfl, rfl⟩
    | insertLeaf | removeLeaf | addAuthorized | removeAuthorized | pauseTree =>
      obtain ⟨tree, _, rfl⟩ := map_eq_ok.mp ok
      exact .inl ⟨rfl, rfl⟩

omit [AddCommGroup P] in
/-- The used nullifiers are those of the run, each marked once. -/
theorem marked_of_run {key : ECPoint} (hdeployed : Deployed D key w₀) (hrun : Run (Transition D) w₀ tr w) :
    (∀ n, w.verifier.usedNullifiers n = true ↔ n ∈ marked tr) ∧ (marked tr).Nodup := by
  induction hrun with
  | nil =>
    cases hdeployed
    exact ⟨fun n => ⟨fun h => absurd h Bool.false_ne_true, fun h => absurd h List.not_mem_nil⟩, List.nodup_nil⟩
  | cons hrun hstep ih =>
    obtain ⟨hused, hnodup⟩ := ih
    rcases hstep.usedNullifiers with ⟨hnone, hsame⟩ | ⟨sender, args, rfl, hfresh, hmark⟩
    · rw [marked_cons, hnone, hsame]
      exact ⟨hused, hnodup⟩
    · refine ⟨fun n => ?_, List.nodup_cons.mpr ⟨fun hmem => ?_, hnodup⟩⟩
      · rw [hmark, marked_cons, Step.nullifiers, List.singleton_append, List.mem_cons, ← hused]
        rcases eq_or_ne n args.nullifier with rfl | hne
        · simp
        · simp [hne]
      · exact absurd (hfresh.symm.trans ((hused _).mpr hmem)) Bool.false_ne_true

end

/-! ## A deployment -/

namespace Sample

noncomputable def deployment (hash : List Doubled → Doubled) : Deployment Doubled (ZMod 7) (List Doubled) :=
  .ofCircuits hash (cyclicBn254 Doubled) (slotTree (merkleHash hash)) 9

def attributes : Attributes Doubled := ⟨0, 0, 0, 0⟩

def leaf (hash : List Doubled → Doubled) (secret : Nat) : Doubled :=
  hashLeaf hash (Scalar.ofNat secret) (hashAttr hash (Scalar.ofNat 1) attributes)

variable {hash : List Doubled → Doubled} (H : IdealHash hash)
include H

theorem leaf_ne_zero (secret : Nat) : leaf hash secret ≠ 0 :=
  H.ne_zero (List.cons_ne_nil _ _) (Nat.le_of_ble_eq_true rfl)

theorem leaf_inj {secret secret' : Nat} (hsecret : secret < 2 ^ 64) (hsecret' : secret' < 2 ^ 64)
    (h : leaf hash secret = leaf hash secret') : secret = secret' := by
  have hfields := H.inj (by simp) (by simp) (by simp) (by simp) h
  simp only [List.cons.injEq, and_true, true_and] at hfields
  exact Scalar.ofNat_inj hsecret hsecret' hfields

/-- A new leaf takes the next slot. -/
theorem insert_leaf {slots : List Doubled} {secret : Nat} (hnew : leaf hash secret ∉ slots) :
    (deployment hash).imt.insert (Scalar.ofNat (Scalar.toNat (leaf hash secret))) slots =
      .ok (slots ++ [leaf hash secret]) := by
  have hnone : ¬ (slots.any fun x => decide (x = leaf hash secret)) = true := by
    simp only [List.any_eq_true, decide_eq_true_iff, exists_eq_right]
    exact hnew
  rw [BnField.ofNat_toNat]
  simp only [deployment, Deployment.ofCircuits, slotTree, failIf_neg (leaf_ne_zero H secret), failIf_neg hnone]
  rfl

end Sample

end Pocs.Identity
