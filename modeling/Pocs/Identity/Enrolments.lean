import Pocs.Identity.System

/-! # One live leaf for each identity point

The tree marks the word of an enrollment nullifier until its leaf is removed, the circuit binds its residue to
the identity point and the key. -/

namespace Pocs.Identity

open Compliance (BnField Word Address merkleHash)
open Swap (IdealHash Doubled doubledHash)

section
variable {F P T : Type} [BnField F] {D : Deployment F P T} {w w' w₀ : World T} {tr : List Step} {st : Step}
  {key : ECPoint}

/-! ## Live enrollments -/

/-- What a step does to the enrollments whose leaf has not been removed. -/
def Step.enrolls : Step → List EnrollArgs → List EnrollArgs
  | .call _ (.enroll _ args), es => args :: es
  | .call _ (.unstake leaf _ _), es => es.filter fun e => decide (e.leaf ≠ leaf)
  | _, es => es

/-- The enrollments of a run whose leaf has not been removed since, the latest first. -/
def live (tr : List Step) : List EnrollArgs := tr.foldr Step.enrolls []

@[simp] theorem live_cons (st : Step) (tr : List Step) : live (st :: tr) = st.enrolls (live tr) := rfl

/-- The key stays, and nobody but `Enrollment` is authorized. -/
def Step.KeepsKey (D : Deployment F P T) : Step → Prop
  | .call _ .finalizeMPCPublicKey => False
  | .call _ (.addAuthorized addr) => addr = D.enrollmentAddress
  | _ => True

/-- The nullifier of an enrollment is canonical. -/
def Step.CanonicalEnrollment (F : Type) [BnField F] : Step → Prop
  | .call _ (.enroll _ args) => BnField.canonical F args.enrollmentNullifier = true
  | _ => True

/-- Two enrollments have the identity point in common. -/
def SamePoint (F : Type) [BnField F] (e e' : EnrollArgs) : Prop :=
  (Scalar.ofNat e.gIdX : F) = Scalar.ofNat e'.gIdX ∧ (Scalar.ofNat e.gIdY : F) = Scalar.ofNat e'.gIdY

/-- No identity point and no enrollment nullifier has two live enrollments. -/
def EnrolledOnce (F : Type) [BnField F] (tr : List Step) : Prop :=
  (live tr).Pairwise fun e e' => ¬ SamePoint F e e' ∧
    (Scalar.ofNat e.enrollmentNullifier : F) ≠ Scalar.ofNat e'.enrollmentNullifier

/-- Each leaf of the tree is that of one live enrollment. -/
structure LeavesOf (D : Deployment F P T) (tr : List Step) (w : World T) : Prop where
  mem_iff : ∀ x : F, x ∈ D.imt.leaves w.tree.tree ↔ ∃ e ∈ live tr, Scalar.ofNat e.leaf = x
  distinct : (live tr).Pairwise fun e e' => (Scalar.ofNat e.leaf : F) ≠ Scalar.ofNat e'.leaf

/-! ## Steps -/

/-- What calls other than `enroll` and `unstake` leave. -/
structure Kept (D : Deployment F P T) (w w' : World T) : Prop where
  tree : w'.tree.tree = w.tree.tree
  used : w'.tree.usedEnrollmentNullifiers = w.tree.usedEnrollmentNullifiers
  nullifierOf : w'.tree.leafEnrollmentNullifier = w.tree.leafEnrollmentNullifier
  key : w'.enrollment.mpcPublicKey = w.enrollment.mpcPublicKey
  previous : w'.enrollment.previousMPCKey = w.enrollment.previousMPCKey
  authorized : ∀ a, w'.tree.authorized a = true → a = D.enrollmentAddress ∨ w.tree.authorized a = true

omit [BnField F] in
theorem Kept.refl : Kept D w w := ⟨rfl, rfl, rfl, rfl, rfl, fun _ => .inr⟩

omit [BnField F] in
/-- A call of the verifier leaves the tree and the key. -/
theorem Kept.setVerifier {verifier : IdentityVerifier} : Kept D w (w.setVerifier verifier) :=
  ⟨rfl, rfl, rfl, rfl, rfl, fun _ => .inr⟩

omit [BnField F] in
theorem Kept.setEnrollment {enrollment : Enrollment}
    (hkey : enrollment.mpcPublicKey = w.enrollment.mpcPublicKey)
    (hprevious : enrollment.previousMPCKey = w.enrollment.previousMPCKey) :
    Kept D w (w.setEnrollment enrollment) :=
  ⟨rfl, rfl, rfl, hkey, hprevious, fun _ => .inr⟩

/-- Authorizations are written for one address. -/
theorem setAuthorized_ok {sender addr self : Address} {value : Bool} {tree tree' : IdentityTree T}
    (h : tree.setAuthorized sender addr value = .ok tree') (haddr : value = true → addr = self) :
    ∃ authorized, { tree with authorized } = tree' ∧
      ∀ a, authorized a = true → a = self ∨ tree.authorized a = true := by
  simp only [IdentityTree.setAuthorized, bind_eq_ok, failIf_eq_ok, pure_eq_ok, exists_const] at h
  obtain ⟨-, rfl⟩ := h
  refine ⟨_, rfl, fun a ha => ?_⟩
  rcases eq_or_ne a addr with rfl | hne
  · exact .inl (haddr ((Function.update_self _ _ _).symm.trans ha))
  · exact .inr ((Function.update_of_ne hne _ _).symm.trans ha)

omit [BnField F] in
theorem Kept.setAuthorized {sender addr : Address} {value : Bool} {tree : IdentityTree T}
    (h : w.tree.setAuthorized sender addr value = .ok tree) (haddr : value = true → addr = D.enrollmentAddress) :
    Kept D w (w.setTree tree) := by
  obtain ⟨authorized, rfl, hsub⟩ := setAuthorized_ok h haddr
  exact ⟨rfl, rfl, rfl, rfl, rfl, hsub⟩

theorem enroll_eq_ok {sender : Address} {value : Nat} {args : EnrollArgs} :
    enroll D sender w value args = .ok w' ↔ w.enrollment.paused = false ∧ value = w.enrollment.stakeAmount ∧
      w.enrollment.verifies D w.blockNumber args = true ∧
      ∃ tree, w.tree.insertLeaf D D.enrollmentAddress args.leaf args.enrollmentNullifier = .ok tree ∧ { w with
          enrollment :=
            { w.enrollment with stakers := Function.update w.enrollment.stakers args.leaf sender }
          tree } = w' := by
  simp only [enroll, bind_eq_ok, failIf_eq_ok, pure_eq_ok, exists_const, Bool.not_eq_true,
    Bool.not_eq_false, not_not]

/-- `Enrollment` inserts and removes leaves, and nobody else does. -/
theorem Transition.enrolls (h : Transition D w st w') (hkeeps : st.KeepsKey D)
    (hauth : ∀ a, w.tree.authorized a = true → a = D.enrollmentAddress) :
    ((∀ es, st.enrolls es = es) ∧ Kept D w w') ∨ (∃ sender value args, st = .call sender (.enroll value args) ∧
      w.enrollment.verifies D w.blockNumber args = true ∧
      w.tree.insertLeaf D D.enrollmentAddress args.leaf args.enrollmentNullifier = .ok w'.tree ∧
      w'.enrollment.mpcPublicKey = w.enrollment.mpcPublicKey ∧
      w'.enrollment.previousMPCKey = w.enrollment.previousMPCKey) ∨
    (∃ sender leaf siblingNodes received, st = .call sender (.unstake leaf siblingNodes received) ∧
      w.tree.removeLeaf D D.enrollmentAddress leaf siblingNodes = .ok w'.tree ∧
      w'.enrollment.mpcPublicKey = w.enrollment.mpcPublicKey ∧
      w'.enrollment.previousMPCKey = w.enrollment.previousMPCKey) := by
  cases h with
  | reverted err => exact .inl ⟨fun _ => rfl, .refl⟩
  | block le => exact .inl ⟨fun _ => rfl, rfl, rfl, rfl, rfl, rfl, fun _ => .inr⟩
  | @call sender call _ hne ok =>
    cases call with
    | enroll value args =>
      obtain ⟨-, -, hverifies, tree, hinsert, rfl⟩ := enroll_eq_ok.mp ok
      exact .inr (.inl ⟨sender, value, args, rfl, hverifies, hinsert, rfl, rfl⟩)
    | unstake leaf siblingNodes received =>
      simp only [Call.run, unstake, bind_eq_ok, failIf_eq_ok, pure_eq_ok, exists_const] at ok
      obtain ⟨-, -, tree, hremove, -, rfl⟩ := ok
      exact .inr (.inr ⟨sender, leaf, siblingNodes, received, rfl, hremove, rfl, rfl⟩)
    | proposeMPCPublicKey x y =>
      obtain ⟨enrollment, hpropose, rfl⟩ := map_eq_ok.mp ok
      simp only [Enrollment.proposeMPCPublicKey, bind_eq_ok, pure_eq_ok] at hpropose
      obtain ⟨_, _, _, _, _, _, rfl⟩ := hpropose
      exact .inl ⟨fun _ => rfl, .setEnrollment rfl rfl⟩
    | finalizeMPCPublicKey => exact hkeeps.elim
    | vetoPendingKey =>
      obtain ⟨enrollment, hveto, rfl⟩ := map_eq_ok.mp ok
      simp only [Enrollment.vetoPendingKey, bind_eq_ok, pure_eq_ok] at hveto
      obtain ⟨_, _, _, _, rfl⟩ := hveto
      exact .inl ⟨fun _ => rfl, .setEnrollment rfl rfl⟩
    | pauseEnrollment paused =>
      obtain ⟨enrollment, hpause, rfl⟩ := map_eq_ok.mp ok
      simp only [Enrollment.setPaused, bind_eq_ok, pure_eq_ok] at hpause
      obtain ⟨_, _, rfl⟩ := hpause
      exact .inl ⟨fun _ => rfl, .setEnrollment rfl rfl⟩
    | insertLeaf leaf enrollmentNullifier =>
      obtain ⟨tree, hinsert, rfl⟩ := map_eq_ok.mp ok
      exact absurd (hauth sender (insertLeaf_eq_ok.mp hinsert).1) hne
    | removeLeaf leaf siblingNodes =>
      obtain ⟨tree, hremove, rfl⟩ := map_eq_ok.mp ok
      exact absurd (hauth sender (removeLeaf_eq_ok.mp hremove).1) hne
    | addAuthorized addr =>
      obtain ⟨tree, hset, rfl⟩ := map_eq_ok.mp ok
      exact .inl ⟨fun _ => rfl, .setAuthorized hset fun _ => hkeeps⟩
    | removeAuthorized addr =>
      obtain ⟨tree, hset, rfl⟩ := map_eq_ok.mp ok
      exact .inl ⟨fun _ => rfl, .setAuthorized hset fun h => absurd h Bool.false_ne_true⟩
    | pauseTree paused =>
      obtain ⟨tree, hpause, rfl⟩ := map_eq_ok.mp ok
      simp only [IdentityTree.setPaused, bind_eq_ok, pure_eq_ok] at hpause
      obtain ⟨_, _, rfl⟩ := hpause
      exact .inl ⟨fun _ => rfl, rfl, rfl, rfl, rfl, rfl, fun _ => .inr⟩
    | verifyProof | pauseVerifier =>
      obtain ⟨verifier, _, rfl⟩ := map_eq_ok.mp ok
      exact .inl ⟨fun _ => rfl, .setVerifier⟩

/-! ## The invariant -/

/-- The live enrollments are the leaves of the tree, each with a proof for the key and a word of its own. -/
structure EnrolledInv [AddCommGroup P] (D : Deployment F P T) (key : ECPoint) (tr : List Step)
    (w : World T) : Prop where
  authorized : ∀ a, w.tree.authorized a = true → a = D.enrollmentAddress
  keyed : w.enrollment.mpcPublicKey = key
  previous : w.enrollment.previousMPCKey = ⟨0, 0⟩
  mem_iff : ∀ x : F, x ∈ D.imt.leaves w.tree.tree ↔ ∃ e ∈ live tr, Scalar.ofNat e.leaf = x
  canonical : ∀ e ∈ live tr, BnField.canonical F e.leaf = true
  distinct : (live tr).Pairwise fun e e' => (Scalar.ofNat e.leaf : F) ≠ Scalar.ofNat e'.leaf
  nullifierOf : ∀ e ∈ live tr, w.tree.leafEnrollmentNullifier e.leaf = e.enrollmentNullifier
  used : ∀ e ∈ live tr, w.tree.usedEnrollmentNullifiers e.enrollmentNullifier = true
  nullifier_ne : (live tr).Pairwise fun e e' => e.enrollmentNullifier ≠ e'.enrollmentNullifier
  proven : ∀ e ∈ live tr, ∃ wit, Enrolls D e key wit

variable [AddCommGroup P]

/-- The previous key of a new contract is no point, and a proof is for the present one. -/
theorem exists_enrolls (hV : D.Verifies) (hE : D.curve.Sound) {args : EnrollArgs} {blockNumber : Nat}
    {enrollment : Enrollment} (hprevious : enrollment.previousMPCKey = ⟨0, 0⟩)
    (h : enrollment.verifies D blockNumber args = true) :
    ∃ wit, Enrolls D args enrollment.mpcPublicKey wit := by
  rw [Enrollment.verifies] at h
  split at h
  · obtain ⟨wit, hmain⟩ := (hV.enrollment args enrollment.previousMPCKey).mp ⟨_, h⟩
    have hpoint := key_of_enrollmentMain hmain
    rw [hprevious] at hpoint
    replace hpoint : (D.curve.point (0 : F) 0).isSome = true := hpoint
    rw [hE.point_zero] at hpoint
    exact absurd hpoint Bool.false_ne_true
  · exact (hV.enrollment args enrollment.mpcPublicKey).mp ⟨_, h⟩

omit [BnField F] [AddCommGroup P] in
theorem Enrollment.verifies_of_key {enrollment : Enrollment} {blockNumber : Nat} {args : EnrollArgs}
    (h : D.verifyEnrollment args.proof (args.publicInputs enrollment.mpcPublicKey) = true) :
    enrollment.verifies D blockNumber args = true := by
  simp only [Enrollment.verifies, h, Bool.true_eq_false, false_and, if_false]

theorem EnrolledInv.deployed (hL : D.imt.Lawful) (h : Deployed D key w) : EnrolledInv D key [] w := by
  cases h
  refine ⟨fun a ha => absurd ha Bool.false_ne_true, rfl, rfl, fun x => ?_, ?_, .nil, ?_, ?_, .nil, ?_⟩
  · show x ∈ D.imt.leaves D.imt.empty ↔ _
    rw [hL.leaves_empty]
    exact ⟨fun hmem => absurd hmem List.not_mem_nil, fun ⟨_, hmem, _⟩ => absurd hmem List.not_mem_nil⟩
  all_goals exact fun e hmem => absurd hmem List.not_mem_nil

theorem EnrolledInv.kept (inv : EnrolledInv D key tr w) (hst : ∀ es, st.enrolls es = es) (h : Kept D w w') :
    EnrolledInv D key (st :: tr) w' := by
  have hlive : live (st :: tr) = live tr := hst _
  refine ⟨fun a ha => (h.authorized a ha).elim id (inv.authorized a), h.key.trans inv.keyed,
    h.previous.trans inv.previous, ?_, ?_, ?_, ?_, ?_, ?_, ?_⟩
  · rw [hlive, h.tree]
    exact inv.mem_iff
  · rw [hlive]
    exact inv.canonical
  · rw [hlive]
    exact inv.distinct
  · rw [hlive, h.nullifierOf]
    exact inv.nullifierOf
  · rw [hlive, h.used]
    exact inv.used
  · rw [hlive]
    exact inv.nullifier_ne
  · rw [hlive]
    exact inv.proven

theorem EnrolledInv.enroll (inv : EnrolledInv D key tr w) (hV : D.Verifies) (hE : D.curve.Sound)
    (hL : D.imt.Lawful) {sender : Address} {value : Nat} {args : EnrollArgs}
    (hverifies : w.enrollment.verifies D w.blockNumber args = true)
    (hinsert : w.tree.insertLeaf D D.enrollmentAddress args.leaf args.enrollmentNullifier = .ok w'.tree)
    (hkey : w'.enrollment.mpcPublicKey = w.enrollment.mpcPublicKey)
    (hprevious : w'.enrollment.previousMPCKey = w.enrollment.previousMPCKey) :
    EnrolledInv D key (.call sender (.enroll value args) :: tr) w' := by
  obtain ⟨-, -, -, hfresh, hcanonical, imt, himt, htree⟩ := insertLeaf_eq_ok.mp hinsert
  obtain ⟨-, hnew, hleaves⟩ := hL.insert himt
  have hleaf : ∀ e ∈ live tr, (Scalar.ofNat args.leaf : F) ≠ Scalar.ofNat e.leaf :=
    fun e he hsame => hnew ((inv.mem_iff _).mpr ⟨e, he, hsame.symm⟩)
  have hnullifier : ∀ e ∈ live tr, args.enrollmentNullifier ≠ e.enrollmentNullifier := by
    intro e he hsame
    have hused := inv.used e he
    rw [← hsame, hfresh] at hused
    exact Bool.false_ne_true hused
  obtain ⟨wit, hproof⟩ := exists_enrolls hV hE inv.previous hverifies
  rw [inv.keyed] at hproof
  refine ⟨?_, hkey.trans inv.keyed, hprevious.trans inv.previous, ?_, ?_, ?_, ?_, ?_, ?_, ?_⟩
  · rw [← htree]
    exact inv.authorized
  · intro x
    rw [← htree]
    refine (hleaves x).trans ?_
    rw [inv.mem_iff, live_cons, Step.enrolls, List.exists_mem_cons_iff]
    exact or_congr_left eq_comm
  · exact List.forall_mem_cons.mpr ⟨hcanonical, inv.canonical⟩
  · exact List.pairwise_cons.mpr ⟨hleaf, inv.distinct⟩
  · rw [← htree]
    refine List.forall_mem_cons.mpr ⟨Function.update_self _ _ _, fun e he => ?_⟩
    exact (Function.update_of_ne (fun h => hleaf e he (congrArg _ h.symm)) _ _).trans (inv.nullifierOf e he)
  · rw [← htree]
    refine List.forall_mem_cons.mpr ⟨Function.update_self _ _ _, fun e he => ?_⟩
    exact (Function.update_of_ne (hnullifier e he).symm _ _).trans (inv.used e he)
  · exact List.pairwise_cons.mpr ⟨hnullifier, inv.nullifier_ne⟩
  · exact List.forall_mem_cons.mpr ⟨⟨wit, hproof⟩, inv.proven⟩

theorem EnrolledInv.unstake (inv : EnrolledInv D key tr w) (hL : D.imt.Lawful) {sender : Address}
    {leaf : Word} {siblingNodes : List Word} {received : Bool}
    (hremove : w.tree.removeLeaf D D.enrollmentAddress leaf siblingNodes = .ok w'.tree)
    (hkey : w'.enrollment.mpcPublicKey = w.enrollment.mpcPublicKey)
    (hprevious : w'.enrollment.previousMPCKey = w.enrollment.previousMPCKey) :
    EnrolledInv D key (.call sender (.unstake leaf siblingNodes received) :: tr) w' := by
  obtain ⟨-, -, hcanonical, imt, himt, htree⟩ := removeLeaf_eq_ok.mp hremove
  obtain ⟨hmem, hleaves⟩ := hL.remove himt
  -- the leaf is that of a live enrollment, whose nullifier is deleted
  obtain ⟨removed, hremoved, hsame⟩ := (inv.mem_iff _).mp hmem
  obtain rfl : removed.leaf = leaf := BnField.eq_of_canonical (inv.canonical _ hremoved) hcanonical hsame
  have hof := inv.nullifierOf removed hremoved
  have hlive : ∀ {e}, e ∈ live (.call sender (.unstake removed.leaf siblingNodes received) :: tr) ↔
      e ∈ live tr ∧ e.leaf ≠ removed.leaf := by
    intro e
    rw [live_cons, Step.enrolls, List.mem_filter, decide_eq_true_iff]
  refine ⟨?_, hkey.trans inv.keyed, hprevious.trans inv.previous, ?_, ?_, ?_, ?_, ?_, ?_, ?_⟩
  · rw [← htree]
    exact inv.authorized
  · intro x
    rw [← htree]
    refine (hleaves x).trans ?_
    rw [inv.mem_iff]
    constructor
    · rintro ⟨hne, e, he, rfl⟩
      exact ⟨e, hlive.mpr ⟨he, fun h => hne (congrArg _ h)⟩, rfl⟩
    · rintro ⟨e, he, rfl⟩
      obtain ⟨he, hne⟩ := hlive.mp he
      exact ⟨fun h => hne (BnField.eq_of_canonical (inv.canonical e he) hcanonical h), e, he, rfl⟩
  · exact fun e he => inv.canonical e (hlive.mp he).1
  · exact inv.distinct.filter _
  · intro e he
    obtain ⟨he, hne⟩ := hlive.mp he
    rw [← htree]
    exact (Function.update_of_ne hne _ _).trans (inv.nullifierOf e he)
  · intro e he
    obtain ⟨he, hne⟩ := hlive.mp he
    rw [← htree]
    have hsymm : Std.Symm fun e e' : EnrollArgs => e.enrollmentNullifier ≠ e'.enrollmentNullifier :=
      ⟨fun _ _ h => h.symm⟩
    have hnullifier : e.enrollmentNullifier ≠ removed.enrollmentNullifier :=
      inv.nullifier_ne.forall he hremoved fun h => hne (congrArg EnrollArgs.leaf h)
    refine (Function.update_of_ne ?_ _ _).trans (inv.used e he)
    rw [hof]
    exact hnullifier
  · exact inv.nullifier_ne.filter _
  · exact fun e he => inv.proven e (hlive.mp he).1

theorem enrolledInv_of_run (hV : D.Verifies) (hE : D.curve.Sound) (hL : D.imt.Lawful)
    (hdeployed : Deployed D key w₀) (hrun : Run (Transition D) w₀ tr w)
    (hkeeps : ∀ st ∈ tr, st.KeepsKey D) : EnrolledInv D key tr w := by
  induction hrun with
  | nil => exact .deployed hL hdeployed
  | cons hrun hstep ih =>
    obtain ⟨hst, hkeeps⟩ := List.forall_mem_cons.mp hkeeps
    have inv := ih hkeeps
    rcases hstep.enrolls hst inv.authorized with ⟨hnone, hkept⟩ |
      ⟨sender, value, args, rfl, hverifies, hinsert, hkey, hprevious⟩ |
      ⟨sender, leaf, siblingNodes, received, rfl, hremove, hkey, hprevious⟩
    · exact inv.kept hnone hkept
    · exact inv.enroll hV hE hL hverifies hinsert hkey hprevious
    · exact inv.unstake hL hremove hkey hprevious

theorem mem_enrolls {e : EnrollArgs} {es : List EnrollArgs} (h : e ∈ st.enrolls es) :
    (∃ sender value, st = .call sender (.enroll value e)) ∨ e ∈ es := by
  cases st with
  | reverted => exact .inr h
  | block number => exact .inr h
  | call sender call =>
    cases call with
    | enroll value args =>
      rcases List.mem_cons.mp h with rfl | hmem
      · exact .inl ⟨sender, value, rfl⟩
      · exact .inr hmem
    | unstake leaf siblingNodes received => exact .inr (List.mem_of_mem_filter h)
    | _ => exact .inr h

theorem exists_call_of_mem_live {e : EnrollArgs} (h : e ∈ live tr) :
    ∃ sender value, Step.call sender (.enroll value e) ∈ tr := by
  induction tr with
  | nil => exact absurd h List.not_mem_nil
  | cons st tr ih =>
    rcases mem_enrolls h with ⟨sender, value, rfl⟩ | hmem
    · exact ⟨sender, value, List.mem_cons_self⟩
    · obtain ⟨sender, value, hcall⟩ := ih hmem
      exact ⟨sender, value, List.mem_cons_of_mem _ hcall⟩

/-- Where every enrollment has the canonical word of its nullifier, an identity point has one live leaf. -/
theorem enrolled_once (hV : D.Verifies) (hE : D.curve.Sound) (hL : D.imt.Lawful)
    (hdeployed : Deployed D key w₀) (hrun : Run (Transition D) w₀ tr w)
    (hkeeps : ∀ st ∈ tr, st.KeepsKey D) (hcanonical : ∀ st ∈ tr, st.CanonicalEnrollment F) :
    LeavesOf D tr w ∧ EnrolledOnce F tr := by
  have inv := enrolledInv_of_run hV hE hL hdeployed hrun hkeeps
  have hwords : ∀ e ∈ live tr, BnField.canonical F e.enrollmentNullifier = true := by
    intro e he
    obtain ⟨sender, value, hcall⟩ := exists_call_of_mem_live he
    exact hcanonical _ hcall
  refine ⟨⟨inv.mem_iff, inv.distinct⟩, inv.nullifier_ne.imp_of_mem ?_⟩
  intro e e' he he' hne
  have hresidue : (Scalar.ofNat e.enrollmentNullifier : F) ≠ Scalar.ofNat e'.enrollmentNullifier :=
    fun h => hne (BnField.eq_of_canonical (hwords e he) (hwords e' he') h)
  refine ⟨fun hsame => hresidue ?_, hresidue⟩
  obtain ⟨wit, hmain⟩ := inv.proven e he
  obtain ⟨wit', hmain'⟩ := inv.proven e' he'
  exact enrollmentNullifier_eq hE hmain hmain' rfl rfl hsame.1 hsame.2

end

/-! ## An enrollment nullifier with two words -/

namespace Sample

/-- The identity point `x` under the key `1`. -/
def enrollArgs (hash : List Doubled → Doubled) (secret x : Nat) (enrollmentNullifier : Word) : EnrollArgs where
  leaf := Scalar.toNat (leaf hash secret)
  enrollmentNullifier
  gIdX := x
  gIdY := 1
  proof := []

def enrollWitness (secret x : Nat) : EnrollmentWitness Doubled where
  identitySecret := Scalar.ofNat secret
  version := Scalar.ofNat 1
  attrs := attributes
  rawNullifierX := Scalar.ofNat x
  rawNullifierY := Scalar.ofNat 1
  chaumPedersenC := 0
  chaumPedersenZ := 0

def pointNullifier (hash : List Doubled → Doubled) (x : Nat) : Doubled :=
  hashEnrollmentNullifier hash (Scalar.ofNat x) (Scalar.ofNat 1)

theorem exists_point {x : Nat} (hx : x = 2 ∨ x = 3) :
    ∃ p, (cyclicBn254 Doubled).point (Scalar.ofNat x) (Scalar.ofNat 1) = some p := by
  rcases hx with rfl | rfl
  · exact ⟨2, by decide⟩
  · exact ⟨3, by decide⟩

theorem enrolls {hash : List Doubled → Doubled} {secret x : Nat} {enrollmentNullifier : Word}
    (hx : x = 2 ∨ x = 3) (hn : (Scalar.ofNat enrollmentNullifier : Doubled) = pointNullifier hash x) :
    Enrolls (deployment hash) (enrollArgs hash secret x enrollmentNullifier) ⟨1, 1⟩
      (enrollWitness secret x) := by
  have hkey : (cyclicBn254 Doubled).point (Scalar.ofNat 1) (Scalar.ofNat 1) = some 1 := by decide
  obtain ⟨p, hpoint⟩ := exists_point hx
  simp only [Enrolls, enrollmentMain, verifyChaumPedersen, bind_eq_ok, Swap.noirAssert_eq_ok, okOr_eq_ok,
    exists_const]
  exact ⟨rfl, ⟨1, hkey, p, hpoint, p, hpoint, (if_pos (one_mul p).symm).symm⟩, hn, BnField.ofNat_toNat _⟩

/-- `Enrollment` with the key `1` and no stake, and the tree it may write. -/
structure Ready (w : World (List Doubled)) : Prop where
  key : w.enrollment.mpcPublicKey = ⟨1, 1⟩
  running : w.enrollment.paused = false
  stake : w.enrollment.stakeAmount = 0
  authorized : w.tree.authorized 9 = true
  treeRunning : w.tree.paused = false

variable {hash : List Doubled → Doubled} (H : IdealHash hash)
include H

/-- An enrollment of a new leaf with an unused word is accepted. -/
theorem exists_enrolled {w : World (List Doubled)} {secret x : Nat} {enrollmentNullifier : Word} (h : Ready w)
    (hx : x = 2 ∨ x = 3) (hinserted : w.tree.insertedLeaves (Scalar.toNat (leaf hash secret)) = false)
    (hfresh : w.tree.usedEnrollmentNullifiers enrollmentNullifier = false)
    (hnew : leaf hash secret ∉ w.tree.tree)
    (hn : (Scalar.ofNat enrollmentNullifier : Doubled) = pointNullifier hash x) :
    ∃ w', Transition (deployment hash) w
        (.call 6 (.enroll 0 (enrollArgs hash secret x enrollmentNullifier))) w' ∧ Ready w' ∧
      w'.tree.insertedLeaves = Function.update w.tree.insertedLeaves (Scalar.toNat (leaf hash secret)) true ∧
      w'.tree.usedEnrollmentNullifiers =
        Function.update w.tree.usedEnrollmentNullifiers enrollmentNullifier true ∧
      w'.tree.tree = w.tree.tree ++ [leaf hash secret] := by
  have hproof := @Deployment.verifyEnrollment_ofCircuits _ _ _ _ _ hash (cyclicBn254 Doubled)
    (slotTree (merkleHash hash)) 9 (enrollArgs hash secret x enrollmentNullifier) ⟨1, 1⟩ []
  have hvalid := hproof.mpr ⟨_, enrolls hx hn⟩
  rw [← h.key] at hvalid
  have hinsert : w.tree.insertLeaf (deployment hash) 9 _ enrollmentNullifier = .ok _ :=
    insertLeaf_eq_ok.mpr ⟨h.authorized, h.treeRunning, hinserted, hfresh,
      BnField.canonical_toNat (leaf hash secret), _, insert_leaf H hnew, rfl⟩
  have hrun : Call.run (deployment hash) 6 w (.enroll 0 (enrollArgs hash secret x enrollmentNullifier)) =
      .ok _ :=
    enroll_eq_ok.mpr ⟨h.running, h.stake.symm, Enrollment.verifies_of_key hvalid, _, hinsert, rfl⟩
  exact ⟨_, .call (show (6 : Address) ≠ 9 by decide) hrun, ⟨h.key, h.running, h.stake, h.authorized,
    h.treeRunning⟩, rfl, rfl, rfl⟩

/-- Two identity points with words that differ, or one with two words, are enrolled one after the other. -/
theorem exists_enrolled_twice {x y : Nat} (hx : x = 2 ∨ x = 3) (hy : y = 2 ∨ y = 3) {n m : Word} (hnm : m ≠ n)
    (hn : (Scalar.ofNat n : Doubled) = pointNullifier hash x)
    (hm : (Scalar.ofNat m : Doubled) = pointNullifier hash y) :
    ∃ w₀ w, Deployed (deployment hash) ⟨1, 1⟩ w₀ ∧ Run (Transition (deployment hash)) w₀
      [.call 6 (.enroll 0 (enrollArgs hash 4 y m)), .call 6 (.enroll 0 (enrollArgs hash 3 x n)),
        .call 5 (.addAuthorized 9)] w ∧ w.tree.tree = [leaf hash 3, leaf hash 4] := by
  have hne : leaf hash 4 ≠ leaf hash 3 := fun h => absurd (leaf_inj H (by decide) (by decide) h) (by decide)
  let tree₁ : IdentityTree (List Doubled) :=
    { IdentityTree.new (deployment hash) 5 with authorized := Function.update (fun _ => false) 9 true }
  let w₀ : World (List Doubled) :=
    ⟨0, .new ⟨1, 1⟩ 1 2 0, .new (deployment hash) 5, ⟨5, false, fun _ => false⟩⟩
  have hadd : Transition (deployment hash) w₀ (.call 5 (.addAuthorized 9)) (w₀.setTree tree₁) :=
    .call (show (5 : Address) ≠ 9 by decide) rfl
  obtain ⟨w₁, hfirst, hready, hinserted, hused, htree⟩ := @exists_enrolled hash H (w₀.setTree tree₁) 3 x n
    ⟨rfl, rfl, rfl, rfl, rfl⟩ hx rfl rfl List.not_mem_nil hn
  have hunused : w₁.tree.insertedLeaves (Scalar.toNat (leaf hash 4)) = false := by
    rw [hinserted]
    exact Function.update_of_ne (fun h => hne (Scalar.toNat_inj h)) _ _
  have hfresh : w₁.tree.usedEnrollmentNullifiers m = false := by
    rw [hused]
    exact Function.update_of_ne hnm _ _
  have hnew : leaf hash 4 ∉ w₁.tree.tree := by
    rw [htree]
    exact fun hmem => hne (List.mem_singleton.mp hmem)
  obtain ⟨w₂, hsecond, -, -, -, htree₂⟩ := exists_enrolled H hready hy hunused hfresh hnew hm
  refine ⟨w₀, w₂, .mk, .cons (.cons (.cons .nil hadd) hfirst) hsecond, ?_⟩
  rw [htree₂, htree]
  rfl

theorem pointNullifier_ne : Scalar.toNat (pointNullifier hash 3) ≠ Scalar.toNat (pointNullifier hash 2) := by
  intro h
  have hfields := H.inj (by simp) (by simp) (by simp) (by simp) (Scalar.toNat_inj h)
  simp only [List.cons.injEq, and_true, true_and] at hfields
  exact absurd (Scalar.ofNat_inj (by decide) (by decide) hfields) (by decide)

end Sample

open Sample

/-- Two identity points are enrolled. -/
theorem enrolled_once_sample : ∃ w₀ w tr, Deployed (deployment doubledHash) ⟨1, 1⟩ w₀ ∧
    Run (Transition (deployment doubledHash)) w₀ tr w ∧ (live tr).length = 2 ∧
    LeavesOf (deployment doubledHash) tr w ∧ EnrolledOnce Doubled tr := by
  obtain ⟨w₀, w, hdeployed, hrun, -⟩ := exists_enrolled_twice Swap.doubledHash_ideal (.inl rfl) (.inr rfl)
    (pointNullifier_ne Swap.doubledHash_ideal) (BnField.ofNat_toNat _) (BnField.ofNat_toNat _)
  refine ⟨w₀, w, _, hdeployed, hrun, rfl, enrolled_once Deployment.ofCircuits_verifies cyclicBn254_sound
    slotTree_lawful hdeployed hrun ?_ ?_⟩
  · exact List.forall_mem_cons.mpr ⟨trivial, List.forall_mem_cons.mpr ⟨trivial,
      List.forall_mem_singleton.mpr rfl⟩⟩
  · exact List.forall_mem_cons.mpr ⟨BnField.canonical_toNat _, List.forall_mem_cons.mpr
      ⟨BnField.canonical_toNat _, List.forall_mem_singleton.mpr trivial⟩⟩

/-- With the enrollment nullifiers `n` and `n + bn254`, an identity point has two leaves in the tree. -/
theorem enrolled_twice : ∃ w₀ w tr, Deployed (deployment doubledHash) ⟨1, 1⟩ w₀ ∧
    Run (Transition (deployment doubledHash)) w₀ tr w ∧
    (∀ st ∈ tr, st.KeepsKey (deployment doubledHash)) ∧ (live tr).length = 2 ∧
    (∀ e ∈ live tr, Scalar.ofNat e.leaf ∈ (deployment doubledHash).imt.leaves w.tree.tree) ∧
    ¬ EnrolledOnce Doubled tr := by
  obtain ⟨w₀, w, hdeployed, hrun, htree⟩ := @exists_enrolled_twice _ Swap.doubledHash_ideal 2 2 (.inl rfl)
    (.inl rfl) _ _ (Nat.ne_of_gt (Nat.lt_add_of_pos_right (by decide))) (BnField.ofNat_toNat _)
    (Doubled.reduce_add _)
  refine ⟨w₀, w, _, hdeployed, hrun, ?_, rfl, ?_, ?_⟩
  · exact List.forall_mem_cons.mpr ⟨trivial, List.forall_mem_cons.mpr ⟨trivial,
      List.forall_mem_singleton.mpr rfl⟩⟩
  · rw [htree]
    have hleaf : ∀ secret, (Scalar.ofNat (Scalar.toNat (Sample.leaf doubledHash secret)) : Doubled) ∈
        [Sample.leaf doubledHash 3, Sample.leaf doubledHash 4] →
        Scalar.ofNat (Scalar.toNat (Sample.leaf doubledHash secret)) ∈ (deployment doubledHash).imt.leaves
            [Sample.leaf doubledHash 3, Sample.leaf doubledHash 4] := by
      intro secret hmem
      refine List.mem_filter.mpr ⟨hmem, decide_eq_true ?_⟩
      rw [BnField.ofNat_toNat]
      exact leaf_ne_zero Swap.doubledHash_ideal secret
    refine List.forall_mem_cons.mpr ⟨hleaf 4 ?_, List.forall_mem_cons.mpr ⟨hleaf 3 ?_,
      fun _ hmem => absurd hmem List.not_mem_nil⟩⟩
    · rw [BnField.ofNat_toNat]
      exact List.mem_cons_of_mem _ List.mem_cons_self
    · rw [BnField.ofNat_toNat]
      exact List.mem_cons_self
  · intro honce
    exact (List.rel_of_pairwise_cons honce List.mem_cons_self).1 ⟨rfl, rfl⟩

end Pocs.Identity
