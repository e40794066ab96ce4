import Pocs.Identity.Enrolments

/-! # Rotation of the MPC key

The generated verifier reverts on what it does not accept, and `enroll` never comes to its second call for the
previous key. `_requireOnCurve` reads coordinates modulo the base field, the verifier modulo the scalar field. -/

namespace Pocs.Identity

open Compliance (BnField Word Address merkleHash)
open Swap (IdealHash Doubled doubledHash)

/-! ## A verifier that reverts -/

inductive EnrollError where
  | verifier
  | identity (e : IdentityError)
  deriving DecidableEq, Repr

section
variable {F P T : Type} [BnField F]

/-- `BaseZKHonkVerifier.verify`, which returns `true` or reverts. -/
def Deployment.honkVerify (D : Deployment F P T) (proof : List UInt8) (publicInputs : List Word) :
    Except EnrollError Bool := do
  failIf (D.verifyEnrollment proof publicInputs = false) .verifier
  pure true

/-- The proof verifies for the key or, after a `false` in its time of grace, for the previous one. -/
def Enrollment.verifiesWith (verify : List UInt8 → List Word → Except EnrollError Bool) (enrollment : Enrollment)
    (blockNumber : Nat) (args : EnrollArgs) : Except EnrollError Bool := do
  let valid ← verify args.proof (args.publicInputs enrollment.mpcPublicKey)
  if valid = false ∧ blockNumber ≤ enrollment.keyGraceExpiry then
    verify args.proof (args.publicInputs enrollment.previousMPCKey)
  else pure valid

/-- `enroll` with a verifier that may revert. -/
def enrollWith (verify : List UInt8 → List Word → Except EnrollError Bool) (D : Deployment F P T)
    (sender : Address) (w : World T) (value : Nat) (args : EnrollArgs) : Except EnrollError (World T) := do
  failIf (w.enrollment.paused = true) (.identity .contractPaused)
  failIf (value ≠ w.enrollment.stakeAmount) (.identity .stakeAmountMismatch)
  let valid ← w.enrollment.verifiesWith verify w.blockNumber args
  failIf (valid = false) (.identity .invalidProof)
  let enrollment :=
    { w.enrollment with stakers := Function.update w.enrollment.stakers args.leaf sender }
  let tree ← mapErr .identity (w.tree.insertLeaf D D.enrollmentAddress args.leaf args.enrollmentNullifier)
  pure { w with enrollment, tree }

variable {D : Deployment F P T} {w w' w₀ : World T} {tr : List Step} {st : Step} {key key₀ : ECPoint}
  {sender : Address} {value : Nat} {args : EnrollArgs}

/-- Whatever the verifier, `enroll` goes on as it does after a successful verification. -/
theorem enrollWith_eq_ok {verify : List UInt8 → List Word → Except EnrollError Bool} :
    enrollWith verify D sender w value args = .ok w' ↔
      w.enrollment.paused = false ∧ value = w.enrollment.stakeAmount ∧
      w.enrollment.verifiesWith verify w.blockNumber args = .ok true ∧
      ∃ tree, w.tree.insertLeaf D D.enrollmentAddress args.leaf args.enrollmentNullifier = .ok tree ∧ { w with
          enrollment :=
            { w.enrollment with stakers := Function.update w.enrollment.stakers args.leaf sender }
          tree } = w' := by
  simp only [enrollWith, bind_eq_ok, failIf_eq_ok, mapErr_eq_ok, pure_eq_ok, exists_const, Bool.not_eq_true,
    Bool.not_eq_false, not_not]
  refine and_congr_right fun _ => and_congr_right fun _ => ⟨?_, fun h => ⟨true, h.1, rfl, h.2⟩⟩
  rintro ⟨_, hverifies, rfl, h⟩
  exact ⟨hverifies, h⟩

/-- The proof is valid for the key. -/
def Valid (D : Deployment F P T) (args : EnrollArgs) (key : ECPoint) : Prop :=
  D.verifyEnrollment args.proof (args.publicInputs key) = true

omit [BnField F] in
/-- On the generated verifier, the proof must be for the current key. -/
theorem verifiesWith_honkVerify {enrollment : Enrollment} {blockNumber : Nat} :
    enrollment.verifiesWith D.honkVerify blockNumber args = .ok true ↔ Valid D args enrollment.mpcPublicKey := by
  simp only [Enrollment.verifiesWith, Deployment.honkVerify, bind_eq_ok, failIf_eq_ok, pure_eq_ok, exists_const,
    Bool.not_eq_false]
  constructor
  · rintro ⟨_, ⟨hvalid, rfl⟩, -⟩
    exact hvalid
  · exact fun hvalid => ⟨true, ⟨hvalid, rfl⟩, rfl⟩

theorem enrollWith_honkVerify : enrollWith D.honkVerify D sender w value args = .ok w' ↔
    Valid D args w.enrollment.mpcPublicKey ∧ enroll D sender w value args = .ok w' := by
  rw [enrollWith_eq_ok, enroll_eq_ok, verifiesWith_honkVerify]
  constructor
  · rintro ⟨hrunning, hstake, hvalid, h⟩
    exact ⟨hvalid, hrunning, hstake, Enrollment.verifies_of_key hvalid, h⟩
  · rintro ⟨hvalid, hrunning, hstake, -, h⟩
    exact ⟨hrunning, hstake, hvalid, h⟩

/-! ## Keys of a run -/

/-- The step writes a key of `Enrollment`. -/
def Step.rotates : Step → Bool
  | .call _ (.proposeMPCPublicKey _ _) => true
  | .call _ .finalizeMPCPublicKey => true
  | .call _ .vetoPendingKey => true
  | _ => false

def Step.finalizes : Step → Bool
  | .call _ .finalizeMPCPublicKey => true
  | _ => false

/-- The latest rotation call proposed the key, for this block. -/
def Proposed (D : Deployment F P T) (w₀ : World T) (tr : List Step) (key : ECPoint) (activation : Nat) : Prop :=
  Latest Step.rotates (fun st before => ∃ sender w₁, st = .call sender (.proposeMPCPublicKey key.x key.y) ∧
    Run (Transition D) w₀ before w₁ ∧ w₁.blockNumber + timelockBlocks = activation) tr

/-- The key came into force after its time lock. -/
def Finalized (D : Deployment F P T) (w₀ : World T) (tr : List Step) (key : ECPoint) : Prop :=
  Latest Step.finalizes (fun _ before => ∃ w₁ activation, Run (Transition D) w₀ before w₁ ∧
    Proposed D w₀ before key activation ∧ activation ≤ w₁.blockNumber) tr

def Replaced (D : Deployment F P T) (w₀ : World T) (tr : List Step) (key : ECPoint) (block : Nat) : Prop :=
  Latest Step.finalizes (fun _ before => ∃ w₁, Run (Transition D) w₀ before w₁ ∧
    w₁.enrollment.mpcPublicKey = key ∧ w₁.blockNumber = block) tr

/-- The key was replaced at most `graceBlocks` ago. -/
def InGrace (D : Deployment F P T) (w₀ : World T) (tr : List Step) (w : World T) (key : ECPoint) : Prop :=
  ∃ block, Replaced D w₀ tr key block ∧ w.blockNumber ≤ block + graceBlocks

/-- The keys of `Enrollment` and their blocks. -/
structure SameKeys (e e' : Enrollment) : Prop where
  current : e'.mpcPublicKey = e.mpcPublicKey
  previous : e'.previousMPCKey = e.previousMPCKey
  expiry : e'.keyGraceExpiry = e.keyGraceExpiry
  pending : e'.pendingKey = e.pendingKey
  activation : e'.pendingKeyActivation = e.pendingKeyActivation

inductive KeyStep (w : World T) : Step → World T → Prop where
  | kept {st : Step} {w' : World T} (rotates : st.rotates = false) (same : SameKeys w.enrollment w'.enrollment) :
    KeyStep w st w'
  | proposed {sender : Address} {x y : Word} (free : w.enrollment.pendingKeyActivation = 0)
      (onCurve : requireOnCurve x y = .ok ()) :
    KeyStep w (.call sender (.proposeMPCPublicKey x y)) (w.setEnrollment { w.enrollment with
      pendingKey := ⟨x, y⟩, pendingKeyActivation := w.blockNumber + timelockBlocks })
  | finalized {sender : Address} (pending : w.enrollment.pendingKeyActivation ≠ 0)
      (unlocked : w.enrollment.pendingKeyActivation ≤ w.blockNumber) :
    KeyStep w (.call sender .finalizeMPCPublicKey) (w.setEnrollment { w.enrollment with
      previousMPCKey := w.enrollment.mpcPublicKey
      mpcPublicKey := w.enrollment.pendingKey
      keyGraceExpiry := w.blockNumber + graceBlocks
      pendingKey := ⟨0, 0⟩
      pendingKeyActivation := 0 })
  | vetoed {sender : Address} : KeyStep w (.call sender .vetoPendingKey) (w.setEnrollment { w.enrollment with
      pendingKey := ⟨0, 0⟩, pendingKeyActivation := 0 })

theorem Transition.keyStep (h : Transition D w st w') : KeyStep w st w' := by
  have hkept : ∀ {st : Step} {w' : World T}, st.rotates = false → w'.enrollment = w.enrollment →
      KeyStep w st w' := by
    intro st w' hrotates hsame
    refine .kept hrotates ?_
    rw [hsame]
    exact ⟨rfl, rfl, rfl, rfl, rfl⟩
  cases h with
  | reverted err => exact hkept rfl rfl
  | block le => exact hkept rfl rfl
  | @call sender call _ hne ok =>
    cases call with
    | enroll value args =>
      obtain ⟨-, -, -, tree, -, rfl⟩ := enroll_eq_ok.mp ok
      exact .kept rfl ⟨rfl, rfl, rfl, rfl, rfl⟩
    | unstake leaf siblingNodes received =>
      simp only [Call.run, unstake, bind_eq_ok, pure_eq_ok] at ok
      obtain ⟨_, _, _, _, tree, _, _, _, rfl⟩ := ok
      exact .kept rfl ⟨rfl, rfl, rfl, rfl, rfl⟩
    | proposeMPCPublicKey x y =>
      obtain ⟨enrollment, hpropose, rfl⟩ := map_eq_ok.mp ok
      simp only [Enrollment.proposeMPCPublicKey, bind_eq_ok, failIf_eq_ok, pure_eq_ok, Unique.exists_iff,
        PUnit.default_eq_unit, not_not] at hpropose
      obtain ⟨-, hfree, hcurve, rfl⟩ := hpropose
      exact .proposed hfree hcurve
    | finalizeMPCPublicKey =>
      obtain ⟨enrollment, hfinalize, rfl⟩ := map_eq_ok.mp ok
      simp only [Enrollment.finalizeMPCPublicKey, bind_eq_ok, failIf_eq_ok, pure_eq_ok, exists_const,
        Nat.not_lt] at hfinalize
      obtain ⟨-, hpending, hunlocked, rfl⟩ := hfinalize
      exact .finalized hpending hunlocked
    | vetoPendingKey =>
      obtain ⟨enrollment, hveto, rfl⟩ := map_eq_ok.mp ok
      simp only [Enrollment.vetoPendingKey, bind_eq_ok, failIf_eq_ok, pure_eq_ok, exists_const] at hveto
      obtain ⟨-, -, rfl⟩ := hveto
      exact .vetoed
    | pauseEnrollment paused =>
      obtain ⟨enrollment, hpause, rfl⟩ := map_eq_ok.mp ok
      simp only [Enrollment.setPaused, bind_eq_ok, pure_eq_ok] at hpause
      obtain ⟨_, _, rfl⟩ := hpause
      exact .kept rfl ⟨rfl, rfl, rfl, rfl, rfl⟩
    | insertLeaf | removeLeaf | addAuthorized | removeAuthorized | pauseTree =>
      obtain ⟨tree, _, rfl⟩ := map_eq_ok.mp ok
      exact hkept rfl rfl
    | verifyProof | pauseVerifier =>
      obtain ⟨verifier, _, rfl⟩ := map_eq_ok.mp ok
      exact hkept rfl rfl

theorem Transition.unique {w₁ w₂ : World T} (h₁ : Transition D w st w₁) (h₂ : Transition D w st w₂) : w₁ = w₂ := by
  cases h₁ with
  | call _ ok =>
    cases h₂ with
    | call _ ok' => exact Except.ok.inj (ok.symm.trans ok')
  | reverted _ =>
    cases h₂
    rfl
  | block _ =>
    cases h₂
    rfl

/-! ## The keys along a run -/

/-- The keys of `Enrollment` are those of the calls. -/
structure RotationInv (D : Deployment F P T) (key₀ : ECPoint) (w₀ : World T) (tr : List Step) (w : World T) :
    Prop where
  pending : w.enrollment.pendingKeyActivation ≠ 0 →
    Proposed D w₀ tr w.enrollment.pendingKey w.enrollment.pendingKeyActivation
  current : w.enrollment.mpcPublicKey = key₀ ∨ Finalized D w₀ tr w.enrollment.mpcPublicKey
  replaced : (w.enrollment.keyGraceExpiry = 0 ∧ w.enrollment.previousMPCKey = ⟨0, 0⟩ ∧
      ∀ key block, ¬ Replaced D w₀ tr key block) ∨
    ∃ replacement, w.enrollment.keyGraceExpiry = replacement + graceBlocks ∧
      ∀ key block, Replaced D w₀ tr key block ↔ w.enrollment.previousMPCKey = key ∧ replacement = block

theorem Step.finalizes_of_rotates (h : st.rotates = false) : st.finalizes = false := by
  cases st with
  | reverted => rfl
  | block number => rfl
  | call sender call =>
    cases call with
    | finalizeMPCPublicKey => exact h
    | _ => rfl

theorem RotationInv.deployed (h : Deployed D key₀ w₀) : RotationInv D key₀ w₀ [] w₀ := by
  cases h
  exact ⟨fun h => absurd rfl h, .inl rfl, .inl ⟨rfl, rfl, fun _ _ => not_latest_nil⟩⟩

/-- A step that finalizes no key leaves the current and the previous one. -/
theorem RotationInv.of_not_finalizes (inv : RotationInv D key₀ w₀ tr w) (hst : st.finalizes = false)
    (hcurrent : w'.enrollment.mpcPublicKey = w.enrollment.mpcPublicKey)
    (hprevious : w'.enrollment.previousMPCKey = w.enrollment.previousMPCKey)
    (hexpiry : w'.enrollment.keyGraceExpiry = w.enrollment.keyGraceExpiry)
    (hpending : w'.enrollment.pendingKeyActivation ≠ 0 →
      Proposed D w₀ (st :: tr) w'.enrollment.pendingKey w'.enrollment.pendingKeyActivation) :
    RotationInv D key₀ w₀ (st :: tr) w' := by
  refine ⟨hpending, ?_, ?_⟩
  · rw [hcurrent, Finalized, latest_cons_of_neg hst]
    exact inv.current
  · simp only [Replaced, latest_cons_of_neg hst, hprevious, hexpiry]
    exact inv.replaced

theorem RotationInv.step (inv : RotationInv D key₀ w₀ tr w) (hrun : Run (Transition D) w₀ tr w)
    (h : Transition D w st w') : RotationInv D key₀ w₀ (st :: tr) w' := by
  cases h.keyStep with
  | kept hrotates hsame =>
    refine inv.of_not_finalizes (Step.finalizes_of_rotates hrotates) hsame.current hsame.previous
      hsame.expiry ?_
    rw [hsame.pending, hsame.activation, Proposed, latest_cons_of_neg hrotates]
    exact inv.pending
  | @proposed sender x y hfree hcurve =>
    refine inv.of_not_finalizes rfl rfl rfl rfl fun _ => ?_
    rw [Proposed, latest_cons_of_pos rfl]
    exact ⟨sender, w, rfl, hrun, rfl⟩
  | vetoed => exact inv.of_not_finalizes rfl rfl rfl rfl fun h => absurd rfl h
  | finalized hpending hunlocked =>
    refine ⟨fun h => absurd rfl h, .inr ?_, .inr ⟨w.blockNumber, rfl, fun key block => ?_⟩⟩
    · rw [Finalized, latest_cons_of_pos rfl]
      exact ⟨w, _, hrun, inv.pending hpending, hunlocked⟩
    · rw [Replaced, latest_cons_of_pos rfl]
      constructor
      · rintro ⟨w₁, hrun₁, rfl, rfl⟩
        obtain rfl := hrun.unique hrun₁ fun _ _ _ _ => Transition.unique
        exact ⟨rfl, rfl⟩
      · rintro ⟨rfl, rfl⟩
        exact ⟨w, hrun, rfl, rfl⟩

theorem rotationInv_of_run (hdeployed : Deployed D key₀ w₀) (hrun : Run (Transition D) w₀ tr w) :
    RotationInv D key₀ w₀ tr w := by
  induction hrun with
  | nil => exact .deployed hdeployed
  | cons hrun hstep ih => exact ih.step hrun hstep

/-! ## Calls of `enroll` -/

/-- What `enroll` asks for besides the proof. -/
structure Enrollable (D : Deployment F P T) (w : World T) (value : Nat) (args : EnrollArgs) : Prop where
  running : w.enrollment.paused = false
  stake : value = w.enrollment.stakeAmount
  authorized : w.tree.authorized D.enrollmentAddress = true
  treeRunning : w.tree.paused = false
  freshLeaf : w.tree.insertedLeaves args.leaf = false
  freshNullifier : w.tree.usedEnrollmentNullifiers args.enrollmentNullifier = false
  canonical : BnField.canonical F args.leaf = true
  inserts : ∃ imt, D.imt.insert (Scalar.ofNat args.leaf) w.tree.tree = .ok imt

theorem Enrollable.exists_enroll_iff (h : Enrollable D w value args) :
    (∃ w', enroll D sender w value args = .ok w') ↔ w.enrollment.verifies D w.blockNumber args = true := by
  obtain ⟨imt, himt⟩ := h.inserts
  have hinsert := insertLeaf_eq_ok.mpr ⟨h.authorized, h.treeRunning, h.freshLeaf, h.freshNullifier,
    h.canonical, imt, himt, rfl⟩
  constructor
  · rintro ⟨w', henroll⟩
    exact (enroll_eq_ok.mp henroll).2.2.1
  · exact fun hverifies => ⟨_, enroll_eq_ok.mpr ⟨h.running, h.stake, hverifies, _, hinsert, rfl⟩⟩

theorem Enrollable.exists_enrollWith_iff (h : Enrollable D w value args) :
    (∃ w', enrollWith D.honkVerify D sender w value args = .ok w') ↔
      Valid D args w.enrollment.mpcPublicKey := by
  simp only [enrollWith_honkVerify, exists_and_left, h.exists_enroll_iff]
  exact and_iff_left_of_imp fun hvalid => Enrollment.verifies_of_key hvalid

/-- The call succeeds exactly when its proof is for the current key or for one in its time of grace. -/
def AcceptsKeys (D : Deployment F P T) (w₀ : World T) (tr : List Step) (w : World T) (sender : Address)
    (value : Nat) (args : EnrollArgs) : Prop :=
  (∃ w', enrollWith D.honkVerify D sender w value args = .ok w') ↔
    Valid D args w.enrollment.mpcPublicKey ∨ ∃ key, InGrace D w₀ tr w key ∧ Valid D args key

theorem acceptsKeys_iff (h : Enrollable D w value args) : AcceptsKeys D w₀ tr w sender value args ↔
      ((∃ key, InGrace D w₀ tr w key ∧ Valid D args key) → Valid D args w.enrollment.mpcPublicKey) := by
  rw [AcceptsKeys, h.exists_enrollWith_iff]
  constructor
  · exact fun hiff hgrace => hiff.mpr (.inr hgrace)
  · exact fun himp => ⟨.inl, fun hvalid => hvalid.elim id himp⟩

/-! ## Keys that can be enrolled under -/

/-- The circuit reads the coordinates of the key. -/
def Readable (F : Type) [BnField F] (key : ECPoint) : Prop :=
  Scalar.toNat (Scalar.ofNat key.x : F) = key.x ∧ Scalar.toNat (Scalar.ofNat key.y : F) = key.y

theorem readable_iff : Readable F key ↔
    BnField.canonical F key.x = true ∧ BnField.canonical F key.y = true := by
  constructor
  · rintro ⟨hx, hy⟩
    have hcanonicalX := BnField.canonical_toNat (Scalar.ofNat key.x : F)
    have hcanonicalY := BnField.canonical_toNat (Scalar.ofNat key.y : F)
    rw [hx] at hcanonicalX
    rw [hy] at hcanonicalY
    exact ⟨hcanonicalX, hcanonicalY⟩
  · rintro ⟨hx, hy⟩
    exact ⟨BnField.toNat_ofNat_of_canonical hx, BnField.toNat_ofNat_of_canonical hy⟩

/-- Everyone has a proof of some enrollment under the key. -/
def CanEnroll (D : Deployment F P T) (key : ECPoint) : Prop :=
  ∀ (secret : F) (attrs : Attributes F), ∃ args : EnrollArgs, Valid D args key ∧
    args.leaf = Scalar.toNat (hashLeaf D.hash secret (hashAttr D.hash (Scalar.ofNat 1) attrs))

/-- The equation of `_requireOnCurve` on a pair of coordinates. -/
def OnCurve (x y : Nat) : Prop := y * y % bn254P = (x * x % bn254P * x % bn254P + 3) % bn254P

theorem requireOnCurve_eq_ok {x y : Word} : requireOnCurve x y = .ok () ↔ OnCurve x y := by
  rw [requireOnCurve, failIf_eq_ok, not_not, OnCurve]

variable [AddCommGroup P]

/-- The curve of BN254: every pair of scalars on it is a point, of a group that the generator generates and
whose order is that of the scalars. -/
structure Bn254.Complete (E : Bn254 F P) : Prop where
  point_isSome : ∀ x y : F, (E.point x y).isSome ↔ OnCurve (Scalar.toNat x) (Scalar.toNat y)
  generator_point : ∃ x y, E.point x y = some E.generator
  generates : ∀ p : P, ∃ n : Nat, p = n • E.generator
  order : ∃ n, 0 < n ∧ (∀ m < n, BnField.canonical F m = true) ∧ ∀ p : P, n • p = 0

/-- There is a transcript for the generator as the identity point. -/
theorem Bn254.Complete.responds {E : Bn254 F P} (hE : E.Complete) (pk : P) : ∃ z c : F,
    c = E.challenge [E.generator, pk, E.generator, pk, linearExpression z c E.generator pk,
      linearExpression z c E.generator pk] := by
  obtain ⟨s, rfl⟩ := hE.generates pk
  obtain ⟨n, hn, hcanonical, horder⟩ := hE.order
  let c := E.challenge [E.generator, s • E.generator, E.generator, s • E.generator, E.generator, E.generator]
  -- the response to `c` of a commitment to one
  let z := (1 + (n - 1) * (s * Scalar.toNat c)) % n
  have hz : Scalar.toNat (Scalar.ofNat z : F) = z :=
    BnField.toNat_ofNat_of_canonical (hcanonical _ (Nat.mod_lt _ hn))
  have hcommitment : linearExpression (Scalar.ofNat z) c E.generator (s • E.generator) = E.generator := by
    rw [linearExpression, hz, ← nsmul_eq_mod_nsmul _ (horder _), add_zero, ← mul_nsmul', ← add_nsmul, add_assoc,
      Nat.mul_comm (Scalar.toNat c) s, ← Nat.succ_mul, Nat.succ_eq_add_one, Nat.sub_add_cancel hn, add_nsmul,
      mul_nsmul', horder, add_zero, one_nsmul]
  exact ⟨Scalar.ofNat z, c, by rw [hcommitment]⟩

/-- A point on the curve is enrolled under, as an identity point that is the generator. -/
theorem canEnroll_of_readable (hV : D.Verifies) (hE : D.curve.Complete) (hcurve : OnCurve key.x key.y)
    (h : Readable F key) : CanEnroll D key := by
  intro secret attrs
  obtain ⟨pk, hpk⟩ := Option.isSome_iff_exists.mp
    ((hE.point_isSome (Scalar.ofNat key.x) (Scalar.ofNat key.y)).mpr (by rw [h.1, h.2]; exact hcurve))
  obtain ⟨gx, gy, hg⟩ := hE.generator_point
  obtain ⟨z, c, hc⟩ := hE.responds pk
  let args : EnrollArgs := {
    leaf := Scalar.toNat (hashLeaf D.hash secret (hashAttr D.hash (Scalar.ofNat 1) attrs))
    enrollmentNullifier := Scalar.toNat
      (hashEnrollmentNullifier D.hash (Scalar.ofNat key.x) (Scalar.ofNat key.y))
    gIdX := Scalar.toNat gx
    gIdY := Scalar.toNat gy
    proof := [] }
  let wit : EnrollmentWitness F :=
    ⟨secret, Scalar.ofNat 1, attrs, Scalar.ofNat key.x, Scalar.ofNat key.y, c, z⟩
  have hproves : Enrolls D args key wit := by
    simp only [Enrolls, enrollmentMain, verifyChaumPedersen, bind_eq_ok, Swap.noirAssert_eq_ok, okOr_eq_ok,
      exists_const]
    refine ⟨rfl, ⟨pk, hpk, D.curve.generator, ?_, pk, hpk, hc⟩, BnField.ofNat_toNat _, BnField.ofNat_toNat _⟩
    rw [← hg]
    exact congrArg₂ D.curve.point (BnField.ofNat_toNat gx) (BnField.ofNat_toNat gy)
  obtain ⟨proof, hvalid⟩ := (hV.enrollment args key).mpr ⟨wit, hproves⟩
  exact ⟨{ args with proof }, hvalid, rfl⟩

omit [BnField F] [AddCommGroup P] in
theorem Enrollment.proposeMPCPublicKey_of_onCurve (enrollment : Enrollment) {x y : Word} (blockNumber : Nat)
    (hfree : enrollment.pendingKeyActivation = 0) (hcurve : OnCurve x y) :
    enrollment.proposeMPCPublicKey blockNumber enrollment.multisig x y = .ok { enrollment with
      pendingKey := ⟨x, y⟩, pendingKeyActivation := blockNumber + timelockBlocks } := by
  simp only [Enrollment.proposeMPCPublicKey, requireOnCurve_eq_ok.mpr hcurve, failIf_neg (not_not.mpr rfl),
    failIf_neg (not_not.mpr hfree)]
  rfl

omit [BnField F] [AddCommGroup P] in
theorem Enrollment.finalizeMPCPublicKey_of_unlocked (enrollment : Enrollment) (blockNumber : Nat)
    (hpending : enrollment.pendingKeyActivation ≠ 0) (hunlocked : enrollment.pendingKeyActivation ≤ blockNumber) :
    enrollment.finalizeMPCPublicKey blockNumber enrollment.multisig = .ok { enrollment with
      previousMPCKey := enrollment.mpcPublicKey
      mpcPublicKey := enrollment.pendingKey
      keyGraceExpiry := blockNumber + graceBlocks
      pendingKey := ⟨0, 0⟩
      pendingKeyActivation := 0 } := by
  simp only [Enrollment.finalizeMPCPublicKey, failIf_neg (not_not.mpr rfl), failIf_neg hpending,
    failIf_neg (Nat.not_lt.mpr hunlocked)]
  rfl

/-- In every state of a run: a call is decided as it should be unless its proof is for a key in its time of grace
and not for the current one, the current key has passed its time lock, and a key accepted for the next rotation
can be enrolled under if and only if its coordinates are canonical. -/
theorem rotation_iff (hV : D.Verifies) (hE : D.curve.Complete) (hdeployed : Deployed D key₀ w₀)
    (hrun : Run (Transition D) w₀ tr w) :
    (∀ sender value args, Enrollable D w value args → (AcceptsKeys D w₀ tr w sender value args ↔
      ((∃ key, InGrace D w₀ tr w key ∧ Valid D args key) → Valid D args w.enrollment.mpcPublicKey))) ∧
    (w.enrollment.mpcPublicKey = key₀ ∨ Finalized D w₀ tr w.enrollment.mpcPublicKey) ∧
    ∀ sender x y enrollment, w.enrollment.proposeMPCPublicKey w.blockNumber sender x y = .ok enrollment →
      (Readable F ⟨x, y⟩ ∧ CanEnroll D ⟨x, y⟩ ↔
        BnField.canonical F x = true ∧ BnField.canonical F y = true) := by
  refine ⟨fun sender value args h => acceptsKeys_iff h, (rotationInv_of_run hdeployed hrun).current, ?_⟩
  intro sender x y enrollment hpropose
  simp only [Enrollment.proposeMPCPublicKey, bind_eq_ok, failIf_eq_ok, Unique.exists_iff,
    PUnit.default_eq_unit] at hpropose
  obtain ⟨-, -, hcurve, -⟩ := hpropose
  have hreadable := @readable_iff F _ ⟨x, y⟩
  constructor
  · exact fun h => hreadable.mp h.1
  · intro h
    exact ⟨hreadable.mpr h, canEnroll_of_readable hV hE (requireOnCurve_eq_ok.mp hcurve) (hreadable.mpr h)⟩

end

/-! ## A rotation -/

namespace Sample

def multiple (k : Fin 7) : ZMod 7 := k

/-- A curve with the points of the equation and two multiples of its generator `(1, 2)`. -/
def flatBn254 (F : Type) [BnField F] : Bn254 F (ZMod 7) where
  generator := multiple ⟨1, by decide⟩
  point x y :=
    if Scalar.toNat y * Scalar.toNat y % bn254P =
        (Scalar.toNat x * Scalar.toNat x % bn254P * Scalar.toNat x % bn254P + 3) % bn254P then
      some (if x = Scalar.ofNat 1 ∧ y = Scalar.ofNat 2 then multiple ⟨1, by decide⟩ else multiple ⟨2, by decide⟩)
    else none
  challenge _ := 0

theorem flatBn254_complete {F : Type} [BnField F] : (flatBn254 F).Complete where
  point_isSome x y := by
    simp only [flatBn254, OnCurve]
    split
    · next hcurve => exact iff_of_true rfl hcurve
    · next hcurve => exact iff_of_false Bool.false_ne_true hcurve
  generator_point := by
    refine ⟨Scalar.ofNat 1, Scalar.ofNat 2, ?_⟩
    simp only [flatBn254]
    rw [Scalar.toNat_ofNat (by decide), Scalar.toNat_ofNat (by decide), if_pos (by decide),
      if_pos ⟨trivial, trivial⟩]
  generates p := ⟨p.val, ((nsmul_one p.val).trans (ZMod.natCast_zmod_val p)).symm⟩
  order := ⟨7, by decide, fun m hm => BnField.canonical_of_lt (hm.trans (by decide)), by decide⟩

/-- The calls of a rotation to `(1, 2)`, with a tree that `Enrollment` may write. -/
def rotation : List Step :=
  [.call 1 .finalizeMPCPublicKey, .block timelockBlocks, .call 1 (.proposeMPCPublicKey 1 2),
    .call 5 (.addAuthorized 9)]

section
variable {F P : Type} [BnField F] (D : Deployment F P (List F))

def rotated : World (List F) where
  blockNumber := timelockBlocks
  enrollment := { Enrollment.new ⟨1, 2⟩ 1 2 0 with
    previousMPCKey := ⟨1, 1⟩, keyGraceExpiry := timelockBlocks + graceBlocks }
  tree := { IdentityTree.new D 5 with authorized := Function.update (fun _ => false) 9 true }
  verifier := ⟨5, false, fun _ => false⟩

theorem exists_rotated (hD : D.enrollmentAddress = 9) :
    ∃ w₀, Deployed D ⟨1, 1⟩ w₀ ∧ Run (Transition D) w₀ rotation (rotated D) := by
  have hone : (1 : Address) ≠ D.enrollmentAddress := by
    rw [hD]
    decide
  have hfive : (5 : Address) ≠ D.enrollmentAddress := by
    rw [hD]
    decide
  let w₀ : World (List F) := ⟨0, .new ⟨1, 1⟩ 1 2 0, .new D 5, ⟨5, false, fun _ => false⟩⟩
  have hcurve : OnCurve 1 2 := rfl
  have hpropose := (Enrollment.new ⟨1, 1⟩ 1 2 0).proposeMPCPublicKey_of_onCurve 0 rfl hcurve
  have hfinalize := Enrollment.finalizeMPCPublicKey_of_unlocked
    { Enrollment.new ⟨1, 1⟩ 1 2 0 with pendingKey := ⟨1, 2⟩, pendingKeyActivation := 0 + timelockBlocks }
    timelockBlocks (by decide) (by decide)
  refine ⟨w₀, .mk, ?_⟩
  exact .cons (.cons (.cons (.cons .nil (.call hfive rfl)) (.call hone (map_eq_ok.mpr ⟨_, hpropose, rfl⟩)))
    (.block (Nat.zero_le _))) (.call hone (map_eq_ok.mpr ⟨_, hfinalize, rfl⟩))

/-- The key of the constructor is in its time of grace. -/
theorem inGrace_rotated {w₀ : World (List F)} (hdeployed : Deployed D ⟨1, 1⟩ w₀)
    (hrun : Run (Transition D) w₀ rotation (rotated D)) : InGrace D w₀ rotation (rotated D) ⟨1, 1⟩ := by
  rcases (rotationInv_of_run hdeployed hrun).replaced with ⟨-, hprevious, -⟩ | ⟨replacement, hexpiry, hreplaced⟩
  · exact absurd (congrArg ECPoint.x hprevious) Nat.one_ne_zero
  · have hreplacement : timelockBlocks = replacement := Nat.add_right_cancel hexpiry
    exact ⟨replacement, (hreplaced _ _).mpr ⟨rfl, rfl⟩, hreplacement ▸ Nat.le_add_right _ _⟩

end

variable {hash : List Doubled → Doubled} (H : IdealHash hash)
include H

/-- The transcript that proves the identity point `2` under the key `1` proves it under no other key. -/
theorem not_valid_rotated {enrollmentNullifier : Word}
    (hn : (Scalar.ofNat enrollmentNullifier : Doubled) = pointNullifier hash 2) :
    ¬ Valid (deployment hash) (enrollArgs hash 3 2 enrollmentNullifier) ⟨1, 2⟩ := by
  intro hvalid
  obtain ⟨wit, hmain⟩ := (Deployment.ofCircuits_verifies.enrollment _ _).mp ⟨_, hvalid⟩
  simp only [Enrolls, enrollmentMain, verifyChaumPedersen, bind_eq_ok, Swap.noirAssert_eq_ok, okOr_eq_ok,
    exists_const] at hmain
  obtain ⟨-, ⟨pk, hpk, gId, hgId, q, hq, hc⟩, hnullifier, -⟩ := hmain
  have hcoordinates := H.inj (by simp) (by simp) (by simp) (by simp) (hn.symm.trans hnullifier)
  simp only [List.cons.injEq, and_true, true_and] at hcoordinates
  rw [← hcoordinates.1, ← hcoordinates.2] at hq
  have hkey : (cyclicBn254 Doubled).point (Scalar.ofNat 1) (Scalar.ofNat 2) = some 6 := by decide
  have hpoint : (cyclicBn254 Doubled).point (Scalar.ofNat 2) (Scalar.ofNat 1) = some 2 := by decide
  obtain rfl : pk = 6 := Option.some.inj (hpk.symm.trans hkey)
  obtain rfl : gId = 2 := Option.some.inj (hgId.symm.trans hpoint)
  obtain rfl : q = 2 := Option.some.inj (hq.symm.trans hpoint)
  obtain ⟨s, hs, hs'⟩ := cyclicBn254_sound.dleq hc
  -- the logarithm of the key is another one
  have hgenerator : (cyclicBn254 Doubled).generator = 1 := rfl
  rw [hgenerator, nsmul_one] at hs
  rw [nsmul_eq_mul, ← hs] at hs'
  exact absurd hs' (by decide)

theorem enrollable_rotated : Enrollable (deployment hash) (rotated (deployment hash)) 0
    (enrollArgs hash 3 2 (Scalar.toNat (pointNullifier hash 2))) where
  running := rfl
  stake := rfl
  authorized := rfl
  treeRunning := rfl
  freshLeaf := rfl
  freshNullifier := rfl
  canonical := BnField.canonical_toNat _
  inserts := ⟨_, insert_leaf H List.not_mem_nil⟩

end Sample

open Sample

/-- The new key of a rotation has passed its time lock. -/
theorem rotation_iff_sample : ∃ (D : Deployment Doubled (ZMod 7) (List Doubled)) (w₀ w : World (List Doubled)),
    Deployed D ⟨1, 1⟩ w₀ ∧ Run (Transition D) w₀ rotation w ∧ w.enrollment.mpcPublicKey = ⟨1, 2⟩ ∧
    Finalized D w₀ rotation ⟨1, 2⟩ := by
  let D : Deployment Doubled (ZMod 7) (List Doubled) :=
    .ofCircuits doubledHash (flatBn254 Doubled) (slotTree (merkleHash doubledHash)) 9
  obtain ⟨w₀, hdeployed, hrun⟩ := exists_rotated D rfl
  obtain ⟨-, hcurrent, -⟩ :=
    rotation_iff (D := D) Deployment.ofCircuits_verifies flatBn254_complete hdeployed hrun
  exact ⟨D, w₀, _, hdeployed, hrun, rfl, hcurrent.resolve_left (show (⟨1, 2⟩ : ECPoint) ≠ ⟨1, 1⟩ by decide)⟩

/-- After a rotation, a proof for the replaced key in its time of grace is refused, and the key `(1 + p, 2)` is
accepted as the next one, though the circuit reads another point. -/
theorem grace_refused : ∃ w₀ w args enrollment, Deployed (deployment doubledHash) ⟨1, 1⟩ w₀ ∧
    Run (Transition (deployment doubledHash)) w₀ rotation w ∧
    Enrollable (deployment doubledHash) w 0 args ∧
    ¬ AcceptsKeys (deployment doubledHash) w₀ rotation w 6 0 args ∧
    w.enrollment.proposeMPCPublicKey w.blockNumber 1 (1 + bn254P) 2 = .ok enrollment ∧
    ¬ Readable Doubled ⟨1 + bn254P, 2⟩ := by
  have hH := Swap.doubledHash_ideal
  obtain ⟨w₀, hdeployed, hrun⟩ := exists_rotated (deployment doubledHash) rfl
  have henrollable := enrollable_rotated hH
  have hn := BnField.ofNat_toNat (pointNullifier doubledHash 2)
  have hproof := @Deployment.verifyEnrollment_ofCircuits _ _ _ _ _ doubledHash (cyclicBn254 Doubled)
    (slotTree (merkleHash doubledHash)) 9
    (enrollArgs doubledHash 3 2 (Scalar.toNat (pointNullifier doubledHash 2))) ⟨1, 1⟩ []
  have hvalid := hproof.mpr ⟨_, enrolls (.inl rfl) hn⟩
  have hcurve : OnCurve (1 + bn254P) 2 := rfl
  refine ⟨w₀, _, _, _, hdeployed, hrun, henrollable, ?_,
    Enrollment.proposeMPCPublicKey_of_onCurve _ _ rfl hcurve, ?_⟩
  · rw [acceptsKeys_iff henrollable]
    intro haccepts
    exact not_valid_rotated hH hn (haccepts ⟨⟨1, 1⟩, inGrace_rotated _ hdeployed hrun, hvalid⟩)
  · rw [readable_iff]
    intro hcanonical
    exact absurd hcanonical.1 (by decide)

end Pocs.Identity
