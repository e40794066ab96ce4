import Pocs.Identity.Bn254

/-! # The identity point of a user

`hash_to_curve` of `voprf.rs` and the `link_proof` circuit. The square root of the base field and Poseidon are
parameters. -/

namespace Pocs.Identity

open Civic (Fr)
open Swap (noirAssert noirAssert_eq_ok)

/-! ## `voprf.rs` -/

def domainLink : Fr := Scalar.ofNat 7
def domainH2c : Fr := Scalar.ofNat 8

def hashLink (hash : List Fr → Fr) (userIdHash salt : Fr) : Fr := hash [domainLink, userIdHash, salt]
def hashH2c (hash : List Fr → Fr) (userIdHash : Fr) : Fr := hash [domainH2c, userIdHash]

/-- `SQRT_NEG3` and `C1`. -/
def svdwSqrtNeg3 : Fq := 21888242871839275217838484774961031245859103671646299620740479376884814904650
def svdwC1 : Fq := 21888242871839275220042445260109153167277707414472061641714758635765020556616

def inverse {K : Type} [Field K] [DecidableEq K] (x : K) : Option K := if x = 0 then none else some x⁻¹

def unwrap {α : Type} (x : Option α) : Except String α := okOr x "called `Option::unwrap()` on a `None` value"

def frToFq (fr : Fr) : Fq := (fr.val : Fq)

/-- The even one of the two roots. -/
def canonicalizeY (y : Fq) : Fq := if y.val % 2 = 1 then -y else y

def svdwCandidates (t : Fq) : Except String (List Fq) := do
  let t2 := t * t
  let denom := 4 + t2
  let w := svdwSqrtNeg3 * t * (← unwrap (inverse denom))
  let x1 := svdwC1 - t * w
  let x2 := -(1 + x1)
  let w2 := w * w
  let x3 := 1 + (← unwrap (inverse w2))
  pure [x1, x2, x3]

structure SvdwResult where
  point : G1
  index : Nat
  w : Fq
  invW2 : Fq
  nonQrWitnesses : List Fq

section
variable (sqrt : Fq → Option Fq) (hash : List Fr → Fr)

/-- The roots of the negated right-hand sides, in an array of two. -/
def nonQrWitnesses (earlier : List Fq) : Except String (List Fq) := do
  let roots ← earlier.mapM fun x => okOr (sqrt (-(x * x * x + 3))) "non-QR * (-1) must be QR"
  pure (roots ++ List.replicate (2 - roots.length) 0)

/-- The loop over the candidates from the `i`-th on. -/
def selectCandidate (candidates : List Fq) (w invW2 : Fq) : Nat → List Fq → Except String SvdwResult
  | _, [] => .error "internal error: entered unreachable code: SVDW always produces at least one valid candidate"
  | i, x :: xs =>
    match sqrt (x * x * x + 3) with
    | none => selectCandidate candidates w invW2 (i + 1) xs
    | some y => do
      let nonQrWitnesses ← nonQrWitnesses sqrt (candidates.take i)
      let yFinal := canonicalizeY y
      let point ← okOr (G1.ofCoordinates x yFinal) "hash_to_curve: point not on curve"
      require (point ≠ 0) "hash_to_curve: point is identity"
      pure ⟨point, i, w, invW2, nonQrWitnesses⟩

def hashToCurve (userIdHash : Fr) : Except String SvdwResult := do
  let tFr := hashH2c hash userIdHash
  require (tFr ≠ 0) "hash_to_curve: t must be nonzero"
  let t := frToFq tFr
  let t2 := t * t
  let denom := 4 + t2
  let w := svdwSqrtNeg3 * t * (← unwrap (inverse denom))
  let w2 := w * w
  let invW2 ← unwrap (inverse w2)
  let candidates ← svdwCandidates t
  selectCandidate sqrt candidates w invW2 0 candidates

end

/-! ## The `link_proof` circuit -/

structure LinkPublic where
  identityCommitment : Fr
  blindedRequestX : Fr
  blindedRequestY : Fr
  gIdX : Fr
  gIdY : Fr

structure LinkWitness where
  userIdHash : Fr
  salt : Fr
  r : Fr
  svdwIndex : UInt8
  svdwW : Fr
  svdwInvW2 : Fr
  nonQrWitness0 : Fr
  nonQrWitness1 : Fr

/-- The candidate of the index is the coordinate. -/
def assertSelected (svdwIndex : UInt8) (x1 x2 x3 gIdFqX : Fq) : Except String Unit :=
  if svdwIndex = 0 then
    require (x1 = gIdFqX) "candidate x1 mismatch"
  else if svdwIndex = 1 then
    require (x2 = gIdFqX) "candidate x2 mismatch"
  else
    require (x3 = gIdFqX) "candidate x3 mismatch"

def linkMain (hash : List Fr → Fr) (pub : LinkPublic) (wit : LinkWitness) : Except String Unit := do
  let computedCommitment := hashLink hash wit.userIdHash wit.salt
  noirAssert (pub.identityCommitment = computedCommitment)
  let tField := hashH2c hash wit.userIdHash
  require (tField ≠ 0) "t must be nonzero"
  let t := frToFq tField
  -- the division witness and the inverse
  let w := frToFq wit.svdwW
  let t2 := t * t
  let denom := 4 + t2
  require (w * denom = svdwSqrtNeg3 * t) "w verification failed"
  let invW2 := frToFq wit.svdwInvW2
  require (invW2 * w * w = 1) "inv_w2 verification failed"
  let x1 := svdwC1 - t * w
  let x2 := 0 - 1 - x1
  let x3 := 1 + invW2
  -- the selected candidate
  let gIdFqX := frToFq pub.gIdX
  require (wit.svdwIndex < 3) "svdw_index must be 0, 1, or 2"
  assertSelected wit.svdwIndex x1 x2 x3 gIdFqX
  -- the candidates before it
  let w0 := frToFq wit.nonQrWitness0
  onlyIf (0 < wit.svdwIndex) (require (w0 * w0 = 0 - (x1 * x1 * x1 + 3)) "non-QR witness 0 failed")
  let w1 := frToFq wit.nonQrWitness1
  onlyIf (1 < wit.svdwIndex) (require (w1 * w1 = 0 - (x2 * x2 * x2 + 3)) "non-QR witness 1 failed")
  require (pub.gIdY.val % 2 = 0) "g_id_y must have even parity"
  let gId ← okOr (G1.ofCoordinates gIdFqX (frToFq pub.gIdY)) "Failed assertion"
  require (wit.r ≠ 0) "blinding factor r must not be zero"
  let computedBlinded := wit.r.val • gId
  let blindedRequest ← okOr
    (G1.ofCoordinates (frToFq pub.blindedRequestX) (frToFq pub.blindedRequestY)) "Failed assertion"
  require (computedBlinded = blindedRequest) "r * G_id != blinded_request"

/-! ## Scalars in the base field -/

theorem val_frToFq (fr : Fr) : (frToFq fr).val = fr.val :=
  ZMod.val_cast_of_lt (fr.isLt.trans (by decide))

theorem frToFq_inj {a b : Fr} (h : frToFq a = frToFq b) : a = b := by
  have hval := congrArg ZMod.val h
  rw [val_frToFq, val_frToFq] at hval
  exact PrimeField.ext_val hval

theorem frToFq_ne_zero {a : Fr} (h : a ≠ 0) : frToFq a ≠ 0 :=
  fun hzero => h (frToFq_inj (hzero.trans Nat.cast_zero.symm))

/-- Of a number and its negative, one is even. -/
theorem val_neg_mod_two {y : Fq} (hy : y ≠ 0) : (-y).val % 2 = 1 ↔ y.val % 2 = 0 := by
  have hlt := ZMod.val_lt y
  have hodd : bn254P % 2 = 1 := rfl
  rw [ZMod.neg_val, if_neg hy]
  omega

theorem canonicalizeY_even {y : Fq} (hy : y ≠ 0) : (canonicalizeY y).val % 2 = 0 := by
  rw [canonicalizeY]
  split
  · next hodd =>
    rw [← val_neg_mod_two (neg_ne_zero.mpr hy), neg_neg]
    exact hodd
  · next heven => exact Nat.mod_two_ne_one.mp heven

theorem canonicalizeY_mul_self (y : Fq) : canonicalizeY y * canonicalizeY y = y * y := by
  rw [canonicalizeY]
  split
  · exact neg_mul_neg y y
  · rfl

theorem curve_of_coordinates {p : G1} {x y : Fq} (h : p.coordinates = some (x, y)) : y * y = SvdW.rhs 3 x := by
  cases p with
  | zero => cases h
  | some x' y' hp =>
    cases h
    exact G1.equation hp

/-- A square has one root of each parity. -/
theorem root_unique {y y' : Fq} (h : y * y = y' * y') (hparity : y.val % 2 = y'.val % 2) : y = y' := by
  rcases mul_self_eq_mul_self_iff.mp h with heq | hneg
  · exact heq
  · by_cases hy' : y' = 0
    · rw [hneg, hy', neg_zero]
    · have hodd := val_neg_mod_two hy'
      rw [← hneg] at hodd
      omega

/-! ## The map -/

/-- `Fq::sqrt` returns a root, and does so for every square. -/
structure SquareRoots (sqrt : Fq → Option Fq) : Prop where
  mul_self : ∀ {a y}, sqrt a = some y → y * y = a
  isSome : ∀ {a}, IsSquare a → ∃ y, sqrt a = some y

theorem svdwC1_root : svdwC1 * svdwC1 + svdwC1 + 1 = 0 := by
  have h : ((21888242871839275220042445260109153167277707414472061641714758635765020556616 *
      21888242871839275220042445260109153167277707414472061641714758635765020556616 +
      21888242871839275220042445260109153167277707414472061641714758635765020556616 + 1 : Nat) : Fq) = 0 := by
    rw [ZMod.natCast_eq_zero_iff]
    decide
  push_cast at h
  exact h

theorem svdwSqrtNeg3_eq : svdwSqrtNeg3 = 2 * svdwC1 + 1 := by
  have h : ((21888242871839275217838484774961031245859103671646299620740479376884814904650 : Nat) : Fq) =
      ((2 * 21888242871839275220042445260109153167277707414472061641714758635765020556616 + 1 : Nat) : Fq) := by
    rw [ZMod.natCast_eq_natCast_iff']
    decide
  push_cast at h
  exact h

theorem svdwSqrtNeg3_ne_zero : svdwSqrtNeg3 ≠ 0 :=
  natCast_ne_zero (n := 21888242871839275217838484774961031245859103671646299620740479376884814904650)
    (by decide) (by decide)

/-- Minus four is no square. -/
theorem denom_ne_zero (t : Fq) : 4 + t * t ≠ 0 := by
  intro hzero
  apply not_isSquare_neg_one
  have htwo : (2 : Fq) ≠ 0 := natCast_ne_zero (show 2 ≠ 0 by decide) (by decide)
  refine ⟨t / 2, ?_⟩
  field_simp
  linear_combination -hzero

def svdwW (t : Fq) : Fq := svdwSqrtNeg3 * t * (4 + t * t)⁻¹

theorem svdwW_ne_zero {t : Fq} (ht : t ≠ 0) : svdwW t ≠ 0 :=
  mul_ne_zero (mul_ne_zero svdwSqrtNeg3_ne_zero ht) (inv_ne_zero (denom_ne_zero t))

/-- The quotient and its inverse square are determined by their equations. -/
theorem eq_svdwW {t w : Fq} (h : w * (4 + t * t) = svdwSqrtNeg3 * t) : w = svdwW t :=
  (eq_mul_inv_iff_mul_eq₀ (denom_ne_zero t)).mpr h

theorem solution {t : Fq} (ht : t ≠ 0) : SvdW.Solution 3 svdwC1 t (svdwW t) (svdwW t * svdwW t)⁻¹ where
  root := svdwC1_root
  division := by
    rw [← svdwSqrtNeg3_eq, svdwW]
    have hfour : (1 : Fq) + 3 + t * t = 4 + t * t := by ring
    rw [hfour, inv_mul_cancel_right₀ (denom_ne_zero t)]
  inverse := inv_mul_cancel₀ (mul_self_ne_zero.mpr (svdwW_ne_zero ht))

def candidates (t : Fq) : List Fq := SvdW.candidates svdwC1 t (svdwW t) (svdwW t * svdwW t)⁻¹

theorem exists_first (t : Fq) (ht : t ≠ 0) : ∃ earlier x, SvdW.First 3 (candidates t) earlier x := by
  have hfour : (1 : Fq) + 3 ≠ 0 := by
    have h := natCast_ne_zero (show 4 ≠ 0 by decide) (by decide)
    norm_num at h ⊢
    exact h
  exact SvdW.exists_first ((solution ht).exists_isSquare hfour)

theorem inverse_of_ne_zero {K : Type} [Field K] [DecidableEq K] {x : K} (h : x ≠ 0) :
    unwrap (inverse x) = .ok x⁻¹ := by
  rw [inverse, if_neg h]
  rfl

theorem svdwCandidates_eq {t : Fq} (ht : t ≠ 0) : svdwCandidates t = .ok (candidates t) := by
  have hw : svdwSqrtNeg3 * t * (4 + t * t)⁻¹ * (svdwSqrtNeg3 * t * (4 + t * t)⁻¹) ≠ 0 :=
    mul_self_ne_zero.mpr (svdwW_ne_zero ht)
  simp only [svdwCandidates, inverse_of_ne_zero (denom_ne_zero t), ok_bind, inverse_of_ne_zero hw]
  rfl

variable {sqrt : Fq → Option Fq} {hash : List Fr → Fr}

/-- The earlier candidates have their witnesses. -/
theorem exists_nonQrWitnesses (hsqrt : SquareRoots sqrt) {earlier : List Fq}
    (h : ∀ e ∈ earlier, ¬ IsSquare (SvdW.rhs 3 e)) : ∃ ws, nonQrWitnesses sqrt earlier = .ok ws := by
  obtain ⟨roots, hroots, -⟩ := exists_mapM_eq_ok (Q := fun _ _ => True)
    (f := fun x => okOr (sqrt (-(x * x * x + 3))) "non-QR * (-1) must be QR") fun x hx => by
      obtain ⟨y, hy⟩ := hsqrt.isSome (isSquare_neg_of_not_isSquare not_isSquare_neg_one (h x hx))
      exact ⟨y, okOr_eq_ok.mpr hy, trivial⟩
  exact ⟨_, by rw [nonQrWitnesses, hroots]; rfl⟩

theorem sqrt_eq_none (hsqrt : SquareRoots sqrt) {a : Fq} (h : ¬ IsSquare a) : sqrt a = none := by
  cases ha : sqrt a with
  | none => rfl
  | some y => exact absurd ⟨y, (hsqrt.mul_self ha).symm⟩ h

/-- The loop stops at the first candidate that is a coordinate of the curve. -/
theorem selectCandidate_eq (hsqrt : SquareRoots sqrt) {cs : List Fq} {w invW2 : Fq} {ws : List Fq}
    {rest earlier : List Fq} {i : Nat} {x : Fq} (hfirst : SvdW.First 3 rest earlier x)
    (hws : nonQrWitnesses sqrt (cs.take (i + earlier.length)) = .ok ws) :
    ∃ y point, y.val % 2 = 0 ∧ G1.ofCoordinates x y = some point ∧
      selectCandidate sqrt cs w invW2 i rest = .ok ⟨point, i + earlier.length, w, invW2, ws⟩ := by
  obtain ⟨later, rfl⟩ := hfirst.split
  induction earlier generalizing i with
  | nil =>
    obtain ⟨y, hy⟩ := hsqrt.isSome hfirst.isSquare
    have hroot := hsqrt.mul_self hy
    have hne : y ≠ 0 := by
      rintro rfl
      rw [mul_zero] at hroot
      exact rhs_ne_zero x hroot.symm
    have hcurve : canonicalizeY y * canonicalizeY y = SvdW.rhs 3 x := (canonicalizeY_mul_self y).trans hroot
    have hpoint : G1.ofCoordinates x (canonicalizeY y) = some _ := dif_pos hcurve
    refine ⟨canonicalizeY y, _, canonicalizeY_even hne, hpoint, ?_⟩
    rw [SvdW.rhs] at hy
    rw [List.length_nil, Nat.add_zero] at hws
    simp only [List.nil_append, selectCandidate, hy, hws, hpoint, ok_bind, okOr]
    rfl
  | cons e earlier ih =>
    have hnone : sqrt (e * e * e + 3) = none := sqrt_eq_none hsqrt (hfirst.not_isSquare e List.mem_cons_self)
    have htail : SvdW.First 3 (earlier ++ x :: later) earlier x :=
      ⟨⟨later, rfl⟩, hfirst.isSquare, fun e he => hfirst.not_isSquare e (List.mem_cons_of_mem _ he)⟩
    have hindex : i + (e :: earlier).length = i + 1 + earlier.length := by
      rw [List.length_cons, Nat.add_assoc, Nat.add_comm 1]
    rw [hindex] at hws ⊢
    obtain ⟨y, point, heven, hpoint, hselect⟩ := ih hws htail
    refine ⟨y, point, heven, hpoint, ?_⟩
    simp only [List.cons_append, selectCandidate, hnone]
    exact hselect

/-- What `hash_to_curve` returns. -/
structure Hashed (t : Fq) (res : SvdwResult) (earlier : List Fq) (x y : Fq) : Prop where
  first : SvdW.First 3 (candidates t) earlier x
  index : res.index = earlier.length
  point : res.point.coordinates = some (x, y)
  even : y.val % 2 = 0

theorem hashToCurve_eq (hsqrt : SquareRoots sqrt) {userIdHash : Fr} (ht : hashH2c hash userIdHash ≠ 0) :
    ∃ res earlier x y, hashToCurve sqrt hash userIdHash = .ok res ∧
      Hashed (frToFq (hashH2c hash userIdHash)) res earlier x y := by
  have htq := frToFq_ne_zero ht
  generalize hdef : frToFq (hashH2c hash userIdHash) = t at htq
  obtain ⟨earlier, x, hfirst⟩ := exists_first t htq
  obtain ⟨later, hsplit⟩ := hfirst.split
  have htake : (candidates t).take (0 + earlier.length) = earlier := by
    rw [hsplit, Nat.zero_add, List.take_left]
  obtain ⟨ws, hws⟩ := exists_nonQrWitnesses hsqrt hfirst.not_isSquare
  rw [← htake] at hws
  obtain ⟨y, point, heven, hpoint, hselect⟩ := selectCandidate_eq hsqrt hfirst hws
  refine ⟨⟨point, 0 + earlier.length, svdwW t, (svdwW t * svdwW t)⁻¹, ws⟩, earlier, x, y, ?_, hfirst,
    Nat.zero_add _, G1.ofCoordinates_eq_some.mp hpoint, heven⟩
  have hw : svdwSqrtNeg3 * t * (4 + t * t)⁻¹ * (svdwSqrtNeg3 * t * (4 + t * t)⁻¹) ≠ 0 :=
    mul_self_ne_zero.mpr (svdwW_ne_zero htq)
  have hrequire : require (hashH2c hash userIdHash ≠ 0) "hash_to_curve: t must be nonzero" = .ok () :=
    require_eq_ok.mpr ht
  simp only [hashToCurve, hdef, hrequire, inverse_of_ne_zero (denom_ne_zero t), ok_bind, inverse_of_ne_zero hw,
    svdwCandidates_eq htq]
  exact hselect

theorem uint8_cases {i : UInt8} (h : i < 3) : i = 0 ∨ i = 1 ∨ i = 2 := by
  have hlt : i.toNat < 3 := UInt8.lt_iff_toNat_lt.mp h
  rcases Nat.lt_succ_iff_lt_or_eq.mp hlt with hlt | htwo
  · rcases Nat.lt_succ_iff_lt_or_eq.mp hlt with hzero | hone
    · exact .inl (UInt8.toNat_inj.mp (Nat.lt_one_iff.mp hzero))
    · exact .inr (.inl (UInt8.toNat_inj.mp hone))
  · exact .inr (.inr (UInt8.toNat_inj.mp htwo))

/-- A root of the negated right-hand side. -/
theorem not_isSquare_of_witness {x w : Fq} (h : w * w = 0 - (x * x * x + 3)) : ¬ IsSquare (SvdW.rhs 3 x) := by
  refine not_isSquare_of_isSquare_neg not_isSquare_neg_one (rhs_ne_zero x) ⟨w, ?_⟩
  rw [h, zero_sub, SvdW.rhs]

/-- The index points at the first candidate that is a coordinate of the curve. -/
theorem first_of_assertSelected {t w invW2 x w0 w1 : Fq} {index : UInt8}
    (hw : w * (4 + t * t) = svdwSqrtNeg3 * t) (hinverse : invW2 * w * w = 1) (hindex : index < 3)
    (hselected : assertSelected index (svdwC1 - t * w) (0 - 1 - (svdwC1 - t * w)) (1 + invW2) x = .ok ())
    (hfirst : 0 < index → w0 * w0 = 0 - ((svdwC1 - t * w) * (svdwC1 - t * w) * (svdwC1 - t * w) + 3))
    (hsecond : 1 < index → w1 * w1 = 0 - ((0 - 1 - (svdwC1 - t * w)) * (0 - 1 - (svdwC1 - t * w)) *
      (0 - 1 - (svdwC1 - t * w)) + 3)) (hsquare : IsSquare (SvdW.rhs 3 x)) :
    ∃ earlier, SvdW.First 3 (candidates t) earlier x := by
  obtain rfl := eq_svdwW hw
  have hinv : invW2 = (svdwW t * svdwW t)⁻¹ := by
    rw [mul_assoc] at hinverse
    exact eq_inv_of_mul_eq_one_left hinverse
  have hx2 : 0 - 1 - (svdwC1 - t * svdwW t) = -(1 + (svdwC1 - t * svdwW t)) := by ring
  rw [hx2] at hselected hsecond
  rw [hinv] at hselected
  have hlist : candidates t = [svdwC1 - t * svdwW t, -(1 + (svdwC1 - t * svdwW t)), 1 + (svdwW t * svdwW t)⁻¹] :=
    rfl
  rw [hlist]
  rcases uint8_cases hindex with rfl | rfl | rfl
  · rw [assertSelected, if_pos rfl, require_eq_ok] at hselected
    subst hselected
    exact ⟨[], ⟨_, rfl⟩, hsquare, fun _ he => absurd he List.not_mem_nil⟩
  · rw [assertSelected, if_neg (by decide), if_pos rfl, require_eq_ok] at hselected
    subst hselected
    exact ⟨[_], ⟨_, rfl⟩, hsquare, List.forall_mem_singleton.mpr (not_isSquare_of_witness (hfirst (by decide)))⟩
  · rw [assertSelected, if_neg (by decide), if_neg (by decide), require_eq_ok] at hselected
    subst hselected
    exact ⟨[_, _], ⟨[], rfl⟩, hsquare, List.forall_mem_cons.mpr ⟨not_isSquare_of_witness (hfirst (by decide)),
      List.forall_mem_singleton.mpr (not_isSquare_of_witness (hsecond (by decide)))⟩⟩

/-- The checks of `link_proof`, on the candidates. -/
theorem linkMain_eq_ok {pub : LinkPublic} {wit : LinkWitness} (h : linkMain hash pub wit = .ok ()) :
    hashH2c hash wit.userIdHash ≠ 0 ∧
    (∃ earlier, SvdW.First 3 (candidates (frToFq (hashH2c hash wit.userIdHash))) earlier (frToFq pub.gIdX)) ∧
    pub.gIdY.val % 2 = 0 ∧ wit.r ≠ 0 ∧ ∃ gId : G1, gId.coordinates = some (frToFq pub.gIdX, frToFq pub.gIdY) ∧
      G1.coordinates (wit.r.val • gId) = some (frToFq pub.blindedRequestX, frToFq pub.blindedRequestY) := by
  simp only [linkMain, bind_eq_ok, noirAssert_eq_ok, require_eq_ok, onlyIf_eq_ok, okOr_eq_ok,
    Unique.exists_iff, PUnit.default_eq_unit] at h
  obtain ⟨-, ht, hw, hinverse, hindex, hselected, hfirst, hsecond, heven, gId, hpoint, hr, blinded, hblinded,
    rfl⟩ := h
  refine ⟨ht, first_of_assertSelected hw hinverse hindex hselected hfirst hsecond ?_, heven, hr, gId,
    G1.ofCoordinates_eq_some.mp hpoint, G1.ofCoordinates_eq_some.mp hblinded⟩
  exact ⟨_, (curve_of_coordinates (G1.ofCoordinates_eq_some.mp hpoint)).symm⟩

/-! ## One identity point for each user -/

theorem coordinates_inj {p p' : G1} {x y : Fq} (h : p.coordinates = some (x, y))
    (h' : p'.coordinates = some (x, y)) : p = p' := by
  rw [← G1.ofCoordinates_eq_some] at h h'
  exact Option.some.inj (h.symm.trans h')

/-- The circuit accepts the point of `hash_to_curve` only. -/
theorem point_of_linkMain {userIdHash : Fr} {res : SvdwResult} {earlier : List Fq} {x y : Fq}
    (hhashed : Hashed (frToFq (hashH2c hash userIdHash)) res earlier x y) {pub : LinkPublic} {wit : LinkWitness}
    (huser : wit.userIdHash = userIdHash) (h : linkMain hash pub wit = .ok ()) :
    res.point.coordinates = some (frToFq pub.gIdX, frToFq pub.gIdY) ∧ wit.r ≠ 0 ∧
      G1.coordinates (wit.r.val • res.point) =
        some (frToFq pub.blindedRequestX, frToFq pub.blindedRequestY) := by
  obtain ⟨-, ⟨_, hfirst⟩, heven, hr, gId, hgId, hblinded⟩ := linkMain_eq_ok h
  rw [huser] at hfirst
  obtain rfl := hhashed.first.unique hfirst
  have hcurve := curve_of_coordinates hhashed.point
  have hcurve' := curve_of_coordinates hgId
  -- both roots are even
  have heven' : (frToFq pub.gIdY).val % 2 = 0 := by
    rw [val_frToFq]
    exact heven
  obtain rfl := root_unique (hcurve.trans hcurve'.symm) (hhashed.even.trans heven'.symm)
  obtain rfl := coordinates_inj hgId hhashed.point
  exact ⟨hgId, hr, hblinded⟩

/-- Every user has an identity point: the divisions of `hash_to_curve` are defined, one of its candidates is a
coordinate of the curve and the ones before it have their witnesses; and the circuit accepts this point only, with
a multiple of it by a blinding factor that is not zero. -/
theorem hash_to_curve_pinned (hsqrt : SquareRoots sqrt) {userIdHash : Fr} (ht : hashH2c hash userIdHash ≠ 0) :
    (4 + frToFq (hashH2c hash userIdHash) * frToFq (hashH2c hash userIdHash) ≠ 0 ∧
      svdwW (frToFq (hashH2c hash userIdHash)) * svdwW (frToFq (hashH2c hash userIdHash)) ≠ 0 ∧
      ∃ x ∈ candidates (frToFq (hashH2c hash userIdHash)), IsSquare (SvdW.rhs 3 x)) ∧
    (∃ res earlier x y, hashToCurve sqrt hash userIdHash = .ok res ∧
      Hashed (frToFq (hashH2c hash userIdHash)) res earlier x y ∧ y * y = SvdW.rhs 3 x ∧
      (∀ e ∈ earlier, IsSquare (-SvdW.rhs 3 e)) ∧
      ∀ pub wit, wit.userIdHash = userIdHash → linkMain hash pub wit = .ok () →
        res.point.coordinates = some (frToFq pub.gIdX, frToFq pub.gIdY) ∧ wit.r ≠ 0 ∧
        G1.coordinates (wit.r.val • res.point) =
          some (frToFq pub.blindedRequestX, frToFq pub.blindedRequestY)) ∧
    ∀ pub wit pub' wit', wit.userIdHash = userIdHash → wit'.userIdHash = userIdHash →
      linkMain hash pub wit = .ok () → linkMain hash pub' wit' = .ok () →
      pub.gIdX = pub'.gIdX ∧ pub.gIdY = pub'.gIdY := by
  have htq := frToFq_ne_zero ht
  obtain ⟨res, earlier, x, y, hres, hhashed⟩ := hashToCurve_eq hsqrt ht
  have hfirst := hhashed.first
  obtain ⟨later, hsplit⟩ := hfirst.split
  refine ⟨⟨denom_ne_zero _, mul_self_ne_zero.mpr (svdwW_ne_zero htq), x, ?_, hfirst.isSquare⟩,
    ⟨res, earlier, x, y, hres, hhashed, curve_of_coordinates hhashed.point, fun e he => ?_,
      fun pub wit => point_of_linkMain hhashed⟩, ?_⟩
  · rw [hsplit]
    exact List.mem_append_right _ List.mem_cons_self
  · exact isSquare_neg_of_not_isSquare not_isSquare_neg_one (hfirst.not_isSquare e he)
  · intro pub wit pub' wit' huser huser' h h'
    obtain ⟨hpoint, -, -⟩ := point_of_linkMain hhashed huser h
    obtain ⟨hpoint', -, -⟩ := point_of_linkMain hhashed huser' h'
    have hsame := Prod.mk.inj (Option.some.inj (hpoint.symm.trans hpoint'))
    exact ⟨frToFq_inj hsame.1, frToFq_inj hsame.2⟩

open Classical in
noncomputable def Sample.fieldSqrt (a : Fq) : Option Fq := if h : ∃ y, y * y = a then some h.choose else none

theorem Sample.fieldSqrt_squareRoots : SquareRoots Sample.fieldSqrt where
  mul_self {a y} h := by
    rw [Sample.fieldSqrt] at h
    split at h
    · next hroot =>
      cases h
      exact hroot.choose_spec
    · cases h
  isSome {a} h := by
    obtain ⟨y, hy⟩ := h
    exact ⟨_, dif_pos ⟨y, hy.symm⟩⟩

/-- The identity point of the user `5`. -/
theorem hash_to_curve_pinned_sample : ∃ res earlier x y,
    hashToCurve Sample.fieldSqrt (fun _ => Scalar.ofNat 1) (Scalar.ofNat 5) = .ok res ∧
    Hashed (frToFq (Scalar.ofNat 1)) res earlier x y := by
  have ht : hashH2c (fun _ => Scalar.ofNat 1) (Scalar.ofNat 5) ≠ 0 := by decide
  obtain ⟨-, ⟨res, earlier, x, y, hres, hhashed, -⟩, -⟩ := hash_to_curve_pinned Sample.fieldSqrt_squareRoots ht
  exact ⟨res, earlier, x, y, hres, hhashed⟩

end Pocs.Identity
