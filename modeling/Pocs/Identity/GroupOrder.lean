import Mathlib.GroupTheory.Perm.Cycle.Type
import Pocs.Lib.Jacobian
import Pocs.Identity.HashToCurve

/-! # The order of the group

The points of the curve of BN254 are as many as the scalars. The generator has that order, by evaluation; there are
at most two points over each abscissa, so the order of the group is one or two times that; and no point has order
two. -/

namespace Pocs.Identity

theorem nonsingular_generator : bn254Curve.Nonsingular ((1 : Nat) : Fq) ((2 : Nat) : Fq) :=
  nonsingular_of_eq (by rw [SvdW.rhs]; norm_num)

/-- The point `(1, 2)`. -/
def G1.generator : G1 := .some _ _ nonsingular_generator

/-- The point before the last multiple is the generator's negative. -/
theorem nsmul_generator : Civic.bn254 • G1.generator = 0 := by
  let t := Jacobian.multiple bn254P 1 2 253 (Civic.bn254 - 1)
  have hcheck : t.z % bn254P ≠ 0 ∧ t.x % bn254P = t.z * t.z % bn254P ∧
      (t.y + 2 * t.z * t.z * t.z) % bn254P = 0 := by
    decide +kernel
  obtain ⟨hz, hx, hy⟩ := hcheck
  have hz' : (t.z : Fq) ≠ 0 := by
    rwa [Ne, ZMod.natCast_eq_zero_iff, Nat.dvd_iff_mod_eq_zero]
  have hx' : (t.x : Fq) = t.z * t.z := by
    have := (ZMod.natCast_eq_natCast_iff' _ _ _).mpr hx
    rwa [Nat.cast_mul] at this
  have hy' : (t.y : Fq) + 2 * t.z * t.z * t.z = 0 := by
    have := (ZMod.natCast_eq_zero_iff _ _).mpr (Nat.dvd_of_mod_eq_zero hy)
    push_cast at this
    exact this
  have hrep : (Jacobian.cast bn254P t).Represents ((Civic.bn254 - 1) • G1.generator) :=
    Jacobian.multiple_represents (by decide) (by decide +kernel) hz'
  obtain ⟨-, hpoint, heq⟩ := hrep
  have hsucc : Civic.bn254 = Civic.bn254 - 1 + 1 := by decide
  rw [hsucc, succ_nsmul, heq]
  refine WeierstrassCurve.Affine.Point.add_of_Y_eq ?_ ?_
  · change (t.x : Fq) / (t.z : Fq) ^ 2 = ((1 : Nat) : Fq)
    rw [hx', Nat.cast_one, pow_two, div_self (mul_ne_zero hz' hz')]
  · change (t.y : Fq) / (t.z : Fq) ^ 3 = -((2 : Nat) : Fq) - 0 * _ - 0
    rw [div_eq_iff (pow_ne_zero 3 hz'), Nat.cast_two]
    linear_combination hy'

/-! ## Counting -/

/-- The abscissa, and which of the two ordinates. -/
def G1.code : G1 → Option (Fq × Bool)
  | .zero => none
  | .some x y _ => some (x, decide (y.val % 2 = 1))

theorem G1.code_injective : Function.Injective G1.code := by
  intro p p' h
  cases p with
  | zero =>
    cases p' with
    | zero => rfl
    | some x' y' h' => cases h
  | some x y hp =>
    cases p' with
    | zero => cases h
    | some x' y' hp' =>
      simp only [G1.code, Option.some.injEq, Prod.mk.injEq, decide_eq_decide] at h
      obtain ⟨rfl, hparity⟩ := h
      obtain rfl := root_unique ((G1.equation hp).trans (G1.equation hp').symm) (by omega)
      rfl

instance instFiniteG1 : Finite G1 := Finite.of_injective _ G1.code_injective

theorem card_le : Nat.card G1 ≤ 2 * bn254P + 1 := by
  have hle := Nat.card_le_card_of_injective _ G1.code_injective
  have hbool : Nat.card Bool = 2 := by rw [Nat.card_eq_fintype_card, Fintype.card_bool]
  rw [Finite.card_option, Nat.card_prod, Nat.card_zmod, hbool] at hle
  omega

/-- A point of order two would have the ordinate zero. -/
theorem addOrderOf_ne_two (p : G1) : addOrderOf p ≠ 2 := by
  intro horder
  have hdouble : 2 • p = 0 := horder ▸ addOrderOf_nsmul_eq_zero p
  have hneg : p = -p := eq_neg_of_add_eq_zero_left (two_nsmul p ▸ hdouble)
  cases p with
  | zero =>
    rw [WeierstrassCurve.Affine.Point.zero_def.symm, addOrderOf_zero] at horder
    cases horder
  | some x y h =>
    rw [WeierstrassCurve.Affine.Point.neg_some, WeierstrassCurve.Affine.Point.some.injEq] at hneg
    have hy : y = -y - 0 * x - 0 := hneg.2
    have htwo : (2 : Fq) ≠ 0 := natCast_ne_zero (show 2 ≠ 0 by decide) (by decide)
    have hzero : y = 0 := (mul_eq_zero.mp (show 2 * y = 0 by linear_combination hy)).resolve_left htwo
    have hcurve := G1.equation h
    rw [hzero, mul_zero] at hcurve
    exact rhs_ne_zero x hcurve.symm

/-- The group has as many points as there are scalars. -/
theorem card_g1 : Nat.card G1 = Civic.bn254 := by
  have hne : G1.generator ≠ 0 := WeierstrassCurve.Affine.Point.some_ne_zero _
  have horder : addOrderOf G1.generator = Civic.bn254 := by
    rcases (Nat.dvd_prime bn254_prime).mp (addOrderOf_dvd_of_nsmul_eq_zero nsmul_generator) with hone | horder
    · exact absurd (AddMonoid.addOrderOf_eq_one_iff.mp hone) hne
    · exact horder
  obtain ⟨m, hm⟩ : Civic.bn254 ∣ Nat.card G1 := horder ▸ addOrderOf_dvd_natCard _
  have hle := card_le
  have hpos : 0 < Nat.card G1 := Nat.card_pos
  have hlt : 2 * bn254P + 1 < 3 * Civic.bn254 := by decide
  have hm3 : m < 3 := by
    by_contra hge
    have := Nat.mul_le_mul_left Civic.bn254 (Nat.le_of_not_lt hge)
    omega
  have hm0 : m ≠ 0 := by
    rintro rfl
    omega
  have hm2 : m ≠ 2 := by
    rintro rfl
    obtain ⟨p, hp⟩ := exists_prime_addOrderOf_dvd_card' 2 (hm ▸ Nat.dvd_mul_left 2 _)
    exact addOrderOf_ne_two p hp
  obtain rfl : m = 1 := by omega
  rw [hm, Nat.mul_one]

theorem nsmul_bn254 (p : G1) : Civic.bn254 • p = 0 := card_g1 ▸ card_nsmul_eq_zero'

end Pocs.Identity
