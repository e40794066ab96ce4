import Mathlib.AlgebraicGeometry.EllipticCurve.Affine.Point
import Mathlib.NumberTheory.LegendreSymbol.Basic
import Mathlib.Tactic.NormNum.Prime
import Pocs.Lib.Pratt
import Pocs.Lib.SvdW
import Pocs.Identity.Contracts

/-! # The curve of BN254

Its base field, in which `x ^ 3 + 3` has no root, and its points. -/

namespace Pocs.Identity

/-! ## The two primes -/

def smallPrimes : List Nat :=
  [2, 3, 5, 7, 11, 13, 19, 29, 41, 67, 73, 83, 89, 107, 229, 311, 379, 661, 823, 853, 911, 983, 1637,
    3557, 3691, 4999, 11003, 13327, 93001, 237073, 327599, 1593227, 1853641, 4562087]

def bn254Certificates : List (Nat × Nat × List (Nat × Nat)) :=
  [(405928799, 22, [(2, 1), (11, 1), (3691, 1), (4999, 1)]),
   (11465965001, 3, [(2, 3), (5, 4), (7, 1), (327599, 1)]),
   (173171039, 13, [(2, 1), (73, 1), (89, 1), (13327, 1)]),
   (1263766531, 10, [(2, 1), (3, 1), (5, 1), (13, 1), (911, 1), (3557, 1)]),
   (35385462869, 2, [(2, 2), (7, 1), (1263766531, 1)]),
   (2480874801745591, 6, [(2, 1), (3, 2), (5, 1), (19, 1), (41, 1), (35385462869, 1)]),
   (13427688667394608761327070753331941386769, 17, [(2, 4), (3, 1), (7, 1), (11, 1), (1853641, 1),
     (4562087, 1), (173171039, 1), (2480874801745591, 1)]),
   (bn254P, 3, [(2, 1), (3, 2), (13, 1), (29, 1), (67, 1), (229, 1), (311, 1), (983, 1), (11003, 1),
     (405928799, 1), (11465965001, 1), (13427688667394608761327070753331941386769, 1)]),
   (12048837557, 2, [(2, 2), (7, 2), (661, 1), (93001, 1)]),
   (5156902474397, 2, [(2, 2), (107, 1), (12048837557, 1)]),
   (1670836401704629, 2, [(2, 2), (3, 4), (5156902474397, 1)]),
   (639533339, 2, [(2, 1), (229, 1), (853, 1), (1637, 1)]),
   (65865678001877903, 5, [(2, 1), (83, 1), (379, 1), (1637, 1), (639533339, 1)]),
   (13818364434197438864469338081, 3, [(2, 5), (5, 1), (823, 1), (1593227, 1), (65865678001877903, 1)]),
   (Civic.bn254, 5, [(2, 28), (3, 2), (13, 1), (29, 1), (983, 1), (11003, 1), (237073, 1),
     (405928799, 1), (1670836401704629, 1), (13818364434197438864469338081, 1)])]

theorem smallPrimes_prime : ∀ q ∈ smallPrimes, q.Prime := by
  simp only [smallPrimes, List.forall_mem_cons, List.not_mem_nil, false_imp_iff, implies_true, and_true]
  norm_num

theorem bn254Certificates_prime : ∀ p ∈ bn254Certificates.map Prod.fst, p.Prime :=
  prime_of_prattChain smallPrimes_prime (by decide +kernel)

theorem bn254P_prime : Nat.Prime bn254P := by
  refine bn254Certificates_prime bn254P ?_
  simp only [bn254Certificates, List.map_cons, List.mem_cons, true_or, or_true]

theorem bn254_prime : Nat.Prime Civic.bn254 := by
  refine bn254Certificates_prime Civic.bn254 ?_
  simp only [bn254Certificates, List.map_cons, List.mem_cons, true_or, or_true]

/-! ## The base field -/

instance : Fact bn254P.Prime := ⟨bn254P_prime⟩

/-- The base field. -/
abbrev Fq := ZMod bn254P

scoped instance instAtLeastTwoThree : Nat.AtLeastTwo 3 := ⟨by decide⟩
scoped instance instAtLeastTwoFour : Nat.AtLeastTwo 4 := ⟨by decide⟩

theorem not_isSquare_neg_one : ¬ IsSquare (-1 : Fq) := by
  rw [ZMod.exists_sq_eq_neg_one_iff, not_not]
  rfl

/-- Numbers below the modulus are told apart. -/
theorem natCast_ne_zero {n : Nat} (hn : n ≠ 0) (hlt : n < bn254P) : (n : Fq) ≠ 0 := by
  rw [Ne, ZMod.natCast_eq_zero_iff]
  exact Nat.not_dvd_of_pos_of_lt (Nat.pos_of_ne_zero hn) hlt

/-- Three is minus no cube. -/
theorem rhs_ne_zero (x : Fq) : SvdW.rhs 3 x ≠ 0 := by
  intro hzero
  have hx : x ≠ 0 := by
    rintro rfl
    rw [SvdW.rhs, mul_zero, zero_add] at hzero
    exact natCast_ne_zero (show 3 ≠ 0 by decide) (by decide) hzero
  have hcube : x ^ 3 = ((bn254P - 3 : Nat) : Fq) := by
    rw [Nat.cast_sub (by decide), ZMod.natCast_self, zero_sub, eq_neg_iff_add_eq_zero, pow_succ, pow_two]
    exact hzero
  have hone : ((bn254P - 3 : Nat) : Fq) ^ ((bn254P - 1) / 3) = ((1 : Nat) : Fq) := by
    rw [← hcube, ← pow_mul, Nat.mul_div_cancel' (by decide), ZMod.pow_card_sub_one_eq_one hx, Nat.cast_one]
  rw [@natCast_pow_eq_iff _ 256 _ _ _ (by decide)] at hone
  exact absurd hone (by decide +kernel)

instance : Fact Civic.bn254.Prime := ⟨bn254_prime⟩

abbrev ScalarField := ZMod Civic.bn254

/-! ## Points -/

/-- `y ^ 2 = x ^ 3 + 3`. -/
def bn254Curve : WeierstrassCurve.Affine Fq := ⟨0, 0, 0, 0, 3⟩

abbrev G1 := bn254Curve.Point

theorem nonsingular_of_eq {x y : Fq} (h : y * y = SvdW.rhs 3 x) : bn254Curve.Nonsingular x y := by
  have hy : y ≠ 0 := by
    rintro rfl
    rw [mul_zero] at h
    exact rhs_ne_zero x h.symm
  have htwo : (2 : Fq) ≠ 0 := natCast_ne_zero (show 2 ≠ 0 by decide) (by decide)
  rw [WeierstrassCurve.Affine.nonsingular_iff', WeierstrassCurve.Affine.equation_iff]
  simp only [bn254Curve, zero_mul, add_zero, SvdW.rhs] at h ⊢
  refine ⟨?_, .inr (mul_ne_zero htwo hy)⟩
  linear_combination h

/-- The point with the coordinates, if it is on the curve. -/
def G1.ofCoordinates (x y : Fq) : Option G1 :=
  if h : y * y = SvdW.rhs 3 x then some (.some x y (nonsingular_of_eq h)) else none

def G1.coordinates : G1 → Option (Fq × Fq)
  | .zero => none
  | .some x y _ => some (x, y)

theorem G1.equation {x y : Fq} (h : bn254Curve.Nonsingular x y) : y * y = SvdW.rhs 3 x := by
  have hequation := (WeierstrassCurve.Affine.equation_iff _ _).mp h.1
  simp only [bn254Curve, zero_mul, add_zero] at hequation
  rw [SvdW.rhs]
  linear_combination hequation

theorem G1.ofCoordinates_eq_some {x y : Fq} {p : G1} :
    G1.ofCoordinates x y = some p ↔ p.coordinates = some (x, y) := by
  rw [ofCoordinates]
  constructor
  · intro h
    split at h
    · cases h
      rfl
    · cases h
  · intro h
    cases p with
    | zero => cases h
    | some x' y' hp =>
      cases h
      rw [dif_pos (G1.equation hp)]

end Pocs.Identity
