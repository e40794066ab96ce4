import Mathlib.AlgebraicGeometry.EllipticCurve.Affine.Point
import Mathlib.FieldTheory.Finite.Basic
import Mathlib.Tactic.FieldSimp

/-! # Multiples of a point by evaluation

Double-and-add in Jacobian coordinates on `y ^ 2 = x ^ 3 + b` over a prime field. The computation is on numbers. It
meets no exceptional case as long as the last coordinate it ends with is not zero. -/

namespace Pocs

open WeierstrassCurve.Affine (Point)

/-- `y ^ 2 = x ^ 3 + b`. -/
def shortCurve {K : Type} [CommRing K] (b : K) : WeierstrassCurve.Affine K := ⟨0, 0, 0, 0, b⟩

/-- The point `(x / z ^ 2, y / z ^ 3)`. -/
structure Jacobian (R : Type) where
  x : R
  y : R
  z : R

namespace Jacobian

/-! ## Over the field -/

section
variable {K : Type} [Field K] {b : K}

def double (t : Jacobian K) : Jacobian K :=
  let m := (3 : Nat) * t.x * t.x
  let s := (4 : Nat) * t.x * (t.y * t.y)
  let x := m * m - (2 : Nat) * s
  ⟨x, m * (s - x) - (8 : Nat) * (t.y * t.y) * (t.y * t.y), (2 : Nat) * t.y * t.z⟩

def addAffine (gx gy : K) (t : Jacobian K) : Jacobian K :=
  let h := gx * (t.z * t.z) - t.x
  let r := gy * (t.z * t.z) * t.z - t.y
  let v := t.x * (h * h)
  let x := r * r - (h * (h * h) + (2 : Nat) * v)
  ⟨x, r * (v - x) - t.y * h * (h * h), t.z * h⟩

def Represents (t : Jacobian K) (p : (shortCurve b).Point) : Prop :=
  t.z ≠ 0 ∧ ∃ h, p = .some (t.x / t.z ^ 2) (t.y / t.z ^ 3) h

theorem Represents.of_coordinates {t : Jacobian K} {x y : K} {h : (shortCurve b).Nonsingular x y}
    (hz : t.z ≠ 0) (hx : x = t.x / t.z ^ 2) (hy : y = t.y / t.z ^ 3) : t.Represents (.some x y h) := by
  subst hx hy
  exact ⟨hz, h, rfl⟩

variable [DecidableEq K]

theorem Represents.double {t : Jacobian K} {p : (shortCurve b).Point} (h : t.Represents p)
    (hz : t.double.z ≠ 0) : t.double.Represents (2 • p) := by
  obtain ⟨hz₀, hp, rfl⟩ := h
  change 2 * t.y * t.z ≠ 0 at hz
  have hy : t.y ≠ 0 := fun hy => hz (by rw [hy]; ring)
  have htwo : (2 : K) ≠ 0 := fun htwo => hz (by rw [htwo]; ring)
  have hne : t.y / t.z ^ 3 ≠ (shortCurve b).negY (t.x / t.z ^ 2) (t.y / t.z ^ 3) := by
    intro heq
    simp only [WeierstrassCurve.Affine.negY, shortCurve, zero_mul, sub_zero] at heq
    have hsum : 2 * (t.y / t.z ^ 3) = 0 := by linear_combination heq
    exact (mul_ne_zero htwo (div_ne_zero hy (pow_ne_zero 3 hz₀))) hsum
  have hslope : (shortCurve b).slope (t.x / t.z ^ 2) (t.x / t.z ^ 2) (t.y / t.z ^ 3) (t.y / t.z ^ 3) =
      3 * t.x * t.x / (2 * t.y * t.z) := by
    rw [WeierstrassCurve.Affine.slope_of_Y_ne rfl hne, div_eq_div_iff (sub_ne_zero.mpr hne) hz]
    simp only [WeierstrassCurve.Affine.negY, shortCurve, zero_mul, mul_zero, add_zero, sub_zero]
    field_simp
    ring
  rw [two_nsmul, WeierstrassCurve.Affine.Point.add_self_of_Y_ne hne]
  refine .of_coordinates hz ?_ ?_
  · rw [hslope]
    simp only [WeierstrassCurve.Affine.addX, shortCurve, zero_mul, add_zero, sub_zero, Jacobian.double,
      Nat.cast_ofNat]
    field_simp
    ring
  · rw [hslope]
    simp only [WeierstrassCurve.Affine.addY, WeierstrassCurve.Affine.negAddY, WeierstrassCurve.Affine.negY,
      WeierstrassCurve.Affine.addX, shortCurve, zero_mul, add_zero, sub_zero, Jacobian.double, Nat.cast_ofNat]
    field_simp
    ring

theorem Represents.addAffine {t : Jacobian K} {p : (shortCurve b).Point} {gx gy : K}
    {hg : (shortCurve b).Nonsingular gx gy} (h : t.Represents p) (hz : (t.addAffine gx gy).z ≠ 0) :
    (t.addAffine gx gy).Represents (p + .some gx gy hg) := by
  obtain ⟨hz₀, hp, rfl⟩ := h
  obtain ⟨x, y, z⟩ := t
  -- the difference of the abscissas as a variable
  obtain ⟨d, rfl⟩ : ∃ d, x = gx * (z * z) - d := ⟨gx * (z * z) - x, by ring⟩
  simp only [Jacobian.addAffine, sub_sub_cancel] at hz hz₀ hp ⊢
  have hd : d ≠ 0 := right_ne_zero_of_mul hz
  have hne : (gx * (z * z) - d) / z ^ 2 ≠ gx := by
    rw [Ne, div_eq_iff (pow_ne_zero 2 hz₀)]
    intro heq
    exact hd (by linear_combination -heq)
  have hslope : (shortCurve b).slope ((gx * (z * z) - d) / z ^ 2) gx (y / z ^ 3) gy =
      (gy * (z * z) * z - y) / (z * d) := by
    rw [WeierstrassCurve.Affine.slope_of_X_ne hne, div_eq_div_iff (sub_ne_zero.mpr hne) hz]
    field_simp
    ring
  rw [WeierstrassCurve.Affine.Point.add_of_X_ne hne]
  refine .of_coordinates hz ?_ ?_
  · rw [hslope]
    simp only [WeierstrassCurve.Affine.addX, shortCurve, zero_mul, add_zero, sub_zero]
    field_simp
    ring
  · rw [hslope]
    simp only [WeierstrassCurve.Affine.addY, WeierstrassCurve.Affine.negAddY, WeierstrassCurve.Affine.negY,
      WeierstrassCurve.Affine.addX, shortCurve, zero_mul, add_zero, sub_zero]
    field_simp
    ring

end

/-! ## On numbers -/

def subMod (q a b : Nat) : Nat := (a + (q - b % q)) % q

def doubleMod (q : Nat) (t : Jacobian Nat) : Jacobian Nat :=
  let m := 3 * t.x * t.x % q
  let yy := t.y * t.y % q
  let s := 4 * t.x * yy % q
  let x := subMod q (m * m) (2 * s)
  ⟨x, subMod q (m * subMod q s x) (8 * yy * yy), 2 * t.y * t.z % q⟩

def addAffineMod (q gx gy : Nat) (t : Jacobian Nat) : Jacobian Nat :=
  let zz := t.z * t.z % q
  let h := subMod q (gx * zz) t.x
  let r := subMod q (gy * zz * t.z) t.y
  let hh := h * h % q
  let v := t.x * hh % q
  let x := subMod q (r * r) (h * hh + 2 * v)
  ⟨x, subMod q (r * subMod q v x) (t.y * h * hh), t.z * h % q⟩

/-- `n` times the point of the given coordinates, for `n` of at most `k + 1` bits. -/
def multiple (q gx gy : Nat) : Nat → Nat → Jacobian Nat
  | 0, _ => ⟨gx, gy, 1⟩
  | k + 1, n =>
    if n < 2 then ⟨gx, gy, 1⟩
    else if n % 2 = 1 then addAffineMod q gx gy (doubleMod q (multiple q gx gy k (n / 2)))
    else doubleMod q (multiple q gx gy k (n / 2))

section
variable {q : Nat} [Fact q.Prime] {b : ZMod q}

def cast (q : Nat) (t : Jacobian Nat) : Jacobian (ZMod q) := ⟨t.x, t.y, t.z⟩

theorem cast_subMod (a c : Nat) : ((subMod q a c : Nat) : ZMod q) = a - c := by
  have hq := (Fact.out : q.Prime).pos
  rw [subMod, ZMod.natCast_mod, Nat.cast_add, Nat.cast_sub (Nat.mod_lt c hq).le, ZMod.natCast_self,
    ZMod.natCast_mod, zero_sub, sub_eq_add_neg]

theorem cast_doubleMod (t : Jacobian Nat) : cast q (doubleMod q t) = (cast q t).double := by
  simp [cast, doubleMod, double, cast_subMod]

theorem cast_addAffineMod (gx gy : Nat) (t : Jacobian Nat) :
    cast q (addAffineMod q gx gy t) = (cast q t).addAffine (gx : ZMod q) (gy : ZMod q) := by
  simp [cast, addAffineMod, addAffine, cast_subMod]

/-- A multiple that does not end at the point at infinity is right. -/
theorem multiple_represents {gx gy : Nat} {hg : (shortCurve b).Nonsingular gx gy} {k n : Nat} (hpos : 0 < n)
    (hlt : n < 2 ^ (k + 1)) (hz : (cast q (multiple q gx gy k n)).z ≠ 0) :
    (cast q (multiple q gx gy k n)).Represents (n • Point.some (gx : ZMod q) (gy : ZMod q) hg) := by
  have hbase : (cast q ⟨gx, gy, 1⟩).Represents (1 • Point.some (gx : ZMod q) (gy : ZMod q) hg) := by
    rw [one_nsmul]
    exact .of_coordinates (by simp [cast]) (by simp [cast]) (by simp [cast])
  induction k generalizing n with
  | zero =>
    obtain rfl : n = 1 := by omega
    exact hbase
  | succ k ih =>
    unfold multiple at hz ⊢
    split
    · next hone =>
      obtain rfl : n = 1 := by omega
      exact hbase
    · next htwo =>
      rw [if_neg htwo] at hz
      have hhalf : 0 < n / 2 := by omega
      have hhalf' : n / 2 < 2 ^ (k + 1) := by rw [Nat.pow_succ] at hlt; omega
      have hdouble : (cast q (doubleMod q (multiple q gx gy k (n / 2)))).z ≠ 0 →
          (cast q (doubleMod q (multiple q gx gy k (n / 2)))).Represents
            (2 • (n / 2) • Point.some (gx : ZMod q) (gy : ZMod q) hg) := by
        rw [cast_doubleMod]
        intro hz'
        exact (ih hhalf hhalf' (right_ne_zero_of_mul hz')).double hz'
      split
      · next hodd =>
        rw [if_pos hodd, cast_addAffineMod] at hz
        rw [cast_addAffineMod]
        have hn : n = 2 * (n / 2) + 1 := by omega
        have hsum := @Represents.addAffine _ _ b _ _ _ _ _ hg (hdouble (left_ne_zero_of_mul hz)) hz
        rw [← mul_nsmul', ← succ_nsmul, ← hn] at hsum
        exact hsum
      · next heven =>
        rw [if_neg heven] at hz
        have hn : n = 2 * (n / 2) := by omega
        have hsame := hdouble hz
        rw [← mul_nsmul', ← hn] at hsame
        exact hsame

end

end Jacobian

end Pocs
