import Mathlib.NumberTheory.LegendreSymbol.QuadraticChar.Basic
import Mathlib.Tactic.LinearCombination

/-! # The map of Shallue and van de Woestijne

On a curve `y ^ 2 = x ^ 3 + b` over a finite field, each parameter yields three candidates of which one is the
coordinate of a point: the product of their right-hand sides is a square. -/

namespace Pocs

section
variable {K : Type*} [Field K] {a b : K}

theorem isSquare_mul_of_not_isSquare [Fintype K] (ha : ¬ IsSquare a) (hb : ¬ IsSquare b) : IsSquare (a * b) := by
  classical
  have ha0 : a ≠ 0 := fun h => ha (h ▸ IsSquare.zero)
  have hb0 : b ≠ 0 := fun h => hb (h ▸ IsSquare.zero)
  rw [← quadraticChar_one_iff_isSquare (mul_ne_zero ha0 hb0), map_mul,
    quadraticChar_neg_one_iff_not_isSquare.mpr ha, quadraticChar_neg_one_iff_not_isSquare.mpr hb]
  rfl

theorem isSquare_neg_of_not_isSquare [Fintype K] (hone : ¬ IsSquare (-1 : K)) (ha : ¬ IsSquare a) :
    IsSquare (-a) := by
  rw [← neg_one_mul]
  exact isSquare_mul_of_not_isSquare hone ha

/-- Where `-1` is no square, a number and its negative are squares only if they are zero. -/
theorem not_isSquare_of_isSquare_neg (hone : ¬ IsSquare (-1 : K)) (ha : a ≠ 0) (hneg : IsSquare (-a)) :
    ¬ IsSquare a := by
  intro hsquare
  apply hone
  rw [← neg_div_self ha]
  exact hneg.div hsquare

end

/-! ## The three candidates -/

namespace SvdW
variable {K : Type*} [Field K]

def rhs (b x : K) : K := x * x * x + b

def candidates (c t w i : K) : List K := [c - t * w, -(1 + (c - t * w)), 1 + i]

/-- `c` is a primitive cube root of one, `w` the quotient of the map and `i` the inverse of its square. -/
structure Solution (b c t w i : K) : Prop where
  root : c * c + c + 1 = 0
  division : w * (1 + b + t * t) = (2 * c + 1) * t
  inverse : i * (w * w) = 1

variable {b c t w i : K}

theorem Solution.mul_eq (h : Solution b c t w i) : (c - t * w) * -(1 + (c - t * w)) = 1 + (1 + b) * (w * w) := by
  linear_combination -h.root - w * h.division

/-- The product of the first two is the third, up to a square. -/
theorem Solution.rhs_mul_rhs (h : Solution b c t w i) : rhs b (c - t * w) * rhs b (-(1 + (c - t * w))) =
      ((1 + b) * (w * w * w)) * ((1 + b) * (w * w * w)) * rhs b (1 + i) := by
  have hproduct := h.mul_eq
  generalize hx : c - t * w = x at hproduct
  have hpair : rhs b x * rhs b (-(1 + x)) =
      (x * -(1 + x)) * (x * -(1 + x)) * (x * -(1 + x)) + b * (3 * (x * -(1 + x)) - 1) + b * b := by
    rw [rhs, rhs]
    ring
  have hcube : w * w * (w * w) * (w * w) * rhs b (1 + i) =
      (w * w + 1) * (w * w + 1) * (w * w + 1) + b * (w * w * (w * w) * (w * w)) := by
    have hi : w * w * (1 + i) = w * w + 1 := by linear_combination h.inverse
    rw [rhs, ← hi]
    ring
  rw [hpair, hproduct]
  linear_combination -(1 + b) * (1 + b) * hcube

/-- One of the candidates is a coordinate of the curve. -/
theorem Solution.exists_isSquare [Fintype K] (h : Solution b c t w i) (hb : 1 + b ≠ 0) :
    ∃ x ∈ candidates c t w i, IsSquare (rhs b x) := by
  by_contra hnone
  have hfirst : ¬ IsSquare (rhs b (c - t * w)) := fun hx => hnone ⟨_, List.mem_cons_self, hx⟩
  have hsecond : ¬ IsSquare (rhs b (-(1 + (c - t * w)))) :=
    fun hx => hnone ⟨_, List.mem_cons_of_mem _ List.mem_cons_self, hx⟩
  have hthird : ¬ IsSquare (rhs b (1 + i)) :=
    fun hx => hnone ⟨_, List.mem_cons_of_mem _ (List.mem_cons_of_mem _ List.mem_cons_self), hx⟩
  have hw : w ≠ 0 := by
    rintro rfl
    have hinverse := h.inverse
    rw [mul_zero, mul_zero] at hinverse
    exact zero_ne_one hinverse
  have hfactor : (1 + b) * (w * w * w) ≠ 0 := mul_ne_zero hb (mul_ne_zero (mul_ne_zero hw hw) hw)
  have hproduct := isSquare_mul_of_not_isSquare hfirst hsecond
  rw [h.rhs_mul_rhs] at hproduct
  have hquotient := hproduct.div (IsSquare.mul_self ((1 + b) * (w * w * w)))
  rw [mul_div_cancel_left₀ _ (mul_ne_zero hfactor hfactor)] at hquotient
  exact hthird hquotient

/-- The first candidate that is a coordinate of the curve, and those before it. -/
structure First (b : K) (xs earlier : List K) (x : K) : Prop where
  split : ∃ later, xs = earlier ++ x :: later
  isSquare : IsSquare (rhs b x)
  not_isSquare : ∀ e ∈ earlier, ¬ IsSquare (rhs b e)

theorem First.cons {xs earlier : List K} {e x : K} (he : ¬ IsSquare (rhs b e)) (h : First b xs earlier x) :
    First b (e :: xs) (e :: earlier) x := by
  obtain ⟨later, rfl⟩ := h.split
  exact ⟨⟨later, rfl⟩, h.isSquare, List.forall_mem_cons.mpr ⟨he, h.not_isSquare⟩⟩

theorem exists_first {xs : List K} (h : ∃ x ∈ xs, IsSquare (rhs b x)) : ∃ earlier x, First b xs earlier x := by
  induction xs with
  | nil =>
    obtain ⟨x, hx, -⟩ := h
    exact absurd hx List.not_mem_nil
  | cons a xs ih =>
    by_cases ha : IsSquare (rhs b a)
    · exact ⟨[], a, ⟨xs, rfl⟩, ha, fun _ he => absurd he List.not_mem_nil⟩
    · obtain ⟨x, hx, hsquare⟩ := h
      rcases List.mem_cons.mp hx with rfl | hx
      · exact absurd hsquare ha
      · obtain ⟨earlier, x, hfirst⟩ := ih ⟨x, hx, hsquare⟩
        exact ⟨a :: earlier, x, hfirst.cons ha⟩

theorem First.unique {xs earlier earlier' : List K} {x x' : K} (h : First b xs earlier x)
    (h' : First b xs earlier' x') : x = x' := by
  obtain ⟨later, rfl⟩ := h.split
  obtain ⟨later', hsplit⟩ := h'.split
  rcases List.append_eq_append_iff.mp hsplit with ⟨mid, rfl, hmid⟩ | ⟨mid, rfl, hmid⟩
  · cases mid with
    | nil => exact (List.cons.inj hmid).1
    | cons m mid =>
      obtain ⟨rfl, -⟩ := List.cons.inj hmid
      exact absurd h.isSquare (h'.not_isSquare x (List.mem_append_right _ List.mem_cons_self))
  · cases mid with
    | nil => exact (List.cons.inj hmid).1.symm
    | cons m mid =>
      obtain ⟨rfl, -⟩ := List.cons.inj hmid
      exact absurd h'.isSquare (h.not_isSquare x' (List.mem_append_right _ List.mem_cons_self))

end SvdW

end Pocs
