import Mathlib.LinearAlgebra.Lagrange

/-! # Secrets shared by polynomials

A polynomial of degree below `t` is determined at zero by its values at any `t` points, as a sum with weights that
depend on the points only. -/

namespace Pocs

open Polynomial

variable {K : Type*} [Field K]

/-! ## Polynomials by their coefficients -/

/-- The polynomial with the coefficients, the constant one first. -/
noncomputable def ofCoeffs : List K → K[X]
  | [] => 0
  | c :: cs => C c + X * ofCoeffs cs

theorem degree_ofCoeffs_lt (cs : List K) : (ofCoeffs cs).degree < cs.length := by
  induction cs with
  | nil => simp [ofCoeffs]
  | cons c cs ih =>
    rw [ofCoeffs, List.length_cons]
    refine (degree_add_le _ _).trans_lt (max_lt ?_ ?_)
    · refine degree_C_le.trans_lt ?_
      exact_mod_cast Nat.succ_pos _
    · rcases eq_or_ne (ofCoeffs cs) 0 with hzero | hne
      · rw [hzero, mul_zero, degree_zero]
        exact WithBot.bot_lt_coe _
      · rw [← natDegree_lt_iff_degree_lt hne] at ih
        rw [← natDegree_lt_iff_degree_lt (mul_ne_zero X_ne_zero hne), natDegree_X_mul hne]
        exact Nat.succ_lt_succ ih

theorem eval_zero_ofCoeffs (c : K) (cs : List K) : (ofCoeffs (c :: cs)).eval 0 = c := by
  simp [ofCoeffs]

theorem eval_ofCoeffs_cons (c : K) (cs : List K) (x : K) :
    (ofCoeffs (c :: cs)).eval x = c + x * (ofCoeffs cs).eval x := by
  simp [ofCoeffs]

/-- A polynomial of small degree is that of its coefficients. -/
theorem exists_ofCoeffs {t : Nat} {f : K[X]} (h : f.degree < t) : ∃ cs : List K, cs.length = t ∧ ofCoeffs cs = f := by
  induction t generalizing f with
  | zero =>
    refine ⟨[], rfl, ?_⟩
    rw [Nat.cast_zero, ← WithBot.coe_zero] at h
    exact (degree_eq_bot.mp (Nat.WithBot.lt_zero_iff.mp h)).symm
  | succ t ih =>
    have hdiv : f.divX.degree < t := by
      rw [degree_lt_iff_coeff_zero] at h ⊢
      intro m hm
      rw [coeff_divX]
      exact h (m + 1) (Nat.succ_le_succ hm)
    obtain ⟨cs, hlength, hcs⟩ := ih hdiv
    refine ⟨f.coeff 0 :: cs, congrArg Nat.succ hlength, ?_⟩
    rw [ofCoeffs, hcs, add_comm]
    exact X_mul_divX_add f

section
variable {ι : Type*} [DecidableEq ι] {l : List ι} {v : ι → K}

/-- The weight of a point: the product of the others, over that of their distances to it. -/
def weight (v : ι → K) (l : List ι) (i : ι) : K :=
  ((l.filter (· ≠ i)).map v).prod * ((l.filter (· ≠ i)).map fun j => v j - v i).prod⁻¹

theorem eval_zero_basis (hl : l.Nodup) (i : ι) : (Lagrange.basis l.toFinset v i).eval 0 = weight v l i := by
  have herase : l.toFinset.erase i = (l.filter (· ≠ i)).toFinset := by
    rw [← Finset.filter_ne', List.toFinset_filter]
    simp
  have hnodup := hl.filter (· ≠ i)
  rw [Lagrange.basis, eval_prod, herase, weight, ← List.prod_toFinset _ hnodup, ← List.prod_toFinset _ hnodup,
    ← Finset.prod_inv_distrib, ← Finset.prod_mul_distrib]
  refine Finset.prod_congr rfl fun j _ => ?_
  rw [Lagrange.basisDivisor, eval_mul, eval_C, eval_sub, eval_X, eval_C, zero_sub, ← neg_sub (v j), inv_neg]
  ring

/-- The value at zero, from the values at distinct points. -/
theorem eval_zero_eq_sum {f : K[X]} (hl : l.Nodup) (hv : Set.InjOn v {i | i ∈ l}) (hdegree : f.degree < l.length) :
    f.eval 0 = (l.map fun i => f.eval (v i) * weight v l i).sum := by
  have hinj : Set.InjOn v l.toFinset := by
    rw [List.coe_toFinset]
    exact hv
  have hcard : f.degree < l.toFinset.card := by
    rw [List.toFinset_card_of_nodup hl]
    exact hdegree
  rw [Lagrange.eq_interpolate hinj hcard, Lagrange.interpolate_apply, eval_finsetSum, ← List.sum_toFinset _ hl]
  refine Finset.sum_congr rfl fun i hi => ?_
  rw [eval_mul, eval_C, eval_zero_basis hl, ← Lagrange.interpolate_apply, ← Lagrange.eq_interpolate hinj hcard]

end

/-- Fewer than `t` points do not determine the value at zero. -/
theorem exists_vanishing {s : Finset K} (hzero : (0 : K) ∉ s) :
    ∃ f : K[X], f.degree = s.card ∧ (∀ x ∈ s, f.eval x = 0) ∧ f.eval 0 ≠ 0 := by
  classical
  refine ⟨∏ x ∈ s, (X - C x), ?_, fun x hx => ?_, ?_⟩
  · rw [degree_prod]
    simp
  · rw [eval_prod]
    exact Finset.prod_eq_zero hx (by simp)
  · rw [eval_prod]
    refine Finset.prod_ne_zero_iff.mpr fun x hx => ?_
    rw [eval_sub, eval_X, eval_C, zero_sub]
    exact neg_ne_zero.mpr fun h => hzero (h ▸ hx)

end Pocs
