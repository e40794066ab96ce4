import Mathlib.Tactic

/-! # Units of a pool valued at a floor price

A pool with balance `B` values its `U` units at a price `m`, scaled by `S`: a unit is worth `m / S`
shares. `Backed` says that the balance covers the units at the price. A payment that rounds up for new
units and a payout that rounds down for returned ones keep it, so the floor price `B * S / U` does not
fall. -/

namespace Pocs

/-- The balance covers the units at the price. -/
def Backed (S B U m : Nat) : Prop := m * U ≤ B * S

namespace Backed
variable {S B U m u c : Nat}

theorem floor (S B U : Nat) : Backed S B U (B * S / U) := Nat.div_mul_le_self _ _

theorem zero (S B m : Nat) : Backed S B 0 m := Nat.zero_le _

theorem mono {B' : Nat} (h : Backed S B U m) (hB : B ≤ B') : Backed S B' U m :=
  h.trans (Nat.mul_le_mul_right _ hB)

theorem le_floor (h : Backed S B U m) (hU : U ≠ 0) : m ≤ B * S / U :=
  (Nat.le_div_iff_mul_le (Nat.pos_of_ne_zero hU)).mpr h

/-- New units that were paid for, rounded up. -/
theorem add (h : Backed S B U m) (hc : u * m ≤ c * S) : Backed S (B + c) (U + u) m := by
  unfold Backed at h ⊢
  rw [Nat.mul_add, Nat.add_mul, Nat.mul_comm m u]
  exact Nat.add_le_add h hc

/-- A payout rounded down is covered. -/
theorem payout_le (h : Backed S B U m) (hS : 0 < S) (hu : u ≤ U) (hc : c * S ≤ u * m) : c ≤ B := by
  refine Nat.le_of_mul_le_mul_right ?_ hS
  calc c * S ≤ u * m := hc
    _ ≤ U * m := Nat.mul_le_mul_right _ hu
    _ = m * U := Nat.mul_comm _ _
    _ ≤ B * S := h

/-- So are several payouts, each rounded down. -/
theorem sum_payout_le (h : Backed S B U m) (hS : 0 < S) {us : List Nat} (hus : us.sum ≤ U) :
    (us.map fun u => u * m / S).sum ≤ B := by
  have hcover : (us.map fun u => u * m / S).sum * S ≤ us.sum * m := by
    clear hus
    induction us with
    | nil => simp
    | cons u us ih =>
      rw [List.map_cons, List.sum_cons, List.sum_cons, Nat.add_mul, Nat.add_mul]
      exact Nat.add_le_add (Nat.div_mul_le_self _ _) ih
  exact h.payout_le hS hus hcover

/-- What payouts leave of the balance: less than one for each of them that is for units, and for each `S`
units of the supply. -/
theorem lt_sum_payout (hS : 0 < S) {us : List Nat} (hus : us.sum = U) (hU : U ≠ 0) :
    B < (us.map fun u => u * (B * S / U) / S).sum + us.countP (0 < ·) + (U + S - 1) / S := by
  generalize hm : B * S / U = m
  have hbefore : B * S < (m + 1) * U := by
    rw [← hm, Nat.mul_comm _ U]
    exact Nat.lt_mul_div_succ _ (Nat.pos_of_ne_zero hU)
  -- each payout for units loses less than one share
  have hlost : us.sum * m ≤ (us.map fun u => u * m / S).sum * S + us.countP (0 < ·) * S := by
    clear hus
    induction us with
    | nil => simp
    | cons u us ih =>
      have hdiv := Nat.div_add_mod (u * m) S
      have hmod := Nat.mod_lt (u * m) hS
      rw [List.map_cons, List.sum_cons, List.sum_cons, List.countP_cons, Nat.add_mul, Nat.add_mul, Nat.add_mul]
      rw [Nat.mul_comm S] at hdiv
      rcases Nat.eq_zero_or_pos u with rfl | hu
      · simpa using ih
      · rw [if_pos (decide_eq_true hu), Nat.one_mul]
        omega
  have hceil : U ≤ (U + S - 1) / S * S := by
    have hlt := Nat.lt_div_mul_add (a := U + S - 1) hS
    omega
  rw [hus] at hlost
  rw [Nat.add_mul, Nat.one_mul, Nat.mul_comm m U] at hbefore
  refine Nat.lt_of_mul_lt_mul_right (a := S) ?_
  rw [Nat.add_mul, Nat.add_mul]
  omega

/-- Returned units that were paid out, rounded down. -/
theorem sub (h : Backed S B U m) (hu : u ≤ U) (hc : c * S ≤ u * m) : Backed S (B - c) (U - u) m := by
  unfold Backed at h ⊢
  rw [Nat.mul_sub, Nat.sub_mul, Nat.mul_comm m u]
  have hle : u * m ≤ m * U := by
    rw [Nat.mul_comm u m]
    exact Nat.mul_le_mul_left m hu
  omega

end Backed

/-- Paying in for units and taking them out at once returns no more than was paid: if the price rose
in between, the rise came out of the payment. -/
theorem roundTrip_le {S B U u c : Nat} (hS : 0 < S) (hU : U ≠ 0) (hc : u * (B * S / U) ≤ c * S) :
    u * ((B + c) * S / (U + u)) / S ≤ c := by
  set m := B * S / U with hm
  set m' := (B + c) * S / (U + u) with hm'
  have hafter : m' * (U + u) ≤ (B + c) * S := Nat.div_mul_le_self _ _
  have hbefore : B * S < (m + 1) * U := by
    rw [hm, Nat.mul_comm _ U]
    exact Nat.lt_mul_div_succ _ (Nat.pos_of_ne_zero hU)
  have hle : u * m' ≤ c * S := by
    rcases Nat.lt_or_ge m m' with hlt | hge
    · have hmore : (m + 1) * U ≤ m' * U := Nat.mul_le_mul_right _ hlt
      rw [Nat.mul_add, Nat.add_mul, Nat.mul_comm m' u] at hafter
      omega
    · exact (Nat.mul_le_mul_left u hge).trans hc
  calc u * m' / S ≤ c * S / S := Nat.div_le_div_right hle
    _ = c := Nat.mul_div_cancel _ hS

/-- The floor price, or the last one while there are no units. -/
def price (S B U last : Nat) : Nat := if U = 0 then last else B * S / U

theorem backed_price (S B U last : Nat) : Backed S B U (price S B U last) := by
  unfold price
  split
  · next h => exact h ▸ .zero _ _ _
  · exact .floor _ _ _

/-- The balance does not run out while units are paid out in the given order, each at the price of its
turn. -/
def Drains (S : Nat) : (B U last : Nat) → List Nat → Prop
  | _, _, _, [] => True
  | B, U, last, u :: us =>
    let c := u * price S B U last / S
    u ≤ U ∧ c ≤ B ∧ Drains S (B - c) (U - u) (price S (B - c) (U - u) last) us

theorem drains {S : Nat} (hS : 0 < S) : ∀ {us : List Nat} {B U last : Nat}, us.sum ≤ U →
    Drains S B U last us := by
  intro us
  induction us with
  | nil => exact fun _ => trivial
  | cons u us ih =>
    intro B U last hsum
    rw [List.sum_cons] at hsum
    refine ⟨by omega, ?_, ih (by omega)⟩
    exact (backed_price S B U last).payout_le hS (by omega) (Nat.div_mul_le_self _ _)

end Pocs
