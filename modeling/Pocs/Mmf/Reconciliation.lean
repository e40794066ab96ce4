import Mathlib.Data.UInt
import Pocs.Mmf.Completeness

/-! # The daily reconciliation

The rounding remainder that `remainder` of `agent.rs` reports, and the matching of outflows with withdrawals
in `match_withdrawals` of `chain.rs`. The pool multiplies in full width and the agent in 256 bits, so the
remainder is exact as long as no product wraps. -/

namespace Pocs.Mmf

open Compliance (Word Address)

/-! ## `match_withdrawals` -/

structure TokenOutflow extends Outflow where
  tx : Word

abbrev Payment := Word × Address × Nat

def TokenOutflow.payment (o : TokenOutflow) : Payment := (o.tx, o.toAddress, o.shares)

/-- `Vec::swap_remove`: the last element takes the place of the removed one. -/
def swapRemove {α : Type} (xs : List α) (i : Nat) : List α :=
  match xs.getLast? with
  | some last => (xs.set i last).dropLast
  | none => xs

def matchWithdrawals : List TokenOutflow → List Payment → List TokenOutflow
  | [], _ => []
  | o :: outflows, unpaid =>
    match unpaid.findIdx? fun w => w == o.payment with
    | some i => { o with byWithdrawal := true } :: matchWithdrawals outflows (swapRemove unpaid i)
    | none => o :: matchWithdrawals outflows unpaid

theorem swapRemove_perm {α : Type} {xs : List α} {i : Nat} (h : i < xs.length) :
    xs.Perm (xs[i] :: swapRemove xs i) := by
  obtain ⟨before, x, after, rfl, rfl⟩ : ∃ before x after, xs = before ++ x :: after ∧ before.length = i :=
    ⟨xs.take i, xs[i], xs.drop (i + 1), by simp, by simp; omega⟩
  have hx : (before ++ x :: after)[before.length] = x := by simp
  rw [hx]
  rcases List.eq_nil_or_concat' after with rfl | ⟨rest, last, rfl⟩
  · simp [swapRemove]
  · have hcat : before ++ x :: (rest ++ [last]) = (before ++ x :: rest) ++ [last] := by simp
    have hset : ((before ++ x :: (rest ++ [last])).set before.length last).dropLast =
        before ++ last :: rest := by
      rw [List.set_append_right _ _ (Nat.le_refl _), Nat.sub_self, List.set_cons_zero,
        show before ++ last :: (rest ++ [last]) = (before ++ last :: rest) ++ [last] by simp,
        List.dropLast_concat]
    have hswap : swapRemove (before ++ x :: (rest ++ [last])) before.length = before ++ last :: rest := by
      rw [swapRemove, hcat, List.getLast?_concat, ← hcat]
      exact hset
    rw [hswap]
    refine List.perm_middle.trans (List.Perm.cons x (List.Perm.append_left before ?_))
    exact List.perm_append_singleton last rest

theorem matchWithdrawals_marks (outflows : List TokenOutflow) (unpaid : List Payment) :
    ∃ marks : List Bool, marks.length = outflows.length ∧ matchWithdrawals outflows unpaid =
        outflows.zipWith (fun o paid => { o with byWithdrawal := o.byWithdrawal || paid }) marks ∧
      ∀ k, (outflows.zip marks).countP (fun e => e.1.payment == k && e.2) =
        min (outflows.countP fun o => o.payment == k) (unpaid.count k) := by
  induction outflows generalizing unpaid with
  | nil => exact ⟨[], rfl, rfl, fun k => by simp⟩
  | cons o outflows ih =>
    rw [matchWithdrawals]
    split
    · next i hi =>
      obtain ⟨hlt, hpaid, -⟩ := List.findIdx?_eq_some_iff_getElem.mp hi
      obtain ⟨marks, hlen, heq, hcount⟩ := ih (swapRemove unpaid i)
      refine ⟨true :: marks, by simp [hlen], by simp [heq], fun k => ?_⟩
      have hperm := (swapRemove_perm hlt).count_eq k
      rw [eq_of_beq hpaid, List.count_cons] at hperm
      rw [List.zip_cons_cons, List.countP_cons, List.countP_cons, hcount, hperm, Bool.and_true]
      split <;> omega
    · next hnone =>
      obtain ⟨marks, hlen, heq, hcount⟩ := ih unpaid
      refine ⟨false :: marks, by simp [hlen], by simp [heq], fun k => ?_⟩
      rw [List.zip_cons_cons, List.countP_cons, List.countP_cons, hcount, Bool.and_false]
      by_cases hk : o.payment = k
      · have hzero : unpaid.count k = 0 := by
          rw [List.count_eq_zero]
          intro hmem
          have hno := List.findIdx?_eq_none_iff.mp hnone k hmem
          simp [hk] at hno
        rw [hzero, Nat.min_zero, Nat.min_zero]
        rfl
      · simp [hk]

/-! ## `remainder` -/

section
variable {F : Type} (a : TransferAgent F)

def TransferAgent.withdrawable (m : Nat) : Nat :=
  (a.unspentEntries.map fun e => e.note.units.toNat * m / multiplierScale).sum

def TransferAgent.Fits (m : Nat) : Prop := ∀ e ∈ a.unspentEntries, e.note.units.toNat * m < 2 ^ 256

variable {a} {balance m : Nat}

theorem TransferAgent.Fits.remainder_eq (h : a.Fits m) (hle : a.withdrawable m ≤ balance)
    (hbalance : balance < 2 ^ 256) : a.remainder balance m = some (balance - a.withdrawable m) := by
  have hmap : (a.unspentEntries.map fun e => e.note.units.toNat * m % 2 ^ 256 / multiplierScale) =
      a.unspentEntries.map fun e => e.note.units.toNat * m / multiplierScale :=
    List.map_congr_left fun e he => by rw [Nat.mod_eq_of_lt (h e he)]
  rw [TransferAgent.remainder, hmap]
  rw [TransferAgent.withdrawable] at hle ⊢
  rw [Nat.mod_eq_of_lt (hle.trans_lt hbalance), if_pos hle]

/-- A product that wraps lowers what the agent counts, and the remainder is too large. -/
theorem TransferAgent.fits_of_remainder (hle : a.withdrawable m ≤ balance) (hbalance : balance < 2 ^ 256)
    (h : a.remainder balance m = some (balance - a.withdrawable m)) : a.Fits m := by
  have hdiv : ∀ x : Nat, x % 2 ^ 256 / multiplierScale ≤ x / multiplierScale := fun x =>
    Nat.div_le_div_right (Nat.mod_le _ _)
  have hwrapped : (a.unspentEntries.map fun e => e.note.units.toNat * m % 2 ^ 256 / multiplierScale).sum ≤
      a.withdrawable m := List.sum_le_sum fun e _ => hdiv _
  by_contra hover
  simp only [Fits, not_forall, not_lt] at hover
  obtain ⟨e, he, hlarge⟩ := hover
  -- the wrapped product loses at least one share
  have hlt : e.note.units.toNat * m % 2 ^ 256 / multiplierScale < e.note.units.toNat * m / multiplierScale := by
    have hscale : multiplierScale ≤ 2 ^ 256 := by decide
    have hmod : e.note.units.toNat * m % 2 ^ 256 + multiplierScale ≤ e.note.units.toNat * m := by
      rw [Nat.mod_eq_sub_mod hlarge]
      have := Nat.mod_le (e.note.units.toNat * m - 2 ^ 256) (2 ^ 256)
      omega
    have hsucc := Nat.div_le_div_right hmod (c := multiplierScale)
    rw [Nat.add_div_right _ multiplierScale_pos] at hsucc
    exact hsucc
  have hsum : (a.unspentEntries.map fun e => e.note.units.toNat * m % 2 ^ 256 / multiplierScale).sum <
      a.withdrawable m := List.sum_lt_sum _ _ (fun e _ => hdiv _) ⟨e, he, hlt⟩
  rw [TransferAgent.remainder, Nat.mod_eq_of_lt (by omega), if_pos (by omega)] at h
  have heq := Option.some.inj h
  omega

end

/-- The remainder is exact if and only if no product wraps; the matching pairs outflows and withdrawals of
one payment as long as there are both. -/
theorem reconciliation_exact_iff {F : Type} (a : TransferAgent F) (hunits : 0 < a.totalUnits) {balance : Nat}
    (hbalance : balance < 2 ^ 256) (outflows : List TokenOutflow) (withdrawals : List Payment) :
    let m := balance * multiplierScale / a.totalUnits
    ((∃ r, a.remainder balance m = some r ∧ r + a.withdrawable m = balance ∧
      r < (a.unspentEntries.countP fun e => 0 < e.note.units.toNat) +
        (a.totalUnits + multiplierScale - 1) / multiplierScale) ∧
    ∃ marks : List Bool, marks.length = outflows.length ∧ matchWithdrawals outflows withdrawals =
        outflows.zipWith (fun o paid => { o with byWithdrawal := o.byWithdrawal || paid }) marks ∧
      ∀ k, (outflows.zip marks).countP (fun e => e.1.payment == k && e.2) =
        min (outflows.countP fun o => o.payment == k) (withdrawals.count k)) ↔
    ∀ e ∈ a.unspentEntries, e.note.units.toNat * m < 2 ^ 256 := by
  intro m
  have hwithdrawable : a.withdrawable m =
      ((a.unspentEntries.map fun e => e.note.units.toNat).map fun u => u * m / multiplierScale).sum := by
    rw [List.map_map]
    rfl
  have hle : a.withdrawable m ≤ balance := by
    rw [hwithdrawable]
    exact (Backed.floor _ _ _).sum_payout_le multiplierScale_pos (Nat.le_refl _)
  have hbound := @Backed.lt_sum_payout multiplierScale balance a.totalUnits multiplierScale_pos
    (a.unspentEntries.map fun e => e.note.units.toNat) rfl hunits.ne'
  rw [List.countP_map, ← hwithdrawable] at hbound
  constructor
  · rintro ⟨⟨r, hr, hsum, -⟩, -⟩
    apply TransferAgent.fits_of_remainder hle hbalance
    rw [hr, ← hsum, Nat.add_sub_cancel]
  · intro hfits
    refine ⟨⟨balance - a.withdrawable m, TransferAgent.Fits.remainder_eq hfits hle hbalance, by omega, ?_⟩,
      matchWithdrawals_marks outflows withdrawals⟩
    have hcount : (a.unspentEntries.countP fun e => decide (0 < e.note.units.toNat)) =
        a.unspentEntries.countP ((fun u => decide (0 < u)) ∘ fun e => e.note.units.toNat) := rfl
    omega

open Sample

def Sample.holding (units : List UInt64) : TransferAgent Unbounded :=
  { TransferAgent.new Sample.wallet 2 with
    register := units.map fun u => ⟨⟨0, u, 0, 0, 0⟩, noLock, 0, 0, none, false⟩ }

/-- Two outflows of one payment and one of another. -/
def Sample.outflows : List TokenOutflow :=
  [⟨⟨5, 4, false⟩, 1⟩, ⟨⟨5, 4, false⟩, 1⟩, ⟨⟨6, 4, false⟩, 2⟩]

/-- A register of one note of `2 ^ 32` units, and a pool that holds `2 ^ 200` shares. -/
theorem remainder_wraps : 0 < (holding [2 ^ 32]).totalUnits ∧
    2 ^ 200 * multiplierScale / (holding [2 ^ 32]).totalUnits < 2 ^ 256 ∧
    ∃ r, (holding [2 ^ 32]).remainder (2 ^ 200)
        (2 ^ 200 * multiplierScale / (holding [2 ^ 32]).totalUnits) = some r ∧
      r + (holding [2 ^ 32]).withdrawable
        (2 ^ 200 * multiplierScale / (holding [2 ^ 32]).totalUnits) ≠ 2 ^ 200 := by
  refine ⟨by decide, by decide, _, rfl, ?_⟩
  decide

/-- Three notes in a pool of 11 shares, and one withdrawal for each of the two payments. -/
theorem reconciliation_exact_sample : ∃ r, (holding [2, 3, 2]).remainder 11
      (11 * multiplierScale / (holding [2, 3, 2]).totalUnits) = some r ∧
    r + (holding [2, 3, 2]).withdrawable (11 * multiplierScale / (holding [2, 3, 2]).totalUnits) = 11 ∧
    ∃ marks : List Bool, marks.length = 3 ∧
      (Sample.outflows.zip marks).countP (fun e => e.1.payment == (1, 5, 4) && e.2) = 1 := by
  have hfits : ∀ e ∈ (holding [2, 3, 2]).unspentEntries,
      e.note.units.toNat * (11 * multiplierScale / (holding [2, 3, 2]).totalUnits) < 2 ^ 256 := by
    decide
  obtain ⟨⟨r, hr, hsum, -⟩, marks, hlength, -, hmarks⟩ := (reconciliation_exact_iff (holding [2, 3, 2])
    (by decide) (show 11 < 2 ^ 256 by decide) Sample.outflows [(1, 5, 4), (2, 6, 4)]).mpr hfits
  exact ⟨r, hr, hsum, marks, hlength, hmarks _⟩

end Pocs.Mmf
