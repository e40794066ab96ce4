import Pocs.Lib.Shares
import Pocs.Mmf.Notes

/-! # The multiplier

Deposits round up and withdrawals round down, so the balance covers every unit at the multiplier last
recorded (`BackedInv`), whatever comes in besides. Trading then never lowers the multiplier, the
pool's own check never fires, and the notes can be paid out in any order. -/

namespace Pocs.Mmf

open Compliance (Word Address)

variable {F T τ : Type} [FeedField F] {D : Deployment F T τ} {w w' : World T τ} {tr : List Step}
  {sender : Address} {events : List PoolEvent} {call : PoolCall}

/-! ## Rounding -/

theorem multiplierScale_pos : 0 < multiplierScale := by decide

theorem mulDiv_eq_ok {x y d q : Nat} : mulDiv x y d = .ok q ↔ d ≠ 0 ∧ x * y / d < 2 ^ 256 ∧ x * y / d = q := by
  simp only [mulDiv, bind_eq_ok, failIf_eq_ok, pure_eq_ok, exists_const, not_or, Nat.not_le, and_assoc]

theorem mulDivUp_ok {x y d q : Nat} (h : mulDivUp x y d = .ok q) : x * y ≤ q * d := by
  simp only [mulDivUp, bind_eq_ok, okOr_eq_ok, checkedAdd_eq_some] at h
  obtain ⟨r, hr, -, rfl⟩ := h
  obtain ⟨hd, -, rfl⟩ := mulDiv_eq_ok.mp hr
  have hmod := Nat.div_add_mod (x * y) d
  have hlt := Nat.mod_lt (x * y) (Nat.pos_of_ne_zero hd)
  rw [Nat.add_mul, Nat.mul_comm _ d]
  split
  · omega
  · omega

omit [FeedField F] in
/-- The view reads the price of the units. -/
theorem multiplier_ok {m : Nat} (h : multiplier D w = .ok m) :
    m = price multiplierScale (w.balance D) w.pool.totalUnits w.pool.lastMultiplier := by
  unfold multiplier at h
  unfold price
  split at h
  · next hzero => rw [if_pos hzero, pure_eq_ok.mp h]
  · next hne => rw [if_neg hne, ← (mulDiv_eq_ok.mp h).2.2]

omit [FeedField F] in
theorem checkedMultiplier_eq_ok {m : Nat} : checkedMultiplier D w = .ok m ↔
    w.pool.halted = false ∧ multiplier D w = .ok m ∧ w.pool.lastMultiplier ≤ m := by
  simp only [checkedMultiplier, bind_eq_ok, failIf_eq_ok, pure_eq_ok, exists_const, Nat.not_lt,
    Bool.not_eq_true]
  constructor
  · rintro ⟨hhalted, _, hm, hge, rfl⟩
    exact ⟨hhalted, hm, hge⟩
  · rintro ⟨hhalted, hm, hge⟩
    exact ⟨hhalted, m, hm, hge, rfl⟩

/-! ## What the balance covers -/

/-- The balance covers the units at the multiplier last recorded, and no checkpoint has found a
lower one. -/
structure BackedInv (D : Deployment F T τ) (w : World T τ) : Prop where
  backed : Backed multiplierScale (w.balance D) w.pool.totalUnits w.pool.lastMultiplier
  live : w.pool.halted = false

omit [FeedField F] in
/-- The multiplier has not fallen below the one recorded. -/
theorem BackedInv.le_multiplier (inv : BackedInv D w) {m : Nat} (h : multiplier D w = .ok m) :
    w.pool.lastMultiplier ≤ m := by
  rw [multiplier_ok h, price]
  split
  · exact Nat.le_refl _
  · next hne => exact inv.backed.le_floor hne

omit [FeedField F] in
theorem Settled.backed {m : Nat} (h : Settled D w w' m) (inv : BackedInv D w) : BackedInv D w' := by
  refine ⟨?_, h.halted.trans inv.live⟩
  by_cases hU : w'.pool.totalUnits = 0
  · rw [hU]
    exact .zero _ _ _
  · obtain ⟨-, -, hlast⟩ := mulDiv_eq_ok.mp (h.live hU).1
    rw [← hlast]
    exact .floor _ _ _

theorem DepositAccepted.balance (hT : D.token.Exact) (hsender : sender ≠ D.address)
    {p : DepositParams} {m shares : Nat} (accepted : DepositAccepted D sender w w' p m shares) :
    w'.balance D = w.balance D + shares := by
  obtain ⟨-, hmoved⟩ := hT.transferFrom accepted.paid
  rw [World.balance, hmoved, moved_dst hsender, World.balance]

/-- A withdrawal takes at most what was paid out from the balance, and the pool had it. -/
theorem WithdrawAccepted.balance (hT : D.token.Exact) {p : WithdrawParams} {m shares : Nat}
    (accepted : WithdrawAccepted D w w' p m shares) :
    shares ≤ w.balance D ∧ w.balance D - shares ≤ w'.balance D := by
  obtain ⟨hle, hmoved⟩ := hT.transfer accepted.paid
  refine ⟨hle, ?_⟩
  rw [World.balance, World.balance, hmoved]
  exact le_moved_src

/-- A call that moves no notes keeps the record, raises it to the multiplier it read, or found the
multiplier below it, or the pool halted. -/
inductive MarkStep (D : Deployment F T τ) (w w' : World T τ) : Prop where
  | kept (last : w'.pool.lastMultiplier = w.pool.lastMultiplier) (halted : w'.pool.halted = w.pool.halted)
  | raised (read : multiplier D w = .ok w'.pool.lastMultiplier) (halted : w'.pool.halted = w.pool.halted)
  | found {m} (read : multiplier D w = .ok m) (lt : m < w.pool.lastMultiplier)
  | cleared (halted : w.pool.halted = true)

omit [FeedField F] in
theorem checkpoint_marks {registerHash : Word} {expectedUnits : Nat}
    (h : checkpoint D w sender registerHash expectedUnits = .ok (w', events)) : MarkStep D w w' := by
  simp only [checkpoint, bind_eq_ok, pure_eq_ok] at h
  obtain ⟨_, -, _, -, m, hm, h⟩ := h
  split at h
  · next hlt => exact .found hm hlt
  · cases h
    exact .raised hm rfl

omit [FeedField F] in
theorem clearHalt_marks (h : clearHalt D w sender = .ok (w', events)) : MarkStep D w w' := by
  simp only [clearHalt, bind_eq_ok, failIf_eq_ok, exists_const, Bool.not_eq_false] at h
  obtain ⟨_, -, hhalted, -⟩ := h
  exact .cleared hhalted

/-- The calls that read the multiplier. -/
def PoolCall.Prices : PoolCall → Prop
  | .deposit _ | .withdraw _ | .checkpoint _ _ | .clearHalt => True
  | _ => False

/-- The other calls leave the record and the halt alone. -/
theorem PoolCall.run_keeps (h : PoolCall.run D sender w call = .ok (w', events)) (hcall : ¬ call.Prices) :
    w'.pool.lastMultiplier = w.pool.lastMultiplier ∧ w'.pool.halted = w.pool.halted := by
  cases call with
  | deposit | withdraw | checkpoint | clearHalt => exact absurd trivial hcall
  | transfer p =>
    obtain ⟨accepted, -⟩ := transfer_accepted h
    exact ⟨accepted.lastMultiplier, accepted.halted⟩
  | pause untilEpoch =>
    simp only [PoolCall.run, Mmf.pause, bind_eq_ok, pure_eq_ok, Prod.mk.injEq] at h
    obtain ⟨_, -, _, -, _, -, _, -, rfl, -⟩ := h
    split <;> split <;> exact ⟨rfl, rfl⟩
  | recordGrant | rearmGuardian | grantRole | revokeRole | renounceRole =>
    obtain ⟨_, -, h⟩ := bind_eq_ok.mp h
    cases pure_eq_ok.mp h
    exact ⟨rfl, rfl⟩
  | setVerifier | setClaimKeyHash | setTransferAgent =>
    obtain ⟨_, -, h⟩ := bind_eq_ok.mp h
    obtain ⟨_, -, h⟩ := bind_eq_ok.mp h
    cases pure_eq_ok.mp h
    exact ⟨rfl, rfl⟩
  | setRegisterKey =>
    obtain ⟨_, -, h⟩ := bind_eq_ok.mp h
    obtain ⟨_, -, h⟩ := bind_eq_ok.mp h
    obtain ⟨_, -, h⟩ := bind_eq_ok.mp h
    obtain ⟨_, -, h⟩ := bind_eq_ok.mp h
    cases pure_eq_ok.mp h
    exact ⟨rfl, rfl⟩

/-- What an accepted call does to the record of the multiplier. -/
theorem PoolCall.run_marks (h : PoolCall.run D sender w call = .ok (w', events)) :
    (∃ m, Settled D w w' m) ∨ MarkStep D w w' ∧ w'.pool.totalUnits = w.pool.totalUnits ∧
      w'.token = w.token := by
  rcases PoolCall.run_step h with ⟨accepted, -⟩ | ⟨accepted, -⟩ | ⟨accepted, -⟩ | governed
  · exact .inl ⟨_, accepted.settled⟩
  · exact .inr ⟨.kept accepted.lastMultiplier accepted.halted, accepted.totalUnits, accepted.paid⟩
  · exact .inl ⟨_, accepted.settled⟩
  · refine .inr ⟨?_, governed.totalUnits, governed.token⟩
    by_cases hcall : call.Prices
    · cases call with
      | deposit p => cases ‹(PoolCall.deposit p).leaves = []›
      | withdraw p => cases ‹(PoolCall.withdraw p).nullifiers = []›
      | checkpoint => exact checkpoint_marks h
      | clearHalt => exact clearHalt_marks h
      | _ => exact hcall.elim
    · obtain ⟨last, halted⟩ := PoolCall.run_keeps h hcall
      exact .kept last halted

omit [FeedField F] in
theorem MarkStep.backed (h : MarkStep D w w') (inv : BackedInv D w)
    (hunits : w'.pool.totalUnits = w.pool.totalUnits) (htoken : w'.token = w.token) : BackedInv D w' := by
  have hbalance : w'.balance D = w.balance D := by rw [World.balance, World.balance, htoken]
  cases h with
  | kept last halted => exact ⟨by rw [hbalance, hunits, last]; exact inv.backed, halted.trans inv.live⟩
  | raised read halted =>
    refine ⟨?_, halted.trans inv.live⟩
    rw [hbalance, hunits, multiplier_ok read]
    exact backed_price _ _ _ _
  | found read lt => exact absurd (inv.le_multiplier read) (Nat.not_le.mpr lt)
  | cleared halted =>
    rw [inv.live] at halted
    cases halted

theorem Run.backedInv {w₀ : World T τ} (h₀ : Deployed D w₀) (hrun : Run (Transition D) w₀ tr w) :
    BackedInv D w := by
  refine hrun.invariant (I := fun _ w => BackedInv D w) ?_ ?_
  · obtain ⟨_, _, hnew⟩ := h₀.pool_new
    obtain ⟨-, -, -, -, hunits, hlive, -⟩ := ShieldedPool.new_ok hnew
    exact ⟨hunits ▸ .zero _ _ _, hlive⟩
  · intro tr w st w' _ hstep inv
    cases hstep with
    | pool _ ok =>
      rcases PoolCall.run_marks ok with ⟨m, settled⟩ | ⟨marks, hunits, htoken⟩
      · exact settled.backed inv
      · exact marks.backed inv hunits htoken
    | registry | poolReverted | registryReverted | tick => exact ⟨inv.backed, inv.live⟩
    | inflow balance => exact ⟨inv.backed.mono balance, inv.live⟩

/-! ## The pool's own check never fires -/

theorem mulDiv_ne_decreased {x y d : Nat} : mulDiv x y d ≠ .error .multiplierDecreased := by
  simp [mulDiv, bind_eq_error, failIf_eq_error, pure, Except.pure]

theorem mulDivUp_ne_decreased {x y d : Nat} : mulDivUp x y d ≠ .error .multiplierDecreased := by
  simp [mulDivUp, bind_eq_error, okOr_eq_error, mulDiv_ne_decreased]

theorem requireCanonical_ne_decreased {inputs : List Word} :
    requireCanonical F inputs ≠ .error .multiplierDecreased := by
  intro h
  obtain ⟨n, -, hn⟩ := exists_of_forM_eq_error h
  simp [failIf_eq_error] at hn

theorem insertAll_ne_decreased {pool : ShieldedPool T} {leaves : List Word} :
    insertAll D pool leaves ≠ .error .multiplierDecreased := by
  simp [insertAll, bind_eq_error, mapErr_eq_error, pure, Except.pure]

omit [FeedField F] in
theorem multiplier_ne_decreased : multiplier D w ≠ .error .multiplierDecreased := by
  unfold multiplier
  split
  · simp [pure, Except.pure]
  · exact mulDiv_ne_decreased

omit [FeedField F] in
theorem checkedMultiplier_ne_decreased (inv : BackedInv D w) :
    checkedMultiplier D w ≠ .error .multiplierDecreased := by
  intro h
  simp only [checkedMultiplier, bind_eq_error, failIf_eq_error, multiplier_ne_decreased, reduceCtorEq,
    and_false, false_or, failIf_eq_ok, exists_const, pure, Except.pure, or_false, and_true] at h
  obtain ⟨-, m, hm, hlt⟩ := h
  exact absurd (inv.le_multiplier hm) (Nat.not_le.mpr hlt)

omit [FeedField F] in
/-- Settling after a trade that left the units covered. -/
theorem settleMultiplier_ne_decreased {w₁ : World T τ} {m : Nat}
    (h : Backed multiplierScale (w₁.balance D) w₁.pool.totalUnits m) :
    settleMultiplier D w₁ m ≠ .error .multiplierDecreased := by
  intro herr
  simp only [settleMultiplier, bind_eq_error, failIf_eq_error, multiplier_ne_decreased, reduceCtorEq,
    and_false, false_or, failIf_eq_ok, exists_const, pure, Except.pure, or_false, and_true] at herr
  obtain ⟨m', hm', hne, hlt⟩ := herr
  rw [multiplier_ok hm', price, if_neg hne] at hlt
  exact absurd (h.le_floor hne) (Nat.not_le.mpr hlt)

theorem deposit_ne_decreased (hT : D.token.Exact) (inv : BackedInv D w) (hsender : sender ≠ D.address)
    {p : DepositParams} : deposit D w sender p ≠ .error .multiplierDecreased := by
  intro h
  simp only [deposit, requireNotPaused, checkEpoch, checkFeedPoint, checkAttestationRoot, bind_eq_error,
    failIf_eq_error, okOr_eq_error, requireCanonical_ne_decreased, insertAll_ne_decreased,
    mulDivUp_ne_decreased, checkedMultiplier_ne_decreased inv, reduceCtorEq, and_false, false_or,
    pure, Except.pure, exists_false, or_false, okOr_eq_ok, checkedAdd_eq_some] at h
  obtain ⟨_, -, _, -, _, -, _, -, _, -, _, -, _, -, m, hm, _, -, pool, hins, total, ⟨-, htotal⟩, shares,
    hshares, token, hpaid, herr⟩ := h
  simp only [insertAll, bind_eq_ok, mapErr_eq_ok, pure_eq_ok] at hins
  obtain ⟨tree, -, rfl⟩ := hins
  refine settleMultiplier_ne_decreased ?_ herr
  -- what was paid covers the new units
  have hbacked := backed_price multiplierScale (w.balance D) w.pool.totalUnits w.pool.lastMultiplier
  rw [← multiplier_ok (checkedMultiplier_eq_ok.mp hm).2.1] at hbacked
  obtain ⟨-, hmoved⟩ := hT.transferFrom hpaid
  show Backed multiplierScale (D.token.balanceOf token D.address) total m
  rw [hmoved, moved_dst hsender, ← htotal]
  exact hbacked.add (mulDivUp_ok hshares)

theorem withdraw_ne_decreased (hT : D.token.Exact) (inv : BackedInv D w) {p : WithdrawParams} :
    withdraw D w p ≠ .error .multiplierDecreased := by
  intro h
  simp only [withdraw, requireNotPaused, checkEpoch, checkAttestationRoot, bind_eq_error,
    failIf_eq_error, okOr_eq_error, requireCanonical_ne_decreased, mulDiv_ne_decreased,
    checkedMultiplier_ne_decreased inv, reduceCtorEq, and_false, false_or, pure, Except.pure,
    exists_false, or_false, okOr_eq_ok, failIf_eq_ok, Nat.not_lt] at h
  obtain ⟨_, -, _, -, _, -, _, -, _, -, _, -, _, -, _, -, m, hm, _, -, _, hle, shares, hshares, token,
    hpaid, herr⟩ := h
  refine settleMultiplier_ne_decreased ?_ herr
  have hbacked := backed_price multiplierScale (w.balance D) w.pool.totalUnits w.pool.lastMultiplier
  rw [← multiplier_ok (checkedMultiplier_eq_ok.mp hm).2.1] at hbacked
  obtain ⟨-, hmoved⟩ := hT.transfer hpaid
  obtain ⟨-, -, hfloor⟩ := mulDiv_eq_ok.mp hshares
  have hcover : shares * multiplierScale ≤ p.units.toNat * m := by
    rw [← hfloor]
    exact Nat.div_mul_le_self _ _
  refine (hbacked.sub hle hcover).mono ?_
  show w.balance D - shares ≤ D.token.balanceOf token D.address
  rw [hmoved, World.balance]
  exact le_moved_src

end Pocs.Mmf
