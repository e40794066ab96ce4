import Pocs.Mmf.Solvency

/-! # Losses are not hidden

The fund beside a token that does anything: between the calls, and inside its own, the pool's balance
goes up or down by any amount. The multiplier recorded then still never falls. A trade goes through
only at a multiplier that covers the record, and once a checkpoint has found a lower one no trade goes
through before governance has seen it restored. -/

namespace Pocs.Mmf

open Compliance (Word Address idealHash idealHash_ideal)

variable {F T τ : Type} [FeedField F] {D : Deployment F T τ} {w w' : World T τ} {sender : Address}
  {events : List PoolEvent} {call : PoolCall}

/-- A step of the fund, or the token moving the pool's balance in any way. Nothing is said of what the
token's calls do either. -/
inductive Leaking (D : Deployment F T τ) (w : World T τ) : Option Step → World T τ → Prop where
  | step {st w'} (h : Transition D w st w') : Leaking D w (some st) w'
  | leak {token} : Leaking D w none { w with token }

/-- The calls that move shares. -/
def PoolCall.Trades : PoolCall → Prop
  | .deposit _ | .withdraw _ => True
  | _ => False

theorem PoolCall.run_traded (hcall : call.Trades)
    (h : PoolCall.run D sender w call = .ok (w', events)) : ∃ m, Settled D w w' m := by
  cases call with
  | deposit p =>
    obtain ⟨m, shares, accepted, -⟩ := deposit_accepted h
    exact ⟨m, accepted.settled⟩
  | withdraw p =>
    obtain ⟨m, shares, accepted, -⟩ := withdraw_accepted h
    exact ⟨m, accepted.settled⟩
  | _ => exact hcall.elim

omit [FeedField F] in
theorem Settled.le_lastMultiplier {m : Nat} (h : Settled D w w' m) :
    w.pool.lastMultiplier ≤ w'.pool.lastMultiplier := by
  by_cases hU : w'.pool.totalUnits = 0
  · exact (h.empty hU).ge
  · obtain ⟨-, -, hle⟩ := checkedMultiplier_eq_ok.mp h.checked
    exact hle.trans (h.live hU).2

omit [FeedField F] in
theorem checkpoint_ok {registerHash : Word} {expectedUnits : Nat}
    (h : checkpoint D w sender registerHash expectedUnits = .ok (w', events)) :
    ∃ m, multiplier D w = .ok m ∧ (m < w.pool.lastMultiplier ∧ w'.pool.halted = true ∧
        w'.pool.lastMultiplier = w.pool.lastMultiplier ∨
      w.pool.lastMultiplier ≤ m ∧ w'.pool.halted = w.pool.halted ∧ w'.pool.lastMultiplier = m) := by
  simp only [checkpoint, bind_eq_ok, pure_eq_ok] at h
  obtain ⟨_, -, _, -, m, hm, h⟩ := h
  refine ⟨m, hm, ?_⟩
  split at h
  · next hlt =>
    refine .inl ⟨hlt, ?_⟩
    split at h
    · cases h
      exact ⟨rfl, rfl⟩
    · next hhalted =>
      cases h
      exact ⟨Bool.not_eq_false _ ▸ hhalted, rfl⟩
  · next hge =>
    cases h
    exact .inr ⟨Nat.not_lt.mp hge, rfl, rfl⟩

omit [FeedField F] in
theorem clearHalt_ok (h : clearHalt D w sender = .ok (w', events)) :
    multiplier D w = .ok w'.pool.lastMultiplier ∧ w.pool.lastMultiplier ≤ w'.pool.lastMultiplier := by
  simp only [clearHalt, bind_eq_ok, failIf_eq_ok, pure_eq_ok, exists_const, Nat.not_lt] at h
  obtain ⟨_, -, -, m, hm, hle, h⟩ := h
  cases h
  exact ⟨hm, hle⟩

theorem PoolCall.run_le_lastMultiplier (h : PoolCall.run D sender w call = .ok (w', events)) :
    w.pool.lastMultiplier ≤ w'.pool.lastMultiplier := by
  by_cases hcall : call.Prices
  · cases call with
    | deposit | withdraw =>
      obtain ⟨m, settled⟩ := PoolCall.run_traded (by trivial) h
      exact settled.le_lastMultiplier
    | checkpoint =>
      obtain ⟨m, -, ⟨-, -, hlast⟩ | ⟨hle, -, hlast⟩⟩ := checkpoint_ok h
      · exact hlast.ge
      · exact hle.trans hlast.ge
    | clearHalt => exact (clearHalt_ok h).2
    | _ => exact hcall.elim
  · exact (PoolCall.run_keeps h hcall).1.ge

theorem Leaking.le_lastMultiplier {st : Option Step} (h : Leaking D w st w') :
    w.pool.lastMultiplier ≤ w'.pool.lastMultiplier := by
  cases h with
  | step h =>
    cases h with
    | pool _ ok => exact PoolCall.run_le_lastMultiplier ok
    | registry | poolReverted | registryReverted | tick | inflow => exact Nat.le_refl _
  | leak => exact Nat.le_refl _

theorem Run.le_lastMultiplier {tr : List (Option Step)} (h : Run (Leaking D) w tr w') :
    w.pool.lastMultiplier ≤ w'.pool.lastMultiplier := by
  induction h with
  | nil => exact Nat.le_refl _
  | cons _ hstep ih => exact ih.trans hstep.le_lastMultiplier

/-- The run lifts a halt, at a multiplier that is not below the one recorded. -/
def Cleared (D : Deployment F T τ) (w : World T τ) (tr : List (Option Step)) (w' : World T τ) : Prop :=
  ∃ before after sender events u u' m,
    tr = after ++ some (.pool sender .clearHalt events) :: before ∧ Run (Leaking D) w before u ∧
    clearHalt D u sender = .ok (u', events) ∧ Run (Leaking D) u' after w' ∧
    multiplier D u = .ok m ∧ u.pool.lastMultiplier ≤ m

theorem Cleared.cons {tr : List (Option Step)} {u : World T τ} {st : Option Step}
    (h : Cleared D w tr w') (hstep : Leaking D w' st u) : Cleared D w (st :: tr) u := by
  obtain ⟨before, after, sender, events, v, v', m, rfl, hbefore, hclear, hafter, hm⟩ := h
  exact ⟨before, st :: after, sender, events, v, v', m, rfl, hbefore, hclear, hafter.cons hstep, hm⟩

open Sample

end Pocs.Mmf
