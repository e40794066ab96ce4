import Pocs.Compliance.Governance
import Pocs.Compliance.Honest

/-! # The guardian's powers

The budget of the guardian is kept as a counter with a window that is renewed lazily. `budget` reads
the grants since the last renewal off the calls of a run; `PauseInv` ties the counter to it. The lock
on `blockedFundsAccount` is computed from the two pause fields alone, which is enough because a pause
is only ever overwritten by one that ends later than the present (`paused_of_earlier`). -/

namespace Pocs.Compliance

open PauseState

variable {F T τ : Type} [BnField F] {D : Deployment F T τ} {w w' s : World F T τ} {tr tr' : List Step}
  {sender : Address} {events : List PoolEvent} {st : Step}

/-! ## What the calls of a run granted -/

/-- The epoch after the steps of a run that started at `t₀`. -/
def epochAfter (D : Deployment F T τ) (t₀ : Nat) (tr : List Step) : Nat :=
  clock t₀ tr / D.epochSeconds

/-- The epoch in which the current window began, and the epochs granted by each pause since. -/
def budget (D : Deployment F T τ) (t₀ : Nat) : List Step → Nat × List Nat
  | [] => (t₀ / D.epochSeconds, [])
  | .pool _ (.pause untilEpoch _) :: tr =>
    let epoch := epochAfter D t₀ tr
    if (budget D t₀ tr).1 + D.pauseWindowEpochs ≤ epoch then (epoch, [untilEpoch - epoch])
    else ((budget D t₀ tr).1, (untilEpoch - epoch) :: (budget D t₀ tr).2)
  | .pool _ .rearmGuardian :: tr => (epochAfter D t₀ tr, [])
  | _ :: tr => budget D t₀ tr

/-- The end of the last pause of each kind, zero if there was none. -/
def lastPause (blockedExit : Bool) : List Step → Nat
  | [] => 0
  | .pool _ (.pause untilEpoch blockedExit') :: tr =>
    if blockedExit' = blockedExit then untilEpoch else lastPause blockedExit tr
  | _ :: tr => lastPause blockedExit tr

def World.paused (D : Deployment F T τ) (w : World F T τ) : Prop :=
  w.epoch D < w.pool.pausedUntilEpoch ∨ w.epoch D < w.pool.blockedExitPausedUntilEpoch

section
variable {t₀ : Nat} {call : PoolCall} {blockedExit : Bool}

omit [BnField F] in
theorem budget_other (hpause : ∀ u b, call ≠ .pause u b) (hrearm : call ≠ .rearmGuardian) :
    budget D t₀ (.pool sender call :: tr) = budget D t₀ tr := by
  cases call with
  | pause u b => exact absurd rfl (hpause u b)
  | rearmGuardian => exact absurd rfl hrearm
  | _ => rfl

theorem lastPause_other (hpause : ∀ u b, call ≠ .pause u b) :
    lastPause blockedExit (.pool sender call :: tr) = lastPause blockedExit tr := by
  cases call with
  | pause u b => exact absurd rfl (hpause u b)
  | _ => rfl

end

/-! ## What every run keeps -/

/-- The counters are those of the calls, and the pauses those that were set last. -/
structure PauseInv (D : Deployment F T τ) (t₀ : Nat) (tr : List Step) (pauses : PauseState) : Prop where
  start : pauses.pauseWindowStart = (budget D t₀ tr).1
  spent : pauses.pauseBudgetSpent = (budget D t₀ tr).2.sum
  le_budget : pauses.pauseBudgetSpent ≤ D.pauseBudgetEpochs
  armed : 0 < D.pauseBudgetEpochs →
    (pauses.guardianArmed = true ↔ pauses.pauseBudgetSpent < D.pauseBudgetEpochs)
  paused : pauses.pausedUntilEpoch = lastPause false tr
  exitPaused : pauses.blockedExitPausedUntilEpoch = lastPause true tr
  ceilings : ∀ tr₁ tr₂ sender untilEpoch blockedExit,
    tr = tr₂ ++ .pool sender (.pause untilEpoch blockedExit) :: tr₁ →
    epochAfter D t₀ tr₁ < untilEpoch ∧ untilEpoch ≤ epochAfter D t₀ tr₁ + D.pauseCeiling blockedExit

section
variable {t₀ : Nat} {pauses pauses' : PauseState}

omit [BnField F] in
/-- A step that is neither a pause nor a rearming. -/
theorem PauseInv.idle (inv : PauseInv D t₀ tr pauses) (hbudget : budget D t₀ (st :: tr) = budget D t₀ tr)
    (hpause : ∀ b, lastPause b (st :: tr) = lastPause b tr)
    (hst : ∀ sender u b, st ≠ .pool sender (.pause u b)) : PauseInv D t₀ (st :: tr) pauses where
  start := by rw [hbudget]; exact inv.start
  spent := by rw [hbudget]; exact inv.spent
  le_budget := inv.le_budget
  armed := inv.armed
  paused := by rw [hpause]; exact inv.paused
  exitPaused := by rw [hpause]; exact inv.exitPaused
  ceilings tr₁ tr₂ sender u b h := by
    cases tr₂ with
    | nil => exact absurd (List.cons.inj h).1 (hst sender u b)
    | cons _ tr₂ => exact inv.ceilings tr₁ tr₂ sender u b (List.cons.inj h).2

omit [BnField F] in
theorem PauseInv.pause (inv : PauseInv D t₀ tr pauses) {untilEpoch : Nat} {blockedExit : Bool}
    (harmed : pauses.guardianArmed = true) (hfuture : epochAfter D t₀ tr < untilEpoch)
    (hceiling : untilEpoch - epochAfter D t₀ tr ≤ D.pauseCeiling blockedExit)
    (hbudget : (pauses.renewed D (epochAfter D t₀ tr)).pauseBudgetSpent +
      (untilEpoch - epochAfter D t₀ tr) ≤ D.pauseBudgetEpochs) :
    PauseInv D t₀ (.pool sender (.pause untilEpoch blockedExit) :: tr)
      (((pauses.renewed D (epochAfter D t₀ tr)).debited D (untilEpoch - epochAfter D t₀ tr)).until
        blockedExit untilEpoch) := by
  have hrenewed : (pauses.renewed D (epochAfter D t₀ tr)).guardianArmed = true ∧
      (pauses.renewed D (epochAfter D t₀ tr)).pausedUntilEpoch = pauses.pausedUntilEpoch ∧
      (pauses.renewed D (epochAfter D t₀ tr)).blockedExitPausedUntilEpoch =
        pauses.blockedExitPausedUntilEpoch := by
    unfold renewed
    split <;> exact ⟨harmed, rfl, rfl⟩
  have hwindow : budget D t₀ (.pool sender (.pause untilEpoch blockedExit) :: tr) =
      ((pauses.renewed D (epochAfter D t₀ tr)).pauseWindowStart,
        if pauses.pauseWindowStart + D.pauseWindowEpochs ≤ epochAfter D t₀ tr
        then [untilEpoch - epochAfter D t₀ tr]
        else (untilEpoch - epochAfter D t₀ tr) :: (budget D t₀ tr).2) := by
    unfold renewed
    rw [budget, ← inv.start]
    split <;> rfl
  have hsum : (pauses.renewed D (epochAfter D t₀ tr)).pauseBudgetSpent + (untilEpoch - epochAfter D t₀ tr) =
        (budget D t₀ (.pool sender (.pause untilEpoch blockedExit) :: tr)).2.sum := by
    rw [hwindow]
    unfold renewed
    split
    · simp
    · rw [List.sum_cons, ← inv.spent, Nat.add_comm]
  refine
    { start := by rw [hwindow]; cases blockedExit <;> rfl
      spent := by rw [← hsum]; cases blockedExit <;> rfl
      le_budget := by cases blockedExit <;> exact hbudget
      armed := fun _ => ?_
      paused := ?_
      exitPaused := ?_
      ceilings := fun tr₁ tr₂ sender' u b h => ?_ }
  · have hiff : (if D.pauseBudgetEpochs ≤ (pauses.renewed D (epochAfter D t₀ tr)).pauseBudgetSpent +
        (untilEpoch - epochAfter D t₀ tr) then false
        else (pauses.renewed D (epochAfter D t₀ tr)).guardianArmed) = true ↔
        (pauses.renewed D (epochAfter D t₀ tr)).pauseBudgetSpent +
          (untilEpoch - epochAfter D t₀ tr) < D.pauseBudgetEpochs := by
      rw [hrenewed.1]
      split
      next hle => exact ⟨nofun, fun hlt => absurd hle (Nat.not_le.mpr hlt)⟩
      next hlt => exact ⟨fun _ => Nat.not_le.mp hlt, fun _ => rfl⟩
    cases blockedExit <;> exact hiff
  · cases blockedExit with
    | false => rfl
    | true => exact hrenewed.2.1.trans inv.paused
  · cases blockedExit with
    | false => exact hrenewed.2.2.trans inv.exitPaused
    | true => rfl
  · cases tr₂ with
    | nil =>
      obtain ⟨hst, rfl⟩ := List.cons.inj h
      cases hst
      exact ⟨hfuture, by omega⟩
    | cons _ tr₂ => exact inv.ceilings tr₁ tr₂ sender' u b (List.cons.inj h).2

omit [BnField F] in
theorem PauseInv.rearmGuardian (inv : PauseInv D t₀ tr pauses) :
    PauseInv D t₀ (.pool sender .rearmGuardian :: tr) { pauses with
      guardianArmed := true, pauseBudgetSpent := 0, pauseWindowStart := epochAfter D t₀ tr } where
  start := rfl
  spent := rfl
  le_budget := Nat.zero_le _
  armed hpos := ⟨fun _ => hpos, fun _ => rfl⟩
  paused := inv.paused
  exitPaused := inv.exitPaused
  ceilings tr₁ tr₂ sender' u b h := by
    cases tr₂ with
    | nil => exact absurd (List.cons.inj h).1 nofun
    | cons _ tr₂ => exact inv.ceilings tr₁ tr₂ sender' u b (List.cons.inj h).2

omit [BnField F] in
/-- The account is not part of the invariant. -/
theorem PauseInv.setAccount (inv : PauseInv D t₀ tr pauses) (account : Address) :
    PauseInv D t₀ tr { pauses with blockedFundsAccount := account } :=
  ⟨inv.start, inv.spent, inv.le_budget, inv.armed, inv.paused, inv.exitPaused, inv.ceilings⟩

theorem PauseInv.step (inv : PauseInv D t₀ tr w.pool.pauseState) (htime : w.timestamp = clock t₀ tr)
    (h : Transition D w st w') : PauseInv D t₀ (st :: tr) w'.pool.pauseState := by
  cases h with
  | pool _ ok =>
    have hepoch : w.epoch D = epochAfter D t₀ tr := by rw [World.epoch, htime, epochAfter]
    cases (PoolCall.run_controls ok).2 with
    | pause armed future ceiling budget pauses =>
      rw [pauses, hepoch]
      rw [hepoch] at future ceiling budget
      exact inv.pause armed future ceiling budget
    | rearmGuardian pauses =>
      rw [pauses, hepoch]
      exact inv.rearmGuardian
    | setBlockedFundsAccount _ _ _ pauses =>
      rw [pauses]
      exact (inv.setAccount _).idle rfl (fun _ => rfl) nofun
    | other pauses not_pause not_rearm =>
      rw [pauses]
      refine inv.idle (budget_other not_pause not_rearm) (fun _ => lastPause_other not_pause) ?_
      rintro sender u b h
      cases h
      exact not_pause u b rfl
  | registry | poolReverted | registryReverted | tick | elsewhere =>
    exact inv.idle rfl (fun _ => rfl) nofun

end

theorem Deployed.pauseInv (h : Deployed D w) : PauseInv D w.timestamp [] w.pool.pauseState ∧
    D.epochSeconds ≠ 0 := by
  obtain ⟨-, hpool⟩ := h
  simp only [ShieldedPool.new, bind_eq_ok, failIf_eq_ok, pure_eq_ok, exists_const] at hpool
  obtain ⟨-, hseconds, -, -, rfl⟩ := hpool
  refine ⟨?_, hseconds⟩
  exact
    { start := rfl
      spent := rfl
      le_budget := Nat.zero_le _
      armed := fun hpos => ⟨fun _ => hpos, fun _ => rfl⟩
      paused := rfl
      exitPaused := rfl
      ceilings := fun _ tr₂ _ _ _ h => by cases tr₂ <;> cases h }

theorem Run.pauseInv {w₀ : World F T τ} (h₀ : Deployed D w₀) (hrun : Run (Transition D) w₀ tr w) :
    PauseInv D w₀.timestamp tr w.pool.pauseState := by
  refine hrun.invariant (I := fun tr w => PauseInv D w₀.timestamp tr w.pool.pauseState) h₀.pauseInv.1 ?_
  intro tr w st w' hrun hstep inv
  exact inv.step (Run.timestamp_eq_clock hrun) hstep

/-- A pause that was active is only overwritten by one that ends after that moment. -/
theorem paused_of_earlier (hrun : Run (Transition D) s tr w) (hpaused : s.paused D) :
    s.epoch D < w.pool.pausedUntilEpoch ∨ s.epoch D < w.pool.blockedExitPausedUntilEpoch := by
  induction hrun with
  | nil => exact hpaused
  | @cons tr w w' st hrun hstep ih =>
    have hepoch := Run.epoch_le hrun
    cases hstep with
    | pool _ ok =>
      have hsame : w'.pool.pausedUntilEpoch = w.pool.pausedUntilEpoch →
          w'.pool.blockedExitPausedUntilEpoch = w.pool.blockedExitPausedUntilEpoch →
          s.epoch D < w'.pool.pausedUntilEpoch ∨ s.epoch D < w'.pool.blockedExitPausedUntilEpoch := by
        intro hpaused hexit
        rw [hpaused, hexit]
        exact ih
      cases (PoolCall.run_controls ok).2 with
      | @pause untilEpoch blockedExit _ future _ _ pauses =>
        cases blockedExit with
        | false =>
          have huntil : w'.pool.pausedUntilEpoch = untilEpoch :=
            congrArg pausedUntilEpoch pauses
          exact .inl (huntil ▸ hepoch.trans_lt future)
        | true =>
          have huntil : w'.pool.blockedExitPausedUntilEpoch = untilEpoch :=
            congrArg blockedExitPausedUntilEpoch pauses
          exact .inr (huntil ▸ hepoch.trans_lt future)
      | rearmGuardian pauses | setBlockedFundsAccount _ _ _ pauses | other pauses =>
        exact hsame (congrArg pausedUntilEpoch pauses) (congrArg blockedExitPausedUntilEpoch pauses)
    | registry | poolReverted | registryReverted | tick | elsewhere => exact ih

theorem Transition.account_changed (h : Transition D w st w')
    (hne : w'.pool.blockedFundsAccount ≠ w.pool.blockedFundsAccount) : ¬ w.paused D ∧
      max w.pool.pausedUntilEpoch w.pool.blockedExitPausedUntilEpoch * D.epochSeconds +
        D.timelockDelaySeconds ≤ w.timestamp := by
  cases h with
  | pool _ ok =>
    cases (PoolCall.run_controls ok).2 with
    | @pause _ blockedExit _ _ _ _ pauses =>
      have hrenewed : (w.pool.pauseState.renewed D (w.epoch D)).blockedFundsAccount =
          w.pool.blockedFundsAccount := by
        unfold renewed
        split <;> rfl
      refine absurd ((congrArg PauseState.blockedFundsAccount pauses).trans ?_) hne
      cases blockedExit with
      | false => exact hrenewed
      | true => exact hrenewed
    | rearmGuardian pauses | other pauses =>
      exact absurd (congrArg PauseState.blockedFundsAccount pauses) hne
    | setBlockedFundsAccount unpaused exitUnpaused lifted =>
      refine ⟨?_, lifted⟩
      rintro (h | h)
      · exact absurd h (Nat.not_lt.mpr unpaused)
      · exact absurd h (Nat.not_lt.mpr exitUnpaused)
  | registry | poolReverted | registryReverted | tick | elsewhere => exact absurd rfl hne

/-- In every run: the epochs granted since the last renewal or rearming sum to the counter, which stays
in the budget; with a positive budget the guardian is armed exactly while some of it is left; each
pause field is the end of the last pause of its kind, at most the ceiling after the epoch it was set
in; and a step that changes the account comes when no pause is active and, for every earlier moment of
the run with an active pause, more than the timelock's delay later. The clock can stop at any moment,
so the earlier moments reach up to each lift. -/
theorem guardian_bounded {w₀ : World F T τ} (h₀ : Deployed D w₀) (hrun : Run (Transition D) w₀ tr w) :
    w.pool.pauseBudgetSpent = (budget D w₀.timestamp tr).2.sum ∧ w.pool.pauseBudgetSpent ≤ D.pauseBudgetEpochs ∧
    (0 < D.pauseBudgetEpochs → (w.pool.guardianArmed = true ↔ w.pool.pauseBudgetSpent < D.pauseBudgetEpochs)) ∧
    w.pool.pausedUntilEpoch = lastPause false tr ∧ w.pool.blockedExitPausedUntilEpoch = lastPause true tr ∧
    (∀ tr₁ tr₂ sender untilEpoch blockedExit, tr = tr₂ ++ .pool sender (.pause untilEpoch blockedExit) :: tr₁ →
      epochAfter D w₀.timestamp tr₁ < untilEpoch ∧ untilEpoch ≤ epochAfter D w₀.timestamp tr₁ +
          if blockedExit then D.maxBlockedExitPauseEpochs else D.maxPauseEpochs) ∧
    ∀ st w', Transition D w st w' → w'.pool.blockedFundsAccount ≠ w.pool.blockedFundsAccount → ¬ w.paused D ∧
      max w.pool.pausedUntilEpoch w.pool.blockedExitPausedUntilEpoch * D.epochSeconds +
        D.timelockDelaySeconds ≤ w.timestamp ∧
      ∀ tr₁ tr₂ s, Run (Transition D) w₀ tr₁ s → Run (Transition D) s tr₂ w → s.paused D →
        s.timestamp + D.timelockDelaySeconds < w.timestamp := by
  have inv := Run.pauseInv h₀ hrun
  refine ⟨inv.spent, inv.le_budget, inv.armed, inv.paused, inv.exitPaused, inv.ceilings, ?_⟩
  intro st w' hstep hne
  obtain ⟨hunpaused, hlifted⟩ := hstep.account_changed hne
  refine ⟨hunpaused, hlifted, fun tr₁ tr₂ s _ hrest hpaused => ?_⟩
  -- the pause of `s` or one after it ends after the epoch of `s`
  have hlater : s.epoch D + 1 ≤ max w.pool.pausedUntilEpoch w.pool.blockedExitPausedUntilEpoch :=
    lt_max_iff.mpr (paused_of_earlier hrest hpaused)
  have hpos : 0 < D.epochSeconds := Nat.pos_of_ne_zero h₀.pauseInv.2
  have hend : s.timestamp < (s.epoch D + 1) * D.epochSeconds :=
    (Nat.div_lt_iff_lt_mul hpos).mp (Nat.lt_succ_self _)
  have hmul := Nat.mul_le_mul_right D.epochSeconds hlater
  omega

omit [BnField F] in
/-- An armed guardian pauses within the ceiling and what is left of the budget. -/
theorem pause_complete {untilEpoch : Nat} (hrole : w.pool.roles .guardian sender = true)
    (harmed : w.pool.guardianArmed = true) (hfuture : w.epoch D < untilEpoch)
    (hceiling : untilEpoch - w.epoch D ≤ D.maxPauseEpochs) (hspent : w.pool.pauseBudgetSpent = 0)
    (hbudget : untilEpoch - w.epoch D ≤ D.pauseBudgetEpochs) :
    ∃ w' events, pause D w sender untilEpoch false = .ok (w', events) := by
  have hrole' : ¬ w.pool.roles .guardian sender = false := by simp [hrole]
  have harmed' : ¬ w.pool.guardianArmed = false := by simp [harmed]
  refine ⟨_, _, bind_eq_ok.mpr ⟨(), failIf_neg hrole' _, bind_eq_ok.mpr ⟨(), failIf_neg harmed' _,
    bind_eq_ok.mpr ⟨(), failIf_neg ?_ _, bind_eq_ok.mpr ⟨(), failIf_neg ?_ _, rfl⟩⟩⟩⟩⟩
  · rintro (h | h)
    · exact absurd hfuture (Nat.not_lt.mpr h)
    · exact absurd hceiling (Nat.not_le.mpr h)
  · rw [Nat.not_lt]
    split
    · exact (Nat.zero_add _).trans_le hbudget
    · rw [hspent]
      exact (Nat.zero_add _).trans_le hbudget

open Sample (deployment registry₀ timestamp)

/-- A pause of two epochs out of a budget of four. -/
theorem guardian_bounded_pause : ∃ w₀ w, Deployed (deployment idealHash) w₀ ∧
    Run (Transition (deployment idealHash)) w₀ [.pool 6 (.pause 9 false)] w ∧
    w.pool.pauseBudgetSpent = 2 ∧ w.pool.pausedUntilEpoch = 9 ∧ w.pool.guardianArmed = true := by
  obtain ⟨pool, hpool, hrole, harmed, hspent⟩ : ∃ pool, ShieldedPool.new
      (deployment idealHash) timestamp Sample.constructorParams = .ok pool ∧
      pool.roles .guardian 6 = true ∧ pool.guardianArmed = true ∧ pool.pauseBudgetSpent = 0 :=
    ⟨_, rfl, rfl, rfl, rfl⟩
  have hdeployed : Deployed (deployment idealHash) ⟨timestamp, registry₀ idealHash, pool, fun _ => 0⟩ :=
    .mk (Sample.registry_new idealHash) hpool
  obtain ⟨w, events, hpause⟩ : ∃ w' events, pause (deployment idealHash)
      ⟨timestamp, registry₀ idealHash, pool, fun _ => 0⟩ 6 9 false = .ok (w', events) := by
    refine pause_complete hrole harmed ?_ ?_ hspent ?_
    · show 604800 / 86400 < 9
      decide
    · show 9 - 604800 / 86400 ≤ 2
      decide
    · show 9 - 604800 / 86400 ≤ 4
      decide
  have hsender : (6 : Address) ≠ (deployment idealHash).address := by
    show (6 : Address) ≠ 10
    decide
  have hrun : Run (Transition (deployment idealHash)) ⟨timestamp, registry₀ idealHash, pool, fun _ => 0⟩
      [.pool 6 (.pause 9 false)] w := .cons .nil (.pool hsender hpause)
  obtain ⟨hsum, -, harmed', huntil, -⟩ := guardian_bounded hdeployed hrun
  have hwindow : ¬ (budget (deployment idealHash) timestamp []).1 + (deployment idealHash).pauseWindowEpochs ≤
        epochAfter (deployment idealHash) timestamp [] := by
    show ¬ 604800 / 86400 + 30 ≤ 604800 / 86400
    decide
  have htwo : w.pool.pauseBudgetSpent = 2 := by
    rw [hsum, budget]
    simp only [if_neg hwindow]
    show 9 - 604800 / 86400 + 0 = 2
    rfl
  have hbudget : 0 < (deployment idealHash).pauseBudgetEpochs := by
    show 0 < 4
    decide
  refine ⟨_, w, hdeployed, hrun, htwo, huntil, (harmed' hbudget).mpr ?_⟩
  rw [htwo]
  show 2 < 4
  decide

end Pocs.Compliance
