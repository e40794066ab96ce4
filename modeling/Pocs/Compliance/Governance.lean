import Pocs.Compliance.System

/-! # What the calls do to the governed state

The policy pair and the pauses are each a few fields of the pool's storage, written by a few calls.
`PoolCall.run_controls` says what an accepted call does to each of them, so that the arguments about
the timelock and the guardian never look at the other entry points. -/

namespace Pocs.Compliance

variable {F T τ : Type} [BnField F]

/-! ## The clock of a run -/

/-- The timestamp after the steps of a run that started at `t₀`. -/
def clock (t₀ : Nat) : List Step → Nat
  | [] => t₀
  | .tick timestamp :: _ => timestamp
  | _ :: tr => clock t₀ tr

section
variable {D : Deployment F T τ} {w w' : World F T τ} {tr : List Step} {sender : Address}
  {events : List PoolEvent} {st : Step}

theorem Transition.timestamp_le (h : Transition D w st w') : w.timestamp ≤ w'.timestamp := by
  cases h with
  | pool _ ok => exact (PoolCall.run_step ok).admitted.timestamp.ge
  | tick le => exact le
  | registry | poolReverted | registryReverted | elsewhere => exact le_rfl

theorem Run.timestamp_le (h : Run (Transition D) w tr w') : w.timestamp ≤ w'.timestamp := by
  induction h with
  | nil => exact le_rfl
  | cons _ hstep ih => exact ih.trans hstep.timestamp_le

theorem Run.epoch_le (h : Run (Transition D) w tr w') : w.epoch D ≤ w'.epoch D :=
  Nat.div_le_div_right (Run.timestamp_le h)

theorem Run.timestamp_eq_clock (h : Run (Transition D) w tr w') : w'.timestamp = clock w.timestamp tr := by
  induction h with
  | nil => rfl
  | cons _ hstep ih =>
    cases hstep with
    | pool _ ok => exact (PoolCall.run_step ok).admitted.timestamp.trans ih
    | tick => rfl
    | registry | poolReverted | registryReverted | elsewhere => exact ih

end

/-! ## The policy pair -/

structure PolicyState where
  activeVerifier : Address
  activePolicySourceHash : Word
  pendingVerifier : Address
  pendingPolicySourceHash : Word
  policyActivationEpoch : Nat

namespace PolicyState

/-- The pending pair has reached its activation epoch. -/
def Due (p : PolicyState) (epoch : Nat) : Prop :=
  p.pendingVerifier ≠ 0 ∧ p.policyActivationEpoch ≤ epoch

instance (p : PolicyState) (epoch : Nat) : Decidable (p.Due epoch) :=
  inferInstanceAs (Decidable (_ ∧ _))

def effective (p : PolicyState) (epoch : Nat) : Address × Word :=
  if p.Due epoch then (p.pendingVerifier, p.pendingPolicySourceHash)
  else (p.activeVerifier, p.activePolicySourceHash)

def cleared (p : PolicyState) : PolicyState :=
  { p with pendingVerifier := 0, pendingPolicySourceHash := 0, policyActivationEpoch := uint256Max }

def queued (p : PolicyState) (verifier : Address) (sourceHash : Word) (activationEpoch : Nat) :
    PolicyState :=
  { p with pendingVerifier := verifier, pendingPolicySourceHash := sourceHash,
           policyActivationEpoch := activationEpoch }

def promote (p : PolicyState) (epoch : Nat) : PolicyState :=
  if p.Due epoch then
    { p.cleared with
      activeVerifier := p.pendingVerifier
      activePolicySourceHash := p.pendingPolicySourceHash }
  else p

variable {p : PolicyState} {epoch : Nat}

theorem effective_of_due (h : p.Due epoch) :
    p.effective epoch = (p.pendingVerifier, p.pendingPolicySourceHash) := if_pos h

theorem effective_of_not_due (h : ¬ p.Due epoch) :
    p.effective epoch = (p.activeVerifier, p.activePolicySourceHash) := if_neg h

theorem not_due_cleared : ¬ p.cleared.Due epoch := fun h => h.1 rfl

theorem not_due_promote : ¬ (p.promote epoch).Due epoch := by
  unfold promote
  split
  · exact fun h => h.1 rfl
  · assumption

theorem effective_promote : (p.promote epoch).effective epoch = p.effective epoch := by
  rw [effective_of_not_due not_due_promote]
  unfold promote
  split
  next h => rw [effective_of_due h]
  next h => rw [effective_of_not_due h]

/-- What is stored after a promotion is what was in force. -/
theorem active_promote : ((p.promote epoch).activeVerifier, (p.promote epoch).activePolicySourceHash) =
    p.effective epoch := by
  rw [← effective_promote, effective_of_not_due not_due_promote]

end PolicyState

def ShieldedPool.policyState (pool : ShieldedPool T) : PolicyState :=
  ⟨pool.activeVerifier, pool.activePolicySourceHash, pool.pendingVerifier,
    pool.pendingPolicySourceHash, pool.policyActivationEpoch⟩

section
variable {D : Deployment F T τ} {w w' : World F T τ} {sender : Address} {events : List PoolEvent}

omit [BnField F] in
theorem effectivePolicy_eq : effectivePolicy D w = w.pool.policyState.effective (w.epoch D) := rfl

end

structure PauseState where
  pausedUntilEpoch : Nat
  blockedExitPausedUntilEpoch : Nat
  pauseBudgetSpent : Nat
  pauseWindowStart : Nat
  guardianArmed : Bool
  blockedFundsAccount : Address

def ShieldedPool.pauseState (pool : ShieldedPool T) : PauseState :=
  ⟨pool.pausedUntilEpoch, pool.blockedExitPausedUntilEpoch, pool.pauseBudgetSpent,
    pool.pauseWindowStart, pool.guardianArmed, pool.blockedFundsAccount⟩

section
variable {D : Deployment F T τ} {w w' : World F T τ} {sender : Address} {events : List PoolEvent}

omit [BnField F] in
theorem maybePromotePolicy_controls (D : Deployment F T τ) (w : World F T τ) :
    ∃ pool events, maybePromotePolicy D w = (w.setPool pool, events) ∧
      pool.policyState = w.pool.policyState.promote (w.epoch D) ∧ pool.pauseState = w.pool.pauseState := by
  unfold maybePromotePolicy PolicyState.promote
  by_cases h : w.pool.pendingVerifier ≠ 0 ∧ w.pool.policyActivationEpoch ≤ w.epoch D
  · have hdue : w.pool.policyState.Due (w.epoch D) := h
    rw [if_pos h, if_pos hdue]
    exact ⟨_, _, rfl, rfl, rfl⟩
  · have hdue : ¬ w.pool.policyState.Due (w.epoch D) := h
    rw [if_neg h, if_neg hdue]
    exact ⟨w.pool, _, rfl, rfl, rfl⟩

theorem insertAll_controls {pool pool' : ShieldedPool T} {ns ls : List Word}
    (h : insertAll D (pool.markAll ns) ls = .ok pool') :
    pool'.policyState = pool.policyState ∧ pool'.pauseState = pool.pauseState := by
  simp only [insertAll, bind_eq_ok, pure_eq_ok] at h
  obtain ⟨_, -, rfl⟩ := h
  exact ⟨rfl, rfl⟩

/-! ## The policy after a call -/

/-- `minDelayEpochs` of `setPolicy`. -/
def Deployment.delayEpochs (D : Deployment F T τ) : Nat :=
  (D.timelockDelaySeconds + D.epochSeconds - 1) / D.epochSeconds

/-- The operation was checked against a verifier and a source hash. -/
def PoolCall.CheckedAgainst (D : Deployment F T τ) (policy : Address × Word) : PoolCall → Prop
  | .deposit p => p.policySourceHash = policy.2 ∧ D.verifyDeposit policy.1 p.proof p.inputs = true
  | .transfer p => p.policySourceHash = policy.2 ∧ D.verifyTransfer policy.1 p.proof p.inputs = true
  | .withdraw p => p.policySourceHash = policy.2 ∧ D.verifyWithdraw policy.1 p.proof p.inputs = true
  | _ => True

/-- The calls that replace or drop what is queued. -/
def PoolCall.requeues : PoolCall → Bool
  | .setPolicy .. => true
  | .cancelPolicy => true
  | _ => false

inductive PolicyStep (D : Deployment F T τ) (w w' : World F T τ) : PoolCall → Prop where
  | entry {call} (checked : call.CheckedAgainst D (effectivePolicy D w))
    (policy : w'.pool.policyState = w.pool.policyState.promote (w.epoch D))
    (keeps : call.requeues = false) : PolicyStep D w w' call
  | setPolicy {verifier sourceHash activationEpoch sourceUri toolchainId} (hasCode : D.hasCode verifier = true)
    (delayed : w.epoch D + D.delayEpochs + 1 ≤ activationEpoch)
    (policy : w'.pool.policyState = (w.pool.policyState.promote (w.epoch D)).queued verifier
      sourceHash activationEpoch) :
    PolicyStep D w w' (.setPolicy verifier sourceHash activationEpoch sourceUri toolchainId)
  | cancelPolicy (policy : w'.pool.policyState = (w.pool.policyState.promote (w.epoch D)).cleared) :
    PolicyStep D w w' .cancelPolicy
  | other {call} (checked : call.CheckedAgainst D (effectivePolicy D w))
    (policy : w'.pool.policyState = w.pool.policyState) (keeps : call.requeues = false) :
    PolicyStep D w w' call

omit [BnField F] in
/-- The pair a promoted pool stores is the one in force. -/
theorem active_eq_effective {pool : ShieldedPool T}
    (h : pool.policyState = w.pool.policyState.promote (w.epoch D)) :
    (pool.activeVerifier, pool.activePolicySourceHash) = effectivePolicy D w := by
  rw [effectivePolicy_eq, ← PolicyState.active_promote, ← h]
  rfl

theorem deposit_policy {p : DepositParams} (h : deposit D w sender p = .ok (w', events)) :
    PolicyStep D w w' (.deposit p) ∧ w'.pool.pauseState = w.pool.pauseState := by
  obtain ⟨pool, promoted, hprom, hpolicy, hpauses⟩ := maybePromotePolicy_controls D w
  simp only [deposit, hprom, bind_eq_ok, failIf_eq_ok, pure_eq_ok, exists_const, not_not,
    Bool.not_eq_false, Prod.mk.injEq] at h
  obtain ⟨-, _, -, -, -, -, -, hash, -, -, _, -, _, -, proof, pool', hins, _, -, rfl, -⟩ := h
  obtain ⟨hpolicy', hpauses'⟩ := insertAll_controls hins
  refine ⟨.entry ?_ (hpolicy'.trans hpolicy) rfl, hpauses'.trans hpauses⟩
  rw [← active_eq_effective hpolicy]
  exact ⟨hash, proof⟩

theorem transfer_policy {p : TransferParams} (h : transfer D w p = .ok (w', events)) :
    PolicyStep D w w' (.transfer p) ∧ w'.pool.pauseState = w.pool.pauseState := by
  obtain ⟨pool, promoted, hprom, hpolicy, hpauses⟩ := maybePromotePolicy_controls D w
  simp only [transfer, hprom, bind_eq_ok, failIf_eq_ok, pure_eq_ok, exists_const, not_not,
    Bool.not_eq_false, Prod.mk.injEq] at h
  obtain ⟨-, _, -, -, -, hash, -, -, -, _, -, _, -, proof, pool', hins, rfl, -⟩ := h
  obtain ⟨hpolicy', hpauses'⟩ := insertAll_controls hins
  refine ⟨.entry ?_ (hpolicy'.trans hpolicy) rfl, hpauses'.trans hpauses⟩
  rw [← active_eq_effective hpolicy]
  exact ⟨hash, proof⟩

theorem withdraw_policy {p : WithdrawParams} (h : withdraw D w p = .ok (w', events)) :
    PolicyStep D w w' (.withdraw p) ∧ w'.pool.pauseState = w.pool.pauseState := by
  obtain ⟨pool, promoted, hprom, hpolicy, hpauses⟩ := maybePromotePolicy_controls D w
  simp only [withdraw, hprom, bind_eq_ok, failIf_eq_ok, pure_eq_ok, exists_const, not_not,
    Bool.not_eq_false, Prod.mk.injEq] at h
  obtain ⟨-, _, -, -, -, -, -, -, hash, -, -, -, _, -, -, _, -, proof, pool', hins, _, -, rfl, -⟩ := h
  obtain ⟨hpolicy', hpauses'⟩ := insertAll_controls hins
  refine ⟨.entry ?_ (hpolicy'.trans hpolicy) rfl, hpauses'.trans hpauses⟩
  rw [← active_eq_effective hpolicy]
  exact ⟨hash, proof⟩

theorem withdrawBlocked_policy {p : WithdrawBlockedParams} (h : withdrawBlocked D w p = .ok (w', events)) :
    PolicyStep D w w' (.withdrawBlocked p) ∧ w'.pool.pauseState = w.pool.pauseState := by
  obtain ⟨pool, promoted, hprom, hpolicy, hpauses⟩ := maybePromotePolicy_controls D w
  simp only [withdrawBlocked, hprom, bind_eq_ok, pure_eq_ok, Prod.mk.injEq] at h
  obtain ⟨_, -, _, -, _, -, _, -, _, -, _, -, _, -, _, -, _, -, rfl, -⟩ := h
  exact ⟨.entry trivial hpolicy rfl, hpauses⟩

omit [BnField F] in
theorem setPolicy_policy {verifier : Address} {sourceHash toolchainId : Word} {activationEpoch : Nat}
    {sourceUri : String} (h : setPolicy D w sender verifier sourceHash activationEpoch sourceUri
      toolchainId = .ok (w', events)) :
    PolicyStep D w w' (.setPolicy verifier sourceHash activationEpoch sourceUri toolchainId) ∧
      w'.pool.pauseState = w.pool.pauseState := by
  obtain ⟨pool, promoted, hprom, hpolicy, hpauses⟩ := maybePromotePolicy_controls D w
  simp only [setPolicy, hprom, bind_eq_ok, failIf_eq_ok, pure_eq_ok, exists_const,
    Bool.not_eq_false, Prod.mk.injEq] at h
  obtain ⟨_, -, hasCode, -, delayed, rfl, -⟩ := h
  refine ⟨.setPolicy hasCode (Nat.not_lt.mp delayed) ?_, hpauses⟩
  rw [← hpolicy]
  rfl

omit [BnField F] in
theorem cancelPolicy_policy (h : cancelPolicy D w sender = .ok (w', events)) :
    PolicyStep D w w' .cancelPolicy ∧ w'.pool.pauseState = w.pool.pauseState := by
  obtain ⟨pool, promoted, hprom, hpolicy, hpauses⟩ := maybePromotePolicy_controls D w
  simp only [cancelPolicy, hprom, bind_eq_ok, pure_eq_ok, Prod.mk.injEq] at h
  obtain ⟨_, -, rfl, -⟩ := h
  refine ⟨.cancelPolicy ?_, hpauses⟩
  rw [← hpolicy]
  rfl

/-! ## The pauses after a call -/

/-- `MAX_BLOCKED_EXIT_PAUSE_EPOCHS` or `MAX_PAUSE_EPOCHS`. -/
def Deployment.pauseCeiling (D : Deployment F T τ) (blockedExit : Bool) : Nat :=
  if blockedExit then D.maxBlockedExitPauseEpochs else D.maxPauseEpochs

/-- The budget of a window that has elapsed is restored. -/
def PauseState.renewed (D : Deployment F T τ) (s : PauseState) (epoch : Nat) : PauseState :=
  if s.pauseWindowStart + D.pauseWindowEpochs ≤ epoch
  then { s with pauseWindowStart := epoch, pauseBudgetSpent := 0 } else s

def PauseState.until (s : PauseState) (blockedExit : Bool) (untilEpoch : Nat) : PauseState :=
  if blockedExit then { s with blockedExitPausedUntilEpoch := untilEpoch }
  else { s with pausedUntilEpoch := untilEpoch }

/-- Epochs are debited, and the last one of the budget disarms the guardian. -/
def PauseState.debited (D : Deployment F T τ) (s : PauseState) (requested : Nat) : PauseState :=
  { s with
    pauseBudgetSpent := s.pauseBudgetSpent + requested
    guardianArmed := if D.pauseBudgetEpochs ≤ s.pauseBudgetSpent + requested then false else s.guardianArmed }

inductive PauseStep (D : Deployment F T τ) (w w' : World F T τ) : PoolCall → Prop where
  | pause {untilEpoch blockedExit} (armed : w.pool.guardianArmed = true) (future : w.epoch D < untilEpoch)
    (ceiling : untilEpoch - w.epoch D ≤ D.pauseCeiling blockedExit)
    (budget : (w.pool.pauseState.renewed D (w.epoch D)).pauseBudgetSpent +
      (untilEpoch - w.epoch D) ≤ D.pauseBudgetEpochs)
    (pauses : w'.pool.pauseState = ((w.pool.pauseState.renewed D (w.epoch D)).debited D
      (untilEpoch - w.epoch D)).until blockedExit untilEpoch) :
    PauseStep D w w' (.pause untilEpoch blockedExit)
  | rearmGuardian (pauses : w'.pool.pauseState = { w.pool.pauseState with
      guardianArmed := true, pauseBudgetSpent := 0, pauseWindowStart := w.epoch D }) :
    PauseStep D w w' .rearmGuardian
  | setBlockedFundsAccount {newAccount} (unpaused : w.pool.pausedUntilEpoch ≤ w.epoch D)
    (exitUnpaused : w.pool.blockedExitPausedUntilEpoch ≤ w.epoch D)
    (lifted : max w.pool.pausedUntilEpoch w.pool.blockedExitPausedUntilEpoch * D.epochSeconds +
      D.timelockDelaySeconds ≤ w.timestamp)
    (pauses : w'.pool.pauseState = { w.pool.pauseState with blockedFundsAccount := newAccount }) :
    PauseStep D w w' (.setBlockedFundsAccount newAccount)
  | other {call} (pauses : w'.pool.pauseState = w.pool.pauseState)
    (not_pause : ∀ untilEpoch blockedExit, call ≠ .pause untilEpoch blockedExit)
    (not_rearm : call ≠ .rearmGuardian) : PauseStep D w w' call

omit [BnField F] in
theorem pause_pauses {untilEpoch : Nat} {blockedExit : Bool}
    (h : pause D w sender untilEpoch blockedExit = .ok (w', events)) :
    PauseStep D w w' (.pause untilEpoch blockedExit) ∧ w'.pool.policyState = w.pool.policyState := by
  simp only [pause, bind_eq_ok, failIf_eq_ok, pure_eq_ok, exists_const, Bool.not_eq_false, not_or,
    Nat.not_le, Nat.not_lt, Prod.mk.injEq] at h
  obtain ⟨_, -, armed, ⟨future, ceiling⟩, budget, rfl, -⟩ := h
  -- the window has elapsed or not, and the budget is used up or not
  by_cases hwindow : w.pool.pauseWindowStart + D.pauseWindowEpochs ≤ w.epoch D
  · have hrenewed : w.pool.pauseState.renewed D (w.epoch D) = { w.pool.pauseState with
        pauseWindowStart := w.epoch D, pauseBudgetSpent := 0 } := if_pos hwindow
    simp only [if_pos hwindow] at budget ⊢
    refine ⟨.pause armed future ceiling (by rw [hrenewed]; exact budget) ?_, ?_⟩
    · rw [hrenewed, PauseState.debited]
      by_cases hspent : D.pauseBudgetEpochs ≤ 0 + (untilEpoch - w.epoch D)
      · simp only [if_pos hspent]
        cases blockedExit <;> rfl
      · simp only [if_neg hspent]
        cases blockedExit <;> rfl
    · split <;> split <;> rfl
  · have hrenewed : w.pool.pauseState.renewed D (w.epoch D) = w.pool.pauseState := if_neg hwindow
    simp only [if_neg hwindow] at budget ⊢
    refine ⟨.pause armed future ceiling (by rw [hrenewed]; exact budget) ?_, ?_⟩
    · rw [hrenewed, PauseState.debited]
      by_cases hspent : D.pauseBudgetEpochs ≤ w.pool.pauseBudgetSpent + (untilEpoch - w.epoch D)
      · have hspent' : D.pauseBudgetEpochs ≤ w.pool.pauseState.pauseBudgetSpent +
            (untilEpoch - w.epoch D) := hspent
        simp only [if_pos hspent, if_pos hspent']
        cases blockedExit <;> rfl
      · have hspent' : ¬ D.pauseBudgetEpochs ≤ w.pool.pauseState.pauseBudgetSpent +
            (untilEpoch - w.epoch D) := hspent
        simp only [if_neg hspent, if_neg hspent']
        cases blockedExit <;> rfl
    · split <;> split <;> rfl

omit [BnField F] in
theorem setBlockedFundsAccount_pauses {newAccount : Address}
    (h : setBlockedFundsAccount D w sender newAccount = .ok (w', events)) :
    PauseStep D w w' (.setBlockedFundsAccount newAccount) ∧ w'.pool.policyState = w.pool.policyState := by
  simp only [setBlockedFundsAccount, bind_eq_ok, failIf_eq_ok, pure_eq_ok, exists_const, not_or,
    Nat.not_lt, Prod.mk.injEq] at h
  obtain ⟨_, -, -, ⟨unpaused, exitUnpaused⟩, lifted, rfl, -⟩ := h
  refine ⟨.setBlockedFundsAccount unpaused exitUnpaused ?_ rfl, rfl⟩
  split at lifted
  next hgt => rwa [Nat.max_eq_left hgt.le]
  next hle => rwa [Nat.max_eq_right (Nat.not_lt.mp hle)]

theorem PoolCall.run_controls {call : PoolCall} (h : PoolCall.run D sender w call = .ok (w', events)) :
    PolicyStep D w w' call ∧ PauseStep D w w' call := by
  cases call with
  | deposit p => exact (deposit_policy h).imp_right fun h => .other h (fun _ _ => nofun) nofun
  | transfer p => exact (transfer_policy h).imp_right fun h => .other h (fun _ _ => nofun) nofun
  | withdraw p => exact (withdraw_policy h).imp_right fun h => .other h (fun _ _ => nofun) nofun
  | withdrawBlocked p =>
    exact (withdrawBlocked_policy h).imp_right fun h => .other h (fun _ _ => nofun) nofun
  | setPolicy => exact (setPolicy_policy h).imp_right fun h => .other h (fun _ _ => nofun) nofun
  | cancelPolicy => exact (cancelPolicy_policy h).imp_right fun h => .other h (fun _ _ => nofun) nofun
  | pause => exact ⟨.other trivial (pause_pauses h).2 rfl, (pause_pauses h).1⟩
  | setBlockedFundsAccount =>
    exact ⟨.other trivial (setBlockedFundsAccount_pauses h).2 rfl, (setBlockedFundsAccount_pauses h).1⟩
  | rearmGuardian =>
    obtain ⟨_, -, h⟩ := bind_eq_ok.mp h
    cases pure_eq_ok.mp h
    exact ⟨.other trivial rfl rfl, .rearmGuardian rfl⟩
  | claimBlocked | setUngatedWithdrawVerifier | setCommittee =>
    obtain ⟨_, -, h⟩ := bind_eq_ok.mp h
    obtain ⟨_, -, h⟩ := bind_eq_ok.mp h
    cases pure_eq_ok.mp h
    exact ⟨.other trivial rfl rfl, .other rfl (fun _ _ => nofun) nofun⟩
  | setSingleTxThreshold | setBlockedDestination | recordGrant | grantRole | revokeRole | renounceRole =>
    obtain ⟨_, -, h⟩ := bind_eq_ok.mp h
    cases pure_eq_ok.mp h
    exact ⟨.other trivial rfl rfl, .other rfl (fun _ _ => nofun) nofun⟩

end

end Pocs.Compliance
