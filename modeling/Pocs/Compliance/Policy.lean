import Mathlib.Algebra.Order.Floor.Div
import Pocs.Compliance.Governance
import Pocs.Compliance.Honest

/-! # The policy and its timelock

Promotion is lazy: the stored pair lags the pair in force until the next call. No call changes the
pair in force at its own moment (`effectivePolicy_call`), so it is constant in an epoch, and the clock
only ever brings in the pending pair, which some earlier call queued (`PolicyInv`). -/

namespace Pocs.Compliance

open PoolCall

variable {F T τ : Type} [BnField F] {D : Deployment F T τ} {w w' s : World F T τ} {tr tr' : List Step}
  {sender : Address} {events : List PoolEvent} {st : Step}

/-! ## One step -/

namespace PolicyState
variable {p : PolicyState} {epoch : Nat} {verifier : Address} {sourceHash : Word} {activationEpoch : Nat}

/-- A cancelled pair was not in force. -/
theorem effective_cleared : (p.promote epoch).cleared.effective epoch = p.effective epoch := by
  rw [effective_of_not_due not_due_cleared]
  exact active_promote

/-- A queued pair is not in force yet. -/
theorem effective_queued (h : epoch < activationEpoch) :
    ((p.promote epoch).queued verifier sourceHash activationEpoch).effective epoch = p.effective epoch := by
  rw [effective_of_not_due fun hdue => absurd hdue.2 (Nat.not_le.mpr h)]
  exact active_promote

theorem promote_of_not_due (h : ¬ p.Due epoch) : p.promote epoch = p := if_neg h

theorem promote_of_due (h : p.Due epoch) : p.promote epoch = { p.cleared with
    activeVerifier := p.pendingVerifier
    activePolicySourceHash := p.pendingPolicySourceHash } := if_pos h

end PolicyState

open PolicyState

theorem PoolCall.run_epoch {call : PoolCall} (h : PoolCall.run D sender w call = .ok (w', events)) :
    w'.epoch D = w.epoch D := by
  rw [World.epoch, World.epoch, (run_step h).admitted.timestamp]

/-- No call changes the pair in force. -/
theorem effectivePolicy_call {call : PoolCall} (h : PoolCall.run D sender w call = .ok (w', events)) :
    effectivePolicy D w' = effectivePolicy D w := by
  rw [effectivePolicy_eq, effectivePolicy_eq, run_epoch h]
  cases (run_controls h).1 with
  | entry _ policy =>
    rw [policy]
    exact effective_promote
  | setPolicy _ delayed policy =>
    rw [policy]
    exact effective_queued (by omega)
  | cancelPolicy policy =>
    rw [policy]
    exact effective_cleared
  | other _ policy => rw [policy]

theorem effectivePolicy_step (h : Transition D w st w') (hepoch : w'.epoch D = w.epoch D) :
    effectivePolicy D w' = effectivePolicy D w := by
  cases h with
  | pool _ ok => exact effectivePolicy_call ok
  | tick =>
    rw [effectivePolicy_eq, effectivePolicy_eq, hepoch]
  | registry | poolReverted | registryReverted | elsewhere => rfl

theorem Run.effectivePolicy_eq (h : Run (Transition D) s tr w) (hepoch : w.epoch D = s.epoch D) :
    effectivePolicy D w = effectivePolicy D s := by
  induction h with
  | nil => rfl
  | cons run hstep ih =>
    -- the epochs in between are squeezed
    have hfirst := Run.epoch_le run
    have hlast := Nat.div_le_div_right (c := D.epochSeconds) hstep.timestamp_le
    have hmid := le_antisymm (hlast.trans hepoch.le) hfirst
    exact (effectivePolicy_step hstep (hepoch.trans hmid.symm)).trans (ih hmid)

/-! ## Where the pair in force comes from -/

/-- A call of the run queued the pair, early enough before its activation epoch. -/
def QueuedIn (D : Deployment F T τ) (t₀ : Nat) (tr : List Step) (policy : Address × Word)
    (activationEpoch : Nat) : Prop :=
  ∃ tr₁ tr₂ sender sourceUri toolchainId,
    tr = tr₂ ++ .pool sender (.setPolicy policy.1 policy.2 activationEpoch sourceUri toolchainId) :: tr₁ ∧
    clock t₀ tr₁ / D.epochSeconds + D.delayEpochs + 1 ≤ activationEpoch

omit [BnField F] in
theorem QueuedIn.cons {t₀ activationEpoch : Nat} {policy : Address × Word}
    (h : QueuedIn D t₀ tr policy activationEpoch) (st : Step) :
    QueuedIn D t₀ (st :: tr) policy activationEpoch := by
  obtain ⟨tr₁, tr₂, sender, sourceUri, toolchainId, rfl, hle⟩ := h
  exact ⟨tr₁, st :: tr₂, sender, sourceUri, toolchainId, rfl, hle⟩

/-- In a run from a moment at which nothing waits for its activation: the pair in force is still that
of the start or was queued since, and so was what waits now. -/
structure PolicyInv (D : Deployment F T τ) (s : World F T τ) (tr : List Step) (w : World F T τ) : Prop where
  inForce : effectivePolicy D w = effectivePolicy D s ∨ ∃ activationEpoch ≤ w.epoch D,
    QueuedIn D s.timestamp tr (effectivePolicy D w) activationEpoch
  waiting : w.pool.pendingVerifier ≠ 0 → w.epoch D < w.pool.policyActivationEpoch →
    QueuedIn D s.timestamp tr (w.pool.pendingVerifier, w.pool.pendingPolicySourceHash)
      w.pool.policyActivationEpoch

omit [BnField F] in
/-- A step after which the same pair is in force. -/
theorem PolicyInv.same (inv : PolicyInv D s tr w) (heq : effectivePolicy D w' = effectivePolicy D w)
    (hepoch : w.epoch D ≤ w'.epoch D)
    (hwaiting : w'.pool.pendingVerifier ≠ 0 → w'.epoch D < w'.pool.policyActivationEpoch →
      QueuedIn D s.timestamp (st :: tr) (w'.pool.pendingVerifier, w'.pool.pendingPolicySourceHash)
        w'.pool.policyActivationEpoch) : PolicyInv D s (st :: tr) w' := by
  refine ⟨?_, hwaiting⟩
  rw [heq]
  refine inv.inForce.imp_right ?_
  rintro ⟨activationEpoch, hle, hqueued⟩
  exact ⟨activationEpoch, hle.trans hepoch, hqueued.cons st⟩

theorem PolicyInv.call (inv : PolicyInv D s tr w) (htime : w.timestamp = clock s.timestamp tr)
    {call : PoolCall} (h : PoolCall.run D sender w call = .ok (w', events)) :
    PolicyInv D s (.pool sender call :: tr) w' := by
  have hepoch := run_epoch h
  refine inv.same (effectivePolicy_call h) hepoch.ge fun hne hlt => ?_
  rw [hepoch] at hlt
  -- what waits after the call waited before it, or the call queued it
  have hold : w'.pool.policyState = w.pool.policyState → QueuedIn D s.timestamp (.pool sender call :: tr)
        (w'.pool.pendingVerifier, w'.pool.pendingPolicySourceHash) w'.pool.policyActivationEpoch := by
    intro hsame
    have hverifier : w'.pool.pendingVerifier = w.pool.pendingVerifier :=
      congrArg pendingVerifier hsame
    have hsource : w'.pool.pendingPolicySourceHash = w.pool.pendingPolicySourceHash :=
      congrArg pendingPolicySourceHash hsame
    have hactivation : w'.pool.policyActivationEpoch = w.pool.policyActivationEpoch :=
      congrArg policyActivationEpoch hsame
    rw [hverifier] at hne
    rw [hactivation] at hlt
    rw [hverifier, hsource, hactivation]
    exact (inv.waiting hne hlt).cons _
  cases (run_controls h).1 with
  | entry _ policy =>
    by_cases hdue : w.pool.policyState.Due (w.epoch D)
    · rw [promote_of_due hdue] at policy
      exact absurd (congrArg pendingVerifier policy) hne
    · rw [promote_of_not_due hdue] at policy
      exact hold policy
  | @setPolicy verifier sourceHash activationEpoch sourceUri toolchainId _ delayed policy =>
    have hverifier : w'.pool.pendingVerifier = verifier :=
      congrArg pendingVerifier policy
    have hsource : w'.pool.pendingPolicySourceHash = sourceHash :=
      congrArg pendingPolicySourceHash policy
    have hactivation : w'.pool.policyActivationEpoch = activationEpoch :=
      congrArg policyActivationEpoch policy
    rw [hverifier, hsource, hactivation]
    rw [World.epoch, htime] at delayed
    exact ⟨tr, [], sender, sourceUri, toolchainId, rfl, delayed⟩
  | cancelPolicy policy => exact absurd (congrArg pendingVerifier policy) hne
  | other _ policy => exact hold policy

omit [BnField F] in
/-- The clock brings in what waits. -/
theorem PolicyInv.tick (inv : PolicyInv D s tr w) {timestamp : Nat} (hle : w.timestamp ≤ timestamp) :
    PolicyInv D s (.tick timestamp :: tr) { w with timestamp } := by
  have hepoch : w.epoch D ≤ ({ w with timestamp } : World F T τ).epoch D := Nat.div_le_div_right hle
  have hwaiting : w.pool.pendingVerifier ≠ 0 →
      ({ w with timestamp } : World F T τ).epoch D < w.pool.policyActivationEpoch →
      QueuedIn D s.timestamp (.tick timestamp :: tr)
        (w.pool.pendingVerifier, w.pool.pendingPolicySourceHash) w.pool.policyActivationEpoch :=
    fun hne hlt => (inv.waiting hne (hepoch.trans_lt hlt)).cons _
  by_cases hdue : w.pool.policyState.Due (({ w with timestamp } : World F T τ).epoch D)
  · by_cases hold : w.pool.policyState.Due (w.epoch D)
    · refine inv.same ?_ hepoch hwaiting
      rw [effectivePolicy_eq, effectivePolicy_eq, effective_of_due hold]
      exact effective_of_due hdue
    · have hlt : w.epoch D < w.pool.policyActivationEpoch :=
        Nat.not_le.mp fun hle => hold ⟨hdue.1, hle⟩
      refine ⟨.inr ⟨w.pool.policyActivationEpoch, hdue.2, ?_⟩, hwaiting⟩
      rw [effectivePolicy_eq]
      refine (effective_of_due hdue) ▸ ?_
      exact (inv.waiting hdue.1 hlt).cons _
  · have hold : ¬ w.pool.policyState.Due (w.epoch D) := fun h => hdue ⟨h.1, h.2.trans hepoch⟩
    refine inv.same ?_ hepoch hwaiting
    rw [effectivePolicy_eq, effectivePolicy_eq, effective_of_not_due hold]
    exact effective_of_not_due hdue

theorem Run.policyInv (hsettled : ¬ (w.pool.pendingVerifier ≠ 0 ∧
      w.epoch D < w.pool.policyActivationEpoch)) (h : Run (Transition D) w tr w') : PolicyInv D w tr w' := by
  refine h.invariant (I := PolicyInv D w) ⟨.inl rfl, fun hne hlt => absurd ⟨hne, hlt⟩ hsettled⟩ ?_
  intro tr w₁ st w₂ hrun hstep inv
  cases hstep with
  | pool _ ok => exact inv.call (Run.timestamp_eq_clock hrun) ok
  | tick le => exact inv.tick le
  | registry | poolReverted | registryReverted | elsewhere =>
    exact inv.same rfl le_rfl fun hne hlt => (inv.waiting hne hlt).cons _

/-! ## A queued pair that reaches its activation -/

/-- A queued pair still waits, or it has been stored as the active one. -/
def Upcoming (D : Deployment F T τ) (w : World F T τ) (verifier : Address) (sourceHash : Word)
    (activationEpoch : Nat) : Prop :=
  (w.pool.pendingVerifier = verifier ∧ w.pool.pendingPolicySourceHash = sourceHash ∧
    w.pool.policyActivationEpoch = activationEpoch) ∨
  (w.pool.pendingVerifier = 0 ∧ w.pool.activeVerifier = verifier ∧
    w.pool.activePolicySourceHash = sourceHash ∧ activationEpoch ≤ w.epoch D)

section
variable {verifier : Address} {sourceHash : Word} {activationEpoch : Nat}

theorem Upcoming.step (h : Upcoming D w verifier sourceHash activationEpoch) (hstep : Transition D w st w')
    (hkeep : ∀ sender call, st = .pool sender call → call.requeues = false) :
    Upcoming D w' verifier sourceHash activationEpoch := by
  cases hstep with
  | @pool sender call _ _ _ ok =>
    have hepoch := run_epoch ok
    have hsame : w'.pool.policyState = w.pool.policyState →
        Upcoming D w' verifier sourceHash activationEpoch := by
      intro hpolicy
      simp only [ShieldedPool.policyState, PolicyState.mk.injEq] at hpolicy
      obtain ⟨hactive, hactiveHash, hpending, hpendingHash, hactivation⟩ := hpolicy
      rw [Upcoming, hactive, hactiveHash, hpending, hpendingHash, hactivation, hepoch]
      exact h
    cases (run_controls ok).1 with
    | entry _ policy =>
      by_cases hdue : w.pool.policyState.Due (w.epoch D)
      · rw [promote_of_due hdue] at policy
        simp only [ShieldedPool.policyState, cleared, PolicyState.mk.injEq] at policy
        obtain ⟨hactive, hactiveHash, hpending, -, -⟩ := policy
        rcases h with ⟨rfl, rfl, rfl⟩ | ⟨hnone, -⟩
        · exact .inr ⟨hpending, hactive, hactiveHash, hepoch ▸ hdue.2⟩
        · exact absurd hnone hdue.1
      · rw [promote_of_not_due hdue] at policy
        exact hsame policy
    | setPolicy | cancelPolicy => exact absurd (hkeep _ _ rfl) nofun
    | other _ policy => exact hsame policy
  | tick le =>
    refine h.imp_right fun ⟨hnone, hactive, hactiveHash, hle⟩ => ⟨hnone, hactive, hactiveHash, ?_⟩
    exact hle.trans (Nat.div_le_div_right le)
  | registry | poolReverted | registryReverted | elsewhere => exact h

theorem Upcoming.run (h : Upcoming D s verifier sourceHash activationEpoch) (hrun : Run (Transition D) s tr w)
    (hkeep : ∀ sender call, .pool sender call ∈ tr → call.requeues = false) :
    Upcoming D w verifier sourceHash activationEpoch := by
  induction hrun with
  | nil => exact h
  | cons _ hstep ih =>
    refine (ih fun sender call hmem => hkeep sender call (List.mem_cons_of_mem _ hmem)).step hstep ?_
    rintro sender call rfl
    exact hkeep sender call List.mem_cons_self

omit [BnField F] in
/-- From its activation epoch on, the pair is in force, and nothing else waits. -/
theorem Upcoming.inForce (h : Upcoming D w verifier sourceHash activationEpoch) (hne : verifier ≠ 0)
    (hle : activationEpoch ≤ w.epoch D) : effectivePolicy D w = (verifier, sourceHash) ∧
      ¬ (w.pool.pendingVerifier ≠ 0 ∧ w.epoch D < w.pool.policyActivationEpoch) := by
  rw [effectivePolicy_eq]
  rcases h with ⟨rfl, rfl, rfl⟩ | ⟨hnone, rfl, rfl, -⟩
  · have hdue : w.pool.policyState.Due (w.epoch D) := ⟨hne, hle⟩
    exact ⟨effective_of_due hdue, fun h => absurd h.2 (Nat.not_lt.mpr hle)⟩
  · have hdue : ¬ w.pool.policyState.Due (w.epoch D) := fun h => h.1 hnone
    exact ⟨effective_of_not_due hdue, fun h => h.1 hnone⟩

theorem upcoming_of_setPolicy {sourceUri : String} {toolchainId : Word} (hstep : Transition D w
    (.pool sender (.setPolicy verifier sourceHash activationEpoch sourceUri toolchainId)) w')
    (hcode : D.hasCode 0 = false) : verifier ≠ 0 ∧ Upcoming D w' verifier sourceHash activationEpoch := by
  cases hstep with
  | pool _ ok =>
    obtain ⟨hpolicy, -⟩ := setPolicy_policy ok
    cases hpolicy with
    | setPolicy hasCode _ policy =>
      simp only [ShieldedPool.policyState, PolicyState.queued, PolicyState.mk.injEq] at policy
      obtain ⟨-, -, hpending, hpendingHash, hactivation⟩ := policy
      refine ⟨?_, .inl ⟨hpending, hpendingHash, hactivation⟩⟩
      rintro rfl
      rw [hcode] at hasCode
      cases hasCode
    | entry _ _ keeps | other _ _ keeps => cases keeps

end

omit [BnField F] in
theorem delayEpochs_eq_ceilDiv : D.delayEpochs = D.timelockDelaySeconds ⌈/⌉ D.epochSeconds :=
  (Nat.ceilDiv_eq_add_pred_div _ _).symm

/-- The constructor queues nothing. -/
theorem Deployed.settled (h : Deployed D w) : w.pool.pendingVerifier = 0 := by
  obtain ⟨-, hpool⟩ := h
  simp only [ShieldedPool.new, bind_eq_ok, pure_eq_ok] at hpool
  obtain ⟨_, -, _, -, _, -, _, -, rfl⟩ := hpool
  rfl

/-- In every run, at any two of its moments `s` and `w`: an operation accepted at `w` is checked
against `effectivePolicy()`, which is the same at both moments if they are in one epoch; the pair in
force is the constructor's or was queued the timelock's epochs and one more before; cancelling does not
change it; and a pair queued at `s` that reaches its activation epoch without being replaced or
cancelled is in force then, and stays in force until a pair queued later reaches its own. -/
theorem policy_timelocked (hcode : D.hasCode 0 = false) {w₀ : World F T τ} (h₀ : Deployed D w₀)
    (hrun : Run (Transition D) w₀ tr s) (hrun' : Run (Transition D) s tr' w) :
    (∀ sender call w' events, PoolCall.run D sender w call = .ok (w', events) →
      call.CheckedAgainst D (effectivePolicy D w)) ∧
    (w.epoch D = s.epoch D → effectivePolicy D w = effectivePolicy D s) ∧
    (effectivePolicy D w = (w₀.pool.activeVerifier, w₀.pool.activePolicySourceHash) ∨
      ∃ tr₁ tr₂ sender activationEpoch sourceUri toolchainId,
        tr' ++ tr = tr₂ ++ .pool sender (.setPolicy (effectivePolicy D w).1 (effectivePolicy D w).2
          activationEpoch sourceUri toolchainId) :: tr₁ ∧
        clock w₀.timestamp tr₁ / D.epochSeconds + D.timelockDelaySeconds ⌈/⌉ D.epochSeconds + 1 ≤ w.epoch D) ∧
    (∀ sender w' events, cancelPolicy D w sender = .ok (w', events) →
      effectivePolicy D w' = effectivePolicy D w) ∧
    ∀ sender verifier sourceHash activationEpoch sourceUri toolchainId s₁ tr₁ w₁ tr₂ w₂, Transition D s
        (.pool sender (.setPolicy verifier sourceHash activationEpoch sourceUri toolchainId)) s₁ →
      Run (Transition D) s₁ tr₁ w₁ → (∀ sender call, .pool sender call ∈ tr₁ → call.requeues = false) →
      activationEpoch ≤ w₁.epoch D → Run (Transition D) w₁ tr₂ w₂ →
      effectivePolicy D w₁ = (verifier, sourceHash) ∧
      (effectivePolicy D w₂ = (verifier, sourceHash) ∨ ∃ activationEpoch' ≤ w₂.epoch D,
        QueuedIn D w₁.timestamp tr₂ (effectivePolicy D w₂) activationEpoch') := by
  have hnone := h₀.settled
  have inv : PolicyInv D w₀ (tr' ++ tr) w :=
    Run.policyInv (fun h => h.1 hnone) (hrun.append hrun')
  have hconstructor : effectivePolicy D w₀ = (w₀.pool.activeVerifier, w₀.pool.activePolicySourceHash) := by
    rw [effectivePolicy_eq]
    exact effective_of_not_due fun h => h.1 hnone
  refine ⟨fun sender call w' events hok => ?_, Run.effectivePolicy_eq hrun', ?_,
    fun sender w' events hok => ?_, ?_⟩
  · cases (run_controls hok).1 with
    | entry checked | other checked => exact checked
    | setPolicy | cancelPolicy => trivial
  · rw [← hconstructor, ← delayEpochs_eq_ceilDiv]
    refine inv.inForce.imp_right ?_
    rintro ⟨activationEpoch, hle, tr₁, tr₂, sender, sourceUri, toolchainId, htr, hqueued⟩
    exact ⟨tr₁, tr₂, sender, activationEpoch, sourceUri, toolchainId, htr, hqueued.trans hle⟩
  · have hcall : PoolCall.run D sender w .cancelPolicy = .ok (w', events) := hok
    exact effectivePolicy_call hcall
  · intro sender verifier sourceHash activationEpoch sourceUri toolchainId s₁ tr₁ w₁ tr₂ w₂ hset hwait
      hkeep hle hlater
    obtain ⟨hne, hupcoming⟩ := upcoming_of_setPolicy hset hcode
    obtain ⟨hforce, hsettled⟩ := (hupcoming.run hwait hkeep).inForce hne hle
    rw [← hforce]
    exact ⟨rfl, (Run.policyInv hsettled hlater).inForce⟩

open Sample

/-- The sample, on a chain whose zero address has no code. -/
noncomputable def Sample.coded (hash : List F → F) :
    Deployment F (LeanImtTree (merkleHash hash)) (Address → Nat) :=
  { Sample.deployment hash with hasCode := fun a => decide (a ≠ 0) }

omit [BnField F] in
/-- The admin queues a pair. -/
theorem setPolicy_complete {verifier : Address} {sourceHash toolchainId : Word} {activationEpoch : Nat}
    {sourceUri : String} (hadmin : w.pool.roles .defaultAdmin sender = true)
    (hcode : D.hasCode verifier = true) (hdelay : w.epoch D + D.delayEpochs + 1 ≤ activationEpoch) :
    ∃ w' events, setPolicy D w sender verifier sourceHash activationEpoch sourceUri toolchainId =
      .ok (w', events) := by
  have hrole : ¬ w.pool.roles .defaultAdmin sender = false := by simp [hadmin]
  have hverifier : ¬ D.hasCode verifier = false := by simp [hcode]
  refine ⟨_, _, bind_eq_ok.mpr ⟨(), failIf_neg hrole _, bind_eq_ok.mpr ⟨(), failIf_neg hverifier _,
    bind_eq_ok.mpr ⟨(), failIf_neg ?_ _, bind_eq_ok.mpr ⟨(), failIf_neg ?_ _, rfl⟩⟩⟩⟩⟩
  · exact Nat.not_le.mpr (by omega)
  · exact Nat.not_lt.mpr hdelay

/-- A pair queued in epoch 7 for epoch 9 is in force in epoch 9. -/
theorem policy_timelocked_sample : ∃ w₀ s w, Deployed (coded idealHash) w₀ ∧
    Transition (coded idealHash) w₀ (.pool admin (.setPolicy 20 1 9 "" 0)) s ∧
    Run (Transition (coded idealHash)) s [.tick 777600] w ∧
    effectivePolicy (coded idealHash) w = (20, 1) := by
  obtain ⟨pool, hpool, hroles⟩ : ∃ pool, ShieldedPool.new (coded idealHash) Sample.timestamp
      Sample.constructorParams = .ok pool ∧ pool.roles .defaultAdmin admin = true :=
    ⟨_, rfl, rfl⟩
  have hdeployed : Deployed (coded idealHash) ⟨Sample.timestamp, registry₀ idealHash, pool, fun _ => 0⟩ :=
    .mk (Sample.registry_new idealHash) hpool
  obtain ⟨s, events, hset⟩ : ∃ w' events, setPolicy (coded idealHash)
      ⟨Sample.timestamp, registry₀ idealHash, pool, fun _ => 0⟩ admin 20 1 9 "" 0 =
        .ok (w', events) := by
    refine setPolicy_complete hroles (by decide) ?_
    show 604800 / 86400 + (0 + 86400 - 1) / 86400 + 1 ≤ 9
    decide
  have hsender : admin ≠ (coded idealHash).address := by
    show (1 : Address) ≠ 10
    decide
  have hstep : Transition (coded idealHash) ⟨Sample.timestamp, registry₀ idealHash, pool, fun _ => 0⟩
      (.pool admin (.setPolicy 20 1 9 "" 0)) s := .pool hsender hset
  have htime : s.timestamp = 604800 := (setPolicy_governed hset).timestamp
  have htick : Run (Transition (coded idealHash)) s [.tick 777600]
      { s with timestamp := 777600 } := .cons .nil (.tick (by omega))
  refine ⟨_, s, _, hdeployed, hstep, htick, ?_⟩
  have hactive : 9 ≤ ({ s with timestamp := 777600 } : World _ _ _).epoch (coded idealHash) := by
    show 9 ≤ 777600 / 86400
    decide
  obtain ⟨-, -, -, -, hkept⟩ := policy_timelocked (by decide) hdeployed .nil .nil
  exact (hkept _ _ _ _ _ _ _ _ _ _ _ hstep htick (by simp) hactive .nil).1

end Pocs.Compliance
