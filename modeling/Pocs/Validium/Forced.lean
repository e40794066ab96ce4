import Pocs.Validium.Solvency

/-! # Forced requests that expire

A request that freezes the bridge was recorded in the run and never processed. It could have been processed
at every moment at which the root was the one it was proved for; what else happens to the root in the
meantime, a withdrawal with the same proof included, leaves the request where it is. -/

namespace Pocs.Validium

variable {W τ : Type} [DecidableEq W] {D : Deployment W τ} {w w' w₀ w₁ w₂ m : World W τ}
  {tr tr' : List (Step W)} {st : Step W} {id : Nat} {req : ForcedRequest W}

/-- The run has come to `w₂` by recording the request, and then went on. -/
structure Recorded (D : Deployment W τ) (w₀ : World W τ) (tr : List (Step W)) (w : World W τ) (id : Nat)
    (req : ForcedRequest W) (tr' : List (Step W)) (w₂ : World W τ) : Prop where
  request : ∃ tr₁ w₁ sender proof, tr = tr' ++ .call sender w₁.bridge (req.request proof) :: tr₁ ∧
    Run (Transition D) w₀ tr₁ w₁ ∧ Transition D w₁ (.call sender w₁.bridge (req.request proof)) w₂ ∧
    w₁.bridge.forcedRequestCount = id ∧ w₂.bridge.forcedRequestCount = id + 1 ∧
    req.deadline = w₁.timestamp + forcedWithdrawalDeadline
  since : Run (Transition D) w₂ tr' w

/-- A state that a run goes through. -/
def Between (D : Deployment W τ) (w₂ : World W τ) (tr : List (Step W)) (w m : World W τ) : Prop :=
  ∃ tr₁ tr₂, tr = tr₂ ++ tr₁ ∧ Run (Transition D) w₂ tr₁ m ∧ Run (Transition D) m tr₂ w

/-- A step leaves a slot as it is, records a request there, or processes the one there. -/
theorem Transition.request_cases (h : Transition D w st w') (id : Nat) :
    w'.bridge.forcedRequests id = w.bridge.forcedRequests id ∧ id ∉ st.processed ∨
      (∃ sender proof, st = .call sender w.bridge ((w'.bridge.forcedRequests id).request proof) ∧
        w.bridge.forcedRequestCount = id ∧ w'.bridge.forcedRequestCount = id + 1 ∧
        (w'.bridge.forcedRequests id).deadline = w.timestamp + forcedWithdrawalDeadline) ∨
      (w'.bridge.forcedRequests id).deadline = 0 := by
  cases h with
  | reverted | tick | inflow => exact .inl ⟨rfl, List.not_mem_nil⟩
  | call hne ok =>
    have haccepted := Call.run_eq_ok.mp ok
    cases haccepted with
    | deposit | withdraw | postTransferBatch | freeze | freezeOnExpiredRequest | escapeWithdraw =>
      exact .inl ⟨rfl, List.not_mem_nil⟩
    | requestForcedWithdrawal live pos verified =>
      rcases eq_or_ne id w.bridge.forcedRequestCount with rfl | hid
      · refine .inr (.inl ?_)
        simp only [Function.update_self]
        exact ⟨_, _, rfl, trivial, trivial, trivial⟩
      · simp only [Function.update_of_ne hid]
        exact .inl ⟨trivial, List.not_mem_nil⟩
    | @processForcedWithdrawal requestId _ _ live stored found _ _ =>
      rcases eq_or_ne id requestId with rfl | hid
      · refine .inr (.inr ?_)
        simp only [Function.update_self]
        rfl
      · simp only [Function.update_of_ne hid]
        exact .inl ⟨trivial, fun hmem => hid (List.mem_singleton.mp hmem)⟩

theorem forcedRequestCount_mono (h : Run (Transition D) w tr w') :
    w.bridge.forcedRequestCount ≤ w'.bridge.forcedRequestCount :=
  @Run.invariant _ _ _ _ _ _ (fun _ s => w.bridge.forcedRequestCount ≤ s.bridge.forcedRequestCount) h
    (Nat.le_refl _) fun _ _ _ _ _ hstep ih => ih.trans hstep.keeps.forcedRequestCount

/-- What is in use now has been there since it was recorded, and was not processed. -/
theorem stored_since (h : Run (Transition D) w tr w') (hid : id < w.bridge.forcedRequestCount)
    (hfound : (w'.bridge.forcedRequests id).deadline ≠ 0) :
    w.bridge.forcedRequests id = w'.bridge.forcedRequests id ∧ id ∉ processed tr := by
  induction h with
  | nil => exact ⟨rfl, List.not_mem_nil⟩
  | @cons tr s s' st hrun hstep ih =>
    rcases hstep.request_cases id with ⟨hsame, hnot⟩ | ⟨_, _, _, hcount, _⟩ | hgone
    · rw [hsame] at hfound
      obtain ⟨hstored, hnone⟩ := ih hfound
      refine ⟨hstored.trans hsame.symm, ?_⟩
      rw [processed_cons, List.mem_append]
      exact fun hmem => hmem.elim hnot hnone
    · have := forcedRequestCount_mono hrun
      omega
    · exact absurd hgone hfound

/-- A request in use has been recorded in the run. -/
theorem exists_recorded {root : W} (hdeployed : Deployed D root w₀) (h : Run (Transition D) w₀ tr w)
    (hfound : (w.bridge.forcedRequests id).deadline ≠ 0) :
    ∃ tr' w₂, Recorded D w₀ tr w id (w.bridge.forcedRequests id) tr' w₂ := by
  induction h with
  | nil =>
    cases hdeployed
    exact absurd rfl hfound
  | @cons tr s s' st hrun hstep ih =>
    rcases hstep.request_cases id with ⟨hsame, -⟩ | ⟨sender, proof, hst, hcount, hnext, hdeadline⟩ | hgone
    · rw [hsame] at hfound ⊢
      obtain ⟨tr', w₂, ⟨tr₁, w₁, sender, proof, htr, hrequest⟩, hsince⟩ := ih hfound
      refine ⟨st :: tr', w₂, ⟨tr₁, w₁, sender, proof, ?_, hrequest⟩, .cons hsince hstep⟩
      rw [htr, List.cons_append]
    · refine ⟨[], s', ⟨tr, s, sender, proof, ?_, hrun, ?_, hcount, hnext, hdeadline⟩, .nil⟩
      · rw [hst, List.nil_append]
      · rwa [hst] at hstep
    · exact absurd hgone hfound

/-- A withdrawal moves the root to the one it is for. -/
theorem stateRoot_of_withdraw {sender : Address} {b : Bridge W} {proof : List UInt8} {oldRoot newRoot : W}
    {amount : UInt64} {recipient : Address}
    (h : Transition D w (.call sender b (.withdraw proof oldRoot newRoot amount recipient)) w') :
    w'.bridge.stateRoot = newRoot := by
  cases h with
  | call hne ok =>
    have haccepted := Call.run_eq_ok.mp ok
    cases haccepted with
    | withdraw live _ _ _ => rfl

/-- When `freezeOnExpiredRequest` succeeds, the request has been recorded and its deadline is over; it was
never processed, and whenever since then the root was its old root and the token would have paid, processing it
would have succeeded. If the root has never moved on, the withdrawal was not executed by `withdraw` either. -/
theorem expired_request_ignored {root : W} (hdeployed : Deployed D root w₀)
    (hrun : Run (Transition D) w₀ tr w) {sender : Address}
    (h : (Call.freezeOnExpiredRequest id).run D sender w = .ok w') :
    ∃ req tr' w₂, Recorded D w₀ tr w id req tr' w₂ ∧ req.deadline < w.timestamp ∧ id ∉ processed tr ∧
      (∀ m, Between D w₂ tr' w m → m.bridge.stateRoot = req.oldRoot →
        (D.token.transfer D.address req.recipient req.amount.toNat m.token).isSome →
        ∀ sender, ∃ m', (Call.processForcedWithdrawal id).run D sender m = .ok m') ∧
      ((∀ m, Between D w₂ tr' w m → m.bridge.stateRoot = req.oldRoot) → req.newRoot ≠ req.oldRoot →
        ∀ sender b proof, .call sender b (req.withdraw proof) ∉ tr') := by
  have haccepted := Call.run_eq_ok.mp h
  cases haccepted with
  | freezeOnExpiredRequest live stored found expired =>
    subst stored
    obtain ⟨tr', w₂, hrecorded⟩ := exists_recorded hdeployed hrun found
    obtain ⟨tr₁, w₁, sender₁, proof, htr, hbefore, hrequest, hcount, hnext, hdeadline⟩ := hrecorded.request
    refine ⟨w.bridge.forcedRequests id, tr', w₂, hrecorded, expired, ?_, ?_, ?_⟩
    · -- neither before the request nor after it
      obtain ⟨-, hsince⟩ := stored_since hrecorded.since (by omega) found
      have hnone : id ∉ processed tr₁ := fun hmem => by
        have := ((requestsInv_of_run hdeployed hbefore).gone id hmem).1
        omega
      rw [htr, processed, List.flatMap_append, List.mem_append]
      rintro (hmem | hmem)
      · exact hsince hmem
      · exact hnone hmem
    · rintro m ⟨tr₂, tr₃, -, hto, hfrom⟩ hroot hpays sender
      obtain ⟨token, paid⟩ := Option.isSome_iff_exists.mp hpays
      have hid : id < m.bridge.forcedRequestCount := by
        have := forcedRequestCount_mono hto
        omega
      obtain ⟨hstored, -⟩ := stored_since hfrom hid found
      have hlive : m.bridge.frozen = false := by
        cases hm : m.bridge.frozen with
        | false => rfl
        | true => exact absurd (live.symm.trans (frozen_of_run hfrom hm)) Bool.false_ne_true
      exact ⟨_, Call.run_eq_ok.mpr (.processForcedWithdrawal hlive hstored found hroot paid)⟩
    · intro hstays hne sender₂ b proof₂ hmem
      obtain ⟨tr₃, tr₂, hsplit⟩ := List.append_of_mem hmem
      have hsince := hrecorded.since
      rw [hsplit] at hsince
      obtain ⟨m, hto, hfrom⟩ := hsince.split
      cases hto with
      | cons hto hstep =>
        have hroot := hstays m ⟨_, tr₃, hsplit, .cons hto hstep, hfrom⟩
        exact hne ((stateRoot_of_withdraw hstep).symm.trans hroot)

namespace Sample

theorem stored_request : requested.bridge.forcedRequests 0 = request := by
  simp only [requested, Function.update_self]

/-- The request is left alone. -/
def ignoredSteps : List (Step Term) :=
  [.tick (1000 + 8 * 86400), .call owner world₀.bridge (request.request [])]

theorem ignored_run : Run (Transition deployment) world₀ ignoredSteps (later requested) :=
  .cons (.cons .nil request_step) (tick_step _)

theorem expired_freezes {w : World Term (Address → Nat)} (live : w.bridge.frozen = false)
    (stored : w.bridge.forcedRequests 0 = request) (expired : request.deadline < w.timestamp) :
    (Call.freezeOnExpiredRequest 0).run deployment other w = .ok (frozen w) :=
  Call.run_eq_ok.mpr (.freezeOnExpiredRequest live stored (by decide) expired)

end Sample

open Sample in
theorem expired_request_ignored_sample :
    ∃ req tr' w₂, Recorded deployment world₀ ignoredSteps (later requested) 0 req tr' w₂ ∧
      req.deadline < (later requested).timestamp ∧ 0 ∉ processed ignoredSteps ∧
      (∀ m, Between deployment w₂ tr' (later requested) m → m.bridge.stateRoot = req.oldRoot →
        (deployment.token.transfer deployment.address req.recipient req.amount.toNat m.token).isSome →
        ∀ sender, ∃ m', (Call.processForcedWithdrawal 0).run deployment sender m = .ok m') ∧
      ((∀ m, Between deployment w₂ tr' (later requested) m → m.bridge.stateRoot = req.oldRoot) →
        req.newRoot ≠ req.oldRoot → ∀ sender b proof, .call sender b (req.withdraw proof) ∉ tr') :=
  expired_request_ignored deployed ignored_run (expired_freezes rfl stored_request (by decide))

open Sample in
/-- A request whose withdrawal was executed by `withdraw`, with the request's own proof, could no longer be
processed in time, and freezes the bridge. -/
theorem withdrawn_request_freezes :
    ∃ (tr tr' : List (Step Term)) (m w w' : World Term (Address → Nat)) (req : ForcedRequest Term),
      Run (Transition deployment) world₀ tr m ∧ Run (Transition deployment) m tr' w ∧
      (∃ sender b proof, .call sender b (req.request proof) ∈ tr) ∧
      (∃ sender b proof, .call sender b (req.withdraw proof) ∈ tr) ∧ m.timestamp ≤ req.deadline ∧
      (∀ sender, ∃ e, (Call.processForcedWithdrawal 0).run deployment sender m = .error e) ∧
      w.bridge.forcedRequests 0 = req ∧ (Call.freezeOnExpiredRequest 0).run deployment other w = .ok w' := by
  refine ⟨withdrawnSteps, [.tick (1000 + 8 * 86400)], withdrawn, later withdrawn, frozen (later withdrawn),
    request, withdrawn_run, .cons .nil (tick_step _), ⟨owner, world₀.bridge, [], by simp [withdrawnSteps]⟩,
    ⟨owner, requested.bridge, [], by simp [withdrawnSteps]⟩, by decide, fun sender => ?_, stored_request,
    expired_freezes rfl stored_request (by decide)⟩
  cases hrun : (Call.processForcedWithdrawal 0).run deployment sender withdrawn with
  | error e => exact ⟨e, rfl⟩
  | ok w' =>
    have haccepted := Call.run_eq_ok.mp hrun
    cases haccepted with
    | processForcedWithdrawal live stored found fresh paid =>
      obtain rfl : request = _ := stored_request.symm.trans stored
      exact absurd fresh (by decide)

end Pocs.Validium
