import Pocs.Civic.Contract
import Pocs.Civic.Registry.Progress

/-! # The windows of a petition and its payouts

The state of a petition only moves when a call reads it. With a clock that does not run backwards
the calls on a petition still succeed in their windows only, nothing succeeds once it is resolved or
given up, and what it pays out is its bounty (`LifecycleInv`). The contract advances the state the
same way (`advanceStateOnRead_eq`). -/

namespace Pocs.Civic

open PetitionState

def PetitionState.toSolidity : PetitionState → Solidity.PetitionState
  | .registered => .registered
  | .signingOpen => .signingOpen
  | .signingClosed => .signingClosed
  | .cooldown => .cooldown
  | .disputeWindow => .disputeWindow
  | .resolved => .resolved
  | .unresolved => .unresolved

/-- The end of the contract's chain of transitions. -/
private theorem solidity_afterClose (b c : Nat) :
    ((checkedAdd 64 c Solidity.cooldownBlocks).bind fun cooldownEnd =>
      some (if b ≥ cooldownEnd then Solidity.PetitionState.disputeWindow else .cooldown)) =
    (afterClose b c).map toSolidity := by
  have hconst : Solidity.cooldownBlocks = cooldownBlocks := rfl
  rw [afterClose, hconst, Option.map_map]
  cases checkedAdd 64 c cooldownBlocks with
  | none => rfl
  | some cooldownEnd =>
    show some _ = some _
    simp only [Function.comp]
    split <;> rfl

/-- `step_state` and `_advanceStateOnRead` agree, overflow included. -/
theorem advanceStateOnRead_eq (b c : Nat) (st : PetitionState) :
    Solidity.advanceStateOnRead b c st.toSolidity = (stepState b c st).map toSolidity := by
  rw [stepState_eq]
  cases st with
  | registered | signingOpen =>
    by_cases hb : c ≤ b
    · rw [if_pos hb, ← solidity_afterClose]
      simp [Solidity.advanceStateOnRead, toSolidity, hb]
    · simp [Solidity.advanceStateOnRead, toSolidity, hb]
  | signingClosed | cooldown =>
    rw [← solidity_afterClose]
    simp [Solidity.advanceStateOnRead, toSolidity]
  | disputeWindow | resolved | unresolved =>
    simp [Solidity.advanceStateOnRead, toSolidity]

/-! ## What a run shows of a petition -/

/-- The blocks at which a call on a petition that closes at `c` may succeed. -/
def Call.InWindow (c now : Nat) : Call → Prop
  | .publishBatch .. => now < c
  | .dispute _ => c + cooldownBlocks ≤ now ∧ now < c + resolutionDeadlineBlocks
  | .resolve .. => c + resolutionDeadlineBlocks ≤ now
  | .markUnresolved .. => c + resolutionDeadlineBlocks + markUnresolvedGraceBlocks ≤ now
  | .register _ | .updateAlpha _ => True

/-- A successful `publish_batch`, `dispute`, `resolve` or `mark_unresolved` on `pid`. -/
def Step.Succeeds (s : Step) (pid : PetitionId) : Prop :=
  s.call.target = some pid ∧ ∃ ev, s.result = .ok ev

/-- A successful `resolve` or `mark_unresolved` on `pid`. -/
def Step.Terminates (s : Step) (pid : PetitionId) : Prop :=
  s.Succeeds pid ∧ match s.call with
    | .resolve .. | .markUnresolved .. => True
    | _ => False

def Step.payouts (s : Step) : List BountyEvent :=
  match s.call, s.result with
  | .resolve .., .ok (.resolved _ paid) => [paid]
  | .markUnresolved .., .ok (.unresolved _ refund rebate) => [refund, rebate]
  | _, _ => []

/-- What a history paid for the petition. -/
def paidOut (tr : List Step) (pid : PetitionId) : Nat :=
  (((tr.flatMap Step.payouts).filter (·.petitionId = pid)).map (·.amount)).sum

/-- The registrations of a history, newest first. -/
def registrations (tr : List Step) (pid : PetitionId) : List PetitionRegisteredEvent :=
  (tr.filterMap Step.registration).filter (·.petitionId = pid)

/-- The clock of a history does not go back. -/
def MonotoneClock (tr : List Step) : Prop := tr.Pairwise fun later earlier =>
  earlier.env.now ≤ later.env.now

section
variable {C : Primitives} {env : Ports} {e e' : PetitionEntry} {st : PetitionState}
  {pid : PetitionId} {reg reg' : PetitionRegistry} {tr : List Step} {s : Step}

theorem paidOut_cons (s : Step) (tr : List Step) (pid : PetitionId) :
    paidOut (s :: tr) pid = paidOut [s] pid + paidOut tr pid := by
  simp [paidOut]

theorem registrations_cons_of_ne (h : ∀ ev, s.registration = some ev → ev.petitionId ≠ pid) :
    registrations (s :: tr) pid = registrations tr pid := by
  cases hs : s.registration with
  | none => simp [registrations, hs]
  | some ev => simp [registrations, hs, h ev hs]

/-- A call that fails pays nothing. -/
theorem paidOut_error (env : Ports) (call : Call) (err : RegistryError) (pid : PetitionId) :
    paidOut [⟨env, call, .error err⟩] pid = 0 := by
  cases call <;> rfl

/-- A call pays for the petition it is on. -/
theorem paidOut_other (h : Transition C reg s reg') (hne : s.call.target ≠ some pid) : paidOut [s] pid = 0 := by
  have hmem : ∀ p ∈ s.payouts, p.petitionId ≠ pid := by
    obtain ⟨env, call, result⟩ := s
    cases ht : call.target with
    | none =>
      intro p hp
      cases call with
      | register | updateAlpha => cases hp
      | publishBatch | dispute | resolve | markUnresolved => cases ht
    | some target =>
      have hpid : target ≠ pid := fun heq => hne (ht.trans (congrArg some heq))
      have hstep := transition_entry h target
      intro p hp
      cases he : reg.petitions target with
      | none =>
        have herr : result = _ := hstep.absent he ht
        subst herr
        cases call <;> cases hp
      | some e =>
        obtain ⟨e', -, hentry⟩ := hstep.entry e he
        cases hentry with
        | untouched hc => exact absurd ht hc
        | failed => cases call <;> cases hp
        | published | indexOverflow | disputed | bountyOverflow => cases hp
        | resolved =>
          obtain rfl := List.mem_singleton.mp hp
          exact hpid
        | unresolved =>
          obtain rfl | hp := List.mem_cons.mp hp
          · exact hpid
          · obtain rfl := List.mem_singleton.mp hp
            exact hpid
  have hnone : s.payouts.filter (·.petitionId = pid) = [] := by
    apply List.filter_eq_nil_iff.mpr
    intro p hp
    simpa using hmem p hp
  simp [paidOut, hnone]

/-! ## The invariant -/

/-- What a run shows of a petition registered by `ev`. -/
structure LifecycleInv (tr : List Step) (pid : PetitionId) (ev : PetitionRegisteredEvent)
    (e : PetitionEntry) : Prop where
  registered : registrations tr pid = [ev]
  closeAtBlock : e.record.closeAtBlock = ev.closeAtBlock
  bounty : u256ToU128 e.record.bounty = .ok ev.bounty
  /-- The dispute window was entered by a call after the cooldown. -/
  opened : e.record.state = .disputeWindow → ∃ s ∈ tr, ev.closeAtBlock + cooldownBlocks ≤ s.env.now
  windows : ∀ s ∈ tr, s.Succeeds pid → s.call.InWindow ev.closeAtBlock s.env.now
  terminated : ∀ s ∈ tr, s.Terminates pid → e.record.state.Terminal
  exclusive : tr.Pairwise fun later earlier => earlier.Terminates pid → ¬ later.Succeeds pid
  paid : paidOut tr pid = if e.record.state.Terminal then ev.bounty else 0

/-- What the invariant needs to know of a call. -/
structure LifecycleStep (s : Step) (pid : PetitionId) (ev : PetitionRegisteredEvent)
    (e e' : PetitionEntry) : Prop where
  closeAtBlock : e'.record.closeAtBlock = e.record.closeAtBlock
  bounty : e'.record.bounty = e.record.bounty
  opened : e'.record.state = .disputeWindow →
    e.record.state = .disputeWindow ∨ ev.closeAtBlock + cooldownBlocks ≤ s.env.now
  succeeds : s.Succeeds pid → ¬ e.record.state.Terminal ∧ s.call.InWindow ev.closeAtBlock s.env.now
  keeps : e.record.state.Terminal → e'.record.state.Terminal
  terminates : s.Terminates pid → e'.record.state.Terminal
  paid : paidOut [s] pid = if e'.record.state.Terminal ∧ ¬ e.record.state.Terminal then ev.bounty else 0

variable {ev : PetitionRegisteredEvent}

theorem LifecycleInv.cons (H : LifecycleInv tr pid ev e)
    (hreg : ∀ ev', s.registration = some ev' → ev'.petitionId ≠ pid)
    (h : LifecycleStep s pid ev e e') : LifecycleInv (s :: tr) pid ev e' := by
  refine ⟨(registrations_cons_of_ne hreg).trans H.registered, h.closeAtBlock.trans H.closeAtBlock,
    h.bounty ▸ H.bounty, fun hst => ?_, ?_, ?_, ?_, ?_⟩
  · obtain hst | hnow := h.opened hst
    · obtain ⟨s', hs', hnow⟩ := H.opened hst
      exact ⟨s', List.mem_cons_of_mem s hs', hnow⟩
    · exact ⟨s, List.mem_cons_self, hnow⟩
  · exact List.forall_mem_cons.mpr ⟨fun hs => (h.succeeds hs).2, H.windows⟩
  · exact List.forall_mem_cons.mpr ⟨h.terminates, fun s' hs' hterm => h.keeps (H.terminated s' hs' hterm)⟩
  · refine List.pairwise_cons.mpr ⟨fun s' hs' hterm hsucc => ?_, H.exclusive⟩
    exact (h.succeeds hsucc).1 (H.terminated s' hs' hterm)
  · rw [paidOut_cons, h.paid, H.paid]
    by_cases hterm : e.record.state.Terminal
    · simp [hterm, h.keeps hterm]
    · simp [hterm]

theorem checkResolution_ok {sub : ResolutionSubmission} (h : checkResolution env e st sub = .ok ()) :
    st = .disputeWindow ∧ e.record.closeAtBlock + resolutionDeadlineBlocks ≤ env.now := by
  simp only [checkResolution, bind_eq_ok, failIf_eq_ok, okOr_eq_ok, checkedAdd_eq_some, not_not, not_lt] at h
  obtain ⟨-, hst, _, ⟨-, rfl⟩, -, hnow, -⟩ := h
  exact ⟨hst, hnow⟩

theorem checkUnresolved_eq_ok {amount : Nat} : checkUnresolved env e st = .ok amount ↔
    st = .disputeWindow ∧ u256ToU128 e.record.bounty = .ok amount ∧
      e.record.closeAtBlock + resolutionDeadlineBlocks + markUnresolvedGraceBlocks ≤ env.now ∧
      e.record.closeAtBlock + resolutionDeadlineBlocks + markUnresolvedGraceBlocks < 2 ^ 64 := by
  simp only [checkUnresolved, bind_eq_ok, failIf_eq_ok, okOr_eq_ok, Option.bind_eq_some_iff,
    checkedAdd_eq_some, not_not, not_lt]
  constructor
  · rintro ⟨_, ⟨_, ⟨-, rfl⟩, hlt, rfl⟩, -, hnow, -, hst, hbounty⟩
    exact ⟨hst, hbounty, hnow, hlt⟩
  · rintro ⟨hst, hbounty, hnow, hlt⟩
    exact ⟨_, ⟨_, ⟨Nat.lt_of_le_of_lt (Nat.le_add_right _ _) hlt, rfl⟩, hlt, rfl⟩, (), hnow, (), hst, hbounty⟩

theorem cappedRebate_le (bountyTotal gasRebate : Nat) : cappedRebate bountyTotal gasRebate ≤ bountyTotal :=
  (Nat.min_le_right _ _).trans (Nat.div_le_self _ _)

theorem Advance.enters_disputeWindow {b c : Nat} {st₀ : PetitionState}
    (h : Advance b c st₀ .disputeWindow) : st₀ = .disputeWindow ∨ c + cooldownBlocks ≤ b := by
  cases h with
  | disputes _ hb => exact .inr hb
  | stays => exact .inl rfl

theorem Advance.signing_lt {b c : Nat} {st₀ : PetitionState} (h : Advance b c st₀ .signingOpen) : b < c := by
  cases h with
  | opened _ hb => exact hb
  | stays hs => exact absurd hs (by decide)

theorem Advance.not_terminal {b c : Nat} {st₀ : PetitionState} (h : Advance b c st₀ st)
    (hst : ¬ st.Terminal) : ¬ st₀.Terminal := by
  intro hterm
  rw [h.eq_of_terminal hterm] at hst
  exact hst hterm

/-- A failed call advances the state at most. -/
theorem LifecycleStep.failed {call : Call} {err : RegistryError}
    (hclose : e.record.closeAtBlock = ev.closeAtBlock)
    (hadv : Advance env.now e.record.closeAtBlock e.record.state st)
    (hrecord : e'.record = { e.record with state := st }) :
    LifecycleStep ⟨env, call, .error err⟩ pid ev e e' := by
  have hsucc : ¬ Step.Succeeds ⟨env, call, .error err⟩ pid := by
    rintro ⟨-, ev, hev⟩
    cases hev
  rw [hclose] at hadv
  refine ⟨by rw [hrecord], by rw [hrecord], fun hst => ?_, fun h => absurd h hsucc, fun hterm => ?_,
    fun h => absurd h.1 hsucc, ?_⟩
  · have hst' : st = .disputeWindow := by rwa [hrecord] at hst
    exact (hst' ▸ hadv).enters_disputeWindow
  · rw [hrecord]
    exact (hadv.eq_of_terminal hterm).symm ▸ hterm
  · rw [paidOut_error, hrecord, if_neg]
    rintro ⟨hst, hterm⟩
    exact hterm (hadv.eq_of_terminal_right hst ▸ hst)

/-- A successful call out of the dispute window or into it, which stays short of the terminal
states. -/
theorem LifecycleStep.succeeded {call : Call} {ev' : Event} (hclose : e.record.closeAtBlock = ev.closeAtBlock)
    (hadv : Advance env.now e.record.closeAtBlock e.record.state st) (hst : ¬ st.Terminal)
    (hcall : match call with | .resolve .. | .markUnresolved .. => False | _ => True)
    (hwindow : call.InWindow ev.closeAtBlock env.now) (hc : e'.record.closeAtBlock = e.record.closeAtBlock)
    (hb : e'.record.bounty = e.record.bounty) (hs : e'.record.state = st) :
    LifecycleStep ⟨env, call, .ok ev'⟩ pid ev e e' := by
  have hterm := hadv.not_terminal hst
  rw [hclose] at hadv
  refine ⟨hc, hb, fun hst' => ?_, fun _ => ⟨hterm, hwindow⟩, fun h => absurd h hterm, ?_, ?_⟩
  · exact ((hs.symm.trans hst') ▸ hadv).enters_disputeWindow
  · rintro ⟨-, hend⟩
    cases call with
    | resolve | markUnresolved => exact hcall.elim
    | register | publishBatch | dispute | updateAlpha => exact hend.elim
  · rw [if_neg fun h => hst (hs ▸ h.1)]
    cases call with
    | resolve | markUnresolved => exact hcall.elim
    | register | publishBatch | dispute | updateAlpha => rfl

/-- A successful `resolve` or `mark_unresolved`, which pays the bounty. -/
theorem LifecycleStep.ended {call : Call} {ev' : Event}
    (hadv : Advance env.now e.record.closeAtBlock e.record.state .disputeWindow)
    (hwindow : call.InWindow ev.closeAtBlock env.now) (hc : e'.record.closeAtBlock = e.record.closeAtBlock)
    (hb : e'.record.bounty = e.record.bounty) (hs : e'.record.state.Terminal)
    (hpaid : paidOut [⟨env, call, .ok ev'⟩] pid = ev.bounty) :
    LifecycleStep ⟨env, call, .ok ev'⟩ pid ev e e' := by
  have hterm : ¬ e.record.state.Terminal := hadv.not_terminal (by decide)
  refine ⟨hc, hb, fun hst' => ?_, fun _ => ⟨hterm, hwindow⟩, fun _ => hs, fun _ => hs, ?_⟩
  · rw [hst'] at hs
    exact absurd hs (by decide)
  · rw [hpaid, if_pos ⟨hs, hterm⟩]

theorem LifecycleInv.step {emptyImtRoot : Bytes32} (H : LifecycleInv tr pid ev e)
    (hclock : ∀ s' ∈ tr, s'.env.now ≤ s.env.now) (hother : s.call.target ≠ some pid → paidOut [s] pid = 0)
    (h : EntryStep C s.env emptyImtRoot pid e s.call s.result e') : LifecycleStep s pid ev e e' := by
  obtain ⟨env, call, result⟩ := s
  cases h with
  | untouched hc =>
    have hsucc : ¬ Step.Succeeds ⟨env, call, result⟩ pid := fun h => hc h.1
    refine ⟨rfl, rfl, .inl, fun h => absurd h hsucc, id, fun h => absurd h.1 hsucc, ?_⟩
    rw [hother hc, if_neg fun h => h.2 h.1]
  | failed _ hst | indexOverflow hst => exact .failed H.closeAtBlock (stepState_advance hst) rfl
  | published hst hu =>
    have hadv := stepState_advance hst
    obtain rfl := (checkBatch_ok hu).signing
    have hnow : env.now < ev.closeAtBlock := H.closeAtBlock ▸ hadv.signing_lt
    exact .succeeded H.closeAtBlock hadv (by decide) trivial hnow rfl rfl rfl
  | disputed hd hst hb =>
    have hadv := stepState_advance hst
    have hchk := checkDispute_eq_ok.mp hb
    obtain rfl := hchk.window
    refine .succeeded H.closeAtBlock hadv (by decide) trivial ⟨?_, H.closeAtBlock ▸ hchk.now_lt⟩
      rfl rfl rfl
    -- the window was entered now, or by an earlier call
    obtain hst' | hnow := hadv.enters_disputeWindow
    · obtain ⟨s', hs', hnow⟩ := H.opened hst'
      exact hnow.trans (hclock s' hs')
    · exact H.closeAtBlock ▸ hnow
  | @resolved resolver sub st amount b bPerClass hst hc ha =>
    have hadv := stepState_advance hst
    obtain ⟨rfl, hnow⟩ := checkResolution_ok hc
    obtain rfl := Except.ok.inj (ha.symm.trans H.bounty)
    refine .ended hadv (H.closeAtBlock ▸ hnow) rfl rfl (.inl rfl) ?_
    simp [paidOut, Step.payouts]
  | bountyOverflow _ ha => cases ha.symm.trans H.bounty
  | @unresolved caller gasRebate st amount hst hc =>
    have hadv := stepState_advance hst
    obtain ⟨rfl, hbounty, hnow, -⟩ := checkUnresolved_eq_ok.mp hc
    obtain rfl := Except.ok.inj (hbounty.symm.trans H.bounty)
    refine .ended hadv (H.closeAtBlock ▸ hnow) rfl rfl (.inr rfl) ?_
    have hle := cappedRebate_le ev.bounty gasRebate
    simp [paidOut, Step.payouts]
    omega

/-- What a run shows of a petition that does not exist. -/
structure Unregistered (tr : List Step) (pid : PetitionId) : Prop where
  registered : registrations tr pid = []
  succeeds : ∀ s ∈ tr, ¬ s.Succeeds pid
  paid : paidOut tr pid = 0

theorem Unregistered.cons (H : Unregistered tr pid) (h : Transition C reg s reg')
    (hnone : reg.petitions pid = none) (hnone' : reg'.petitions pid = none) : Unregistered (s :: tr) pid := by
  have hstep := transition_entry h pid
  have hsucc : ¬ s.Succeeds pid := by
    rintro ⟨htarget, ev, hev⟩
    cases hev.symm.trans (hstep.absent hnone htarget)
  refine ⟨?_, List.forall_mem_cons.mpr ⟨hsucc, H.succeeds⟩, ?_⟩
  · rw [registrations_cons_of_ne, H.registered]
    intro ev hev hpid
    obtain ⟨-, e', he'⟩ := hstep.fresh ev hev hpid
    rw [hnone'] at he'
    cases he'
  · rw [paidOut_cons, H.paid, Nat.add_zero]
    by_cases htarget : s.call.target = some pid
    · have herr := hstep.absent hnone htarget
      obtain ⟨env, call, result⟩ := s
      subst herr
      exact paidOut_error env call _ pid
    · exact paidOut_other h htarget

theorem Unregistered.register (H : Unregistered tr pid) (h : Transition C reg s reg')
    (hnone : reg.petitions pid = none) (he : reg'.petitions pid = some e) :
    ∃ ev, LifecycleInv (s :: tr) pid ev e := by
  obtain ⟨draft, d, st, p, ev, hcall, hd, -, hres, hst, rfl, hpid, hclose, hbounty⟩ :=
    (transition_entry h pid).created hnone e he
  have hchk := checkDraft_ok hd
  obtain ⟨env, call, result⟩ := s
  obtain rfl : call = .register draft := hcall
  obtain rfl : result = .ok (.registered p ev) := hres
  rw [stepState_eq] at hst
  obtain rfl := Option.some.inj ((if_neg (not_le.mpr hchk.closes)).symm.trans hst)
  have hsucc : ∀ s ∈ (⟨env, .register draft, .ok (.registered p ev)⟩ :: tr : List Step), ¬ s.Succeeds pid :=
    List.forall_mem_cons.mpr ⟨fun h => (by cases h.1), H.succeeds⟩
  refine ⟨ev, ?_, hclose.symm, hbounty ▸ hchk.bounty, fun h => (by cases h),
    fun s hs h => absurd h (hsucc s hs), fun s hs h => absurd h.1 (hsucc s hs), ?_, ?_⟩
  · have hreg := H.registered
    unfold registrations at hreg ⊢
    simp [Step.registration, hpid, hreg]
  · refine List.pairwise_cons.mpr ⟨fun s hs h => ?_, ?_⟩
    · exact absurd h.1 (hsucc s (List.mem_cons_of_mem _ hs))
    · exact List.pairwise_of_forall_mem_list fun a ha b hb h =>
        absurd h.1 (H.succeeds b hb)
  · rw [paidOut_cons, H.paid]
    rfl

/-- The invariant along every history with a clock that does not run backwards. -/
theorem history_lifecycle {address : Address} {global : GlobalState}
    (hrun : History C address global tr reg) (hclock : MonotoneClock tr) (pid : PetitionId) :
    (reg.petitions pid = none → Unregistered tr pid) ∧
      ∀ e, reg.petitions pid = some e → ∃ ev, LifecycleInv tr pid ev e := by
  induction hrun with
  | nil => exact ⟨fun _ => ⟨rfl, by simp, rfl⟩, fun e he => (by cases he)⟩
  | @cons tr reg reg' s run hstep ih =>
    obtain ⟨hnow, hclock⟩ := List.pairwise_cons.mp hclock
    obtain ⟨hun, hentry⟩ := ih hclock
    have hpid := transition_entry hstep pid
    cases he₀ : reg.petitions pid with
    | none => exact ⟨(hun he₀).cons hstep he₀, fun e he => (hun he₀).register hstep he₀ he⟩
    | some e₀ =>
      obtain ⟨ev, H⟩ := hentry e₀ he₀
      obtain ⟨e₁, he₁, h⟩ := hpid.entry e₀ he₀
      refine ⟨fun hnone => ?_, fun e he => ?_⟩
      · rw [he₁] at hnone
        cases hnone
      · obtain rfl := Option.some.inj (he₁.symm.trans he)
        refine ⟨ev, H.cons (fun ev' hev' hid => ?_) (H.step hnow (paidOut_other hstep) h)⟩
        have hnone := (hpid.fresh ev' hev' hid).1
        rw [he₀] at hnone
        cases hnone

/-- Lifecycle exclusivity and single payout of a petition in state `st`. -/
structure LifecycleSpec (tr : List Step) (pid : PetitionId) (ev : PetitionRegisteredEvent)
    (st : PetitionState) : Prop where
  windows : ∀ s ∈ tr, s.Succeeds pid → s.call.InWindow ev.closeAtBlock s.env.now
  exclusive : tr.Pairwise fun later earlier => earlier.Terminates pid → ¬ later.Succeeds pid
  paid_le : paidOut tr pid ≤ ev.bounty
  paid_eq : paidOut tr pid = ev.bounty ↔ ev.bounty = 0 ∨ st = .resolved ∨ st = .unresolved

theorem LifecycleInv.spec (H : LifecycleInv tr pid ev e) : LifecycleSpec tr pid ev e.record.state := by
  refine ⟨H.windows, H.exclusive, ?_, ?_⟩
  · rw [H.paid]
    split
    · exact le_rfl
    · exact Nat.zero_le _
  · rw [H.paid]
    by_cases hterm : e.record.state.Terminal
    · rw [if_pos hterm]
      exact iff_of_true rfl (.inr hterm)
    · rw [if_neg hterm]
      exact eq_comm.trans (or_iff_left hterm).symm

/-- Every petition of a run keeps to its windows, ends at most once and pays out its bounty then,
and the contract advances states as the registry does. -/
theorem lifecycle_spec {address : Address} {global : GlobalState}
    (hrun : History C address global tr reg) (hclock : MonotoneClock tr) (he : reg.petitions pid = some e) :
    (∃ ev, registrations tr pid = [ev] ∧ LifecycleSpec tr pid ev e.record.state) ∧
      ∀ b c st, Solidity.advanceStateOnRead b c (toSolidity st) = (stepState b c st).map toSolidity := by
  obtain ⟨ev, H⟩ := (history_lifecycle hrun hclock pid).2 e he
  exact ⟨⟨ev, H.registered, H.spec⟩, advanceStateOnRead_eq⟩

theorem PublishingRun.clock {address : Address} {global : GlobalState} {draft : PetitionDraft}
    {batches : List (List RecordEntry)}
    (h : PublishingRun C address global env draft pid batches tr reg e) : MonotoneClock tr := by
  apply List.pairwise_of_forall_mem_list
  intro s hs s' hs'
  rw [h.env_eq s hs, h.env_eq s' hs']

/-- `mark_unresolved` accepts a petition whose grace period is over. -/
theorem markUnresolved_ok {amount : Nat} (he : reg.petitions pid = some e)
    (hst : stepState env.now e.record.closeAtBlock e.record.state = some .disputeWindow)
    (hc : checkUnresolved env (e.withState .disputeWindow) .disputeWindow = .ok amount)
    (caller : Address) (gasRebate : Nat) :
    ∃ r reg', markUnresolved env pid caller gasRebate reg = some (.ok r, reg') ∧
      reg'.petitions pid = some (e.withState .disputeWindow).tombstoned := by
  have hentry : ∃ r, markUnresolvedEntry env pid caller gasRebate e =
      some (.ok r, (e.withState .disputeWindow).tombstoned) := by
    rw [markUnresolvedEntry, Method.bind_of_ok (stepEntry_eq_some.mpr ⟨_, hst, rfl, rfl⟩),
      Method.get_bind, Method.ofExcept_ok_bind hc]
    exact ⟨_, rfl⟩
  obtain ⟨r, hentry⟩ := hentry
  exact ⟨r, _, onPetition_eq_some.mpr (.inr ⟨e, _, he, hentry, rfl⟩), Function.update_self ..⟩

end

open Sample

/-- A petition with a zero bounty, accepted at a zero alpha, has paid it out from the start. -/
theorem zero_bounty_paid_while_signing : ∃ pid tr reg e ev,
    History primitives (.zero 20) (Sample.global 0) tr reg ∧ MonotoneClock tr ∧
    reg.petitions pid = some e ∧ registrations tr pid = [ev] ∧ paidOut tr pid = ev.bounty ∧
    e.record.state = .signingOpen := by
  obtain ⟨d, hd⟩ := @exists_draft 0 0 .new (by decide +kernel)
  obtain ⟨tr, reg, e, hrun⟩ := @exists_history _ _ _ _ _ _ hd (fun _ _ => rfl) [] (by simp)
    ⟨Trees.new _, rfl⟩
  obtain ⟨ev, H⟩ := (history_lifecycle hrun.run hrun.clock _).2 e hrun.entry
  have hbounty : u256ToU128 (Sample.draft 0).bounty = .ok 0 := by decide
  have hzero : ev.bounty = 0 := by
    have hb := H.bounty
    rw [hrun.registered.bounty, hbounty] at hb
    exact (Except.ok.inj hb).symm
  refine ⟨_, tr, reg, e, ev, hrun.run, hrun.clock, hrun.entry, H.registered, ?_, hrun.signing⟩
  rw [H.paid, hrun.signing, hzero]
  rfl

theorem lifecycle_spec_unresolved : ∃ pid tr reg e ev,
    History primitives (.zero 20) (Sample.global 1) tr reg ∧ MonotoneClock tr ∧
    reg.petitions pid = some e ∧ e.record.state = .unresolved ∧ registrations tr pid = [ev] ∧
    LifecycleSpec tr pid ev .unresolved := by
  obtain ⟨pid, tr, reg, e, hrun⟩ := exists_run (carrier [batch])
    (List.forall_mem_singleton.mpr batch_wellFormed)
    (List.flatten_singleton ▸ batch_replays)
  set env := ports (carrier [batch]) 402100
  have hclose : e.record.closeAtBlock = 301000 := hrun.registered.closeAtBlock
  have hst : stepState env.now e.record.closeAtBlock e.record.state = some .disputeWindow := by
    rw [hclose, hrun.signing]
    decide
  have hc : checkUnresolved env (e.withState .disputeWindow) .disputeWindow = .ok 1000 := by
    refine checkUnresolved_eq_ok.mpr ⟨rfl, ?_, ?_⟩
    · have hb : (e.withState .disputeWindow).record.bounty = (Sample.draft 1000).bounty :=
        hrun.registered.bounty
      rw [hb]
      decide
    · have hb : (e.withState .disputeWindow).record.closeAtBlock = 301000 := hclose
      rw [hb]
      decide
  obtain ⟨r, reg', hmark, he'⟩ := markUnresolved_ok hrun.entry hst hc (.zero 20) 5
  set s : Step := ⟨env, .markUnresolved pid (.zero 20) 5, .ok (.unresolved r.1 r.2.1 r.2.2)⟩
  have hrun' := hrun.run.cons (l := s) (Method.mapOk_eq_some.mpr ⟨_, hmark, rfl⟩)
  have hclock : MonotoneClock (s :: tr) := by
    refine List.pairwise_cons.mpr ⟨fun s' hs' => ?_, hrun.clock⟩
    rw [hrun.env_eq s' hs']
    exact (by decide : 300000 ≤ 402100)
  obtain ⟨⟨ev, hreg, hspec⟩, -⟩ := lifecycle_spec hrun' hclock he'
  exact ⟨pid, _, reg', _, ev, hrun', hclock, he', rfl, hreg, hspec⟩

end Pocs.Civic
