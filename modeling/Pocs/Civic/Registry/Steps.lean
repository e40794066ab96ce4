import Pocs.Civic.Registry.Core

/-! # What a registry call can do

`Call.run` is a call of the registry, `History` a run of calls from a fresh registry.
`transition_entry` says what a call does to the entry of a petition: nothing, a creation, or one of
the alternatives of `EntryStep`, each with the guards under which the source takes it. -/

namespace Pocs.Civic

open Method (bind_eq_some)

/-! ## `step_state` -/

def afterClose (block closeAtBlock : Nat) : Option PetitionState :=
  (checkedAdd 64 closeAtBlock cooldownBlocks).map fun cooldownEnd =>
    if block ≥ cooldownEnd then .disputeWindow else .cooldown

section
variable {b c : Nat} {st st' : PetitionState}

private theorem stepStateLoop_next {s t : PetitionState} (h : nextState b c s = some (some t)) (n : Nat) :
    stepStateLoop b c (n + 1) s = stepStateLoop b c n t := by
  simp only [stepStateLoop, h]
  rfl

private theorem stepStateLoop_stop {s : PetitionState} (h : nextState b c s = some none) (n : Nat) :
    stepStateLoop b c (n + 1) s = some s := by
  simp only [stepStateLoop, h]
  rfl

private theorem stepStateLoop_cooldown (n : Nat) : stepStateLoop b c (n + 2) .cooldown = afterClose b c := by
  cases h : checkedAdd 64 c cooldownBlocks with
  | none => simp [stepStateLoop, nextState, afterClose, h]
  | some e =>
    by_cases hb : e ≤ b
    · rw [stepStateLoop_next (t := .disputeWindow) (by simp [nextState, h, hb])]
      simp [stepStateLoop_stop (s := .disputeWindow) rfl, afterClose, h, hb]
    · rw [stepStateLoop_stop (by simp [nextState, h, hb])]
      simp [afterClose, h, hb]

private theorem stepStateLoop_signingOpen (n : Nat) : stepStateLoop b c (n + 4) .signingOpen =
      if c ≤ b then afterClose b c else some .signingOpen := by
  by_cases hb : c ≤ b
  · rw [stepStateLoop_next (t := .signingClosed) (by simp [nextState, hb]),
      stepStateLoop_next (t := .cooldown) rfl, stepStateLoop_cooldown, if_pos hb]
  · rw [stepStateLoop_stop (by simp [nextState, hb]), if_neg hb]

/-- `step_state` in closed form. -/
theorem stepState_eq : stepState b c st = match st with
    | .registered | .signingOpen => if c ≤ b then afterClose b c else some .signingOpen
    | .signingClosed | .cooldown => afterClose b c
    | _ => some st := by
  cases st with
  | registered =>
    exact (stepStateLoop_next (t := .signingOpen) rfl 4).trans (stepStateLoop_signingOpen 0)
  | signingOpen => exact stepStateLoop_signingOpen 1
  | signingClosed =>
    exact (stepStateLoop_next (t := .cooldown) rfl 4).trans (stepStateLoop_cooldown 2)
  | cooldown => exact stepStateLoop_cooldown 3
  | disputeWindow | resolved | unresolved => rfl

theorem afterClose_eq_some : afterClose b c = some st ↔ c + cooldownBlocks < 2 ^ 64 ∧
    ((c + cooldownBlocks ≤ b ∧ st = .disputeWindow) ∨ (b < c + cooldownBlocks ∧ st = .cooldown)) := by
  simp only [afterClose, Option.map_eq_some_iff, checkedAdd_eq_some]
  constructor
  · rintro ⟨_, ⟨hlt, rfl⟩, rfl⟩
    by_cases hb : c + cooldownBlocks ≤ b
    · exact ⟨hlt, .inl ⟨hb, if_pos hb⟩⟩
    · exact ⟨hlt, .inr ⟨not_le.mp hb, if_neg hb⟩⟩
  · rintro ⟨hlt, ⟨hb, rfl⟩ | ⟨hb, rfl⟩⟩
    · exact ⟨_, ⟨hlt, rfl⟩, if_pos hb⟩
    · exact ⟨_, ⟨hlt, rfl⟩, if_neg (not_le.mpr hb)⟩

theorem afterClose_eq_none : afterClose b c = none ↔ 2 ^ 64 ≤ c + cooldownBlocks := by
  simp [afterClose, checkedAdd]

/-- Signing is over at block `b` and the end of the cooldown does not fit a block number. -/
def CooldownOverflows (b c : Nat) (st : PetitionState) : Prop :=
  2 ^ 64 ≤ c + cooldownBlocks ∧ match st with
    | .registered | .signingOpen => c ≤ b
    | .signingClosed | .cooldown => True
    | _ => False

theorem stepState_eq_none : stepState b c st = none ↔ CooldownOverflows b c st := by
  rw [stepState_eq]
  unfold CooldownOverflows
  cases st with
  | registered | signingOpen =>
    by_cases hb : c ≤ b
    · simp [hb, afterClose_eq_none]
    · simp [hb]
  | signingClosed | cooldown => simp [afterClose_eq_none]
  | disputeWindow | resolved | unresolved => simp

def PetitionState.Open (st : PetitionState) : Prop := st = .registered ∨ st = .signingOpen

/-- The states no call leaves. -/
def PetitionState.Terminal (st : PetitionState) : Prop := st = .resolved ∨ st = .unresolved

instance : DecidablePred PetitionState.Open := fun _ => inferInstanceAs (Decidable (_ ∨ _))
instance : DecidablePred PetitionState.Terminal := fun _ => inferInstanceAs (Decidable (_ ∨ _))

/-- What `step_state` can do. -/
inductive Advance (b c : Nat) : PetitionState → PetitionState → Prop where
  | opened {s : PetitionState} (hs : s.Open) (hb : b < c) : Advance b c s .signingOpen
  | cooling {s : PetitionState} (hs : s ≠ .disputeWindow ∧ ¬ s.Terminal)
    (hb : b < c + cooldownBlocks) : Advance b c s .cooldown
  | disputes {s : PetitionState} (hs : s ≠ .disputeWindow ∧ ¬ s.Terminal)
    (hb : c + cooldownBlocks ≤ b) : Advance b c s .disputeWindow
  | stays {s : PetitionState} (hs : s = .disputeWindow ∨ s.Terminal) : Advance b c s s

theorem stepState_advance (h : stepState b c st = some st') : Advance b c st st' := by
  have hclose : (st ≠ .disputeWindow ∧ ¬ st.Terminal) → afterClose b c = some st' → Advance b c st st' := by
    intro hst h
    obtain ⟨-, ⟨hb, rfl⟩ | ⟨hb, rfl⟩⟩ := afterClose_eq_some.mp h
    · exact .disputes hst hb
    · exact .cooling hst hb
  rw [stepState_eq] at h
  cases st with
  | registered | signingOpen =>
    by_cases hb : c ≤ b
    · exact hclose (by decide) (by simpa [hb] using h)
    · simp only [if_neg hb, Option.some.injEq] at h
      subst h
      exact .opened (by decide) (not_le.mp hb)
  | signingClosed | cooldown => exact hclose (by decide) h
  | disputeWindow | resolved | unresolved =>
    obtain rfl := Option.some.inj h
    exact .stays (by decide)

end

/-! ## Calls and histories -/

inductive Call where
  | register (draft : PetitionDraft)
  | publishBatch (petitionId : PetitionId) (relayer : Address) (submission : BatchSubmission)
  | dispute (d : Dispute)
  | resolve (petitionId : PetitionId) (resolver : Address) (submission : ResolutionSubmission)
  | markUnresolved (petitionId : PetitionId) (caller : Address) (gasRebate : Nat)
  | updateAlpha (newAlpha : Nat)

inductive Event where
  | registered (p : RegisteredPetition) (ev : PetitionRegisteredEvent)
  | published (ev : BatchPublishedEvent)
  | repudiated (ev : BatchRepudiatedEvent)
  | resolved (ev : PetitionResolvedEvent) (paid : BountyEvent)
  | unresolved (ev : PetitionUnresolvedEvent) (refund rebate : BountyEvent)
  | alphaUpdated (ev : AlphaUpdatedEvent)

def Call.run (C : Primitives) (env : Ports) : Call → Method PetitionRegistry RegistryError Event
  | .register draft => (Civic.register C env draft).mapOk fun x => .registered x.1 x.2
  | .publishBatch petitionId relayer submission =>
    (Civic.publishBatch C env petitionId relayer submission).mapOk .published
  | .dispute d => (Civic.dispute C env d).mapOk .repudiated
  | .resolve petitionId resolver submission =>
    (Civic.resolve env petitionId resolver submission).mapOk fun x => .resolved x.1 x.2
  | .markUnresolved petitionId caller gasRebate =>
    (Civic.markUnresolved env petitionId caller gasRebate).mapOk fun x => .unresolved x.1 x.2.1 x.2.2
  | .updateAlpha newAlpha => (Civic.updateAlpha newAlpha).mapOk .alphaUpdated

def Call.target : Call → Option PetitionId
  | .publishBatch petitionId _ _ | .resolve petitionId _ _ | .markUnresolved petitionId _ _ =>
    some petitionId
  | .dispute d => some d.petitionId
  | _ => none

/-- A call with its ports and its result. -/
structure Step where
  env : Ports
  call : Call
  result : Except RegistryError Event

/-- A call that does not panic. -/
def Transition (C : Primitives) (reg : PetitionRegistry) (s : Step) (reg' : PetitionRegistry) :
    Prop := s.call.run C s.env reg = some (s.result, reg')

/-- The calls since the registry was created, newest first, and the state they lead to. -/
abbrev History (C : Primitives) (address : Address) (global : GlobalState) :
    List Step → PetitionRegistry → Prop :=
  Run (Transition C) (PetitionRegistry.new C address global)

/-! ## What a call does to an entry -/

section
variable {C : Primitives} {env : Ports} {e e' : PetitionEntry} {reg reg' : PetitionRegistry}

theorem stepEntry_eq_some {r : Except RegistryError PetitionState} : stepEntry env e = some (r, e') ↔
      ∃ st, stepState env.now e.record.closeAtBlock e.record.state = some st ∧ r = .ok st ∧
        e' = e.withState st := by
  unfold stepEntry
  simp only [Method.get_bind]
  cases hst : stepState env.now e.record.closeAtBlock e.record.state with
  | none => simp [bind_eq_some]
  | some st =>
    rw [Method.orPanic_bind rfl, Method.set_bind, Method.pure_apply]
    simp only [Option.some.injEq, Prod.mk.injEq, exists_eq_left']
    exact and_congr eq_comm eq_comm

/-- A method that starts with `step_state` fails with the state advanced, or goes on from there. -/
private theorem stepEntry_bind {m : PetitionState → Method PetitionEntry RegistryError α}
    {r : Except RegistryError α} (h : (stepEntry env >>= m) e = some (r, e')) :
    ∃ st, stepState env.now e.record.closeAtBlock e.record.state = some st ∧
      m st (e.withState st) = some (r, e') := by
  obtain ⟨st, e₁, h₁, h₂⟩ | ⟨err, h₁, -⟩ := bind_eq_some.mp h
  · obtain ⟨st', hst, hr, rfl⟩ := stepEntry_eq_some.mp h₁
    obtain rfl := Except.ok.inj hr
    exact ⟨st, hst, h₂⟩
  · obtain ⟨_, -, hr, -⟩ := stepEntry_eq_some.mp h₁
    cases hr

/-- What a call can do to the entry of petition `pid`, with the guards of the source. -/
inductive EntryStep (C : Primitives) (env : Ports) (emptyImtRoot : Bytes32) (pid : PetitionId)
    (e : PetitionEntry) : Call → Except RegistryError Event → PetitionEntry → Prop where
  | untouched {c r} (hc : c.target ≠ some pid) : EntryStep C env emptyImtRoot pid e c r e
  | failed {c err st} (hc : c.target = some pid)
    (hst : stepState env.now e.record.closeAtBlock e.record.state = some st) :
    EntryStep C env emptyImtRoot pid e c (.error err) (e.withState st)
  | published {relayer sub st u} (hst : stepState env.now e.record.closeAtBlock e.record.state = some st)
    (hu : checkBatch C env (e.withState st) st sub = .ok u) (hlen : e.batches.length < 2 ^ 32) :
    EntryStep C env emptyImtRoot pid e (.publishBatch pid relayer sub)
      (.ok (.published ⟨pid, e.batches.length, u.localVh, u.newRr, u.newIdt, u.newLc⟩))
      (((e.withState st).withTrees u).withBatch u (u.batch pid e.batches.length relayer env.now))
  | indexOverflow {relayer sub st u err}
    (hst : stepState env.now e.record.closeAtBlock e.record.state = some st)
    (hu : checkBatch C env (e.withState st) st sub = .ok u) (hlen : 2 ^ 32 ≤ e.batches.length) :
    EntryStep C env emptyImtRoot pid e (.publishBatch pid relayer sub) (.error err)
      ((e.withState st).withTrees u)
  | disputed {d st b records t rr idt lc} (hd : d.petitionId = pid)
    (hst : stepState env.now e.record.closeAtBlock e.record.state = some st)
    (hb : checkDispute env (e.withState st) st d = .ok b)
    (hv : checkViolation C e.record.classSet d = .ok ())
    (hr : fetchReplay env e.batches d.batchIndex = .ok records) (ht : replay C records = .ok t)
    (hroll : rollBackToPredecessor e.batches d.batchIndex emptyImtRoot = (rr, idt, lc)) :
    EntryStep C env emptyImtRoot pid e (.dispute d) (.ok (.repudiated ⟨pid, d.batchIndex, rr, idt, lc⟩))
      ((e.withState st).rolledBack d.batchIndex rr idt lc t)
  | resolved {resolver sub st amount b bPerClass}
    (hst : stepState env.now e.record.closeAtBlock e.record.state = some st)
    (hc : checkResolution env (e.withState st) st sub = .ok ())
    (ha : u256ToU128 e.record.bounty = .ok amount)
    (hb : b = decide (sub.publicInputs.b ≠ 0))
    (hbs : bPerClass = sub.publicInputs.bPerClass.map fun x => decide (x ≠ 0)) :
    EntryStep C env emptyImtRoot pid e (.resolve pid resolver sub)
      (.ok (.resolved ⟨pid, b, bPerClass⟩ ⟨pid, resolver, amount⟩))
      ((e.withState st).withOutcome b bPerClass sub.proofBytes)
  | bountyOverflow {resolver sub st b bPerClass proof err err'}
    (hst : stepState env.now e.record.closeAtBlock e.record.state = some st)
    (ha : u256ToU128 e.record.bounty = .error err') :
    EntryStep C env emptyImtRoot pid e (.resolve pid resolver sub) (.error err)
      ((e.withState st).withOutcome b bPerClass proof)
  | unresolved {caller gasRebate st amount}
    (hst : stepState env.now e.record.closeAtBlock e.record.state = some st)
    (hc : checkUnresolved env (e.withState st) st = .ok amount) :
    EntryStep C env emptyImtRoot pid e (.markUnresolved pid caller gasRebate)
      (.ok (.unresolved ⟨pid⟩ ⟨pid, e.record.organizer, amount - cappedRebate amount gasRebate⟩
        ⟨pid, caller, cappedRebate amount gasRebate⟩))
      (e.withState st).tombstoned

variable {pid : PetitionId} {emptyImtRoot : Bytes32}

private theorem publishEntry_step {relayer : Address} {sub : BatchSubmission}
    {r : Except RegistryError BatchPublishedEvent} (h : publishEntry C env pid relayer sub e = some (r, e')) :
    EntryStep C env emptyImtRoot pid e (.publishBatch pid relayer sub) (r.map .published) e' := by
  obtain ⟨st, hst, h⟩ := stepEntry_bind h
  rw [Method.get_bind] at h
  cases hu : checkBatch C env (e.withState st) st sub with
  | error err =>
    rw [Method.ofExcept_error_bind hu] at h
    cases h
    exact .failed rfl hst
  | ok u =>
    rw [Method.ofExcept_ok_bind hu, Method.set_bind] at h
    by_cases hlen : 2 ^ 32 ≤ (e.withState st).batches.length
    · rw [Method.ofExcept_error_bind (failIf_pos hlen _)] at h
      cases h
      exact .indexOverflow hst hu hlen
    · rw [Method.ofExcept_ok_bind (failIf_neg hlen _)] at h
      cases h
      exact .published hst hu (not_le.mp hlen)

private theorem disputeEntry_step {d : Dispute} (hd : d.petitionId = pid)
    {r : Except RegistryError BatchRepudiatedEvent} (h : disputeEntry C env emptyImtRoot d e = some (r, e')) :
    EntryStep C env emptyImtRoot pid e (.dispute d) (r.map .repudiated) e' := by
  have htarget : (Call.dispute d).target = some pid := congrArg some hd
  obtain ⟨st, hst, h⟩ := stepEntry_bind h
  rw [Method.get_bind] at h
  cases hb : checkDispute env (e.withState st) st d with
  | error err =>
    rw [Method.ofExcept_error_bind hb] at h
    cases h
    exact .failed htarget hst
  | ok b =>
  rw [Method.ofExcept_ok_bind hb] at h
  cases hv : checkViolation C (e.withState st).record.classSet d with
  | error err =>
    rw [Method.ofExcept_error_bind hv] at h
    cases h
    exact .failed htarget hst
  | ok u =>
  rw [Method.ofExcept_ok_bind hv] at h
  cases hr : fetchReplay env (e.withState st).batches d.batchIndex with
  | error err =>
    rw [Method.ofExcept_error_bind hr] at h
    cases h
    exact .failed htarget hst
  | ok records =>
  rw [Method.ofExcept_ok_bind hr] at h
  cases ht : replay C records with
  | error err =>
    rw [Method.ofExcept_error_bind (by rw [ht]; rfl)] at h
    cases h
    exact .failed htarget hst
  | ok t =>
    rw [Method.ofExcept_ok_bind (by rw [ht]; rfl)] at h
    cases h
    subst hd
    exact .disputed rfl hst hb hv hr ht rfl

private theorem resolveEntry_step {resolver : Address} {sub : ResolutionSubmission}
    {r : Except RegistryError (PetitionResolvedEvent × BountyEvent)}
    (h : resolveEntry env pid resolver sub e = some (r, e')) :
    EntryStep C env emptyImtRoot pid e (.resolve pid resolver sub) (r.map fun x => .resolved x.1 x.2) e' := by
  obtain ⟨st, hst, h⟩ := stepEntry_bind h
  rw [Method.get_bind] at h
  cases hc : checkResolution env (e.withState st) st sub with
  | error err =>
    rw [Method.ofExcept_error_bind hc] at h
    cases h
    exact .failed rfl hst
  | ok u =>
    rw [Method.ofExcept_ok_bind hc, Method.set_bind] at h
    cases ha : u256ToU128 (e.withState st).record.bounty with
    | error err =>
      rw [Method.ofExcept_error_bind ha] at h
      cases h
      exact .bountyOverflow hst ha
    | ok amount =>
      rw [Method.ofExcept_ok_bind ha] at h
      cases h
      exact .resolved hst hc ha rfl rfl

private theorem markUnresolvedEntry_step {caller : Address} {gasRebate : Nat}
    {r : Except RegistryError (PetitionUnresolvedEvent × BountyEvent × BountyEvent)}
    (h : markUnresolvedEntry env pid caller gasRebate e = some (r, e')) :
    EntryStep C env emptyImtRoot pid e (.markUnresolved pid caller gasRebate)
      (r.map fun x => .unresolved x.1 x.2.1 x.2.2) e' := by
  obtain ⟨st, hst, h⟩ := stepEntry_bind h
  rw [Method.get_bind] at h
  cases hc : checkUnresolved env (e.withState st) st with
  | error err =>
    rw [Method.ofExcept_error_bind hc] at h
    cases h
    exact .failed rfl hst
  | ok amount =>
    rw [Method.ofExcept_ok_bind hc] at h
    cases h
    exact .unresolved hst hc

theorem onPetition_eq_some {m : Method PetitionEntry RegistryError α} {r : Except RegistryError α} :
    onPetition pid m reg = some (r, reg') ↔
      (reg.petitions pid = none ∧ r = .error .unknownPetition ∧ reg' = reg) ∨
        ∃ e e', reg.petitions pid = some e ∧ m e = some (r, e') ∧
          reg' = { reg with petitions := Function.update reg.petitions pid (some e') } := by
  simp only [onPetition, Option.map_eq_some_iff, Prod.mk.injEq, Prod.exists, Method.onKey_eq_some]
  constructor
  · rintro ⟨r₀, map, ⟨hnone, rfl, rfl⟩ | ⟨e, e', he, hm, rfl⟩, rfl, rfl⟩
    · exact .inl ⟨hnone, rfl, rfl⟩
    · exact .inr ⟨e, e', he, hm, rfl⟩
  · rintro (⟨hnone, rfl, rfl⟩ | ⟨e, e', he, hm, rfl⟩)
    · exact ⟨_, _, .inl ⟨hnone, rfl, rfl⟩, rfl, rfl⟩
    · exact ⟨_, _, .inr ⟨e, e', he, hm, rfl⟩, rfl, rfl⟩

def Step.registration (s : Step) : Option PetitionRegisteredEvent :=
  match s.call, s.result with
  | .register _, .ok (.registered _ ev) => some ev
  | _, _ => none

theorem Step.registration_target {s : Step} {ev : PetitionRegisteredEvent}
    (h : s.registration = some ev) : s.call.target = none := by
  obtain ⟨env, call, result⟩ := s
  cases call with
  | register draft => rfl
  | publishBatch | dispute | resolve | markUnresolved | updateAlpha => cases h

/-- What a call does to a registry, seen from petition `pid`. -/
structure PetitionStep (C : Primitives) (pid : PetitionId) (reg : PetitionRegistry) (s : Step)
    (reg' : PetitionRegistry) : Prop where
  emptyImtRoot : reg'.emptyImtRoot = reg.emptyImtRoot
  /-- A call on a petition that does not exist fails. -/
  absent : reg.petitions pid = none → s.call.target = some pid → s.result = .error .unknownPetition
  /-- An existing entry stays and takes a step. -/
  entry : ∀ e, reg.petitions pid = some e → ∃ e', reg'.petitions pid = some e' ∧
    EntryStep C s.env reg.emptyImtRoot pid e s.call s.result e'
  /-- A new entry is the one a successful registration inserts. -/
  created : reg.petitions pid = none → ∀ e', reg'.petitions pid = some e' →
    ∃ draft d st p ev, s.call = .register draft ∧ checkDraft C s.env reg draft = .ok d ∧
      d.petitionId = pid ∧ s.result = .ok (.registered p ev) ∧
      stepState s.env.now draft.closeAtBlock .registered = some st ∧
      e' = (newEntry C s.env reg draft d).withState st ∧
      ev.petitionId = pid ∧ ev.closeAtBlock = draft.closeAtBlock ∧ ev.bounty = d.bounty
  /-- A petition is registered once. -/
  fresh : ∀ ev, s.registration = some ev → ev.petitionId = pid →
    reg.petitions pid = none ∧ ∃ e', reg'.petitions pid = some e'

/-- A method on the entry of the target of a call. -/
private theorem onPetition_step {call : Call} {target : PetitionId}
    (htarget : call.target = some target) {m : Method PetitionEntry RegistryError α}
    {f : α → Event} {result : Except RegistryError Event} (hm : ∀ {e r e'}, m e = some (r, e') →
      EntryStep C env reg.emptyImtRoot target e call (r.map f) e')
    (h : (onPetition target m).mapOk f reg = some (result, reg')) :
    PetitionStep C pid reg ⟨env, call, result⟩ reg' := by
  obtain ⟨r, hon, rfl⟩ := Method.mapOk_eq_some.mp h
  have hreg : ∀ ev, (⟨env, call, r.map f⟩ : Step).registration ≠ some ev :=
    fun ev hev => Option.some_ne_none _ (htarget.symm.trans (Step.registration_target hev))
  obtain ⟨hnone, rfl, rfl⟩ | ⟨e, e', he, hstep, rfl⟩ := onPetition_eq_some.mp hon
  · refine ⟨rfl, fun _ _ => rfl, fun e he => ⟨e, he, .untouched ?_⟩, fun h e' he' => ?_,
      fun ev hev => absurd hev (hreg ev)⟩
    · rintro hpid
      rw [htarget, Option.some.injEq] at hpid
      subst hpid
      rw [hnone] at he
      cases he
    · rw [h] at he'
      cases he'
  · by_cases hpid : pid = target
    · subst hpid
      refine ⟨rfl, fun hnone => ?_, fun e₁ he₁ => ⟨e', by simp, ?_⟩, fun hnone => ?_,
        fun ev hev => absurd hev (hreg ev)⟩
      · rw [he] at hnone
        cases hnone
      · obtain rfl := Option.some.inj (he.symm.trans he₁)
        exact hm hstep
      · rw [he] at hnone
        cases hnone
    · have hframe : Function.update reg.petitions target (some e') pid = reg.petitions pid :=
        Function.update_of_ne hpid _ _
      have hne : call.target ≠ some pid := by
        rw [htarget]
        exact fun heq => hpid (Option.some.inj heq).symm
      refine ⟨rfl, fun _ hc => absurd hc hne,
        fun e₁ he₁ => ⟨e₁, hframe.trans he₁, .untouched hne⟩, fun hnone e₁ he₁ => ?_,
        fun ev hev => absurd hev (hreg ev)⟩
      · have h₁ := hframe.symm.trans he₁
        rw [hnone] at h₁
        cases h₁

/-- What the later operations rely on of an accepted draft. -/
structure DraftChecked (env : Ports) (reg : PetitionRegistry) (draft : PetitionDraft)
    (d : DraftBindings) : Prop where
  fresh : reg.petitions d.petitionId = none
  classSet_ne : draft.classSet ≠ []
  thresholds : draft.classThresholds.length = draft.classSet.length
  increasing : draft.classSet.IsChain (· < ·)
  closes : env.now < draft.closeAtBlock
  slot : reg.global.s < fsrtSlotCount
  bounty : u256ToU128 draft.bounty = .ok d.bounty

theorem checkDraft_ok {draft : PetitionDraft} {d : DraftBindings}
    (h : checkDraft C env reg draft = .ok d) : DraftChecked env reg draft d := by
  simp only [checkDraft, bind_eq_ok, failIf_eq_ok, mapErr_eq_ok, okOr_eq_ok, pure_eq_ok,
    not_not, not_lt, not_le] at h
  obtain ⟨-, -, -, hne, -, hlen, -, -, -, hinc, -, -, operand, -, -, -, seen, -, -, -, -, hclose, -,
    -, encoded, -, canonical, -, -, hslot, -, hfresh, -, -, sum, -, expected, -, bMin, -, bounty,
    hbounty, -, -, rfl⟩ := h
  exact ⟨by simpa using hfresh, hne, hlen, hinc, hclose, hslot, hbounty⟩

private theorem register_step {draft : PetitionDraft} {result : Except RegistryError Event}
    (h : (register C env draft).mapOk (fun x => Event.registered x.1 x.2) reg = some (result, reg')) :
    PetitionStep C pid reg ⟨env, .register draft, result⟩ reg' := by
  have hne : (Call.register draft).target ≠ some pid := by simp [Call.target]
  have hkept : ∀ e, EntryStep C env reg.emptyImtRoot pid e (.register draft) result e :=
    fun e => .untouched hne
  have hfail : ∀ {err}, result = .error err → reg' = reg →
      PetitionStep C pid reg ⟨env, .register draft, result⟩ reg' := by
    rintro err rfl rfl
    refine ⟨rfl, fun _ hc => absurd hc hne, fun e he => ⟨e, he, hkept e⟩, fun hnone e' he' => ?_,
      fun ev hev => by cases hev⟩
    rw [hnone] at he'
    cases he'
  obtain ⟨r, hreg, rfl⟩ := Method.mapOk_eq_some.mp h
  clear h
  have h := hreg
  simp only [register, Method.get_bind] at h
  cases hd : checkDraft C env reg draft with
  | error err =>
    rw [Method.ofExcept_error_bind hd] at h
    cases h
    exact hfail rfl rfl
  | ok d =>
  rw [Method.ofExcept_ok_bind hd] at h
  cases hs : checkedAdd 32 reg.global.s 1 with
  | none =>
    rw [hs, okOr, Method.ofExcept_error_bind rfl] at h
    cases h
    exact hfail rfl rfl
  | some s =>
  rw [hs, okOr, Method.ofExcept_ok_bind rfl, Method.set_bind] at h
  -- the step of the inserted entry cannot fail
  obtain ⟨st, reg₁, hst, h⟩ | ⟨err, hst, -⟩ := bind_eq_some.mp h
  · obtain ⟨-, hr, -⟩ | ⟨e, e', he, hstep, rfl⟩ := onPetition_eq_some.mp hst
    · cases hr
    simp only [Function.update_self, Option.some.injEq] at he
    subst he
    obtain ⟨st', hst', hr, rfl⟩ := stepEntry_eq_some.mp hstep
    cases h
    have hfresh := (checkDraft_ok hd).fresh
    by_cases hpid : pid = d.petitionId
    · subst hpid
      refine ⟨rfl, fun _ hc => absurd hc hne, fun e he => ?_, fun _ e' he' => ?_, fun _ _ _ => ?_⟩
      · rw [hfresh] at he
        cases he
      · simp only [Function.update_self, Option.some.injEq] at he'
        exact ⟨draft, d, st', _, _, rfl, hd, rfl, rfl, hst', he'.symm, rfl, rfl, rfl⟩
      · exact ⟨hfresh, _, Function.update_self ..⟩
    · refine ⟨rfl, fun _ hc => absurd hc hne, fun e he => ⟨e, ?_, hkept e⟩, fun hnone e' he' => ?_,
        fun ev hev hid => ?_⟩
      · simpa [Function.update_of_ne hpid] using he
      · simp only [Function.update_of_ne hpid, hnone] at he'
        cases he'
      · obtain rfl := Option.some.inj hev
        exact absurd hid.symm hpid
  · obtain ⟨hnone, -, -⟩ | ⟨e, e', -, hstep, -⟩ := onPetition_eq_some.mp hst
    · simp at hnone
    · obtain ⟨_, -, hr, -⟩ := stepEntry_eq_some.mp hstep
      cases hr

/-- What a call does, seen from one petition. -/
theorem transition_entry {s : Step} (h : Transition C reg s reg') (pid : PetitionId) :
    PetitionStep C pid reg s reg' := by
  obtain ⟨env, call, result⟩ := s
  cases call with
  | register draft => exact register_step h
  | publishBatch target relayer sub => exact onPetition_step rfl publishEntry_step h
  | dispute d => exact onPetition_step rfl (disputeEntry_step rfl) h
  | resolve target resolver sub => exact onPetition_step rfl resolveEntry_step h
  | markUnresolved target caller gasRebate =>
    have hrun : (onPetition target (markUnresolvedEntry env target caller gasRebate)).mapOk
        (fun x => Event.unresolved x.1 x.2.1 x.2.2) reg = some (result, reg') := h
    exact onPetition_step rfl markUnresolvedEntry_step hrun
  | updateAlpha newAlpha =>
    obtain ⟨r, h, -⟩ := Method.mapOk_eq_some.mp h
    have hreg : reg'.petitions = reg.petitions ∧ reg'.emptyImtRoot = reg.emptyImtRoot := by
      simp only [updateAlpha, Method.get_bind] at h
      obtain ⟨_, reg₁, hf, h⟩ | ⟨err, hf, -⟩ := bind_eq_some.mp h
      · cases h
        exact ⟨rfl, rfl⟩
      · obtain ⟨-, rfl⟩ := Method.ofExcept_eq_some.mp hf
        exact ⟨rfl, rfl⟩
    have hne : (Call.updateAlpha newAlpha).target ≠ some pid := by simp [Call.target]
    refine ⟨hreg.2, fun _ hc => absurd hc hne, fun e he => ⟨e, hreg.1 ▸ he, .untouched hne⟩,
      fun hnone e' he' => ?_, fun ev hev => by cases hev⟩
    rw [hreg.1, hnone] at he'
    cases he'

end

end Pocs.Civic
