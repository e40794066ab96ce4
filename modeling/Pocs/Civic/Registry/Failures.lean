import Pocs.Civic.Registry.Progress

/-! # Calls that fail

A call that returns an error has at most advanced the lifecycle of the petition it is on (`failed_keeps`).
Two conversions of the source come after writes: the index of a new batch, which fits while there is room in
the trees, and the bounty, which was converted when the petition was registered. -/

namespace Pocs.Civic

open Method (bind_eq_some)

/-- Nothing changed but the lifecycle state of the petition that the call is on, if it is on one. -/
inductive Advanced (env : Ports) (call : Call) (reg : PetitionRegistry) : PetitionRegistry → Prop where
  | kept : Advanced env call reg reg
  | stepped {pid : PetitionId} {e : PetitionEntry} {st : PetitionState} (target : call.target = some pid)
    (entry : reg.petitions pid = some e)
    (step : stepState env.now e.record.closeAtBlock e.record.state = some st) :
    Advanced env call reg { reg with petitions := Function.update reg.petitions pid (some (e.withState st)) }

section
variable {C : Primitives} {address : Address} {global : GlobalState} {tr : List Step}
  {reg reg' : PetitionRegistry} {env : Ports} {call : Call} {err : RegistryError}

/-- Every check of `register` comes before its writes. -/
theorem register_failed {draft : PetitionDraft} (h : register C env draft reg = some (.error err, reg')) :
    reg' = reg := by
  simp only [register, Method.get_bind] at h
  cases hd : checkDraft C env reg draft with
  | error e =>
    rw [Method.ofExcept_error_bind hd] at h
    cases h
    rfl
  | ok d =>
  rw [Method.ofExcept_ok_bind hd] at h
  cases hs : checkedAdd 32 reg.global.s 1 with
  | none =>
    rw [hs, okOr, Method.ofExcept_error_bind rfl] at h
    cases h
    rfl
  | some s =>
  -- the step of the inserted entry does not fail
  rw [hs, okOr, Method.ofExcept_ok_bind rfl, Method.set_bind] at h
  obtain ⟨_, _, _, h⟩ | ⟨_, hstep, -⟩ := bind_eq_some.mp h
  · cases h
  · obtain ⟨hnone, -, -⟩ | ⟨_, _, -, hstep, -⟩ := onPetition_eq_some.mp hstep
    · simp at hnone
    · obtain ⟨_, -, hr, -⟩ := stepEntry_eq_some.mp hstep
      cases hr

theorem updateAlpha_failed {newAlpha : Nat} (h : updateAlpha newAlpha reg = some (.error err, reg')) :
    reg' = reg := by
  simp only [updateAlpha, Method.get_bind] at h
  obtain ⟨_, _, _, h⟩ | ⟨_, hf, -⟩ := bind_eq_some.mp h
  · cases h
  · exact (Method.ofExcept_eq_some.mp hf).2.symm

/-- The entry of a petition after a call on it that fails. -/
theorem EntryInv.failed {e e' : PetitionEntry} {ps : List Publication} {k : Nat} {pid : PetitionId}
    {emptyImtRoot : Bytes32} (H : EntryInv C e ps k) (htarget : call.target = some pid)
    (h : EntryStep C env emptyImtRoot pid e call (.error err) e') :
    ∃ st, stepState env.now e.record.closeAtBlock e.record.state = some st ∧ e' = e.withState st := by
  cases h with
  | untouched hc => exact absurd htarget hc
  | failed _ hst => exact ⟨_, hst, rfl⟩
  | indexOverflow hst hu hlen =>
    have hopen := (stepState_advance hst).open_of_open (.inr (checkBatch_ok hu).signing)
    exact absurd (H.batches_lt hopen) (not_lt.mpr hlen)
  | bountyOverflow _ ha =>
    obtain ⟨amount, hamount⟩ := H.bounty
    rw [hamount] at ha
    cases ha

/-- A method on the entry of the target of a call. -/
theorem onPetition_failed {α : Type} {pid : PetitionId} {m : Method PetitionEntry RegistryError α}
    {f : α → Event} (hinv : RegistryInv C tr reg) (htarget : call.target = some pid)
    (hstep : PetitionStep C pid reg ⟨env, call, .error err⟩ reg')
    (h : (onPetition pid m).mapOk f reg = some (.error err, reg')) : Advanced env call reg reg' := by
  obtain ⟨r, hon, -⟩ := Method.mapOk_eq_some.mp h
  rcases onPetition_eq_some.mp hon with ⟨-, -, rfl⟩ | ⟨e, e', he, -, rfl⟩
  · exact .kept
  · obtain ⟨k, H⟩ := hinv.entry pid e he
    obtain ⟨e₁, he₁, hentry⟩ := hstep.entry e he
    have hsame : Function.update reg.petitions pid (some e') pid = some e₁ := he₁
    rw [Function.update_self, Option.some.injEq] at hsame
    subst hsame
    obtain ⟨st, hst, rfl⟩ := H.failed htarget hentry
    exact .stepped htarget he hst

/-- A call that fails has changed nothing but the lifecycle state of its petition. -/
theorem failed_keeps (hrun : History C address global tr reg)
    (h : Transition C reg ⟨env, call, .error err⟩ reg') : Advanced env call reg reg' := by
  have hinv := history_inv hrun
  have hstep := transition_entry h
  cases call with
  | register draft =>
    obtain ⟨r, hreg, hr⟩ := Method.mapOk_eq_some.mp h
    cases r with
    | ok => cases hr
    | error e =>
      rw [register_failed hreg]
      exact .kept
  | publishBatch pid relayer sub | resolve pid resolver sub | markUnresolved pid caller gasRebate =>
    exact onPetition_failed hinv rfl (hstep pid) h
  | dispute d => exact onPetition_failed hinv rfl (hstep d.petitionId) h
  | updateAlpha newAlpha =>
    obtain ⟨r, hreg, hr⟩ := Method.mapOk_eq_some.mp h
    cases r with
    | ok => cases hr
    | error e =>
      rw [updateAlpha_failed hreg]
      exact .kept

end

open Sample

/-- A petition cannot be marked as unresolved at block 310000, but its signing is closed by then. -/
theorem failed_keeps_sample : ∃ pid tr reg e reg' err,
    History primitives (.zero 20) (Sample.global 1) tr reg ∧ reg.petitions pid = some e ∧
    e.record.state = .signingOpen ∧ Transition primitives reg
      ⟨ports .new 310000, .markUnresolved pid (.zero 20) 0, .error err⟩ reg' ∧
    Advanced (ports .new 310000) (.markUnresolved pid (.zero 20) 0) reg reg' := by
  obtain ⟨pid, tr, reg, e, hrun⟩ := exists_run (carrier [batch])
    (List.forall_mem_singleton.mpr batch_wellFormed)
    (List.flatten_singleton ▸ batch_replays)
  have hclose : e.record.closeAtBlock = 301000 := hrun.registered.closeAtBlock
  have hst : stepState 310000 e.record.closeAtBlock e.record.state = some .disputeWindow := by
    rw [hclose, hrun.signing]
    decide
  have hc : checkUnresolved (ports .new 310000) (e.withState .disputeWindow) .disputeWindow =
      .error (.badState .disputeWindow "mark_unresolved") := by
    rw [checkUnresolved, show (e.withState .disputeWindow).record.closeAtBlock = 301000 from hclose]
    rfl
  have hentry : markUnresolvedEntry (ports .new 310000) pid (.zero 20) 0 e =
      some (.error (.badState .disputeWindow "mark_unresolved"), e.withState .disputeWindow) := by
    rw [markUnresolvedEntry, Method.bind_of_ok (stepEntry_eq_some.mpr ⟨_, hst, rfl, rfl⟩), Method.get_bind,
      Method.ofExcept_error_bind hc]
  have hstep : Transition primitives reg ⟨ports .new 310000, .markUnresolved pid (.zero 20) 0,
      .error (.badState .disputeWindow "mark_unresolved")⟩ _ :=
    Method.mapOk_eq_some.mpr ⟨_, onPetition_eq_some.mpr (.inr ⟨e, _, hrun.entry, hentry, rfl⟩), rfl⟩
  exact ⟨pid, tr, reg, e, _, _, hrun.run, hrun.entry, hrun.signing, hstep, failed_keeps hrun.run hstep⟩

end Pocs.Civic
