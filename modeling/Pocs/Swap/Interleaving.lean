import Pocs.Swap.Submission

/-! # Two matching submissions at once

The first caller buffers its submission under one lock and its lock data under another. Between the
two the second caller finds the submission without the lock data and gives up, and the lock data of the
first stay behind. Both calls succeed if and only if the first insert runs before the second remove
(`settled_iff_insertFirst`). -/

namespace Pocs.Swap

open Compliance (BnField Word)
open Calls

/-! ## Valid calls -/

structure Holds (buffers : Buffers) (swapId : Word) (submission : Option PartySubmission)
    (lockData : Option SwapLockData) : Prop where
  pending : buffers.pending swapId = submission
  pendingLockData : buffers.pendingLockData swapId = lockData

section
variable {buffers : Buffers} {submission : PartySubmission} {found : Option PartySubmission}
  {lockData : Option SwapLockData}

theorem Holds.submit_first (h : Holds buffers submission.swapId none lockData) :
    (buffers.submit submission).1 = none ∧
      Holds (buffers.submit submission).2 submission.swapId (some submission) lockData := by
  rw [Buffers.submit, h.pending]
  exact ⟨rfl, Function.update_self .., h.pendingLockData⟩

theorem Holds.submit_second {first : PartySubmission}
    (h : Holds buffers submission.swapId (some first) lockData) : (buffers.submit submission).1 = some first ∧
      Holds (buffers.submit submission).2 submission.swapId none lockData := by
  rw [Buffers.submit, h.pending]
  exact ⟨rfl, Function.update_self .., h.pendingLockData⟩

theorem Holds.insert {swapId : Word} (h : Holds buffers swapId found lockData) (lock : SwapLockData) :
    Holds (buffers.insertLockData swapId lock) swapId found (some lock) :=
  ⟨h.pending, Function.update_self ..⟩

theorem Holds.remove {swapId : Word} (h : Holds buffers swapId found lockData) :
    (buffers.removeLockData swapId).1 = lockData ∧ Holds (buffers.removeLockData swapId).2 swapId found none :=
  ⟨h.pendingLockData, h.pending, Function.update_self ..⟩

end

section
variable {F C R : Type} [BnField F] (coordinator : SwapCoordinator F C R) (terms : SwapTerms)
  (submissions : PartyRole → PartySubmission) (lockData : PartyRole → SwapLockData)

/-- The submissions match, their locks are found on their chains, and the swap can be announced. -/
structure Valid : Prop where
  matching : Matching coordinator.hash terms submissions lockData
  onChain : ∀ i, coordinator.readLockData (submissions i) = .ok (lockData i)
  announced : ∀ ann, Announces coordinator.hash terms submissions ann →
    ∃ receipt, coordinator.announce ann = .ok (.verified ann receipt)

/-- Enough time remains wherever it is looked at. -/
def InTime (tr : List CallStep) : Prop :=
  ∀ i now, .verify i now ∈ tr → coordinator.checkTimeout (lockData i) now = .ok ()

/-- Nothing is pending for the swap before the calls. -/
structure Begun (calls : Calls C R) : Prop where
  start : ∀ i, calls.call i = .start
  holds : Holds calls.buffers terms.swapId none none

/-- One call announces the swap, the other one waits, and nothing stays behind. -/
structure Settled (calls : Calls C R) : Prop where
  results : ∃ i ann receipt, Announces coordinator.hash terms submissions ann ∧
    calls.call i = .returned (.ok .pending) ∧
    calls.call i.counterparty = .returned (.ok (.verified ann receipt))
  holds : Holds calls.buffers terms.swapId none none

/-- A call takes lock data out after the other call has put them in. -/
def InsertFirst : List CallStep → Prop
  | [] => True
  | st :: tr => (∀ i, st = .remove i → .insert i.counterparty ∈ tr) ∧ InsertFirst tr

/-! ## The course of the two calls -/

/-- The call has not reached the store. -/
def Unsent (calls : Calls C R) (i : PartyRole) : Prop :=
  calls.call i = .start ∨ calls.call i = .read (lockData i)

/-- The counterparty's call has what it needs to announce the swap. -/
inductive Completing (i : PartyRole) : Call C R → Prop where
  | matched : Completing i (.matched (lockData i.counterparty) (submissions i) (lockData i))
  | verified {ann} (h : Announces coordinator.hash terms submissions ann) : Completing i (.verified ann)
  | returned {ann receipt} (h : Announces coordinator.hash terms submissions ann) :
    Completing i (.returned (.ok (.verified ann receipt)))

/-- How far the calls of a run are, `i` being the party that came first. -/
inductive Phase (tr : List CallStep) (calls : Calls C R) : Prop where
  | unsent (unsent : ∀ i, Unsent lockData calls i) (holds : Holds calls.buffers terms.swapId none none)
    (none_inserted : ∀ i, .insert i ∉ tr) (order : InsertFirst tr)
  | buffered (i) (first : calls.call i = .first (lockData i)) (unsent : Unsent lockData calls i.counterparty)
    (holds : Holds calls.buffers terms.swapId (some (submissions i)) none)
    (none_inserted : ∀ i, .insert i ∉ tr) (order : InsertFirst tr)
  | waiting (i) (first : calls.call i = .returned (.ok .pending))
    (unsent : Unsent lockData calls i.counterparty)
    (holds : Holds calls.buffers terms.swapId (some (submissions i)) (some (lockData i)))
    (inserted : .insert i ∈ tr) (order : InsertFirst tr)
  | early (i) (first : calls.call i = .first (lockData i))
    (second : calls.call i.counterparty = .second (lockData i.counterparty) (submissions i))
    (holds : Holds calls.buffers terms.swapId none none)
    (none_inserted : ∀ i, .insert i ∉ tr) (order : InsertFirst tr)
  | ready (i) (first : calls.call i = .returned (.ok .pending))
    (second : calls.call i.counterparty = .second (lockData i.counterparty) (submissions i))
    (holds : Holds calls.buffers terms.swapId none (some (lockData i)))
    (inserted : .insert i ∈ tr) (order : InsertFirst tr)
  | completing (i) (first : calls.call i = .returned (.ok .pending))
    (second : Completing coordinator terms submissions lockData i (calls.call i.counterparty))
    (holds : Holds calls.buffers terms.swapId none none) (order : InsertFirst tr)
  | missed (i) (first : calls.call i = .first (lockData i) ∨ calls.call i = .returned (.ok .pending))
    (second : calls.call i.counterparty = .returned (.error .missingLockData))
    (order : ¬ InsertFirst tr)

variable {coordinator terms submissions lockData} {tr : List CallStep} {st : CallStep}
  {calls calls' : Calls C R} {i j : PartyRole} {c : Call C R}

theorem InsertFirst.cons (h : InsertFirst tr) (hst : ∀ i, st ≠ .remove i) : InsertFirst (st :: tr) :=
  ⟨fun i heq => absurd heq (hst i), h⟩

theorem not_inserted_cons (h : ∀ i, .insert i ∉ tr) (hst : ∀ i, st ≠ .insert i) :
    ∀ i, .insert i ∉ st :: tr := by
  intro i hmem
  rcases List.mem_cons.mp hmem with heq | hmem
  · exact hst i heq.symm
  · exact h i hmem

omit [BnField F] in
theorem Unsent.read (h : Unsent lockData calls i) : Unsent lockData (calls.move j (.read (lockData j))) i := by
  by_cases heq : i = j
  · subst heq
    exact .inr (calls.move_call_same i _)
  · rw [Unsent, calls.move_call_of_ne _ heq]
    exact h

theorem Unsent.of_ne (h : Unsent lockData calls i) (hne : i ≠ j) : Unsent lockData (calls.move j c) i := by
  rw [Unsent, calls.move_call_of_ne _ hne]
  exact h

/-- A call that stands where neither party does. -/
theorem Calls.absurd_call {c₁ c₂ : Call C R} (h : calls.call j = c) (h₁ : calls.call i = c₁)
    (h₂ : calls.call i.counterparty = c₂) (hne₁ : c ≠ c₁) (hne₂ : c ≠ c₂) : False := by
  rcases i.eq_or_counterparty j with rfl | rfl
  · exact hne₁ (h.symm.trans h₁)
  · exact hne₂ (h.symm.trans h₂)

theorem Calls.other_of_ne {c₁ : Call C R} (h : calls.call j = c) (h₁ : calls.call i = c₁)
    (hne : c ≠ c₁) : j = i.counterparty :=
  (i.eq_or_counterparty j).resolve_left fun heq => hne (h.symm.trans (heq ▸ h₁))

/-- No call is verified before the lock data were matched. -/
theorem Phase.completing_of_ne (h : Phase coordinator terms submissions lockData tr calls)
    (hcall : calls.call j = c) (hread : ∀ lock, c ≠ .read lock) (hstart : c ≠ .start)
    (hfirst : ∀ lock, c ≠ .first lock) (hsecond : ∀ lock found, c ≠ .second lock found)
    (hreturned : ∀ result, c ≠ .returned result) : ∃ i, j = i.counterparty ∧
      calls.call i = .returned (.ok .pending) ∧ Completing coordinator terms submissions lockData i c ∧
      Holds calls.buffers terms.swapId none none ∧ InsertFirst tr := by
  have hunsent : ¬ Unsent lockData calls j := by
    rintro (hcall' | hcall')
    · exact hstart (hcall.symm.trans hcall')
    · exact hread _ (hcall.symm.trans hcall')
  cases h with
  | unsent unsent => exact absurd (unsent j) hunsent
  | buffered i first unsent =>
    obtain rfl := other_of_ne hcall first (hfirst _)
    exact absurd unsent hunsent
  | waiting i first unsent =>
    obtain rfl := other_of_ne hcall first (hreturned _)
    exact absurd unsent hunsent
  | early i first second =>
    exact (absurd_call hcall first second (hfirst _) (hsecond _ _)).elim
  | ready i first second =>
    exact (absurd_call hcall first second (hreturned _) (hsecond _ _)).elim
  | completing i first second holds order =>
    obtain rfl := other_of_ne hcall first (hreturned _)
    exact ⟨i, rfl, first, hcall ▸ second, holds, order⟩
  | missed i first second =>
    rcases first with first | first
    · exact (absurd_call hcall first second (hfirst _) (hreturned _)).elim
    · exact (absurd_call hcall first second (hreturned _) (hreturned _)).elim

theorem Begun.phase (h : Begun terms calls) : Phase coordinator terms submissions lockData [] calls :=
  .unsent (fun i => .inl (h.start i)) h.holds (fun _ => List.not_mem_nil) trivial

section
variable (hvalid : Valid coordinator terms submissions lockData)
include hvalid

section
variable (h : Phase coordinator terms submissions lockData tr calls)
include h

theorem Phase.readLockData (at_start : calls.call j = .start) :
    Phase coordinator terms submissions lockData (.readLockData j :: tr)
      (calls.move j (.andThen .read (coordinator.readLockData (submissions j)))) := by
  rw [hvalid.onChain]
  have horder : InsertFirst tr → InsertFirst (.readLockData j :: tr) := fun order =>
    order.cons fun _ => CallStep.noConfusion
  cases h with
  | unsent unsent holds none_inserted order =>
    exact .unsent (fun i => (unsent i).read) holds
      (not_inserted_cons none_inserted fun _ => CallStep.noConfusion) (horder order)
  | buffered i first unsent holds none_inserted order =>
    obtain rfl := other_of_ne at_start first (by simp)
    exact .buffered i ((calls.move_call_of_ne _ i.ne_counterparty).trans first) unsent.read holds
      (not_inserted_cons none_inserted fun _ => CallStep.noConfusion) (horder order)
  | waiting i first unsent holds inserted order =>
    obtain rfl := other_of_ne at_start first (by simp)
    exact .waiting i ((calls.move_call_of_ne _ i.ne_counterparty).trans first) unsent.read holds
      (List.mem_cons_of_mem _ inserted) (horder order)
  | early i first second | ready i first second =>
    exact (absurd_call at_start first second (by simp) (by simp)).elim
  | completing i first second =>
    obtain rfl := other_of_ne at_start first (by simp)
    rw [at_start] at second
    cases second
  | missed i first second =>
    rcases first with first | first
    all_goals exact (absurd_call at_start first second (by simp) (by simp)).elim

theorem Phase.submit {lock : SwapLockData}
    (at_read : calls.call j = .read lock) : Phase coordinator terms submissions lockData (.submit j :: tr)
      { calls.move j (.submitted lock (calls.buffers.submit (submissions j)).1) with
        buffers := (calls.buffers.submit (submissions j)).2 } := by
  have hlock : Unsent lockData calls j → lock = lockData j := by
    intro hunsent
    rcases hunsent with hstart | hread
    · cases at_read.symm.trans hstart
    · cases at_read.symm.trans hread
      rfl
  have horder : InsertFirst tr → InsertFirst (.submit j :: tr) := fun order =>
    order.cons fun _ => CallStep.noConfusion
  cases h with
  | unsent unsent holds none_inserted order =>
    obtain rfl := hlock (unsent j)
    rw [← hvalid.matching.swapId j] at holds
    obtain ⟨hnone, holds⟩ := holds.submit_first
    rw [hvalid.matching.swapId j] at holds
    rw [hnone]
    exact .buffered j (calls.move_call_same j _) ((unsent _).of_ne j.counterparty_ne) holds
      (not_inserted_cons none_inserted fun _ => CallStep.noConfusion) (horder order)
  | buffered i first unsent holds none_inserted order =>
    obtain rfl := other_of_ne at_read first (by simp)
    obtain rfl := hlock unsent
    rw [← hvalid.matching.swapId i.counterparty] at holds
    obtain ⟨hfound, holds⟩ := holds.submit_second
    rw [hvalid.matching.swapId] at holds
    rw [hfound]
    exact .early i ((calls.move_call_of_ne _ i.ne_counterparty).trans first)
      (calls.move_call_same i.counterparty _) holds
      (not_inserted_cons none_inserted fun _ => CallStep.noConfusion) (horder order)
  | waiting i first unsent holds inserted order =>
    obtain rfl := other_of_ne at_read first (by simp)
    obtain rfl := hlock unsent
    rw [← hvalid.matching.swapId i.counterparty] at holds
    obtain ⟨hfound, holds⟩ := holds.submit_second
    rw [hvalid.matching.swapId] at holds
    rw [hfound]
    exact .ready i ((calls.move_call_of_ne _ i.ne_counterparty).trans first)
      (calls.move_call_same i.counterparty _) holds (List.mem_cons_of_mem _ inserted) (horder order)
  | early i first second | ready i first second =>
    exact (absurd_call at_read first second (by simp) (by simp)).elim
  | completing i first second =>
    obtain rfl := other_of_ne at_read first (by simp)
    rw [at_read] at second
    cases second
  | missed i first second =>
    rcases first with first | first
    all_goals exact (absurd_call at_read first second (by simp) (by simp)).elim

theorem Phase.insert {lock : SwapLockData}
    (at_first : calls.call j = .first lock) : Phase coordinator terms submissions lockData (.insert j :: tr)
      { calls.move j (.returned (.ok .pending)) with
        buffers := calls.buffers.insertLockData (submissions j).swapId lock } := by
  rw [hvalid.matching.swapId]
  have horder : InsertFirst tr → InsertFirst (.insert j :: tr) := fun order =>
    order.cons fun _ => CallStep.noConfusion
  cases h with
  | unsent unsent =>
    rcases unsent j with hcall | hcall
    all_goals cases at_first.symm.trans hcall
  | buffered i first unsent holds none_inserted order =>
    rcases i.eq_or_counterparty j with rfl | rfl
    · cases at_first.symm.trans first
      exact .waiting j (calls.move_call_same j _) (unsent.of_ne j.counterparty_ne) (holds.insert _)
        List.mem_cons_self (horder order)
    · rcases unsent with hcall | hcall
      all_goals cases at_first.symm.trans hcall
  | early i first second holds none_inserted order =>
    rcases i.eq_or_counterparty j with rfl | rfl
    · cases at_first.symm.trans first
      exact .ready j (calls.move_call_same j _)
        ((calls.move_call_of_ne _ j.counterparty_ne).trans second) (holds.insert _) List.mem_cons_self
        (horder order)
    · cases at_first.symm.trans second
  | waiting i first unsent =>
    obtain rfl := other_of_ne at_first first (by simp)
    rcases unsent with hcall | hcall
    all_goals cases at_first.symm.trans hcall
  | ready i first second =>
    exact (absurd_call at_first first second (by simp) (by simp)).elim
  | completing i first second =>
    obtain rfl := other_of_ne at_first first (by simp)
    rw [at_first] at second
    cases second
  | missed i first second order =>
    rcases i.eq_or_counterparty j with rfl | rfl
    · exact .missed j (.inr (calls.move_call_same j _))
        ((calls.move_call_of_ne _ j.counterparty_ne).trans second) fun h => order h.2
    · cases at_first.symm.trans second

/-- The lock data are there, or the call fails. -/
theorem Phase.remove {lock : SwapLockData}
    {found : PartySubmission}
    (at_second : calls.call j = .second lock found) :
    Phase coordinator terms submissions lockData (.remove j :: tr)
      { calls.move j (.andThen (.matched lock found)
          (okOr (calls.buffers.removeLockData (submissions j).swapId).1 .missingLockData)) with
        buffers := (calls.buffers.removeLockData (submissions j).swapId).2 } := by
  rw [hvalid.matching.swapId]
  cases h with
  | unsent unsent =>
    rcases unsent j with hcall | hcall
    all_goals cases at_second.symm.trans hcall
  | buffered i first unsent | waiting i first unsent =>
    obtain rfl := other_of_ne at_second first (by simp)
    rcases unsent with hcall | hcall
    all_goals cases at_second.symm.trans hcall
  | early i first second holds none_inserted order =>
    obtain rfl := other_of_ne at_second first (by simp)
    rw [holds.remove.1]
    refine .missed i (.inl ((calls.move_call_of_ne _ i.ne_counterparty).trans first))
      (calls.move_call_same i.counterparty _) fun h => ?_
    exact none_inserted _ (h.1 i.counterparty rfl)
  | ready i first second holds inserted order =>
    obtain rfl := other_of_ne at_second first (by simp)
    cases at_second.symm.trans second
    rw [holds.remove.1]
    refine .completing i ((calls.move_call_of_ne _ i.ne_counterparty).trans first) ?_ holds.remove.2
      ⟨fun k heq => ?_, order⟩
    · exact (calls.move_call_same i.counterparty _).symm ▸ .matched
    · cases heq
      rw [PartyRole.counterparty_counterparty]
      exact inserted
  | completing i first second =>
    obtain rfl := other_of_ne at_second first (by simp)
    rw [at_second] at second
    cases second
  | missed i first second =>
    rcases first with first | first
    all_goals exact (absurd_call at_second first second (by simp) (by simp)).elim

theorem Phase.verify {lock firstLock : SwapLockData}
    {found : PartySubmission} {now : UInt64} (htime : coordinator.checkTimeout (lockData j) now = .ok ())
    (at_matched : calls.call j = .matched lock found firstLock) :
    Phase coordinator terms submissions lockData (.verify j now :: tr) (calls.move j (.andThen .verified
        (coordinator.verify now found (submissions j) firstLock lock))) := by
  obtain ⟨i, rfl, first, second, holds, order⟩ := h.completing_of_ne at_matched (by simp) (by simp)
    (by simp) (by simp) (by simp)
  cases second
  obtain ⟨ann, hverify, hann⟩ := hvalid.matching.verifySwap (C := C) (S := StoreError) i
  have hok : coordinator.verify now (submissions i) (submissions i.counterparty) (lockData i)
      (lockData i.counterparty) = .ok ann := bind_eq_ok.mpr ⟨(), htime, hverify⟩
  rw [hok]
  exact .completing i ((calls.move_call_of_ne _ i.ne_counterparty).trans first)
    ((calls.move_call_same i.counterparty _).symm ▸ .verified hann) holds
    (order.cons fun _ => CallStep.noConfusion)

theorem Phase.announce {ann : SwapAnnouncement}
    (at_verified : calls.call j = .verified ann) :
    Phase coordinator terms submissions lockData (.announce j :: tr)
      (calls.move j (.returned (coordinator.announce ann))) := by
  obtain ⟨i, rfl, first, second, holds, order⟩ := h.completing_of_ne at_verified (by simp) (by simp)
    (by simp) (by simp) (by simp)
  cases second with
  | verified hann =>
    obtain ⟨receipt, hok⟩ := hvalid.announced _ hann
    rw [hok]
    exact .completing i ((calls.move_call_of_ne _ i.ne_counterparty).trans first)
      ((calls.move_call_same i.counterparty _).symm ▸ .returned hann) holds
      (order.cons fun _ => CallStep.noConfusion)

theorem Phase.step (htime : InTime coordinator lockData [st])
    (hstep : Interleave coordinator submissions calls st calls') :
    Phase coordinator terms submissions lockData (st :: tr) calls' := by
  cases hstep with
  | readLockData at_start => exact h.readLockData hvalid at_start
  | submit at_read => exact h.submit hvalid at_read
  | insert at_first => exact h.insert hvalid at_first
  | remove at_second => exact h.remove hvalid at_second
  | verify at_matched => exact h.verify hvalid (htime _ _ List.mem_cons_self) at_matched
  | announce at_verified => exact h.announce hvalid at_verified

end

theorem Run.phase (hbegun : Begun terms calls) (hrun : Run (Interleave coordinator submissions) calls tr calls')
    (htime : InTime coordinator lockData tr) : Phase coordinator terms submissions lockData tr calls' := by
  induction hrun with
  | nil => exact hbegun.phase
  | cons hrun hstep ih =>
    refine (ih fun i now hmem => htime i now (List.mem_cons_of_mem _ hmem)).step hvalid ?_ hstep
    intro i now hmem
    exact htime i now (List.mem_singleton.mp hmem ▸ List.mem_cons_self)

end

/-- The steps that a call has left, at most. -/
def Call.remaining : Call C R → Nat
  | .start => 5
  | .read _ => 4
  | .first _ | .second _ _ => 3
  | .matched _ _ _ => 2
  | .verified _ => 1
  | .returned _ => 0

omit [BnField F] in
theorem Call.remaining_andThen {α : Type} {next : α → Call C R} {n : Nat} (h : ∀ a, (next a).remaining ≤ n)
    (r : Except (CoordinatorError C StoreError) α) : (Call.andThen next r).remaining ≤ n := by
  cases r with
  | ok a => exact h a
  | error e => exact Nat.zero_le n

/-- A call that has not returned can go on, whatever the other one does. -/
theorem exists_step (coordinator : SwapCoordinator F C R) (submissions : PartyRole → PartySubmission)
    (calls : Calls C R) (i : PartyRole) (now : UInt64) (h : 0 < (calls.call i).remaining) :
    ∃ st calls', Interleave coordinator submissions calls st calls' ∧ (∀ j t, st = .verify j t → t = now) ∧
      (calls'.call i).remaining < (calls.call i).remaining ∧
      calls'.call i.counterparty = calls.call i.counterparty := by
  have hother : ∀ c : Call C R, (calls.move i c).call i.counterparty = calls.call i.counterparty := fun c =>
    calls.move_call_of_ne c i.counterparty_ne
  have hown : ∀ {c : Call C R} {n : Nat}, c.remaining ≤ n → ((calls.move i c).call i).remaining < n + 1 :=
    fun hc => (calls.move_call_same i _).symm ▸ Nat.lt_succ_of_le hc
  cases hcall : calls.call i with
  | start =>
    exact ⟨_, _, .readLockData hcall, fun _ _ => CallStep.noConfusion,
      hown (@Call.remaining_andThen _ _ _ .read 4 (fun _ => Nat.le_refl _) _), hother _⟩
  | read lock =>
    refine ⟨_, _, .submit hcall, fun _ _ => CallStep.noConfusion, hown ?_, hother _⟩
    cases (calls.buffers.submit (submissions i)).1 with
    | none => exact Nat.le_refl _
    | some found => exact Nat.le_refl _
  | first lock =>
    exact ⟨_, _, .insert hcall, fun _ _ => CallStep.noConfusion, hown (Nat.zero_le _), hother _⟩
  | second lock found =>
    exact ⟨_, _, .remove hcall, fun _ _ => CallStep.noConfusion,
      hown (@Call.remaining_andThen _ _ _ (.matched lock found) 2 (fun _ => Nat.le_refl _) _), hother _⟩
  | matched lock found firstLock =>
    exact ⟨_, _, @Interleave.verify _ _ _ _ _ _ _ _ _ _ _ now hcall,
      fun _ _ heq => (CallStep.verify.inj heq).2.symm,
      hown (@Call.remaining_andThen _ _ _ .verified 1 (fun _ => Nat.le_refl _) _), hother _⟩
  | verified ann =>
    exact ⟨_, _, .announce hcall, fun _ _ => CallStep.noConfusion, hown (Nat.le_refl _), hother _⟩
  | returned result =>
    rw [hcall] at h
    exact absurd h (lt_irrefl 0)

/-- From everywhere the calls can go on until both have returned. By induction on the steps left. -/
theorem exists_returned (coordinator : SwapCoordinator F C R) (submissions : PartyRole → PartySubmission)
    (calls : Calls C R) (now : UInt64) : ∃ tr calls', Run (Interleave coordinator submissions) calls tr calls' ∧
      (∀ i t, .verify i t ∈ tr → t = now) ∧ ∀ i, ∃ result, calls'.call i = .returned result := by
  generalize hn : (calls.call .a).remaining + (calls.call .b).remaining = n
  induction n using Nat.strong_induction_on generalizing calls with
  | _ n ih =>
    by_cases hopen : ∃ i, 0 < (calls.call i).remaining
    · obtain ⟨i, hi⟩ := hopen
      obtain ⟨st, calls₁, hstep, hnow, hlt, hother⟩ := exists_step coordinator submissions calls i now hi
      have hfewer : (calls₁.call .a).remaining + (calls₁.call .b).remaining < n := by
        rw [← hn]
        cases i with
        | a => exact hother ▸ Nat.add_lt_add_right hlt _
        | b => exact hother ▸ Nat.add_lt_add_left hlt _
      obtain ⟨tr, calls', hrun, htr, hreturned⟩ := ih _ hfewer calls₁ rfl
      refine ⟨tr ++ [st], calls', (Run.nil.cons hstep).append hrun, fun j t hmem => ?_, hreturned⟩
      rcases List.mem_append.mp hmem with hmem | hmem
      · exact htr j t hmem
      · exact hnow j t (List.mem_singleton.mp hmem).symm
    · refine ⟨[], calls, .nil, fun _ _ hmem => absurd hmem List.not_mem_nil, fun i => ?_⟩
      have hi := Nat.eq_zero_of_not_pos fun hi => hopen ⟨i, hi⟩
      cases hcall : calls.call i with
      | returned result => exact ⟨result, rfl⟩
      | start | read | first | second | matched | verified =>
        rw [hcall] at hi
        cases hi

/-- Every run can go on until both calls have returned, and they both succeed just where the lock data were in
time. -/
theorem settled_iff_insertFirst (hvalid : Valid coordinator terms submissions lockData)
    (hbegun : Begun terms calls) (hrun : Run (Interleave coordinator submissions) calls tr calls')
    (htime : InTime coordinator lockData tr) :
    (∀ now, ∃ more calls'', Run (Interleave coordinator submissions) calls' more calls'' ∧
      (∀ i t, .verify i t ∈ more → t = now) ∧ ∀ i, ∃ result, calls''.call i = .returned result) ∧
    ((∀ i, ∃ result, calls'.call i = .returned result) →
      (Settled coordinator terms submissions calls' ↔ InsertFirst tr)) := by
  refine ⟨exists_returned coordinator submissions calls', fun hreturned => ?_⟩
  have hphase := Run.phase hvalid hbegun hrun htime
  cases hphase with
  | unsent unsent =>
    obtain ⟨result, hcall⟩ := hreturned .a
    rcases unsent .a with hcall' | hcall'
    all_goals cases hcall.symm.trans hcall'
  | buffered i first | early i first =>
    obtain ⟨result, hcall⟩ := hreturned i
    cases hcall.symm.trans first
  | waiting i first unsent =>
    obtain ⟨result, hcall⟩ := hreturned i.counterparty
    rcases unsent with hcall' | hcall'
    all_goals cases hcall.symm.trans hcall'
  | ready i first second =>
    obtain ⟨result, hcall⟩ := hreturned i.counterparty
    cases hcall.symm.trans second
  | completing i first second holds order =>
    refine ⟨fun _ => order, fun _ => ⟨?_, holds⟩⟩
    obtain ⟨result, hcall⟩ := hreturned i.counterparty
    rw [hcall] at second
    cases second with
    | returned hann => exact ⟨i, _, _, hann, first, hcall⟩
  | missed i first second order =>
    refine ⟨fun h => ?_, fun h => absurd h order⟩
    obtain ⟨k, ann, receipt, -, hpending, hverified⟩ := h.results
    rcases i.eq_or_counterparty k with rfl | rfl
    · cases second.symm.trans hverified
    · cases second.symm.trans hpending

/-! ## Both orders occur -/

structure Stands (swapId : Word) (i : PartyRole) (calls : Calls C R) (own other : Call C R)
    (submission : Option PartySubmission) (lock : Option SwapLockData) : Prop where
  own : calls.call i = own
  other : calls.call i.counterparty = other
  holds : Holds calls.buffers swapId submission lock

section
variable {own other : Call C R} {found : Option PartySubmission} {pending : Option SwapLockData}
  {lock : SwapLockData} {first : PartySubmission} {now : UInt64} {ann : SwapAnnouncement}

omit [BnField F] in
theorem Stands.symm (h : Stands terms.swapId i calls own other found pending) :
    Stands terms.swapId i.counterparty calls other own found pending :=
  ⟨h.other, (congrArg calls.call i.counterparty_counterparty).trans h.own, h.holds⟩

omit [BnField F] in
theorem Calls.stands_move {buffers : Buffers} (h : calls.call i.counterparty = other)
    (holds : Holds buffers terms.swapId found pending) :
    Stands terms.swapId i { calls.move i c with buffers } c other found pending :=
  ⟨calls.move_call_same i c, (calls.move_call_of_ne c i.counterparty_ne).trans h, holds⟩

variable (hvalid : Valid coordinator terms submissions lockData)
include hvalid

theorem Stands.readLockData (h : Stands terms.swapId i calls .start other found pending) :
    ∃ calls', Interleave coordinator submissions calls (.readLockData i) calls' ∧
      Stands terms.swapId i calls' (.read (lockData i)) other found pending := by
  refine ⟨_, .readLockData h.own, ?_⟩
  rw [hvalid.onChain]
  exact stands_move h.other h.holds

theorem Stands.submit_first (h : Stands terms.swapId i calls (.read lock) other none pending) :
    ∃ calls', Interleave coordinator submissions calls (.submit i) calls' ∧
      Stands terms.swapId i calls' (.first lock) other (some (submissions i)) pending := by
  refine ⟨_, .submit h.own, ?_⟩
  have holds := h.holds
  rw [← hvalid.matching.swapId i] at holds
  obtain ⟨hnone, holds⟩ := holds.submit_first
  rw [hvalid.matching.swapId i] at holds
  rw [hnone]
  exact stands_move h.other holds

theorem Stands.submit_second (h : Stands terms.swapId i calls (.read lock) other (some first) pending) :
    ∃ calls', Interleave coordinator submissions calls (.submit i) calls' ∧
      Stands terms.swapId i calls' (.second lock first) other none pending := by
  refine ⟨_, .submit h.own, ?_⟩
  have holds := h.holds
  rw [← hvalid.matching.swapId i] at holds
  obtain ⟨hfound, holds⟩ := holds.submit_second
  rw [hvalid.matching.swapId i] at holds
  rw [hfound]
  exact stands_move h.other holds

theorem Stands.insert (h : Stands terms.swapId i calls (.first lock) other found pending) :
    ∃ calls', Interleave coordinator submissions calls (.insert i) calls' ∧
      Stands terms.swapId i calls' (.returned (.ok .pending)) other found (some lock) := by
  refine ⟨_, .insert h.own, ?_⟩
  rw [hvalid.matching.swapId]
  exact stands_move h.other (h.holds.insert lock)

theorem Stands.remove (h : Stands terms.swapId i calls (.second lock first) other found pending) :
    ∃ calls', Interleave coordinator submissions calls (.remove i) calls' ∧
      Stands terms.swapId i calls' (.andThen (.matched lock first) (okOr pending .missingLockData))
        other found none := by
  refine ⟨_, .remove h.own, ?_⟩
  rw [hvalid.matching.swapId, h.holds.remove.1]
  exact stands_move h.other h.holds.remove.2

theorem Stands.verify (h : Stands terms.swapId i calls
      (.matched (lockData i) (submissions i.counterparty) (lockData i.counterparty)) other found pending)
    (htime : coordinator.checkTimeout (lockData i) now = .ok ()) :
    ∃ ann calls', Interleave coordinator submissions calls (.verify i now) calls' ∧
      Announces coordinator.hash terms submissions ann ∧
      Stands terms.swapId i calls' (.verified ann) other found pending := by
  obtain ⟨ann, hverify, hann⟩ := hvalid.matching.verifySwap (C := C) (S := StoreError) i.counterparty
  rw [PartyRole.counterparty_counterparty] at hverify
  have hok : coordinator.verify now (submissions i.counterparty) (submissions i)
      (lockData i.counterparty) (lockData i) = .ok ann := bind_eq_ok.mpr ⟨(), htime, hverify⟩
  refine ⟨ann, _, .verify h.own, hann, ?_⟩
  rw [hok]
  exact stands_move h.other h.holds

theorem Stands.announce (h : Stands terms.swapId i calls (.verified ann) other found pending)
    (hann : Announces coordinator.hash terms submissions ann) :
    ∃ receipt calls', Interleave coordinator submissions calls (.announce i) calls' ∧
      Stands terms.swapId i calls' (.returned (.ok (.verified ann receipt))) other found pending := by
  obtain ⟨receipt, hok⟩ := hvalid.announced ann hann
  refine ⟨receipt, _, .announce h.own, ?_⟩
  rw [hok]
  exact stands_move h.other h.holds

/-- The second caller comes between the two writes of the first. -/
theorem exists_late_run (hbegun : Begun terms calls) :
    ∃ calls', Run (Interleave coordinator submissions) calls [.insert .a, .remove .b, .submit .b,
        .submit .a, .readLockData .b, .readLockData .a] calls' ∧
      Stands terms.swapId .a calls' (.returned (.ok .pending)) (.returned (.error .missingLockData))
        none (some (lockData .a)) := by
  have h₀ : Stands terms.swapId .a calls .start .start none none :=
    ⟨hbegun.start _, hbegun.start _, hbegun.holds⟩
  obtain ⟨calls₁, hstep₁, h₁⟩ := h₀.readLockData hvalid
  obtain ⟨calls₂, hstep₂, h₂⟩ := h₁.symm.readLockData hvalid
  obtain ⟨calls₃, hstep₃, h₃⟩ := h₂.symm.submit_first hvalid
  obtain ⟨calls₄, hstep₄, h₄⟩ := h₃.symm.submit_second hvalid
  obtain ⟨calls₅, hstep₅, h₅⟩ := h₄.remove hvalid
  obtain ⟨calls₆, hstep₆, h₆⟩ := h₅.symm.insert hvalid
  exact ⟨calls₆, .cons (.cons (.cons (.cons (.cons (.cons .nil hstep₁) hstep₂) hstep₃) hstep₄) hstep₅)
    hstep₆, h₆⟩

/-- The first caller is done before the second takes its lock data. -/
theorem exists_orderly_run
    (hbegun : Begun terms calls) (now : UInt64) (htime : coordinator.checkTimeout (lockData .b) now = .ok ()) :
    ∃ calls', Run (Interleave coordinator submissions) calls [.announce .b, .verify .b now, .remove .b,
        .insert .a, .submit .b, .submit .a, .readLockData .b, .readLockData .a] calls' ∧
      ∀ i, ∃ result, calls'.call i = .returned result := by
  have h₀ : Stands terms.swapId .a calls .start .start none none :=
    ⟨hbegun.start _, hbegun.start _, hbegun.holds⟩
  obtain ⟨calls₁, hstep₁, h₁⟩ := h₀.readLockData hvalid
  obtain ⟨calls₂, hstep₂, h₂⟩ := h₁.symm.readLockData hvalid
  obtain ⟨calls₃, hstep₃, h₃⟩ := h₂.symm.submit_first hvalid
  obtain ⟨calls₄, hstep₄, h₄⟩ := h₃.symm.submit_second hvalid
  obtain ⟨calls₅, hstep₅, h₅⟩ := h₄.symm.insert hvalid
  obtain ⟨calls₆, hstep₆, h₆⟩ := h₅.symm.remove hvalid
  obtain ⟨ann, calls₇, hstep₇, hann, h₇⟩ := Stands.verify (i := .b) hvalid h₆ htime
  obtain ⟨receipt, calls₈, hstep₈, h₈⟩ := h₇.announce hvalid hann
  refine ⟨calls₈, .cons (.cons (.cons (.cons (.cons (.cons (.cons (.cons .nil hstep₁) hstep₂) hstep₃)
    hstep₄) hstep₅) hstep₆) hstep₇) hstep₈, fun i => ?_⟩
  cases i with
  | a => exact ⟨_, h₈.other⟩
  | b => exact ⟨_, h₈.own⟩

end

end

/-! ## The swap of the sample -/

namespace Seven

def submissions : PartyRole → PartySubmission :=
  byRole lockA.submission (lockB keyA.pk).submission

def lockData : PartyRole → SwapLockData := byRole lockA.witness.lockData (lockB keyA.pk).witness.lockData

def port (lock : SwapLockData) : ChainPort Unit Unit where
  getSwapLockData commitment := if commitment = lock.commitment then .ok lock else .error ()
  announceSwap _ := .ok ()

theorem port_self {lock : SwapLockData} {commitment : Word} (h : commitment = lock.commitment) :
    (port lock).getSwapLockData commitment = .ok lock := if_pos h

def coordinator : SwapCoordinator Unbounded Unit Unit where
  hash := shiftHash
  chains chainId := if chainId = 1 then some (port (lockData .a))
    else if chainId = 2 then some (port (lockData .b)) else none
  announcementChainId := 1
  minTimeoutSecs := 0

theorem valid : Valid coordinator terms submissions lockData where
  matching := matching rfl
  onChain i := by
    refine bind_eq_ok.mpr ⟨port (lockData i), okOr_eq_ok.mpr ?_, mapErr_eq_ok.mpr (port_self ?_)⟩
    · cases i <;> rfl
    · cases i <;> rfl
  announced ann _ := ⟨(), rfl⟩

theorem inTime (tr : List CallStep) : InTime coordinator lockData tr := fun _ _ _ => rfl

def begin : Calls Unit Unit := ⟨fun _ => .start, fun _ => none, fun _ => none⟩

theorem begun : Begun terms begin := ⟨fun _ => rfl, rfl, rfl⟩

end Seven

open Seven

/-- A run in which the insert comes first. -/
theorem settled_iff_insertFirst_sample : ∃ tr calls', Run (Interleave coordinator submissions)
      begin tr calls' ∧ InsertFirst tr ∧
    (Settled coordinator terms submissions calls' ↔ InsertFirst tr) := by
  obtain ⟨calls', hrun, hreturned⟩ := exists_orderly_run valid begun 0 rfl
  refine ⟨_, calls', hrun, ?_, (settled_iff_insertFirst valid begun hrun (inTime _)).2 hreturned⟩
  simp [InsertFirst, PartyRole.counterparty]

/-- B finds the submission of A before its lock data. B's call fails, and the lock data of A stay. -/
theorem submission_lost : ∃ calls', Valid coordinator terms submissions lockData ∧ Begun terms begin ∧
    Run (Interleave coordinator submissions) begin [.insert .a, .remove .b, .submit .b,
      .submit .a, .readLockData .b, .readLockData .a] calls' ∧ calls'.call .a = .returned (.ok .pending) ∧
    calls'.call .b = .returned (.error .missingLockData) ∧ calls'.buffers.pending terms.swapId = none ∧
    calls'.buffers.pendingLockData terms.swapId = some (lockData .a) ∧
    ¬ Settled coordinator terms submissions calls' := by
  obtain ⟨calls', hrun, hstands⟩ := exists_late_run valid begun
  refine ⟨calls', valid, begun, hrun, hstands.own, hstands.other, hstands.holds.pending,
    hstands.holds.pendingLockData, fun h => ?_⟩
  cases h.holds.pendingLockData.symm.trans hstands.holds.pendingLockData

end Pocs.Swap
