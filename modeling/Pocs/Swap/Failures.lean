import Pocs.Swap.Interleaving

/-! # Submissions that fail

A call that fails before it asks the store leaves the buffers as they are. Every later error comes after
the pending submission and its lock data have been taken, which the store does for any second submission
of a swap id. The swap id is then free for both parties to submit again. -/

namespace Pocs.Swap

open Compliance (BnField Word)

def Buffers.consume (buffers : Buffers) (swapId : Word) : Buffers where
  pending := Function.update buffers.pending swapId none
  pendingLockData := Function.update buffers.pendingLockData swapId none

@[simp] theorem Buffers.consume_pending (buffers : Buffers) (swapId : Word) :
    (buffers.consume swapId).pending swapId = none := by
  simp only [Buffers.consume, Function.update_self]

@[simp] theorem Buffers.consume_pendingLockData (buffers : Buffers) (swapId : Word) :
    (buffers.consume swapId).pendingLockData swapId = none := by
  simp only [Buffers.consume, Function.update_self]

section
variable {F C R : Type} [BnField F] {coordinator : SwapCoordinator F C R} {now : UInt64}
  {submission first : PartySubmission} {buffers : Buffers} {lockData firstLockData : SwapLockData}
  {e : CoordinatorError C StoreError}

/-! ## The ways of a call -/

theorem handleSubmission_unread (h : coordinator.readLockData submission = .error e) :
    coordinator.handleSubmission now submission buffers = (.error e, buffers) := by
  rw [SwapCoordinator.handleSubmission, h]

theorem handleSubmission_first (hlock : coordinator.readLockData submission = .ok lockData)
    (hfree : buffers.pending submission.swapId = none) :
    coordinator.handleSubmission now submission buffers = (.ok .pending,
      ⟨Function.update buffers.pending submission.swapId (some submission),
        Function.update buffers.pendingLockData submission.swapId (some lockData)⟩) := by
  simp only [SwapCoordinator.handleSubmission, hlock, Buffers.submit, hfree, Buffers.insertLockData]

/-- What a second call returns, from the entries of its swap. -/
def SwapCoordinator.settle (coordinator : SwapCoordinator F C R) (now : UInt64)
    (first submission : PartySubmission) (pendingLockData : Option SwapLockData) (lockData : SwapLockData) :
    Except (CoordinatorError C StoreError) (SubmissionResult R) := do
  let firstLockData ← okOr pendingLockData .missingLockData
  let announcement ← coordinator.verify now first submission firstLockData lockData
  coordinator.announce announcement

/-- A second call takes the entries of its swap, whatever becomes of it. -/
theorem handleSubmission_second (hlock : coordinator.readLockData submission = .ok lockData)
    (hpending : buffers.pending submission.swapId = some first) :
    coordinator.handleSubmission now submission buffers =
      (coordinator.settle now first submission (buffers.pendingLockData submission.swapId) lockData,
        buffers.consume submission.swapId) := by
  simp only [SwapCoordinator.handleSubmission, hlock, Buffers.submit, hpending, Buffers.removeLockData]
  cases buffers.pendingLockData submission.swapId with
  | none => rfl
  | some firstLockData =>
    have hsettle : coordinator.settle now first submission (some firstLockData) lockData =
        coordinator.verify now first submission firstLockData lockData >>= coordinator.announce := rfl
    rw [hsettle]
    dsimp only
    cases coordinator.verify now first submission firstLockData lockData with
    | error e => rfl
    | ok announcement => rfl

/-- The next two submissions of a free swap are settled with each other. -/
theorem handleSubmission_twice (hlock : coordinator.readLockData first = .ok firstLockData)
    (hlock' : coordinator.readLockData submission = .ok lockData)
    (hid : first.swapId = submission.swapId) (hfree : buffers.pending submission.swapId = none)
    (now' : UInt64) : (coordinator.handleSubmission now first buffers).1 = .ok .pending ∧
      (coordinator.handleSubmission now' submission (coordinator.handleSubmission now first buffers).2).1 =
          coordinator.settle now' first submission (some firstLockData) lockData := by
  rw [← hid] at hfree
  rw [handleSubmission_first hlock hfree]
  refine ⟨rfl, ?_⟩
  rw [hid, handleSubmission_second hlock' (Function.update_self ..)]
  exact congrArg (coordinator.settle now' first submission · lockData) (Function.update_self ..)

/-- A call that fails keeps the entries of its swap where it could not read the lock data of the note. It
has consumed them otherwise, and those of other swaps stay; two more submissions settle the swap. -/
theorem handleSubmission_failed (h : (coordinator.handleSubmission now submission buffers).1 = .error e) :
    (coordinator.readLockData submission = .error e ∧
      (coordinator.handleSubmission now submission buffers).2 = buffers) ∨
    (∃ lockData first, coordinator.readLockData submission = .ok lockData ∧
      buffers.pending submission.swapId = some first ∧
      coordinator.settle now first submission (buffers.pendingLockData submission.swapId) lockData = .error e ∧
      (coordinator.handleSubmission now submission buffers).2 = buffers.consume submission.swapId ∧
      ∀ first' second' firstLock secondLock now₁ now₂, first'.swapId = submission.swapId →
        second'.swapId = submission.swapId → coordinator.readLockData first' = .ok firstLock →
        coordinator.readLockData second' = .ok secondLock →
          (coordinator.handleSubmission now₁ first' (buffers.consume submission.swapId)).1 = .ok .pending ∧
            (coordinator.handleSubmission now₂ second' (coordinator.handleSubmission now₁ first'
              (buffers.consume submission.swapId)).2).1 =
                coordinator.settle now₂ first' second' (some firstLock) secondLock) := by
  cases hread : coordinator.readLockData submission with
  | error e' =>
    rw [handleSubmission_unread hread] at h ⊢
    cases h
    exact .inl ⟨rfl, rfl⟩
  | ok lockData =>
    cases hpending : buffers.pending submission.swapId with
    | none =>
      rw [handleSubmission_first hread hpending] at h
      cases h
    | some first =>
      rw [handleSubmission_second hread hpending] at h ⊢
      refine .inr ⟨lockData, first, rfl, rfl, h, rfl, ?_⟩
      intro first' second' firstLock secondLock now₁ now₂ hid hid' hlock hlock'
      exact handleSubmission_twice hlock hlock' (hid.trans hid'.symm) (hid' ▸ buffers.consume_pending _) now₂

theorem verifySwap_nonceMismatch {S : Type} {hash : List F → F} (hid : first.swapId = submission.swapId)
    (hnonce : first.nonce ≠ submission.nonce) :
    verifySwap (C := C) (S := S) hash first submission firstLockData lockData = .error .nonceMismatch := by
  simp only [verifySwap, failIf, hid, hnonce, ne_eq, not_true_eq_false, not_false_eq_true, if_true, if_false]
  rfl

end

/-! ## A submission in the name of a party -/

namespace Seven

def forged : PartySubmission := { submissions .b with nonce := 254 }

theorem forged_read : coordinator.readLockData forged = .ok (lockData .b) := valid.onChain .b

def waiting : Buffers := (coordinator.handleSubmission 0 (submissions .a) begin.buffers).2

theorem waiting_eq : waiting = ⟨Function.update begin.buffers.pending forged.swapId (some (submissions .a)),
    Function.update begin.buffers.pendingLockData forged.swapId (some (lockData .a))⟩ := by
  rw [waiting, handleSubmission_first (valid.onChain .a) rfl]
  rfl

theorem waiting_pending : waiting.pending forged.swapId = some (submissions .a) := by
  simp only [waiting_eq, Function.update_self]

theorem waiting_pendingLockData : waiting.pendingLockData forged.swapId = some (lockData .a) := by
  simp only [waiting_eq, Function.update_self]

theorem forged_rejected (now : UInt64) : coordinator.settle now (submissions .a) forged
    (waiting.pendingLockData forged.swapId) (lockData .b) = .error .nonceMismatch := by
  have hid : (submissions .a).swapId = forged.swapId := rfl
  have hnonce : (submissions .a).nonce ≠ forged.nonce := show (255 : Nat) ≠ 254 by decide
  rw [waiting_pendingLockData]
  show verifySwap shiftHash (submissions .a) forged (lockData .a) (lockData .b) >>= coordinator.announce = _
  rw [verifySwap_nonceMismatch hid hnonce]
  rfl

end Seven

open Seven

/-- A call that fails and what it consumes. -/
theorem handleSubmission_failed_sample : (coordinator.handleSubmission 0 forged waiting).2 =
      waiting.consume forged.swapId := by
  have hfailed : (coordinator.handleSubmission 0 forged waiting).1 = .error .nonceMismatch := by
    rw [handleSubmission_second forged_read waiting_pending]
    exact forged_rejected 0
  rcases handleSubmission_failed hfailed with ⟨hunread, -⟩ | ⟨_, _, -, -, -, hconsumed, -⟩
  · cases hunread.symm.trans forged_read
  · exact hconsumed

/-- After A's submission somebody submits with the id of the swap and another nonce. The call fails, A's
submission and its lock data are gone, and B's submission is buffered as a first one. -/
theorem pending_swap_destroyed :
    (coordinator.handleSubmission 0 (submissions .a) begin.buffers).1 = .ok .pending ∧
    waiting.pending forged.swapId = some (submissions .a) ∧
    waiting.pendingLockData forged.swapId = some (lockData .a) ∧
    (coordinator.handleSubmission 0 forged waiting).1 = .error .nonceMismatch ∧
    (coordinator.handleSubmission 0 forged waiting).2.pending forged.swapId = none ∧
    (coordinator.handleSubmission 0 forged waiting).2.pendingLockData forged.swapId =
      none ∧ (coordinator.handleSubmission 0 (submissions .b)
      (coordinator.handleSubmission 0 forged waiting).2).1 = .ok .pending := by
  rw [handleSubmission_second forged_read waiting_pending]
  have hfree : (waiting.consume forged.swapId).pending (submissions .b).swapId = none :=
    waiting.consume_pending forged.swapId
  refine ⟨?_, waiting_pending, waiting_pendingLockData, forged_rejected 0,
    Buffers.consume_pending _ _, Buffers.consume_pendingLockData _ _, ?_⟩
  · rw [handleSubmission_first (valid.onChain .a) rfl]
  · rw [handleSubmission_first (valid.onChain .b) hfree]

end Pocs.Swap
