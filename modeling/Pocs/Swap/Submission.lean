import Pocs.Lib.Method
import Pocs.Swap.Party

/-! # Handling submissions

`handle_submission` of `coordinator.rs` over `InMemorySwapStore`. Two mutexes guard the pending
submission and its lock data, so that a call is not atomic: `Interleave` takes the steps of the calls
of two parties in any order, each step holding at most one of the locks. -/

namespace Pocs.Swap

open Compliance (BnField Word)

/-- `ChainPort`, the calls of the coordinator. -/
structure ChainPort (ChainError Receipt : Type) where
  getSwapLockData : Word → Except ChainError SwapLockData
  announceSwap : SwapAnnouncement → Except ChainError Receipt

inductive StoreError where
  | duplicateSubmission
  | swapNotFound (swapId : Word)
  | internal (msg : String)

/-! ## The coordinator -/

structure SwapCoordinator (F ChainError Receipt : Type) where
  hash : List F → F
  chains : Word → Option (ChainPort ChainError Receipt)
  announcementChainId : Word
  minTimeoutSecs : UInt64

inductive SubmissionResult (Receipt : Type) where
  | pending
  | verified (announcement : SwapAnnouncement) (txReceipt : Receipt)

/-- The map of the store and `pending_lock_data`. -/
structure Buffers where
  pending : Word → Option PartySubmission
  pendingLockData : Word → Option SwapLockData

namespace Buffers
variable (buffers : Buffers)

def submit (submission : PartySubmission) : Option PartySubmission × Buffers :=
  match buffers.pending submission.swapId with
  | none => (none, { buffers with
      pending := Function.update buffers.pending submission.swapId (some submission) })
  | some first => (some first, { buffers with
      pending := Function.update buffers.pending submission.swapId none })

def insertLockData (swapId : Word) (lockData : SwapLockData) : Buffers :=
  { buffers with pendingLockData := Function.update buffers.pendingLockData swapId (some lockData) }

def removeLockData (swapId : Word) : Option SwapLockData × Buffers :=
  (buffers.pendingLockData swapId, { buffers with
    pendingLockData := Function.update buffers.pendingLockData swapId none })

end Buffers

namespace SwapCoordinator
variable {F C R : Type} [BnField F] (coordinator : SwapCoordinator F C R)

def readLockData (submission : PartySubmission) : Except (CoordinatorError C StoreError) SwapLockData := do
  let chain ← okOr (coordinator.chains submission.noteDetails.chainId)
    (.unknownChain submission.noteDetails.chainId)
  mapErr .chain (chain.getSwapLockData (commitmentHash coordinator.hash submission.noteDetails))

def checkTimeout (lockData : SwapLockData) (now : UInt64) : Except (CoordinatorError C StoreError) Unit :=
  let remaining := UInt64.ofNat (lockData.timeout % 2 ^ 64 - now.toNat)
  onlyIf (coordinator.minTimeoutSecs > 0)
    (failIf (remaining < coordinator.minTimeoutSecs) (.timeoutTooShort coordinator.minTimeoutSecs remaining))

def verify (now : UInt64) (first submission : PartySubmission) (firstLockData lockData : SwapLockData) :
    Except (CoordinatorError C StoreError) SwapAnnouncement := do
  coordinator.checkTimeout lockData now
  verifySwap coordinator.hash first submission firstLockData lockData

def announce (announcement : SwapAnnouncement) :
    Except (CoordinatorError C StoreError) (SubmissionResult R) := do
  let chain ← okOr (coordinator.chains coordinator.announcementChainId)
    (.unknownChain coordinator.announcementChainId)
  let txReceipt ← mapErr .chain (chain.announceSwap announcement)
  pure (.verified announcement txReceipt)

/-- `handle_submission`, by one caller. -/
def handleSubmission (now : UInt64) (submission : PartySubmission) (buffers : Buffers) :
    Except (CoordinatorError C StoreError) (SubmissionResult R) × Buffers :=
  match coordinator.readLockData submission with
  | .error e => (.error e, buffers)
  | .ok lockData =>
    match buffers.submit submission with
    | (none, buffers) => (.ok .pending, buffers.insertLockData submission.swapId lockData)
    | (some first, buffers) =>
      match buffers.removeLockData submission.swapId with
      | (none, buffers) => (.error .missingLockData, buffers)
      | (some firstLockData, buffers) =>
        match coordinator.verify now first submission firstLockData lockData with
        | .error e => (.error e, buffers)
        | .ok announcement => (coordinator.announce announcement, buffers)

end SwapCoordinator

/-! ## Two concurrent calls -/

/-- How far a call of `handle_submission` has come. -/
inductive Call (C R : Type) where
  | start
  | read (lockData : SwapLockData)
  | first (lockData : SwapLockData)
  | second (lockData : SwapLockData) (first : PartySubmission)
  | matched (lockData : SwapLockData) (first : PartySubmission) (firstLockData : SwapLockData)
  | verified (announcement : SwapAnnouncement)
  | returned (result : Except (CoordinatorError C StoreError) (SubmissionResult R))

namespace Call
variable {C R α : Type}

def andThen (next : α → Call C R) : Except (CoordinatorError C StoreError) α → Call C R
  | .ok a => next a
  | .error e => .returned (.error e)

def submitted (lockData : SwapLockData) : Option PartySubmission → Call C R
  | none => .first lockData
  | some found => .second lockData found

end Call

/-- The calls of the two parties, and what they share. -/
structure Calls (C R : Type) where
  call : PartyRole → Call C R
  buffers : Buffers

namespace Calls
variable {C R : Type} (calls : Calls C R)

def move (party : PartyRole) (call : Call C R) : Calls C R :=
  { calls with call := Function.update calls.call party call }

@[simp] theorem move_call_same (party : PartyRole) (call : Call C R) :
    (calls.move party call).call party = call := Function.update_self ..

@[simp] theorem move_call_of_ne {party party' : PartyRole} (call : Call C R) (h : party' ≠ party) :
    (calls.move party call).call party' = calls.call party' := Function.update_of_ne h ..

end Calls

/-- One step of the call of a party. -/
inductive CallStep where
  | readLockData (party : PartyRole)
  | submit (party : PartyRole)
  | insert (party : PartyRole)
  | remove (party : PartyRole)
  | verify (party : PartyRole) (now : UInt64)
  | announce (party : PartyRole)
  deriving DecidableEq

section
variable {F C R : Type} [BnField F] (coordinator : SwapCoordinator F C R)
  (submissions : PartyRole → PartySubmission) (calls : Calls C R)

/-- One step of one of the two calls. -/
inductive Interleave : CallStep → Calls C R → Prop where
  | readLockData {party} (at_start : calls.call party = .start) : Interleave (.readLockData party)
      (calls.move party (.andThen .read (coordinator.readLockData (submissions party))))
  | submit {party lockData} (at_read : calls.call party = .read lockData) : Interleave (.submit party)
      { calls.move party (.submitted lockData (calls.buffers.submit (submissions party)).1) with
        buffers := (calls.buffers.submit (submissions party)).2 }
  | insert {party lockData} (at_first : calls.call party = .first lockData) : Interleave (.insert party)
      { calls.move party (.returned (.ok .pending)) with
        buffers := calls.buffers.insertLockData (submissions party).swapId lockData }
  | remove {party lockData first} (at_second : calls.call party = .second lockData first) :
    Interleave (.remove party)
      { calls.move party (.andThen (.matched lockData first)
          (okOr (calls.buffers.removeLockData (submissions party).swapId).1 .missingLockData)) with
        buffers := (calls.buffers.removeLockData (submissions party).swapId).2 }
  | verify {party lockData first firstLockData now}
    (at_matched : calls.call party = .matched lockData first firstLockData) :
    Interleave (.verify party now) (calls.move party (.andThen .verified
        (coordinator.verify now first (submissions party) firstLockData lockData)))
  | announce {party announcement} (at_verified : calls.call party = .verified announcement) :
    Interleave (.announce party) (calls.move party (.returned (coordinator.announce announcement)))

end

end Pocs.Swap
