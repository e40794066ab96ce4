import Pocs.Swap.Circuit

/-! # The coordinator's verification

The hashes of `crypto/poseidon.rs`, the messages of `domain/swap.rs` and `verify_swap` of
`coordinator.rs`. A `B256` is its integer: the hashes reduce it modulo the order of the field, the
comparisons do not. -/

namespace Pocs.Swap

open Compliance (BnField Word ofU64)

variable {F : Type} [BnField F]

/-! ## `domain/swap.rs` and `ports/mod.rs` -/

/-- What a party sends to the coordinator. -/
structure PartySubmission where
  swapId : Word
  nonce : Word
  ephemeralPubkey : Word
  encryptedSalt : Word
  noteDetails : Note Word

/-- The lock data read from a `SwapNoteLocked` event. -/
structure SwapLockData where
  commitment : Word
  timeout : Word
  pkStealth : Word
  hSwap : Word
  hR : Word
  hMeta : Word
  hEnc : Word

/-- What the coordinator publishes. -/
structure SwapAnnouncement where
  swapId : Word
  ephemeralKeyA : Word
  ephemeralKeyB : Word
  encryptedSaltA : Word
  encryptedSaltB : Word
  deriving DecidableEq

/-- What both parties agreed on. -/
structure SwapTerms where
  swapId : Word
  chainIdA : Word
  chainIdB : Word
  valueA : UInt64
  valueB : UInt64
  assetIdA : Word
  assetIdB : Word
  timeout : Word
  pkMetaA : Word
  pkMetaB : Word
  nonce : Word

/-! ## `crypto/poseidon.rs` -/

def domainSwapId : F :=
  Scalar.ofNat 0xbd03aa9914bdbecd974336e5cf1171b81a60634487683d9d813e195a9e6a9e

def Note.toField (note : Note Word) : Note F where
  chainId := Scalar.ofNat note.chainId
  value := note.value
  assetId := Scalar.ofNat note.assetId
  owner := Scalar.ofNat note.owner
  fallbackOwner := Scalar.ofNat note.fallbackOwner
  timeout := Scalar.ofNat note.timeout
  salt := Scalar.ofNat note.salt

section
variable (hash : List F → F)

def commitmentHash (note : Note Word) : Word :=
  Scalar.toNat (hash [domainCommitment, Scalar.ofNat note.chainId, ofU64 note.value,
    Scalar.ofNat note.assetId, Scalar.ofNat note.owner, Scalar.ofNat note.fallbackOwner,
    Scalar.ofNat note.timeout, Scalar.ofNat note.salt])

def bindSwap (swapId salt : Word) : Word :=
  Scalar.toNat (hash [domainBindSwap, Scalar.ofNat swapId, Scalar.ofNat salt])

def bindR (rX : Word) : Word := Scalar.toNat (hash [domainBindR, Scalar.ofNat rX])

def bindMeta (pkMetaX salt : Word) : Word :=
  Scalar.toNat (hash [domainBindMeta, Scalar.ofNat pkMetaX, Scalar.ofNat salt])

def bindEnc (encryptedSalt : Word) : Word :=
  Scalar.toNat (hash [domainBindEnc, Scalar.ofNat encryptedSalt])

def swapIdHash (valueA : UInt64) (assetIdA chainIdA : Word) (valueB : UInt64)
    (assetIdB chainIdB timeout pkMetaA pkMetaB nonce : Word) : Word :=
  Scalar.toNat (hash [domainSwapId, ofU64 valueA, Scalar.ofNat assetIdA, Scalar.ofNat chainIdA,
    ofU64 valueB, Scalar.ofNat assetIdB, Scalar.ofNat chainIdB, Scalar.ofNat timeout,
    Scalar.ofNat pkMetaA, Scalar.ofNat pkMetaB, Scalar.ofNat nonce])

def SwapTerms.new (chainIdA chainIdB : Word) (valueA valueB : UInt64)
    (assetIdA assetIdB timeout pkMetaA pkMetaB nonce : Word) : SwapTerms where
  swapId := swapIdHash hash valueA assetIdA chainIdA valueB assetIdB chainIdB timeout pkMetaA pkMetaB nonce
  chainIdA
  chainIdB
  valueA
  valueB
  assetIdA
  assetIdB
  timeout
  pkMetaA
  pkMetaB
  nonce

variable {hash}

theorem commitmentHash_eq (note : Note Word) :
    commitmentHash hash note = Scalar.toNat (computeCommitment hash note.toField) := rfl

end

/-! ## `coordinator.rs` -/

/-- The errors of the ports are theirs. -/
inductive CoordinatorError (ChainError StoreError : Type) where
  | swapIdMismatch
  | nonceMismatch
  | commitmentMismatch (party : String) (recomputed onChain : Word)
  | bindingMismatch (party binding : String)
  | swapIdRecomputationFailed
  | timeoutMismatch (timeoutA timeoutB : Word)
  | timeoutLockMismatch (note onChain : Word)
  | missingLockData
  | timeoutTooShort (minimumRemaining actualRemaining : UInt64)
  | unknownChain (chainId : Word)
  | chain (e : ChainError)
  | store (e : StoreError)

abbrev LockedSubmission := PartySubmission × SwapLockData

section
variable {C S : Type} (hash : List F → F)

def recomputes (timeout nonce expectedSwapId : Word) (subA subB : PartySubmission) : Bool :=
  swapIdHash hash subA.noteDetails.value subA.noteDetails.assetId subA.noteDetails.chainId
    subB.noteDetails.value subB.noteDetails.assetId subB.noteDetails.chainId timeout
    subA.noteDetails.fallbackOwner subB.noteDetails.fallbackOwner nonce = expectedSwapId

def determineRoles (sub1 sub2 : PartySubmission) (lock1 lock2 : SwapLockData)
    (timeout nonce expectedSwapId : Word) :
    Except (CoordinatorError C S) (LockedSubmission × LockedSubmission) :=
  if recomputes hash timeout nonce expectedSwapId sub1 sub2 then .ok ((sub1, lock1), (sub2, lock2))
  else if recomputes hash timeout nonce expectedSwapId sub2 sub1 then
    .ok ((sub2, lock2), (sub1, lock1))
  else .error .swapIdRecomputationFailed

def verifyCommitment (sub : PartySubmission) (lock : SwapLockData) (party : String) :
    Except (CoordinatorError C S) Unit :=
  let recomputed := commitmentHash hash sub.noteDetails
  failIf (recomputed ≠ lock.commitment) (.commitmentMismatch party recomputed lock.commitment)

def verifyBindings (sub : PartySubmission) (lock : SwapLockData) (swapId counterpartyPkMeta : Word)
    (party : String) : Except (CoordinatorError C S) Unit := do
  failIf (bindSwap hash swapId sub.noteDetails.salt ≠ lock.hSwap) (.bindingMismatch party "h_swap")
  failIf (bindR hash sub.ephemeralPubkey ≠ lock.hR) (.bindingMismatch party "h_r")
  failIf (bindMeta hash counterpartyPkMeta sub.noteDetails.salt ≠ lock.hMeta) (.bindingMismatch party "h_meta")
  failIf (bindEnc hash sub.encryptedSalt ≠ lock.hEnc) (.bindingMismatch party "h_enc")

/-- The checks of the coordinator on both submissions. -/
def verifySwap (sub1 sub2 : PartySubmission) (lock1 lock2 : SwapLockData) :
    Except (CoordinatorError C S) SwapAnnouncement := do
  failIf (sub1.swapId ≠ sub2.swapId) .swapIdMismatch
  failIf (sub1.nonce ≠ sub2.nonce) .nonceMismatch
  let swapId := sub1.swapId
  let ((subA, lockA), (subB, lockB)) ←
    determineRoles hash sub1 sub2 lock1 lock2 sub1.noteDetails.timeout sub1.nonce swapId
  verifyCommitment hash subA lockA "A"
  verifyCommitment hash subB lockB "B"
  let pkMetaA := subA.noteDetails.fallbackOwner
  let pkMetaB := subB.noteDetails.fallbackOwner
  verifyBindings hash subA lockA swapId pkMetaB "A"
  verifyBindings hash subB lockB swapId pkMetaA "B"
  failIf (subA.noteDetails.timeout ≠ subB.noteDetails.timeout)
    (.timeoutMismatch subA.noteDetails.timeout subB.noteDetails.timeout)
  failIf (lockA.timeout ≠ subA.noteDetails.timeout)
    (.timeoutLockMismatch subA.noteDetails.timeout lockA.timeout)
  failIf (lockB.timeout ≠ subB.noteDetails.timeout)
    (.timeoutLockMismatch subB.noteDetails.timeout lockB.timeout)
  pure
    { swapId
      ephemeralKeyA := subA.ephemeralPubkey
      ephemeralKeyB := subB.ephemeralPubkey
      encryptedSaltA := subA.encryptedSalt
      encryptedSaltB := subB.encryptedSalt }

/-! ## What the verification establishes -/

structure OpensLock (sub : PartySubmission) (lock : SwapLockData) (swapId counterpartyPkMeta : Word) :
    Prop where
  commitment : commitmentHash hash sub.noteDetails = lock.commitment
  hSwap : bindSwap hash swapId sub.noteDetails.salt = lock.hSwap
  hR : bindR hash sub.ephemeralPubkey = lock.hR
  hMeta : bindMeta hash counterpartyPkMeta sub.noteDetails.salt = lock.hMeta
  hEnc : bindEnc hash sub.encryptedSalt = lock.hEnc
  timeout : lock.timeout = sub.noteDetails.timeout

def announcementOf (swapId : Word) (a b : PartySubmission) : SwapAnnouncement :=
  ⟨swapId, a.ephemeralPubkey, b.ephemeralPubkey, a.encryptedSalt, b.encryptedSalt⟩

/-- The two locked notes are those of the swap, the first one A's. -/
structure VerifiedSwap (swapId nonce : Word) (a b : LockedSubmission) (ann : SwapAnnouncement) : Prop where
  opensA : OpensLock hash a.1 a.2 swapId b.1.noteDetails.fallbackOwner
  opensB : OpensLock hash b.1 b.2 swapId a.1.noteDetails.fallbackOwner
  timeout : a.1.noteDetails.timeout = b.1.noteDetails.timeout
  recomputes : recomputes hash a.1.noteDetails.timeout nonce swapId a.1 b.1 = true
  announced : ann = announcementOf swapId a.1 b.1

variable {hash} {sub1 sub2 : PartySubmission} {lock1 lock2 : SwapLockData} {swapId nonce timeout : Word}
  {a b : LockedSubmission} {ann : SwapAnnouncement}

theorem determineRoles_ok (h : determineRoles (C := C) (S := S) hash sub1 sub2 lock1 lock2 timeout nonce
    swapId = .ok (a, b)) :
    (a = (sub1, lock1) ∧ b = (sub2, lock2) ∨ a = (sub2, lock2) ∧ b = (sub1, lock1)) ∧
      recomputes hash timeout nonce swapId a.1 b.1 = true := by
  unfold determineRoles at h
  split at h
  · next hfirst =>
    cases h
    exact ⟨.inl ⟨rfl, rfl⟩, hfirst⟩
  · split at h
    · next hsecond =>
      cases h
      exact ⟨.inr ⟨rfl, rfl⟩, hsecond⟩
    · cases h

theorem verifySwap_ok (h : verifySwap (C := C) (S := S) hash sub1 sub2 lock1 lock2 = .ok ann) :
    ∃ a b, (a = (sub1, lock1) ∧ b = (sub2, lock2) ∨ a = (sub2, lock2) ∧ b = (sub1, lock1)) ∧
      VerifiedSwap hash sub1.swapId sub1.nonce a b ann := by
  simp only [verifySwap, verifyCommitment, verifyBindings, bind_eq_ok, failIf_eq_ok, pure_eq_ok,
    exists_const, ne_eq, not_not] at h
  obtain ⟨-, -, ⟨a, b⟩, hroles, hcommitA, hcommitB, ⟨hswapA, hrA, hmetaA, hencA⟩,
    ⟨hswapB, hrB, hmetaB, hencB⟩, htimeout, hlockA, hlockB, rfl⟩ := h
  obtain ⟨horder, hrecomputes⟩ := determineRoles_ok hroles
  refine ⟨a, b, horder, ⟨hcommitA, hswapA, hrA, hmetaA, hencA, hlockA⟩,
    ⟨hcommitB, hswapB, hrB, hmetaB, hencB, hlockB⟩, htimeout, ?_, rfl⟩
  -- the timeout of the first submission is the timeout of both
  have hsub1 : sub1.noteDetails.timeout = a.1.noteDetails.timeout := by
    rcases horder with ⟨rfl, rfl⟩ | ⟨rfl, rfl⟩
    · rfl
    · exact htimeout.symm
  rwa [hsub1] at hrecomputes

/-- Locks that open verify, with the roles found. -/
theorem verifySwap_of_roles (hid : sub1.swapId = swapId) (hid' : sub2.swapId = swapId)
    (hnonce : sub1.nonce = sub2.nonce)
    (hroles : determineRoles (C := C) (S := S) hash sub1 sub2 lock1 lock2 sub1.noteDetails.timeout
      sub1.nonce swapId = .ok (a, b))
    (hA : OpensLock hash a.1 a.2 swapId b.1.noteDetails.fallbackOwner)
    (hB : OpensLock hash b.1 b.2 swapId a.1.noteDetails.fallbackOwner)
    (htimeout : a.1.noteDetails.timeout = b.1.noteDetails.timeout) :
    verifySwap (C := C) (S := S) hash sub1 sub2 lock1 lock2 = .ok (announcementOf swapId a.1 b.1) := by
  simp only [verifySwap, verifyCommitment, verifyBindings, bind_eq_ok, failIf_eq_ok, pure_eq_ok,
    exists_const, ne_eq, not_not, true_and, hid, hid']
  exact ⟨hnonce, _, hroles, hA.commitment, hB.commitment, ⟨hA.hSwap, hA.hR, hA.hMeta, hA.hEnc⟩,
    ⟨hB.hSwap, hB.hR, hB.hMeta, hB.hEnc⟩, htimeout, hA.timeout, hB.timeout, rfl⟩

end

end Pocs.Swap
