import Pocs.Swap.Party

/-! # The order of arrival

`verify_swap` takes the first submission for A's where the swap id allows it. With the submissions
exchanged it succeeds or fails as before, and the announcement is the same unless the swap id allows both
orders (`Ambiguous`). -/

namespace Pocs.Swap

open Compliance (BnField Word ofU64_inj)

/-- The terms of the submissions are the same to the swap id, which reduces words modulo the order of the
field. -/
structure Interchangeable (F : Type) [BnField F] (sub1 sub2 : PartySubmission) : Prop where
  value : sub1.noteDetails.value = sub2.noteDetails.value
  assetId : (Scalar.ofNat sub1.noteDetails.assetId : F) = Scalar.ofNat sub2.noteDetails.assetId
  chainId : (Scalar.ofNat sub1.noteDetails.chainId : F) = Scalar.ofNat sub2.noteDetails.chainId
  fallbackOwner : (Scalar.ofNat sub1.noteDetails.fallbackOwner : F) =
    Scalar.ofNat sub2.noteDetails.fallbackOwner

variable {F C S : Type} [BnField F]

/-- What the verification checks whichever submission is A's. -/
structure Opened (hash : List F → F) (sub1 sub2 : PartySubmission) (lock1 lock2 : SwapLockData) : Prop where
  swapId : sub1.swapId = sub2.swapId
  nonce : sub1.nonce = sub2.nonce
  timeout : sub1.noteDetails.timeout = sub2.noteDetails.timeout
  opens1 : OpensLock hash sub1 lock1 sub1.swapId sub2.noteDetails.fallbackOwner
  opens2 : OpensLock hash sub2 lock2 sub2.swapId sub1.noteDetails.fallbackOwner

/-- The swap id of the submissions allows the first one for A's. -/
def First (hash : List F → F) (sub1 sub2 : PartySubmission) : Prop :=
  recomputes hash sub1.noteDetails.timeout sub1.nonce sub1.swapId sub1 sub2 = true

/-- Both submissions pass as A's, and they announce different things. -/
structure Ambiguous (hash : List F → F) (sub1 sub2 : PartySubmission) (lock1 lock2 : SwapLockData) : Prop where
  opened : Opened hash sub1 sub2 lock1 lock2
  first : First hash sub1 sub2
  interchangeable : Interchangeable F sub1 sub2
  differ : sub1.ephemeralPubkey ≠ sub2.ephemeralPubkey ∨ sub1.encryptedSalt ≠ sub2.encryptedSalt

variable {hash : List F → F} {sub1 sub2 : PartySubmission} {lock1 lock2 : SwapLockData} {ann : SwapAnnouncement}

theorem Interchangeable.symm (h : Interchangeable F sub1 sub2) : Interchangeable F sub2 sub1 :=
  ⟨h.value.symm, h.assetId.symm, h.chainId.symm, h.fallbackOwner.symm⟩

theorem Opened.symm (h : Opened hash sub1 sub2 lock1 lock2) : Opened hash sub2 sub1 lock2 lock1 :=
  ⟨h.swapId.symm, h.nonce.symm, h.timeout.symm, h.opens2, h.opens1⟩

theorem swapIdHash_eq_of_interchangeable (h : Interchangeable F sub1 sub2) (timeout nonce : Word) :
    swapIdHash hash sub1.noteDetails.value sub1.noteDetails.assetId sub1.noteDetails.chainId
        sub2.noteDetails.value sub2.noteDetails.assetId sub2.noteDetails.chainId timeout
        sub1.noteDetails.fallbackOwner sub2.noteDetails.fallbackOwner nonce =
      swapIdHash hash sub2.noteDetails.value sub2.noteDetails.assetId sub2.noteDetails.chainId
        sub1.noteDetails.value sub1.noteDetails.assetId sub1.noteDetails.chainId timeout
        sub2.noteDetails.fallbackOwner sub1.noteDetails.fallbackOwner nonce := by
  rw [swapIdHash, swapIdHash, h.value, h.assetId, h.chainId, h.fallbackOwner]

/-- The swap id allows both orders just for terms that it does not tell apart. -/
theorem first_swap_iff (H : IdealHash hash) (hopened : Opened hash sub1 sub2 lock1 lock2)
    (hfirst : First hash sub1 sub2) : First hash sub2 sub1 ↔ Interchangeable F sub1 sub2 := by
  rw [First, recomputes, decide_eq_true_iff] at *
  rw [← hopened.timeout, ← hopened.nonce, ← hopened.swapId]
  constructor
  · intro hsecond
    have hfields := H.inj (by simp) (by simp) (by simp) (by simp)
      (Scalar.toNat_inj (hfirst.trans hsecond.symm))
    simp only [List.cons.injEq, and_true, true_and] at hfields
    obtain ⟨hvalue, hasset, hchain, -, -, -, hfallback, -⟩ := hfields
    exact ⟨ofU64_inj hvalue, hasset, hchain, hfallback⟩
  · intro hterms
    rw [← swapIdHash_eq_of_interchangeable hterms, hfirst]

theorem determineRoles_eq_ok {timeout nonce swapId : Word} {a b : LockedSubmission} :
    determineRoles (C := C) (S := S) hash sub1 sub2 lock1 lock2 timeout nonce swapId = .ok (a, b) ↔
      recomputes hash timeout nonce swapId sub1 sub2 = true ∧ (sub1, lock1) = a ∧ (sub2, lock2) = b ∨
      recomputes hash timeout nonce swapId sub1 sub2 = false ∧
        recomputes hash timeout nonce swapId sub2 sub1 = true ∧ (sub2, lock2) = a ∧ (sub1, lock1) = b := by
  rw [determineRoles]
  cases recomputes hash timeout nonce swapId sub1 sub2 with
  | true => simp
  | false =>
    cases recomputes hash timeout nonce swapId sub2 sub1 with
    | true => simp
    | false => simp

/-- The first submission is A's where it can be, and the second one is otherwise. -/
theorem verifySwap_eq_ok : verifySwap (C := C) (S := S) hash sub1 sub2 lock1 lock2 = .ok ann ↔
    Opened hash sub1 sub2 lock1 lock2 ∧ (First hash sub1 sub2 ∧ ann = announcementOf sub1.swapId sub1 sub2 ∨
        ¬ First hash sub1 sub2 ∧ First hash sub2 sub1 ∧ ann = announcementOf sub2.swapId sub2 sub1) := by
  constructor
  · intro h
    simp only [verifySwap, verifyCommitment, verifyBindings, bind_eq_ok, failIf_eq_ok, pure_eq_ok,
      exists_const, ne_eq, not_not] at h
    obtain ⟨hid, hnonce, ⟨a, b⟩, hroles, hcommitA, hcommitB, ⟨hswapA, hrA, hmetaA, hencA⟩,
      ⟨hswapB, hrB, hmetaB, hencB⟩, htimeout, hlockA, hlockB, rfl⟩ := h
    rcases determineRoles_eq_ok.mp hroles with ⟨hfirst, rfl, rfl⟩ | ⟨hnot, hsecond, rfl, rfl⟩
    · exact ⟨⟨hid, hnonce, htimeout, ⟨hcommitA, hswapA, hrA, hmetaA, hencA, hlockA⟩,
        ⟨hcommitB, hid ▸ hswapB, hrB, hmetaB, hencB, hlockB⟩⟩, .inl ⟨hfirst, rfl⟩⟩
    · rw [← htimeout, hnonce, hid] at hsecond
      exact ⟨⟨hid, hnonce, htimeout.symm, ⟨hcommitB, hswapB, hrB, hmetaB, hencB, hlockB⟩,
        ⟨hcommitA, hid ▸ hswapA, hrA, hmetaA, hencA, hlockA⟩⟩,
        .inr ⟨ne_true_of_eq_false hnot, hsecond, hid ▸ rfl⟩⟩
  · intro h
    obtain ⟨hopened, ⟨hfirst, rfl⟩ | ⟨hnot, hsecond, rfl⟩⟩ := h
    · exact verifySwap_of_roles (a := (sub1, lock1)) (b := (sub2, lock2)) rfl hopened.swapId.symm
        hopened.nonce (determineRoles_eq_ok.mpr (.inl ⟨hfirst, rfl, rfl⟩)) hopened.opens1
        (hopened.swapId ▸ hopened.opens2) hopened.timeout
    · rw [First, ← hopened.timeout, ← hopened.nonce] at hsecond
      refine verifySwap_of_roles (a := (sub2, lock2)) (b := (sub1, lock1)) hopened.swapId rfl hopened.nonce
        (determineRoles_eq_ok.mpr (.inr ⟨?_, hsecond, rfl, rfl⟩)) hopened.opens2
        (hopened.swapId ▸ hopened.opens1) hopened.timeout.symm
      rw [First, hopened.swapId] at hnot
      exact eq_false_of_ne_true hnot

/-! ## Exchanged submissions -/

/-- Exchanged submissions succeed if the others do. -/
theorem exists_verifySwap_swap (h : verifySwap (C := C) (S := S) hash sub1 sub2 lock1 lock2 = .ok ann) :
    ∃ ann', verifySwap (C := C) (S := S) hash sub2 sub1 lock2 lock1 = .ok ann' := by
  obtain ⟨hopened, hroles⟩ := verifySwap_eq_ok.mp h
  by_cases hsecond : First hash sub2 sub1
  · exact ⟨_, verifySwap_eq_ok.mpr ⟨hopened.symm, .inl ⟨hsecond, rfl⟩⟩⟩
  · rcases hroles with ⟨hfirst, -⟩ | ⟨-, hswapped, -⟩
    · exact ⟨_, verifySwap_eq_ok.mpr ⟨hopened.symm, .inr ⟨hsecond, hfirst, rfl⟩⟩⟩
    · exact absurd hswapped hsecond

theorem Ambiguous.verifySwap (h : Ambiguous hash sub1 sub2 lock1 lock2) :
    verifySwap (C := C) (S := S) hash sub1 sub2 lock1 lock2 = .ok (announcementOf sub1.swapId sub1 sub2) :=
  verifySwap_eq_ok.mpr ⟨h.opened, .inl ⟨h.first, rfl⟩⟩

theorem Ambiguous.symm (H : IdealHash hash) (h : Ambiguous hash sub1 sub2 lock1 lock2) :
    Ambiguous hash sub2 sub1 lock2 lock1 where
  opened := h.opened.symm
  first := (first_swap_iff H h.opened h.first).mpr h.interchangeable
  interchangeable := h.interchangeable.symm
  differ := h.differ.imp Ne.symm Ne.symm

theorem Ambiguous.announcementOf_ne (h : Ambiguous hash sub1 sub2 lock1 lock2) (swapId swapId' : Word) :
    announcementOf swapId sub1 sub2 ≠ announcementOf swapId' sub2 sub1 := by
  intro heq
  simp only [announcementOf, SwapAnnouncement.mk.injEq] at heq
  obtain ⟨-, hephemeral, -, hsalt, -⟩ := heq
  rcases h.differ with hne | hne
  · exact hne hephemeral
  · exact hne hsalt

/-- The verification does not depend on the order of the submissions just where they are not two that
both pass as A's and announce different things. -/
theorem verifySwap_swap_iff (H : IdealHash hash) :
    (((∃ ann, verifySwap (C := C) (S := S) hash sub1 sub2 lock1 lock2 = .ok ann) ↔
        ∃ ann, verifySwap (C := C) (S := S) hash sub2 sub1 lock2 lock1 = .ok ann) ∧
      ∀ ann, verifySwap (C := C) (S := S) hash sub1 sub2 lock1 lock2 = .ok ann →
        verifySwap (C := C) (S := S) hash sub2 sub1 lock2 lock1 = .ok ann) ↔
      ¬ Ambiguous hash sub1 sub2 lock1 lock2 := by
  constructor
  · intro hsame hambiguous
    have hswapped := hsame.2 _ hambiguous.verifySwap
    rw [(hambiguous.symm H).verifySwap] at hswapped
    exact hambiguous.announcementOf_ne _ _ (Except.ok.inj hswapped).symm
  · intro hnot
    refine ⟨⟨?_, ?_⟩, fun ann h => ?_⟩
    · exact fun h => h.elim fun _ => exists_verifySwap_swap
    · exact fun h => h.elim fun _ => exists_verifySwap_swap
    obtain ⟨hopened, ⟨hfirst, rfl⟩ | ⟨-, hsecond, rfl⟩⟩ := verifySwap_eq_ok.mp h
    · by_cases hsecond : First hash sub2 sub1
      · -- both orders are allowed, so that the announcements agree
        have hterms := (first_swap_iff H hopened hfirst).mp hsecond
        have hsame : sub1.ephemeralPubkey = sub2.ephemeralPubkey ∧ sub1.encryptedSalt = sub2.encryptedSalt := by
          by_contra hne
          exact hnot ⟨hopened, hfirst, hterms, not_and_or.mp hne⟩
        refine verifySwap_eq_ok.mpr ⟨hopened.symm, .inl ⟨hsecond, ?_⟩⟩
        rw [announcementOf, announcementOf, hopened.swapId, hsame.1, hsame.2]
      · exact verifySwap_eq_ok.mpr ⟨hopened.symm, .inr ⟨hsecond, hfirst, rfl⟩⟩
    · exact verifySwap_eq_ok.mpr ⟨hopened.symm, .inl ⟨hsecond, rfl⟩⟩

/-! ## One party on both sides -/

namespace Seven

def ownTerms : SwapTerms := SwapTerms.new shiftHash 1 1 1000 1000 1 1 86400 (affineXToB256 curve keyA.pk)
  (affineXToB256 curve keyA.pk) 255

def secondEphemeral : EphemeralKeyPair curve := ⟨2, by decide, 2 • curve.generator, rfl⟩

def ownLock (drawn : EphemeralKeyPair curve) : LockOutput :=
  prepareLock shiftHash curve ownTerms keyA keyA.pk (noteOf keyA 1 1000 1) ⟨[], [], 0, 0⟩
    (commitmentHash shiftHash (noteOf keyA 1 1000 1)) drawn 9

theorem ownLock_matching : Matching shiftHash ownTerms
    (byRole (ownLock ephemeral).submission (ownLock secondEphemeral).submission)
    (byRole (ownLock ephemeral).witness.lockData (ownLock secondEphemeral).witness.lockData) :=
  matching_prepareLock SwapTerms.new_derived ⟨rfl, rfl, rfl, rfl, rfl⟩ ⟨rfl, rfl, rfl, rfl, rfl⟩

theorem ownLock_ambiguous : Ambiguous shiftHash (ownLock ephemeral).submission
    (ownLock secondEphemeral).submission (ownLock ephemeral).witness.lockData
    (ownLock secondEphemeral).witness.lockData where
  opened := ⟨rfl, rfl, rfl, ownLock_matching.opens .a, ownLock_matching.opens .b⟩
  first := ownLock_matching.recomputes
  interchangeable := ⟨rfl, rfl, rfl, rfl⟩
  differ := .inl (show affineXToB256 curve (1 • curve.generator) ≠
    affineXToB256 curve (2 • curve.generator) by decide)

end Seven

open Seven

/-- The honest submissions of two parties, in both orders. -/
theorem verifySwap_swap_iff_sample : ∃ ann, verifySwap (C := Unit) (S := Unit) shiftHash
    (lockB keyA.pk).submission lockA.submission
    (lockB keyA.pk).witness.lockData lockA.witness.lockData = .ok ann := by
  have hverified := @verifySwap_eq Unit Unit keyA.pk rfl
  refine ⟨_, ((verifySwap_swap_iff shiftHash_ideal).mpr fun hambiguous => ?_).2 _ hverified⟩
  exact absurd hambiguous.interchangeable.value (by decide)

/-- The ephemeral keys change places with the order of arrival. -/
theorem roles_depend_on_arrival : ∃ ann ann',
    verifySwap (C := Unit) (S := Unit) shiftHash (ownLock ephemeral).submission
      (ownLock secondEphemeral).submission (ownLock ephemeral).witness.lockData
      (ownLock secondEphemeral).witness.lockData = .ok ann ∧
    verifySwap (C := Unit) (S := Unit) shiftHash (ownLock secondEphemeral).submission
      (ownLock ephemeral).submission (ownLock secondEphemeral).witness.lockData
      (ownLock ephemeral).witness.lockData = .ok ann' ∧ ann.ephemeralKeyA ≠ ann'.ephemeralKeyA :=
  ⟨_, _, ownLock_ambiguous.verifySwap, (ownLock_ambiguous.symm shiftHash_ideal).verifySwap,
    show affineXToB256 curve (1 • curve.generator) ≠ affineXToB256 curve (2 • curve.generator) by decide⟩

end Pocs.Swap
