import Pocs.Swap.Locked
import Pocs.Swap.Party

/-! # What an announced swap lets the parties claim

The verification pins every field of a locked note and the x-coordinates of the two points behind its
owner. `claimable_iff` says what is left to the party that locks: the sign of the claimer's point in its
proof, and the word of the encrypted salt. -/

namespace Pocs.Swap

open Compliance (BnField Word merkleHash)

def PreparedWitness.args (prepared : PreparedWitness) (proof : List UInt8) : TransferArgs where
  proof
  nullifier := prepared.pub.nullifier
  root := prepared.pub.root
  newCommitment := prepared.pub.newCommitment
  timeout := prepared.pub.timeout
  pkStealth := prepared.pub.pkStealth
  hSwap := prepared.pub.hSwap
  hR := prepared.pub.hR
  hMeta := prepared.pub.hMeta
  hEnc := prepared.pub.hEnc

variable {F P T : Type} [ByteField F] [AddCommGroup P] {D : Deployment F P T} {C S : Type}
  {sub sub1 sub2 : PartySubmission} {lock lock1 lock2 : SwapLockData} {args args1 args2 : TransferArgs}
  {wit wit1 wit2 : TransferWitness F} {swapId pkMeta nonce : Word} {ann : SwapAnnouncement}
  {terms : SwapTerms} {role : PartyRole} {R : P}

/-- An accepted transfer in lock mode, and the lock data it emits. -/
structure LockOf (D : Deployment F P T) (lock : SwapLockData) (args : TransferArgs)
    (wit : TransferWitness F) : Prop where
  proves : Proves D args wit
  mode : args.mode F = .lock
  canonical : BnField.canonical F args.newCommitment = true
  data : lock = ⟨args.newCommitment, args.timeout, args.pkStealth, args.hSwap, args.hR, args.hMeta, args.hEnc⟩

/-- The party finds the commitment of the other's note, and its claim is proven wherever the note is
in a tree. -/
structure Claimable (D : Deployment F P T) (ann : SwapAnnouncement) (own : MetaKeyPair D.curve) (R : P)
    (terms : SwapTerms) (role : PartyRole) (lock : SwapLockData) : Prop where
  commitment : commitmentHash D.hash (claimedNote D.hash D.curve ann own R terms role) = lock.commitment
  accepted : ∀ (proof : CommitmentMerkleProof) (root salt : Word), Included D.hash lock.commitment proof root →
    (prepareClaim D.hash D.curve ann own R terms role proof root salt).witness.main D.hash D.curve = .ok ()

/-- The secret that the claimer shares with the party that locked. -/
def sharedX (E : EmbeddedCurve F P) (own : MetaKeyPair E) (R : P) : Word := ecdhSharedSecretX E R own.sk

/-- What the party that locked has to have done: its proof used the claimer's own point, unless the
stealth address is not shifted at all, and its encrypted salt is read like its residue. -/
structure Readable (D : Deployment F P T) (sub : PartySubmission) (wit : TransferWitness F)
    (own : MetaKeyPair D.curve) (R : P) : Prop where
  point : wit.extras.pkMetaY = D.curve.y own.pk ∨
    stealthScalar D.hash D.curve (sharedX D.curve own R) • D.curve.generator = 0
  salt : (Scalar.ofNat (decryptSalt D.hash sub.encryptedSalt (sharedX D.curve own R)) : F) =
    Scalar.ofNat (decryptSalt D.hash (Scalar.toNat (Scalar.ofNat sub.encryptedSalt : F))
      (sharedX D.curve own R))

/-- The facts that the circuit and the verification together give about a lock. -/
structure Pinned (D : Deployment F P T) (sub : PartySubmission) (pkMetaX : Word)
    (wit : TransferWitness F) (point : P) (r : Nat) : Prop where
  output : wit.output = sub.noteDetails.toField
  metaX : wit.extras.pkMetaX = Scalar.ofNat pkMetaX
  encryptedSalt : wit.extras.encryptedSalt = Scalar.ofNat sub.encryptedSalt
  ephemeral : D.curve.x (r • D.curve.generator) = Scalar.ofNat sub.ephemeralPubkey
  on_curve : D.curve.point wit.extras.pkMetaX wit.extras.pkMetaY = some point
  owner : wit.output.owner = D.curve.x (point + Scalar.toNat (D.hash [domainStealth,
    D.curve.x (r • point)]) • D.curve.generator)
  salt : Scalar.toNat wit.output.salt = Scalar.toNat wit.extras.encryptedSalt ^^^
    maskWord (Scalar.toNat (D.hash [domainSaltEnc, D.curve.x (r • point)]))
  owner_ne : wit.output.owner ≠ 0
  timeout_ne : wit.output.timeout ≠ 0

theorem LockOf.pinned (h : LockOf D lock args wit) (H : IdealHash D.hash)
    (hopens : OpensLock D.hash sub lock swapId pkMeta) : ∃ point r, Pinned D sub pkMeta wit point r := by
  obtain ⟨hproves, hmode, -, rfl⟩ := h
  have hok := main_ok hproves
  have hmoded := hok.moded
  rw [show (args.toPublic : TransferPublic F).mode = .lock from hmode] at hmoded
  cases hmoded with
  | lock htimeout hstealth _ _ houtput _ hbound =>
    obtain ⟨point, hpoint, hx, hxor⟩ := hbound.stealth
    -- each binding is a hash whose word the verification has recomputed
    have hword : ∀ {xs : List F} {n : Word}, Scalar.toNat (D.hash xs) = n →
        (Scalar.ofNat n : F) = D.hash xs := fun heq => by rw [← heq, BnField.ofNat_toNat]
    have hr := H.inj (by simp) (by simp) (by simp) (by simp) (hbound.hR.trans (hword hopens.hR))
    have hmeta := H.inj (by simp) (by simp) (by simp) (by simp) (hbound.hMeta.trans (hword hopens.hMeta))
    have henc := H.inj (by simp) (by simp) (by simp) (by simp) (hbound.hEnc.trans (hword hopens.hEnc))
    simp only [List.cons.injEq, and_true, true_and] at hr hmeta henc
    have hnote : wit.output = sub.noteDetails.toField :=
      computeCommitment_inj H (hok.created.symm.trans (hword hopens.commitment))
    rw [EmbeddedCurve.fixedBaseScalarMul, value_fieldToScalar] at hx
    have hsalt := (xorFields_eq_ok.mp hxor).2
    rw [toNat_mask253] at hsalt
    exact ⟨point, _,
      { output := hnote
        metaX := hmeta.1
        encryptedSalt := henc
        ephemeral := hr
        on_curve := hpoint
        owner := hbound.owner.trans hx.symm
        salt := by rw [hsalt, Nat.xor_xor_cancel_right]
        owner_ne := hbound.owner ▸ hstealth
        timeout_ne := houtput ▸ htimeout }⟩

/-- The terms say of the party's claim what the other's submission shows. -/
structure Agrees (F : Type) [BnField F] (ann : SwapAnnouncement) (terms : SwapTerms) (role : PartyRole)
    (sub : PartySubmission) : Prop where
  encryptedSalt : (claimParams ann terms role).encryptedSalt = sub.encryptedSalt
  chainId : (Scalar.ofNat (claimParams ann terms role).lockedChainId : F) = Scalar.ofNat sub.noteDetails.chainId
  value : (claimParams ann terms role).lockedValue = sub.noteDetails.value
  assetId : (Scalar.ofNat (claimParams ann terms role).lockedAssetId : F) = Scalar.ofNat sub.noteDetails.assetId
  fallbackOwner : (Scalar.ofNat (claimParams ann terms role).fallbackOwnerX : F) =
    Scalar.ofNat sub.noteDetails.fallbackOwner
  timeout : (Scalar.ofNat terms.timeout : F) = Scalar.ofNat sub.noteDetails.timeout

omit [AddCommGroup P] in
theorem VerifiedSwap.agrees {hash : List F → F} (H : IdealHash hash) {a b : LockedSubmission}
    (h : VerifiedSwap hash swapId nonce a b ann) (hderived : terms.Derived hash)
    (hsame : terms.swapId = ann.swapId) : Agrees F ann terms .a b.1 ∧ Agrees F ann terms .b a.1 := by
  obtain rfl := h.announced
  have hhash := hderived.symm.trans (hsame.trans (of_decide_eq_true h.recomputes).symm)
  have hfields := H.inj (by simp) (by simp) (by simp) (by simp) (Scalar.toNat_inj hhash)
  simp only [List.cons.injEq, and_true, true_and] at hfields
  obtain ⟨hvalueA, hassetA, hchainA, hvalueB, hassetB, hchainB, htimeout, hpkA, hpkB, -⟩ := hfields
  exact ⟨⟨rfl, hchainB, Compliance.ofU64_inj hvalueB, hassetB, hpkB, h.timeout ▸ htimeout⟩,
    ⟨rfl, hchainA, Compliance.ofU64_inj hvalueA, hassetA, hpkA, htimeout⟩⟩

/-! ## The note that the claimer reconstructs -/

section
variable {point : P} {r : Nat} {own : MetaKeyPair D.curve}
  (hpinned : Pinned D sub pkMeta wit point r) (hE : D.curve.Lawful)
  (hpk : pkMeta = affineXToB256 D.curve own.pk)
  (hR : (Scalar.ofNat sub.ephemeralPubkey : F) = D.curve.x R)
include hpinned hE hpk

theorem Pinned.x_point : D.curve.x point = D.curve.x own.pk := by
  obtain ⟨-, hx, -⟩ := hE.point_eq.mp hpinned.on_curve
  rw [hx, hpinned.metaX, hpk, ofNat_affineXToB256]

/-- The point in the proof of the lock is the claimer's own if it has the same y-coordinate. -/
theorem Pinned.point_eq_iff : point = own.pk ↔ wit.extras.pkMetaY = D.curve.y own.pk := by
  obtain ⟨hne, hx, hy⟩ := hE.point_eq.mp hpinned.on_curve
  have hsame := hpinned.x_point hE hpk
  constructor
  · intro heq
    rw [← hy, heq]
  · intro heq
    have hpk_ne : own.pk ≠ 0 := by
      intro hzero
      rw [hzero] at hsame
      rcases hE.x_eq.mp hsame with hz | hz
      · exact hne hz
      · exact hne (hz.trans neg_zero)
    have hown := hE.point_eq.mpr ⟨hpk_ne, hsame.symm.trans hx, heq.symm⟩
    exact Option.some.inj (hpinned.on_curve.symm.trans hown)

include hR

theorem Pinned.shared : D.curve.x (r • point) = Scalar.ofNat (sharedX D.curve own R) := by
  have hshared := hE.shared_eq (hpinned.x_point hE hpk |>.trans (by rw [own.pk_eq]))
    (hR.symm.trans hpinned.ephemeral.symm)
  rw [sharedX, ecdhSharedSecretX, ofNat_affineXToB256, hshared]

/-- The owner bound by the lock is the address of the claimer's stealth key, up to the sign of the
point. -/
theorem Pinned.owner_eq_iff : D.curve.x (deriveStealthSecret D.hash D.curve own.sk R • D.curve.generator) =
    wit.output.owner ↔ wit.extras.pkMetaY = D.curve.y own.pk ∨
        stealthScalar D.hash D.curve (sharedX D.curve own R) • D.curve.generator = 0 := by
  have hscalar : Scalar.toNat (D.hash [domainStealth, D.curve.x (r • point)]) • D.curve.generator =
      stealthScalar D.hash D.curve (sharedX D.curve own R) • D.curve.generator := by
    rw [hpinned.shared hE hpk hR, stealthScalar, b256ToGrumpkinScalar, hE.mod_smul]
  have hsecret : deriveStealthSecret D.hash D.curve own.sk R • D.curve.generator =
      own.pk + stealthScalar D.hash D.curve (sharedX D.curve own R) • D.curve.generator := by
    rw [deriveStealthSecret, hE.mod_smul, add_smul, ← own.pk_eq]
    rfl
  rw [hpinned.owner, hscalar, hsecret, eq_comm, hE.x_add_eq_iff (hpinned.x_point hE hpk),
    hpinned.point_eq_iff hE hpk]

theorem Pinned.salt_eq : (Scalar.ofNat (decryptSalt D.hash
    (Scalar.toNat (Scalar.ofNat sub.encryptedSalt : F)) (sharedX D.curve own R)) : F) = wit.output.salt := by
  have hsalt := hpinned.salt
  rw [hpinned.shared hE hpk hR, hpinned.encryptedSalt] at hsalt
  rw [decryptSalt, encryptSalt, ← hsalt, BnField.ofNat_toNat]

/-- The claimer reconstructs the note exactly where the lock can be read. -/
theorem Pinned.claimed_iff (hagrees : Agrees F ann terms role sub) :
    ((claimedNote D.hash D.curve ann own R terms role).toField : Note F) = wit.output ↔
      Readable D sub wit own R := by
  have howner := hpinned.owner_eq_iff hE hpk hR
  have hsalt := hpinned.salt_eq hE hpk hR
  constructor
  · intro heq
    refine ⟨howner.mp ?_, ?_⟩
    · rw [← heq]
      exact (ofNat_affineXToB256 _).symm
    · rw [hsalt, ← heq, ← hagrees.encryptedSalt]
      rfl
  · intro hreadable
    have howner' := howner.mpr hreadable.point
    have hsalt' := hreadable.salt.trans hsalt
    rw [← hagrees.encryptedSalt] at hsalt'
    rw [hpinned.output] at howner' hsalt' ⊢
    simp only [Note.toField, claimedNote, Note.mk.injEq, ofNat_affineXToB256]
    exact ⟨hagrees.chainId, hagrees.value, hagrees.assetId, howner', hagrees.fallbackOwner,
      hagrees.timeout, hsalt'⟩

end

theorem Pinned.claimable_iff {point : P} {r : Nat} {own : MetaKeyPair D.curve}
    (hpinned : Pinned D sub pkMeta wit point r) (H : IdealHash D.hash) (hE : D.curve.Lawful)
    (hlock : LockOf D lock args wit) (hagrees : Agrees F ann terms role sub)
    (hpk : pkMeta = affineXToB256 D.curve own.pk) (hR : (Scalar.ofNat sub.ephemeralPubkey : F) = D.curve.x R) :
    Claimable D ann own R terms role lock ↔ Readable D sub wit own R := by
  have hclaimed := hpinned.claimed_iff hE hpk hR hagrees
  have hcommitment : lock.commitment = Scalar.toNat (computeCommitment D.hash wit.output) := by
    rw [hlock.data]
    exact BnField.eq_toNat hlock.canonical (main_ok hlock.proves).created
  constructor
  · intro h
    apply hclaimed.mp
    apply computeCommitment_inj H
    apply Scalar.toNat_inj
    rw [← commitmentHash_eq, h.commitment, hcommitment]
  · intro h
    have heq := hclaimed.mpr h
    refine ⟨by rw [commitmentHash_eq, heq, hcommitment], fun proof root salt hincluded => ?_⟩
    refine main_eq_ok.mpr ⟨?_, ofNat_nullifierWord _, ofNat_commitmentHash _, rfl, rfl, rfl, ?_,
      fun hne => absurd rfl hne⟩
    · rw [Included, hcommitment, BnField.ofNat_toNat, ← heq] at hincluded
      exact hincluded
    · have hsecret : deriveStealthSecret D.hash D.curve own.sk R < 2 ^ 256 :=
        (Nat.mod_lt _ hE.prime.pos).trans hE.order_lt
      refine assertMode_claim ⟨rfl, rfl, rfl, rfl, rfl⟩ ?_ ?_ ?_ rfl rfl
      · exact fun hzero => hpinned.timeout_ne (heq ▸ hzero)
      · exact fun hzero => hpinned.owner_ne (heq ▸ hzero)
      · rw [TransferWitness.key, derivePublicKey, EmbeddedCurve.fixedBaseScalarMul]
        show D.curve.x ((EmbeddedCurveScalar.mk (Scalar.ofNat (scalarToLoHi _).1)
          (Scalar.ofNat (scalarToLoHi _).2)).value • _) = Scalar.ofNat (affineXToB256 _ _)
        rw [value_scalarToLoHi hsecret, ofNat_affineXToB256]

/-- A submission with its lock and the proof of it. -/
structure Side (F : Type) where
  sub : PartySubmission
  lock : SwapLockData
  wit : TransferWitness F

/-- A party whose key stands in its own submission claims the other's note if and only if the other's
lock can be read. -/
def ClaimsWhereReadable (D : Deployment F P T) (ann : SwapAnnouncement) (terms : SwapTerms)
    (role : PartyRole) (own other : Side F) : Prop :=
  ∀ (key : MetaKeyPair D.curve) (R : P), own.sub.noteDetails.fallbackOwner = affineXToB256 D.curve key.pk →
    (Scalar.ofNat other.sub.ephemeralPubkey : F) = D.curve.x R →
    (Claimable D ann key R terms role other.lock ↔ Readable D other.sub other.wit key R)

theorem claimable_iff_readable (H : IdealHash D.hash) (hE : D.curve.Lawful)
    (hverify : verifySwap (C := C) (S := S) D.hash sub1 sub2 lock1 lock2 = .ok ann)
    (hlock1 : LockOf D lock1 args1 wit1) (hlock2 : LockOf D lock2 args2 wit2)
    (hderived : terms.Derived D.hash) (hsame : terms.swapId = ann.swapId) :
    ∃ a b : Side F,
      (a = ⟨sub1, lock1, wit1⟩ ∧ b = ⟨sub2, lock2, wit2⟩ ∨ a = ⟨sub2, lock2, wit2⟩ ∧ b = ⟨sub1, lock1, wit1⟩) ∧
      ClaimsWhereReadable D ann terms .a a b ∧ ClaimsWhereReadable D ann terms .b b a := by
  obtain ⟨a, b, horder, hverified⟩ := verifySwap_ok hverify
  obtain ⟨hagreesB, hagreesA⟩ := hverified.agrees H hderived hsame
  -- whichever submission is A's, both locks were accepted
  have hboth : ∃ witA witB argsA argsB, LockOf D a.2 argsA witA ∧ LockOf D b.2 argsB witB ∧
      ((⟨a.1, a.2, witA⟩ : Side F) = ⟨sub1, lock1, wit1⟩ ∧ (⟨b.1, b.2, witB⟩ : Side F) = ⟨sub2, lock2, wit2⟩ ∨
        (⟨a.1, a.2, witA⟩ : Side F) = ⟨sub2, lock2, wit2⟩ ∧
          (⟨b.1, b.2, witB⟩ : Side F) = ⟨sub1, lock1, wit1⟩) := by
    rcases horder with ⟨rfl, rfl⟩ | ⟨rfl, rfl⟩
    · exact ⟨_, _, _, _, hlock1, hlock2, .inl ⟨rfl, rfl⟩⟩
    · exact ⟨_, _, _, _, hlock2, hlock1, .inr ⟨rfl, rfl⟩⟩
  obtain ⟨witA, witB, argsA, argsB, hlockA, hlockB, hsides⟩ := hboth
  obtain ⟨pointA, rA, hpinnedA⟩ := hlockA.pinned H hverified.opensA
  obtain ⟨pointB, rB, hpinnedB⟩ := hlockB.pinned H hverified.opensB
  refine ⟨_, _, hsides, fun key R hpk hR => ?_, fun key R hpk hR => ?_⟩
  · exact hpinnedB.claimable_iff H hE hlockB hagreesB hpk hR
  · exact hpinnedA.claimable_iff H hE hlockA hagreesA hpk hR

/-! ## A swap in a group of seven points -/

namespace Seven

noncomputable abbrev deployment : Deployment Unbounded (ZMod 7) (LeanImtTree (merkleHash shiftHash)) :=
  .ofCircuit shiftHash curve (leanImt (merkleHash shiftHash))

theorem lockOf {own : MetaKeyPair curve} {point : ZMod 7} {note : Note Word}
    (howner : note.owner = affineXToB256 curve own.pk) (hstandard : note.timeout = 0)
    (hpoint : point ≠ 0) (hstealth : point + 1 ≠ 0) :
    LockOf deployment (lockFor own point note).witness.lockData ((lockFor own point note).witness.args [])
      (lockFor own point note).witness.wit.toField := by
  have hlockable : Lockable shiftHash curve terms own point note ephemeral 9 :=
    { owner := howner
      standard := hstandard
      timeout := by decide
      salt_lt := by decide
      pkMeta_ne := hpoint
      stealth_ne := by
        rw [deriveStealthPubkey_eq]
        revert point
        decide }
  have hincluded : Included shiftHash (commitmentHash shiftHash note) ⟨[], [], 0, 0⟩
      (commitmentHash shiftHash note) := binaryMerkleRoot_zero (merkleHash shiftHash) _ _ _
  obtain ⟨hmain, hmode⟩ := hlockable.main shiftHash_ideal cyclicCurve_lawful hincluded
  exact ⟨hmain, hmode, rfl, rfl⟩

theorem lockOf_a : LockOf deployment lockA.witness.lockData (lockA.witness.args []) lockA.witness.wit.toField :=
  lockOf rfl rfl (by decide) (by decide)

/-- Both points with the x-coordinate of the key of A are good for a proof. -/
theorem lockOf_b {point : ZMod 7} (hpoint : point ≠ 0) (hstealth : point + 1 ≠ 0) :
    LockOf deployment (lockB point).witness.lockData ((lockB point).witness.args [])
      (lockB point).witness.wit.toField :=
  lockOf rfl rfl hpoint hstealth

/-- B's lock for the point binds the address of the point shifted by the generator. -/
theorem owner_b {point : ZMod 7} : (lockB point).lockedNote.owner = affineXToB256 curve (point + 1) :=
  congrArg (affineXToB256 curve) (deriveStealthPubkey_eq point 1)

/-- What A reconstructs has the address of its own stealth key. -/
theorem owner_claimed {ann : SwapAnnouncement} : (claimedNote shiftHash curve ann keyA
    (1 • curve.generator) terms .a).owner = affineXToB256 curve (3 : ZMod 7) := by
  have hsecret : deriveStealthSecret shiftHash curve keyA.sk (1 • curve.generator) = 3 := by
    rw [deriveStealthSecret, stealthScalar_eq]
    rfl
  show affineXToB256 curve (deriveStealthSecret shiftHash curve keyA.sk (1 • curve.generator) •
    curve.generator) = _
  rw [hsecret]
  rfl

end Seven

open Seven

/-- Two honest locks. -/
theorem claimable_iff_readable_sample : verifySwap (C := Unit) (S := Unit) shiftHash lockA.submission
      (lockB keyA.pk).submission lockA.witness.lockData
      (lockB keyA.pk).witness.lockData = .ok (announcement (lockB keyA.pk)) ∧
    ∃ a b : Side Unbounded, (a = ⟨lockA.submission, lockA.witness.lockData, lockA.witness.wit.toField⟩ ∧
          b = ⟨(lockB keyA.pk).submission, (lockB keyA.pk).witness.lockData,
            (lockB keyA.pk).witness.wit.toField⟩ ∨
        a = ⟨(lockB keyA.pk).submission, (lockB keyA.pk).witness.lockData,
            (lockB keyA.pk).witness.wit.toField⟩ ∧
          b = ⟨lockA.submission, lockA.witness.lockData, lockA.witness.wit.toField⟩) ∧
      ClaimsWhereReadable deployment (announcement (lockB keyA.pk)) Seven.terms .a a b ∧
      ClaimsWhereReadable deployment (announcement (lockB keyA.pk)) Seven.terms .b b a := by
  have hverify := @verifySwap_eq Unit Unit keyA.pk rfl
  exact ⟨hverify, claimable_iff_readable shiftHash_ideal cyclicCurve_lawful hverify lockOf_a
    (lockOf_b (by decide) (by decide)) SwapTerms.new_derived rfl⟩

/-- B locks for the negated point of A. Its proof is accepted and the swap is announced, but the note
that A reconstructs is not the one that B locked. -/
theorem announced_unclaimable : verifySwap (C := Unit) (S := Unit) shiftHash lockA.submission
      (lockB (-keyA.pk)).submission lockA.witness.lockData
      (lockB (-keyA.pk)).witness.lockData = .ok (announcement (lockB (-keyA.pk))) ∧
    LockOf deployment lockA.witness.lockData (lockA.witness.args []) lockA.witness.wit.toField ∧
    LockOf deployment (lockB (-keyA.pk)).witness.lockData ((lockB (-keyA.pk)).witness.args [])
      (lockB (-keyA.pk)).witness.wit.toField ∧
    Seven.terms.Derived shiftHash ∧
    Seven.terms.swapId = (announcement (lockB (-keyA.pk))).swapId ∧
    lockA.submission.noteDetails.fallbackOwner = affineXToB256 curve keyA.pk ∧
    (Scalar.ofNat (lockB (-keyA.pk)).submission.ephemeralPubkey : Unbounded) = curve.x (1 • curve.generator) ∧
    commitmentHash shiftHash (claimedNote shiftHash curve
      (announcement (lockB (-keyA.pk))) keyA (1 • curve.generator)
      Seven.terms .a) ≠ (lockB (-keyA.pk)).witness.lockData.commitment := by
  refine ⟨verifySwap_eq (by decide), lockOf_a, lockOf_b (by decide) (by decide),
    SwapTerms.new_derived, rfl, rfl, ofNat_affineXToB256 _, fun h => ?_⟩
  have hlocked : (lockB (-keyA.pk)).witness.lockData.commitment =
      commitmentHash shiftHash (lockB (-keyA.pk)).lockedNote := rfl
  rw [hlocked, commitmentHash_eq, commitmentHash_eq] at h
  have hnote := computeCommitment_inj shiftHash_ideal (Scalar.toNat_inj h)
  have howner : (Scalar.ofNat (affineXToB256 curve (3 : ZMod 7)) : Unbounded) =
      Scalar.ofNat (affineXToB256 curve (-keyA.pk + 1)) := by
    rw [← owner_claimed, ← owner_b]
    exact congrArg Note.owner hnote
  exact absurd howner (by decide)

end Pocs.Swap
