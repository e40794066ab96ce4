import Pocs.Mmf.Attestations
import Pocs.Mmf.Builder
import Pocs.Mmf.Honest

/-! # Locks bind until released or claimed

A locked note leaves the pool's hands in two ways: its release epoch has come and its owner's key
signed the plan, or the claim key signed a transfer marked as claim path. New owners are attested, and
only claim-path transfers create locks, whose terms stand in the register feed. What a key signed is a
parameter: `Signatures` says that nobody else makes a signature that verifies. -/

namespace Pocs.Mmf

open Compliance (Word Address Ideal merkleHash merkleVerify merkleVerify_ofList assertMaxBitSize ofU64
  ofAddress accepts_iff idealHash idealHash_ideal idealHash_injective)

variable {F T τ : Type} [FeedField F]

/-! ## Signed plans -/

/-- A signature that verifies is of the digest of a plan its key signed, and the sponge has no
collisions. -/
structure Signatures (P : Primitives F) (signed : SpendKey → Plan F → Prop) : Prop where
  unforgeable : ∀ {key signature digest}, P.ecdsa key signature digest = true →
    ∃ plan, signed key plan ∧ plan.digest P = digest
  collision_free : ∀ {m m' : List F}, m.length = m'.length → P.sponge m = P.sponge m' → m = m'

theorem Signatures.signed_of_ecdsa {P : Primitives F} {signed : SpendKey → Plan F → Prop}
    (hS : Signatures P signed) {key : SpendKey} {signature : Bytes 64} {plan : Plan F}
    (h : P.ecdsa key signature (plan.digest P) = true) : signed key plan := by
  obtain ⟨plan', hsigned, hdigest⟩ := hS.unforgeable h
  have hmessage : plan'.message = plan.message := hS.collision_free rfl hdigest
  exact Plan.message_inj hmessage ▸ hsigned

theorem Sample.signatures (signed : SpendKey → Plan Unbounded → Prop) :
    Signatures (deployment idealHash signed).toPrimitives signed where
  unforgeable h := accepts_iff.mp h
  collision_free _ h := idealHash_injective h

/-- The plan of a call: all of its arguments that a signer approves. -/
def PoolCall.plan (D : Deployment F T τ) (sender : Address) (path : F) (expiry : UInt64) :
    PoolCall → Option (Plan F)
  | .deposit p => some
    { chainId := Scalar.ofNat D.chainId
      pool := ofAddress D.address
      op := opDeposit
      path
      nullifiers := (0, 0)
      outputs := (Scalar.ofNat p.commitment, 0)
      publicUnits := ofU64 p.units
      recipient := ofAddress sender
      expiry }
  | .transfer p => some
    { chainId := Scalar.ofNat D.chainId
      pool := ofAddress D.address
      op := opTransfer
      path
      nullifiers := (Scalar.ofNat p.nullifier0, Scalar.ofNat p.nullifier1)
      outputs := (Scalar.ofNat p.commitmentOut0, Scalar.ofNat p.commitmentOut1)
      publicUnits := 0
      recipient := 0
      expiry }
  | .withdraw p => some
    { chainId := Scalar.ofNat D.chainId
      pool := ofAddress D.address
      op := opWithdraw
      path
      nullifiers := (Scalar.ofNat p.nullifier, 0)
      outputs := (0, 0)
      publicUnits := ofU64 p.units
      recipient := ofAddress p.recipient
      expiry }
  | _ => none

section
variable (D : Deployment F T τ) (signed : SpendKey → Plan F → Prop) (sender : Address)
  (w : World T τ) (call : PoolCall)

/-- The key signed the plan of the call with the path marked, not yet expired. -/
def Authorised (path : F) (key : SpendKey) : Prop :=
  ∃ plan expiry, call.plan D sender path expiry = some plan ∧ signed key plan ∧
    (w.epoch D + 1) * 86400 ≤ expiry.toNat

/-- The call marks a nullifier of the note. -/
def Spends (note : Note F) : Prop :=
  ∃ n ∈ call.nullifiers, note.Nullifies D.toPrimitives (Scalar.ofNat n)

/-- The lock's release epoch has come, and the owner's key signed the call. -/
def Released (note : Note F) : Prop :=
  (∃ terms, lockValue D.toPrimitives terms = note.lock ∧ terms.releaseAfter.toNat ≤ w.epoch D) ∧
    ∃ key nk, note.owner = ownerValue D.toPrimitives key nk ∧ Authorised D signed sender w call pathOwner key

/-- The call is a transfer that the key behind the pool's `claimKeyHash` signed as claim path. -/
def Claimed : Prop :=
  (∃ p, call = .transfer p) ∧ ∃ key, keyHash D.toPrimitives key = Scalar.ofNat w.pool.claimKeyHash ∧
      Authorised D signed sender w call pathClaim key

/-- A record of the log from which the holder of its register key reads the note and its terms. -/
def InFeed (first : Word × Word) (logs : List PoolEvent) (note : Note F) (terms : LockOpening F) :
    Prop :=
  ∃ st, ChainView.readLogs logs = .ok st ∧ ∃ r ∈ st.1.notes,
    r.commitment = note.commitment D.toPrimitives ∧ ∃ key, KeyOf first logs r.keyVersion key ∧
      ∀ tk, D.curve.fixedBaseMul tk = pointOf key →
        decrypt D.toPrimitives tk r.feedR r.feedCt r.output = feedRecord note terms

/-- What is known of a note that an accepted call creates. -/
structure Created (tr : List Step) (first : Word × Word) (logs : List PoolEvent) (note : Note F)
    (terms : LockOpening F) : Prop where
  attested : (∀ input, Spends D call input → input.owner ≠ note.owner) → Attested D tr w note.owner
  locked : note.lock ≠ 0 → Claimed D signed sender w call ∧ lockValue D.toPrimitives terms = note.lock ∧
    (terms.reason = lockFreeze ∨ terms.reason = lockHold)
  fed : InFeed D first logs note terms

end

/-! ## What the circuits enforce of a spend -/

variable {D : Deployment F T τ} {signed : SpendKey → Plan F → Prop} {w w' : World T τ}
  {tr : List Step} {sender : Address} {events : List PoolEvent} {call : PoolCall}

theorem toNat_ofNat_epoch {epoch : Nat} (hlt : epoch < 2 ^ 64) : (UInt64.ofNat epoch).toNat = epoch :=
  UInt64.toNat_ofNat_of_lt' hlt

/-- A plan the circuit checked is authorised. -/
theorem authorised_of_ecdsa (hS : Signatures D.toPrimitives signed) {epoch : Nat}
    (hepoch : epoch = w.epoch D) (hlt : epoch < 2 ^ 64) {path : F} {key : SpendKey}
    {signature : Bytes 64} {plan : Plan F} {expiry : UInt64}
    (hplan : call.plan D sender path expiry = some plan) (hends : EndsBy (.ofNat epoch) expiry)
    (h : D.ecdsa key signature (plan.digest D.toPrimitives) = true) :
    Authorised D signed sender w call path key := by
  refine ⟨plan, expiry, hplan, hS.signed_of_ecdsa h, ?_⟩
  rw [EndsBy, toNat_ofNat_epoch hlt, hepoch] at hends
  exact hends

/-- What `check_input` says of a locked note. -/
theorem released_of_checkInput {epoch : Nat} (hepoch : epoch = w.epoch D) (hlt : epoch < 2 ^ 64)
    {lock : F} {opening : LockOpening F}
    (h : checkInput D.toPrimitives lock opening (.ofNat epoch) = .ok ()) (hlock : lock ≠ 0) :
    ∃ terms, lockValue D.toPrimitives terms = lock ∧ terms.releaseAfter.toNat ≤ w.epoch D := by
  obtain ⟨hvalue, hrelease⟩ := checkInput_ok h hlock
  have hle : opening.releaseAfter.toNat ≤ (UInt64.ofNat epoch).toNat := hrelease
  rw [toNat_ofNat_epoch hlt, hepoch] at hle
  exact ⟨opening, hvalue, hle⟩

section
variable (H : Ideal D.hash)
include H

theorem TransferOk.input_of_spends {p : TransferParams} {wit : TransferWitness F}
    (ok : TransferOk D.toPrimitives (p.toPublic D w) wit) {note : Note F}
    (h : Spends D (.transfer p) note) : ∃ j, note = wit.input D.toPrimitives j := by
  obtain ⟨n, hn, hnote⟩ := h
  obtain ⟨h0, h1⟩ := ok.nullifies
  simp only [PoolCall.nullifiers, List.mem_cons, List.not_mem_nil, or_false] at hn
  rcases hn with rfl | rfl
  · exact ⟨0, hnote.inj H h0⟩
  · exact ⟨1, hnote.inj H h1⟩

theorem WithdrawOk.note_of_spends {p : WithdrawParams} {wit : WithdrawWitness F}
    (ok : WithdrawOk D.toPrimitives (p.toPublic D w) wit) {note : Note F} (h : Spends D (.withdraw p) note) :
    note = withdrawNote D.toPrimitives (p.toPublic D w) wit := by
  obtain ⟨n, hn, hnote⟩ := h
  obtain rfl := List.mem_singleton.mp hn
  exact hnote.inj H ok.nullifies

end

theorem TransferOk.claimed (hS : Signatures D.toPrimitives signed) {p : TransferParams}
    {wit : TransferWitness F} (ok : TransferOk D.toPrimitives (p.toPublic D w) wit)
    (hepoch : p.epoch = w.epoch D) (hlt : p.epoch < 2 ^ 64) (hclaim : wit.claim = true) :
    Claimed D signed sender w (.transfer p) := by
  have hsignature := ok.signature
  rw [hclaim] at hsignature
  refine ⟨⟨p, rfl⟩, wit.claimKey, ok.claimKey hclaim, authorised_of_ecdsa hS hepoch hlt ?_ ok.expiry hsignature⟩
  simp only [PoolCall.plan, transferPlan, hclaim]
  rfl

/-- The key of the note's owner signed the call, once a lock of the note was released, or the claim key
did. -/
def SpendSigned (D : Deployment F T τ) (signed : SpendKey → Plan F → Prop) (sender : Address) (w : World T τ)
    (call : PoolCall) (note : Note F) : Prop :=
  ((note.lock ≠ 0 →
      ∃ terms, lockValue D.toPrimitives terms = note.lock ∧ terms.releaseAfter.toNat ≤ w.epoch D) ∧
    ∃ key nk, note.owner = ownerValue D.toPrimitives key nk ∧
      Authorised D signed sender w call pathOwner key) ∨ Claimed D signed sender w call

theorem TransferAccepted.spendSigned (hV : D.Sound) (H : Ideal D.hash)
    (hS : Signatures D.toPrimitives signed) {p : TransferParams}
    (accepted : TransferAccepted D w w' p) {note : Note F} (hspends : Spends D (.transfer p) note) :
    SpendSigned D signed sender w (.transfer p) note := by
  obtain ⟨wit, hmain, hlt⟩ := accepted.proved hV
  have ok := transferMain_ok hmain
  cases hclaim : wit.claim with
  | true => exact .inr (ok.claimed hS accepted.epoch hlt hclaim)
  | false =>
    obtain ⟨j, rfl⟩ := ok.input_of_spends H hspends
    have hsignature := ok.signature
    rw [hclaim] at hsignature
    refine .inl ⟨released_of_checkInput accepted.epoch hlt ((ok.ownerPath hclaim).released j),
      wit.ownerKey, wit.nk, rfl, authorised_of_ecdsa hS accepted.epoch hlt ?_ ok.expiry hsignature⟩
    simp only [PoolCall.plan, transferPlan, hclaim]
    rfl

theorem WithdrawAccepted.spendSigned (hV : D.Sound) (H : Ideal D.hash)
    (hS : Signatures D.toPrimitives signed) {p : WithdrawParams} {m shares : Nat}
    (accepted : WithdrawAccepted D w w' p m shares) {note : Note F}
    (hspends : Spends D (.withdraw p) note) : SpendSigned D signed sender w (.withdraw p) note := by
  obtain ⟨wit, hmain, hlt⟩ := accepted.proved hV
  have ok := withdrawMain_ok hmain
  obtain rfl := ok.note_of_spends H hspends
  exact .inl ⟨released_of_checkInput accepted.epoch hlt ok.released, wit.ownerKey, wit.nk, rfl,
    authorised_of_ecdsa hS accepted.epoch hlt rfl ok.expiry ok.signature⟩

theorem not_spends_of_nullifiers {note : Note F} (h : call.nullifiers = []) : ¬ Spends D call note := by
  intro ⟨n, hn, _⟩
  rw [h] at hn
  cases hn

section
variable (hV : D.Sound) (H : Ideal D.hash)
include hV H

theorem PoolStep.spendSigned (hS : Signatures D.toPrimitives signed)
    (h : PoolStep D sender w w' events call) {note : Note F} (hspends : Spends D call note) :
    SpendSigned D signed sender w call note := by
  cases h with
  | deposit => exact absurd hspends (not_spends_of_nullifiers rfl)
  | transfer accepted | withdraw accepted => exact accepted.spendSigned hV H hS hspends
  | governed _ nullifiers => exact absurd hspends (not_spends_of_nullifiers nullifiers)

/-- The notes that a call spends have one owner. -/
theorem PoolStep.owner_unique
    (h : PoolStep D sender w w' events call) {note note' : Note F} (hspends : Spends D call note)
    (hspends' : Spends D call note') : note.owner = note'.owner := by
  cases h with
  | deposit => exact absurd hspends (not_spends_of_nullifiers rfl)
  | transfer accepted =>
    obtain ⟨wit, hmain, -⟩ := accepted.proved hV
    obtain ⟨j, rfl⟩ := (transferMain_ok hmain).input_of_spends H hspends
    obtain ⟨j', rfl⟩ := (transferMain_ok hmain).input_of_spends H hspends'
    rfl
  | withdraw accepted =>
    obtain ⟨wit, hmain, -⟩ := accepted.proved hV
    rw [(withdrawMain_ok hmain).note_of_spends H hspends, (withdrawMain_ok hmain).note_of_spends H hspends']
  | governed _ nullifiers => exact absurd hspends (not_spends_of_nullifiers nullifiers)

/-! ## What the circuits enforce of a new note -/

theorem TransferAccepted.created (hL : D.imt.Lawful (merkleHash D.hash)) (hS : Signatures D.toPrimitives signed)
    (registry : RegistryInv D tr w.registry) {p : TransferParams}
    (accepted : TransferAccepted D w w' p) {leaf : Word}
    (hleaf : leaf ∈ (PoolCall.transfer p).leaves) : ∃ note : Note F,
      Scalar.ofNat leaf = note.commitment D.toPrimitives ∧
      ((∀ input, Spends D (.transfer p) input → input.owner ≠ note.owner) → Attested D tr w note.owner) ∧
      (note.lock ≠ 0 → Claimed D signed sender w (.transfer p)) := by
  obtain ⟨wit, hmain, hlt⟩ := accepted.proved hV
  have ok := transferMain_ok hmain
  -- the slot of the leaf
  have hslot : ∃ j, Scalar.ofNat leaf = (wit.outputs j).commitment D.toPrimitives := by
    simp only [PoolCall.leaves, List.mem_cons, List.not_mem_nil, or_false] at hleaf
    rcases hleaf with rfl | rfl
    · exact ⟨0, ok.out0⟩
    · exact ⟨1, ok.out1⟩
  obtain ⟨j, hcommitment⟩ := hslot
  have hspends : Spends D (.transfer p) (wit.input D.toPrimitives 0) :=
    ⟨p.nullifier0, List.mem_cons_self, ok.nullifies.1⟩
  refine ⟨wit.outputs j, hcommitment, fun howner => ?_, fun hlock => ?_⟩
  · have hne : (wit.outputs j).owner ≠ wit.ownerIn D.toPrimitives := (howner _ hspends).symm
    exact (ok.attested j (.inr hne)).attested H hL registry accepted.epoch hlt accepted.attestationRoot
  · refine ok.claimed hS accepted.epoch hlt ?_
    by_contra hclaim
    exact hlock ((ok.ownerPath (Bool.eq_false_of_not_eq_true hclaim)).unlocked j)

theorem DepositAccepted.created (hL : D.imt.Lawful (merkleHash D.hash)) (registry : RegistryInv D tr w.registry)
    {p : DepositParams} {m shares : Nat} (accepted : DepositAccepted D sender w w' p m shares) :
    ∃ note : Note F, Scalar.ofNat p.commitment = note.commitment D.toPrimitives ∧
      Attested D tr w note.owner ∧ note.lock = 0 := by
  obtain ⟨wit, hmain, hlt⟩ := accepted.proved hV
  have ok := depositMain_ok hmain
  exact ⟨_, ok.commitment, ok.attested.attested H hL registry accepted.epoch hlt accepted.attestationRoot, rfl⟩

theorem PoolStep.created (hL : D.imt.Lawful (merkleHash D.hash))
    (hS : Signatures D.toPrimitives signed) (registry : RegistryInv D tr w.registry)
    (h : PoolStep D sender w w' events call) {leaf : Word} (hleaf : leaf ∈ call.leaves) :
    ∃ note : Note F, Scalar.ofNat leaf = note.commitment D.toPrimitives ∧
      ((∀ input, Spends D call input → input.owner ≠ note.owner) → Attested D tr w note.owner) ∧
      (note.lock ≠ 0 → Claimed D signed sender w call) := by
  cases h with
  | deposit accepted =>
    obtain ⟨note, hcommitment, hattested, hlock⟩ := accepted.created hV H hL registry
    obtain rfl := List.mem_singleton.mp hleaf
    exact ⟨note, hcommitment, fun _ => hattested, fun hne => absurd hlock hne⟩
  | transfer accepted => exact accepted.created hV H hL hS registry hleaf
  | withdraw => cases hleaf
  | governed _ _ leaves =>
    rw [leaves] at hleaf
    cases hleaf

end

theorem Run.inFeed (hV : D.Sound) (hL : D.imt.Lawful (merkleHash D.hash)) (hE : D.curve.Commutes)
    {w₀ : World T τ} (h₀ : Deployed D w₀) (hrun : Run (Transition D) w₀ tr w) {leaf : Word}
    (hleaf : leaf ∈ inserted tr) : ∃ note terms,
      Scalar.ofNat leaf = note.commitment D.toPrimitives ∧ Terms D.toPrimitives note.lock terms ∧
        InFeed D w₀.pool.registerKey (logOf tr) note terms := by
  obtain ⟨st, hread, inv⟩ := Run.viewInv hV hL h₀ hrun
  have hmem : Scalar.ofNat leaf ∈ st.1.notes.map NoteRecord.commitment := by
    rw [inv.indexed.commitments, inv.commitments, (Run.poolInv hL h₀ hrun).leaves]
    exact List.mem_map_of_mem hleaf
  obtain ⟨r, hr, hcommitment⟩ := List.mem_map.mp hmem
  obtain ⟨note, terms, hfed⟩ := inv.fed r hr
  refine ⟨note, terms, hcommitment.symm.trans hfed.commitment, hfed.lock, st, hread, r, hr, hfed.commitment, ?_⟩
  obtain ⟨key, secret, k, hkey, hderive, hct⟩ := hfed.sent
  refine ⟨key, hkey, fun tk htk => ?_⟩
  rw [← htk] at hderive
  rw [hct]
  exact decrypt_encrypt hE hderive note terms r.output

/-- Along every run: an accepted call that spends a locked note is a release that its owner signed or
a transfer that the claim key signed as claim path; the notes a call spends have one owner; and every
note it creates for another owner is attested, carries a lock only on the claim path, and stands with
its terms in the register feed. -/
theorem locks_bind (hV : D.Sound) (H : Ideal D.hash) (hL : D.imt.Lawful (merkleHash D.hash))
    (hS : Signatures D.toPrimitives signed) (hE : D.curve.Commutes) {w₀ : World T τ}
    (h₀ : Deployed D w₀) (hrun : Run (Transition D) w₀ tr w)
    (hcall : Transition D w (.pool sender call events) w') : (∀ note, Spends D call note → note.lock ≠ 0 →
      Released D signed sender w call note ∨ Claimed D signed sender w call) ∧
    (∀ note note', Spends D call note → Spends D call note' → note.owner = note'.owner) ∧
    ∀ leaf ∈ call.leaves, ∃ note terms, Scalar.ofNat leaf = note.commitment D.toPrimitives ∧
      Created D signed sender w call tr w₀.pool.registerKey (logOf tr ++ events) note terms := by
  have hstep : PoolStep D sender w w' events call := by
    cases hcall with
    | pool _ ok => exact PoolCall.run_step ok
  refine ⟨fun note hspends hlock => ?_, fun note note' => hstep.owner_unique hV H, fun leaf hleaf => ?_⟩
  · exact (hstep.spendSigned hV H hS hspends).imp_left fun howner => ⟨howner.1 hlock, howner.2⟩
  obtain ⟨note, hcommitment, hattested, hclaimed⟩ :=
    hstep.created hV H hL hS (Run.registryInv hL h₀ hrun) hleaf
  have hinserted : leaf ∈ inserted (.pool sender call events :: tr) := by
    rw [inserted_cons]
    exact List.mem_append_right _ hleaf
  obtain ⟨note', terms, hcommitment', hterms, hfeed⟩ :=
    Run.inFeed hV hL hE h₀ (.cons hrun hcall) hinserted
  obtain rfl := Note.commitment_inj H (hcommitment.symm.trans hcommitment')
  rw [logOf_cons] at hfeed
  exact ⟨note, terms, hcommitment, hattested, fun hlock => ⟨hclaimed hlock, hterms.locked hlock⟩, hfeed⟩

/-! ## The agent holds its note until epoch 9 -/

namespace Sample

noncomputable abbrev hashed := primitives idealHash signs

variable {signed : SpendKey → Plan Unbounded → Prop} (opening : LockOpening Unbounded)

def terms : Fin 2 → LockOpening Unbounded := ![opening, noLock]

/-- The note with a lock, and padding. -/
noncomputable def held : Fin 2 → Note Unbounded :=
  ![⟨ofAddress 9, 1, owner idealHash, ⟨2⟩, lockValue hashed opening⟩, ⟨ofAddress 9, 0, owner idealHash, ⟨3⟩, 0⟩]

noncomputable def holdWitness : TransferWitness Unbounded where
  claim := true
  token := ofAddress 9
  ownerKey := ownerKey
  nk := nk
  claimKey := ownerKey
  signature := signature
  expiry := 777600
  inputs := ![⟨1, 0, 0, noLock, .ofList []⟩, ⟨0, ⟨1⟩, 0, noLock, .ofList []⟩]
  outputs := held opening
  outputLocks := terms opening
  inputAttestation := attestation
  outputAttestations _ := attestation
  feedSecret := ⟨⟨3⟩, 0⟩

noncomputable def holdParams : TransferParams where
  proof := []
  nullifier0 := (nullifier hashed (commitment idealHash) nk).val
  nullifier1 := (nullifier hashed (((holdWitness opening).input hashed (Fin.last 1)).commitment hashed) nk).val
  commitmentOut0 := ((held opening ⟨0, Nat.two_pos⟩).commitment hashed).val
  commitmentOut1 := ((held opening (Fin.last 1)).commitment hashed).val
  commitmentRoot := (commitment idealHash).val
  attestationRoot := (leaf idealHash).val
  epoch := 7
  feedR := words 3
  feedCt i := (encrypt hashed (feedKey hashed (pointOf (words (3 * 2)))) (held opening i.divNat)
    (terms opening i.divNat) i.divNat i.modNat).val
  recipientPayload := []

/-- The plan of the transfer, the same on every chain. -/
noncomputable abbrev holdPlan (w : World (LeanImtTree (merkleHash idealHash)) (Address → Nat)) : Plan Unbounded :=
  transferPlan ((holdParams opening).toPublic sample w) (holdWitness opening)

variable {opening} {w : World (LeanImtTree (merkleHash idealHash)) (Address → Nat)}

theorem commitment_ne {a b : Note Unbounded} (h : a.salt.val ≠ b.salt.val) :
    a.commitment hashed ≠ b.commitment hashed :=
  fun he => h (congrArg (fun note : Note Unbounded => note.salt.val) (Note.commitment_inj idealHash_ideal he))

theorem held_lock : (held opening 0).lock ≠ 0 :=
  idealHash_ideal.ne_zero (List.cons_ne_nil _ _) (show 4 ≤ 5 by decide)

theorem holdMain_ok (hreason : opening.reason = lockFreeze ∨ opening.reason = lockHold)
    (hkey : w.pool.registerKey = words 2)
    (hclaim : w.pool.claimKeyHash = (keyHash hashed ownerKey).val)
    (hsigned : signed ownerKey (holdPlan opening w)) : transferMain (primitives idealHash signed)
        ((holdParams opening).toPublic (deployment idealHash signed) w) (holdWitness opening) = .ok () := by
  have hincluded : merkleVerify idealHash (commitment idealHash) (commitment idealHash)
      ((holdWitness opening).inputs 0).path = .ok () := (merkleVerify_ofList (Nat.zero_le _)).mpr rfl
  simp only [transferMain, assertMaxBitSize, verifySignature, bind_eq_ok, require_eq_ok, onlyIf_eq_ok,
    forM_eq_ok, exists_const, Prod.exists, List.mem_finRange, true_imp_iff]
  have hself : ∀ j, ((holdWitness opening).outputs j).owner = (holdWitness opening).ownerIn hashed :=
    Fin.forall_fin_two.mpr ⟨rfl, rfl⟩
  refine ⟨Compliance.toNat_ofAddress_lt 9, Nat.zero_le _, (), hincluded, rfl, fun h => absurd rfl h, rfl,
    rfl, rfl, rfl, rfl, 1, rfl, 1, rfl, rfl, fun h => Bool.noConfusion h,
    fun j h => absurd (hself j) (h.resolve_left Bool.noConfusion), Scalar.ofNat (words 3).1,
    Scalar.ofNat (words 3).2, feedKey hashed (pointOf (words (3 * 2))), ?_, rfl, fun j => ⟨(), ?_, ?_⟩,
    fun _ => ?_, (), planExpiry_ok (show 691200 ≤ 777600 by decide), ecdsa_ok idealHash _ hsigned⟩
  · show derive _ _ (pointOf w.pool.registerKey) = _
    rw [hkey]
    exact derive_eq idealHash (by decide) (show words 3 ≠ (0, 0) by decide)
  · revert j
    refine Fin.forall_fin_two.mpr ⟨?_, if_pos rfl⟩
    exact (if_neg held_lock).trans (bind_eq_ok.mpr ⟨(), if_pos rfl, if_pos hreason⟩)
  · funext i
    have hi : i.val < 8 := i.isLt
    let slot : Fin (2 * feedFields) := ⟨8 * j.val + i.val, (by omega : 8 * j.val + i.val < 16)⟩
    have hdiv : slot.divNat = j := Fin.ext (show (8 * j.val + i.val) / 8 = j.val by omega)
    have hmod : slot.modNat = i := Fin.ext (show (8 * j.val + i.val) % 8 = i.val by omega)
    show encrypt hashed _ (held opening slot.divNat) (terms opening slot.divNat) slot.divNat.val slot.modNat = _
    rw [hdiv, hmod]
    rfl
  · show _ = Scalar.ofNat w.pool.claimKeyHash
    rw [hclaim]
    rfl

/-- The two outputs go into the tree of the first deposit. -/
theorem exists_inserted {leaves : LeanImtTree (merkleHash idealHash)}
    (hleaves : (leanImt (merkleHash idealHash)).leaves leaves = [commitment idealHash]) : ∃ t₁ t₂,
    (leanImt (merkleHash idealHash)).insert ((held opening 0).commitment hashed) leaves = .ok t₁ ∧
      (leanImt (merkleHash idealHash)).insert ((held opening 1).commitment hashed) t₁ = .ok t₂ := by
  have hinserts : (leanImt (merkleHash idealHash)).Inserts := leanImt_inserts
  have hzero : ∀ a : Note Unbounded, a.commitment hashed ≠ 0 := fun a =>
    idealHash_ideal.ne_zero (List.cons_ne_nil _ _) (show 5 ≤ 5 by decide)
  obtain ⟨t₁, hinsert₁⟩ := hinserts (hzero (held opening 0)) (by
    rw [hleaves, List.mem_singleton]
    exact commitment_ne (show 2 ≠ 0 by decide))
  obtain ⟨t₂, hinsert₂⟩ := hinserts (hzero (held opening 1)) (by
    rw [(leanImt_lawful.insert hinsert₁).2.2, hleaves, List.mem_append, List.mem_singleton,
      List.mem_singleton, not_or]
    exact ⟨commitment_ne (show 3 ≠ 0 by decide), commitment_ne (show 3 ≠ 2 by decide)⟩)
  exact ⟨t₁, t₂, hinsert₁, hinsert₂⟩

/-- The agent deposits its note, and its claim key moves it under the lock. -/
theorem exists_hold (hreason : opening.reason = lockFreeze ∨ opening.reason = lockHold)
    (hdeposits : ∀ plan, plan.nullifiers = (0, 0) → signed ownerKey plan)
    (hholds : ∀ w, signed ownerKey (holdPlan opening w)) :
    ∃ w₀ w w₁ w₂ events, Deployed (deployment idealHash signed) w₀ ∧ w₀.pool.registerKey = words 2 ∧
      Run (Transition (deployment idealHash signed)) w₀ (setupSteps idealHash) w ∧
      Transition (deployment idealHash signed) w (.pool agent (.deposit (depositParams idealHash signed 2 3))
        [.deposit (commitment idealHash).val 1 1 (words 3) (depositParams idealHash signed 2 3).feedCt []]) w₁ ∧
      Transition (deployment idealHash signed) w₁ (.pool agent (.transfer (holdParams opening)) events) w₂ := by
  obtain ⟨w₀, tree, w, hdeployed, hkey, hrun, hattesting, hpool, -, htoken⟩ :=
    exists_setup idealHash idealHash_ideal
  obtain ⟨leaves, events, hroot, rfl, hdeposit⟩ := exists_deposit idealHash idealHash_ideal hdeposits
    hattesting hpool (show 3 < 2 ^ 128 by decide) (show words 3 ≠ (0, 0) by decide) onGrumpkin_words.2.2
    (show 1 ≤ w.token agent by rw [htoken]; decide) (show w.token 10 < 99 by rw [htoken]; decide)
  have hdeposited : Transition (deployment idealHash signed) w
      (.pool agent (.deposit (depositParams idealHash signed 2 3)) _) _ := .pool (agent_ne idealHash) hdeposit
  obtain ⟨t₁, t₂, hinsert₁, hinsert₂⟩ :=
    @exists_inserted opening _ (Run.poolInv (lawful _) hdeployed (hrun.cons hdeposited)).leaves
  have hattesting₁ : Attesting idealHash tree (deposited idealHash signed w leaves) :=
    ⟨hattesting.timestamp, hattesting.registry, hattesting.root⟩
  have hnullifiers : (holdParams opening).nullifier0 ≠ (holdParams opening).nullifier1 := fun h =>
    commitment_ne (show 0 ≠ 1 by decide) (List.cons.inj (idealHash_injective (Scalar.toNat_inj h))).1
  have hfresh : ∀ n, (deposited idealHash signed w leaves).pool.nullifiers n = false :=
    congrFun hpool.nullifiers
  have htransfer : ∃ w₂ events, transfer (deployment idealHash signed) (deposited idealHash signed w leaves)
      (holdParams opening) = .ok (w₂, events) := by
    simp only [transfer, requireNotPaused, checkEpoch, checkFeedPoint, checkAttestationRoot, insertAll,
      List.map_cons, List.map_nil, List.foldlM_cons, List.foldlM_nil, bind_eq_ok, mapErr_eq_ok,
      failIf_eq_ok, requireCanonical_eq_ok, pure_eq_ok, exists_const, not_lt, not_not, not_or,
      Bool.not_eq_false, Bool.not_eq_true, Prod.mk.injEq]
    exact ⟨_, _, hpool.open_.trans_le (Nat.zero_le _), fun _ _ => rfl, (hattesting₁.epoch _).symm,
      onGrumpkin_words.2.2, hnullifiers, ⟨hfresh _, hfresh _⟩,
      isKnownRoot_iff.mpr (.inl (congrArg Scalar.toNat hroot.symm)), hattesting₁.known _,
      accepts_iff.mpr ⟨_, _, TransferParams.inputs_toPublic (show 7 < 2 ^ 64 by decide),
        holdMain_ok hreason hpool.registerKey hpool.claimKeyHash (hholds _)⟩,
      _, ⟨_, ⟨t₁, hinsert₁, t₂, hinsert₂, rfl⟩, rfl⟩, rfl, rfl⟩
  obtain ⟨w₂, events, htransfer⟩ := htransfer
  exact ⟨w₀, w, _, w₂, events, hdeployed, hkey, hrun, hdeposited, .pool (agent_ne _) htransfer⟩

end Sample

open Sample

theorem locks_bind_sample : ∃ w₀ tr w w' events, Deployed sample w₀ ∧ Run (Transition sample) w₀ tr w ∧
    Transition sample w (.pool agent (.transfer (holdParams (.hold 9))) events) w' ∧
    (held (.hold 9) 0).lock ≠ 0 ∧ ∀ leaf ∈ (PoolCall.transfer (holdParams (.hold 9))).leaves, ∃ note terms,
      Scalar.ofNat leaf = Note.commitment sample.toPrimitives note ∧
      Created sample signs agent w (.transfer (holdParams (.hold 9))) tr w₀.pool.registerKey
        (logOf tr ++ events) note terms := by
  obtain ⟨w₀, w, w₁, w₂, events, hdeployed, -, hrun, hdeposit, hhold⟩ :=
    @exists_hold signs (.hold 9) (.inr rfl) (fun plan _ => signs_all plan) fun w => signs_all _
  have hrun' := hrun.cons hdeposit
  exact ⟨w₀, _, w₁, w₂, events, hdeployed, hrun', hhold, held_lock,
    (locks_bind (sound _) idealHash_ideal (lawful _) (signatures _) commutes hdeployed hrun' hhold).2.2⟩

end Pocs.Mmf
