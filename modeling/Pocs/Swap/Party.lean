import Pocs.Swap.Coordinator

/-! # The parties' side of a swap

`prepare_lock` and `prepare_claim` of `party.rs` over the derivations of `crypto/stealth.rs` and
`crypto/salt.rs`. The random values of a call are arguments. A scalar of the curve is its integer below
the order. -/

namespace Pocs.Swap

open Compliance (BnField Word binaryMerkleRoot merkleHash MerklePath)
open Compliance.BnField (canonical_of_lt ofNat_toNat toNat_ofNat_of_canonical)

section
variable {F P : Type} [BnField F] [AddCommGroup P]

/-! ## Keys -/

structure MetaKeyPair (E : EmbeddedCurve F P) where
  sk : Nat
  sk_lt : sk < E.order
  pk : P
  pk_eq : pk = sk • E.generator

structure EphemeralKeyPair (E : EmbeddedCurve F P) where
  r : Nat
  r_lt : r < E.order
  rPub : P
  rPub_eq : rPub = r • E.generator

section
variable (hash : List F → F) (E : EmbeddedCurve F P)

def affineXToB256 (p : P) : Word := Scalar.toNat (E.x p)

def affineYToB256 (p : P) : Word := Scalar.toNat (E.y p)

/-- Reduction modulo the order of the curve. -/
def b256ToGrumpkinScalar (value : Word) : Nat := value % E.order

/-! ## `crypto/stealth.rs` -/

def ecdhSharedSecretX (p : P) (k : Nat) : Word := affineXToB256 E (k • p)

/-- `H(DOMAIN_STEALTH, shared.x)` as a scalar of the curve. -/
def stealthScalar (sharedX : Word) : Nat :=
  b256ToGrumpkinScalar E (Scalar.toNat (hash [domainStealth, Scalar.ofNat sharedX]))

/-- `derive_stealth_pubkey`, without the scalar that it returns as well. -/
def deriveStealthPubkey (pkMeta : P) (r : Nat) : P :=
  pkMeta + stealthScalar hash E (ecdhSharedSecretX E pkMeta r) • E.generator

def deriveStealthSecret (skMeta : Nat) (rPub : P) : Nat :=
  (skMeta + stealthScalar hash E (ecdhSharedSecretX E rPub skMeta)) % E.order

def scalarToLoHi (scalar : Nat) : Word × Word := (scalar % 2 ^ 128, scalar / 2 ^ 128)

/-! ## `crypto/salt.rs` -/

/-- `mask_253` on the bytes of a word. -/
def maskWord (v : Word) : Word := v % 2 ^ 253

def encryptSalt (salt sharedX : Word) : Word :=
  salt ^^^ maskWord (Scalar.toNat (hash [domainSaltEnc, Scalar.ofNat sharedX]))

def decryptSalt (encryptedSalt sharedX : Word) : Word := encryptSalt hash encryptedSalt sharedX

/-! ## `party.rs` -/

inductive PartyRole where
  | a
  | b
  deriving DecidableEq, Repr

structure CommitmentMerkleProof where
  path : List Word
  indices : List Nat
  leafIndex : Nat
  proofLength : Nat

/-- `pad_merkle_proof`, resized to the depth of the circuit as the prover does. -/
def padMerkleProof (proof : CommitmentMerkleProof) : MerklePath Word maxDepth where
  proofLength := proof.proofLength
  indices i := proof.indices.getD i.val 0 = 1
  path i := proof.path.getD i.val 0

/-- The witness of `ports/mod.rs`, the public inputs apart. -/
structure PreparedWitness where
  pub : TransferPublic Word
  wit : TransferWitness Word

structure LockOutput where
  lockedNote : Note Word
  witness : PreparedWitness
  submission : PartySubmission

structure ClaimOutput where
  outputNote : Note Word
  witness : PreparedWitness

def nullifierWord (note : Note Word) : Word :=
  Scalar.toNat (hash [domainNullifier, Scalar.ofNat (commitmentHash hash note), Scalar.ofNat note.salt])

/-- `prepare_lock`, with the ephemeral key and the salt it draws. -/
def prepareLock (terms : SwapTerms) (ownMetaKey : MetaKeyPair E) (counterpartyPkMeta : P)
    (inputNote : Note Word) (proof : CommitmentMerkleProof) (root : Word)
    (ephemeral : EphemeralKeyPair E) (salt : Word) : LockOutput :=
  let pkStealthX := affineXToB256 E (deriveStealthPubkey hash E counterpartyPkMeta ephemeral.r)
  let lockedNote : Note Word :=
    { chainId := inputNote.chainId
      value := inputNote.value
      assetId := inputNote.assetId
      owner := pkStealthX
      fallbackOwner := affineXToB256 E ownMetaKey.pk
      timeout := terms.timeout
      salt }
  let sharedX := ecdhSharedSecretX E counterpartyPkMeta ephemeral.r
  let encryptedSalt := encryptSalt hash salt sharedX
  let pkMetaX := affineXToB256 E counterpartyPkMeta
  { lockedNote
    witness :=
      { pub :=
          { nullifier := nullifierWord hash inputNote
            root
            newCommitment := commitmentHash hash lockedNote
            timeout := lockedNote.timeout
            pkStealth := pkStealthX
            hSwap := bindSwap hash terms.swapId salt
            hR := bindR hash (affineXToB256 E ephemeral.rPub)
            hMeta := bindMeta hash pkMetaX salt
            hEnc := bindEnc hash encryptedSalt }
        wit :=
          { skLo := (scalarToLoHi ownMetaKey.sk).1
            skHi := (scalarToLoHi ownMetaKey.sk).2
            input := inputNote
            path := padMerkleProof proof
            output := lockedNote
            extras :=
              { swapId := terms.swapId
                rLo := (scalarToLoHi ephemeral.r).1
                rHi := (scalarToLoHi ephemeral.r).2
                pkMetaX
                pkMetaY := affineYToB256 E counterpartyPkMeta
                encryptedSalt } } }
    submission :=
      { swapId := terms.swapId
        nonce := terms.nonce
        ephemeralPubkey := affineXToB256 E ephemeral.rPub
        encryptedSalt
        noteDetails := lockedNote } }

structure ClaimParams where
  encryptedSalt : Word
  lockedChainId : Word
  lockedValue : UInt64
  lockedAssetId : Word
  fallbackOwnerX : Word

def claimParams (ann : SwapAnnouncement) (terms : SwapTerms) : PartyRole → ClaimParams
  | .a => ⟨ann.encryptedSaltB, terms.chainIdB, terms.valueB, terms.assetIdB, terms.pkMetaB⟩
  | .b => ⟨ann.encryptedSaltA, terms.chainIdA, terms.valueA, terms.assetIdA, terms.pkMetaA⟩

/-- The locked note that `prepare_claim` reconstructs. -/
def claimedNote (ann : SwapAnnouncement) (ownMetaKey : MetaKeyPair E) (counterpartyRPub : P)
    (terms : SwapTerms) (role : PartyRole) : Note Word :=
  let params := claimParams ann terms role
  let sharedX := ecdhSharedSecretX E counterpartyRPub ownMetaKey.sk
  let skStealth := deriveStealthSecret hash E ownMetaKey.sk counterpartyRPub
  { chainId := params.lockedChainId
    value := params.lockedValue
    assetId := params.lockedAssetId
    owner := affineXToB256 E (skStealth • E.generator)
    fallbackOwner := params.fallbackOwnerX
    timeout := terms.timeout
    salt := decryptSalt hash params.encryptedSalt sharedX }

/-- `prepare_claim`, with the salt that it draws for the output note. -/
def prepareClaim (ann : SwapAnnouncement) (ownMetaKey : MetaKeyPair E) (counterpartyRPub : P)
    (terms : SwapTerms) (role : PartyRole) (proof : CommitmentMerkleProof) (root : Word)
    (salt : Word) : ClaimOutput :=
  let lockedNote := claimedNote hash E ann ownMetaKey counterpartyRPub terms role
  let skStealth := deriveStealthSecret hash E ownMetaKey.sk counterpartyRPub
  let outputNote : Note Word :=
    { chainId := lockedNote.chainId
      value := lockedNote.value
      assetId := lockedNote.assetId
      owner := affineXToB256 E ownMetaKey.pk
      fallbackOwner := 0
      timeout := 0
      salt }
  { outputNote
    witness :=
      { pub :=
          { nullifier := nullifierWord hash lockedNote
            root
            newCommitment := commitmentHash hash outputNote
            timeout := lockedNote.timeout
            pkStealth := lockedNote.owner
            hSwap := 0
            hR := 0
            hMeta := 0
            hEnc := 0 }
        wit :=
          { skLo := (scalarToLoHi skStealth).1
            skHi := (scalarToLoHi skStealth).2
            input := lockedNote
            path := padMerkleProof proof
            output := outputNote
            extras := ⟨0, 0, 0, 0, 0, 0⟩ } } }

end

/-! ## The witness in the circuit -/

def TransferPublic.toField (pub : TransferPublic Word) : TransferPublic F where
  nullifier := Scalar.ofNat pub.nullifier
  root := Scalar.ofNat pub.root
  newCommitment := Scalar.ofNat pub.newCommitment
  timeout := Scalar.ofNat pub.timeout
  pkStealth := Scalar.ofNat pub.pkStealth
  hSwap := Scalar.ofNat pub.hSwap
  hR := Scalar.ofNat pub.hR
  hMeta := Scalar.ofNat pub.hMeta
  hEnc := Scalar.ofNat pub.hEnc

def pathToField (path : MerklePath Word maxDepth) : MerklePath F maxDepth where
  proofLength := path.proofLength
  indices := path.indices
  path i := Scalar.ofNat (path.path i)

def LockExtras.toField (extras : LockExtras Word) : LockExtras F where
  swapId := Scalar.ofNat extras.swapId
  rLo := Scalar.ofNat extras.rLo
  rHi := Scalar.ofNat extras.rHi
  pkMetaX := Scalar.ofNat extras.pkMetaX
  pkMetaY := Scalar.ofNat extras.pkMetaY
  encryptedSalt := Scalar.ofNat extras.encryptedSalt

def TransferWitness.toField (wit : TransferWitness Word) : TransferWitness F where
  skLo := Scalar.ofNat wit.skLo
  skHi := Scalar.ofNat wit.skHi
  input := wit.input.toField
  path := pathToField wit.path
  output := wit.output.toField
  extras := wit.extras.toField

/-- `main` on the witness that the prover is given. -/
def PreparedWitness.main (hash : List F → F) (E : EmbeddedCurve F P) (prepared : PreparedWitness) :
    Except String Unit :=
  Swap.main hash E prepared.pub.toField prepared.wit.toField

variable {hash : List F → F} {E : EmbeddedCurve F P}

omit [AddCommGroup P] in
theorem ofNat_affineXToB256 (p : P) : (Scalar.ofNat (affineXToB256 E p) : F) = E.x p :=
  ofNat_toNat _

theorem ofNat_nullifierWord (note : Note Word) :
    (Scalar.ofNat (nullifierWord hash note) : F) = note.toField.nullifier hash := by
  rw [nullifierWord, ofNat_toNat, commitmentHash_eq, ofNat_toNat]
  rfl

theorem ofNat_commitmentHash (note : Note Word) :
    (Scalar.ofNat (commitmentHash hash note) : F) = computeCommitment hash note.toField :=
  ofNat_toNat _

theorem value_scalarToLoHi {scalar : Nat} (h : scalar < 2 ^ 256) :
    (EmbeddedCurveScalar.mk (Scalar.ofNat (scalarToLoHi scalar).1 : F)
      (Scalar.ofNat (scalarToLoHi scalar).2)).value = scalar := by
  have hlo : scalar % 2 ^ 128 < 2 ^ 161 := (Nat.mod_lt _ (by decide)).trans (by decide)
  have hhi : scalar / 2 ^ 128 < 2 ^ 161 := by
    apply Nat.div_lt_of_lt_mul
    exact h.trans (by decide)
  rw [EmbeddedCurveScalar.value, scalarToLoHi, toNat_ofNat_of_canonical (canonical_of_lt hlo),
    toNat_ofNat_of_canonical (canonical_of_lt hhi)]
  exact Nat.mod_add_div scalar (2 ^ 128)

end

/-! ## What `prepare_lock` builds -/

section
variable {F P : Type} [ByteField F] [AddCommGroup P] {hash : List F → F} {E : EmbeddedCurve F P}

theorem value_fieldToScalar (f : F) : (fieldToScalar f).value = Scalar.toNat f := by
  have hlo : Scalar.toNat f % 2 ^ 128 < 2 ^ 161 := (Nat.mod_lt _ (by decide)).trans (by decide)
  rw [EmbeddedCurveScalar.value, fieldToScalar, toNat_ofNat_of_canonical (canonical_of_lt hlo),
    toNat_ofNat_of_canonical (ByteField.canonical_div f)]
  exact Nat.mod_add_div _ _

theorem toNat_mask253 (f : F) : Scalar.toNat (mask253 f) = maskWord (Scalar.toNat f) :=
  toNat_ofNat_of_canonical (ByteField.canonical_of_lt_253 (Nat.mod_lt _ (by decide)))

/-- The salt fits the xor, and the locked note has an owner and a timeout. -/
structure Lockable (hash : List F → F) (E : EmbeddedCurve F P) (terms : SwapTerms)
    (ownMetaKey : MetaKeyPair E) (counterpartyPkMeta : P) (inputNote : Note Word)
    (ephemeral : EphemeralKeyPair E) (salt : Word) : Prop where
  owner : inputNote.owner = affineXToB256 E ownMetaKey.pk
  standard : inputNote.timeout = 0
  timeout : (Scalar.ofNat terms.timeout : F) ≠ 0
  salt_lt : salt < 2 ^ 253
  pkMeta_ne : counterpartyPkMeta ≠ 0
  stealth_ne : E.x (deriveStealthPubkey hash E counterpartyPkMeta ephemeral.r) ≠ 0

/-- A path leads from the commitment of the note to the root. -/
def Included (hash : List F → F) (commitment : Word) (proof : CommitmentMerkleProof) (root : Word) :
    Prop :=
  let path : MerklePath F maxDepth := pathToField (padMerkleProof proof)
  binaryMerkleRoot (merkleHash hash) (Scalar.ofNat commitment) path.proofLength path.indices path.path =
    Scalar.ofNat root

variable {terms : SwapTerms} {ownMetaKey : MetaKeyPair E} {counterpartyPkMeta : P}
  {inputNote : Note Word} {ephemeral : EphemeralKeyPair E} {proof : CommitmentMerkleProof}
  {root salt : Word}

theorem toNat_ofNat_of_lt_253 {n : Nat} (h : n < 2 ^ 253) : Scalar.toNat (Scalar.ofNat n : F) = n :=
  toNat_ofNat_of_canonical (ByteField.canonical_of_lt_253 h)

theorem encryptSalt_lt {sharedX : Word} (h : salt < 2 ^ 253) : encryptSalt hash salt sharedX < 2 ^ 253 :=
  Nat.xor_lt_two_pow h (Nat.mod_lt _ (by decide))

theorem Lockable.bound (h : Lockable hash E terms ownMetaKey counterpartyPkMeta inputNote ephemeral salt)
    (hE : E.Lawful) :
    let prepared := (prepareLock hash E terms ownMetaKey counterpartyPkMeta inputNote proof root
      ephemeral salt).witness
    Bound hash E prepared.pub.toField (prepared.wit.output.toField) prepared.wit.extras.toField := by
  intro prepared
  have hvalue : (EmbeddedCurveScalar.mk (prepared.wit.extras.toField : LockExtras F).rLo
      prepared.wit.extras.toField.rHi).value = ephemeral.r :=
    value_scalarToLoHi (ephemeral.r_lt.trans hE.order_lt)
  have hshared : (Scalar.ofNat (ecdhSharedSecretX E counterpartyPkMeta ephemeral.r) : F) =
      E.x (ephemeral.r • counterpartyPkMeta) := ofNat_affineXToB256 _
  refine ⟨⟨counterpartyPkMeta, ?_, ?_, ?_⟩, rfl, ?_, ?_, ?_, ?_⟩
  · exact hE.point_eq.mpr ⟨h.pkMeta_ne, (ofNat_affineXToB256 _).symm, (ofNat_toNat _).symm⟩
  · rw [hvalue, EmbeddedCurve.fixedBaseScalarMul, value_fieldToScalar]
    refine Eq.trans ?_ (ofNat_affineXToB256 _).symm
    rw [deriveStealthPubkey, stealthScalar, b256ToGrumpkinScalar, hE.mod_smul, hshared]
  · rw [hvalue]
    refine xorFields_eq_ok.mpr ⟨?_, ?_⟩
    all_goals
      rw [toNat_mask253, ← hshared]
      show _ = _
    · rw [show Scalar.toNat (prepared.wit.output.toField : Note F).salt = salt from
        toNat_ofNat_of_lt_253 h.salt_lt]
      rfl
    · rw [show Scalar.toNat (prepared.wit.output.toField : Note F).salt = salt from
        toNat_ofNat_of_lt_253 h.salt_lt]
      exact toNat_ofNat_of_lt_253 (encryptSalt_lt h.salt_lt)
  · exact (ofNat_toNat _).symm
  · rw [EmbeddedCurve.fixedBaseScalarMul, hvalue, ← ephemeral.rPub_eq, ← ofNat_affineXToB256]
    exact (ofNat_toNat _).symm
  · exact (ofNat_toNat _).symm
  · exact (ofNat_toNat _).symm

/-- The witness of a lock satisfies the circuit, and its public inputs select the lock. -/
theorem Lockable.main (h : Lockable hash E terms ownMetaKey counterpartyPkMeta inputNote ephemeral salt)
    (H : IdealHash hash) (hE : E.Lawful)
    (hincluded : Included hash (commitmentHash hash inputNote) proof root) :
    let prepared := (prepareLock hash E terms ownMetaKey counterpartyPkMeta inputNote proof root
      ephemeral salt).witness
    prepared.main hash E = .ok () ∧ (prepared.pub.toField : TransferPublic F).mode = .lock := by
  intro prepared
  have hswap : (prepared.pub.toField : TransferPublic F).hSwap ≠ 0 := by
    rw [show (prepared.pub.toField : TransferPublic F).hSwap = _ from ofNat_toNat _]
    exact H.ne_zero (List.cons_ne_nil _ _) (Nat.le_of_ble_eq_true rfl)
  have hstealth : (prepared.pub.toField : TransferPublic F).pkStealth ≠ 0 := by
    rw [show (prepared.pub.toField : TransferPublic F).pkStealth = _ from ofNat_affineXToB256 _]
    exact h.stealth_ne
  have hzero : (prepared.wit.input.toField : Note F).timeout = 0 := by
    show (Scalar.ofNat inputNote.timeout : F) = 0
    rw [h.standard]
    rfl
  have hkey : (prepared.wit.toField : TransferWitness F).key E = prepared.wit.input.toField.owner := by
    rw [TransferWitness.key, derivePublicKey, EmbeddedCurve.fixedBaseScalarMul]
    show E.x ((EmbeddedCurveScalar.mk (Scalar.ofNat (scalarToLoHi _).1)
      (Scalar.ofNat (scalarToLoHi _).2)).value • _) = Scalar.ofNat inputNote.owner
    rw [value_scalarToLoHi (ownMetaKey.sk_lt.trans hE.order_lt), ← ownMetaKey.pk_eq, h.owner,
      ofNat_affineXToB256]
  refine ⟨main_eq_ok.mpr ⟨?_, ofNat_nullifierWord _, ofNat_commitmentHash _, rfl, rfl, rfl,
    assertMode_lock h.timeout hstealth hswap hkey rfl hzero, fun _ => h.bound hE⟩, ?_⟩
  · rw [Included, ofNat_commitmentHash] at hincluded
    exact hincluded
  · have htimeout : (prepared.pub.toField : TransferPublic F).timeout ≠ 0 := h.timeout
    rw [TransferPublic.mode, if_neg htimeout, if_pos hstealth, if_pos hswap]

end

/-! ## Matching submissions -/

def PartyRole.counterparty : PartyRole → PartyRole
  | .a => .b
  | .b => .a

@[simp] theorem PartyRole.counterparty_counterparty (i : PartyRole) : i.counterparty.counterparty = i := by
  cases i <;> rfl

@[simp] theorem PartyRole.counterparty_ne (i : PartyRole) : i.counterparty ≠ i := by
  cases i <;> exact PartyRole.noConfusion

@[simp] theorem PartyRole.ne_counterparty (i : PartyRole) : i ≠ i.counterparty :=
  i.counterparty_ne.symm

theorem PartyRole.eq_or_counterparty (i j : PartyRole) : j = i ∨ j = i.counterparty := by
  cases i <;> cases j <;> decide

/-- What belongs to A and what belongs to B. -/
def byRole {α : Type} (a b : α) : PartyRole → α
  | .a => a
  | .b => b

section
variable {F : Type} [BnField F]

structure Matching (hash : List F → F) (terms : SwapTerms) (submissions : PartyRole → PartySubmission)
    (lockData : PartyRole → SwapLockData) : Prop where
  swapId : ∀ i, (submissions i).swapId = terms.swapId
  nonce : ∀ i, (submissions i).nonce = terms.nonce
  timeout : ∀ i, (submissions i).noteDetails.timeout = terms.timeout
  opens : ∀ i, OpensLock hash (submissions i) (lockData i) terms.swapId
    (submissions i.counterparty).noteDetails.fallbackOwner
  recomputes : recomputes hash terms.timeout terms.nonce terms.swapId (submissions .a) (submissions .b) = true

def Announces (hash : List F → F) (terms : SwapTerms) (submissions : PartyRole → PartySubmission)
    (ann : SwapAnnouncement) : Prop :=
  ∃ i, recomputes hash terms.timeout terms.nonce terms.swapId (submissions i)
      (submissions i.counterparty) = true ∧
    ann = announcementOf terms.swapId (submissions i) (submissions i.counterparty)

variable {hash : List F → F} {terms : SwapTerms} {submissions : PartyRole → PartySubmission}
  {lockData : PartyRole → SwapLockData} {C S : Type}

/-- The submissions verify in the order of the swap id. -/
theorem Matching.verifySwap_of_recomputes (h : Matching hash terms submissions lockData) {i : PartyRole}
    (hrecomputes : Swap.recomputes hash terms.timeout terms.nonce terms.swapId (submissions i)
      (submissions i.counterparty) = true) :
    verifySwap (C := C) (S := S) hash (submissions i) (submissions i.counterparty) (lockData i)
      (lockData i.counterparty) =
        .ok (announcementOf terms.swapId (submissions i) (submissions i.counterparty)) := by
  have hopens' := h.opens i.counterparty
  rw [PartyRole.counterparty_counterparty] at hopens'
  refine verifySwap_of_roles (a := (_, _)) (b := (_, _)) (h.swapId _) (h.swapId _)
    ((h.nonce _).trans (h.nonce _).symm) ?_ (h.opens i) hopens' ((h.timeout _).trans (h.timeout _).symm)
  rw [h.timeout, h.nonce]
  exact if_pos hrecomputes

/-- The verification succeeds in both orders. -/
theorem Matching.verifySwap (h : Matching hash terms submissions lockData) (i : PartyRole) :
    ∃ ann, verifySwap (C := C) (S := S) hash (submissions i) (submissions i.counterparty) (lockData i)
      (lockData i.counterparty) = .ok ann ∧ Announces hash terms submissions ann := by
  by_cases hfirst : Swap.recomputes hash terms.timeout terms.nonce terms.swapId (submissions i)
      (submissions i.counterparty) = true
  · exact ⟨_, h.verifySwap_of_recomputes hfirst, i, hfirst, rfl⟩
  · have hsecond : Swap.recomputes hash terms.timeout terms.nonce terms.swapId (submissions i.counterparty)
        (submissions i) = true := by
      have hmatching := h.recomputes
      cases i with
      | a => exact absurd hmatching hfirst
      | b => exact hmatching
    have hopens' := h.opens i.counterparty
    rw [PartyRole.counterparty_counterparty] at hopens'
    refine ⟨announcementOf terms.swapId (submissions i.counterparty) (submissions i), ?_,
      i.counterparty, ?_, ?_⟩
    · refine verifySwap_of_roles (a := (_, _)) (b := (_, _)) (h.swapId _) (h.swapId _)
        ((h.nonce _).trans (h.nonce _).symm) ?_ hopens' (h.opens i) ((h.timeout _).trans (h.timeout _).symm)
      rw [h.timeout, h.nonce]
      exact (if_neg hfirst).trans (if_pos hsecond)
    · rw [PartyRole.counterparty_counterparty]
      exact hsecond
    · rw [PartyRole.counterparty_counterparty]

end

/-! ## Two prepared locks -/

/-- The event of the transfer that is proven with the witness. -/
def PreparedWitness.lockData (prepared : PreparedWitness) : SwapLockData where
  commitment := prepared.pub.newCommitment
  timeout := prepared.pub.timeout
  pkStealth := prepared.pub.pkStealth
  hSwap := prepared.pub.hSwap
  hR := prepared.pub.hR
  hMeta := prepared.pub.hMeta
  hEnc := prepared.pub.hEnc

section
variable {F P : Type} [BnField F] [AddCommGroup P] {hash : List F → F} {E : EmbeddedCurve F P}
  {terms : SwapTerms} {ownA ownB : MetaKeyPair E} {pointA pointB : P}
  {noteA noteB : Note Word} {proofA proofB : CommitmentMerkleProof} {rootA rootB saltA saltB : Word}
  {ephemeralA ephemeralB : EphemeralKeyPair E}

/-- The id is the hash of the terms. -/
def SwapTerms.Derived (hash : List F → F) (terms : SwapTerms) : Prop :=
  terms.swapId = swapIdHash hash terms.valueA terms.assetIdA terms.chainIdA terms.valueB terms.assetIdB
    terms.chainIdB terms.timeout terms.pkMetaA terms.pkMetaB terms.nonce

omit [AddCommGroup P] in
theorem SwapTerms.new_derived {chainIdA chainIdB assetIdA assetIdB timeout pkMetaA pkMetaB nonce : Word}
    {valueA valueB : UInt64} : (SwapTerms.new hash chainIdA chainIdB valueA valueB assetIdA assetIdB
      timeout pkMetaA pkMetaB nonce).Derived hash := rfl

/-- What the role gives and whom it is for. -/
structure Gives (E : EmbeddedCurve F P) (note : Note Word) (own : MetaKeyPair E) (point : P)
    (chainId : Word) (value : UInt64) (assetId pkMeta pkMeta' : Word) : Prop where
  chainId : note.chainId = chainId
  value : note.value = value
  assetId : note.assetId = assetId
  pkMeta : affineXToB256 E own.pk = pkMeta
  counterparty : affineXToB256 E point = pkMeta'

/-- What the two parties prepare for the agreed terms matches. -/
theorem matching_prepareLock (hderived : terms.Derived hash)
    (hA : Gives E noteA ownA pointA terms.chainIdA terms.valueA terms.assetIdA terms.pkMetaA terms.pkMetaB)
    (hB : Gives E noteB ownB pointB terms.chainIdB terms.valueB terms.assetIdB terms.pkMetaB terms.pkMetaA) :
    let a := prepareLock hash E terms ownA pointA noteA proofA rootA ephemeralA saltA
    let b := prepareLock hash E terms ownB pointB noteB proofB rootB ephemeralB saltB
    Matching hash terms (byRole a.submission b.submission) (byRole a.witness.lockData b.witness.lockData) := by
  intro a b
  refine ⟨fun i => ?_, fun i => ?_, fun i => ?_, fun i => ?_, ?_⟩
  · cases i <;> rfl
  · cases i <;> rfl
  · cases i <;> rfl
  · cases i with
    | a =>
      refine ⟨rfl, rfl, rfl, ?_, rfl, rfl⟩
      show bindMeta hash (affineXToB256 E ownB.pk) saltA = bindMeta hash (affineXToB256 E pointA) saltA
      rw [hB.pkMeta, hA.counterparty]
    | b =>
      refine ⟨rfl, rfl, rfl, ?_, rfl, rfl⟩
      show bindMeta hash (affineXToB256 E ownA.pk) saltB = bindMeta hash (affineXToB256 E pointB) saltB
      rw [hA.pkMeta, hB.counterparty]
  · rw [recomputes, decide_eq_true_iff, hderived]
    show swapIdHash hash noteA.value noteA.assetId noteA.chainId noteB.value noteB.assetId noteB.chainId
      terms.timeout (affineXToB256 E ownA.pk) (affineXToB256 E ownB.pk) terms.nonce = _
    rw [hA.value, hA.assetId, hA.chainId, hA.pkMeta, hB.value, hB.assetId, hB.chainId, hB.pkMeta]

end

/-! ## A swap in a group of seven points -/

namespace Seven

/-- A collision-free hash that is one modulo seven. -/
def shiftHash (xs : List Unbounded) : Unbounded := ⟨7 * Encodable.encode (xs.map Unbounded.val) + 1⟩

theorem shiftHash_ideal : IdealHash shiftHash where
  inj _ _ _ _ h := by
    have hval := Nat.eq_of_mul_eq_mul_left (show 0 < 7 by decide) (Nat.succ.inj (congrArg Unbounded.val h))
    exact List.map_injective_iff.mpr (fun _ _ h => Scalar.toNat_inj h) (Encodable.encode_injective hval)
  ne_zero _ _ h := Nat.succ_ne_zero _ (congrArg Unbounded.val h)

abbrev curve : EmbeddedCurve Unbounded (ZMod 7) := cyclicCurve Unbounded

theorem stealthScalar_eq (x : Word) : stealthScalar shiftHash curve x = 1 := by
  show (7 * _ + 1) % 7 = 1
  rw [Nat.mul_add_mod]

theorem deriveStealthPubkey_eq (p : ZMod 7) (r : Nat) : deriveStealthPubkey shiftHash curve p r = p + 1 := by
  rw [deriveStealthPubkey, stealthScalar_eq, one_smul]
  rfl

def metaKey (sk : Nat) (h : sk < 7) : MetaKeyPair curve := ⟨sk, h, sk • curve.generator, rfl⟩

theorem two_lt_seven : 2 < 7 := by decide

def keyA : MetaKeyPair curve := metaKey 2 two_lt_seven

def keyB : MetaKeyPair curve := metaKey 3 (by decide)

def ephemeral : EphemeralKeyPair curve := ⟨1, by decide, 1 • curve.generator, rfl⟩

def noteOf (key : MetaKeyPair curve) (chainId : Word) (value : UInt64) (assetId : Word) : Note Word :=
  ⟨chainId, value, assetId, affineXToB256 curve key.pk, 0, 0, 7⟩

def terms : SwapTerms := SwapTerms.new shiftHash 1 2 1000 50 1 2 86400 (affineXToB256 curve keyA.pk)
  (affineXToB256 curve keyB.pk) 255

def lockFor (own : MetaKeyPair curve) (point : ZMod 7) (note : Note Word) : LockOutput :=
  prepareLock shiftHash curve terms own point note ⟨[], [], 0, 0⟩ (commitmentHash shiftHash note) ephemeral 9

def lockA : LockOutput := lockFor keyA keyB.pk (noteOf keyA 1 1000 1)

def lockB (point : ZMod 7) : LockOutput := lockFor keyB point (noteOf keyB 2 50 2)

/-- Both points with the x-coordinate of the key of A match. -/
theorem matching {point : ZMod 7} (hx : affineXToB256 curve point = affineXToB256 curve keyA.pk) :
    Matching shiftHash terms (byRole lockA.submission (lockB point).submission)
      (byRole lockA.witness.lockData (lockB point).witness.lockData) :=
  matching_prepareLock SwapTerms.new_derived ⟨rfl, rfl, rfl, rfl, rfl⟩ ⟨rfl, rfl, rfl, rfl, hx⟩

def announcement (b : LockOutput) : SwapAnnouncement :=
  announcementOf terms.swapId lockA.submission b.submission

/-- The verification sees the x-coordinate of the point only. -/
theorem verifySwap_eq {C S : Type} {point : ZMod 7}
    (hx : affineXToB256 curve point = affineXToB256 curve keyA.pk) :
    verifySwap (C := C) (S := S) shiftHash lockA.submission (lockB point).submission
      lockA.witness.lockData (lockB point).witness.lockData = .ok (announcement (lockB point)) :=
  (matching hx).verifySwap_of_recomputes (i := .a) (matching hx).recomputes

end Seven

end Pocs.Swap
