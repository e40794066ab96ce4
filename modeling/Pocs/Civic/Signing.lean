import Pocs.Civic.BatchCircuit
import Pocs.Civic.Fsrt
import Pocs.Civic.PredicateEval

/-! # Signing

`signer/core.rs`: `sign` checks the petition against the signer, advances the ratchet to the petition's slot
and then asks the credential layer for a path and the proof backend for a proof. A call that fails behind
the advance has burned the slots it passed: a failed call leaves them alone exactly where a check refused
the petition or the ratchet already was at its slot (`sign_failed_iff`). -/

namespace Pocs.Civic

/-! ## The signer -/

/-- Merkle path of the credential layer; siblings are big-endian. -/
structure RiPath where
  siblings : List Bytes32
  indices : List UInt8

inductive MerkleError where
  | outOfRange (index size : Nat)
  | emptyTree
  | proofFailure (msg : String)

def MerkleError.toString : MerkleError → String
  | .outOfRange index size => s!"leaf index {index} out of range (size {size})"
  | .emptyTree => "empty tree has no proof"
  | .proofFailure msg => s!"merkle proof construction failed: {msg}"

structure SignerCredentials where
  identitySecret : Bytes32
  attrVector : List Bytes32
  riLeafIndex : Nat

structure PetitionMeta where
  petitionId : PetitionId
  rRoot : Bytes32
  predicateHash : Bytes32
  slot : Nat
  classIndex : UInt8
  classTag : ClassTag
  predicateDef : PredicateDef
  salt : Bytes32

structure SignerPrivateInputs where
  identitySecret : Fr
  attrVector : List Fr
  attrVersion : Nat
  chainRoot : Fr
  riPathSiblings : List Fr
  riPathIndices : List UInt8
  sSlot : Fr
  chainPathSiblings : List Fr
  chainPathIndices : List Nat
  salt : Fr
  predicateDef : PredicateDef

inductive SignerError where
  | slotInPast (slot head : Nat)
  | slotOutOfRange (slot chainLen : Nat)
  | riLookup (msg : String)
  | proof (e : ProofError)
  | invariant (msg : String)

structure Signer where
  credentials : SignerCredentials
  chain : SignerChainState Fr

/-- What the credential layer and the proof backend answer. -/
structure SignerPorts where
  merklePath : Nat → Except MerkleError RiPath
  generateSignerProof : SignerPublicInputs → SignerPrivateInputs → Except ProofError (List UInt8)

/-- `nullifier = Poseidon1(DOMAIN_NULLIFIER, v_slot, petition_id, class_index, class_tag, identity_secret)`. -/
def hashNullifier (P : Poseidon Fr) (vSlot petitionId classIndex classTag identitySecret : Fr) : Fr :=
  P.hash6 (Scalar.ofNat 1) vSlot petitionId classIndex classTag identitySecret

/-- `identity_tag = Poseidon1(DOMAIN_IDTAG, v_slot, petition_id)`. -/
def hashIdentityTag (P : Poseidon Fr) (vSlot petitionId : Fr) : Fr :=
  P.hash3 (Scalar.ofNat 2) vSlot petitionId

def SignerChainState.chainLen {F : Type} (chain : SignerChainState F) : Nat := chain.vValues.length

namespace Signer

section
variable (P : Poseidon Fr) (ports : SignerPorts) (petition : PetitionMeta)

/-- `attr_vector_fr`. -/
def attrs (self : Signer) : List Fr := self.credentials.attrVector.map fun b => frFromBeBytes b.1

def classTagFr (petition : PetitionMeta) : Fr := Scalar.ofNat petition.classTag.toNat

/-- The checks before the ratchet is advanced. -/
def checkMeta (self : Signer) : Except SignerError Unit := do
  failIf (petition.slot < self.chain.t) (.slotInPast petition.slot self.chain.t)
  let chainLen := self.chain.chainLen
  failIf (petition.slot ≥ chainLen) (.slotOutOfRange petition.slot chainLen)
  let (classIndex, attrCount) := (petition.classIndex, self.attrs.length)
  let attrAtIdx ← okOr self.attrs[classIndex.toNat]?
    (.invariant s!"class_index {classIndex} out of range (attr_count {attrCount})")
  failIf (attrAtIdx ≠ classTagFr petition)
    (.invariant s!"class binding mismatch: attr[{classIndex}] != class_tag")

def publicInputs (self : Signer) (vSlot : Fr) : SignerPublicInputs where
  rRoot := frFromBeBytes petition.rRoot.1
  petitionId := frFromBeBytes petition.petitionId.1
  predicateHash := frFromBeBytes petition.predicateHash.1
  classIndex := Scalar.ofNat petition.classIndex.toNat
  classTag := classTagFr petition
  slot := Scalar.ofNat petition.slot
  nullifier := hashNullifier P vSlot (frFromBeBytes petition.petitionId.1)
    (Scalar.ofNat petition.classIndex.toNat) (classTagFr petition)
    (frFromBeBytes self.credentials.identitySecret.1)
  identityTag := hashIdentityTag P vSlot (frFromBeBytes petition.petitionId.1)

def privateInputs (self : Signer) (chain : SignerChainState Fr) (riPath : RiPath) : SignerPrivateInputs where
  identitySecret := frFromBeBytes self.credentials.identitySecret.1
  attrVector := self.attrs
  attrVersion := chain.attrVersion
  chainRoot := chain.chainRoot
  riPathSiblings := riPath.siblings.map fun b => frFromBeBytes b.1
  riPathIndices := riPath.indices
  sSlot := chain.sAt petition.slot
  chainPathSiblings := (chain.merklePathForCurrentSlot P).1
  chainPathIndices := (chain.merklePathForCurrentSlot P).2
  salt := frFromBeBytes petition.salt.1
  predicateDef := petition.predicateDef

open Method in
/-- Per-signature generation; an error keeps the advance of the ratchet. -/
def sign : Method Signer SignerError SignerSubmission := do
  let self ← get
  ofExcept (checkMeta petition self)
  let chain ← orPanic (self.chain.advanceTo P petition.slot)
  set { self with chain }
  let vSlot ← orPanic chain.vAtCurrentSlot
  let pi := publicInputs P petition self vSlot
  let riPath ← ofExcept (mapErr (fun e => .riLookup e.toString) (ports.merklePath self.credentials.riLeafIndex))
  let proofBytes ← ofExcept (mapErr .proof
    (ports.generateSignerProof pi (privateInputs P petition self chain riPath)))
  return {
    petitionId := petition.petitionId
    rRoot := petition.rRoot
    predicateHash := petition.predicateHash
    classIndex := petition.classIndex
    slot := petition.slot
    nullifier := frToBeBytes pi.nullifier
    identityTag := frToBeBytes pi.identityTag
    classTag := petition.classTag
    proofBytes := proofBytes }

end

section
variable {P : Poseidon Fr} {ports : SignerPorts} {petition : PetitionMeta} {signer signer' : Signer} {e : SignerError}

/-! ## The checks and the advance -/

/-- The petition's class tag is the signer's attribute at the class index. -/
def BindsClass (petition : PetitionMeta) (signer : Signer) : Prop :=
  signer.attrs[petition.classIndex.toNat]? = some (classTagFr petition)

theorem checkMeta_eq_ok {u : Unit} : checkMeta petition signer = .ok u ↔
    signer.chain.t ≤ petition.slot ∧ petition.slot < signer.chain.chainLen ∧ BindsClass petition signer := by
  simp only [checkMeta, bind_eq_ok, failIf_eq_ok, okOr_eq_ok, exists_const, not_lt, ge_iff_le, not_le,
    not_not, BindsClass]
  constructor
  · rintro ⟨hle, hlt, attr, hattr, rfl⟩
    exact ⟨hle, hlt, hattr⟩
  · rintro ⟨hle, hlt, hattr⟩
    exact ⟨hle, hlt, _, hattr, rfl⟩

theorem advanceSteps_t {k : Nat} {chain chain' : SignerChainState Fr}
    (h : chain.advanceSteps P k = some chain') : chain'.t = chain.t + k := by
  induction k generalizing chain with
  | zero => exact (Option.some.inj h) ▸ rfl
  | succ k ih =>
    simp only [SignerChainState.advanceSteps, Option.bind_eq_bind, Option.bind_eq_some_iff] at h
    obtain ⟨v, -, c, -, h⟩ := h
    rw [ih h, Nat.add_right_comm, Nat.add_assoc]

theorem advanceTo_t {chain chain' : SignerChainState Fr} {slot : Nat}
    (h : chain.advanceTo P slot = some chain') : chain'.t = slot ∧ (slot = chain.t → chain' = chain) := by
  simp only [SignerChainState.advanceTo, Option.bind_eq_bind, Option.bind_eq_some_iff, guard_eq_some] at h
  obtain ⟨_, -, _, hle, h⟩ := h
  refine ⟨by rw [advanceSteps_t h]; omega, fun heq => ?_⟩
  rw [heq, Nat.sub_self] at h
  exact (Option.some.inj h).symm

/-- Where a call fails, and the signer it leaves. -/
theorem sign_error (h : sign P ports petition signer = some (.error e, signer')) :
    checkMeta petition signer = .error e ∧ signer' = signer ∨
      checkMeta petition signer = .ok () ∧ ∃ chain, signer.chain.advanceTo P petition.slot = some chain ∧
        signer' = { signer with chain } := by
  rw [sign, Method.get_bind] at h
  rcases Method.bind_eq_some.mp h with ⟨u, s, hchecked, h⟩ | ⟨e, hcheck, he⟩
  · obtain ⟨hok, rfl⟩ := Method.ofExcept_eq_some.mp hchecked
    refine .inr ⟨hok, ?_⟩
    rcases Method.bind_eq_some.mp h with ⟨chain, s, hchain, h⟩ | ⟨e, hchain, -⟩
    · obtain ⟨⟨_, hadvance, hc⟩, rfl⟩ := Method.orPanic_eq_some.mp hchain
      cases hc
      refine ⟨chain, hadvance, ?_⟩
      -- no port writes to the signer
      rw [Method.set_bind] at h
      rcases Method.bind_eq_some.mp h with ⟨v, s, hv, h⟩ | ⟨e, hv, -⟩
      · obtain ⟨-, rfl⟩ := Method.orPanic_eq_some.mp hv
        rcases Method.bind_eq_some.mp h with ⟨path, s, hpath, h⟩ | ⟨e, hpath, -⟩
        · obtain ⟨-, rfl⟩ := Method.ofExcept_eq_some.mp hpath
          rcases Method.bind_eq_some.mp h with ⟨proof, s, -, h⟩ | ⟨e, hproof, -⟩
          · cases h
          · exact (Method.ofExcept_eq_some.mp hproof).2.symm
        · exact (Method.ofExcept_eq_some.mp hpath).2.symm
      · exact (Method.orPanic_eq_some.mp hv).2.symm
    · obtain ⟨⟨_, -, hc⟩, -⟩ := Method.orPanic_eq_some.mp hchain
      cases hc
  · obtain ⟨herr, rfl⟩ := Method.ofExcept_eq_some.mp hcheck
    cases he
    exact .inl ⟨herr, rfl⟩

/-- A call whose ports answer signs. -/
theorem exists_sign {chain : SignerChainState Fr} {v : Fr} {riPath : RiPath}
    (hcheck : checkMeta petition signer = .ok ())
    (hadvance : signer.chain.advanceTo P petition.slot = some chain) (hv : chain.vAtCurrentSlot = some v)
    (hpath : ports.merklePath signer.credentials.riLeafIndex = .ok riPath)
    (hproof : ∀ pi, ∃ proof, ports.generateSignerProof pi (privateInputs P petition signer chain riPath) =
      .ok proof) :
    ∃ submission, sign P ports petition signer = some (.ok submission, { signer with chain }) := by
  obtain ⟨proof, hproof⟩ := hproof (publicInputs P petition signer v)
  rw [sign, Method.get_bind, Method.ofExcept_ok_bind hcheck, Method.orPanic_bind hadvance, Method.set_bind,
    Method.orPanic_bind hv, hpath, mapErr, Method.ofExcept_ok_bind rfl, hproof, mapErr,
    Method.ofExcept_ok_bind rfl]
  exact ⟨_, rfl⟩

/-- The ratchet is where it was, and so is every later signature of a slot that was not behind it. -/
structure Unburnt (P : Poseidon Fr) (signer signer' : Signer) : Prop where
  t : signer'.chain.t = signer.chain.t
  caterpillar : signer'.chain.caterpillar = signer.chain.caterpillar
  later : ∀ ports petition, signer.chain.t ≤ petition.slot →
    sign P ports petition signer' = sign P ports petition signer

/-- A failed call leaves the slots alone exactly where the ratchet did not have to move for the petition's
slot, or a check refused the petition. -/
theorem sign_failed_iff (h : sign P ports petition signer = some (.error e, signer')) :
    Unburnt P signer signer' ↔ petition.slot ≤ signer.chain.t ∨
      signer.chain.chainLen ≤ petition.slot ∨ ¬ BindsClass petition signer := by
  rcases sign_error h with ⟨hcheck, rfl⟩ | ⟨hcheck, chain, hadvance, rfl⟩
  · refine iff_of_true ⟨rfl, rfl, fun _ _ _ => rfl⟩ ?_
    by_contra hnot
    rw [not_or, not_or, not_le, not_le, not_not] at hnot
    have hok := (checkMeta_eq_ok (u := ())).mpr ⟨hnot.1.le, hnot.2⟩
    rw [hok] at hcheck
    cases hcheck
  · obtain ⟨hle, hlt, hbinds⟩ := checkMeta_eq_ok.mp hcheck
    obtain ⟨ht, hsame⟩ := advanceTo_t hadvance
    constructor
    · intro hunburnt
      exact .inl (ht.symm.trans hunburnt.t).le
    · rintro (hslot | hlen | hnot)
      · obtain rfl := hsame (le_antisymm hslot hle)
        exact ⟨rfl, rfl, fun _ _ _ => rfl⟩
      · exact absurd hlt (not_lt.mpr hlen)
      · exact absurd hbinds hnot

end

/-! ### A signer of class 100 with two slots -/

namespace Sample
open Civic.Sample (poseidon)

def signer : Signer := ⟨⟨.zero 32, [.ofNat 32 100], 0⟩, .enroll poseidon (Scalar.ofNat 5) 2 0⟩

/-- A predicate of `count` tuples, of which the first is evaluated. -/
def predicateDef (count : Nat) : PredicateDef :=
  ⟨List.replicate count ⟨0, .ofNat 32 100, .int64, .eq⟩, [⟨.pushTuple, 0⟩]⟩

def petition (slot count : Nat) : PetitionMeta :=
  ⟨.zero 32, .zero 32, .zero 32, slot, 0, 100, predicateDef count, .zero 32⟩

def ports : SignerPorts where
  merklePath _ := .ok ⟨[], []⟩
  generateSignerProof _ witness := do
    let _ ← signerProgram witness.predicateDef
    pure []

theorem checkMeta_ok {slot count : Nat} (hslot : slot < 2) :
    checkMeta (petition slot count) signer = .ok () := by
  refine checkMeta_eq_ok.mpr ⟨Nat.zero_le _, hslot, ?_⟩
  show some (frFromBeBytes (Bytes.ofNat 32 100).1 : Fr) = some (Scalar.ofNat 100)
  decide +kernel

/-- The ratchet at slot 1. -/
theorem exists_advanced : ∃ chain v, signer.chain.advanceTo poseidon 1 = some chain ∧ chain.t = 1 ∧
    chain.vAtCurrentSlot = some v :=
  ⟨_, _, rfl, rfl, rfl⟩

/-- A predicate of 21 tuples is refused by the prover, with the ratchet at the slot of the petition. -/
theorem exists_refused {slot : Nat} {chain : SignerChainState Fr} {v : Fr} (hslot : slot < 2)
    (hadvance : signer.chain.advanceTo poseidon slot = some chain) (hv : chain.vAtCurrentSlot = some v) :
    ∃ e, sign poseidon ports (petition slot 21) signer = some (.error e, { signer with chain }) := by
  obtain ⟨e, he⟩ : ∃ e, signerProgram (predicateDef 21) = .error e := ⟨_, rfl⟩
  refine ⟨.proof e, ?_⟩
  rw [sign, Method.get_bind]
  refine (Method.ofExcept_ok_bind (checkMeta_ok hslot) _).trans ?_
  refine (Method.orPanic_bind hadvance _).trans ?_
  refine (Method.orPanic_bind hv _).trans ?_
  refine (Method.ofExcept_ok_bind rfl _).trans ?_
  refine Method.ofExcept_error_bind ?_ _
  rw [mapErr_eq_error]
  exact ⟨e, bind_eq_error.mpr (.inl he), rfl⟩

end Sample

/-- Slot 0 was signable, and is behind the ratchet after a failed call for slot 1. -/
theorem sign_burns : ∃ e signer' submission signer'',
    sign Civic.Sample.poseidon Sample.ports (Sample.petition 1 21) Sample.signer = some (.error e, signer') ∧
    signer'.chain.t ≠ Sample.signer.chain.t ∧
    sign Civic.Sample.poseidon Sample.ports (Sample.petition 0 1) Sample.signer =
      some (.ok submission, signer'') ∧ sign Civic.Sample.poseidon Sample.ports (Sample.petition 0 1) signer' =
      some (.error (.slotInPast 0 1), signer') := by
  obtain ⟨chain, v, hadvance, ht, hv⟩ := Sample.exists_advanced
  obtain ⟨e, hfailed⟩ := Sample.exists_refused Nat.one_lt_two hadvance hv
  obtain ⟨submission, signer'', hsigned⟩ : ∃ submission signer'',
      sign Civic.Sample.poseidon Sample.ports (Sample.petition 0 1) Sample.signer =
        some (.ok submission, signer'') := by
    obtain ⟨v, hv⟩ : ∃ v, Sample.signer.chain.vAtCurrentSlot = some v := ⟨_, rfl⟩
    obtain ⟨submission, h⟩ := @exists_sign Civic.Sample.poseidon Sample.ports (Sample.petition 0 1)
      Sample.signer _ v _ (Sample.checkMeta_ok Nat.two_pos) rfl hv rfl fun _ => ⟨[], rfl⟩
    exact ⟨submission, _, h⟩
  refine ⟨e, _, submission, signer'', hfailed, fun heq => ?_, hsigned, ?_⟩
  · have hone : 1 = Sample.signer.chain.t := ht.symm.trans heq
    cases hone
  · have hpast : checkMeta (Sample.petition 0 1) { Sample.signer with chain } = .error (.slotInPast 0 1) := by
      have hlt : (Sample.petition 0 1).slot < chain.t := by
        rw [ht]
        exact Nat.one_pos
      simp only [checkMeta]
      rw [failIf_pos hlt, ht]
      rfl
    rw [sign, Method.get_bind]
    exact Method.ofExcept_error_bind hpast _

/-- The same call at slot 0, where the ratchet does not move. -/
theorem sign_failed_iff_sample : ∃ e signer',
    sign Civic.Sample.poseidon Sample.ports (Sample.petition 0 21) Sample.signer =
      some (.error e, signer') ∧ Unburnt Civic.Sample.poseidon Sample.signer signer' := by
  obtain ⟨v, hv⟩ : ∃ v, Sample.signer.chain.vAtCurrentSlot = some v := ⟨_, rfl⟩
  obtain ⟨e, h⟩ := @Sample.exists_refused 0 Sample.signer.chain v Nat.two_pos rfl hv
  exact ⟨e, _, h, (sign_failed_iff h).mpr (.inl (Nat.le_refl _))⟩

end Signer

end Pocs.Civic
