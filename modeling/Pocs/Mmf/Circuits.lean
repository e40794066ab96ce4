import Pocs.Mmf.Gadgets

/-! # The three circuits of the fund

`deposit`, `transfer` and `withdraw`. Public inputs are a structure with the types of the circuit's
parameters; `toFields` lists them in the order of `main`, arrays flattened in place. -/

namespace Pocs.Mmf

open Compliance (merkleVerify assertMaxBitSize ofU64 u64Add)

variable {F : Type} [FeedField F] (P : Primitives F)

/-! ## `deposit` -/

structure DepositPublic (F : Type) where
  commitment : F
  token : F
  units : UInt64
  fundingAddress : F
  attestationRoot : F
  minAcceptedGeneration : UInt64
  epoch : UInt64
  chainId : F
  pool : F
  registerKey : F × F
  feedR : F × F
  feedCt : Fin feedFields → F
  payloadCommitment : F

def DepositPublic.toFields (pub : DepositPublic F) : List F :=
  [pub.commitment, pub.token, ofU64 pub.units, pub.fundingAddress, pub.attestationRoot,
    ofU64 pub.minAcceptedGeneration, ofU64 pub.epoch, pub.chainId, pub.pool, pub.registerKey.1,
    pub.registerKey.2, pub.feedR.1, pub.feedR.2] ++ List.ofFn pub.feedCt ++ [pub.payloadCommitment]

structure DepositWitness (F : Type) where
  ownerKey : SpendKey
  nk : F
  signature : Bytes 64
  expiry : UInt64
  salt : F
  attestationWitness : AttestationWitness F
  feedSecret : FeedSecret F

def depositNote (pub : DepositPublic F) (w : DepositWitness F) : Note F :=
  ⟨pub.token, pub.units, ownerValue P w.ownerKey w.nk, w.salt, 0⟩

def depositPlan (pub : DepositPublic F) (w : DepositWitness F) : Plan F where
  chainId := pub.chainId
  pool := pub.pool
  op := opDeposit
  path := pathOwner
  nullifiers := (0, 0)
  outputs := (pub.commitment, 0)
  publicUnits := ofU64 pub.units
  recipient := pub.fundingAddress
  expiry := w.expiry

def depositMain (pub : DepositPublic F) (w : DepositWitness F) : Except String Unit := do
  assertMaxBitSize 160 pub.token
  assertMaxBitSize 160 pub.fundingAddress
  let note := depositNote P pub w
  require (pub.commitment = note.commitment P) "commitment mismatch"
  attestationVerify P note.owner w.attestationWitness pub.epoch pub.minAcceptedGeneration pub.attestationRoot
  let (derivedR, k) ← derive P w.feedSecret pub.registerKey
  require (pub.feedR = derivedR) "feed mismatch"
  require (pub.feedCt = encrypt P k note noLock 0) "feed mismatch"
  checkExpiry pub.epoch w.expiry
  verifySignature P w.ownerKey w.signature ((depositPlan pub w).digest P)

/-! ## `transfer` -/

structure TransferPublic (F : Type) where
  nullifier0 : F
  nullifier1 : F
  commitmentOut0 : F
  commitmentOut1 : F
  commitmentRoot : F
  attestationRoot : F
  minAcceptedGeneration : UInt64
  epoch : UInt64
  chainId : F
  pool : F
  claimKeyHash : F
  registerKey : F × F
  feedR : F × F
  feedCt : Fin (2 * feedFields) → F
  payloadCommitment : F

def TransferPublic.toFields (pub : TransferPublic F) : List F :=
  [pub.nullifier0, pub.nullifier1, pub.commitmentOut0, pub.commitmentOut1, pub.commitmentRoot,
    pub.attestationRoot, ofU64 pub.minAcceptedGeneration, ofU64 pub.epoch, pub.chainId, pub.pool,
    pub.claimKeyHash, pub.registerKey.1, pub.registerKey.2, pub.feedR.1, pub.feedR.2] ++
    List.ofFn pub.feedCt ++ [pub.payloadCommitment]

/-- The part of the feed of output `j`. -/
def ctSlice {α : Type} (ct : Fin (2 * feedFields) → α) (j : Fin 2) (i : Fin feedFields) : α :=
  ct ⟨feedFields * j.val + i.val, by
    have hj := j.isLt
    have hi : i.val < 8 := i.isLt
    show 8 * j.val + i.val < 16
    omega⟩

structure TransferWitness (F : Type) where
  claim : Bool
  token : F
  ownerKey : SpendKey
  nk : F
  claimKey : SpendKey
  signature : Bytes 64
  expiry : UInt64
  inputs : Fin 2 → InputNote F
  outputs : Fin 2 → Note F
  outputLocks : Fin 2 → LockOpening F
  inputAttestation : AttestationWitness F
  outputAttestations : Fin 2 → AttestationWitness F
  feedSecret : FeedSecret F

def TransferWitness.ownerIn (w : TransferWitness F) : F := ownerValue P w.ownerKey w.nk

/-- The spent note `j`, which may be padding. -/
def TransferWitness.input (w : TransferWitness F) (j : Fin 2) : Note F :=
  (w.inputs j).note w.token (w.ownerIn P)

def transferPlan (pub : TransferPublic F) (w : TransferWitness F) : Plan F where
  chainId := pub.chainId
  pool := pub.pool
  op := opTransfer
  path := if w.claim then pathClaim else pathOwner
  nullifiers := (pub.nullifier0, pub.nullifier1)
  outputs := (pub.commitmentOut0, pub.commitmentOut1)
  publicUnits := 0
  recipient := 0
  expiry := w.expiry

/-- Locked inputs must be released, and no output may carry a lock. -/
def transferOwnerPath (pub : TransferPublic F) (w : TransferWitness F) : Except String Unit := do
  attestationVerify P (w.ownerIn P) w.inputAttestation pub.epoch pub.minAcceptedGeneration pub.attestationRoot
  checkInput P (w.inputs 0).lock (w.inputs 0).lockOpening pub.epoch
  checkInput P (w.inputs 1).lock (w.inputs 1).lockOpening pub.epoch
  require ((w.outputs 0).lock = 0) "owner path cannot create locks"
  require ((w.outputs 1).lock = 0) "owner path cannot create locks"

/-- `main` of the transfer circuit. -/
def transferMain (pub : TransferPublic F) (w : TransferWitness F) : Except String Unit := do
  assertMaxBitSize 160 w.token
  let cIn0 := (w.input P 0).commitment P
  require ((w.inputs 0).path.proofLength ≤ maxCommitmentTreeDepth) "Failed constraint"
  merkleVerify P.hash cIn0 pub.commitmentRoot (w.inputs 0).path
  require (pub.nullifier0 = nullifier P cIn0 w.nk) "nullifier mismatch"
  let cIn1 := (w.input P 1).commitment P
  -- a one-input transfer pads the second input with a zero-unit note; only inclusion is skipped
  onlyIf ((w.inputs 1).units ≠ 0) do
    require ((w.inputs 1).path.proofLength ≤ maxCommitmentTreeDepth) "Failed constraint"
    merkleVerify P.hash cIn1 pub.commitmentRoot (w.inputs 1).path
  require (pub.nullifier1 = nullifier P cIn1 w.nk) "nullifier mismatch"
  require ((w.outputs 0).token = w.token) "token mismatch"
  require ((w.outputs 1).token = w.token) "token mismatch"
  require (pub.commitmentOut0 = (w.outputs 0).commitment P) "commitment mismatch"
  require (pub.commitmentOut1 = (w.outputs 1).commitment P) "commitment mismatch"
  let totalIn ← u64Add (w.inputs 0).units (w.inputs 1).units
  let totalOut ← u64Add (w.outputs 0).units (w.outputs 1).units
  require (totalIn = totalOut) "units not conserved"
  onlyIf (w.claim = false) (transferOwnerPath P pub w)
  (List.finRange 2).forM fun j =>
    onlyIf (w.claim = false ∨ (w.outputs j).owner ≠ w.ownerIn P)
      (attestationVerify P (w.outputs j).owner (w.outputAttestations j) pub.epoch
        pub.minAcceptedGeneration pub.attestationRoot)
  let (derivedR, k) ← derive P w.feedSecret pub.registerKey
  require (pub.feedR = derivedR) "feed mismatch"
  (List.finRange 2).forM fun j => do
    checkTerms P (w.outputs j).lock (w.outputLocks j)
    require (ctSlice pub.feedCt j = encrypt P k (w.outputs j) (w.outputLocks j) j.val) "feed mismatch"
  onlyIf (w.claim = true) (require (keyHash P w.claimKey = pub.claimKeyHash) "claim key mismatch")
  let signer := if w.claim then w.claimKey else w.ownerKey
  checkExpiry pub.epoch w.expiry
  verifySignature P signer w.signature ((transferPlan pub w).digest P)

/-! ## `withdraw` -/

structure WithdrawPublic (F : Type) where
  nullifier : F
  token : F
  units : UInt64
  recipient : F
  commitmentRoot : F
  attestationRoot : F
  minAcceptedGeneration : UInt64
  epoch : UInt64
  chainId : F
  pool : F

def WithdrawPublic.toFields (pub : WithdrawPublic F) : List F :=
  [pub.nullifier, pub.token, ofU64 pub.units, pub.recipient, pub.commitmentRoot,
    pub.attestationRoot, ofU64 pub.minAcceptedGeneration, ofU64 pub.epoch, pub.chainId, pub.pool]

structure WithdrawWitness (F : Type) where
  ownerKey : SpendKey
  nk : F
  signature : Bytes 64
  expiry : UInt64
  input : InputNote F
  attestationWitness : AttestationWitness F

def withdrawNote (pub : WithdrawPublic F) (w : WithdrawWitness F) : Note F :=
  w.input.note pub.token (ownerValue P w.ownerKey w.nk)

def withdrawPlan (pub : WithdrawPublic F) (w : WithdrawWitness F) : Plan F where
  chainId := pub.chainId
  pool := pub.pool
  op := opWithdraw
  path := pathOwner
  nullifiers := (pub.nullifier, 0)
  outputs := (0, 0)
  publicUnits := ofU64 pub.units
  recipient := pub.recipient
  expiry := w.expiry

/-- `main` of the withdrawal circuit. -/
def withdrawMain (pub : WithdrawPublic F) (w : WithdrawWitness F) : Except String Unit := do
  assertMaxBitSize 160 pub.token
  assertMaxBitSize 160 pub.recipient
  require (w.input.units = pub.units) "units mismatch"
  let note := withdrawNote P pub w
  let commitment := note.commitment P
  require (w.input.path.proofLength ≤ maxCommitmentTreeDepth) "Failed constraint"
  merkleVerify P.hash commitment pub.commitmentRoot w.input.path
  require (pub.nullifier = nullifier P commitment w.nk) "nullifier mismatch"
  attestationVerify P note.owner w.attestationWitness pub.epoch pub.minAcceptedGeneration pub.attestationRoot
  checkInput P w.input.lock w.input.lockOpening pub.epoch
  checkExpiry pub.epoch w.expiry
  verifySignature P w.ownerKey w.signature ((withdrawPlan pub w).digest P)

/-! ## What the circuits enforce -/

variable {P}

structure DepositOk (P : Primitives F) (pub : DepositPublic F) (w : DepositWitness F) : Prop where
  commitment : pub.commitment = (depositNote P pub w).commitment P
  attested : AttestationOk P (depositNote P pub w).owner w.attestationWitness pub.epoch
    pub.minAcceptedGeneration pub.attestationRoot
  feed : ∃ k, derive P w.feedSecret pub.registerKey = .ok (pub.feedR, k) ∧
    pub.feedCt = encrypt P k (depositNote P pub w) noLock 0
  expiry : EndsBy pub.epoch w.expiry
  signature : P.ecdsa w.ownerKey w.signature ((depositPlan pub w).digest P) = true

theorem depositMain_ok {pub : DepositPublic F} {w : DepositWitness F}
    (h : depositMain P pub w = .ok ()) : DepositOk P pub w := by
  simp only [depositMain, assertMaxBitSize, verifySignature, bind_eq_ok, require_eq_ok, exists_const,
    Prod.exists] at h
  obtain ⟨-, -, commitment, _, attested, _, _, k, hderive, hR, hct, _, expiry, signature⟩ := h
  exact ⟨commitment, attestationVerify_ok attested, ⟨k, hR ▸ hderive, hct⟩, checkExpiry_ok expiry, signature⟩

structure OwnerPathOk (P : Primitives F) (pub : TransferPublic F) (w : TransferWitness F) : Prop where
  attested : AttestationOk P (w.ownerIn P) w.inputAttestation pub.epoch pub.minAcceptedGeneration
    pub.attestationRoot
  released : ∀ j, checkInput P (w.inputs j).lock (w.inputs j).lockOpening pub.epoch = .ok ()
  unlocked : ∀ j, (w.outputs j).lock = 0

structure TransferOk (P : Primitives F) (pub : TransferPublic F) (w : TransferWitness F) : Prop where
  included0 : merkleVerify P.hash ((w.input P 0).commitment P) pub.commitmentRoot (w.inputs 0).path = .ok ()
  nullifier0 : pub.nullifier0 = nullifier P ((w.input P 0).commitment P) w.nk
  included1 : (w.inputs 1).units ≠ 0 → merkleVerify P.hash ((w.input P 1).commitment P)
    pub.commitmentRoot (w.inputs 1).path = .ok ()
  nullifier1 : pub.nullifier1 = nullifier P ((w.input P 1).commitment P) w.nk
  token : ∀ j, (w.outputs j).token = w.token
  out0 : pub.commitmentOut0 = (w.outputs 0).commitment P
  out1 : pub.commitmentOut1 = (w.outputs 1).commitment P
  conserved : (w.inputs 0).units.toNat + (w.inputs 1).units.toNat =
    (w.outputs 0).units.toNat + (w.outputs 1).units.toNat
  ownerPath : w.claim = false → OwnerPathOk P pub w
  attested : ∀ j, w.claim = false ∨ (w.outputs j).owner ≠ w.ownerIn P →
    AttestationOk P (w.outputs j).owner (w.outputAttestations j) pub.epoch
      pub.minAcceptedGeneration pub.attestationRoot
  feed : ∃ k, derive P w.feedSecret pub.registerKey = .ok (pub.feedR, k) ∧
    ∀ j, ctSlice pub.feedCt j = encrypt P k (w.outputs j) (w.outputLocks j) j.val
  terms : ∀ j, Terms P (w.outputs j).lock (w.outputLocks j)
  claimKey : w.claim = true → keyHash P w.claimKey = pub.claimKeyHash
  expiry : EndsBy pub.epoch w.expiry
  signature : P.ecdsa (if w.claim then w.claimKey else w.ownerKey) w.signature
    ((transferPlan pub w).digest P) = true

theorem transferOwnerPath_ok {pub : TransferPublic F} {w : TransferWitness F}
    (h : transferOwnerPath P pub w = .ok ()) : OwnerPathOk P pub w := by
  simp only [transferOwnerPath, bind_eq_ok, require_eq_ok, exists_const] at h
  obtain ⟨_, attested, _, released0, _, released1, lock0, lock1⟩ := h
  exact ⟨attestationVerify_ok attested, Fin.forall_fin_two.mpr ⟨released0, released1⟩,
    Fin.forall_fin_two.mpr ⟨lock0, lock1⟩⟩

theorem transferMain_ok {pub : TransferPublic F} {w : TransferWitness F}
    (h : transferMain P pub w = .ok ()) : TransferOk P pub w := by
  simp only [transferMain, assertMaxBitSize, verifySignature, bind_eq_ok, require_eq_ok, onlyIf_eq_ok,
    forM_eq_ok, exists_const, Prod.exists, List.mem_finRange, true_imp_iff] at h
  obtain ⟨-, -, _, included0, nullifier0, included1, nullifier1, token0, token1, out0, out1, totalIn,
    hin, totalOut, hout, hconserved, ownerPath, attested, _, _, k, hderive, hR, hfeed, claimKey,
    _, expiry, signature⟩ := h
  replace hfeed : ∀ j, checkTerms P (w.outputs j).lock (w.outputLocks j) = .ok () ∧
      ctSlice pub.feedCt j = encrypt P k (w.outputs j) (w.outputLocks j) j.val := fun j => by
    obtain ⟨_, hterms, hct⟩ := hfeed j
    exact ⟨hterms, hct⟩
  exact
    { included0 := included0
      nullifier0 := nullifier0
      included1 := fun hne => (included1 hne).2
      nullifier1 := nullifier1
      token := Fin.forall_fin_two.mpr ⟨token0, token1⟩
      out0 := out0
      out1 := out1
      conserved := by
        rw [← Compliance.toNat_of_u64Add hin, ← Compliance.toNat_of_u64Add hout, hconserved]
      ownerPath := fun hclaim => transferOwnerPath_ok (ownerPath hclaim)
      attested := fun j hj => attestationVerify_ok (attested j hj)
      feed := ⟨k, hR ▸ hderive, fun j => (hfeed j).2⟩
      terms := fun j => checkTerms_ok (hfeed j).1
      claimKey := claimKey
      expiry := checkExpiry_ok expiry
      signature := signature }

structure WithdrawOk (P : Primitives F) (pub : WithdrawPublic F) (w : WithdrawWitness F) : Prop where
  units : w.input.units = pub.units
  included : merkleVerify P.hash ((withdrawNote P pub w).commitment P) pub.commitmentRoot w.input.path = .ok ()
  nullifier : pub.nullifier = nullifier P ((withdrawNote P pub w).commitment P) w.nk
  attested : AttestationOk P (withdrawNote P pub w).owner w.attestationWitness pub.epoch
    pub.minAcceptedGeneration pub.attestationRoot
  released : checkInput P w.input.lock w.input.lockOpening pub.epoch = .ok ()
  expiry : EndsBy pub.epoch w.expiry
  signature : P.ecdsa w.ownerKey w.signature ((withdrawPlan pub w).digest P) = true

theorem withdrawMain_ok {pub : WithdrawPublic F} {w : WithdrawWitness F}
    (h : withdrawMain P pub w = .ok ()) : WithdrawOk P pub w := by
  simp only [withdrawMain, assertMaxBitSize, verifySignature, bind_eq_ok, require_eq_ok, exists_const] at h
  obtain ⟨-, -, units, -, _, included, nullifier, _, attested, _, released, _, expiry, signature⟩ := h
  exact ⟨units, included, nullifier, attestationVerify_ok attested, released, checkExpiry_ok expiry, signature⟩

end Pocs.Mmf
