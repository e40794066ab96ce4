import Pocs.Swap.Field
import Pocs.Compliance.Gadgets

/-! # The transfer circuit

`circuits/transfer/src/main.nr`: one circuit for the four ways to spend a note. `main` returns the
first assertion that fails. `mainOk` is what the constraints say in each mode; only `lock` reaches the
binding constraints, as the other modes assert `h_swap == 0`. -/

namespace Pocs.Swap

open Compliance (BnField ofU64 binaryMerkleRoot merkleHash MerklePath)

variable {F P : Type} [BnField F] [AddCommGroup P]

def maxDepth : Nat := 20

/-! ## Domain separation tags -/

def domainCommitment : F :=
  Scalar.ofNat 0x109594dc3faa33ceeeac5e46d290040cdf090cb9883904d1337a9cb26e19a5
def domainNullifier : F :=
  Scalar.ofNat 0x225cbdfee768405fd834228dc85d2f6d1f18901486e2f5c8f1a204fccbb393
def domainStealth : F :=
  Scalar.ofNat 0x89c0b4bea509c4509d7c93f962f79cddfb03f7a8056b159df275ec7e4e6852
def domainSaltEnc : F :=
  Scalar.ofNat 0xa55fbcf2316286f724b5fbfb530d536e3829c23ad2d1bd01b87792f785bcc4
def domainBindSwap : F :=
  Scalar.ofNat 0x558e73d4477300526f0e29f920a317a62cc425034408d58be6dbe7fc484751
def domainBindR : F :=
  Scalar.ofNat 0xb4965ea4c1b3f9e13c36a32782935c2a1b3c49ec54e201de5f4133f2548a94
def domainBindMeta : F :=
  Scalar.ofNat 0xf3241b2bffce1dd293f941d327f2ce2189f7d423501f0dd76a7da8c407502a
def domainBindEnc : F :=
  Scalar.ofNat 0xd0779ead2e71428d9e8ef698a01482d8f344b17244792086fdc32bdfdf67dd

/-! ## Notes -/

structure Note (F : Type) where
  chainId : F
  value : UInt64
  assetId : F
  owner : F
  fallbackOwner : F
  timeout : F
  salt : F

section
variable (hash : List F → F)

def computeCommitment (note : Note F) : F :=
  hash [domainCommitment, note.chainId, ofU64 note.value, note.assetId, note.owner,
    note.fallbackOwner, note.timeout, note.salt]

def computeNullifier (commitment salt : F) : F := hash [domainNullifier, commitment, salt]

def Note.nullifier (note : Note F) : F := computeNullifier hash (computeCommitment hash note) note.salt

variable {hash}

theorem computeCommitment_inj (H : IdealHash hash) {note note' : Note F}
    (h : computeCommitment hash note = computeCommitment hash note') : note = note' := by
  have hfields := H.inj (by simp) (by simp) (by simp) (by simp) h
  simp only [List.cons.injEq, and_true, true_and] at hfields
  obtain ⟨hchain, hvalue, hasset, howner, hfallback, htimeout, hsalt⟩ := hfields
  cases note
  cases note'
  cases hchain
  cases Compliance.ofU64_inj hvalue
  cases hasset
  cases howner
  cases hfallback
  cases htimeout
  cases hsalt
  rfl

theorem Note.nullifier_inj (H : IdealHash hash) {note note' : Note F}
    (h : note.nullifier hash = note'.nullifier hash) : note = note' := by
  have hfields := H.inj (by simp) (by simp) (by simp) (by simp) h
  simp only [List.cons.injEq, and_true, true_and] at hfields
  exact computeCommitment_inj H hfields.1

/-- A commitment is no node of a tree. -/
theorem computeCommitment_ne_merkleHash (H : IdealHash hash) (note : Note F) (l r : F) :
    computeCommitment hash note ≠ merkleHash hash l r :=
  H.ne_of_length (by simp) (by simp) (by simp) (by simp) (by simp)

end

/-! ## Gadgets -/

/-- `assert(c)`. -/
def noirAssert (c : Prop) [Decidable c] : Except String Unit := require c "Failed assertion"

omit [BnField F] in
@[simp] theorem noirAssert_eq_ok {c : Prop} [Decidable c] {u : Unit} : noirAssert c = .ok u ↔ c :=
  require_eq_ok

def verifyMerkleInclusion (hash : List F → F) (leaf root : F) (path : MerklePath F maxDepth) :
    Except String Unit :=
  let computedRoot := binaryMerkleRoot (merkleHash hash) leaf path.proofLength path.indices path.path
  noirAssert (computedRoot = root)

def derivePublicKey (E : EmbeddedCurve F P) (skLo skHi : F) : P := E.fixedBaseScalarMul ⟨skLo, skHi⟩

/-- `field_to_scalar`: the upper and the lower 128 bits. -/
def fieldToScalar (f : F) : EmbeddedCurveScalar F :=
  ⟨Scalar.ofNat (Scalar.toNat f % 2 ^ 128), Scalar.ofNat (Scalar.toNat f / 2 ^ 128)⟩

def mask253 (f : F) : F := Scalar.ofNat (Scalar.toNat f % 2 ^ 253)

/-- `xor_fields`, which rejects a result that is not canonical. -/
def xorFields (a b : F) : Except String F := do
  let xorBytes := Scalar.toNat a ^^^ Scalar.toNat b
  let result : F := Scalar.ofNat xorBytes
  noirAssert (Scalar.toNat result = xorBytes)
  pure result

/-! ## `main` -/

/-- The public inputs, in the order of the circuit. -/
structure TransferPublic (F : Type) where
  nullifier : F
  root : F
  newCommitment : F
  timeout : F
  pkStealth : F
  hSwap : F
  hR : F
  hMeta : F
  hEnc : F

/-- What only a lock uses. -/
structure LockExtras (F : Type) where
  swapId : F
  rLo : F
  rHi : F
  pkMetaX : F
  pkMetaY : F
  encryptedSalt : F

structure TransferWitness (F : Type) where
  skLo : F
  skHi : F
  input : Note F
  path : MerklePath F maxDepth
  output : Note F
  extras : LockExtras F

def assertLockExtrasZero (extras : LockExtras F) : Except String Unit := do
  noirAssert (extras.swapId = 0)
  noirAssert (extras.rLo = 0)
  noirAssert (extras.rHi = 0)
  noirAssert (extras.pkMetaX = 0)
  noirAssert (extras.pkMetaY = 0)
  noirAssert (extras.encryptedSalt = 0)

/-- Which of the four operations the public inputs are, and what each asserts. -/
def assertMode (pub : TransferPublic F) (derivedPkX : F) (wit : TransferWitness F) : Except String Unit :=
  if pub.timeout = 0 then do
    noirAssert (derivedPkX = wit.input.owner)
    noirAssert (pub.timeout = wit.input.timeout)
    noirAssert (pub.pkStealth = 0)
    noirAssert (pub.hSwap = 0)
    noirAssert (pub.hR = 0)
    noirAssert (pub.hMeta = 0)
    noirAssert (pub.hEnc = 0)
    assertLockExtrasZero wit.extras
  else if pub.pkStealth ≠ 0 then do
    noirAssert (derivedPkX = wit.input.owner)
    if pub.hSwap ≠ 0 then do
      noirAssert (pub.timeout = wit.output.timeout)
      -- only standard notes can be locked
      noirAssert (wit.input.timeout = 0)
    else do
      noirAssert (pub.timeout = wit.input.timeout)
      noirAssert (pub.pkStealth = wit.input.owner)
      noirAssert (pub.hR = 0)
      noirAssert (pub.hMeta = 0)
      noirAssert (pub.hEnc = 0)
      assertLockExtrasZero wit.extras
  else do
    noirAssert (derivedPkX = wit.input.fallbackOwner)
    noirAssert (pub.timeout = wit.input.timeout)
    noirAssert (pub.hSwap = 0)
    noirAssert (pub.hR = 0)
    noirAssert (pub.hMeta = 0)
    noirAssert (pub.hEnc = 0)
    assertLockExtrasZero wit.extras

/-- The binding constraints of a lock. The point of `pk_meta` has to be on the curve. -/
def assertBindings (hash : List F → F) (E : EmbeddedCurve F P) (pub : TransferPublic F)
    (output : Note F) (extras : LockExtras F) : Except String Unit := do
  let rScalar : EmbeddedCurveScalar F := ⟨extras.rLo, extras.rHi⟩
  let pkMeta ← okOr (E.point extras.pkMetaX extras.pkMetaY) "Failed constraint"
  let shared := rScalar.value • pkMeta
  let stealthHash := hash [domainStealth, E.x shared]
  let stealthG := E.fixedBaseScalarMul (fieldToScalar stealthHash)
  let pkStealthDerived := pkMeta + stealthG
  noirAssert (E.x pkStealthDerived = pub.pkStealth)
  noirAssert (output.owner = pub.pkStealth)
  noirAssert (hash [domainBindSwap, extras.swapId, output.salt] = pub.hSwap)
  let bigR := E.fixedBaseScalarMul rScalar
  noirAssert (hash [domainBindR, E.x bigR] = pub.hR)
  noirAssert (hash [domainBindMeta, extras.pkMetaX, output.salt] = pub.hMeta)
  let encKey := mask253 (hash [domainSaltEnc, E.x shared])
  let computedEncSalt ← xorFields output.salt encKey
  noirAssert (computedEncSalt = extras.encryptedSalt)
  noirAssert (hash [domainBindEnc, extras.encryptedSalt] = pub.hEnc)

def main (hash : List F → F) (E : EmbeddedCurve F P) (pub : TransferPublic F)
    (wit : TransferWitness F) : Except String Unit := do
  let inCommitment := computeCommitment hash wit.input
  verifyMerkleInclusion hash inCommitment pub.root wit.path
  noirAssert (pub.nullifier = computeNullifier hash inCommitment wit.input.salt)
  let outCommitment := computeCommitment hash wit.output
  noirAssert (pub.newCommitment = outCommitment)
  noirAssert (wit.input.value = wit.output.value)
  noirAssert (wit.input.assetId = wit.output.assetId)
  noirAssert (wit.input.chainId = wit.output.chainId)
  let derivedPk := derivePublicKey E wit.skLo wit.skHi
  assertMode pub (E.x derivedPk) wit
  onlyIf (pub.hSwap ≠ 0) (assertBindings hash E pub wit.output wit.extras)

/-! ## What the constraints say -/

inductive Mode where
  | transfer
  | lock
  | claim
  | refund
  deriving DecidableEq, Repr

def TransferPublic.mode (pub : TransferPublic F) : Mode :=
  if pub.timeout = 0 then .transfer
  else if pub.pkStealth ≠ 0 then if pub.hSwap ≠ 0 then .lock else .claim
  else .refund

/-- The x-coordinate of the key that the spender knows. -/
def TransferWitness.key (E : EmbeddedCurve F P) (wit : TransferWitness F) : F :=
  E.x (derivePublicKey E wit.skLo wit.skHi)

/-- The constraints of a lock on its output note. -/
structure Bound (hash : List F → F) (E : EmbeddedCurve F P) (pub : TransferPublic F)
    (output : Note F) (extras : LockExtras F) : Prop where
  stealth : ∃ pkMeta, E.point extras.pkMetaX extras.pkMetaY = some pkMeta ∧
    E.x (pkMeta + E.fixedBaseScalarMul (fieldToScalar (hash [domainStealth,
      E.x ((EmbeddedCurveScalar.mk extras.rLo extras.rHi).value • pkMeta)]))) = pub.pkStealth ∧
    xorFields output.salt (mask253 (hash [domainSaltEnc,
      E.x ((EmbeddedCurveScalar.mk extras.rLo extras.rHi).value • pkMeta)])) = .ok extras.encryptedSalt
  owner : output.owner = pub.pkStealth
  hSwap : hash [domainBindSwap, extras.swapId, output.salt] = pub.hSwap
  hR : hash [domainBindR, E.x (E.fixedBaseScalarMul ⟨extras.rLo, extras.rHi⟩)] = pub.hR
  hMeta : hash [domainBindMeta, extras.pkMetaX, output.salt] = pub.hMeta
  hEnc : hash [domainBindEnc, extras.encryptedSalt] = pub.hEnc

/-- The constraints of each mode on the notes and the key. -/
inductive Moded (hash : List F → F) (E : EmbeddedCurve F P) (pub : TransferPublic F)
    (wit : TransferWitness F) : Mode → Prop where
  | transfer (zero : pub.timeout = 0) (key : wit.key E = wit.input.owner)
    (timeout : wit.input.timeout = 0) (hSwap : pub.hSwap = 0) : Moded hash E pub wit .transfer
  | lock (timeout_ne : pub.timeout ≠ 0) (pkStealth_ne : pub.pkStealth ≠ 0) (hSwap_ne : pub.hSwap ≠ 0)
    (key : wit.key E = wit.input.owner) (output : pub.timeout = wit.output.timeout)
    (standard : wit.input.timeout = 0) (bound : Bound hash E pub wit.output wit.extras) :
    Moded hash E pub wit .lock
  | claim (timeout_ne : pub.timeout ≠ 0) (pkStealth_ne : pub.pkStealth ≠ 0) (hSwap : pub.hSwap = 0)
    (key : wit.key E = wit.input.owner) (timeout : pub.timeout = wit.input.timeout)
    (owner : pub.pkStealth = wit.input.owner) : Moded hash E pub wit .claim
  | refund (timeout_ne : pub.timeout ≠ 0) (pkStealth : pub.pkStealth = 0) (hSwap : pub.hSwap = 0)
    (key : wit.key E = wit.input.fallbackOwner) (timeout : pub.timeout = wit.input.timeout) :
    Moded hash E pub wit .refund

/-- What the circuit asserts. -/
structure MainOk (hash : List F → F) (E : EmbeddedCurve F P) (pub : TransferPublic F)
    (wit : TransferWitness F) : Prop where
  included : binaryMerkleRoot (merkleHash hash) (computeCommitment hash wit.input) wit.path.proofLength
    wit.path.indices wit.path.path = pub.root
  nullifier : pub.nullifier = wit.input.nullifier hash
  created : pub.newCommitment = computeCommitment hash wit.output
  value : wit.input.value = wit.output.value
  assetId : wit.input.assetId = wit.output.assetId
  chainId : wit.input.chainId = wit.output.chainId
  moded : Moded hash E pub wit pub.mode

variable {hash : List F → F} {E : EmbeddedCurve F P} {pub : TransferPublic F} {wit : TransferWitness F}

theorem xorFields_eq_ok {a b c : F} : xorFields a b = .ok c ↔
    (Scalar.ofNat (Scalar.toNat a ^^^ Scalar.toNat b) : F) = c ∧
      Scalar.toNat c = Scalar.toNat a ^^^ Scalar.toNat b := by
  simp only [xorFields, bind_eq_ok, noirAssert_eq_ok, pure_eq_ok, exists_const]
  constructor
  · rintro ⟨hcanonical, rfl⟩
    exact ⟨rfl, hcanonical⟩
  · rintro ⟨rfl, hcanonical⟩
    exact ⟨hcanonical, rfl⟩

theorem assertBindings_eq_ok {output : Note F} {extras : LockExtras F} :
    assertBindings hash E pub output extras = .ok () ↔ Bound hash E pub output extras := by
  simp only [assertBindings, bind_eq_ok, okOr_eq_ok, noirAssert_eq_ok, exists_const]
  constructor
  · rintro ⟨pkMeta, hpoint, hstealth, howner, hswap, hr, hmeta, encryptedSalt, hxor, rfl, henc⟩
    exact ⟨⟨pkMeta, hpoint, hstealth, hxor⟩, howner, hswap, hr, hmeta, henc⟩
  · intro h
    obtain ⟨pkMeta, hpoint, hstealth, hxor⟩ := h.stealth
    exact ⟨pkMeta, hpoint, hstealth, h.owner, h.hSwap, h.hR, h.hMeta, _, hxor, rfl, h.hEnc⟩

theorem assertMode_ok (h : assertMode pub (wit.key E) wit = .ok ())
    (hbound : pub.hSwap ≠ 0 → Bound hash E pub wit.output wit.extras) : Moded hash E pub wit pub.mode := by
  unfold assertMode at h
  unfold TransferPublic.mode
  split at h
  · next hzero =>
    simp only [bind_eq_ok, noirAssert_eq_ok, exists_const] at h
    obtain ⟨hkey, htimeout, -, hswap, -⟩ := h
    rw [if_pos hzero]
    exact .transfer hzero hkey (htimeout ▸ hzero) hswap
  · next hzero =>
    rw [if_neg hzero]
    split at h
    · next hstealth =>
      rw [if_pos hstealth]
      simp only [bind_eq_ok, noirAssert_eq_ok, exists_const] at h
      obtain ⟨hkey, h⟩ := h
      split at h
      · next hswap =>
        simp only [bind_eq_ok, noirAssert_eq_ok, exists_const] at h
        rw [if_pos hswap]
        exact .lock hzero hstealth hswap hkey h.1 h.2 (hbound hswap)
      · next hswap =>
        simp only [bind_eq_ok, noirAssert_eq_ok, exists_const] at h
        rw [if_neg hswap]
        exact .claim hzero hstealth (not_not.mp hswap) hkey h.1 h.2.1
    · next hstealth =>
      simp only [bind_eq_ok, noirAssert_eq_ok, exists_const] at h
      obtain ⟨hkey, htimeout, hswap, -⟩ := h
      rw [if_neg hstealth]
      exact .refund hzero (not_not.mp hstealth) hswap hkey htimeout

theorem main_eq_ok : main hash E pub wit = .ok () ↔
    binaryMerkleRoot (merkleHash hash) (computeCommitment hash wit.input) wit.path.proofLength
      wit.path.indices wit.path.path = pub.root ∧
    pub.nullifier = wit.input.nullifier hash ∧ pub.newCommitment = computeCommitment hash wit.output ∧
    wit.input.value = wit.output.value ∧ wit.input.assetId = wit.output.assetId ∧
    wit.input.chainId = wit.output.chainId ∧ assertMode pub (wit.key E) wit = .ok () ∧
    (pub.hSwap ≠ 0 → Bound hash E pub wit.output wit.extras) := by
  simp only [main, verifyMerkleInclusion, bind_eq_ok, noirAssert_eq_ok, onlyIf_eq_ok, exists_const,
    exists_and_right, assertBindings_eq_ok]
  constructor
  · rintro ⟨hincluded, hnullifier, hcreated, hvalue, hasset, hchain, ⟨_, hmode⟩, hbound⟩
    exact ⟨hincluded, hnullifier, hcreated, hvalue, hasset, hchain, hmode, hbound⟩
  · rintro ⟨hincluded, hnullifier, hcreated, hvalue, hasset, hchain, hmode, hbound⟩
    exact ⟨hincluded, hnullifier, hcreated, hvalue, hasset, hchain, ⟨(), hmode⟩, hbound⟩

theorem main_ok (h : main hash E pub wit = .ok ()) : MainOk hash E pub wit := by
  obtain ⟨hincluded, hnullifier, hcreated, hvalue, hasset, hchain, hmode, hbound⟩ := main_eq_ok.mp h
  exact
    { included := hincluded
      nullifier := hnullifier
      created := hcreated
      value := hvalue
      assetId := hasset
      chainId := hchain
      moded := assertMode_ok hmode hbound }

/-! ## Spending without a lock -/

def LockExtras.zero : LockExtras F := ⟨0, 0, 0, 0, 0, 0⟩

theorem assertLockExtrasZero_zero : assertLockExtrasZero (LockExtras.zero : LockExtras F) = .ok () := by
  simp only [assertLockExtrasZero, LockExtras.zero, bind_eq_ok, noirAssert_eq_ok, exists_const, and_self]

/-- The inputs that only a lock has are zero. -/
structure Unlocked (pub : TransferPublic F) (extras : LockExtras F) : Prop where
  hSwap : pub.hSwap = 0
  hR : pub.hR = 0
  hMeta : pub.hMeta = 0
  hEnc : pub.hEnc = 0
  extras : extras = .zero

theorem assertMode_transfer (hunlocked : Unlocked pub wit.extras) (htimeout : pub.timeout = 0)
    (hstealth : pub.pkStealth = 0) (hkey : wit.key E = wit.input.owner)
    (hstandard : wit.input.timeout = 0) : assertMode pub (wit.key E) wit = .ok () := by
  rw [assertMode, if_pos htimeout]
  simp only [bind_eq_ok, noirAssert_eq_ok, exists_const, hunlocked.extras]
  exact ⟨hkey, htimeout.trans hstandard.symm, hstealth, hunlocked.hSwap, hunlocked.hR, hunlocked.hMeta,
    hunlocked.hEnc, assertLockExtrasZero_zero⟩

theorem assertMode_claim (hunlocked : Unlocked pub wit.extras) (hne : pub.timeout ≠ 0)
    (hstealth : pub.pkStealth ≠ 0) (hkey : wit.key E = wit.input.owner)
    (htimeout : pub.timeout = wit.input.timeout) (howner : pub.pkStealth = wit.input.owner) :
    assertMode pub (wit.key E) wit = .ok () := by
  rw [assertMode, if_neg hne, if_pos hstealth]
  simp only [bind_eq_ok, noirAssert_eq_ok, exists_const, if_neg (not_not.mpr hunlocked.hSwap), hunlocked.extras]
  exact ⟨hkey, htimeout, howner, hunlocked.hR, hunlocked.hMeta, hunlocked.hEnc, assertLockExtrasZero_zero⟩

theorem assertMode_lock (hne : pub.timeout ≠ 0) (hstealth : pub.pkStealth ≠ 0) (hswap : pub.hSwap ≠ 0)
    (hkey : wit.key E = wit.input.owner) (htimeout : pub.timeout = wit.output.timeout)
    (hstandard : wit.input.timeout = 0) : assertMode pub (wit.key E) wit = .ok () := by
  rw [assertMode, if_neg hne, if_pos hstealth]
  simp only [bind_eq_ok, noirAssert_eq_ok, exists_const, if_pos hswap]
  exact ⟨hkey, htimeout, hstandard⟩

omit [BnField F] in
/-- A path of no levels leads from the leaf to itself. -/
theorem binaryMerkleRoot_zero {n : Nat} (hasher : F → F → F) (leaf : F) (indices : Fin n → Bool)
    (siblings : Fin n → F) : binaryMerkleRoot hasher leaf 0 indices siblings = leaf := by
  rw [Compliance.binaryMerkleRoot_eq_foldPath, List.filter_eq_nil_iff.mpr (by simp)]
  rfl

end Pocs.Swap
