import Pocs.Rails.Digests
import Pocs.Rails.Hashes

/-! # The claim and the withdraw circuit

`limbs.nr`, `merkle.nr`, `ecdsa_secp256k1.nr` and the two `main.nr` as checks in `Except String`. Keys are
limbs of 128 bits; `claimMain_eq_ok` and `withdrawMain_eq_ok` say what the circuits check in terms of the
keys themselves. -/

namespace Pocs.Rails

open Compliance (BnField MerklePath binaryMerkleRoot merkleHash merkleVerify)

variable {F : Type} [BnField F]

/-! ## `limbs.nr` -/

/-- `x.to_be_bytes::<n>()`. -/
def toBeBytes (n : Nat) (x : F) : Except String (Bytes n) := do
  require (Scalar.toNat x < 256 ^ n) "Field failed to decompose into specified limbs"
  pure (.ofNat n (Scalar.toNat x))

def assertLt2_128 (x : F) : Except String Unit := do
  let _ ← toBeBytes 16 x
  pure ()

def assertLt2_160 (x : F) : Except String Unit := do
  let _ ← toBeBytes 20 x
  pure ()

def limbsToBeBytes32 (hi lo : F) : Except String (Bytes 32) := do
  let hiBytes ← toBeBytes 16 hi
  let loBytes ← toBeBytes 16 lo
  pure (hiBytes.append loBytes)

/-! ## `merkle.nr` -/

/-- `binary_merkle_root` with its check. -/
def verifyMembership (hash : List F → F) (msg : String) {maxDepth : Nat} (leaf root : F)
    (p : MerklePath F maxDepth) : Except String Unit :=
  let computed := binaryMerkleRoot (merkleHash hash) leaf p.proofLength p.indices p.path
  require (computed = root) msg

def verifyMembershipCohort (hash : List F → F) (leaf root : F) (p : MerklePath F 20) : Except String Unit :=
  verifyMembership hash "cohort merkle proof failed" leaf root p

def verifyMembershipPool (hash : List F → F) (leaf root : F) (p : MerklePath F 32) : Except String Unit :=
  verifyMembership hash "pool merkle proof failed" leaf root p

/-! ## `ecdsa_secp256k1.nr` -/

def secp256k1HalfN : List UInt8 :=
  [0x7f, 0xff, 0xff, 0xff, 0xff, 0xff, 0xff, 0xff, 0xff, 0xff, 0xff, 0xff, 0xff, 0xff, 0xff, 0xff,
    0x5d, 0x57, 0x6e, 0x73, 0x57, 0xa4, 0x50, 0x1d, 0xdf, 0xe9, 0x2f, 0x46, 0x68, 0x1b, 0x20, 0xa0]

/-- The first byte that differs decides. -/
def assertCanonicalS (s : Bytes 32) : Except String Unit := do
  let (_, sLe) := (s.1.zip secp256k1HalfN).foldl (fun st bytes =>
    let (decided, sLe) := st
    let (sB, hB) := bytes
    let firstDiffGt := !decided && decide (hB < sB)
    (decided || decide (sB < hB) || decide (hB < sB), sLe && !firstDiffGt)) (false, true)
  require (sLe = true) "non-canonical s"

def verifyEcdsa (P : Primitives) (mX mY hMsg signatureR signatureS : Bytes 32) : Except String Unit := do
  let sig : Bytes 64 := signatureR.append signatureS
  require (P.verifySignature mX mY sig hMsg = true) "ECDSA signature invalid"
  assertCanonicalS signatureS

/-! ## The claim circuit -/

/-- SHA-256("RDR/voucher/v1"). -/
def domainVoucher : Bytes 32 :=
  ⟨[0x55, 0xb4, 0xfe, 0x97, 0x03, 0x48, 0x58, 0x5b, 0x05, 0x54, 0xf6, 0x94, 0x59, 0x43, 0x76, 0x93,
    0x98, 0xa8, 0xed, 0x6a, 0xb6, 0x0c, 0x65, 0x89, 0x3e, 0xd8, 0xe7, 0xf4, 0x48, 0xf6, 0xc0, 0x95], rfl⟩

def voucherPreimage (roundId cohortRoot chainId : Bytes 32) (m derived : SecpPubkey) (amount : Bytes 32)
    (claimContract : Bytes 20) : List UInt8 :=
  domainVoucher.1 ++ roundId.1 ++ cohortRoot.1 ++ chainId.1 ++ m.x.1 ++ m.y.1 ++ derived.x.1 ++
    derived.y.1 ++ amount.1 ++ claimContract.1

structure KeyLimbs (F : Type) where
  xHi : F
  xLo : F
  yHi : F
  yLo : F

structure ClaimPublic (F : Type) where
  roundIdHi : F
  roundIdLo : F
  cohortRoot : F
  chainIdHi : F
  chainIdLo : F
  destination : F
  amount : F
  nullifier : F
  claimContractAddress : F
  relaySubmitter : F

structure ClaimWitness (F : Type) where
  derivedPubkey : KeyLimbs F
  m : KeyLimbs F
  signatureR : Bytes 32
  signatureS : Bytes 32
  path : MerklePath F 20

def KeyLimbs.assertLt (k : KeyLimbs F) : Except String Unit := do
  assertLt2_128 k.xHi
  assertLt2_128 k.xLo
  assertLt2_128 k.yHi
  assertLt2_128 k.yLo

/-- `main` of the claim circuit. -/
def claimMain (P : Primitives) (hash : List F → F) (pub : ClaimPublic F) (wit : ClaimWitness F) :
    Except String Unit := do
  assertLt2_128 pub.roundIdHi
  assertLt2_128 pub.roundIdLo
  assertLt2_128 pub.chainIdHi
  assertLt2_128 pub.chainIdLo
  wit.m.assertLt
  wit.derivedPubkey.assertLt
  assertLt2_160 pub.destination
  assertLt2_160 pub.claimContractAddress
  assertLt2_160 pub.relaySubmitter
  let mPacked := hashMPacked hash wit.m.xHi wit.m.xLo wit.m.yHi wit.m.yLo
  verifyMembershipCohort hash mPacked pub.cohortRoot wit.path
  let mX ← limbsToBeBytes32 wit.m.xHi wit.m.xLo
  let mY ← limbsToBeBytes32 wit.m.yHi wit.m.yLo
  let derivedX ← limbsToBeBytes32 wit.derivedPubkey.xHi wit.derivedPubkey.xLo
  let derivedY ← limbsToBeBytes32 wit.derivedPubkey.yHi wit.derivedPubkey.yLo
  let roundId ← limbsToBeBytes32 pub.roundIdHi pub.roundIdLo
  let chainId ← limbsToBeBytes32 pub.chainIdHi pub.chainIdLo
  let cohortRoot ← toBeBytes 32 pub.cohortRoot
  let amount ← toBeBytes 32 pub.amount
  let claimContract ← toBeBytes 20 pub.claimContractAddress
  let preimage := voucherPreimage roundId cohortRoot chainId ⟨mX, mY⟩ ⟨derivedX, derivedY⟩ amount claimContract
  let hMsg := P.sha256_308 preimage
  verifyEcdsa P mX mY hMsg wit.signatureR wit.signatureS
  let dpkKeccak := P.keccak256_64 (derivedX.append derivedY).1
  -- twenty bytes are less than the order of the field
  let destAcc := frFromBeBytes (dpkKeccak.1.drop 12)
  require (pub.destination = destAcc) "destination mismatch"
  let derivedPubkeyPacked := hashDerivedPubkeyPacked hash wit.derivedPubkey.xHi wit.derivedPubkey.xLo
    wit.derivedPubkey.yHi wit.derivedPubkey.yLo
  let roundIdPacked := packRoundId hash pub.roundIdHi pub.roundIdLo
  let chainIdPacked := packChainId hash pub.chainIdHi pub.chainIdLo
  let computedNullifier := hashClaimNullifier hash mPacked derivedPubkeyPacked roundIdPacked
    pub.claimContractAddress chainIdPacked
  require (pub.nullifier = computedNullifier) "nullifier mismatch"

structure WithdrawPublic (F : Type) where
  poolRoot : F
  claimNullifier : F
  token : F
  amount : F
  recipient : F

structure WithdrawWitness (F : Type) where
  m : KeyLimbs F
  derivedPubkey : KeyLimbs F
  roundIdHi : F
  roundIdLo : F
  chainIdHi : F
  chainIdLo : F
  claimContract : F
  path : MerklePath F 32

/-- `main` of the withdraw circuit. -/
def withdrawMain (hash : List F → F) (pub : WithdrawPublic F) (wit : WithdrawWitness F) :
    Except String Unit := do
  wit.m.assertLt
  wit.derivedPubkey.assertLt
  assertLt2_128 wit.roundIdHi
  assertLt2_128 wit.roundIdLo
  assertLt2_128 wit.chainIdHi
  assertLt2_128 wit.chainIdLo
  assertLt2_160 wit.claimContract
  assertLt2_160 pub.token
  assertLt2_160 pub.recipient
  let mPacked := hashMPacked hash wit.m.xHi wit.m.xLo wit.m.yHi wit.m.yLo
  let derivedPubkeyPacked := hashDerivedPubkeyPacked hash wit.derivedPubkey.xHi wit.derivedPubkey.xLo
    wit.derivedPubkey.yHi wit.derivedPubkey.yLo
  let roundIdPacked := packRoundId hash wit.roundIdHi wit.roundIdLo
  let chainIdPacked := packChainId hash wit.chainIdHi wit.chainIdLo
  let commitment := hashPoolCommitment hash pub.token pub.amount mPacked roundIdPacked
  verifyMembershipPool hash commitment pub.poolRoot wit.path
  let computedNullifier := hashClaimNullifier hash mPacked derivedPubkeyPacked roundIdPacked
    wit.claimContract chainIdPacked
  require (pub.claimNullifier = computedNullifier) "claim_nullifier mismatch"

/-! ## What the circuits check -/

variable {P : Primitives} {hash : List F → F}

theorem verifyMembership_eq_ok {msg : String} {maxDepth : Nat} {leaf root : F} {p : MerklePath F maxDepth} :
    verifyMembership hash msg leaf root p = .ok () ↔ merkleVerify hash leaf root p = .ok () := by
  rw [verifyMembership, merkleVerify, require_eq_ok, require_eq_ok]

theorem toBeBytes_eq_ok {n : Nat} {x : F} {b : Bytes n} :
    toBeBytes n x = .ok b ↔ Scalar.toNat x < 256 ^ n ∧ .ofNat n (Scalar.toNat x) = b := by
  simp only [toBeBytes, bind_eq_ok, require_eq_ok, pure_eq_ok, exists_const]

theorem assertLt2_128_eq_ok {x : F} {u : Unit} : assertLt2_128 x = .ok u ↔ Scalar.toNat x < 2 ^ 128 := by
  simp only [assertLt2_128, bind_eq_ok, toBeBytes_eq_ok, pure_eq_ok, exists_and_left, exists_eq', and_true]
  norm_num

theorem assertLt2_160_eq_ok {x : F} {u : Unit} : assertLt2_160 x = .ok u ↔ Scalar.toNat x < 2 ^ 160 := by
  simp only [assertLt2_160, bind_eq_ok, toBeBytes_eq_ok, pure_eq_ok, exists_and_left, exists_eq', and_true]
  norm_num

theorem toNat_limbHi (b : Bytes 32) : Scalar.toNat (limbHi b : F) = beToNat (b.1.take 16) :=
  BnField.toNat_ofNat_of_canonical (BnField.canonical_of_lt ((beToNat_take_lt b).trans (by decide)))

theorem toNat_limbLo (b : Bytes 32) : Scalar.toNat (limbLo b : F) = beToNat (b.1.drop 16) :=
  BnField.toNat_ofNat_of_canonical (BnField.canonical_of_lt ((beToNat_drop_lt b).trans (by decide)))

/-- The bytes of a string of numbers below their bounds. -/
theorem beOfNat_beToNat {n : Nat} {bs : List UInt8} (h : bs.length = n) : beOfNat n (beToNat bs) = bs :=
  Bytes.beOfNat_toNat ⟨bs, h⟩

theorem limbsToBeBytes32_eq_ok {hi lo : F} {b : Bytes 32} :
    limbsToBeBytes32 hi lo = .ok b ↔ limbHi b = hi ∧ limbLo b = lo := by
  simp only [limbsToBeBytes32, bind_eq_ok, toBeBytes_eq_ok, pure_eq_ok]
  constructor
  · rintro ⟨_, ⟨hhi, rfl⟩, _, ⟨hlo, rfl⟩, rfl⟩
    have hsplit : ∀ {x : F}, Scalar.toNat x < 256 ^ 16 → frFromBeBytes (beOfNat 16 (Scalar.toNat x)) = x := by
      intro x hx
      rw [frFromBeBytes, beToNat_beOfNat, Nat.mod_eq_of_lt hx, BnField.ofNat_toNat]
    constructor
    · refine Eq.trans ?_ (hsplit hhi)
      exact congrArg frFromBeBytes (List.take_left' (length_beOfNat _ _))
    · refine Eq.trans ?_ (hsplit hlo)
      exact congrArg frFromBeBytes (List.drop_left' (length_beOfNat _ _))
  · rintro ⟨rfl, rfl⟩
    refine ⟨_, ⟨?_, rfl⟩, _, ⟨?_, rfl⟩, ?_⟩
    · rw [toNat_limbHi]
      exact (beToNat_take_lt b).trans_le (by decide)
    · rw [toNat_limbLo]
      exact (beToNat_drop_lt b).trans_le (by decide)
    · apply Subtype.ext
      rw [Bytes.append_val, Bytes.ofNat, Bytes.ofNat]
      show beOfNat 16 _ ++ beOfNat 16 _ = b.1
      rw [toNat_limbHi, toNat_limbLo, beOfNat_beToNat (by rw [List.length_take, b.2]; rfl),
        beOfNat_beToNat (by rw [List.length_drop, b.2]), List.take_append_drop]

def SecpPubkey.limbs (m : SecpPubkey) : KeyLimbs F := ⟨limbHi m.x, limbLo m.x, limbHi m.y, limbLo m.y⟩

def SecpPubkey.derivedPacked (hash : List F → F) (derived : SecpPubkey) : F :=
  hashDerivedPubkeyPacked hash (limbHi derived.x) (limbLo derived.x) (limbHi derived.y) (limbLo derived.y)

/-- `point_to_eth_address`. -/
def ethAddress (P : Primitives) (p : SecpPubkey) : Bytes 20 :=
  (P.keccak256 (p.x.append p.y).1).drop 12

/-- The signature is one of the key on the preimage, in canonical form. -/
structure Signed (P : Primitives) (m : SecpPubkey) (preimage : List UInt8) (r s : Bytes 32) : Prop where
  verifies : P.verifySignature m.x m.y (r.append s) (P.sha256 preimage) = true
  canonical : assertCanonicalS s = .ok ()

theorem length_voucherPreimage {roundId cohortRoot chainId amount : Bytes 32} {m derived : SecpPubkey}
    {claimContract : Bytes 20} :
    (voucherPreimage roundId cohortRoot chainId m derived amount claimContract).length = 308 := by
  simp [voucherPreimage, domainVoucher.2, roundId.2, cohortRoot.2, chainId.2, m.x.2, m.y.2, derived.x.2,
    derived.y.2, amount.2, claimContract.2]

theorem verifyEcdsa_eq_ok {mX mY r s : Bytes 32} {preimage : List UInt8} (h : preimage.length = 308)
    {u : Unit} : verifyEcdsa P mX mY (P.sha256_308 preimage) r s = .ok u ↔ Signed P ⟨mX, mY⟩ preimage r s := by
  simp only [verifyEcdsa, bind_eq_ok, require_eq_ok, exists_const, Primitives.sha256_308_eq h]
  constructor
  · rintro ⟨hverifies, hcanonical⟩
    exact ⟨hverifies, hcanonical⟩
  · intro h
    exact ⟨h.verifies, h.canonical⟩

/-- What the claim circuit knows of a key, a derived key and the identifiers of the round and the chain. -/
structure ClaimHolds (P : Primitives) (hash : List F → F) (pub : ClaimPublic F) (m derived : SecpPubkey)
    (roundId chainId r s : Bytes 32) (path : MerklePath F 20) : Prop where
  roundIdHi : limbHi roundId = pub.roundIdHi
  roundIdLo : limbLo roundId = pub.roundIdLo
  chainIdHi : limbHi chainId = pub.chainIdHi
  chainIdLo : limbLo chainId = pub.chainIdLo
  cohortRoot_lt : Scalar.toNat pub.cohortRoot < 256 ^ 32
  amount_lt : Scalar.toNat pub.amount < 256 ^ 32
  claimContract_lt : Scalar.toNat pub.claimContractAddress < 2 ^ 160
  relaySubmitter_lt : Scalar.toNat pub.relaySubmitter < 2 ^ 160
  cohort : verifyMembershipCohort hash (m.packed hash) pub.cohortRoot path = .ok ()
  signed : Signed P m (voucherPreimage roundId (.ofNat 32 (Scalar.toNat pub.cohortRoot)) chainId m derived
    (.ofNat 32 (Scalar.toNat pub.amount)) (.ofNat 20 (Scalar.toNat pub.claimContractAddress))) r s
  destination : pub.destination = frFromBeBytes (ethAddress P derived).1
  nullifier : pub.nullifier = hashClaimNullifier hash (m.packed hash) (derived.derivedPacked hash)
    (packRoundId hash (limbHi roundId) (limbLo roundId)) pub.claimContractAddress
    (packChainId hash (limbHi chainId) (limbLo chainId))

theorem KeyLimbs.assertLt_limbs {m : SecpPubkey} {u : Unit} : (m.limbs : KeyLimbs F).assertLt = .ok u := by
  simp only [KeyLimbs.assertLt, bind_eq_ok, assertLt2_128_eq_ok, exists_const, SecpPubkey.limbs,
    toNat_limbHi, toNat_limbLo]
  exact ⟨beToNat_take_lt _, beToNat_drop_lt _, beToNat_take_lt _, beToNat_drop_lt _⟩

theorem toNat_frFromBeBytes_lt (b : Bytes 20) : Scalar.toNat (frFromBeBytes b.1 : F) < 2 ^ 160 := by
  have hlt : b.toNat < 2 ^ 160 := b.toNat_lt.trans_le (by decide)
  have hcanonical := BnField.canonical_of_lt (F := F) (hlt.trans (by decide))
  exact (BnField.toNat_ofNat_of_canonical hcanonical).trans_lt hlt

theorem claimMain_eq_ok {pub : ClaimPublic F} {wit : ClaimWitness F} :
    claimMain P hash pub wit = .ok () ↔ ∃ m derived roundId chainId,
      wit.m = m.limbs ∧ wit.derivedPubkey = derived.limbs ∧
        ClaimHolds P hash pub m derived roundId chainId wit.signatureR wit.signatureS wit.path := by
  simp only [claimMain, bind_eq_ok, require_eq_ok, exists_const, assertLt2_128_eq_ok, assertLt2_160_eq_ok,
    limbsToBeBytes32_eq_ok, toBeBytes_eq_ok, verifyEcdsa_eq_ok length_voucherPreimage]
  have hkeccak : ∀ dX dY : Bytes 32, (frFromBeBytes ((P.keccak256_64 (dX.append dY).1).1.drop 12) : F) =
      frFromBeBytes (ethAddress P ⟨dX, dY⟩).1 := by
    intro dX dY
    rw [Primitives.keccak256_64_eq (dX.append dY).2]
    rfl
  simp only [hkeccak]
  constructor
  · rintro ⟨-, -, -, -, _, -, _, -, -, -, hrelay, _, hcohort, mX, ⟨hmXHi, hmXLo⟩, mY, ⟨hmYHi, hmYLo⟩, dX,
      ⟨hdXHi, hdXLo⟩, dY, ⟨hdYHi, hdYLo⟩, roundId, ⟨hroundHi, hroundLo⟩, chainId, ⟨hchainHi, hchainLo⟩, _,
      ⟨hroot, rfl⟩, _, ⟨hamount, rfl⟩, _, ⟨hcontract, rfl⟩, hsigned, hdestination, hnullifier⟩
    rw [← hmXHi, ← hmXLo, ← hmYHi, ← hmYLo] at hcohort hnullifier
    rw [← hdXHi, ← hdXLo, ← hdYHi, ← hdYLo, ← hroundHi, ← hroundLo, ← hchainHi, ← hchainLo] at hnullifier
    refine ⟨⟨mX, mY⟩, ⟨dX, dY⟩, roundId, chainId, ?_, ?_, ⟨hroundHi, hroundLo, hchainHi, hchainLo, hroot,
      hamount, hcontract.trans_le (by decide), hrelay, hcohort, hsigned, hdestination, hnullifier⟩⟩
    · rw [SecpPubkey.limbs, hmXHi, hmXLo, hmYHi, hmYLo]
    · rw [SecpPubkey.limbs, hdXHi, hdXLo, hdYHi, hdYLo]
  · rintro ⟨m, derived, roundId, chainId, hm, hderived, h⟩
    rw [hm, hderived]
    have hround := limbsToBeBytes32_eq_ok.mpr ⟨h.roundIdHi, h.roundIdLo⟩
    have hdestination := toNat_frFromBeBytes_lt (F := F) (ethAddress P derived)
    rw [← h.destination] at hdestination
    refine ⟨?_, ?_, ?_, ?_, (), KeyLimbs.assertLt_limbs, (), KeyLimbs.assertLt_limbs, hdestination,
      h.claimContract_lt, h.relaySubmitter_lt, (), h.cohort, m.x, ⟨rfl, rfl⟩, m.y, ⟨rfl, rfl⟩, derived.x,
      ⟨rfl, rfl⟩, derived.y, ⟨rfl, rfl⟩, roundId, ⟨h.roundIdHi, h.roundIdLo⟩, chainId,
      ⟨h.chainIdHi, h.chainIdLo⟩, _, ⟨h.cohortRoot_lt, rfl⟩, _, ⟨h.amount_lt, rfl⟩, _,
      ⟨h.claimContract_lt.trans_le (by decide), rfl⟩, h.signed, h.destination, ?_⟩
    · rw [← h.roundIdHi, toNat_limbHi]
      exact beToNat_take_lt roundId
    · rw [← h.roundIdLo, toNat_limbLo]
      exact beToNat_drop_lt roundId
    · rw [← h.chainIdHi, toNat_limbHi]
      exact beToNat_take_lt chainId
    · rw [← h.chainIdLo, toNat_limbLo]
      exact beToNat_drop_lt chainId
    · rw [← h.roundIdHi, ← h.roundIdLo, ← h.chainIdHi, ← h.chainIdLo]
      exact h.nullifier

/-- What the withdraw circuit knows of a key, a derived key, the identifiers and a claim contract. -/
structure WithdrawHolds (hash : List F → F) (pub : WithdrawPublic F) (m derived : SecpPubkey)
    (roundId chainId : Bytes 32) (claimContract : F) (path : MerklePath F 32) : Prop where
  claimContract_lt : Scalar.toNat claimContract < 2 ^ 160
  token_lt : Scalar.toNat pub.token < 2 ^ 160
  recipient_lt : Scalar.toNat pub.recipient < 2 ^ 160
  commitment : verifyMembershipPool hash (hashPoolCommitment hash pub.token pub.amount (m.packed hash)
    (packRoundId hash (limbHi roundId) (limbLo roundId))) pub.poolRoot path = .ok ()
  nullifier : pub.claimNullifier = hashClaimNullifier hash (m.packed hash) (derived.derivedPacked hash)
    (packRoundId hash (limbHi roundId) (limbLo roundId)) claimContract
    (packChainId hash (limbHi chainId) (limbLo chainId))

/-- Limbs of 128 bits are those of some bytes. -/
theorem exists_limbs {hi lo : F} (hhi : Scalar.toNat hi < 2 ^ 128) (hlo : Scalar.toNat lo < 2 ^ 128) :
    ∃ b : Bytes 32, limbHi b = hi ∧ limbLo b = lo := by
  have hok : limbsToBeBytes32 hi lo =
      .ok ((Bytes.ofNat 16 (Scalar.toNat hi)).append (Bytes.ofNat 16 (Scalar.toNat lo))) := by
    simp only [limbsToBeBytes32, bind_eq_ok, toBeBytes_eq_ok, pure_eq_ok]
    exact ⟨_, ⟨hhi.trans_le (by decide), rfl⟩, _, ⟨hlo.trans_le (by decide), rfl⟩, rfl⟩
  exact ⟨_, limbsToBeBytes32_eq_ok.mp hok⟩

theorem KeyLimbs.assertLt_eq_ok {k : KeyLimbs F} {u : Unit} :
    k.assertLt = .ok u ↔ ∃ m : SecpPubkey, k = m.limbs := by
  constructor
  · intro h
    simp only [assertLt, bind_eq_ok, assertLt2_128_eq_ok, exists_const] at h
    obtain ⟨hxHi, hxLo, hyHi, hyLo⟩ := h
    obtain ⟨x, hx, hx'⟩ := exists_limbs hxHi hxLo
    obtain ⟨y, hy, hy'⟩ := exists_limbs hyHi hyLo
    refine ⟨⟨x, y⟩, ?_⟩
    rw [SecpPubkey.limbs, hx, hx', hy, hy']
  · rintro ⟨m, rfl⟩
    exact assertLt_limbs

theorem withdrawMain_eq_ok {pub : WithdrawPublic F} {wit : WithdrawWitness F} :
    withdrawMain hash pub wit = .ok () ↔ ∃ m derived roundId chainId,
      wit.m = m.limbs ∧ wit.derivedPubkey = derived.limbs ∧
        (wit.roundIdHi = limbHi roundId ∧ wit.roundIdLo = limbLo roundId) ∧
        (wit.chainIdHi = limbHi chainId ∧ wit.chainIdLo = limbLo chainId) ∧
        WithdrawHolds hash pub m derived roundId chainId wit.claimContract wit.path := by
  simp only [withdrawMain, bind_eq_ok, require_eq_ok, exists_const, assertLt2_128_eq_ok,
    assertLt2_160_eq_ok, KeyLimbs.assertLt_eq_ok]
  constructor
  · rintro ⟨⟨m, hm⟩, ⟨derived, hderived⟩, hroundHi, hroundLo, hchainHi, hchainLo, hcontract, htoken,
      hrecipient, _, hcommitment, hnullifier⟩
    obtain ⟨roundId, hroundHi', hroundLo'⟩ := exists_limbs hroundHi hroundLo
    obtain ⟨chainId, hchainHi', hchainLo'⟩ := exists_limbs hchainHi hchainLo
    rw [hm, ← hroundHi', ← hroundLo'] at hcommitment hnullifier
    rw [hderived, ← hchainHi', ← hchainLo'] at hnullifier
    exact ⟨m, derived, roundId, chainId, hm, hderived, ⟨hroundHi'.symm, hroundLo'.symm⟩,
      ⟨hchainHi'.symm, hchainLo'.symm⟩, hcontract, htoken, hrecipient, hcommitment, hnullifier⟩
  · rintro ⟨m, derived, roundId, chainId, hm, hderived, ⟨hroundHi, hroundLo⟩, ⟨hchainHi, hchainLo⟩, h⟩
    rw [hm, hderived, hroundHi, hroundLo, hchainHi, hchainLo, toNat_limbHi, toNat_limbLo, toNat_limbHi,
      toNat_limbLo]
    exact ⟨⟨m, rfl⟩, ⟨derived, rfl⟩, beToNat_take_lt roundId, beToNat_drop_lt roundId,
      beToNat_take_lt chainId, beToNat_drop_lt chainId, h.claimContract_lt, h.token_lt, h.recipient_lt,
      (), h.commitment, h.nullifier⟩

end Pocs.Rails
