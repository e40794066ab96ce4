import Mathlib.Data.List.GetD
import Pocs.Lib.Hex
import Pocs.Rails.Header

/-! # k-of-n signatures

`crypto/multisig.rs`, and `with_multisig`, `sign_round_header` and `sign_roster` of `funder/core.rs`. The
curve, its encodings and Keccak are parameters. What is accepted is the encoding of `k` signatures by
distinct owners (`acceptThreshold_eq_ok`); what a funder signs is accepted just where its first `k` signers are
distinct and `k` fits the byte of the count. -/

namespace Pocs.Rails.Offchain

structure RecoveryId where
  isYOdd : Bool
  isXReduced : Bool
  deriving DecidableEq

def RecoveryId.fromByte (b : UInt8) : Option RecoveryId :=
  if b < 4 then some ⟨b &&& 1 = 1, b &&& 2 = 2⟩ else none

/-- What is used of `k256` and `sha3`: keys `K`, verifying keys `V` and signatures `S`. -/
structure MultisigCrypto (K V S : Type) where
  verifyingKey : K → V
  /-- `to_encoded_point(false)` without its tag. -/
  encodedPoint : V → Bytes 64
  keccak256 : List UInt8 → Bytes 32
  signPrehashRecoverable : K → Bytes 32 → S × RecoveryId
  normalizeS : S → Option S
  toBytes : S → Bytes 64
  fromSlice : Bytes 64 → Option S
  recoverFromPrehash : Bytes 32 → S → RecoveryId → Option V

/-- A signature with the address of its signer. -/
structure MultiSignature where
  signer : Bytes 20
  signature : Bytes 65
  deriving DecidableEq

inductive MultisigSigError where
  | wrongCount
  | duplicateSigner
  | unknownSigner
  | badSignature
  deriving DecidableEq, Repr

def sigRecordLen : Nat := 20 + 65

section
variable {K V S : Type} (P : MultisigCrypto K V S)

/-! ## `crypto/multisig.rs` -/

def addressFromVerifyingKey (vk : V) : Bytes 20 :=
  (show Bytes (12 + 20) from P.keccak256 (P.encodedPoint vk).1).drop 12

def addressOf (sk : K) : Bytes 20 := addressFromVerifyingKey P (P.verifyingKey sk)

/-- The signature of `sign_digest`, with the parity flipped where `s` is normalized. -/
def signLowS (sk : K) (digest : Bytes 32) : S × RecoveryId :=
  let (sig, recid) := P.signPrehashRecoverable sk digest
  match P.normalizeS sig with
  | some low => (low, ⟨!recid.isYOdd, recid.isXReduced⟩)
  | none => (sig, recid)

def recoveryByte (recid : RecoveryId) : UInt8 := 27 + if recid.isYOdd then 1 else 0

def signDigest (sk : K) (digest : Bytes 32) : MultiSignature :=
  let (sig, recid) := signLowS P sk digest
  { signer := addressOf P sk
    signature := (P.toBytes sig).append (⟨[recoveryByte recid], rfl⟩ : Bytes 1) }

def recoverAndCheck (digest : Bytes 32) (ms : MultiSignature) : Except MultisigSigError Unit := do
  let v := ms.signature.1.getD 64 0
  failIf (v ≠ 27 ∧ v ≠ 28) .badSignature
  let recid ← okOr (RecoveryId.fromByte (v - 27)) .badSignature
  let sig ← okOr (P.fromSlice (.resize 64 (slice ms.signature.1 0 64))) .badSignature
  let vk ← okOr (P.recoverFromPrehash digest sig recid) .badSignature
  failIf (addressFromVerifyingKey P vk ≠ ms.signer) .badSignature

/-- The loops over `i` and `j > i`. -/
def hasDuplicate : List MultiSignature → Bool
  | [] => false
  | s :: sigs => sigs.any (fun t => s.signer = t.signer) || hasDuplicate sigs

def verifyThreshold (digest : Bytes 32) (sigs : List MultiSignature) (owners : List (Bytes 20))
    (threshold : Nat) : Except MultisigSigError Unit := do
  failIf (sigs.length ≠ threshold) .wrongCount
  failIf (hasDuplicate sigs = true) .duplicateSigner
  sigs.forM fun s => do
    failIf (owners.any (· = s.signer) = false) .unknownSigner
    recoverAndCheck P digest s

def MultiSignature.record (s : MultiSignature) : List UInt8 := s.signer.1 ++ s.signature.1

def encodeThreshold (sigs : List MultiSignature) : List UInt8 :=
  .ofNat sigs.length :: sigs.flatMap MultiSignature.record

def decodeThreshold (bytes : List UInt8) (expectedCount : Nat) :
    Except MultisigSigError (List MultiSignature) := do
  failIf (bytes.isEmpty = true) .wrongCount
  let count := (bytes.getD 0 0).toNat
  failIf (count ≠ expectedCount) .wrongCount
  let wantLen := 1 + expectedCount * sigRecordLen
  failIf (bytes.length ≠ wantLen) .wrongCount
  pure ((List.range expectedCount).map fun i =>
    let off := 1 + i * sigRecordLen
    { signer := .resize 20 (slice bytes off 20)
      signature := .resize 65 (slice bytes (off + 20) 65) })

/-! ## `funder/core.rs` -/

inductive FunderError where
  | thresholdConfig (msg : String)
  deriving DecidableEq

/-- A funder whose key is held by several signers. -/
structure MultisigFunder (K : Type) where
  multisigSigners : List K
  claimContract : Bytes 20
  funderResidualDestination : Bytes 20
  funderOwners : List (Bytes 20)
  threshold : Nat
  multisigAddress : Bytes 20

def checkSigner (funderOwners : List (Bytes 20)) (signer : K × Nat) : Except FunderError Unit :=
  let addr := addressOf P signer.1
  let hex := String.ofList (encodeHex addr.1)
  let i := signer.2
  failIf (funderOwners.any (· = addr) = false)
    (.thresholdConfig s!"signer index {i} (address {hex}) not in funder_owners")

def withMultisig (multisigSigners : List K) (funderOwners : List (Bytes 20)) (threshold : Nat)
    (multisigAddress claimContract funderResidualDestination : Bytes 20) :
    Except FunderError (MultisigFunder K) := do
  failIf (threshold = 0) (.thresholdConfig "threshold must be > 0")
  let signers := multisigSigners.length
  failIf (signers < threshold) (.thresholdConfig s!"have {signers} signers but need {threshold}")
  multisigSigners.zipIdx.forM (checkSigner P funderOwners)
  pure ⟨multisigSigners, claimContract, funderResidualDestination, funderOwners, threshold, multisigAddress⟩

structure RelayDescriptor where
  relayId : Bytes 32
  staticPubX25519 : Bytes 32
  rotationEpoch : UInt64

structure RelayRoster where
  relays : List RelayDescriptor
  signedAtUnix : UInt64
  signature : List UInt8

def domainRoster : List UInt8 := "RDR/roster/v1".toUTF8.toList

def rosterDigest (sha256 : List UInt8 → Bytes 32) (roster : RelayRoster) : Bytes 32 :=
  sha256 (domainRoster ++ beOfNat 4 roster.relays.length ++
    roster.relays.flatMap (fun r => r.relayId.1 ++ r.staticPubX25519.1 ++ beOfNat 8 r.rotationEpoch.toNat) ++
    beOfNat 8 roster.signedAtUnix.toNat)

namespace MultisigFunder
variable (funder : MultisigFunder K) (sha256 : List UInt8 → Bytes 32)

/-- The signatures of the first `threshold` signers. -/
def signPrehash (digest : Bytes 32) : List UInt8 :=
  encodeThreshold ((funder.multisigSigners.take funder.threshold).map fun sk => signDigest P sk digest)

def signRoundHeader (header : RoundHeader) : Except FunderError (List UInt8) := do
  failIf (funder.threshold = 0)
    (.thresholdConfig "sign_round_header requires a non-zero threshold; use with_multisig")
  let digest := Funder.hHeader sha256 header
  pure (funder.signPrehash P digest)

def signRoster (roster : RelayRoster) : Except FunderError (List UInt8) := do
  failIf (funder.threshold = 0)
    (.thresholdConfig "sign_roster requires a non-zero threshold; use with_multisig")
  let digest := rosterDigest sha256 roster
  pure (funder.signPrehash P digest)

end MultisigFunder

/-- `decode_threshold` and then `verify_threshold`. -/
def acceptThreshold (digest : Bytes 32) (bytes : List UInt8) (owners : List (Bytes 20)) (threshold : Nat) :
    Except MultisigSigError Unit := do
  let sigs ← decodeThreshold bytes threshold
  verifyThreshold P digest sigs owners threshold

/-- Recovery gives back the key of a signature, from the byte that `sign_digest` writes. -/
structure Recovers : Prop where
  recovers : ∀ sk digest, ∃ sig, P.fromSlice (P.toBytes (signLowS P sk digest).1) = some sig ∧
    P.recoverFromPrehash digest sig ⟨(signLowS P sk digest).2.isYOdd, false⟩ = some (P.verifyingKey sk)

end

/-! ## The wire format -/

theorem MultiSignature.length_record (s : MultiSignature) : s.record.length = sigRecordLen := by
  rw [record, List.length_append, s.signer.2, s.signature.2]
  rfl

theorem MultiSignature.record_injective : Function.Injective MultiSignature.record := by
  intro s t h
  obtain ⟨hsigner, hsignature⟩ := List.append_inj h (s.signer.2.trans t.signer.2.symm)
  cases s
  cases t
  rw [MultiSignature.mk.injEq]
  exact ⟨Subtype.ext hsigner, Subtype.ext hsignature⟩

theorem length_encodeThreshold (sigs : List MultiSignature) :
    (encodeThreshold sigs).length = 1 + sigs.length * sigRecordLen := by
  rw [encodeThreshold, List.length_cons, length_flatMap_chunk MultiSignature.length_record, Nat.add_comm]

theorem encodeThreshold_inj {sigs sigs' : List MultiSignature} (hlen : sigs.length = sigs'.length)
    (h : encodeThreshold sigs = encodeThreshold sigs') : sigs = sigs' := by
  obtain ⟨-, hrecords⟩ := List.cons.inj h
  rw [← List.append_nil (sigs.flatMap _), ← List.append_nil (sigs'.flatMap _)] at hrecords
  exact (flatMap_chunk_inj MultiSignature.length_record MultiSignature.record_injective hlen hrecords).1

/-- The records that are cut out of a string, one after the other. -/
theorem flatMap_record_slices (bytes : List UInt8) (k : Nat) (h : 1 + k * sigRecordLen ≤ bytes.length) :
    ((List.range k).map fun i => (⟨.resize 20 (slice bytes (1 + i * sigRecordLen) 20),
      .resize 65 (slice bytes (1 + i * sigRecordLen + 20) 65)⟩ : MultiSignature)).flatMap
        MultiSignature.record = slice bytes 1 (k * sigRecordLen) := by
  rw [List.flatMap_map, ← flatMap_slice]
  apply List.flatMap_congr
  intro i hi
  have hlt : i + 1 ≤ k := List.mem_range.mp hi
  have hbound := Nat.mul_le_mul_right sigRecordLen hlt
  rw [Nat.succ_mul] at hbound
  have hrecord : sigRecordLen = 85 := rfl
  rw [MultiSignature.record, Bytes.resize_val (length_slice (by omega)),
    Bytes.resize_val (length_slice (by omega)), slice_append]
  rfl

/-- What is decoded is what was encoded, for counts that fit a byte. -/
theorem decodeThreshold_eq_ok {bytes : List UInt8} {k : Nat} {sigs : List MultiSignature} :
    decodeThreshold bytes k = .ok sigs ↔ sigs.length = k ∧ k < 256 ∧ bytes = encodeThreshold sigs := by
  have hdecoded : ∀ {sigs}, decodeThreshold bytes k = .ok sigs →
      sigs.length = k ∧ k < 256 ∧ bytes = encodeThreshold sigs := by
    intro sigs h
    simp only [decodeThreshold, bind_eq_ok, failIf_eq_ok, exists_const, pure_eq_ok, ne_eq, not_not] at h
    obtain ⟨hne, hcount, hlength, rfl⟩ := h
    have hk : k < 256 := hcount ▸ UInt8.toNat_lt _
    refine ⟨by rw [List.length_map, List.length_range], hk, ?_⟩
    rw [encodeThreshold, flatMap_record_slices bytes k hlength.ge, List.length_map, List.length_range, ← hcount,
      UInt8.ofNat_toNat]
    cases bytes with
    | nil => exact absurd rfl hne
    | cons b rest =>
      rw [List.length_cons, ← hcount, Nat.add_comm] at hlength
      exact congrArg (b :: ·) (slice_full (Nat.add_left_cancel hlength)).symm
  constructor
  · exact hdecoded
  · intro h
    obtain ⟨hlen, hk, hbytes⟩ := h
    have hends : ∃ sigs', decodeThreshold bytes k = .ok sigs' := by
      simp only [decodeThreshold, bind_eq_ok, failIf_eq_ok, exists_const, pure_eq_ok, ne_eq, not_not]
      refine ⟨_, ?_, ?_, ?_, rfl⟩
      · rw [hbytes, encodeThreshold]
        exact Bool.noConfusion
      · rw [hbytes, encodeThreshold, List.getD_cons_zero, UInt8.toNat_ofNat', hlen]
        exact Nat.mod_eq_of_lt hk
      · rw [hbytes, length_encodeThreshold, hlen]
    obtain ⟨sigs', hsigs'⟩ := hends
    obtain ⟨hlen', -, hbytes'⟩ := hdecoded hsigs'
    rw [hsigs', encodeThreshold_inj (hlen'.trans hlen.symm) (hbytes'.symm.trans hbytes)]

section
variable {K V S : Type} {P : MultisigCrypto K V S} {digest : Bytes 32} {sigs : List MultiSignature}
  {owners : List (Bytes 20)} {bytes : List UInt8} {k : Nat}

theorem hasDuplicate_eq_false : hasDuplicate sigs = false ↔ (sigs.map (·.signer)).Nodup := by
  induction sigs with
  | nil => exact ⟨fun _ => List.nodup_nil, fun _ => rfl⟩
  | cons s sigs ih =>
    rw [hasDuplicate, Bool.or_eq_false_iff, ih, List.map_cons, List.nodup_cons, List.any_eq_false]
    simp only [decide_eq_true_eq, List.mem_map, not_exists, not_and]
    constructor
    · intro h
      exact ⟨fun t ht heq => h.1 t ht heq.symm, h.2⟩
    · intro h
      exact ⟨fun t ht heq => h.1 t ht heq.symm, h.2⟩

theorem verifyThreshold_eq_ok : verifyThreshold P digest sigs owners k = .ok () ↔
    sigs.length = k ∧ (sigs.map (·.signer)).Nodup ∧
      ∀ s ∈ sigs, s.signer ∈ owners ∧ recoverAndCheck P digest s = .ok () := by
  simp only [verifyThreshold, bind_eq_ok, failIf_eq_ok, exists_const, forM_eq_ok, ne_eq, not_not,
    Bool.not_eq_true, hasDuplicate_eq_false, Bool.not_eq_false, List.any_eq_true, decide_eq_true_eq,
    exists_eq_right]

/-- What is accepted: the encoding of `k` signatures by distinct owners. -/
theorem acceptThreshold_eq_ok : acceptThreshold P digest bytes owners k = .ok () ↔
    k < 256 ∧ ∃ sigs : List MultiSignature, bytes = encodeThreshold sigs ∧ sigs.length = k ∧
      (sigs.map (·.signer)).Nodup ∧ ∀ s ∈ sigs, s.signer ∈ owners ∧ recoverAndCheck P digest s = .ok () := by
  simp only [acceptThreshold, bind_eq_ok, decodeThreshold_eq_ok, verifyThreshold_eq_ok]
  constructor
  · intro h
    obtain ⟨sigs, ⟨hlen, hk, hbytes⟩, -, hnodup, hsigs⟩ := h
    exact ⟨hk, sigs, hbytes, hlen, hnodup, hsigs⟩
  · intro h
    obtain ⟨hk, sigs, hbytes, hlen, hnodup, hsigs⟩ := h
    exact ⟨sigs, ⟨hlen, hk, hbytes⟩, hlen, hnodup, hsigs⟩

/-! ## What a funder signs -/

theorem fromByte_recoveryByte (recid : RecoveryId) : (recoveryByte recid = 27 ∨ recoveryByte recid = 28) ∧
      RecoveryId.fromByte (recoveryByte recid - 27) = some ⟨recid.isYOdd, false⟩ := by
  obtain ⟨odd, reduced⟩ := recid
  cases odd with
  | false => exact ⟨.inl rfl, by decide +revert⟩
  | true => exact ⟨.inr rfl, by decide +revert⟩

theorem recoverAndCheck_signDigest (H : Recovers P) (sk : K) (digest : Bytes 32) :
    recoverAndCheck P digest (signDigest P sk digest) = .ok () := by
  obtain ⟨sig, hslice, hrecover⟩ := H.recovers sk digest
  obtain ⟨hbyte, hrecid⟩ := fromByte_recoveryByte (signLowS P sk digest).2
  have hlength := (P.toBytes (signLowS P sk digest).1).2
  have hv : (signDigest P sk digest).signature.1.getD 64 0 = recoveryByte (signLowS P sk digest).2 := by
    show ((P.toBytes (signLowS P sk digest).1).1 ++ [recoveryByte (signLowS P sk digest).2]).getD 64 0 = _
    rw [List.getD_append_right _ _ _ _ hlength.le, hlength]
    rfl
  have hrs : Bytes.resize 64 (slice (signDigest P sk digest).signature.1 0 64) =
      P.toBytes (signLowS P sk digest).1 := by
    apply Bytes.resize_eq
    show (((P.toBytes (signLowS P sk digest).1).1 ++ [recoveryByte _]).take 64).take 64 = _
    rw [List.take_left' hlength, List.take_of_length_le hlength.le]
  simp only [recoverAndCheck, bind_eq_ok, failIf_eq_ok, okOr_eq_ok, exists_const, hv, hrs]
  refine ⟨?_, _, hrecid, sig, hslice, _, hrecover, fun hne => hne rfl⟩
  rcases hbyte with h | h
  · exact fun hne => hne.1 h
  · exact fun hne => hne.2 h

theorem withMultisig_eq_ok {signers : List K} {multisig claim residual : Bytes 20} {funder : MultisigFunder K} :
    withMultisig P signers owners k multisig claim residual = .ok funder ↔
      k ≠ 0 ∧ k ≤ signers.length ∧ (∀ sk ∈ signers, addressOf P sk ∈ owners) ∧
        funder = ⟨signers, claim, residual, owners, k, multisig⟩ := by
  simp only [withMultisig, bind_eq_ok, failIf_eq_ok, exists_const, forM_eq_ok, checkSigner, pure_eq_ok,
    Bool.not_eq_false, List.any_eq_true, decide_eq_true_eq, exists_eq_right, not_lt]
  have hzip : (∀ signer ∈ signers.zipIdx, addressOf P signer.1 ∈ owners) ↔
      ∀ sk ∈ signers, addressOf P sk ∈ owners := by
    constructor
    · intro h sk hsk
      obtain ⟨i, hi⟩ := List.mem_iff_getElem?.mp hsk
      exact h (sk, i) (List.mem_zipIdx_iff_getElem?.mpr hi)
    · intro h signer hsigner
      exact h signer.1 (List.fst_mem_of_mem_zipIdx hsigner)
  rw [hzip, eq_comm (a := funder)]

/-- The records of a funder are the only ones that its bytes encode. -/
theorem acceptThreshold_signPrehash (H : Recovers P) {signers : List K} {multisig claim residual : Bytes 20}
    {funder : MultisigFunder K} (h : withMultisig P signers owners k multisig claim residual = .ok funder)
    (digest : Bytes 32) : acceptThreshold P digest (funder.signPrehash P digest) owners k = .ok () ↔
      k < 256 ∧ ((signers.take k).map (addressOf P)).Nodup := by
  obtain ⟨-, hlen, howners, rfl⟩ := withMultisig_eq_ok.mp h
  have hlength : ((signers.take k).map fun sk => signDigest P sk digest).length = k := by
    rw [List.length_map, List.length_take, Nat.min_eq_left hlen]
  have hsigner : ((signers.take k).map fun sk => signDigest P sk digest).map (·.signer) =
      (signers.take k).map (addressOf P) := by
    rw [List.map_map]
    rfl
  rw [acceptThreshold_eq_ok]
  constructor
  · intro haccept
    obtain ⟨hk, sigs, hbytes, hsigs, hnodup, -⟩ := haccept
    have heq : _ = sigs := encodeThreshold_inj (hlength.trans hsigs.symm) hbytes
    rw [← heq, hsigner] at hnodup
    exact ⟨hk, hnodup⟩
  · intro haccept
    obtain ⟨hk, hnodup⟩ := haccept
    refine ⟨hk, _, rfl, hlength, hsigner ▸ hnodup, ?_⟩
    intro s hs
    obtain ⟨sk, hsk, rfl⟩ := List.mem_map.mp hs
    exact ⟨howners sk (List.mem_of_mem_take hsk), recoverAndCheck_signDigest H sk digest⟩

/-- What a funder signs is accepted just where its first `k` signers are distinct and `k` fits a byte, and
whatever is accepted is the encoding of `k` signatures by distinct owners. -/
theorem threshold_signatures_iff (H : Recovers P) (sha256 : List UInt8 → Bytes 32) {signers : List K}
    {multisig claim residual : Bytes 20} {funder : MultisigFunder K}
    (h : withMultisig P signers owners k multisig claim residual = .ok funder) :
    (∀ header, ∃ bytes, funder.signRoundHeader P sha256 header = .ok bytes ∧
      (acceptThreshold P (Funder.hHeader sha256 header) bytes owners k = .ok () ↔
        k < 256 ∧ ((signers.take k).map (addressOf P)).Nodup)) ∧
    (∀ roster, ∃ bytes, funder.signRoster P sha256 roster = .ok bytes ∧
      (acceptThreshold P (rosterDigest sha256 roster) bytes owners k = .ok () ↔
        k < 256 ∧ ((signers.take k).map (addressOf P)).Nodup)) ∧
    ∀ (digest : Bytes 32) (bytes : List UInt8) (owners' : List (Bytes 20)) (k' : Nat), 1 ≤ k' →
      acceptThreshold P digest bytes owners' k' = .ok () →
      ∃ sigs : List MultiSignature, bytes = encodeThreshold sigs ∧ sigs.length = k' ∧
        (sigs.map (·.signer)).Nodup ∧ ∀ s ∈ sigs, s.signer ∈ owners' ∧ recoverAndCheck P digest s = .ok () := by
  have hk : funder.threshold ≠ 0 := by
    obtain ⟨hk, -, -, rfl⟩ := withMultisig_eq_ok.mp h
    exact hk
  refine ⟨?_, ?_, ?_⟩
  · intro header
    refine ⟨_, ?_, acceptThreshold_signPrehash H h _⟩
    rw [MultisigFunder.signRoundHeader, failIf, if_neg hk]
    rfl
  · intro roster
    refine ⟨_, ?_, acceptThreshold_signPrehash H h _⟩
    rw [MultisigFunder.signRoster, failIf, if_neg hk]
    rfl
  · intro digest bytes owners' k' _ haccept
    exact (acceptThreshold_eq_ok.mp haccept).2

end

/-! ## Two signers -/

namespace SignatureSample

def crypto : MultisigCrypto UInt8 UInt8 UInt8 where
  verifyingKey sk := sk
  encodedPoint vk := .ofNat 64 vk.toNat
  keccak256 bs := .resize 32 (bs.drop 32)
  signPrehashRecoverable sk _ := (sk, ⟨true, false⟩)
  normalizeS _ := none
  toBytes sig := .ofNat 64 sig.toNat
  fromSlice bs := some (.ofNat (beToNat bs.1))
  recoverFromPrehash _ sig _ := some sig

def sha256 (bs : List UInt8) : Bytes 32 := .ofNat 32 bs.length

def header : RoundHeader :=
  ⟨.zero 32, 1, .zero 32, .zero 32, 1, .zero 20, 0, .zero 20, .zero 32⟩

def owners : List (Bytes 20) := [addressOf crypto 1, addressOf crypto 2]

def funder (signers : List UInt8) : MultisigFunder UInt8 :=
  ⟨signers, .zero 20, .zero 20, owners, 2, .zero 20⟩

theorem recovers : Recovers crypto := by
  constructor
  intro sk _
  refine ⟨sk, ?_, rfl⟩
  show some (UInt8.ofNat (beToNat (beOfNat 64 sk.toNat))) = some sk
  rw [beToNat_beOfNat, Nat.mod_eq_of_lt (sk.toNat_lt.trans (by norm_num)), UInt8.ofNat_toNat]

theorem withMultisig_funder {signers : List UInt8} (hlen : 2 ≤ signers.length)
    (hkeys : ∀ sk ∈ signers, sk = 1 ∨ sk = 2) :
    withMultisig crypto signers owners 2 (.zero 20) (.zero 20) (.zero 20) = .ok (funder signers) := by
  refine withMultisig_eq_ok.mpr ⟨two_ne_zero, hlen, fun sk hsk => ?_, rfl⟩
  rcases hkeys sk hsk with rfl | rfl
  · exact List.mem_cons_self
  · exact List.mem_cons_of_mem _ List.mem_cons_self

end SignatureSample

open SignatureSample in
/-- Two keys sign a header. -/
theorem threshold_signatures_sample :
    withMultisig crypto [1, 2] owners 2 (.zero 20) (.zero 20) (.zero 20) = .ok (funder [1, 2]) ∧
    ∃ bytes, (funder [1, 2]).signRoundHeader crypto sha256 header = .ok bytes ∧
      acceptThreshold crypto (Funder.hHeader sha256 header) bytes owners 2 = .ok () := by
  have h := @withMultisig_funder [1, 2] (by decide) (by simp)
  obtain ⟨bytes, hsigned, haccept⟩ := (threshold_signatures_iff recovers sha256 h).1 header
  exact ⟨h, bytes, hsigned, haccept.mpr ⟨by decide, by decide⟩⟩

open SignatureSample in
/-- A key that is listed twice: `with_multisig` accepts it, `verify_threshold` not what it signs. -/
theorem repeated_signer_rejected : Recovers crypto ∧
    withMultisig crypto [1, 1] owners 2 (.zero 20) (.zero 20) (.zero 20) = .ok (funder [1, 1]) ∧
    ∃ bytes, (funder [1, 1]).signRoundHeader crypto sha256 header = .ok bytes ∧
      acceptThreshold crypto (Funder.hHeader sha256 header) bytes owners 2 = .error .duplicateSigner := by
  refine ⟨recovers, withMultisig_funder (by decide) (by simp), _, rfl, ?_⟩
  rw [acceptThreshold, MultisigFunder.signPrehash, (decodeThreshold_eq_ok (k := 2)).mpr ⟨rfl, by decide, rfl⟩]
  rfl

end Pocs.Rails.Offchain
