import Pocs.Compliance.Field

/-! # Round headers and their digest

The funder, the companion, the card and `RoundFactory.sol` each serialise a round header and hash it
behind the digest of `DOMAIN_HEADER`. SHA-256 is a parameter; `hHeaderInput` is what each of them
hashes. -/

namespace Pocs.Rails

open Compliance (Address Word)

/-- `RoundHeader` of `RoundFactory.sol`. -/
structure RoundHeader where
  roundId : Word
  cohortVersion : UInt64
  cohortRoot : Word
  perRecipientAmount : Word
  cohortSize : Word
  token : Address
  closeTime : UInt64
  claimContractAddress : Address
  chainId : Word

def RoundHeader.unset : RoundHeader := ⟨0, 0, 0, 0, 0, 0, 0, 0, 0⟩

/-- The fields of type `uint256` are words. -/
structure RoundHeader.Decoded (h : RoundHeader) : Prop where
  roundId : h.roundId < 2 ^ 256
  cohortRoot : h.cohortRoot < 2 ^ 256
  perRecipientAmount : h.perRecipientAmount < 2 ^ 256
  cohortSize : h.cohortSize < 2 ^ 256
  chainId : h.chainId < 2 ^ 256

instance (h : RoundHeader) : Decidable h.Decoded :=
  decidable_of_iff (h.roundId < 2 ^ 256 ∧ h.cohortRoot < 2 ^ 256 ∧ h.perRecipientAmount < 2 ^ 256 ∧
      h.cohortSize < 2 ^ 256 ∧ h.chainId < 2 ^ 256)
    ⟨fun ⟨h₁, h₂, h₃, h₄, h₅⟩ => ⟨h₁, h₂, h₃, h₄, h₅⟩, fun ⟨h₁, h₂, h₃, h₄, h₅⟩ =>
      ⟨h₁, h₂, h₃, h₄, h₅⟩⟩

def domainHeader : List UInt8 := "RDR/header/v1".toUTF8.toList

/-! ## `RoundFactory.sol` -/

/-- The fields with their widths, the size as a `uint64`. -/
def RoundHeader.fields (h : RoundHeader) : List (Nat × Nat) :=
  [(32, h.roundId), (8, h.cohortVersion.toNat), (32, h.cohortRoot), (32, h.perRecipientAmount),
    (8, h.cohortSize % 2 ^ 64), (20, h.token.toNat), (8, h.closeTime.toNat),
    (20, h.claimContractAddress.toNat), (32, h.chainId)]

/-- `abi.encodePacked` of the fields. -/
def RoundHeader.packed (h : RoundHeader) : List UInt8 := beRecord h.fields

def RoundHeader.hHeaderInput (sha256 : List UInt8 → Bytes 32) (h : RoundHeader) : List UInt8 :=
  (sha256 domainHeader).1 ++ h.packed

def computeHHeader (sha256 : List UInt8 → Bytes 32) (h : RoundHeader) : Bytes 32 :=
  sha256 (h.hHeaderInput sha256)

/-! ## `types.rs` -/

namespace Offchain

/-- `RoundHeader` of `types.rs`, with `U256Be` as its bytes. -/
structure RoundHeader where
  roundId : Bytes 32
  cohortVersion : UInt64
  cohortRoot : Bytes 32
  perRecipientAmount : Bytes 32
  cohortSize : UInt64
  token : Bytes 20
  closeTime : UInt64
  claimContractAddress : Bytes 20
  chainId : Bytes 32

/-- What a card signs for. -/
structure VoucherContext where
  roundId : Bytes 32
  cohortRoot : Bytes 32
  claimContract : Bytes 20
  perRecipientAmount : Bytes 32
  chainId : Bytes 32

def RoundHeader.toSol (h : RoundHeader) : Rails.RoundHeader where
  roundId := h.roundId.toNat
  cohortVersion := h.cohortVersion
  cohortRoot := h.cohortRoot.toNat
  perRecipientAmount := h.perRecipientAmount.toNat
  cohortSize := h.cohortSize.toNat
  token := .ofNat 160 h.token.toNat
  closeTime := h.closeTime
  claimContractAddress := .ofNat 160 h.claimContractAddress.toNat
  chainId := h.chainId.toNat

/-! ## `funder/core.rs` -/

namespace Funder

def serializeRoundHeader (h : RoundHeader) : List UInt8 :=
  let out := List.replicate 192 0
  let out := copyFromSlice out 0 h.roundId.1
  let out := copyFromSlice out 32 (beOfNat 8 h.cohortVersion.toNat)
  let out := copyFromSlice out 40 h.cohortRoot.1
  let out := copyFromSlice out 72 h.perRecipientAmount.1
  let out := copyFromSlice out 104 (beOfNat 8 h.cohortSize.toNat)
  let out := copyFromSlice out 112 h.token.1
  let out := copyFromSlice out 132 (beOfNat 8 h.closeTime.toNat)
  let out := copyFromSlice out 140 h.claimContractAddress.1
  copyFromSlice out 160 h.chainId.1

def hHeaderInput (sha256 : List UInt8 → Bytes 32) (h : RoundHeader) : List UInt8 :=
  (sha256 domainHeader).1 ++ serializeRoundHeader h

def hHeader (sha256 : List UInt8 → Bytes 32) (h : RoundHeader) : Bytes 32 :=
  sha256 (hHeaderInput sha256 h)

end Funder

/-! ## `smartcard/apdu.rs` -/

inductive CardError where
  | authTokenMismatch
  | badApdu
  | preHashedHMsgRefused
  | keyNotGenerated
  | ctxHeaderMismatch
  | signFailure
  deriving DecidableEq, Repr

def cla : UInt8 := 0x80
def insGenerateKey : UInt8 := 0x01
def insExportKey : UInt8 := 0x02
def insSignVoucher : UInt8 := 0x03

def voucherCtxLen : Nat := 32 + 32 + 20 + 32 + 32

def serializedHeaderLen : Nat := 192

def signVoucherBodyLen : Nat := 32 + serializedHeaderLen + voucherCtxLen

def serializeRoundHeader (h : RoundHeader) : List UInt8 :=
  let out := List.replicate serializedHeaderLen 0
  let out := copyFromSlice out 0 h.roundId.1
  let out := copyFromSlice out 32 (beOfNat 8 h.cohortVersion.toNat)
  let out := copyFromSlice out 40 h.cohortRoot.1
  let out := copyFromSlice out 72 h.perRecipientAmount.1
  let out := copyFromSlice out 104 (beOfNat 8 h.cohortSize.toNat)
  let out := copyFromSlice out 112 h.token.1
  let out := copyFromSlice out 132 (beOfNat 8 h.closeTime.toNat)
  let out := copyFromSlice out 140 h.claimContractAddress.1
  copyFromSlice out 160 h.chainId.1

def encodeSignVoucher (authToken : Bytes 32) (serializedHeader : List UInt8) (ctx : VoucherContext) :
    List UInt8 :=
  let body := authToken.1 ++ serializedHeader ++ ctx.roundId.1 ++ ctx.cohortRoot.1 ++
    ctx.claimContract.1 ++ ctx.perRecipientAmount.1 ++ ctx.chainId.1
  let len := body.length
  [cla, insSignVoucher, 0x00, 0x00, 0x00, .ofNat (len >>> 8), .ofNat (len &&& 0xff)] ++ body

/-- An APDU cut into its instruction and its body. -/
structure Apdu where
  cla : UInt8
  ins : UInt8
  p1 : UInt8
  p2 : UInt8
  body : List UInt8

/-- `split_apdu`, with the single-byte and the extended length. -/
def splitApdu (apdu : List UInt8) : Except CardError Apdu := do
  failIf (apdu.length < 5) .badApdu
  failIf (apdu.getD 0 0 ≠ cla) .badApdu
  let (lc, bodyOff) := if apdu.getD 4 0 = 0x00 ∧ 7 ≤ apdu.length then
      ((apdu.getD 5 0).toNat <<< 8 ||| (apdu.getD 6 0).toNat, 7)
    else ((apdu.getD 4 0).toNat, 5)
  failIf (apdu.length ≠ bodyOff + lc) .badApdu
  pure ⟨apdu.getD 0 0, apdu.getD 1 0, apdu.getD 2 0, apdu.getD 3 0, apdu.drop bodyOff⟩

/-! ## The companion and the card -/

namespace Companion

def hHeaderInput (sha256 : List UInt8 → Bytes 32) (h : RoundHeader) : List UInt8 :=
  (sha256 domainHeader).1 ++ serializeRoundHeader h

def hHeader (sha256 : List UInt8 → Bytes 32) (h : RoundHeader) : Bytes 32 :=
  sha256 (hHeaderInput sha256 h)

end Companion

namespace SoftwareSmartcard

/-- `&body[32..32 + SERIALIZED_HEADER_LEN]` of `handle_sign_voucher`. -/
def serializedHeader (body : List UInt8) : List UInt8 := (body.drop 32).take serializedHeaderLen

def hHeaderInput (sha256 : List UInt8 → Bytes 32) (body : List UInt8) : List UInt8 :=
  (sha256 domainHeader).1 ++ serializedHeader body

def hHeader (sha256 : List UInt8 → Bytes 32) (body : List UInt8) : Bytes 32 :=
  sha256 (hHeaderInput sha256 body)

end SoftwareSmartcard

/-! ## The serialisers agree -/

variable {h : RoundHeader} {sha256 : List UInt8 → Bytes 32}

theorem serializeRoundHeader_eq (h : RoundHeader) : serializeRoundHeader h =
    h.roundId.1 ++ beOfNat 8 h.cohortVersion.toNat ++ h.cohortRoot.1 ++ h.perRecipientAmount.1 ++
      beOfNat 8 h.cohortSize.toNat ++ h.token.1 ++ beOfNat 8 h.closeTime.toNat ++
      h.claimContractAddress.1 ++ h.chainId.1 := by
  have hwrite := foldl_copyFromSlice_flatten [h.roundId.1, beOfNat 8 h.cohortVersion.toNat,
    h.cohortRoot.1, h.perRecipientAmount.1, beOfNat 8 h.cohortSize.toNat, h.token.1,
    beOfNat 8 h.closeTime.toNat, h.claimContractAddress.1, h.chainId.1] [] 192
  simp only [List.foldl_cons, List.foldl_nil, List.nil_append, List.length_nil, h.roundId.2,
    h.cohortRoot.2, h.perRecipientAmount.2, h.token.2, h.claimContractAddress.2, h.chainId.2,
    length_beOfNat, List.flatten_cons, List.flatten_nil, List.length_append, Nat.reduceAdd,
    Nat.sub_self, List.replicate_zero, List.append_nil, Prod.mk.injEq, and_true] at hwrite
  simp only [serializeRoundHeader, serializedHeaderLen, List.append_assoc]
  exact hwrite

theorem length_serializeRoundHeader (h : RoundHeader) :
    (serializeRoundHeader h).length = serializedHeaderLen := by
  rw [serializeRoundHeader_eq]
  simp [h.roundId.2, h.cohortRoot.2, h.perRecipientAmount.2, h.token.2, h.claimContractAddress.2,
    h.chainId.2, serializedHeaderLen]

theorem toNat_toAddress (a : Bytes 20) : (BitVec.ofNat 160 a.toNat).toNat = a.toNat := by
  rw [BitVec.toNat_ofNat, Nat.mod_eq_of_lt]
  exact a.toNat_lt.trans_le (by decide)

theorem RoundHeader.packed_toSol (h : RoundHeader) : h.toSol.packed = serializeRoundHeader h := by
  rw [serializeRoundHeader_eq, Rails.RoundHeader.packed, Rails.RoundHeader.fields]
  simp only [RoundHeader.toSol, beRecord, List.flatMap_cons, List.flatMap_nil, List.append_nil,
    toNat_toAddress, Bytes.beOfNat_toNat, Nat.mod_eq_of_lt h.cohortSize.toNat_lt, List.append_assoc]

/-- The headers whose size is a `u64` are those of the Rust types. -/
theorem RoundHeader.exists_toSol {h : Rails.RoundHeader} (hd : h.Decoded)
    (hsize : h.cohortSize < 2 ^ 64) : ∃ rust : RoundHeader, rust.toSol = h := by
  refine ⟨⟨.ofNat 32 h.roundId, h.cohortVersion, .ofNat 32 h.cohortRoot,
    .ofNat 32 h.perRecipientAmount, .ofNat h.cohortSize, .ofNat 20 h.token.toNat, h.closeTime,
    .ofNat 20 h.claimContractAddress.toNat, .ofNat 32 h.chainId⟩, ?_⟩
  have hword : ∀ {n}, n < 2 ^ 256 → (Bytes.ofNat 32 n).toNat = n := fun hn => by
    rw [Bytes.toNat_ofNat]
    exact Nat.mod_eq_of_lt hn
  have haddress : ∀ a : Address, BitVec.ofNat 160 (Bytes.ofNat 20 a.toNat).toNat = a := fun a => by
    have hlt : a.toNat < 256 ^ 20 := a.isLt
    rw [Bytes.toNat_ofNat, Nat.mod_eq_of_lt hlt, BitVec.ofNat_toNat, BitVec.setWidth_eq]
  have hcohort : (UInt64.ofNat h.cohortSize).toNat = h.cohortSize :=
    UInt64.toNat_ofNat_of_lt hsize
  simp only [toSol, hword hd.roundId, hword hd.cohortRoot, hword hd.perRecipientAmount, hcohort,
    haddress, hword hd.chainId]

theorem splitApdu_encodeSignVoucher {authToken : Bytes 32} {serializedHeader : List UInt8}
    {ctx : VoucherContext} (hlen : serializedHeader.length = serializedHeaderLen) :
    ∃ body, splitApdu (encodeSignVoucher authToken serializedHeader ctx) =
        .ok ⟨cla, insSignVoucher, 0x00, 0x00, body⟩ ∧
      body = authToken.1 ++ serializedHeader ++ ctx.roundId.1 ++ ctx.cohortRoot.1 ++
        ctx.claimContract.1 ++ ctx.perRecipientAmount.1 ++ ctx.chainId.1 ∧
      body.length = signVoucherBodyLen := by
  generalize hbody : authToken.1 ++ serializedHeader ++ ctx.roundId.1 ++ ctx.cohortRoot.1 ++
    ctx.claimContract.1 ++ ctx.perRecipientAmount.1 ++ ctx.chainId.1 = body
  have hbodyLen : body.length = 372 := by
    rw [← hbody]
    simp [authToken.2, hlen, serializedHeaderLen, ctx.roundId.2, ctx.cohortRoot.2,
      ctx.claimContract.2, ctx.perRecipientAmount.2, ctx.chainId.2]
  refine ⟨body, ?_, rfl, hbodyLen⟩
  have happdu : encodeSignVoucher authToken serializedHeader ctx =
      [cla, insSignVoucher, 0x00, 0x00, 0x00, 0x01, 0x74] ++ body := by
    simp only [encodeSignVoucher, hbody, hbodyLen]
    rfl
  rw [happdu]
  simp [splitApdu, hbodyLen, failIf, cla]

theorem SoftwareSmartcard.serializedHeader_append (authToken : Bytes 32) {header : List UInt8}
    (hlen : header.length = serializedHeaderLen) (rest : List UInt8) :
    serializedHeader (authToken.1 ++ header ++ rest) = header := by
  rw [serializedHeader, List.append_assoc, List.drop_left' authToken.2, List.take_left' hlen]

end Offchain

end Pocs.Rails
