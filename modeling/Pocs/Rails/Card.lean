import Pocs.Lib.Method
import Pocs.Rails.Hashes

/-! # The card

`SoftwareSmartcard` of `software_smartcard.rs` and the derivations of `hmac.rs`. `transmit` takes any byte
string; the key that a card draws is an argument of the call, SHA-256, HMAC and the curve are parameters.
Whatever is sent, a card signs vouchers of authorised headers only, with one key (`Kept`). -/

namespace Pocs.Rails.Offchain

open Compliance (BnField)

/-- `SECP256K1_N_BE`. -/
def secp256k1N : Nat := 0xfffffffffffffffffffffffffffffffebaaedce6af48a03bbfd25e8cd0364141

/-- `SecretKey` of `k256`. -/
structure SecretKey where
  scalar : Nat
  pos : 0 < scalar
  lt : scalar < secp256k1N
  deriving DecidableEq

def SecretKey.toBytes (k : SecretKey) : Bytes 32 := .ofNat 32 k.scalar

/-- What the card takes from the crates. `derivePubkey` is `scalar_to_pubkey` too. -/
structure CardCrypto where
  sha256 : List UInt8 → Bytes 32
  hmac : List UInt8 → List UInt8 → Bytes 32
  derivePubkey : SecretKey → SecpPubkey
  signVoucher : SecretKey → Bytes 32 → Except CardError (Bytes 32 × Bytes 32)

/-! ## `crypto/hmac.rs` -/

def domainStealth : List UInt8 := "RDR/stealth/v1".toUTF8.toList

def reduceTagToScalar (tag : Bytes 32) : SecretKey where
  scalar := tag.toNat % (secp256k1N - 1) + 1
  pos := Nat.succ_pos _
  lt := by
    have hmod := Nat.mod_lt tag.toNat (show 0 < secp256k1N - 1 by decide)
    have hpos : 0 < secp256k1N := by decide
    omega

namespace CardCrypto
variable (P : CardCrypto)

def deriveStealthScalar (m : SecretKey) (roundId claimContract chainId : List UInt8) : SecretKey :=
  reduceTagToScalar (P.hmac m.toBytes.1 (domainStealth ++ roundId ++ claimContract ++ chainId))

def deriveAuthToken (companionPreKey hHeader : Bytes 32) : Bytes 32 := P.hmac companionPreKey.1 hHeader.1

end CardCrypto

/-! ## `software_smartcard.rs` -/

def domainVoucher : List UInt8 := "RDR/voucher/v1".toUTF8.toList

def voucherPreimageLen : Nat := 308

/-- The voucher context as the bytes in the body of a SIGN_VOUCHER. -/
structure ContextBytes where
  roundId : List UInt8
  cohortRoot : List UInt8
  claimContract : List UInt8
  amount : List UInt8
  chainId : List UInt8

def contextBytes (body : List UInt8) : ContextBytes :=
  let ctxBytes := body.drop (32 + serializedHeaderLen)
  { roundId := slice ctxBytes 0 32
    cohortRoot := slice ctxBytes 32 32
    claimContract := slice ctxBytes 64 20
    amount := slice ctxBytes 84 32
    chainId := slice ctxBytes 116 32 }

def voucherPreimage (P : CardCrypto) (ctx : ContextBytes) (mPubkey derivedPubkey : SecpPubkey) : List UInt8 :=
  let preimage := List.replicate voucherPreimageLen 0
  let preimage := copyFromSlice preimage 0 (P.sha256 domainVoucher).1
  let preimage := copyFromSlice preimage 32 ctx.roundId
  let preimage := copyFromSlice preimage 64 ctx.cohortRoot
  let preimage := copyFromSlice preimage 96 ctx.chainId
  let preimage := copyFromSlice preimage 128 mPubkey.x.1
  let preimage := copyFromSlice preimage 160 mPubkey.y.1
  let preimage := copyFromSlice preimage 192 derivedPubkey.x.1
  let preimage := copyFromSlice preimage 224 derivedPubkey.y.1
  let preimage := copyFromSlice preimage 256 ctx.amount
  copyFromSlice preimage 288 ctx.claimContract

/-- The card of the simulator. -/
structure SoftwareSmartcard where
  m : Option SecretKey
  companionPreKey : Option (Bytes 32)
  expectsAuthToken : Bool
  refusesPrehashed : Bool

namespace SoftwareSmartcard
variable (P : CardCrypto) (drawn : SecretKey) (card : SoftwareSmartcard)

def new (companionPreKey : Option (Bytes 32)) (expectsAuthToken : Bool) : SoftwareSmartcard :=
  ⟨none, companionPreKey, expectsAuthToken, true⟩

def ensureKey : SecretKey × SoftwareSmartcard :=
  match card.m with
  | some m => (m, card)
  | none => (drawn, { card with m := some drawn })

def handleGenerateKey : Except CardError (List UInt8) × SoftwareSmartcard :=
  (.ok [0x90, 0x00], (card.ensureKey drawn).2)

def handleExportKey : Except CardError (List UInt8) := do
  let m ← okOr card.m .keyNotGenerated
  let pk := P.derivePubkey m
  pure (pk.x.1 ++ pk.y.1 ++ [0x90, 0x00])

/-- The checks of `handle_sign_voucher`, up to the derivation of the key. -/
def checkSignVoucher (body : List UInt8) : Except CardError Unit := do
  failIf (card.refusesPrehashed = false) .preHashedHMsgRefused
  failIf (body.length = 32) .preHashedHMsgRefused
  failIf (body.length ≠ signVoucherBodyLen) .badApdu
  let authToken := slice body 0 32
  let serializedHeader := serializedHeader body
  let ctx := contextBytes body
  failIf (slice serializedHeader 0 32 ≠ ctx.roundId) .ctxHeaderMismatch
  failIf (slice serializedHeader 40 32 ≠ ctx.cohortRoot) .ctxHeaderMismatch
  failIf (slice serializedHeader 72 32 ≠ ctx.amount) .ctxHeaderMismatch
  failIf (slice serializedHeader 140 20 ≠ ctx.claimContract) .ctxHeaderMismatch
  failIf (slice serializedHeader 160 32 ≠ ctx.chainId) .ctxHeaderMismatch
  onlyIf (card.expectsAuthToken = true) (do
    let key ← okOr card.companionPreKey .authTokenMismatch
    let expected := P.deriveAuthToken key (hHeader P.sha256 body)
    failIf (expected.1 ≠ authToken) .authTokenMismatch)

/-- The rest of `handle_sign_voucher`. -/
def signContext (m : SecretKey) (ctx : ContextBytes) : Except CardError (List UInt8) := do
  let derived := P.deriveStealthScalar m ctx.roundId ctx.claimContract ctx.chainId
  let derivedPubkey := P.derivePubkey derived
  let mPubkey := P.derivePubkey m
  let (r, s) ← P.signVoucher m (P.sha256 (voucherPreimage P ctx mPubkey derivedPubkey))
  pure (mPubkey.x.1 ++ mPubkey.y.1 ++ derivedPubkey.x.1 ++ derivedPubkey.y.1 ++ r.1 ++ s.1 ++ [0x90, 0x00])

def handleSignVoucher (body : List UInt8) : Except CardError (List UInt8) × SoftwareSmartcard :=
  match card.checkSignVoucher P body with
  | .error e => (.error e, card)
  | .ok () => (signContext P (card.ensureKey drawn).1 (contextBytes body), (card.ensureKey drawn).2)

def transmit (apdu : List UInt8) : Except CardError (List UInt8) × SoftwareSmartcard :=
  match splitApdu apdu with
  | .error e => (.error e, card)
  | .ok apdu =>
    if apdu.ins = insGenerateKey then card.handleGenerateKey drawn
    else if apdu.ins = insExportKey then (card.handleExportKey P, card)
    else if apdu.ins = insSignVoucher then card.handleSignVoucher P drawn apdu.body
    else (.error .badApdu, card)

end SoftwareSmartcard

open SoftwareSmartcard

/-! ## `smartcard/apdu.rs` and `companion/core.rs` -/

/-- `decode_sign_voucher_response`: the master key, the derived key and the signature. -/
def decodeSignVoucherResponse (resp : List UInt8) :
    Except CardError (SecpPubkey × SecpPubkey × Bytes 32 × Bytes 32) := do
  failIf (resp.length ≠ 192 + 2) .badApdu
  failIf (resp.drop 192 ≠ [0x90, 0x00]) .badApdu
  pure (⟨.resize 32 (slice resp 0 32), .resize 32 (slice resp 32 32)⟩,
    ⟨.resize 32 (slice resp 64 32), .resize 32 (slice resp 96 32)⟩,
    .resize 32 (slice resp 128 32), .resize 32 (slice resp 160 32))

def claimNullifier {F : Type} [BnField F] (hash : List F → F) (mPub derivedPub : SecpPubkey)
    (roundId claimContract chainId : List UInt8) : F :=
  let mPacked := mPub.packed hash
  let derivedPubkeyPacked := hashDerivedPubkeyPacked hash (limbHi derivedPub.x) (limbLo derivedPub.x)
    (limbHi derivedPub.y) (limbLo derivedPub.y)
  let rPacked := packRoundId hash (frFromBeBytes (slice roundId 0 16)) (frFromBeBytes (slice roundId 16 16))
  let cPacked := packChainId hash (frFromBeBytes (slice chainId 0 16)) (frFromBeBytes (slice chainId 16 16))
  hashClaimNullifier hash mPacked derivedPubkeyPacked rPacked
    (frFromBeBytes (List.replicate 12 0 ++ claimContract)) cPacked

/-! ## What a card may sign -/

@[ext] structure Voucher where
  header : List UInt8
  length_eq : header.length = serializedHeaderLen

namespace Voucher
variable (v : Voucher) (P : CardCrypto) (m : SecretKey)

/-- The fields of the header, at the offsets of `serialize_round_header`. -/
def roundId : List UInt8 := slice v.header 0 32
def cohortRoot : List UInt8 := slice v.header 40 32
def amount : List UInt8 := slice v.header 72 32
def claimContract : List UInt8 := slice v.header 140 20
def chainId : List UInt8 := slice v.header 160 32

def hHeader : Bytes 32 := P.sha256 ((P.sha256 domainHeader).1 ++ v.header)

def derivedKey : SecretKey := P.deriveStealthScalar m v.roundId v.claimContract v.chainId

def derivedPubkey : SecpPubkey := P.derivePubkey (v.derivedKey P m)

def preimage : List UInt8 :=
  (P.sha256 domainVoucher).1 ++ v.roundId ++ v.cohortRoot ++ v.chainId ++
    (P.derivePubkey m).x.1 ++ (P.derivePubkey m).y.1 ++
    (v.derivedPubkey P m).x.1 ++ (v.derivedPubkey P m).y.1 ++ v.amount ++ v.claimContract

/-- A response with the signature `(r, s)`. -/
def response (r s : Bytes 32) : List UInt8 :=
  (P.derivePubkey m).x.1 ++ (P.derivePubkey m).y.1 ++ (v.derivedPubkey P m).x.1 ++
    (v.derivedPubkey P m).y.1 ++ r.1 ++ s.1 ++ [0x90, 0x00]

def body (authToken : Bytes 32) : List UInt8 :=
  authToken.1 ++ v.header ++ (v.roundId ++ v.cohortRoot ++ v.claimContract ++ v.amount ++ v.chainId)

end Voucher

/-- The message carries the header of the voucher with its token, and the response a signature of the
voucher's preimage. -/
structure Signs (P : CardCrypto) (preKey : Bytes 32) (m : SecretKey) (v : Voucher)
    (apdu response : List UInt8) : Prop where
  length_preimage : (v.preimage P m).length = voucherPreimageLen
  message : ∃ a, splitApdu apdu = .ok a ∧ a.ins = insSignVoucher ∧
    a.body = v.body (P.deriveAuthToken preKey (v.hHeader P))
  signed : ∃ r s, P.signVoucher m (P.sha256 (v.preimage P m)) = .ok (r, s) ∧ response = v.response P m r s

/-- The answers of the two commands that need no token. -/
def Unsigned (P : CardCrypto) (m : SecretKey) (apdu response : List UInt8) : Prop :=
  ∃ a, splitApdu apdu = .ok a ∧ (a.ins = insGenerateKey ∧ response = [0x90, 0x00] ∨ a.ins = insExportKey ∧
        response = (P.derivePubkey m).x.1 ++ (P.derivePubkey m).y.1 ++ [0x90, 0x00])

/-! ## The body -/

section
variable {P : CardCrypto} {body : List UInt8}

theorem length_serializedHeader (h : body.length = signVoucherBodyLen) :
    (serializedHeader body).length = serializedHeaderLen := by
  rw [serializedHeader, List.length_take, List.length_drop, h]
  rfl

def headerOf (h : body.length = signVoucherBodyLen) : Voucher :=
  ⟨serializedHeader body, length_serializedHeader h⟩

structure Repeats (v : Voucher) (ctx : ContextBytes) : Prop where
  roundId : v.roundId = ctx.roundId
  cohortRoot : v.cohortRoot = ctx.cohortRoot
  amount : v.amount = ctx.amount
  claimContract : v.claimContract = ctx.claimContract
  chainId : v.chainId = ctx.chainId

theorem contextBytes_append (h : body.length = signVoucherBodyLen) :
    (contextBytes body).roundId ++ (contextBytes body).cohortRoot ++ (contextBytes body).claimContract ++
      (contextBytes body).amount ++ (contextBytes body).chainId = body.drop (32 + serializedHeaderLen) := by
  have hlength : (body.drop (32 + serializedHeaderLen)).length = voucherCtxLen := by
    rw [List.length_drop, h]
    rfl
  simp only [contextBytes]
  generalize body.drop (32 + serializedHeaderLen) = ctx at *
  have hroot : slice ctx 0 32 ++ slice ctx 32 32 = slice ctx 0 64 := slice_append ctx 0 32 32
  have hcontract : slice ctx 0 64 ++ slice ctx 64 20 = slice ctx 0 84 := slice_append ctx 0 64 20
  have hamount : slice ctx 0 84 ++ slice ctx 84 32 = slice ctx 0 116 := slice_append ctx 0 84 32
  have hchain : slice ctx 0 116 ++ slice ctx 116 32 = slice ctx 0 148 := slice_append ctx 0 116 32
  rw [hroot, hcontract, hamount, hchain]
  exact slice_full hlength

/-- The body is the token, the header and the context. -/
theorem body_eq (h : body.length = signVoucherBodyLen) (hrepeats : Repeats (headerOf h) (contextBytes body))
    {authToken : Bytes 32} (htoken : authToken.1 = slice body 0 32) : body = (headerOf h).body authToken := by
  have hfront : slice body 0 32 ++ serializedHeader body =
      slice body 0 (32 + serializedHeaderLen) := slice_append body 0 32 serializedHeaderLen
  rw [Voucher.body, hrepeats.roundId, hrepeats.cohortRoot, hrepeats.claimContract, hrepeats.amount,
    hrepeats.chainId, contextBytes_append h, htoken]
  show body = slice body 0 32 ++ serializedHeader body ++ _
  rw [hfront, slice, List.drop_zero, List.take_append_drop]

end

/-! ## The preimage -/

section
variable {P : CardCrypto} {v : Voucher} {ctx : ContextBytes} {m : SecretKey}

theorem Voucher.length_slice (v : Voucher) {off n : Nat} (h : off + n ≤ serializedHeaderLen) :
    (slice v.header off n).length = n :=
  Pocs.length_slice (h.trans v.length_eq.ge)

def Voucher.context (v : Voucher) : VoucherContext where
  roundId := ⟨v.roundId, v.length_slice (by decide)⟩
  cohortRoot := ⟨v.cohortRoot, v.length_slice (by decide)⟩
  claimContract := ⟨v.claimContract, v.length_slice (by decide)⟩
  perRecipientAmount := ⟨v.amount, v.length_slice (by decide)⟩
  chainId := ⟨v.chainId, v.length_slice (by decide)⟩

theorem splitApdu_voucher (v : Voucher) (authToken : Bytes 32) :
    splitApdu (encodeSignVoucher authToken v.header v.context) =
      .ok ⟨cla, insSignVoucher, 0x00, 0x00, v.body authToken⟩ := by
  obtain ⟨body, hsplit, hbody, -⟩ :=
    @splitApdu_encodeSignVoucher authToken v.header v.context v.length_eq
  rw [hsplit, hbody]
  simp only [Voucher.body, Voucher.context, List.append_assoc]

theorem Voucher.length_preimage (v : Voucher) (P : CardCrypto) (m : SecretKey) :
    (v.preimage P m).length = voucherPreimageLen := by
  simp only [preimage, List.length_append, (P.sha256 domainVoucher).2, (P.derivePubkey m).x.2,
    (P.derivePubkey m).y.2, (v.derivedPubkey P m).x.2, (v.derivedPubkey P m).y.2, roundId, cohortRoot, amount,
    claimContract, chainId]
  rw [v.length_slice (by decide), v.length_slice (by decide), v.length_slice (by decide),
    v.length_slice (by decide), v.length_slice (by decide)]
  rfl

/-- The preimage that is built is the one of the header. -/
theorem voucherPreimage_eq (h : Repeats v ctx) :
    voucherPreimage P ctx (P.derivePubkey m) (v.derivedPubkey P m) = v.preimage P m := by
  have hround : v.roundId.length = 32 := v.length_slice (by decide)
  have hroot : v.cohortRoot.length = 32 := v.length_slice (by decide)
  have hamount : v.amount.length = 32 := v.length_slice (by decide)
  have hcontract : v.claimContract.length = 20 := v.length_slice (by decide)
  have hchain : v.chainId.length = 32 := v.length_slice (by decide)
  have hwrite := foldl_copyFromSlice_flatten [(P.sha256 domainVoucher).1, v.roundId, v.cohortRoot, v.chainId,
    (P.derivePubkey m).x.1, (P.derivePubkey m).y.1, (v.derivedPubkey P m).x.1, (v.derivedPubkey P m).y.1,
    v.amount, v.claimContract] [] 308
  simp only [List.foldl_cons, List.foldl_nil, List.nil_append, List.length_nil, (P.sha256 domainVoucher).2,
    hround, hroot, hamount, hcontract, hchain, (P.derivePubkey m).x.2, (P.derivePubkey m).y.2,
    (v.derivedPubkey P m).x.2, (v.derivedPubkey P m).y.2, List.flatten_cons, List.flatten_nil,
    List.length_append, Nat.reduceAdd, Nat.sub_self, List.replicate_zero, List.append_nil, Prod.mk.injEq,
    and_true] at hwrite
  simp only [voucherPreimage, voucherPreimageLen, Voucher.preimage, List.append_assoc, ← h.roundId,
    ← h.cohortRoot, ← h.amount, ← h.claimContract, ← h.chainId]
  exact hwrite

/-- The card's response holds what it was built from. -/
theorem decodeSignVoucherResponse_response (v : Voucher) (P : CardCrypto) (m : SecretKey) (r s : Bytes 32) :
    decodeSignVoucherResponse (v.response P m r s) = .ok (P.derivePubkey m, v.derivedPubkey P m, r, s) := by
  have hmx := (P.derivePubkey m).x.2
  have hmy := (P.derivePubkey m).y.2
  have hdx := (v.derivedPubkey P m).x.2
  have hdy := (v.derivedPubkey P m).y.2
  have hr := r.2
  have hs := s.2
  have hresize : ∀ (b : Bytes 32), Bytes.resize 32 b.1 = b :=
    fun b => Subtype.ext (Bytes.resize_val b.2)
  have hlength : (v.response P m r s).length = 192 + 2 := by
    simp [Voucher.response, hmx, hmy, hdx, hdy, hr, hs]
  have hstatus : (v.response P m r s).drop 192 = [0x90, 0x00] := by
    rw [Voucher.response, List.drop_left']
    simp [hmx, hmy, hdx, hdy, hr, hs]
  rw [decodeSignVoucherResponse, failIf, if_neg (not_not.mpr hlength), failIf, if_neg (not_not.mpr hstatus)]
  simp only [Voucher.response, slice, List.drop_append, List.take_append, List.length_append, hmx, hmy, hdx,
    hdy, hr, hs, List.drop_of_length_le, List.take_of_length_le, Nat.reduceAdd, Nat.reduceSub, List.drop_zero,
    List.take_zero, List.nil_append, List.append_nil, hresize, le_refl]
  rfl

end

/-- What the card reads of the message for a voucher. -/
theorem read_body {body : List UInt8} {authToken : Bytes 32} (hbody : body = v.body authToken) :
    ∃ h : body.length = signVoucherBodyLen,
      headerOf h = v ∧ Repeats v (contextBytes body) ∧ authToken.1 = slice body 0 32 := by
  subst hbody
  have hround : v.roundId.length = 32 := v.length_slice (by decide)
  have hroot : v.cohortRoot.length = 32 := v.length_slice (by decide)
  have hamount : v.amount.length = 32 := v.length_slice (by decide)
  have hcontract : v.claimContract.length = 20 := v.length_slice (by decide)
  have hchain : v.chainId.length = 32 := v.length_slice (by decide)
  have hlength : (v.body authToken).length = signVoucherBodyLen := by
    simp only [Voucher.body, List.length_append, authToken.2, v.length_eq, hround, hroot, hamount, hcontract,
      hchain]
    rfl
  have hctx : (v.body authToken).drop (32 + serializedHeaderLen) =
      v.roundId ++ v.cohortRoot ++ v.claimContract ++ v.amount ++ v.chainId := by
    rw [Voucher.body, List.drop_left']
    rw [List.length_append, authToken.2, v.length_eq]
  refine ⟨hlength, ?_, ?_, ?_⟩
  · exact Voucher.ext (serializedHeader_append authToken v.length_eq _)
  · simp only [contextBytes, hctx]
    constructor
    all_goals simp only [slice, List.drop_append, List.take_append, List.length_append, hround, hroot, hamount,
        hcontract, hchain, List.drop_of_length_le, List.take_of_length_le, Nat.reduceAdd, Nat.reduceSub,
        List.drop_zero, List.take_zero, List.nil_append, List.append_nil, le_refl]
  · rw [slice, List.drop_zero, Voucher.body, List.append_assoc, List.take_left' authToken.2]

/-! ## Calls -/

section
variable {P : CardCrypto} {card : SoftwareSmartcard} {drawn m : SecretKey} {body apdu resp : List UInt8}

/-- The checks of a card that expects tokens. -/
theorem checkSignVoucher_eq_ok {preKey : Bytes 32} (hkey : card.companionPreKey = some preKey)
    (hexpects : card.expectsAuthToken = true) (hrefuses : card.refusesPrehashed = true) :
    card.checkSignVoucher P body = .ok () ↔ ∃ h : body.length = signVoucherBodyLen,
      Repeats (headerOf h) (contextBytes body) ∧
        (P.deriveAuthToken preKey ((headerOf h).hHeader P)).1 = slice body 0 32 := by
  constructor
  · intro h
    simp only [checkSignVoucher, bind_eq_ok, failIf_eq_ok, onlyIf_eq_ok, okOr_eq_ok,
      exists_const, ne_eq, not_not] at h
    obtain ⟨-, -, hlen, hround, hroot, hamount, hcontract, hchain, hauth⟩ := h
    obtain ⟨key, hcard, htoken⟩ := hauth hexpects
    obtain rfl := Option.some.inj (hkey.symm.trans hcard)
    exact ⟨hlen, ⟨hround, hroot, hamount, hcontract, hchain⟩, htoken⟩
  · intro h
    obtain ⟨hlen, hrepeats, htoken⟩ := h
    have hne : body.length ≠ 32 := by
      rw [hlen]
      decide
    simp only [checkSignVoucher, bind_eq_ok, failIf_eq_ok, onlyIf_eq_ok, okOr_eq_ok,
      exists_const, ne_eq, not_not]
    refine ⟨?_, hne, hlen, hrepeats.roundId, hrepeats.cohortRoot, hrepeats.amount, hrepeats.claimContract,
      hrepeats.chainId, fun _ => ⟨preKey, hkey, htoken⟩⟩
    rw [hrefuses]
    exact Bool.noConfusion

theorem signContext_eq_ok {v : Voucher} {ctx : ContextBytes} (hrepeats : Repeats v ctx) :
    signContext P m ctx = .ok resp ↔
      ∃ r s, P.signVoucher m (P.sha256 (v.preimage P m)) = .ok (r, s) ∧ resp = v.response P m r s := by
  have hderived : P.deriveStealthScalar m ctx.roundId ctx.claimContract ctx.chainId = v.derivedKey P m := by
    rw [Voucher.derivedKey, hrepeats.roundId, hrepeats.claimContract, hrepeats.chainId]
  simp only [signContext, hderived, bind_eq_ok, pure_eq_ok]
  rw [← Voucher.derivedPubkey, voucherPreimage_eq hrepeats]
  constructor
  · intro h
    obtain ⟨⟨r, s⟩, hsign, rfl⟩ := h
    exact ⟨r, s, hsign, rfl⟩
  · intro h
    obtain ⟨r, s, hsign, rfl⟩ := h
    exact ⟨(r, s), hsign, rfl⟩

/-- A card that has been given its pre-key and asks for tokens. -/
structure Guarded (preKey : Bytes 32) (card : SoftwareSmartcard) : Prop where
  preKey : card.companionPreKey = some preKey
  expects : card.expectsAuthToken = true
  refuses : card.refusesPrehashed = true

theorem guarded_new (preKey : Bytes 32) : Guarded preKey (SoftwareSmartcard.new (some preKey) true) :=
  ⟨rfl, rfl, rfl⟩

/-- A call draws a key or keeps the card. -/
theorem transmit_card (P : CardCrypto) (drawn : SecretKey) (apdu : List UInt8) (card : SoftwareSmartcard) :
    (card.transmit P drawn apdu).2 = card ∨ (card.transmit P drawn apdu).2 = (card.ensureKey drawn).2 := by
  rw [transmit]
  cases splitApdu apdu with
  | error e => exact .inl rfl
  | ok a =>
    dsimp only
    split
    · exact .inr rfl
    · split
      · exact .inl rfl
      · split
        · rw [handleSignVoucher]
          cases card.checkSignVoucher P a.body with
          | error e => exact .inl rfl
          | ok u => exact .inr rfl
        · exact .inl rfl

theorem ensureKey_of_some (h : card.m = some m) : card.ensureKey drawn = (m, card) := by
  rw [SoftwareSmartcard.ensureKey, h]

theorem ensureKey_spec (card : SoftwareSmartcard) (drawn : SecretKey) :
    (card.ensureKey drawn).2.m = some (card.ensureKey drawn).1 := by
  rw [SoftwareSmartcard.ensureKey]
  cases hm : card.m with
  | none => rfl
  | some m => exact hm

theorem Guarded.ensureKey {preKey : Bytes 32} (h : Guarded preKey card) (drawn : SecretKey) :
    Guarded preKey (card.ensureKey drawn).2 := by
  rw [SoftwareSmartcard.ensureKey]
  cases card.m with
  | none => exact ⟨h.preKey, h.expects, h.refuses⟩
  | some m => exact h

theorem Guarded.transmit {preKey : Bytes 32} (h : Guarded preKey card) (drawn : SecretKey)
    (apdu : List UInt8) : Guarded preKey (card.transmit P drawn apdu).2 := by
  rcases transmit_card P drawn apdu card with hcard | hcard
  · rwa [hcard]
  · rw [hcard]
    exact h.ensureKey drawn

/-- A key that is set stays. -/
theorem m_transmit (h : card.m = some m) (drawn : SecretKey) (apdu : List UInt8) :
    (card.transmit P drawn apdu).2.m = some m := by
  rcases transmit_card P drawn apdu card with hcard | hcard
  · rwa [hcard]
  · rw [hcard, ensureKey_of_some h]
    exact h

/-- A response is a signature for a voucher, or it is for a message that asks for none. -/
theorem transmit_ok {preKey : Bytes 32} (h : Guarded preKey card)
    (hok : (card.transmit P drawn apdu).1 = .ok resp) : ∃ m, (card.transmit P drawn apdu).2.m = some m ∧
      (Unsigned P m apdu resp ∨ ∃ v, Signs P preKey m v apdu resp) := by
  rw [transmit] at hok ⊢
  cases hsplit : splitApdu apdu with
  | error e =>
    rw [hsplit] at hok
    cases hok
  | ok a =>
    rw [hsplit] at hok
    dsimp only at hok ⊢
    split at hok
    · next hins =>
      rw [if_pos hins]
      cases hok
      exact ⟨_, ensureKey_spec card drawn, .inl ⟨a, hsplit, .inl ⟨hins, rfl⟩⟩⟩
    · next hgenerate =>
      split at hok
      · next hins =>
        rw [if_neg hgenerate, if_pos hins]
        simp only [handleExportKey, bind_eq_ok, okOr_eq_ok, pure_eq_ok] at hok
        obtain ⟨m, hm, rfl⟩ := hok
        exact ⟨m, hm, .inl ⟨a, hsplit, .inr ⟨hins, rfl⟩⟩⟩
      · next hexport =>
        split at hok
        · next hins =>
          rw [if_neg hgenerate, if_neg hexport, if_pos hins]
          rw [handleSignVoucher] at hok ⊢
          cases hcheck : card.checkSignVoucher P a.body with
          | error e =>
            rw [hcheck] at hok
            cases hok
          | ok u =>
            rw [hcheck] at hok
            obtain ⟨hlen, hrepeats, htoken⟩ :=
              (checkSignVoucher_eq_ok h.preKey h.expects h.refuses).mp hcheck
            exact ⟨_, ensureKey_spec card drawn, .inr ⟨headerOf hlen, Voucher.length_preimage _ P _,
              ⟨a, hsplit, hins, body_eq hlen hrepeats htoken⟩, (signContext_eq_ok hrepeats).mp hok⟩⟩
        · cases hok

/-- A message with a header and its token is signed. -/
theorem transmit_voucher {preKey : Bytes 32} (h : Guarded preKey card) {v : Voucher} {a : Apdu} {r s : Bytes 32}
    (hsplit : splitApdu apdu = .ok a) (hins : a.ins = insSignVoucher)
    (hbody : a.body = v.body (P.deriveAuthToken preKey (v.hHeader P)))
    (hsign : P.signVoucher (card.ensureKey drawn).1 (P.sha256 (v.preimage P (card.ensureKey drawn).1)) =
      .ok (r, s)) : card.transmit P drawn apdu =
      (.ok (v.response P (card.ensureKey drawn).1 r s), (card.ensureKey drawn).2) := by
  obtain ⟨hlen, rfl, hrepeats, htoken⟩ := read_body hbody
  have hcheck : card.checkSignVoucher P a.body = .ok () :=
    (checkSignVoucher_eq_ok h.preKey h.expects h.refuses).mpr ⟨hlen, hrepeats, htoken⟩
  have hgenerate : ¬ a.ins = insGenerateKey := by
    rw [hins]
    decide
  have hexport : ¬ a.ins = insExportKey := by
    rw [hins]
    decide
  rw [transmit, hsplit]
  dsimp only
  rw [if_neg hgenerate, if_neg hexport, if_pos hins, handleSignVoucher, hcheck]
  dsimp only
  rw [(signContext_eq_ok hrepeats).mpr ⟨r, s, hsign, rfl⟩]

end

/-! ## Runs -/

/-- A message, the key drawn during the call, and the answer. -/
structure Exchange where
  apdu : List UInt8
  drawn : SecretKey
  answer : Except CardError (List UInt8)

/-- The card answers a message. -/
def Transmits (P : CardCrypto) (card : SoftwareSmartcard) (ex : Exchange) (card' : SoftwareSmartcard) :
    Prop :=
  card.transmit P ex.drawn ex.apdu = (ex.answer, card')

section
variable {P : CardCrypto} {preKey : Bytes 32} {card card' : SoftwareSmartcard} {m : SecretKey}
  {ex : Exchange} {tr : List Exchange}

/-- What the answers of a card have been. -/
structure Kept (P : CardCrypto) (preKey : Bytes 32) (tr : List Exchange) (card : SoftwareSmartcard) : Prop where
  guarded : Guarded preKey card
  answers : ∀ ex ∈ tr, ∀ resp, ex.answer = .ok resp → ∃ m, card.m = some m ∧
    (Unsigned P m ex.apdu resp ∨ ∃ v, Signs P preKey m v ex.apdu resp)

theorem Transmits.m_eq (h : Transmits P card ex card') (hm : card.m = some m) : card'.m = some m := by
  have hkept := m_transmit (P := P) hm ex.drawn ex.apdu
  rwa [h] at hkept

theorem Kept.step (hkept : Kept P preKey tr card) (h : Transmits P card ex card') :
    Kept P preKey (ex :: tr) card' where
  guarded := by
    have hguarded := hkept.guarded.transmit (P := P) ex.drawn ex.apdu
    rwa [h] at hguarded
  answers ex' hmem resp hok := by
    rcases List.mem_cons.mp hmem with rfl | hmem
    · have hanswer := transmit_ok hkept.guarded ((congrArg Prod.fst h).trans hok)
      rwa [h] at hanswer
    · obtain ⟨m, hm, hanswer⟩ := hkept.answers ex' hmem resp hok
      exact ⟨m, h.m_eq hm, hanswer⟩

theorem Run.kept (h : Run (Transmits P) (SoftwareSmartcard.new (some preKey) true) tr card) :
    Kept P preKey tr card := by
  induction h with
  | nil => exact ⟨guarded_new preKey, fun ex hmem => absurd hmem List.not_mem_nil⟩
  | cons _ hstep ih => exact ih.step hstep

theorem Run.m_eq (h : Run (Transmits P) card tr card') (hm : card.m = some m) : card'.m = some m := by
  induction h with
  | nil => exact hm
  | cons _ hstep ih => exact hstep.m_eq ih

/-- Vouchers of one round, contract and chain have one derived key. -/
theorem Voucher.derivedPubkey_eq {v v' : Voucher} (hround : v.roundId = v'.roundId)
    (hcontract : v.claimContract = v'.claimContract) (hchain : v.chainId = v'.chainId) :
    v.derivedPubkey P m = v'.derivedPubkey P m := by
  rw [derivedPubkey, derivedPubkey, derivedKey, derivedKey, hround, hcontract, hchain]

/-- The answer of a card with the key `m` signs the voucher. -/
def Exchange.Signs (P : CardCrypto) (preKey : Bytes 32) (m : SecretKey) (ex : Exchange) (v : Voucher) : Prop :=
  ∃ resp, ex.answer = .ok resp ∧ Offchain.Signs P preKey m v ex.apdu resp

/-- The key of a card never changes once it is set. An answer that is no error is a signature for a voucher
whose header came with its token, or it answers GENERATE_KEY or EXPORT_KEY. Two signatures for one round,
claim contract and chain carry one derived key and one nullifier. -/
theorem card_signs_authorised {F : Type} [BnField F] (hash : List F → F)
    (h : Run (Transmits P) (SoftwareSmartcard.new (some preKey) true) tr card) :
    (∀ m tr' card', card.m = some m → Run (Transmits P) card tr' card' → card'.m = some m) ∧
    (∀ ex ∈ tr, ∀ resp, ex.answer = .ok resp → ∃ m, card.m = some m ∧
      (Unsigned P m ex.apdu resp ∨ ∃ v, ex.Signs P preKey m v)) ∧
    ∀ ex ∈ tr, ∀ ex' ∈ tr, ∀ m v v', card.m = some m → ex.Signs P preKey m v → ex'.Signs P preKey m v' →
      v.roundId = v'.roundId → v.claimContract = v'.claimContract → v.chainId = v'.chainId →
      ∃ resp resp' mPub derivedPub sig sig', ex.answer = .ok resp ∧ ex'.answer = .ok resp' ∧
        decodeSignVoucherResponse resp = .ok (mPub, derivedPub, sig) ∧
        decodeSignVoucherResponse resp' = .ok (mPub, derivedPub, sig') ∧
        claimNullifier hash mPub derivedPub v.roundId v.claimContract v.chainId =
          claimNullifier hash mPub derivedPub v'.roundId v'.claimContract v'.chainId := by
  refine ⟨fun m tr' card' hm hrun => Run.m_eq hrun hm, fun ex hmem resp hok => ?_, ?_⟩
  · obtain ⟨m, hm, hunsigned | ⟨v, hsigns⟩⟩ := (Run.kept h).answers ex hmem resp hok
    · exact ⟨m, hm, .inl hunsigned⟩
    · exact ⟨m, hm, .inr ⟨v, resp, hok, hsigns⟩⟩
  · intro ex hmem ex' hmem' m v v' hm hsigns hsigns' hround hcontract hchain
    obtain ⟨resp, hok, -, -, r, s, -, rfl⟩ := hsigns
    obtain ⟨resp', hok', -, -, r', s', -, rfl⟩ := hsigns'
    refine ⟨_, _, _, _, _, (r', s'), hok, hok', decodeSignVoucherResponse_response v P m r s, ?_, ?_⟩
    · rw [Voucher.derivedPubkey_eq hround hcontract hchain]
      exact decodeSignVoucherResponse_response v' P m r' s'
    · rw [hround, hcontract, hchain]

end

/-! ## A card that signs -/

namespace CardSample

def crypto : CardCrypto where
  sha256 bs := .ofNat 32 bs.length
  hmac key message := .ofNat 32 (key.length + message.length)
  derivePubkey m := ⟨.ofNat 32 m.scalar, .ofNat 32 1⟩
  signVoucher m digest := .ok (digest, .ofNat 32 m.scalar)

def key : SecretKey := ⟨7, by decide, by decide⟩

def preKey : Bytes 32 := .zero 32

def voucher : Voucher := ⟨List.replicate 192 0, List.length_replicate⟩

/-- `encode_generate_key`. -/
def generateKey : List UInt8 := [0x80, 0x01, 0x00, 0x00, 0x00]

def generated : Exchange := ⟨generateKey, key, .ok [0x90, 0x00]⟩

def card : SoftwareSmartcard := ⟨some key, some preKey, true, true⟩

def signed : Exchange where
  apdu := encodeSignVoucher (crypto.deriveAuthToken preKey (voucher.hHeader crypto)) voucher.header
    voucher.context
  drawn := key
  answer := .ok (voucher.response crypto key (crypto.sha256 (voucher.preimage crypto key)) (.ofNat 32 7))

theorem run_generated : Run (Transmits crypto) (SoftwareSmartcard.new (some preKey) true) [generated] card :=
  .cons .nil rfl

theorem run_signed :
    Run (Transmits crypto) (SoftwareSmartcard.new (some preKey) true) [signed, generated] card := by
  refine .cons run_generated ?_
  have hguarded : Guarded preKey card := ⟨rfl, rfl, rfl⟩
  exact @transmit_voucher crypto card key signed.apdu preKey hguarded voucher _ _ _
    (splitApdu_voucher voucher _) rfl rfl rfl

end CardSample

open CardSample

/-- A card that signs a voucher after GENERATE_KEY. -/
theorem card_signs_authorised_sample : Run (Transmits crypto) (SoftwareSmartcard.new (some preKey) true)
      [signed, generated] card ∧
    ∃ resp m, signed.answer = .ok resp ∧ card.m = some m ∧ (Unsigned crypto m signed.apdu resp ∨
        ∃ v, signed.Signs crypto preKey m v) := by
  obtain ⟨-, hanswers, -⟩ := card_signs_authorised Compliance.idealHash run_signed
  obtain ⟨m, hm, hanswer⟩ := hanswers signed List.mem_cons_self _ rfl
  exact ⟨run_signed, _, m, rfl, hm, hanswer⟩

/-- GENERATE_KEY carries no authorised header and is answered without an error. -/
theorem generateKey_answered : Run (Transmits crypto) (SoftwareSmartcard.new (some preKey) true)
      [⟨generateKey, key, .ok [0x90, 0x00]⟩] card ∧
    ¬ ∃ m v resp, Signs crypto preKey m v generateKey resp := by
  refine ⟨run_generated, ?_⟩
  intro h
  obtain ⟨m, v, resp, -, ⟨a, hsplit, hins, -⟩, -⟩ := h
  cases hsplit
  exact absurd hins (by decide)

end Pocs.Rails.Offchain
