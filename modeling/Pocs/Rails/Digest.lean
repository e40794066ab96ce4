import Pocs.Rails.Effects

/-! # What the header signature binds

The four implementations hash one byte string for a header, and two headers that the factory can
publish have one byte string only if they are the same. -/

namespace Pocs.Rails

open Compliance (Address BnField)

theorem RoundHeader.Decoded.fields_fit {h : RoundHeader} (hd : h.Decoded) :
    ∀ f ∈ h.fields, f.2 < 256 ^ f.1 := by
  simp only [RoundHeader.fields, List.forall_mem_cons, List.not_mem_nil, false_implies, implies_true, and_true]
  exact ⟨hd.roundId, h.cohortVersion.toNat_lt, hd.cohortRoot, hd.perRecipientAmount,
    Nat.mod_lt _ (by decide), h.token.isLt, h.closeTime.toNat_lt, h.claimContractAddress.isLt,
    hd.chainId⟩

/-- The packed encoding loses nothing of a header whose size fits into a `uint64`. -/
theorem RoundHeader.packed_inj {h h' : RoundHeader} (hd : h.Decoded) (hd' : h'.Decoded)
    (hsize : h.cohortSize < 2 ^ 64) (hsize' : h'.cohortSize < 2 ^ 64) (heq : h.packed = h'.packed) :
    h = h' := by
  have hwidths : h.fields.map Prod.fst = h'.fields.map Prod.fst := rfl
  have hfields := beRecord_inj hwidths hd.fields_fit hd'.fields_fit heq
  simp only [RoundHeader.fields, List.cons.injEq, Prod.mk.injEq, true_and, and_true,
    Nat.mod_eq_of_lt hsize, Nat.mod_eq_of_lt hsize'] at hfields
  obtain ⟨hround, hversion, hroot, hamount, hcohort, htoken, hclose, hcontract, hchain⟩ := hfields
  cases h
  cases h'
  simp only [RoundHeader.mk.injEq]
  exact ⟨hround, UInt64.toNat_inj.mp hversion, hroot, hamount, hcohort, BitVec.eq_of_toNat_eq htoken,
    UInt64.toNat_inj.mp hclose, BitVec.eq_of_toNat_eq hcontract, hchain⟩

variable {F T τ : Type} [BnField F]

/-- Some call publishes the header. -/
def Accepts (D : Deployment F T τ) (h : RoundHeader) : Prop :=
  ∃ w factory sender commitments w', publishRound D w factory sender h commitments = .ok w'

/-- The calldata of an accepted header holds a commitment for each card, so their number is that of an
array that can be decoded. -/
theorem Accepts.cohortSize_lt {D : Deployment F T τ} {h : RoundHeader} (hok : Accepts D h) :
    h.Decoded ∧ h.cohortSize < 2 ^ 64 := by
  obtain ⟨w, factory, sender, commitments, w', hok⟩ := hok
  have hpublish := (publishRound_eq_ok.mp hok).1
  exact ⟨hpublish.decoded, hpublish.length ▸ hpublish.length_lt⟩

/-- Funder, companion, card and factory hash the same byte string for a header of the Rust types,
which is all headers whose size is a `u64`, and two headers that the factory accepts with one hashed
byte string are one header. -/
theorem header_digest_binds (D : Deployment F T τ) (sha256 : List UInt8 → Bytes 32) :
    (∀ (h : Offchain.RoundHeader) (authToken : Bytes 32) (ctx : Offchain.VoucherContext),
      Offchain.Funder.hHeaderInput sha256 h = h.toSol.hHeaderInput sha256 ∧
      Offchain.Companion.hHeaderInput sha256 h = h.toSol.hHeaderInput sha256 ∧
      Offchain.Funder.hHeader sha256 h = computeHHeader sha256 h.toSol ∧
      Offchain.Companion.hHeader sha256 h = computeHHeader sha256 h.toSol ∧
      ∃ apdu, Offchain.splitApdu (Offchain.encodeSignVoucher authToken
          (Offchain.serializeRoundHeader h) ctx) = .ok apdu ∧ apdu.ins = Offchain.insSignVoucher ∧
        Offchain.SoftwareSmartcard.hHeaderInput sha256 apdu.body = h.toSol.hHeaderInput sha256 ∧
        Offchain.SoftwareSmartcard.hHeader sha256 apdu.body = computeHHeader sha256 h.toSol) ∧
    (∀ h : RoundHeader, h.Decoded → h.cohortSize < 2 ^ 64 → ∃ rust : Offchain.RoundHeader, rust.toSol = h) ∧
    ∀ h h' : RoundHeader, Accepts D h → Accepts D h' →
      h.hHeaderInput sha256 = h'.hHeaderInput sha256 → h = h' := by
  refine ⟨fun h authToken ctx => ?_, fun h hd hsize => ?_, fun h h' hok hok' heq => ?_⟩
  · have hcompanion : Offchain.Companion.hHeaderInput sha256 h = h.toSol.hHeaderInput sha256 := by
      rw [RoundHeader.hHeaderInput, Offchain.RoundHeader.packed_toSol]
      rfl
    obtain ⟨body, hsplit, hbody, -⟩ := Offchain.splitApdu_encodeSignVoucher
      (Offchain.length_serializeRoundHeader h)
    have hdigest : ∀ {input input'}, input = input' → input = input' ∧ sha256 input = sha256 input' :=
      fun heq => ⟨heq, congrArg sha256 heq⟩
    have hsame := (hdigest hcompanion).2
    refine ⟨hcompanion, hcompanion, hsame, hsame, _, hsplit, rfl, hdigest ?_⟩
    have hheader := Offchain.SoftwareSmartcard.serializedHeader_append authToken
      (Offchain.length_serializeRoundHeader h) (ctx.roundId.1 ++ (ctx.cohortRoot.1 ++
        (ctx.claimContract.1 ++ (ctx.perRecipientAmount.1 ++ ctx.chainId.1))))
    rw [← hcompanion, Offchain.SoftwareSmartcard.hHeaderInput, hbody]
    simp only [List.append_assoc] at hheader ⊢
    rw [hheader]
    rfl
  · exact Offchain.RoundHeader.exists_toSol hd hsize
  · obtain ⟨hd, hsize⟩ := hok.cohortSize_lt
    obtain ⟨hd', hsize'⟩ := hok'.cohortSize_lt
    exact RoundHeader.packed_inj hd hd' hsize hsize' (List.append_cancel_left heq)

/-! ## A round of one card -/

namespace Sample

def imtNode : Unbounded → Unbounded → Unbounded := fun l r => Compliance.idealHash [l, r]

def deployment : Deployment Unbounded (LeanImtTree imtNode) (Address → Nat) where
  imt := leanImt _
  chainId := 1
  governance := 1
  poolAddress := 2
  tokenAddress := 3
  token := ledgerErc20 Address
  factories _ := ⟨4, 5⟩
  claims _ := ⟨6, 7, 5, 8⟩
  verifyClaim _ _ _ := false
  verifyPoolWithdraw _ _ _ := false

def header : RoundHeader := ⟨1, 1, 9, 100, 1, 3, 10, 4, 1⟩

def world : World (LeanImtTree imtNode) (Address → Nat) where
  blockNumber := 0
  timestamp := 0
  registry := ⟨1, fun _ => 9, fun _ => 1, 10, 0, 0⟩
  published _ := false
  claims _ := .new
  pool := { ShieldedPool.new deployment 7 with authorizedFactory := 6 }
  token a := if a = 5 then 100 else 0

theorem accepts : Accepts deployment header := by
  obtain ⟨tree, htree, -⟩ := @leanImt_insert_first _ _ _ imtNode (Scalar.ofNat 11) (by decide)
  have hpublish : Publishable deployment world 6 5 header [11] :=
    ⟨by decide, rfl, rfl, rfl, rfl, by decide, by decide, by decide, rfl, rfl, rfl, rfl, by decide⟩
  exact ⟨world, 6, 5, [11], _, publishRound_single hpublish rfl rfl
    ⟨rfl, by decide, rfl, rfl, rfl, htree⟩ (by decide) (by decide) rfl rfl⟩

def sha256 : List UInt8 → Bytes 32 := fun _ =>
  ⟨[111, 206, 202, 94, 9, 122, 18, 192, 18, 180, 117, 51, 103, 161, 253, 79, 102, 191, 20, 99,
    181, 41, 16, 242, 88, 240, 239, 3, 17, 186, 122, 149], rfl⟩

end Sample

open Sample

/-- The header of an accepted round is bound by its hashed bytes. -/
theorem header_digest_binds_sample : Accepts deployment header ∧ ∀ h, Accepts deployment h →
      header.hHeaderInput sha256 = h.hHeaderInput sha256 → header = h :=
  ⟨accepts, fun h =>
    (header_digest_binds deployment sha256).2.2 _ h accepts⟩

end Pocs.Rails
