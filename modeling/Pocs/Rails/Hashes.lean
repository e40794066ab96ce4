import Pocs.Compliance.Gadgets
import Pocs.Rails.Header
import Pocs.Swap.Field

/-! # Packed keys, commitments and nullifiers

`poseidon.rs` and `hasher.nr`: the same hashes off the chain and in the circuits. Keys, round and chain
identifiers are hashed by the halves of their 32 bytes. -/

namespace Pocs.Rails

open Compliance (BnField)
open Swap (IdealHash)

variable {F : Type} [BnField F] (hash : List F → F)

def leafDomainTag : F := Scalar.ofNat 1
def commitmentDomainTag : F := Scalar.ofNat 2
def nullDomainTag : F := Scalar.ofNat 3
def derivedPubkeyDomainTag : F := Scalar.ofNat 4

/-! ## Hashes -/

def hashMPacked (mXHi mXLo mYHi mYLo : F) : F := hash [leafDomainTag, mXHi, mXLo, mYHi, mYLo]

def hashDerivedPubkeyPacked (dXHi dXLo dYHi dYLo : F) : F :=
  hash [derivedPubkeyDomainTag, dXHi, dXLo, dYHi, dYLo]

def hashPoolCommitment (token amount mPacked roundIdPacked : F) : F :=
  hash [commitmentDomainTag, token, amount, mPacked, roundIdPacked]

def hashClaimNullifier (mPacked derivedPubkeyPacked roundIdPacked claimContract chainIdPacked : F) : F :=
  hash [nullDomainTag, mPacked, derivedPubkeyPacked, roundIdPacked, claimContract, chainIdPacked]

def packRoundId (hi lo : F) : F := hash [hi, lo]

def packChainId (hi lo : F) : F := hash [hi, lo]

/-! ## Bytes -/

def frFromBeBytes (bytes : List UInt8) : F := Scalar.ofNat (beToNat bytes)

/-- `&b[..16]` and `&b[16..32]` as scalars. -/
def limbHi (b : Bytes 32) : F := frFromBeBytes (b.1.take 16)
def limbLo (b : Bytes 32) : F := frFromBeBytes (b.1.drop 16)

structure SecpPubkey where
  x : Bytes 32
  y : Bytes 32
  deriving DecidableEq

def SecpPubkey.packed (m : SecpPubkey) : F :=
  hashMPacked hash (limbHi m.x) (limbLo m.x) (limbHi m.y) (limbLo m.y)

variable {hash}

theorem hashMPacked_inj (H : IdealHash hash) {a b c d a' b' c' d' : F}
    (h : hashMPacked hash a b c d = hashMPacked hash a' b' c' d') : a = a' ∧ b = b' ∧ c = c' ∧ d = d' := by
  obtain ⟨-, h⟩ := H.ideal.hash5_inj h
  exact h

theorem beToNat_take_lt (b : Bytes 32) : beToNat (b.1.take 16) < 2 ^ 128 := by
  have h := beToNat_lt (b.1.take 16)
  rw [List.length_take, b.2] at h
  exact h

theorem beToNat_drop_lt (b : Bytes 32) : beToNat (b.1.drop 16) < 2 ^ 128 := by
  have h := beToNat_lt (b.1.drop 16)
  rw [List.length_drop, b.2] at h
  exact h

/-- The halves determine the bytes. -/
theorem limbs_inj {a b : Bytes 32} (hhi : (limbHi a : F) = limbHi b)
    (hlo : (limbLo a : F) = limbLo b) : a = b := by
  have hlarge : (2 : Nat) ^ 128 < 2 ^ 161 := by decide
  have hhi' := BnField.ofNat_inj ((beToNat_take_lt a).trans hlarge) ((beToNat_take_lt b).trans hlarge) hhi
  have hlo' := BnField.ofNat_inj ((beToNat_drop_lt a).trans hlarge) ((beToNat_drop_lt b).trans hlarge) hlo
  apply Subtype.ext
  rw [← List.take_append_drop 16 a.1, ← List.take_append_drop 16 b.1,
    beToNat_inj (by rw [List.length_take, List.length_take, a.2, b.2]) hhi',
    beToNat_inj (by rw [List.length_drop, List.length_drop, a.2, b.2]) hlo']

theorem SecpPubkey.packed_inj (H : IdealHash hash) {m m' : SecpPubkey}
    (h : m.packed hash = m'.packed hash) : m = m' := by
  obtain ⟨hxhi, hxlo, hyhi, hylo⟩ := hashMPacked_inj H h
  have hx := limbs_inj hxhi hxlo
  have hy := limbs_inj hyhi hylo
  cases m
  cases m'
  cases hx
  cases hy
  rfl

end Pocs.Rails
