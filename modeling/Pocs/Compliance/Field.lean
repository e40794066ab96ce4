import Mathlib.Logic.Equiv.List
import Pocs.Civic.Field
import Pocs.Lib.Checked

/-! # Scalars, words and the hash of the compliance pool

The contracts keep `bytes32` and `uint256` words, the circuits read them as scalars of BN254. `BnField`
is what both use of the scalar field: `canonical` is the range check of `PublicInputs.sol`. Poseidon
is a parameter on lists of scalars, the number of arguments picking the permutation; `Ideal` states
what the security arguments assume of it. -/

namespace Pocs.Compliance

/-- A `bytes32` or `uint256`, by its integer. -/
abbrev Word := Nat

/-- An Ethereum address. -/
abbrev Address := BitVec 160

/-- A scalar field with the contracts' check that a word is below its modulus. -/
class BnField (F : Type) extends Scalar F where
  /-- `uint256(input) < BN254_MODULUS`. -/
  canonical : Word → Bool
  toNat_ofNat_of_canonical : ∀ {n}, canonical n = true → toNat (ofNat n) = n
  canonical_toNat : ∀ a, canonical (toNat a) = true
  canonical_of_lt : ∀ {n}, n < 2 ^ 161 → canonical n = true

/-- `PublicInputs.BN254_MODULUS` is the order of the field. -/
instance : BnField Civic.Fr where
  canonical n := n < Civic.bn254
  toNat_ofNat_of_canonical h := Nat.mod_eq_of_lt (of_decide_eq_true h)
  canonical_toNat a := decide_eq_true a.isLt
  canonical_of_lt h := decide_eq_true (h.trans (by decide))

instance : BnField Unbounded where
  canonical _ := true
  toNat_ofNat_of_canonical _ := rfl
  canonical_toNat _ := rfl
  canonical_of_lt _ := rfl

namespace BnField
variable {F : Type} [BnField F]

theorem ofNat_toNat (a : F) : Scalar.ofNat (Scalar.toNat a) = a :=
  Scalar.toNat_inj (toNat_ofNat_of_canonical (canonical_toNat a))

/-- A canonical word is the word of the scalar it stands for. -/
theorem eq_toNat {n : Word} (hn : canonical F n = true) {a : F} (h : Scalar.ofNat n = a) :
    n = Scalar.toNat a := by
  rw [← h, toNat_ofNat_of_canonical hn]

/-- A scalar has one canonical word. -/
theorem eq_of_canonical {m n : Word} (hm : canonical F m = true) (hn : canonical F n = true)
    (h : (Scalar.ofNat m : F) = Scalar.ofNat n) : m = n :=
  (eq_toNat hm h).trans (toNat_ofNat_of_canonical hn)

theorem ofNat_inj {m n : Nat} (hm : m < 2 ^ 161) (hn : n < 2 ^ 161)
    (h : (Scalar.ofNat m : F) = Scalar.ofNat n) : m = n := by
  rw [← toNat_ofNat_of_canonical (canonical_of_lt (F := F) hm), h,
    toNat_ofNat_of_canonical (canonical_of_lt hn)]

end BnField

section
variable {F : Type} [BnField F]

/-- `x as Field` for a `u64`. -/
def ofU64 (x : UInt64) : F := Scalar.ofNat x.toNat

/-- `uint256(uint160(a))` as a field element. -/
def ofAddress (a : Address) : F := Scalar.ofNat a.toNat

theorem ofU64_inj {x y : UInt64} (h : (ofU64 x : F) = ofU64 y) : x = y :=
  UInt64.toNat_inj.mp (Scalar.ofNat_inj x.toNat_lt y.toNat_lt h)

/-- A canonical word that stands for a machine integer is its value. -/
theorem toNat_of_word {n : Word} (hn : BnField.canonical F n = true) {x : UInt64}
    (h : Scalar.ofNat n = (ofU64 x : F)) : n = x.toNat := by
  rw [BnField.eq_toNat hn h, ofU64, Scalar.toNat_ofNat x.toNat_lt]

theorem ofAddress_inj {a b : Address} (h : (ofAddress a : F) = ofAddress b) : a = b :=
  BitVec.eq_of_toNat_eq (BnField.ofNat_inj (a.isLt.trans (by decide)) (b.isLt.trans (by decide)) h)

theorem toNat_ofAddress_lt (a : Address) : Scalar.toNat (ofAddress a : F) < 2 ^ 160 := by
  rw [ofAddress, BnField.toNat_ofNat_of_canonical (BnField.canonical_of_lt (a.isLt.trans (by decide)))]
  exact a.isLt

theorem ofU64_zero : (ofU64 0 : F) = 0 := rfl

end

/-! ## Poseidon -/

/-- Hashes of one to five arguments are collision free with disjoint ranges, and zero, the root of
the empty tree, is none of them. -/
structure Ideal {F : Type} [BnField F] (hash : List F → F) : Prop where
  inj : ∀ {xs ys : List F}, xs ≠ [] → xs.length ≤ 5 → ys ≠ [] → ys.length ≤ 5 → hash xs = hash ys → xs = ys
  ne_zero : ∀ {xs : List F}, xs ≠ [] → xs.length ≤ 5 → hash xs ≠ 0

namespace Ideal
variable {F : Type} [BnField F] {hash : List F → F}

theorem hash1_inj (h : Ideal hash) {a a' : F} (he : hash [a] = hash [a']) : a = a' := by
  simpa using h.inj (by simp) (by simp) (by simp) (by simp) he

theorem hash2_inj (h : Ideal hash) {a b a' b' : F} (he : hash [a, b] = hash [a', b']) : a = a' ∧ b = b' := by
  simpa using h.inj (by simp) (by simp) (by simp) (by simp) he

theorem hash3_inj (h : Ideal hash) {a b c a' b' c' : F} (he : hash [a, b, c] = hash [a', b', c']) :
    a = a' ∧ b = b' ∧ c = c' := by
  simpa using h.inj (by simp) (by simp) (by simp) (by simp) he

theorem hash4_inj (h : Ideal hash) {a b c d a' b' c' d' : F}
    (he : hash [a, b, c, d] = hash [a', b', c', d']) : a = a' ∧ b = b' ∧ c = c' ∧ d = d' := by
  simpa using h.inj (by simp) (by simp) (by simp) (by simp) he

theorem hash5_inj (h : Ideal hash) {a b c d e a' b' c' d' e' : F}
    (he : hash [a, b, c, d, e] = hash [a', b', c', d', e']) : a = a' ∧ b = b' ∧ c = c' ∧ d = d' ∧ e = e' := by
  simpa using h.inj (by simp) (by simp) (by simp) (by simp) he

/-- Hashes of different arity differ. -/
theorem ne_of_length (h : Ideal hash) {xs ys : List F} (hlen : xs.length ≠ ys.length) (hxs : xs ≠ [])
    (hxs5 : xs.length ≤ 5) (hys : ys ≠ []) (hys5 : ys.length ≤ 5) : hash xs ≠ hash ys :=
  fun he => hlen (congrArg List.length (h.inj hxs hxs5 hys hys5 he))

theorem node_inj (h : Ideal hash) : Function.Injective2 fun l r => hash [l, r] :=
  fun _ _ _ _ he => h.hash2_inj he

end Ideal

/-- A collision-free hash over the unbounded carrier. -/
def idealHash (xs : List Unbounded) : Unbounded := ⟨Encodable.encode (xs.map Unbounded.val) + 1⟩

theorem idealHash_injective : Function.Injective idealHash := fun xs ys h => by
  have henc := Encodable.encode_injective (Nat.succ.inj (Unbounded.mk.inj h))
  exact List.map_injective_iff.mpr (fun a b hab => by cases a; cases b; simp_all) henc

theorem idealHash_ideal : Ideal idealHash where
  inj _ _ _ _ h := idealHash_injective h
  ne_zero _ _ h := Nat.succ_ne_zero _ (Unbounded.mk.inj h)

end Pocs.Compliance
