import Mathlib.Data.ZMod.Basic
import Mathlib.GroupTheory.OrderOfElement
import Pocs.Compliance.Field

/-! # Hashes, scalars and the embedded curve of the swap

Notes, nullifiers and the bindings of a locked note are Poseidon hashes of up to sixteen scalars. The
group of Grumpkin is a parameter, seen through the coordinates of its points. In `Doubled` every scalar
has two words, as the residues of a `bytes32` modulo the order of the field have. -/

namespace Pocs.Swap

open Compliance (BnField Ideal)
open Civic (bn254)

/-- Hashes of one to sixteen arguments are collision free with disjoint ranges, and zero is none. -/
structure IdealHash {F : Type} [BnField F] (hash : List F → F) : Prop where
  inj : ∀ {xs ys : List F}, xs ≠ [] → xs.length ≤ 16 → ys ≠ [] → ys.length ≤ 16 → hash xs = hash ys → xs = ys
  ne_zero : ∀ {xs : List F}, xs ≠ [] → xs.length ≤ 16 → hash xs ≠ 0

namespace IdealHash
variable {F : Type} [BnField F] {hash : List F → F}

theorem ideal (H : IdealHash hash) : Ideal hash where
  inj hxs hlen hys hlen' h := H.inj hxs (by omega) hys (by omega) h
  ne_zero hxs hlen := H.ne_zero hxs (by omega)

/-- Hashes of different arity differ. -/
theorem ne_of_length (H : IdealHash hash) {xs ys : List F} (hlen : xs.length ≠ ys.length)
    (hxs : xs ≠ []) (hxs16 : xs.length ≤ 16) (hys : ys ≠ []) (hys16 : ys.length ≤ 16) : hash xs ≠ hash ys :=
  fun he => hlen (congrArg List.length (H.inj hxs hxs16 hys hys16 he))

end IdealHash

theorem idealHash_poseidon : IdealHash Compliance.idealHash where
  inj _ _ _ _ h := Compliance.idealHash_injective h
  ne_zero {xs} hxs _ := by
    intro h
    exact absurd (congrArg Unbounded.val h) (Nat.succ_ne_zero _)

/-! ## The embedded curve -/

/-- The halves of a scalar and a scalar without its top bits are canonical. -/
class ByteField (F : Type) extends BnField F where
  canonical_div : ∀ a : F, canonical (Scalar.toNat a / 2 ^ 128) = true
  canonical_of_lt_253 : ∀ {n}, n < 2 ^ 253 → canonical n = true

instance instByteFieldFr : ByteField Civic.Fr where
  canonical_div a := decide_eq_true ((Nat.div_le_self _ _).trans_lt a.isLt)
  canonical_of_lt_253 h := decide_eq_true (h.trans (by decide))

instance instByteFieldUnbounded : ByteField Unbounded where
  canonical_div _ := rfl
  canonical_of_lt_253 _ := rfl

structure EmbeddedCurveScalar (F : Type) where
  lo : F
  hi : F

def EmbeddedCurveScalar.value {F : Type} [BnField F] (s : EmbeddedCurveScalar F) : Nat :=
  Scalar.toNat s.lo + 2 ^ 128 * Scalar.toNat s.hi

/-- A group of points with affine coordinates, those of infinity being zero. -/
structure EmbeddedCurve (F P : Type) where
  generator : P
  /-- The order of the group, the modulus of its scalars. -/
  order : Nat
  x : P → F
  y : P → F
  /-- The point with the given coordinates, where the curve has one. -/
  point : F → F → Option P

section
variable {F P : Type} [BnField F] [AddCommGroup P] (E : EmbeddedCurve F P)

def EmbeddedCurve.fixedBaseScalarMul (s : EmbeddedCurveScalar F) : P := s.value • E.generator

end

/-- A group of odd prime order on whose curve only infinity has the x-coordinate zero. -/
structure EmbeddedCurve.Lawful {F P : Type} [AddCommGroup P] (E : EmbeddedCurve F P) : Prop where
  prime : E.order.Prime
  odd : E.order ≠ 2
  order_lt : E.order < 2 ^ 256
  order_smul : ∀ p : P, E.order • p = 0
  x_eq : ∀ {p q : P}, E.x p = E.x q ↔ p = q ∨ p = -q
  point_eq : ∀ {a b : F} {p : P}, E.point a b = some p ↔ p ≠ 0 ∧ E.x p = a ∧ E.y p = b

namespace EmbeddedCurve.Lawful
variable {F P : Type} [AddCommGroup P] {E : EmbeddedCurve F P} (h : E.Lawful)
include h

/-- A scalar counts modulo the order. -/
theorem mod_smul (n : Nat) (p : P) : (n % E.order) • p = n • p := by
  conv_rhs => rw [← Nat.mod_add_div n E.order, add_smul, mul_comm, mul_smul, h.order_smul, smul_zero, add_zero]

theorem eq_zero_of_eq_neg {p : P} (hp : p = -p) : p = 0 := by
  have htwo : 2 • p = 0 := by
    rw [two_smul]
    nth_rewrite 2 [hp]
    exact add_neg_cancel p
  have hcoprime : Nat.Coprime E.order 2 := (Nat.coprime_primes h.prime Nat.prime_two).mpr h.odd
  have hdvd : addOrderOf p ∣ Nat.gcd E.order 2 :=
    Nat.dvd_gcd (addOrderOf_dvd_of_nsmul_eq_zero (h.order_smul p)) (addOrderOf_dvd_of_nsmul_eq_zero htwo)
  rw [hcoprime] at hdvd
  exact AddMonoid.addOrderOf_eq_one_iff.mp (Nat.dvd_one.mp hdvd)

/-- Multiples of points of one x-coordinate have one x-coordinate. -/
theorem x_smul {p q : P} (hx : E.x p = E.x q) (n : Nat) : E.x (n • p) = E.x (n • q) := by
  refine h.x_eq.mpr ((h.x_eq.mp hx).imp (congrArg _) fun hneg => ?_)
  rw [hneg, smul_neg]

/-- Diffie and Hellman's secret has one x-coordinate, whatever the signs of the two points. -/
theorem shared_eq {pk R : P} {sk r : Nat} (hpk : E.x pk = E.x (sk • E.generator))
    (hR : E.x R = E.x (r • E.generator)) : E.x (sk • R) = E.x (r • pk) := by
  rw [h.x_smul hR sk, h.x_smul hpk r, smul_smul, smul_smul, mul_comm]

/-- A shift of a point and of its inverse show one x-coordinate only if the shift is none. -/
theorem x_add_eq_iff {p q s : P} (hx : E.x p = E.x q) : E.x (p + s) = E.x (q + s) ↔ p = q ∨ s = 0 := by
  constructor
  · intro hadd
    rcases h.x_eq.mp hx with heq | hneg
    · exact .inl heq
    rcases h.x_eq.mp hadd with heq | hneg'
    · exact .inl (add_right_cancel heq)
    · right
      apply h.eq_zero_of_eq_neg
      rw [hneg, neg_add] at hneg'
      exact add_left_cancel hneg'
  · intro heither
    rcases heither with heq | hzero
    · rw [heq]
    · rw [hzero, add_zero, add_zero, hx]

end EmbeddedCurve.Lawful

/-- The cyclic group of order seven. A point and its inverse have one x-coordinate. -/
def cyclicCurve (F : Type) [BnField F] : EmbeddedCurve F (ZMod 7) :=
  let x (p : ZMod 7) : F := Scalar.ofNat (min p.val (7 - p.val))
  let y (p : ZMod 7) : F := Scalar.ofNat (if p.val = 0 then 0 else if p.val ≤ 3 then 1 else 2)
  { generator := 1
    order := 7
    x
    y
    point a b := [1, 2, 3, 4, 5, 6].find? fun p => decide (x p = a) && decide (y p = b) }

theorem cyclicCurve_point {F : Type} [BnField F] {a b : F} {p : ZMod 7}
    (h : (cyclicCurve F).point a b = some p) :
    p ∈ [1, 2, 3, 4, 5, 6] ∧ (cyclicCurve F).x p = a ∧ (cyclicCurve F).y p = b := by
  replace h : [1, 2, 3, 4, 5, 6].find? (fun p => decide ((cyclicCurve F).x p = a) &&
    decide ((cyclicCurve F).y p = b)) = some p := h
  have hp := List.find?_some h
  rw [Bool.and_eq_true, decide_eq_true_iff, decide_eq_true_iff] at hp
  exact ⟨List.mem_of_find?_eq_some h, hp⟩

theorem cyclicCurve_lawful : (cyclicCurve Unbounded).Lawful where
  prime := by decide
  odd := by decide
  order_lt := by decide
  order_smul := by decide
  x_eq := by decide
  point_eq {a b p} := by
    constructor
    · intro h
      obtain ⟨hmem, hcoordinates⟩ := cyclicCurve_point h
      refine ⟨fun hzero => ?_, hcoordinates⟩
      exact absurd (hzero ▸ hmem) (by decide)
    · rintro ⟨hne, rfl, rfl⟩
      revert p
      decide

/-! ## Scalars with two words -/

/-- An unbounded carrier in which each scalar has the words `n` and `n + bn254`. -/
structure Doubled where
  val : Nat
  isLt : val % (2 * bn254) < bn254

namespace Doubled

theorem ext_val {a b : Doubled} (h : a.val = b.val) : a = b := by
  cases a
  cases b
  cases h
  rfl

/-- The residue of a word. -/
def reduce (n : Nat) : Doubled :=
  if h : n % (2 * bn254) < bn254 then ⟨n, h⟩
  else ⟨n - bn254, by
    unfold bn254 at *
    omega⟩

theorem val_reduce {n : Nat} (h : n % (2 * bn254) < bn254) : (reduce n).val = n := by
  rw [reduce, dif_pos h]

/-- The second word of a scalar. -/
theorem reduce_add (a : Doubled) : reduce (a.val + bn254) = a := by
  have ha := a.isLt
  have hnot : ¬ (a.val + bn254) % (2 * bn254) < bn254 := by
    unfold bn254 at *
    omega
  rw [reduce, dif_neg hnot]
  exact ext_val (Nat.add_sub_cancel a.val bn254)

end Doubled

theorem mod_two_bn254_of_lt {n : Nat} (h : n < bn254) : n % (2 * bn254) < bn254 := by
  rwa [Nat.mod_eq_of_lt (by omega)]

instance instScalarDoubled : Scalar Doubled where
  toNat := Doubled.val
  ofNat := Doubled.reduce
  toNat_inj := Doubled.ext_val
  toNat_ofNat h := Doubled.val_reduce (mod_two_bn254_of_lt (h.trans (by decide)))

instance instBnFieldDoubled : BnField Doubled where
  canonical n := decide (n % (2 * bn254) < bn254)
  toNat_ofNat_of_canonical h := Doubled.val_reduce (of_decide_eq_true h)
  canonical_toNat a := decide_eq_true a.isLt
  canonical_of_lt h := decide_eq_true (mod_two_bn254_of_lt (h.trans (by decide)))

/-- A collision-free hash over the doubled carrier. -/
def doubledHash (xs : List Doubled) : Doubled :=
  ⟨2 * bn254 * (Encodable.encode (xs.map Doubled.val) + 1), by
    rw [Nat.mul_mod_right]
    decide⟩

theorem doubledHash_injective : Function.Injective doubledHash := by
  intro xs ys h
  have hval := Nat.eq_of_mul_eq_mul_left (show 0 < 2 * bn254 by decide)
    (congrArg Doubled.val h)
  have henc := Encodable.encode_injective (Nat.succ.inj hval)
  exact List.map_injective_iff.mpr (fun _ _ => Doubled.ext_val) henc

theorem doubledHash_ideal : IdealHash doubledHash where
  inj _ _ _ _ h := doubledHash_injective h
  ne_zero {xs} _ _ h := by
    have hval : 2 * bn254 * (Encodable.encode (xs.map Doubled.val) + 1) = 0 :=
      (congrArg Scalar.toNat h).trans (Scalar.toNat_zero (F := Doubled))
    rcases Nat.mul_eq_zero.mp hval with h | h
    · exact absurd h (by decide)
    · exact Nat.succ_ne_zero _ h

end Pocs.Swap
