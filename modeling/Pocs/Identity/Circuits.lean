import Pocs.Swap.Circuit

/-! # The membership and enrollment circuits

`circuits/lib`, `circuits/membership` and `circuits/enrollment`. `BN254` points and the hash of the
Fiat–Shamir transcript are parameters. -/

namespace Pocs.Identity

open Compliance (BnField binaryMerkleRoot merkleHash MerklePath)
open Swap (noirAssert noirAssert_eq_ok)

variable {F P : Type} [BnField F]

def maxDepth : Nat := 20

/-! ## `domain.nr` and `hasher.nr` -/

def domainLeaf : F := Scalar.ofNat 1
def domainNullifier : F := Scalar.ofNat 2
def domainEnrollmentNull : F := Scalar.ofNat 3
def domainAttr : F := Scalar.ofNat 4

section
variable (hash : List F → F)

def hashLeaf (identitySecret attrHash : F) : F := hash [domainLeaf, identitySecret, attrHash]

def hashNullifier (identitySecret externalNullifier : F) : F :=
  hash [domainNullifier, identitySecret, externalNullifier]

def hashEnrollmentNullifier (x y : F) : F := hash [domainEnrollmentNull, x, y]

structure Attributes (F : Type) where
  attr0 : F
  attr1 : F
  attr2 : F
  attr3 : F

def hashAttr (version : F) (attrs : Attributes F) : F :=
  hash [domainAttr, version, attrs.attr0, attrs.attr1, attrs.attr2, attrs.attr3]

def verifyMembership (leaf root : F) (path : MerklePath F maxDepth) : Except String Unit :=
  let computedRoot := binaryMerkleRoot (merkleHash hash) leaf path.proofLength path.indices path.path
  require (computedRoot = root) "Merkle proof verification failed"

/-! ## The membership circuit -/

structure MembershipPublic (F : Type) where
  root : F
  nullifier : F
  externalNullifier : F
  version : F
  predicateType : F
  predicateAttrIndex : F
  predicateValue : F
  predicateResult : F

structure MembershipWitness (F : Type) where
  identitySecret : F
  attrs : Attributes F
  path : MerklePath F maxDepth

/-- `x as u64`, which keeps the low bits. -/
def asU64 (x : F) : Nat := Scalar.toNat x % 2 ^ 64

/-- `b as Field`. -/
def ofBool (b : Bool) : F := Scalar.ofNat b.toNat

def assertPredicate (pub : MembershipPublic F) (attrs : Attributes F) : Except String Unit := do
  require (asU64 pub.predicateType < 2) "invalid predicate type"
  require (asU64 pub.predicateAttrIndex < 2) "invalid predicate attr index"
  let selected := if pub.predicateAttrIndex = 0 then attrs.attr0 else attrs.attr1
  let eqResult : F := ofBool (decide (selected = pub.predicateValue))
  onlyIf (pub.predicateType = Scalar.ofNat 1)
    (require (pub.predicateValue = 0) "predicate_value must be 0 for boolean predicate")
  let boolResult : F := ofBool (decide (selected = Scalar.ofNat 1))
  let expected := if pub.predicateType = 0 then eqResult else boolResult
  require (pub.predicateResult = expected) "predicate result mismatch"
  require (asU64 pub.predicateResult < 2) "predicate result not binary"

def membershipMain (pub : MembershipPublic F) (wit : MembershipWitness F) : Except String Unit := do
  require (pub.version = Scalar.ofNat 1) "unsupported version"
  let attrHash := hashAttr hash pub.version wit.attrs
  let leaf := hashLeaf hash wit.identitySecret attrHash
  verifyMembership hash leaf pub.root wit.path
  let computedNullifier := hashNullifier hash wit.identitySecret pub.externalNullifier
  require (pub.nullifier = computedNullifier) "nullifier mismatch"
  assertPredicate pub wit.attrs

/-! ## The enrollment circuit -/

/-- What `enrollment` uses of BN254 and of SHA-256. -/
structure Bn254 (F P : Type) where
  /-- `BN254::one()`. -/
  generator : P
  /-- `from_coordinates` and `validate_on_curve`: the point with the given coordinates, if there is one. -/
  point : F → F → Option P
  /-- `sha256_384` of the serialized points, modulo the order of the field. -/
  challenge : List P → F

structure EnrollmentPublic (F : Type) where
  leaf : F
  enrollmentNullifier : F
  mpcPublicKeyX : F
  mpcPublicKeyY : F
  gIdX : F
  gIdY : F

structure EnrollmentWitness (F : Type) where
  identitySecret : F
  version : F
  attrs : Attributes F
  rawNullifierX : F
  rawNullifierY : F
  chaumPedersenC : F
  chaumPedersenZ : F

variable [AddCommGroup P] (E : Bn254 F P)

/-- `evaluate_linear_expression([p, q], [z, c], [infinity])`. -/
def linearExpression (z c : F) (p q : P) : P := Scalar.toNat z • p + Scalar.toNat c • q + 0

/-- Steps 2a to 2f: the transcript shows that the points have one logarithm to the key and the identity. -/
def verifyChaumPedersen (pkX pkY gIdX gIdY qX qY c z : F) : Except String Unit := do
  let pk ← okOr (E.point pkX pkY) "Failed assertion"
  let gId ← okOr (E.point gIdX gIdY) "Failed assertion"
  let q ← okOr (E.point qX qY) "Failed assertion"
  let r1 := linearExpression z c E.generator pk
  let r2 := linearExpression z c gId q
  let cPrime := E.challenge [E.generator, pk, gId, q, r1, r2]
  noirAssert (c = cPrime)

def enrollmentMain (pub : EnrollmentPublic F) (wit : EnrollmentWitness F) : Except String Unit := do
  noirAssert (wit.version = Scalar.ofNat 1)
  verifyChaumPedersen E pub.mpcPublicKeyX pub.mpcPublicKeyY pub.gIdX pub.gIdY wit.rawNullifierX
    wit.rawNullifierY wit.chaumPedersenC wit.chaumPedersenZ
  let computedEnrollmentNullifier := hashEnrollmentNullifier hash wit.rawNullifierX wit.rawNullifierY
  noirAssert (pub.enrollmentNullifier = computedEnrollmentNullifier)
  let attrHash := hashAttr hash wit.version wit.attrs
  let computedLeaf := hashLeaf hash wit.identitySecret attrHash
  noirAssert (pub.leaf = computedLeaf)

/-- The group of BN254, as far as enrollment rests on it: points of a cyclic group with unique coordinates, of
which zeros are none, and discrete logarithms that an accepted transcript shows to be equal. -/
structure Bn254.Sound : Prop where
  generates : ∀ p : P, ∃ n : Nat, p = n • E.generator
  point_inj : ∀ {x y x' y' : F} {p : P}, E.point x y = some p → E.point x' y' = some p → x = x' ∧ y = y'
  point_zero : E.point 0 0 = none
  dleq : ∀ {pk gId q : P} {z c : F},
    c = E.challenge [E.generator, pk, gId, q, linearExpression z c E.generator pk,
      linearExpression z c gId q] → ∃ s : Nat, pk = s • E.generator ∧ q = s • gId

end

section
variable {hash : List F → F}

/-- A presentation shows the nullifier of its secret. -/
theorem nullifier_of_membershipMain {pub : MembershipPublic F} {wit : MembershipWitness F}
    (h : membershipMain hash pub wit = .ok ()) :
    pub.nullifier = hashNullifier hash wit.identitySecret pub.externalNullifier := by
  simp only [membershipMain, bind_eq_ok, require_eq_ok, exists_const] at h
  obtain ⟨-, _, -, hnullifier, -⟩ := h
  exact hnullifier

variable [AddCommGroup P] {E : Bn254 F P}

/-- The MPC key and the identity point determine the enrollment nullifier. -/
theorem enrollmentNullifier_eq (hE : E.Sound) {pub pub' : EnrollmentPublic F} {wit wit' : EnrollmentWitness F}
    (h : enrollmentMain hash E pub wit = .ok ()) (h' : enrollmentMain hash E pub' wit' = .ok ())
    (hkeyX : pub.mpcPublicKeyX = pub'.mpcPublicKeyX) (hkeyY : pub.mpcPublicKeyY = pub'.mpcPublicKeyY)
    (hgIdX : pub.gIdX = pub'.gIdX) (hgIdY : pub.gIdY = pub'.gIdY) :
    pub.enrollmentNullifier = pub'.enrollmentNullifier := by
  simp only [enrollmentMain, verifyChaumPedersen, bind_eq_ok, noirAssert_eq_ok, okOr_eq_ok, exists_const] at h h'
  obtain ⟨-, ⟨pk, hpk, gId, hgId, q, hq, hc⟩, hnullifier, -⟩ := h
  obtain ⟨-, ⟨pk', hpk', gId', hgId', q', hq', hc'⟩, hnullifier', -⟩ := h'
  obtain rfl : pk = pk' := by
    rw [hkeyX, hkeyY, hpk'] at hpk
    exact (Option.some.inj hpk).symm
  obtain rfl : gId = gId' := by
    rw [hgIdX, hgIdY, hgId'] at hgId
    exact (Option.some.inj hgId).symm
  obtain ⟨s, hs, rfl⟩ := hE.dleq hc
  obtain ⟨s', hs', rfl⟩ := hE.dleq hc'
  -- both nullifiers are the same multiple of the key
  obtain ⟨n, rfl⟩ := hE.generates gId
  have hsame : s • n • E.generator = s' • n • E.generator := by
    rw [smul_comm s n, smul_comm s' n, ← hs, ← hs']
  rw [hsame] at hq
  obtain ⟨hx, hy⟩ := hE.point_inj hq hq'
  rw [hnullifier, hnullifier', hx, hy]

theorem key_of_enrollmentMain {pub : EnrollmentPublic F} {wit : EnrollmentWitness F}
    (h : enrollmentMain hash E pub wit = .ok ()) : (E.point pub.mpcPublicKeyX pub.mpcPublicKeyY).isSome := by
  simp only [enrollmentMain, verifyChaumPedersen, bind_eq_ok, okOr_eq_ok] at h
  obtain ⟨_, _, _, ⟨pk, hpk, -⟩, -⟩ := h
  rw [hpk]
  rfl

end

/-- The group of order seven. A transcript of points with different logarithms never has its own challenge. -/
def cyclicBn254 (F : Type) [BnField F] : Bn254 F (ZMod 7) where
  generator := 1
  point := (Swap.cyclicCurve F).point
  challenge
    | [_, pk, gId, q, r1, r2] =>
      if q = pk * gId then 0 else Scalar.ofNat ((r2 - gId * r1) * (q - pk * gId)⁻¹ + 1).val
    | _ => 0

theorem cyclicBn254_sound : (cyclicBn254 F).Sound where
  generates p := ⟨p.val, by rw [cyclicBn254, nsmul_one, ZMod.natCast_zmod_val]⟩
  point_inj h h' := by
    obtain ⟨-, rfl, rfl⟩ := Swap.cyclicCurve_point h
    obtain ⟨-, hx, hy⟩ := Swap.cyclicCurve_point h'
    exact ⟨hx, hy⟩
  point_zero := by
    apply List.find?_eq_none.mpr
    intro p hp htrue
    rw [Bool.and_eq_true, decide_eq_true_iff] at htrue
    have hzero : min p.val (7 - p.val) = 0 :=
      Scalar.ofNat_inj (F := F) (by have := ZMod.val_lt p; omega) (by decide) htrue.1
    clear htrue
    revert p
    decide
  dleq {pk gId q z c} h := by
    have hprime : Fact (Nat.Prime 7) := ⟨by decide⟩
    refine ⟨pk.val, by rw [cyclicBn254, nsmul_one, ZMod.natCast_zmod_val], ?_⟩
    rw [nsmul_eq_mul, ZMod.natCast_zmod_val]
    by_contra hne
    have hdiff : q - pk * gId ≠ 0 := sub_ne_zero.mpr hne
    -- the commitments of such a transcript reveal its challenge
    have hlog : linearExpression z c gId q - gId * linearExpression z c (cyclicBn254 F).generator pk =
        (Scalar.toNat c : ZMod 7) * (q - pk * gId) := by
      simp only [linearExpression, cyclicBn254, nsmul_eq_mul]
      ring
    simp only [cyclicBn254, if_neg hne] at h hlog
    rw [hlog, mul_assoc, mul_inv_cancel₀ hdiff, mul_one] at h
    have hlt := ZMod.val_lt ((Scalar.toNat c : ZMod 7) + 1)
    have hvalue := congrArg Scalar.toNat h
    rw [Scalar.toNat_ofNat (hlt.trans (by decide))] at hvalue
    have hcast := congrArg (Nat.cast : Nat → ZMod 7) hvalue
    rw [ZMod.natCast_zmod_val] at hcast
    exact one_ne_zero (left_eq_add.mp hcast)

end Pocs.Identity
