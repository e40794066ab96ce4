import Pocs.Lib.Bytes
import Pocs.Lib.Scalar

/-! # BN254 scalars: byte conversions and the circuits' comparison

`frFromBeBytes` and `frToBeBytes` are the conversions of `poseidon.rs`, `ltField` and
`assertCanonical` the byte loops of `cmp.nr`. `NoirField` is what a circuit uses of a field element;
at `Fr` its comparison is the byte loop, which is the order of canonical integers
(`ltField_iff`). -/

namespace Pocs.Civic

/-- The order of the BN254 scalar field. -/
def bn254 : Nat := 21888242871839275222246405745257275088548364400416034343698204186575808495617

instance : NeZero bn254 := ⟨by decide⟩

/-- `Fr`, the scalar field of BN254. -/
abbrev Fr := PrimeField bn254

abbrev Bytes32 := Bytes 32

instance : Scalar Fr where
  toNat := PrimeField.val
  ofNat := PrimeField.reduce
  toNat_inj := PrimeField.ext_val
  toNat_ofNat h := Nat.mod_eq_of_lt (h.trans (by decide))

/-- `Fr::from_be_bytes_mod_order`. -/
def frFromBeBytes (bytes : List UInt8) : Fr := PrimeField.reduce (beToNat bytes)

def frToBeBytes (fr : Fr) : Bytes32 := Bytes.ofNat 32 fr.val

/-- Horner's rule in the field. -/
theorem foldl_horner (bytes : List UInt8) :
    bytes.foldl (fun (acc : Fr) b => acc * .reduce 256 + .reduce b.toNat) 0 = frFromBeBytes bytes := by
  have hfold : ∀ (bs : List UInt8) (a : Nat),
      bs.foldl (fun (acc : Fr) b => acc * .reduce 256 + .reduce b.toNat) (.reduce a) =
        .reduce (a * 256 ^ bs.length + beToNat bs) := by
    intro bs
    induction bs with
    | nil => simp [beToNat]
    | cons b bs ih =>
      intro a
      rw [List.foldl_cons, PrimeField.reduce_mul, PrimeField.reduce_add, ih, beToNat,
        List.length_cons, Nat.pow_succ]
      congr 1
      ring
  have hzero := hfold bytes 0
  rw [Nat.zero_mul, Nat.zero_add] at hzero
  exact hzero

theorem Fr.lt_pow (a : Fr) : a.val < 256 ^ 32 := a.isLt.trans (by decide)

@[simp] theorem toNat_frToBeBytes (a : Fr) : (frToBeBytes a).toNat = a.val := by
  rw [frToBeBytes, Bytes.toNat_ofNat, Nat.mod_eq_of_lt a.lt_pow]

@[simp] theorem frFromBeBytes_frToBeBytes (a : Fr) : frFromBeBytes (frToBeBytes a).1 = a := by
  have h : beToNat (frToBeBytes a).1 = a.val := toNat_frToBeBytes a
  rw [frFromBeBytes, h, PrimeField.reduce_val]

/-- Canonical bytes survive the conversion to the field. -/
theorem frToBeBytes_frFromBeBytes {b : Bytes32} (h : b.toNat < bn254) :
    frToBeBytes (frFromBeBytes b.1) = b := by
  apply Bytes.toNat_inj
  rw [toNat_frToBeBytes]
  exact Nat.mod_eq_of_lt h

theorem frToBeBytes_lt {a b : Fr} : frToBeBytes a < frToBeBytes b ↔ a < b := by
  rw [Bytes.lt_iff, toNat_frToBeBytes, toNat_frToBeBytes]
  rfl

/-! ## The comparison of `cmp.nr` -/

def toLeBytes (a : Fr) : List UInt8 := (frToBeBytes a).1.reverse

/-- One iteration of the comparison loop on `(decided, result)`. -/
def ltStep (st : Bool × Bool) (ai bi : UInt8) : Bool × Bool :=
  if !st.1 then
    if ai < bi then (true, true)
    else if ai > bi then (true, false)
    else st
  else st

def ltField (a b : Fr) : Bool :=
  ((List.range 32).foldl (fun st i =>
    ltStep st ((toLeBytes a).getD (31 - i) 0) ((toLeBytes b).getD (31 - i) 0)) (false, false)).2

/-- The condition of `cmp::assert_canonical`. -/
def assertCanonical (f : Fr) : Bool := (toLeBytes f).getD 31 0 ≤ 0x30

private theorem foldl_ltStep_decided (ps : List (UInt8 × UInt8)) (r : Bool) :
    ps.foldl (fun st p => ltStep st p.1 p.2) (true, r) = (true, r) := by
  induction ps with
  | nil => rfl
  | cons p ps ih => simpa [ltStep] using ih

/-- Scanning two byte strings from the most significant byte decides the lexicographic order. -/
private theorem foldl_ltStep {as bs : List UInt8} (hlen : as.length = bs.length) :
    ((as.zip bs).foldl (fun st p => ltStep st p.1 p.2) (false, false)).2 = decide (as < bs) := by
  induction as generalizing bs with
  | nil =>
    obtain rfl := List.length_eq_zero_iff.mp hlen.symm
    simp
  | cons a as ih =>
    obtain _ | ⟨b, bs⟩ := bs
    · simp at hlen
    simp only [List.length_cons, Nat.add_right_cancel_iff] at hlen
    simp only [List.zip_cons_cons, List.foldl_cons, List.cons_lt_cons_iff]
    rcases Nat.lt_trichotomy a.toNat b.toNat with h | h | h
    · have hab : a < b := h
      rw [show ltStep (false, false) a b = (true, true) by simp [ltStep, hab], foldl_ltStep_decided]
      simp [hab]
    · obtain rfl := UInt8.toNat_inj.mp h
      rw [show ltStep (false, false) a a = (false, false) by simp [ltStep], ih hlen]
      simp
    · have hba : b < a := h
      have hnot : ¬ a < b := fun hab : a.toNat < b.toNat => by omega
      have hne : a ≠ b := fun he => by subst he; omega
      rw [show ltStep (false, false) a b = (true, false) by simp [ltStep, hba, hnot],
        foldl_ltStep_decided]
      simp [hnot, hne]

private theorem leBytes_getElem? (a : Fr) {i : Nat} (hi : i < 32) :
    (toLeBytes a)[31 - i]? = (frToBeBytes a).1[i]? := by
  have hlen : (frToBeBytes a).1.length = 32 := (frToBeBytes a).2
  rw [toLeBytes, List.getElem?_reverse (by omega), hlen, show 32 - 1 - (31 - i) = i by omega]

/-- The byte loop is the order of canonical integers. -/
theorem ltField_iff {a b : Fr} : ltField a b = true ↔ a < b := by
  have hscan : (List.range 32).foldl (fun st i =>
      ltStep st ((toLeBytes a).getD (31 - i) 0) ((toLeBytes b).getD (31 - i) 0)) (false, false) =
      ((frToBeBytes a).1.zip (frToBeBytes b).1).foldl (fun st p => ltStep st p.1 p.2) (false, false) := by
    have hzip : (frToBeBytes a).1.zip (frToBeBytes b).1 = (List.range 32).map fun i =>
        ((toLeBytes a).getD (31 - i) 0, (toLeBytes b).getD (31 - i) 0) := by
      apply List.ext_getElem
      · simp [(frToBeBytes a).2, (frToBeBytes b).2]
      · intro i h1 h2
        have hi : i < 32 := by simpa using h2
        have ha : i < (frToBeBytes a).1.length := by rw [(frToBeBytes a).2]; exact hi
        have hb : i < (frToBeBytes b).1.length := by rw [(frToBeBytes b).2]; exact hi
        simp [leBytes_getElem? _ hi, List.getElem?_eq_getElem ha, List.getElem?_eq_getElem hb]
    rw [hzip, List.foldl_map]
  rw [ltField, hscan, foldl_ltStep ((frToBeBytes a).2.trans (frToBeBytes b).2.symm)]
  rw [decide_eq_true_iff]
  exact frToBeBytes_lt

/-- Every field element passes the canonicity check: the modulus has high byte `0x30`. -/
theorem assertCanonical_eq (f : Fr) : assertCanonical f = true := by
  have hget : (toLeBytes f).getD 31 0 = (frToBeBytes f).1.getD 0 0 := by
    simpa using congrArg (·.getD 0) (leBytes_getElem? f (i := 0) (by omega))
  have hval : (UInt8.ofNat (f.val / 256 ^ 31)).toNat = f.val / 256 ^ 31 % 256 := UInt8.toNat_ofNat'
  have hbound : f.val / 256 ^ 31 ≤ 0x30 :=
    (Nat.div_le_div_right (Nat.le_of_lt f.isLt)).trans (by decide)
  have hbyte : (frToBeBytes f).1.getD 0 0 = UInt8.ofNat (f.val / 256 ^ 31) := rfl
  rw [assertCanonical, decide_eq_true_iff, hget, hbyte, UInt8.le_iff_toNat_le, hval]
  exact (Nat.mod_le _ _).trans hbound

/-- What the circuits use of a field element. -/
class NoirField (F : Type) extends Scalar F where
  /-- `cmp::lt_field`. -/
  ltField : F → F → Bool
  /-- The condition of `cmp::assert_canonical`. -/
  canonical : F → Bool
  ltField_iff : ∀ {a b : F}, ltField a b = true ↔ toNat a < toNat b
  canonical_eq : ∀ a : F, canonical a = true

instance : NoirField Fr where
  ltField := ltField
  canonical := assertCanonical
  ltField_iff := ltField_iff
  canonical_eq := assertCanonical_eq

instance : NoirField Unbounded where
  ltField a b := decide (a.val < b.val)
  canonical _ := true
  ltField_iff := decide_eq_true_iff
  canonical_eq _ := rfl

end Pocs.Civic
