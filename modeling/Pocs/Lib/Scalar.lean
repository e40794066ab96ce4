import Mathlib.Tactic

/-! # Field scalars seen through their canonical integers

Protocol code compares scalars, converts machine integers into them and hashes them; it rarely does
arithmetic. `Scalar F` is that interface: an injective canonical integer `toNat`, which induces the
order, and the conversion `ofNat` of machine integers. Hash functions are parameters over `F`, so the
same code can be read over a prime field or over an unbounded carrier on which collision-free hashes
exist. -/

namespace Pocs

/-- A field as far as its representatives go. -/
class Scalar (F : Type) where
  /-- The canonical representative. -/
  toNat : F → Nat
  /-- Conversion of an unsigned machine integer. -/
  ofNat : Nat → F
  toNat_inj : ∀ {a b : F}, toNat a = toNat b → a = b
  toNat_ofNat : ∀ {n : Nat}, n < 2 ^ 64 → toNat (ofNat n) = n

namespace Scalar
variable {F : Type} [Scalar F]

theorem toNat_injective : Function.Injective (toNat : F → Nat) := fun _ _ h => toNat_inj h

instance : Zero F := ⟨ofNat 0⟩

/-- Scalars are ordered by their canonical integers. -/
instance : LinearOrder F := LinearOrder.lift' toNat toNat_injective

theorem lt_iff {a b : F} : a < b ↔ toNat a < toNat b := Iff.rfl

theorem le_iff {a b : F} : a ≤ b ↔ toNat a ≤ toNat b := Iff.rfl

@[simp] theorem toNat_zero : toNat (0 : F) = 0 := toNat_ofNat (by decide)

theorem ofNat_zero : ofNat 0 = (0 : F) := rfl

protected theorem zero_le (a : F) : 0 ≤ a := by simp [le_iff]

theorem pos_iff {a : F} : 0 < a ↔ a ≠ 0 :=
  ⟨fun h => h.ne', fun h => lt_of_le_of_ne (Scalar.zero_le a) h.symm⟩

theorem ofNat_inj {m n : Nat} (hm : m < 2 ^ 64) (hn : n < 2 ^ 64) (h : (ofNat m : F) = ofNat n) : m = n := by
  rw [← toNat_ofNat (F := F) hm, h, toNat_ofNat hn]

end Scalar

/-- The scalar field of prime order `p`, by canonical representatives. -/
structure PrimeField (p : Nat) where
  val : Nat
  isLt : val < p
  deriving DecidableEq

namespace PrimeField

theorem ext_val {p : Nat} {a b : PrimeField p} (h : a.val = b.val) : a = b := by
  cases a; cases b; simp_all

variable {p : Nat} [NeZero p]

def reduce (n : Nat) : PrimeField p := ⟨n % p, Nat.mod_lt _ (NeZero.pos p)⟩

instance : Add (PrimeField p) := ⟨fun a b => reduce (a.val + b.val)⟩
instance : Mul (PrimeField p) := ⟨fun a b => reduce (a.val * b.val)⟩

theorem reduce_add (m n : Nat) : reduce m + reduce n = (reduce (m + n) : PrimeField p) :=
  ext_val (Nat.add_mod m n p).symm

theorem reduce_mul (m n : Nat) : reduce m * reduce n = (reduce (m * n) : PrimeField p) :=
  ext_val (Nat.mul_mod m n p).symm

theorem val_reduce {n : Nat} (h : n < p) : (reduce n : PrimeField p).val = n := Nat.mod_eq_of_lt h

theorem reduce_inj {m n : Nat} (hm : m < p) (hn : n < p)
    (h : (reduce m : PrimeField p) = reduce n) : m = n := by
  rw [← val_reduce hm, h, val_reduce hn]

theorem reduce_val (a : PrimeField p) : reduce a.val = a := by
  simp [reduce, Nat.mod_eq_of_lt a.isLt]

end PrimeField

/-- An unbounded carrier of scalars, on which collision-free hash functions exist. -/
structure Unbounded where
  val : Nat
  deriving DecidableEq

instance : Add Unbounded := ⟨fun a b => ⟨a.val + b.val⟩⟩

instance : Scalar Unbounded where
  toNat := Unbounded.val
  ofNat := Unbounded.mk
  toNat_inj {a b} h := by cases a; cases b; simp_all
  toNat_ofNat _ := rfl

end Pocs
