import Mathlib.Data.Nat.Pairing
import Pocs.Civic.Field

/-! # The protocol's hash functions

Poseidon is a parameter: `Poseidon F` collects the fixed-width hashes and the width-5 permutation
that `poseidon.rs` and `hasher.nr` are built on. `TreeIdeal` and `LeafIdeal` state what the
security arguments assume of the hashes of the indexed Merkle trees; `idealPoseidon` is a hash with
these properties over the unbounded carrier. -/

namespace Pocs.Civic

/-- The permutation and its hashes, by arity. -/
structure Poseidon (F : Type) where
  hash2 : F → F → F
  hash3 : F → F → F → F
  hash4 : F → F → F → F → F
  hash5 : F → F → F → F → F → F
  hash6 : F → F → F → F → F → F → F
  /-- The permutation of the width-5 state. -/
  permute : (Fin 5 → F) → Fin 5 → F

section
variable {F : Type} [Scalar F] (P : Poseidon F)

def hashMerkleNode (left right : F) : F := P.hash2 left right

/-- `leaf = Poseidon1(DOMAIN_LEAF, nullifier, class_tag)`, with `DOMAIN_LEAF = 3`. -/
def hashLeaf (nullifier classTag : F) : F := P.hash3 (Scalar.ofNat 3) nullifier classTag

/-- IMT leaf hash, with a trailing zero to fix the arity at 4. -/
def hashImtLeaf (value nextIndex nextValue : F) : F := P.hash4 value nextIndex nextValue 0

def imtEmptyLeafHash : F := hashImtLeaf P 0 0 0

/-- Iterated `hash_2` chain over `[DOMAIN_PRED, canonical.., petition_id, salt]`. -/
def hashPredicate (canonicalPredicateDef : List F) (petitionId salt : F) : F :=
  let acc := canonicalPredicateDef.foldl P.hash2 (Scalar.ofNat 5)
  P.hash2 (P.hash2 acc petitionId) salt

/-- The hashes of an indexed Merkle tree are collision free. -/
structure TreeIdeal : Prop where
  node_inj : Function.Injective2 (hashMerkleNode P)
  imtLeaf_inj : ∀ {v i n v' i' n'}, hashImtLeaf P v i n = hashImtLeaf P v' i' n' → v = v' ∧ i = i' ∧ n = n'
  imtLeaf_ne_node : ∀ v i n l r, hashImtLeaf P v i n ≠ hashMerkleNode P l r

/-- So is the leaf hash, which is never zero. -/
structure LeafIdeal : Prop extends TreeIdeal P where
  leaf_inj : Function.Injective2 (hashLeaf P)
  leaf_ne_zero : ∀ n c, hashLeaf P n c ≠ 0
  leaf_ne_imtLeaf : ∀ n c v i n', hashLeaf P n c ≠ hashImtLeaf P v i n'
  leaf_ne_node : ∀ n c l r, hashLeaf P n c ≠ hashMerkleNode P l r

end

/-- Collision-free hashes with disjoint ranges, by pairing. -/
def idealPoseidon : Poseidon Unbounded where
  hash2 a b := ⟨4 * Nat.pair a.val b.val + 1⟩
  hash3 a b c := ⟨4 * Nat.pair a.val (Nat.pair b.val c.val) + 2⟩
  hash4 a b c d := ⟨4 * Nat.pair a.val (Nat.pair b.val (Nat.pair c.val d.val)) + 3⟩
  hash5 a b c d e :=
    ⟨4 * Nat.pair a.val (Nat.pair b.val (Nat.pair c.val (Nat.pair d.val e.val))) + 4⟩
  hash6 a b c d e f :=
    ⟨4 * Nat.pair a.val (Nat.pair b.val (Nat.pair c.val (Nat.pair d.val (Nat.pair e.val f.val)))) + 4⟩
  permute s := s

theorem Unbounded.ext_val {a b : Unbounded} (h : a.val = b.val) : a = b := by
  cases a; cases b; simp_all

/-- `4 * a + i = 4 * b + i` on the values of two scalars. -/
private theorem quad_inj {a b i : Nat} (h : (⟨4 * a + i⟩ : Unbounded) = ⟨4 * b + i⟩) : a = b := by
  have := Unbounded.mk.inj h
  omega

private theorem quad_ne {a b i j : Nat} (hi : i % 4 ≠ j % 4) :
    (⟨4 * a + i⟩ : Unbounded) ≠ ⟨4 * b + j⟩ := fun h => by
  have := Unbounded.mk.inj h
  omega

theorem idealPoseidon_leafIdeal : LeafIdeal idealPoseidon where
  node_inj a b c d h := by
    obtain ⟨h1, h2⟩ := Nat.pair_eq_pair.mp (quad_inj h)
    exact ⟨Unbounded.ext_val h1, Unbounded.ext_val h2⟩
  imtLeaf_inj h := by
    obtain ⟨h1, h⟩ := Nat.pair_eq_pair.mp (quad_inj h)
    obtain ⟨h2, h⟩ := Nat.pair_eq_pair.mp h
    obtain ⟨h3, -⟩ := Nat.pair_eq_pair.mp h
    exact ⟨Unbounded.ext_val h1, Unbounded.ext_val h2, Unbounded.ext_val h3⟩
  imtLeaf_ne_node _ _ _ _ _ := quad_ne (by decide)
  leaf_inj a b c d h := by
    obtain ⟨-, h⟩ := Nat.pair_eq_pair.mp (quad_inj h)
    obtain ⟨h1, h2⟩ := Nat.pair_eq_pair.mp h
    exact ⟨Unbounded.ext_val h1, Unbounded.ext_val h2⟩
  leaf_ne_zero _ _ h := by
    have := Unbounded.mk.inj h
    omega
  leaf_ne_imtLeaf _ _ _ _ _ := quad_ne (by decide)
  leaf_ne_node _ _ _ _ := quad_ne (by decide)

end Pocs.Civic
