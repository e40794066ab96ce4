import Mathlib.Algebra.BigOperators.Group.Finset.Basic
import Mathlib.Algebra.Order.BigOperators.Group.Finset
import Pocs.Lib.Bytes
import Pocs.Lib.Checked
import Pocs.Lib.Merkle

/-! # Hashes and account trees

`guest/crypto/src/lib.rs`, which the guests share. Words of 32 bytes are a parameter, and SHA-256 is one on
what is hashed one after the other, so that the collision-free hash of `Ideal` exists: `Term` has one. -/

namespace Pocs.Validium

abbrev Address := BitVec 160

/-- What a hasher is updated with, or an argument of `abi.encodePacked`. -/
inductive Packed (W : Type) where
  | word (w : W)
  | bytes (bs : List UInt8)
  deriving DecidableEq

/-- The hash of packed values. -/
structure Sha256 (W : Type) where
  digest : List (Packed W) → W
  /-- `[0u8; 32]`. -/
  zero : W

/-! ## `guest_crypto` -/

/-- `to_le_bytes` and `to_be_bytes`. -/
def toLeBytes (x : UInt64) : List UInt8 := (beOfNat 8 x.toNat).reverse
def toBeBytes (x : UInt64) : List UInt8 := beOfNat 8 x.toNat

namespace Sha256
variable {W : Type} (S : Sha256 W)

/-- `sha256` of 32 bytes. -/
def sha256 (data : W) : W := S.digest [.word data]

def hashPair (left right : W) : W := S.digest [.word left, .word right]

def accountCommitment (pubkey : W) (balance : UInt64) (salt : W) : W :=
  S.digest [.word pubkey, .bytes (toLeBytes balance), .word salt]

/-- The shorter of the vectors bounds the loop. -/
def computeRoot (leaf : W) (path : List W) (indices : List Bool) : W :=
  (path.zip indices).foldl (fun current level =>
    if level.2 then S.hashPair level.1 current else S.hashPair current level.1) leaf

def verifyMembership [DecidableEq W] (leaf : W) (path : List W) (indices : List Bool)
    (expectedRoot : W) : Except String Unit :=
  require (S.computeRoot leaf path indices = expectedRoot)
    "Merkle root mismatch: membership verification failed"

/-- SHA-256 has no collisions between accounts, with balances of 8 bytes, and inner nodes, and zero is none of
them. -/
structure Ideal (S : Sha256 W) : Prop where
  pair : ∀ {l r l' r' : W}, S.digest [.word l, .word r] = S.digest [.word l', .word r'] → l = l' ∧ r = r'
  account : ∀ {pubkey salt pubkey' salt' : W} {bs bs' : List UInt8}, bs.length = 8 → bs'.length = 8 →
    S.digest [.word pubkey, .bytes bs, .word salt] = S.digest [.word pubkey', .bytes bs', .word salt'] →
      pubkey = pubkey' ∧ bs = bs' ∧ salt = salt'
  account_ne_pair : ∀ (pubkey salt l r : W) {bs : List UInt8}, bs.length = 8 →
    S.digest [.word pubkey, .bytes bs, .word salt] ≠ S.digest [.word l, .word r]
  zero_ne_pair : ∀ l r : W, S.zero ≠ S.digest [.word l, .word r]
  zero_ne_account : ∀ (pubkey salt : W) {bs : List UInt8}, bs.length = 8 →
    S.zero ≠ S.digest [.word pubkey, .bytes bs, .word salt]

end Sha256

theorem toBeBytes_inj {x y : UInt64} (h : toBeBytes x = toBeBytes y) : x = y := by
  have hnum := congrArg beToNat h
  have hx : x.toNat < 256 ^ 8 := x.toNat_lt
  have hy : y.toNat < 256 ^ 8 := y.toNat_lt
  rw [toBeBytes, toBeBytes, beToNat_beOfNat, beToNat_beOfNat, Nat.mod_eq_of_lt hx, Nat.mod_eq_of_lt hy] at hnum
  exact UInt64.toNat_inj.mp hnum

theorem length_toLeBytes (x : UInt64) : (toLeBytes x).length = 8 := by
  rw [toLeBytes, List.length_reverse, length_beOfNat]

theorem toLeBytes_inj {x y : UInt64} (h : toLeBytes x = toLeBytes y) : x = y :=
  toBeBytes_inj (List.reverse_injective h)

/-! ## Accounts -/

/-- The preimage of a leaf. -/
structure Account (W : Type) where
  pubkey : W
  balance : UInt64
  salt : W
  deriving DecidableEq

/-- Accounts at the leaves of a tree of the given depth, the others being empty. Positions from
`2 ^ depth` on are not in the tree. -/
structure AccountTree (W : Type) where
  depth : Nat
  leaves : Nat → Option (Account W)

section
variable {W : Type} (S : Sha256 W)

def Account.commitment (a : Account W) : W := S.accountCommitment a.pubkey a.balance a.salt

namespace AccountTree
variable (t : AccountTree W)

def leaf (i : Nat) : W := (t.leaves i).elim S.zero (Account.commitment S)

def root : W := Merkle.nodeAt S.hashPair (t.leaf S) t.depth 0

def balance (i : Nat) : Nat := (t.leaves i).elim 0 fun a => a.balance.toNat

def total : Nat := ∑ i ∈ Finset.range (2 ^ t.depth), t.balance i

def set (i : Nat) (a : Account W) : AccountTree W :=
  { t with leaves := Function.update t.leaves i (some a) }

end AccountTree

end

section
variable {W : Type} {S : Sha256 W} {t t' : AccountTree W}

def position (path : List W) (indices : List Bool) : Nat :=
  Merkle.ofBits ((indices.zip path).map (·.1))

theorem computeRoot_eq_foldPath (leaf : W) (path : List W) (indices : List Bool) :
    S.computeRoot leaf path indices = Merkle.foldPath S.hashPair leaf (indices.zip path) := by
  induction path generalizing leaf indices with
  | nil => simp [Sha256.computeRoot, Merkle.foldPath]
  | cons sibling path ih =>
    cases indices with
    | nil => rfl
    | cons b indices => exact ih _ indices

namespace Sha256.Ideal
variable (H : S.Ideal)
include H

theorem pair_inj : Function.Injective2 S.hashPair := fun _ _ _ _ h => H.pair h

theorem commitment_inj {a b : Account W} (h : a.commitment S = b.commitment S) : a = b := by
  obtain ⟨hpubkey, hbalance, hsalt⟩ := H.account (length_toLeBytes _) (length_toLeBytes _) h
  have hbalance := toLeBytes_inj hbalance
  cases a
  cases b
  cases hpubkey
  cases hbalance
  cases hsalt
  rfl

theorem commitment_ne (a : Account W) (l r : W) : a.commitment S ≠ S.hashPair l r :=
  H.account_ne_pair _ _ l r (length_toLeBytes _)

theorem leaf_ne (t : AccountTree W) (i : Nat) (l r : W) : t.leaf S i ≠ S.hashPair l r := by
  rw [AccountTree.leaf]
  cases t.leaves i with
  | none => exact H.zero_ne_pair l r
  | some a => exact H.commitment_ne a l r

/-- The hash of a leaf determines what is there. -/
theorem leaf_inj {i j : Nat} (h : t.leaf S i = t'.leaf S j) : t.leaves i = t'.leaves j := by
  rw [AccountTree.leaf, AccountTree.leaf] at h
  cases ha : t.leaves i with
  | none =>
    cases hb : t'.leaves j with
    | none => rfl
    | some b =>
      rw [ha, hb] at h
      exact absurd h (H.zero_ne_account _ _ (length_toLeBytes _))
  | some a =>
    cases hb : t'.leaves j with
    | none =>
      rw [ha, hb] at h
      exact absurd h.symm (H.zero_ne_account _ _ (length_toLeBytes _))
    | some b =>
      rw [ha, hb] at h
      rw [H.commitment_inj h]

/-- Below the same root there are the same accounts. -/
theorem leaves_eq (hdepth : t.depth = t'.depth) (hroot : t.root S = t'.root S) {i : Nat}
    (hi : i < 2 ^ t.depth) : t.leaves i = t'.leaves i := by
  rw [AccountTree.root, AccountTree.root, ← hdepth] at hroot
  exact H.leaf_inj (Merkle.nodeAt_inj H.pair_inj hroot (Nat.div_eq_of_lt hi))

theorem total_eq (hdepth : t.depth = t'.depth) (hroot : t.root S = t'.root S) : t.total = t'.total := by
  rw [AccountTree.total, AccountTree.total, ← hdepth]
  apply Finset.sum_congr rfl
  intro i hi
  rw [AccountTree.balance, AccountTree.balance, H.leaves_eq hdepth hroot (Finset.mem_range.mp hi)]

/-- A path from an account to the root of a tree is the path of a leaf with this account, whatever the
lengths of its vectors. -/
theorem mem_of_computeRoot {a : Account W} {path : List W} {indices : List Bool}
    (h : S.computeRoot (a.commitment S) path indices = t.root S) :
    (indices.zip path).length = t.depth ∧ position path indices < 2 ^ t.depth ∧
      t.leaves (position path indices) = some a ∧
      indices.zip path = Merkle.pathAt S.hashPair (t.leaf S) 0 t.depth (position path indices) := by
  rw [computeRoot_eq_foldPath] at h
  obtain ⟨hlength, hleaf, hpath⟩ :=
    Merkle.foldPath_eq_root H.pair_inj (H.leaf_ne t) (H.commitment_ne a) h
  refine ⟨hlength, ?_, ?_, hpath⟩
  · have hlt := Merkle.ofBits_lt ((indices.zip path).map (·.1))
    rwa [List.length_map, hlength] at hlt
  · have hsingle : (⟨0, fun _ => some a⟩ : AccountTree W).leaf S 0 = a.commitment S := rfl
    exact (H.leaf_inj (hsingle.trans hleaf)).symm

end Sha256.Ideal

theorem sum_update_add {s : Finset Nat} {i : Nat} (hi : i ∈ s) (f : Nat → Nat) (v : Nat) :
    ∑ j ∈ s, Function.update f i v j + f i = ∑ j ∈ s, f j + v := by
  rw [Finset.sum_update_of_mem hi, ← Finset.sum_sdiff (Finset.singleton_subset_iff.mpr hi),
    Finset.sum_singleton]
  omega

namespace AccountTree

@[simp] theorem leaves_set (i : Nat) (a : Account W) :
    (t.set i a).leaves = Function.update t.leaves i (some a) := rfl

theorem leaf_set (i : Nat) (a : Account W) :
    (t.set i a).leaf S = Function.update (t.leaf S) i (a.commitment S) := by
  funext j
  rcases eq_or_ne j i with rfl | hne
  · simp [leaf, set]
  · simp [leaf, set, hne]

theorem balance_set (i : Nat) (a : Account W) :
    (t.set i a).balance = Function.update t.balance i a.balance.toNat := by
  funext j
  rcases eq_or_ne j i with rfl | hne
  · simp [balance, set]
  · simp [balance, set, hne]

/-- One balance changes the total. -/
theorem total_set {i : Nat} (hi : i < 2 ^ t.depth) (a : Account W) :
    (t.set i a).total + t.balance i = t.total + a.balance.toNat := by
  have hset : (t.set i a).total = ∑ j ∈ Finset.range (2 ^ t.depth),
      Function.update t.balance i a.balance.toNat j := by
    rw [total, balance_set]
    rfl
  rw [hset, sum_update_add (Finset.mem_range.mpr hi), total]

/-- What is below the leaves that have not been claimed. -/
def unclaimed (t : AccountTree W) (claimed : Nat → Bool) : Nat :=
  ∑ i ∈ Finset.range (2 ^ t.depth), if claimed i then 0 else t.balance i

theorem unclaimed_none (t : AccountTree W) : t.unclaimed (fun _ => false) = t.total := rfl

theorem unclaimed_update {claimed : Nat → Bool} {i : Nat} (hi : i < 2 ^ t.depth)
    (hclaimed : claimed i = false) :
    t.unclaimed (Function.update claimed i true) + t.balance i = t.unclaimed claimed := by
  have hupdate : (fun j => if Function.update claimed i true j then 0 else t.balance j) =
      Function.update (fun j => if claimed j then 0 else t.balance j) i 0 := by
    funext j
    rcases eq_or_ne j i with rfl | hne
    · simp
    · simp [hne]
  have hsum := sum_update_add (Finset.mem_range.mpr hi) (fun j => if claimed j then 0 else t.balance j) 0
  rw [← hupdate, hclaimed] at hsum
  exact hsum

theorem balance_of_leaves {i : Nat} {a : Account W} (h : t.leaves i = some a) :
    t.balance i = a.balance.toNat := by
  rw [balance, h]
  rfl

/-- Folding another account along the path of a leaf gives the root of the changed tree. -/
theorem root_set {i : Nat} (hi : i < 2 ^ t.depth) (a : Account W) :
    (t.set i a).root S = Merkle.foldPath S.hashPair (a.commitment S)
      (Merkle.pathAt S.hashPair (t.leaf S) 0 t.depth i) := by
  rw [Merkle.foldPath_pathAt_update, Nat.div_eq_of_lt hi, root, leaf_set]
  rfl

end AccountTree

end

/-- What is hashed in the protocol, as terms. -/
inductive Term where
  | zero
  | atom (n : Nat)
  | word (w : Term)
  | pair (left right : Term)
  | account (pubkey : Term) (balance : List UInt8) (salt : Term)
  | withdrawal (oldRoot newRoot : Term) (amount recipient : List UInt8)
  deriving DecidableEq

def termSha256 : Sha256 Term where
  digest
    | [.word w] => .word w
    | [.word l, .word r] => .pair l r
    | [.word pubkey, .bytes bs, .word salt] => .account pubkey bs salt
    | [.word oldRoot, .word newRoot, .bytes amount, .bytes recipient] =>
      .withdrawal oldRoot newRoot amount recipient
    | _ => .zero
  zero := .zero

theorem termSha256_ideal : termSha256.Ideal where
  pair h := Term.pair.inj h
  account _ _ h := Term.account.inj h
  account_ne_pair _ _ _ _ _ _ := Term.noConfusion
  zero_ne_pair _ _ := Term.noConfusion
  zero_ne_account _ _ _ _ := Term.noConfusion

end Pocs.Validium
