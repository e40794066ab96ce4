import Mathlib.Algebra.BigOperators.Group.Finset.Basic
import Mathlib.Algebra.Order.BigOperators.Group.Finset
import Mathlib.Tactic

/-! # Tokens and balances that cover their debts

A contract sees a token through its balances and two calls that succeed or fail. `Token.Exact` says
that a successful call moves exactly the stated amount. `Covers B f` says that a balance `B` pays
the debts `f` of any finite set of creditors. -/

namespace Pocs

/-- Balances after `n` went from `src` to `dst`. -/
def moved {A : Type _} [DecidableEq A] (bal : A → Nat) (src dst : A) (n : Nat) (a : A) : Nat :=
  bal a - (if a = src then n else 0) + if a = dst then n else 0

section
variable {A : Type _} [DecidableEq A] {bal : A → Nat} {src dst a : A} {n : Nat}

theorem moved_src (h : src ≠ dst) : moved bal src dst n src = bal src - n := by
  simp [moved, h]

theorem moved_dst (h : src ≠ dst) : moved bal src dst n dst = bal dst + n := by
  simp [moved, h.symm]

/-- The recipient does not lose, even where it is the sender. -/
theorem le_moved_dst (h : n ≤ bal src) : bal dst ≤ moved bal src dst n dst := by
  rw [moved, if_pos rfl]
  split
  · subst dst
    omega
  · omega

/-- The sender is left with at least what the amount does not take. -/
theorem le_moved_src : bal src - n ≤ moved bal src dst n src := by
  simp [moved]

/-- The sender is not left with more than it had. -/
theorem moved_src_le (h : n ≤ bal src) : moved bal src dst n src ≤ bal src := by
  rw [moved, if_pos rfl]
  split
  · omega
  · omega

end

/-- A token contract: a call is `none` when it reverts or returns `false`. -/
structure Token (A τ : Type) where
  balanceOf : τ → A → Nat
  transfer : (sender recipient : A) → (amount : Nat) → τ → Option τ
  transferFrom : (spender owner recipient : A) → (amount : Nat) → τ → Option τ

/-- Calls move exactly the stated amount, which the owner has. -/
structure Token.Exact {A τ : Type} [DecidableEq A] (T : Token A τ) : Prop where
  transfer : ∀ {sender recipient amount t t'}, T.transfer sender recipient amount t = some t' →
    amount ≤ T.balanceOf t sender ∧ T.balanceOf t' = moved (T.balanceOf t) sender recipient amount
  transferFrom : ∀ {spender owner recipient amount t t'},
    T.transferFrom spender owner recipient amount t = some t' → amount ≤ T.balanceOf t owner ∧
      T.balanceOf t' = moved (T.balanceOf t) owner recipient amount

/-- A token whose owners can approve a spender. -/
structure Erc20 (A τ : Type) extends Token A τ where
  /-- `SafeERC20.forceApprove`. -/
  forceApprove : (owner spender : A) → (amount : Nat) → τ → Option τ

/-- Approvals move nothing. -/
structure Erc20.Exact {A τ : Type} [DecidableEq A] (T : Erc20 A τ) : Prop extends Token.Exact T.toToken where
  forceApprove : ∀ {owner spender amount t t'}, T.forceApprove owner spender amount t = some t' →
    T.balanceOf t' = T.balanceOf t

def Token.Pays {A τ : Type} (T : Token A τ) (sender : A) : Prop :=
  ∀ recipient amount t, amount ≤ T.balanceOf t sender → (T.transfer sender recipient amount t).isSome

/-! ## Covered debts -/

/-- The balance pays the debts of any finite set. -/
def Covers {ι : Type _} (B : Nat) (f : ι → Nat) : Prop := ∀ S : Finset ι, ∑ i ∈ S, f i ≤ B

namespace Covers
variable {ι : Type _} {B B' : Nat} {f g : ι → Nat}

theorem zero : Covers B (fun _ : ι => 0) := fun S => by simp

theorem mono (h : Covers B f) (hB : B ≤ B') : Covers B' f := fun S => (h S).trans hB

/-- Replacing one debt changes what is needed by the difference. -/
theorem update [DecidableEq ι] (h : Covers B f) {i : ι} {v : Nat} (hB : B + v ≤ B' + f i) :
    Covers B' (Function.update f i v) := by
  intro S
  -- the other debts and the old one are covered together
  have hold := h (insert i (S.erase i))
  rw [Finset.sum_insert (Finset.notMem_erase i S)] at hold
  have hnew : ∑ j ∈ S, Function.update f i v j ≤ v + ∑ j ∈ S.erase i, f j := by
    have hrest : ∑ j ∈ S.erase i, Function.update f i v j = ∑ j ∈ S.erase i, f j :=
      Finset.sum_congr rfl fun j hj => Function.update_of_ne (Finset.ne_of_mem_erase hj) _ _
    by_cases hi : i ∈ S
    · rw [← Finset.add_sum_erase S _ hi, Function.update_self, hrest]
    · rw [← Finset.erase_eq_of_notMem hi, hrest, Finset.erase_idem]
      exact Nat.le_add_left _ _
  omega

end Covers

/-- One term of a sum grows. -/
theorem sum_add_ite {ι : Type _} [DecidableEq ι] {S : Finset ι} {i : ι} (h : i ∈ S) (f : ι → Nat)
    (n : Nat) : ∑ j ∈ S, (f j + if j = i then n else 0) = ∑ j ∈ S, f j + n := by
  rw [Finset.sum_add_distrib, Finset.sum_ite_eq', if_pos h]

/-! ## Ledgers -/

/-- A token that keeps a balance per account and asks for no allowance. -/
def ledger (A : Type) [DecidableEq A] : Token A (A → Nat) where
  balanceOf t := t
  transfer sender recipient amount t :=
    if amount ≤ t sender then some (moved t sender recipient amount) else none
  transferFrom _ owner recipient amount t :=
    if amount ≤ t owner then some (moved t owner recipient amount) else none

theorem ledger_exact (A : Type) [DecidableEq A] : (ledger A).Exact where
  transfer h := by
    simp only [ledger, Option.ite_none_right_eq_some, Option.some.injEq] at h
    exact ⟨h.1, h.2.symm⟩
  transferFrom h := by
    simp only [ledger, Option.ite_none_right_eq_some, Option.some.injEq] at h
    exact ⟨h.1, h.2.symm⟩

/-- A ledger that needs no approvals. -/
def ledgerErc20 (A : Type) [DecidableEq A] : Erc20 A (A → Nat) where
  toToken := ledger A
  forceApprove _ _ _ t := some t

theorem ledgerErc20_exact (A : Type) [DecidableEq A] : (ledgerErc20 A).Exact where
  toExact := ledger_exact A
  forceApprove h := congrArg _ (Option.some.inj h).symm

section
variable {A : Type} [DecidableEq A] {spender owner sender recipient : A} {amount : Nat} {t : A → Nat}

theorem ledger_transfer (h : amount ≤ t sender) :
    (ledger A).transfer sender recipient amount t = some (moved t sender recipient amount) :=
  if_pos h

theorem ledger_transferFrom (h : amount ≤ t owner) : (ledger A).transferFrom spender owner recipient amount t =
      some (moved t owner recipient amount) :=
  if_pos h

end

end Pocs
