import Pocs.Validium.Bridge

/-! # Runs of the bridge

Calls by anyone in any order, reverted calls, the clock, and the token moving elsewhere. -/

namespace Pocs.Validium

variable {W τ : Type} [DecidableEq W]

/-- A call, with the bridge before it, a revert, time that passes, or tokens sent in. -/
inductive Step (W : Type) where
  | call (sender : Address) (before : Bridge W) (call : Call W)
  | reverted
  | tick (timestamp : Nat)
  | inflow

/-- Nobody sends from address zero, the clock does not go back, and nobody else spends the tokens of the
bridge. -/
inductive Transition (D : Deployment W τ) (w : World W τ) : Step W → World W τ → Prop where
  | call {sender call w'} (sender_ne : sender ≠ 0) (ok : call.run D sender w = .ok w') :
    Transition D w (.call sender w.bridge call) w'
  | reverted {sender call e} (err : Call.run D sender w call = .error e) : Transition D w .reverted w
  | tick {timestamp} (le : w.timestamp ≤ timestamp) : Transition D w (.tick timestamp) { w with timestamp }
  | inflow {token} (balance : w.balance D ≤ D.token.balanceOf token D.address) :
    Transition D w .inflow { w with token }

/-- The bridge as it was deployed. -/
inductive Deployed (D : Deployment W τ) (initialRoot : W) : World W τ → Prop where
  | mk {timestamp token} : Deployed D initialRoot ⟨timestamp, Bridge.new D.sha256 timestamp initialRoot, token⟩

/-- The proofs accepted for the root of a tree replace it by one of the same depth: a transfer keeps the
total, a withdrawal lowers the balance of one account. -/
structure Deployment.Conserves (D : Deployment W τ) (depth : Nat) : Prop where
  transfer : ∀ {proof newRoot} {t : AccountTree W}, t.depth = depth →
    D.verifyTransfer proof (t.root D.sha256) newRoot = true →
      ∃ t' : AccountTree W, t'.depth = depth ∧ t'.root D.sha256 = newRoot ∧ t'.total = t.total
  withdrawal : ∀ {proof newRoot amount recipient} {t : AccountTree W}, t.depth = depth →
    D.verifyWithdrawal proof (t.root D.sha256) newRoot amount recipient = true →
      ∃ t' : AccountTree W, t'.depth = depth ∧ t'.root D.sha256 = newRoot ∧
        ∃ i < 2 ^ depth, t'.balance i + amount.toNat = t.balance i ∧ ∀ j ≠ i, t'.balance j = t.balance j

variable {D : Deployment W τ} {w w' w₀ : World W τ} {tr : List (Step W)} {st : Step W}

structure Keeps (b b' : Bridge W) : Prop where
  frozen : b.frozen = true → b'.frozen = true
  stateRoot : b.frozen = true → b'.stateRoot = b.stateRoot
  escapeAddress : b.frozen = true → b'.escapeAddress = b.escapeAddress
  claimed : b.frozen = false → b'.claimed = b.claimed
  still_claimed : ∀ i, b.claimed i = true → b'.claimed i = true
  forcedRequestCount : b.forcedRequestCount ≤ b'.forcedRequestCount

omit [DecidableEq W] in
theorem Keeps.refl (b : Bridge W) : Keeps b b :=
  ⟨id, fun _ => rfl, fun _ => rfl, fun _ => rfl, fun _ => id, Nat.le_refl _⟩

theorem Accepted.keeps {sender : Address} {call : Call W} (h : Accepted D sender w call w') :
    Keeps w.bridge w'.bridge := by
  have hlive : ∀ {p : Prop}, w.bridge.frozen = false → w.bridge.frozen = true → p := fun hf ht =>
    absurd (hf.symm.trans ht) Bool.false_ne_true
  cases h with
  | deposit live _ _ _ _ | withdraw live _ _ _ | postTransferBatch live _
  | processForcedWithdrawal live _ _ _ _ | freezeOnExpiredRequest live _ _ _ =>
    exact ⟨hlive live, hlive live, hlive live, fun _ => rfl, fun _ => id, Nat.le_refl _⟩
  | freeze live _ => exact ⟨hlive live, hlive live, hlive live, fun _ => rfl, fun _ => id, Nat.le_refl _⟩
  | requestForcedWithdrawal live _ _ =>
    exact ⟨hlive live, hlive live, hlive live, fun _ => rfl, fun _ => id, Nat.le_succ _⟩
  | @escapeWithdraw leafIndex _ _ _ _ _ frozen _ _ _ _ _ =>
    refine ⟨fun _ => frozen, fun _ => rfl, fun _ => rfl, fun hf => hlive hf frozen, fun i hi => ?_, Nat.le_refl _⟩
    show Function.update w.bridge.claimed leafIndex true i = true
    rcases eq_or_ne i leafIndex with rfl | hne
    · exact Function.update_self ..
    · rwa [Function.update_of_ne hne]

theorem Transition.keeps (h : Transition D w st w') : Keeps w.bridge w'.bridge := by
  cases h with
  | call _ ok => exact (Call.run_eq_ok.mp ok).keeps
  | reverted err => exact .refl _
  | tick le => exact .refl _
  | inflow balance => exact .refl _

/-- A bridge that is frozen stays so. -/
theorem frozen_of_run (h : Run (Transition D) w tr w') (hf : w.bridge.frozen = true) :
    w'.bridge.frozen = true :=
  h.invariant (I := fun _ s => s.bridge.frozen = true) hf fun _ _ _ _ _ hstep ih => hstep.keeps.frozen ih

end Pocs.Validium
