import Mathlib.Data.Finset.Card
import Pocs.Lib.Nested
import Pocs.Lib.Update
import Pocs.Identity.Enrolments

/-! # Stakes

`unstake` pays with a call of the receiver, who may call back before it returns. The staker of a leaf, its entry
in the tree and its enrollment nullifier are written and deleted together, before the payment. -/

namespace Pocs.Identity

open Compliance (BnField Word Address merkleHash)
open Swap (IdealHash Doubled doubledHash)

/-! ## Payments -/

/-- What has happened and was not rolled back. -/
inductive StakeEvent where
  | enrolled (sender : Address) (leaf : Word)
  | paid (receiver : Address) (leaf : Word)
  deriving DecidableEq

def StakeEvent.leaf : StakeEvent → Word
  | .enrolled _ leaf => leaf
  | .paid _ leaf => leaf

def StakeEvent.isOf (leaf : Word) (e : StakeEvent) : Bool := decide (e.leaf = leaf)

/-- The contracts, the balance of `Enrollment` and its events, newest first. -/
structure Staking (T : Type) where
  world : World T
  balance : Nat
  log : List StakeEvent

/-- The step enrolls or removes a leaf, or lets others do so. -/
def Step.stakes {F P T : Type} (D : Deployment F P T) : Step → Bool
  | .call _ (.enroll _ _) => true
  | .call _ (.unstake _ _ _) => true
  | .call _ (.addAuthorized addr) => decide (addr ≠ D.enrollmentAddress)
  | _ => false

inductive Activity where
  | step (st : Step)
  /-- Ether that no function of `Enrollment` is called for. -/
  | forced (amount : Nat)

/-- The calls that are pending while others run: a payment, or a call of another contract. -/
inductive Payout where
  | payment (receiver : Address) (leaf : Word) (siblingNodes : List Word)
  | foreign
  deriving DecidableEq

section
variable {F P T : Type} [BnField F] (D : Deployment F P T)

/-- `unstake` up to the payment. -/
def beginUnstake (sender : Address) (w : World T) (leaf : Word) (siblingNodes : List Word) :
    Except IdentityError (World T) := do
  failIf (w.enrollment.paused = true) .contractPaused
  failIf (w.enrollment.stakers leaf ≠ sender) .notStaker
  let enrollment := { w.enrollment with stakers := Function.update w.enrollment.stakers leaf 0 }
  let tree ← w.tree.removeLeaf D D.enrollmentAddress leaf siblingNodes
  pure { w with enrollment, tree }

inductive Staking.Act (s : Staking T) : Activity → Staking T → Prop where
  | enroll {sender : Address} {value : Nat} {args : EnrollArgs} {w' : World T}
      (sender_ne : sender ≠ D.enrollmentAddress) (sender_ne_zero : sender ≠ 0)
      (ok : Identity.enroll D sender s.world value args = .ok w') :
    Act s (.step (.call sender (.enroll value args)))
      ⟨w', s.balance + value, .enrolled sender args.leaf :: s.log⟩
  | other {st : Step} {w' : World T} (plain : st.stakes D = false) (h : Transition D s.world st w') :
    Act s (.step st) { s with world := w' }
  | forced {amount : Nat} : Act s (.forced amount) { s with balance := s.balance + amount }

inductive Staking.Enter (s : Staking T) : Payout → Staking T → Prop where
  | payment {sender : Address} {leaf : Word} {siblingNodes : List Word} {w' : World T}
      (sender_ne : sender ≠ D.enrollmentAddress) (sender_ne_zero : sender ≠ 0)
      (ok : beginUnstake D sender s.world leaf siblingNodes = .ok w')
      (enough : s.world.enrollment.stakeAmount ≤ s.balance) :
    Enter s (.payment sender leaf siblingNodes)
      ⟨w', s.balance - s.world.enrollment.stakeAmount, .paid sender leaf :: s.log⟩
  | foreign : Enter s .foreign s

/-- `Enrollment` with the payments that have not returned. -/
abbrev Payouts (T : Type) := Nested (Staking T) Payout

abbrev Payouts.Step : Payouts T → Nested.Label Payout Activity → Payouts T → Prop :=
  Nested.Step (Staking.Act D) (Staking.Enter D)

variable {D : Deployment F P T} {w w' : World T} {s s' : Staking T} {sender : Address} {leaf : Word}
  {siblingNodes : List Word} {args : EnrollArgs}

theorem beginUnstake_eq_ok : beginUnstake D sender w leaf siblingNodes = .ok w' ↔
    w.enrollment.paused = false ∧ w.enrollment.stakers leaf = sender ∧
      ∃ tree, w.tree.removeLeaf D D.enrollmentAddress leaf siblingNodes = .ok tree ∧ { w with
          enrollment := { w.enrollment with stakers := Function.update w.enrollment.stakers leaf 0 }
          tree } = w' := by
  simp only [beginUnstake, bind_eq_ok, failIf_eq_ok, pure_eq_ok, exists_const, Bool.not_eq_true, not_not]

structure StakesKept (D : Deployment F P T) (w w' : World T) : Prop where
  tree : w'.tree.tree = w.tree.tree
  inserted : w'.tree.insertedLeaves = w.tree.insertedLeaves
  used : w'.tree.usedEnrollmentNullifiers = w.tree.usedEnrollmentNullifiers
  nullifierOf : w'.tree.leafEnrollmentNullifier = w.tree.leafEnrollmentNullifier
  stakers : w'.enrollment.stakers = w.enrollment.stakers
  stakeAmount : w'.enrollment.stakeAmount = w.enrollment.stakeAmount
  authorized : ∀ a, w'.tree.authorized a = true → a = D.enrollmentAddress ∨ w.tree.authorized a = true

omit [BnField F] in
theorem StakesKept.of_eq (htree : w'.tree = w.tree) (hstakers : w'.enrollment.stakers = w.enrollment.stakers)
    (hamount : w'.enrollment.stakeAmount = w.enrollment.stakeAmount) : StakesKept D w w' := by
  refine ⟨?_, ?_, ?_, ?_, hstakers, hamount, ?_⟩
  all_goals rw [htree]
  exact fun _ => .inr

omit [BnField F] in
theorem StakesKept.setAuthorized {addr : Address} {value : Bool} {tree : IdentityTree T}
    (h : w.tree.setAuthorized sender addr value = .ok tree) (haddr : value = true → addr = D.enrollmentAddress) :
    StakesKept D w (w.setTree tree) := by
  obtain ⟨authorized, rfl, hsub⟩ := setAuthorized_ok h haddr
  exact ⟨rfl, rfl, rfl, rfl, rfl, rfl, hsub⟩

/-- Only `Enrollment` inserts and removes leaves. -/
theorem Transition.stakesKept {st : Step} (h : Transition D w st w') (hplain : st.stakes D = false)
    (hauth : ∀ a, w.tree.authorized a = true → a = D.enrollmentAddress) : StakesKept D w w' := by
  cases h with
  | reverted err => exact .of_eq rfl rfl rfl
  | block le => exact .of_eq rfl rfl rfl
  | @call sender call _ hne ok =>
    cases call with
    | enroll | unstake => exact absurd hplain.symm Bool.false_ne_true
    | proposeMPCPublicKey x y =>
      obtain ⟨enrollment, hpropose, rfl⟩ := map_eq_ok.mp ok
      simp only [Enrollment.proposeMPCPublicKey, bind_eq_ok, pure_eq_ok] at hpropose
      obtain ⟨_, _, _, _, _, _, rfl⟩ := hpropose
      exact .of_eq rfl rfl rfl
    | finalizeMPCPublicKey =>
      obtain ⟨enrollment, hfinalize, rfl⟩ := map_eq_ok.mp ok
      simp only [Enrollment.finalizeMPCPublicKey, bind_eq_ok, pure_eq_ok] at hfinalize
      obtain ⟨_, _, _, _, _, _, rfl⟩ := hfinalize
      exact .of_eq rfl rfl rfl
    | vetoPendingKey =>
      obtain ⟨enrollment, hveto, rfl⟩ := map_eq_ok.mp ok
      simp only [Enrollment.vetoPendingKey, bind_eq_ok, pure_eq_ok] at hveto
      obtain ⟨_, _, _, _, rfl⟩ := hveto
      exact .of_eq rfl rfl rfl
    | pauseEnrollment paused =>
      obtain ⟨enrollment, hpause, rfl⟩ := map_eq_ok.mp ok
      simp only [Enrollment.setPaused, bind_eq_ok, pure_eq_ok] at hpause
      obtain ⟨_, _, rfl⟩ := hpause
      exact .of_eq rfl rfl rfl
    | insertLeaf leaf enrollmentNullifier =>
      obtain ⟨tree, hinsert, rfl⟩ := map_eq_ok.mp ok
      exact absurd (hauth sender (insertLeaf_eq_ok.mp hinsert).1) hne
    | removeLeaf leaf siblingNodes =>
      obtain ⟨tree, hremove, rfl⟩ := map_eq_ok.mp ok
      exact absurd (hauth sender (removeLeaf_eq_ok.mp hremove).1) hne
    | addAuthorized addr =>
      obtain ⟨tree, hset, rfl⟩ := map_eq_ok.mp ok
      exact .setAuthorized hset fun _ => not_not.mp (of_decide_eq_false hplain)
    | removeAuthorized addr =>
      obtain ⟨tree, hset, rfl⟩ := map_eq_ok.mp ok
      exact .setAuthorized hset fun h => absurd h Bool.false_ne_true
    | pauseTree paused =>
      obtain ⟨tree, hpause, rfl⟩ := map_eq_ok.mp ok
      simp only [IdentityTree.setPaused, bind_eq_ok, pure_eq_ok] at hpause
      obtain ⟨_, _, rfl⟩ := hpause
      exact ⟨rfl, rfl, rfl, rfl, rfl, rfl, fun _ => .inr⟩
    | verifyProof | pauseVerifier =>
      obtain ⟨verifier, _, rfl⟩ := map_eq_ok.mp ok
      exact .of_eq rfl rfl rfl

/-! ## Records -/

/-- The leaf is in the tree of the contract. -/
def InTree (D : Deployment F P T) (w : World T) (leaf : Word) : Prop :=
  BnField.canonical F leaf = true ∧ (Scalar.ofNat leaf : F) ∈ D.imt.leaves w.tree.tree

/-- The five mappings agree on the leaves of the tree. -/
structure Recorded (D : Deployment F P T) (w : World T) : Prop where
  authorized : ∀ a, w.tree.authorized a = true → a = D.enrollmentAddress
  staked : ∀ leaf, w.enrollment.stakers leaf ≠ 0 ↔ w.tree.insertedLeaves leaf = true
  present : ∀ leaf, w.tree.insertedLeaves leaf = true ↔ InTree D w leaf
  used : ∀ n, w.tree.usedEnrollmentNullifiers n = true ↔
    ∃ leaf, w.tree.insertedLeaves leaf = true ∧ w.tree.leafEnrollmentNullifier leaf = n
  unique : ∀ {leaf leaf'}, w.tree.insertedLeaves leaf = true → w.tree.insertedLeaves leaf' = true →
    w.tree.leafEnrollmentNullifier leaf = w.tree.leafEnrollmentNullifier leaf' → leaf = leaf'

theorem Recorded.deployed (hL : D.imt.Lawful) {key : ECPoint} (h : Deployed D key w) : Recorded D w := by
  cases h
  refine ⟨fun a ha => absurd ha Bool.false_ne_true, fun leaf => iff_of_false (fun h => h rfl) Bool.false_ne_true,
    fun leaf => iff_of_false Bool.false_ne_true fun h => ?_, fun n => iff_of_false Bool.false_ne_true ?_,
    fun h => absurd h Bool.false_ne_true⟩
  · have hmem : (Scalar.ofNat leaf : F) ∈ D.imt.leaves D.imt.empty := h.2
    rw [hL.leaves_empty] at hmem
    exact absurd hmem List.not_mem_nil
  · rintro ⟨leaf, hinserted, -⟩
    exact Bool.false_ne_true hinserted

theorem Recorded.kept (inv : Recorded D w) (h : StakesKept D w w') : Recorded D w' := by
  refine ⟨fun a ha => (h.authorized a ha).elim id (inv.authorized a), ?_, ?_, ?_, ?_⟩
  · rw [h.stakers, h.inserted]
    exact inv.staked
  · simp only [InTree, h.inserted, h.tree]
    exact inv.present
  · rw [h.inserted, h.used, h.nullifierOf]
    exact inv.used
  · rw [h.inserted, h.nullifierOf]
    exact inv.unique

/-- A leaf that is inserted has no staker before. -/
theorem Recorded.enroll (inv : Recorded D w) (hL : D.imt.Lawful) (hsender : sender ≠ 0)
    {value : Nat} (ok : Identity.enroll D sender w value args = .ok w') : Recorded D w' := by
  obtain ⟨-, -, -, tree, hinsert, rfl⟩ := enroll_eq_ok.mp ok
  obtain ⟨-, -, hnew, hfresh, hcanonical, imt, himt, rfl⟩ := insertLeaf_eq_ok.mp hinsert
  obtain ⟨-, -, hleaves⟩ := hL.insert himt
  have hne : ∀ {leaf}, w.tree.insertedLeaves leaf = true → leaf ≠ args.leaf := by
    rintro leaf hinserted rfl
    exact Bool.false_ne_true (hnew.symm.trans hinserted)
  have hof : ∀ {leaf}, w.tree.insertedLeaves leaf = true →
      Function.update w.tree.leafEnrollmentNullifier args.leaf args.enrollmentNullifier leaf =
        w.tree.leafEnrollmentNullifier leaf :=
    fun hinserted => Function.update_of_ne (hne hinserted) _ _
  have hnullifier : ∀ {leaf}, w.tree.insertedLeaves leaf = true →
      w.tree.leafEnrollmentNullifier leaf ≠ args.enrollmentNullifier := by
    intro leaf hinserted hsame
    exact Bool.false_ne_true (hfresh.symm.trans ((inv.used _).mpr ⟨leaf, hinserted, hsame⟩))
  refine ⟨inv.authorized, fun leaf => ?_, fun leaf => ?_, fun n => ?_, fun {leaf leaf'} h h' hsame => ?_⟩
  · show Function.update w.enrollment.stakers args.leaf sender leaf ≠ 0 ↔
      Function.update w.tree.insertedLeaves args.leaf true leaf = true
    rw [update_true_eq_true, update_ne_iff hsender, inv.staked]
  · show Function.update w.tree.insertedLeaves args.leaf true leaf = true ↔
      BnField.canonical F leaf = true ∧ (Scalar.ofNat leaf : F) ∈ D.imt.leaves imt
    rw [update_true_eq_true, inv.present, hleaves, InTree]
    constructor
    · rintro (rfl | ⟨hleaf, hmem⟩)
      · exact ⟨hcanonical, .inl rfl⟩
      · exact ⟨hleaf, .inr hmem⟩
    · rintro ⟨hleaf, hsame | hmem⟩
      · exact .inl (BnField.eq_of_canonical hleaf hcanonical hsame)
      · exact .inr ⟨hleaf, hmem⟩
  · show Function.update w.tree.usedEnrollmentNullifiers args.enrollmentNullifier true n = true ↔
      ∃ leaf, Function.update w.tree.insertedLeaves args.leaf true leaf = true ∧
        Function.update w.tree.leafEnrollmentNullifier args.leaf args.enrollmentNullifier leaf = n
    simp only [update_true_eq_true, inv.used]
    constructor
    · rintro (rfl | ⟨leaf, hinserted, rfl⟩)
      · exact ⟨args.leaf, .inl rfl, Function.update_self _ _ _⟩
      · exact ⟨leaf, .inr hinserted, hof hinserted⟩
    · rintro ⟨leaf, rfl | hinserted, rfl⟩
      · exact .inl (Function.update_self _ _ _)
      · exact .inr ⟨leaf, hinserted, (hof hinserted).symm⟩
  · replace hsame : Function.update w.tree.leafEnrollmentNullifier args.leaf args.enrollmentNullifier leaf =
      Function.update w.tree.leafEnrollmentNullifier args.leaf args.enrollmentNullifier leaf' := hsame
    rcases update_true_eq_true.mp h with rfl | hold <;> rcases update_true_eq_true.mp h' with rfl | hold'
    · rfl
    · rw [Function.update_self, hof hold'] at hsame
      exact absurd hsame.symm (hnullifier hold')
    · rw [Function.update_self, hof hold] at hsame
      exact absurd hsame (hnullifier hold)
    · rw [hof hold, hof hold'] at hsame
      exact inv.unique hold hold' hsame

/-- A leaf that is removed loses its staker and its nullifier. -/
theorem Recorded.unstake (inv : Recorded D w) (hL : D.imt.Lawful)
    (ok : beginUnstake D sender w leaf siblingNodes = .ok w') : Recorded D w' := by
  obtain ⟨-, -, tree, hremove, rfl⟩ := beginUnstake_eq_ok.mp ok
  obtain ⟨-, -, hcanonical, imt, himt, rfl⟩ := removeLeaf_eq_ok.mp hremove
  obtain ⟨hmem, hleaves⟩ := hL.remove himt
  have hinserted : w.tree.insertedLeaves leaf = true := (inv.present leaf).mpr ⟨hcanonical, hmem⟩
  have hof : ∀ {x}, x ≠ leaf → Function.update w.tree.leafEnrollmentNullifier leaf 0 x =
      w.tree.leafEnrollmentNullifier x := fun hne => Function.update_of_ne hne _ _
  refine ⟨inv.authorized, fun x => ?_, fun x => ?_, fun n => ?_, fun {x x'} h h' hsame => ?_⟩
  · show Function.update w.enrollment.stakers leaf 0 x ≠ 0 ↔
      Function.update w.tree.insertedLeaves leaf false x = true
    rw [update_false_eq_true, update_ne_self_iff, inv.staked]
  · show Function.update w.tree.insertedLeaves leaf false x = true ↔
      BnField.canonical F x = true ∧ (Scalar.ofNat x : F) ∈ D.imt.leaves imt
    rw [update_false_eq_true, inv.present, hleaves, InTree]
    constructor
    · rintro ⟨hne, hx, hmem⟩
      exact ⟨hx, fun hsame => hne (BnField.eq_of_canonical hx hcanonical hsame), hmem⟩
    · rintro ⟨hx, hne, hmem⟩
      exact ⟨fun hsame => hne (congrArg _ hsame), hx, hmem⟩
  · show Function.update w.tree.usedEnrollmentNullifiers (w.tree.leafEnrollmentNullifier leaf) false n = true ↔
      ∃ x, Function.update w.tree.insertedLeaves leaf false x = true ∧
        Function.update w.tree.leafEnrollmentNullifier leaf 0 x = n
    simp only [update_false_eq_true, inv.used]
    constructor
    · rintro ⟨hn, x, hx, rfl⟩
      have hne : x ≠ leaf := fun hsame => hn (congrArg _ hsame)
      exact ⟨x, ⟨hne, hx⟩, hof hne⟩
    · rintro ⟨x, ⟨hne, hx⟩, rfl⟩
      rw [hof hne]
      exact ⟨fun hsame => hne (inv.unique hx hinserted hsame), x, hx, rfl⟩
  · obtain ⟨hne, hx⟩ := update_false_eq_true.mp h
    obtain ⟨hne', hx'⟩ := update_false_eq_true.mp h'
    replace hsame : Function.update w.tree.leafEnrollmentNullifier leaf 0 x =
      Function.update w.tree.leafEnrollmentNullifier leaf 0 x' := hsame
    rw [hof hne, hof hne'] at hsame
    exact inv.unique hx hx' hsame

/-! ## Payments along a run -/

def Matched : StakeEvent → List StakeEvent → Prop
  | .paid receiver leaf, before => Latest (StakeEvent.isOf leaf) (fun e _ => e = .enrolled receiver leaf) before
  | .enrolled _ _, _ => True

structure StakesInv (D : Deployment F P T) (s : Staking T) : Prop where
  recorded : Recorded D s.world
  backed : ∃ leaves : Finset Word, (∀ leaf, leaf ∈ leaves ↔ s.world.enrollment.stakers leaf ≠ 0) ∧
    s.world.enrollment.stakeAmount * leaves.card ≤ s.balance
  latest : ∀ leaf, s.world.enrollment.stakers leaf ≠ 0 → Latest (StakeEvent.isOf leaf)
    (fun e _ => e = .enrolled (s.world.enrollment.stakers leaf) leaf) s.log
  matched : Each Matched s.log

theorem StakesInv.deployed (hL : D.imt.Lawful) {key : ECPoint} {balance : Nat} (h : Deployed D key w) :
    StakesInv D ⟨w, balance, []⟩ := by
  refine ⟨.deployed hL h, ⟨∅, fun leaf => ?_, ?_⟩, fun leaf hleaf => ?_, each_nil⟩
  · cases h
    exact iff_of_false (Finset.notMem_empty leaf) fun h => h rfl
  · rw [Finset.card_empty, Nat.mul_zero]
    exact Nat.zero_le _
  · cases h
    exact absurd rfl hleaf

theorem isOf_of_ne {e : StakeEvent} (h : leaf ≠ e.leaf) : e.isOf leaf = false := decide_eq_false h.symm

theorem StakesInv.enroll (inv : StakesInv D s) (hL : D.imt.Lawful) (hsender : sender ≠ 0) {value : Nat}
    (ok : Identity.enroll D sender s.world value args = .ok w') :
    StakesInv D ⟨w', s.balance + value, .enrolled sender args.leaf :: s.log⟩ := by
  have hrecorded := inv.recorded.enroll hL hsender ok
  obtain ⟨-, hvalue, -, tree, hinsert, rfl⟩ := enroll_eq_ok.mp ok
  obtain ⟨-, -, hnew, -⟩ := insertLeaf_eq_ok.mp hinsert
  obtain ⟨leaves, hleaves, hbacked⟩ := inv.backed
  have hfree : args.leaf ∉ leaves := by
    rw [hleaves, inv.recorded.staked, hnew]
    exact Bool.false_ne_true
  refine ⟨hrecorded, ⟨insert args.leaf leaves, fun leaf => ?_, ?_⟩, fun leaf hleaf => ?_, inv.matched.cons trivial⟩
  · show leaf ∈ insert args.leaf leaves ↔ Function.update s.world.enrollment.stakers args.leaf sender leaf ≠ 0
    rw [Finset.mem_insert, hleaves, update_ne_iff hsender]
  · show s.world.enrollment.stakeAmount * (insert args.leaf leaves).card ≤ s.balance + value
    rw [Finset.card_insert_of_notMem hfree, Nat.mul_add, Nat.mul_one, hvalue]
    exact Nat.add_le_add_right hbacked _
  · show Latest (StakeEvent.isOf leaf)
      (fun e _ => e = .enrolled (Function.update s.world.enrollment.stakers args.leaf sender leaf) leaf)
      (.enrolled sender args.leaf :: s.log)
    replace hleaf : Function.update s.world.enrollment.stakers args.leaf sender leaf ≠ 0 := hleaf
    rcases eq_or_ne leaf args.leaf with rfl | hne
    · have hof : StakeEvent.isOf args.leaf (.enrolled sender args.leaf) = true := decide_eq_true rfl
      rw [Function.update_self, latest_cons_of_pos hof]
    · rw [Function.update_of_ne hne] at hleaf
      rw [latest_cons_of_neg (isOf_of_ne hne), Function.update_of_ne hne]
      exact inv.latest leaf hleaf

/-- The state in which a receiver is called. -/
theorem StakesInv.payment (inv : StakesInv D s) (hL : D.imt.Lawful) (hsender : sender ≠ 0)
    (ok : beginUnstake D sender s.world leaf siblingNodes = .ok w') :
    StakesInv D ⟨w', s.balance - s.world.enrollment.stakeAmount, .paid sender leaf :: s.log⟩ := by
  have hrecorded := inv.recorded.unstake hL ok
  obtain ⟨-, rfl, tree, hremove, rfl⟩ := beginUnstake_eq_ok.mp ok
  obtain ⟨leaves, hleaves, hbacked⟩ := inv.backed
  have hmem : leaf ∈ leaves := (hleaves leaf).mpr hsender
  refine ⟨hrecorded, ⟨leaves.erase leaf, fun x => ?_, ?_⟩, fun x hx => ?_,
    inv.matched.cons (inv.latest leaf hsender)⟩
  · show x ∈ leaves.erase leaf ↔ Function.update s.world.enrollment.stakers leaf 0 x ≠ 0
    rw [Finset.mem_erase, hleaves, update_ne_self_iff]
  · show s.world.enrollment.stakeAmount * (leaves.erase leaf).card ≤ s.balance - s.world.enrollment.stakeAmount
    rw [Finset.card_erase_of_mem hmem, Nat.mul_sub, Nat.mul_one]
    exact Nat.sub_le_sub_right hbacked _
  · show Latest (StakeEvent.isOf x)
      (fun e _ => e = .enrolled (Function.update s.world.enrollment.stakers leaf 0 x) x)
      (.paid (s.world.enrollment.stakers leaf) leaf :: s.log)
    replace hx : Function.update s.world.enrollment.stakers leaf 0 x ≠ 0 := hx
    rcases eq_or_ne x leaf with rfl | hne
    · exact absurd (Function.update_self _ _ _) hx
    · rw [Function.update_of_ne hne] at hx
      rw [latest_cons_of_neg (isOf_of_ne hne), Function.update_of_ne hne]
      exact inv.latest x hx

theorem StakesInv.act (hL : D.imt.Lawful) {a : Activity} (h : Staking.Act D s a s') (inv : StakesInv D s) :
    StakesInv D s' := by
  cases h with
  | enroll hne hzero ok => exact inv.enroll hL hzero ok
  | other hplain h =>
    have hkept := h.stakesKept hplain inv.recorded.authorized
    refine ⟨inv.recorded.kept hkept, ?_, ?_, inv.matched⟩
    · simp only [hkept.stakers, hkept.stakeAmount]
      exact inv.backed
    · simp only [hkept.stakers]
      exact inv.latest
  | forced =>
    obtain ⟨leaves, hleaves, hbacked⟩ := inv.backed
    exact ⟨inv.recorded, ⟨leaves, hleaves, Nat.le_add_right_of_le hbacked⟩, inv.latest, inv.matched⟩

theorem StakesInv.enter (hL : D.imt.Lawful) {f : Payout} (h : Staking.Enter D s f s') (inv : StakesInv D s) :
    StakesInv D s' := by
  cases h with
  | payment hne hzero ok henough => exact inv.payment hL hzero ok
  | foreign => exact inv

/-- A staker who may unstake can be paid. -/
theorem StakesInv.enough (inv : StakesInv D s) (hsender : sender ≠ 0)
    (ok : beginUnstake D sender s.world leaf siblingNodes = .ok w') :
    s.world.enrollment.stakeAmount ≤ s.balance := by
  obtain ⟨-, rfl, -⟩ := beginUnstake_eq_ok.mp ok
  obtain ⟨leaves, hleaves, hbacked⟩ := inv.backed
  have hcard : 0 < leaves.card := Finset.card_pos.mpr ⟨leaf, (hleaves leaf).mpr hsender⟩
  exact (Nat.le_mul_of_pos_right _ hcard).trans hbacked

theorem stakesInv_of_run (hL : D.imt.Lawful) {key : ECPoint} {balance : Nat} (hdeployed : Deployed D key w)
    {n : Payouts T} {tr : List (Nested.Label Payout Activity)}
    (hrun : Run (Payouts.Step D) ⟨⟨w, balance, []⟩, []⟩ tr n) : Nested.Inv (Staking.Enter D) (StakesInv D) n :=
  Nested.Inv.run (StakesInv.act hL) (StakesInv.enter hL) (.deployed hL hdeployed) hrun

/-- In every run, however the receivers call back: the balance covers a stake for each leaf with a staker, those
are the inserted leaves, which are those of the tree, whose nullifiers are the used ones; a payment goes to whoever
enrolled its leaf last, and nothing has happened to the leaf since; whoever may unstake can be paid; and a call that
fails, even after others have called back, leaves all of this as it was. -/
theorem stakes_redeemable (hL : D.imt.Lawful) {key : ECPoint} {balance : Nat} (hdeployed : Deployed D key w)
    {n : Payouts T} {tr : List (Nested.Label Payout Activity)}
    (hrun : Run (Payouts.Step D) ⟨⟨w, balance, []⟩, []⟩ tr n) :
    (∃ leaves : Finset Word, (∀ leaf, leaf ∈ leaves ↔ n.state.world.enrollment.stakers leaf ≠ 0) ∧
      n.state.world.enrollment.stakeAmount * leaves.card ≤ n.state.balance) ∧
    (∀ leaf, n.state.world.enrollment.stakers leaf ≠ 0 ↔
      n.state.world.tree.insertedLeaves leaf = true ∧ InTree D n.state.world leaf) ∧
    (∀ leaf, n.state.world.tree.insertedLeaves leaf = true ↔ InTree D n.state.world leaf) ∧
    (∀ nullifier, n.state.world.tree.usedEnrollmentNullifiers nullifier = true ↔
      ∃ leaf, InTree D n.state.world leaf ∧ n.state.world.tree.leafEnrollmentNullifier leaf = nullifier) ∧
    (∀ later receiver leaf earlier, n.state.log = later ++ .paid receiver leaf :: earlier →
      Latest (StakeEvent.isOf leaf) (fun e _ => e = .enrolled receiver leaf) earlier) ∧
    (∀ sender leaf siblingNodes w', sender ≠ 0 → sender ≠ D.enrollmentAddress →
      beginUnstake D sender n.state.world leaf siblingNodes = .ok w' →
      ∃ n', Payouts.Step D n (.enter (.payment sender leaf siblingNodes)) n') ∧
    (∀ n', Payouts.Step D n (.act (.step .reverted)) n' → n' = n) ∧
    ∀ f n₁ tr' n₂ n₃, Payouts.Step D n (.enter f) n₁ → Run (Payouts.Step D) n₁ tr' n₂ →
      n₂.frames = n₁.frames → Payouts.Step D n₂ (.revert f) n₃ → n₃ = n := by
  have inv := (stakesInv_of_run hL hdeployed hrun).state
  refine ⟨inv.backed, fun leaf => ?_, inv.recorded.present, fun nullifier => ?_, ?_, ?_, ?_, ?_⟩
  · rw [inv.recorded.staked, ← inv.recorded.present, and_self]
  · rw [inv.recorded.used]
    exact exists_congr fun leaf => and_congr_left fun _ => inv.recorded.present leaf
  · exact fun later receiver leaf earlier hlog => inv.matched later _ earlier hlog
  · intro sender leaf siblingNodes w' hzero hne ok
    exact ⟨_, .enter (.payment hne hzero ok (inv.enough hzero ok))⟩
  · intro n' hstep
    cases hstep with
    | act h =>
      cases h with
      | other _ h =>
        cases h
        rfl
  · exact fun f n₁ tr' n₂ n₃ henter _ hframes hrevert => Nested.restored henter hframes hrevert

end

namespace Sample
variable {hash : List Doubled → Doubled} (H : IdealHash hash)
include H

theorem remove_leaf (secret : Nat) :
    (deployment hash).imt.remove (Scalar.ofNat (Scalar.toNat (leaf hash secret))) [] [leaf hash secret] =
      .ok [0] := by
  have hmem : ¬ ([leaf hash secret].all fun x => decide (x ≠ leaf hash secret)) = true := by simp
  have hfind : [leaf hash secret].findIdx (fun x => decide (x = leaf hash secret)) = 0 := by simp
  have hpath : ¬ (Merkle.promotedPath (merkleHash hash) 1 [leaf hash secret] 0).map
      (fun s => Scalar.toNat s.2) ≠ [] := not_not.mpr rfl
  rw [BnField.ofNat_toNat]
  simp only [deployment, Deployment.ofCircuits, slotTree, failIf_neg (leaf_ne_zero H secret), failIf_neg hmem,
    hfind, List.length_singleton, failIf_neg hpath, List.map_singleton, if_pos]
  rfl

/-- A staker enrolls for a stake of five, and is called for its payment. -/
theorem exists_paid : ∃ w n tr leaf, Deployed (deployment hash) ⟨1, 1⟩ w ∧
    Run (Payouts.Step (deployment hash)) ⟨⟨w, 0, []⟩, []⟩ tr n ∧
    n.state.log = [.paid 6 leaf, .enrolled 6 leaf] ∧ n.state.balance = 0 := by
  let leafWord : Word := Scalar.toNat (leaf hash 3)
  let args := enrollArgs hash 3 2 (Scalar.toNat (pointNullifier hash 2))
  let w₀ : World (List Doubled) :=
    ⟨0, .new ⟨1, 1⟩ 1 2 5, .new (deployment hash) 5, ⟨5, false, fun _ => false⟩⟩
  let w₁ := w₀.setTree
    { IdentityTree.new (deployment hash) 5 with authorized := Function.update (fun _ => false) 9 true }
  have hauthorize : Transition (deployment hash) w₀ (.call 5 (.addAuthorized 9)) w₁ :=
    .call (show (5 : Address) ≠ 9 by decide) rfl
  have hproof := @Deployment.verifyEnrollment_ofCircuits _ _ _ _ _ hash (cyclicBn254 Doubled)
    (slotTree (merkleHash hash)) 9 args ⟨1, 1⟩ []
  have hvalid := hproof.mpr ⟨_, enrolls (.inl rfl) (BnField.ofNat_toNat (pointNullifier hash 2))⟩
  have hinsert : w₁.tree.insertLeaf (deployment hash) 9 leafWord args.enrollmentNullifier = .ok _ :=
    insertLeaf_eq_ok.mpr ⟨rfl, rfl, rfl, rfl, BnField.canonical_toNat (leaf hash 3), _,
      insert_leaf H List.not_mem_nil, rfl⟩
  obtain ⟨w₂, henroll, hslots, hauthorized, htree, hrunning, hstaker, hamount⟩ : ∃ w₂ : World (List Doubled),
      Identity.enroll (deployment hash) 6 w₁ 5 args = .ok w₂ ∧ w₂.tree.tree = [leaf hash 3] ∧
      w₂.tree.authorized 9 = true ∧ w₂.tree.paused = false ∧ w₂.enrollment.paused = false ∧
      w₂.enrollment.stakers leafWord = 6 ∧ w₂.enrollment.stakeAmount = 5 :=
    ⟨_, enroll_eq_ok.mpr ⟨rfl, rfl, Enrollment.verifies_of_key hvalid, _, hinsert, rfl⟩, rfl, rfl, rfl, rfl,
      Function.update_self _ _ _, rfl⟩
  obtain ⟨tree₃, hremove⟩ : ∃ tree, w₂.tree.removeLeaf (deployment hash) 9 leafWord [] = .ok tree := by
    refine ⟨_, removeLeaf_eq_ok.mpr ⟨hauthorized, htree, BnField.canonical_toNat (leaf hash 3), [0], ?_, rfl⟩⟩
    rw [hslots]
    exact remove_leaf H 3
  have hunstake : beginUnstake (deployment hash) 6 w₂ leafWord [] = .ok _ :=
    beginUnstake_eq_ok.mpr ⟨hrunning, hstaker, _, hremove, rfl⟩
  have hsender : (6 : Address) ≠ 9 := by decide
  have hzero : (6 : Address) ≠ 0 := by decide
  have hrun : Run (Payouts.Step (deployment hash)) ⟨⟨w₀, 0, []⟩, []⟩ _ ⟨⟨w₁, 0, []⟩, []⟩ :=
    .cons .nil (.act (.other rfl hauthorize))
  have hrun₁ := hrun.cons (.act (.enroll hsender hzero henroll))
  have hrun₂ := hrun₁.cons (.enter (.payment hsender hzero hunstake hamount.le))
  exact ⟨w₀, _, _, leafWord, .mk, hrun₂, rfl, Nat.sub_eq_zero_of_le hamount.ge⟩

end Sample

/-- The payment of the run is to the staker who enrolled the leaf. -/
theorem stakes_redeemable_sample : ∃ w n tr leaf, Deployed (Sample.deployment doubledHash) ⟨1, 1⟩ w ∧
    Run (Payouts.Step (Sample.deployment doubledHash)) ⟨⟨w, 0, []⟩, []⟩ tr n ∧
    n.state.log = [.paid 6 leaf, .enrolled 6 leaf] ∧
    Latest (StakeEvent.isOf leaf) (fun e _ => e = .enrolled 6 leaf) [.enrolled 6 leaf] := by
  obtain ⟨w, n, tr, leaf, hdeployed, hrun, hlog, -⟩ := Sample.exists_paid Swap.doubledHash_ideal
  obtain ⟨-, -, -, -, hmatched, -⟩ := stakes_redeemable slotTree_lawful hdeployed hrun
  exact ⟨w, n, tr, leaf, hdeployed, hrun, hlog, hmatched [] 6 leaf _ hlog⟩

end Pocs.Identity
