import Mathlib.Data.List.Sort
import Pocs.Lib.LeanRoot
import Pocs.Lib.Method
import Pocs.Rails.Hashes

/-! # Cohorts and their positions

`registry/core.rs`: the operator enrols and revokes cards, rebuilds the cohort tree from the active ones
and publishes it. A card's position is the number of cards enrolled before it, and its leaf is at the
number of active cards before it, so the two agree just as long as no revoked card was enrolled before
an active one (`published_positions`). -/

namespace Pocs.Rails

open Compliance (BnField merkleHash idealHash)
open Swap (IdealHash)

inductive CardStatus where
  | active
  | revoked
  deriving DecidableEq, Repr

structure CardRecord where
  cardId : Bytes 32
  m : SecpPubkey
  status : CardStatus
  cohortPosition : Nat

structure PersonalizationPacket where
  cardId : Bytes 32
  m : SecpPubkey
  cohortPosition : Nat
  cohortVersion : Nat

structure OperatorRegistry (T : Type) where
  cards : List CardRecord
  tree : T
  currentVersion : Nat

inductive RegistryError where
  | duplicateCard
  | duplicateM
  | unknownCard
  deriving DecidableEq, Repr

/-- A change that keeps what `f` reads. -/
theorem List.map_modify_of_eq {α β : Type} {f : α → β} {g : α → α} (h : ∀ a, f (g a) = f a)
    {xs : List α} {i : Nat} : (xs.modify i g).map f = xs.map f := by
  induction xs generalizing i with
  | nil => simp
  | cons x xs ih => cases i <;> simp [h, ih]

namespace OperatorRegistry
variable {F T ε : Type} [BnField F] (hash : List F → F) (S : AppendStore F T ε) (reg : OperatorRegistry T)

def new (tree : T) : OperatorRegistry T := ⟨[], tree, 0⟩

def enroll (cardId : Bytes 32) (m : SecpPubkey) : Except RegistryError (Nat × OperatorRegistry T) := do
  failIf (reg.cards.any (fun c => c.cardId = cardId) = true) .duplicateCard
  failIf (reg.cards.any (fun c => c.m = m) = true) .duplicateM
  let position := reg.cards.length
  pure (position, { reg with cards := reg.cards ++ [⟨cardId, m, .active, position⟩] })

def revoke (cardId : Bytes 32) : Except RegistryError (OperatorRegistry T) := do
  let i ← okOr (reg.cards.findIdx? fun c => c.cardId = cardId) .unknownCard
  pure { reg with cards := reg.cards.modify i fun c => { c with status := .revoked } }

def active : List CardRecord := reg.cards.filter fun c => c.status = .active

def rebuildTree : OperatorRegistry T :=
  let ordered := reg.active.insertionSort fun a b => a.cohortPosition ≤ b.cohortPosition
  { reg with tree := ordered.foldl (fun tree c => (S.insert tree (c.m.packed hash)).2) reg.tree }

/-- The version, the root and the size that are published. -/
def publishCohort : (Nat × Option F × Nat) × OperatorRegistry T :=
  ((reg.currentVersion + 1, S.root reg.tree, reg.active.length),
    { reg with currentVersion := reg.currentVersion + 1 })

def personalize (cardId : Bytes 32) (m : SecpPubkey) :
    Except RegistryError (PersonalizationPacket × OperatorRegistry T) := do
  let (position, reg') ← reg.enroll cardId m
  pure (⟨cardId, m, position, reg.currentVersion + 1⟩, reg')

variable {hash S reg} {reg' : OperatorRegistry T}

theorem enroll_ok {cardId : Bytes 32} {m : SecpPubkey} {position : Nat}
    (h : reg.enroll cardId m = .ok (position, reg')) : (∀ c ∈ reg.cards, c.m ≠ m) ∧
      position = reg.cards.length ∧
      reg' = { reg with cards := reg.cards ++ [⟨cardId, m, .active, reg.cards.length⟩] } := by
  simp only [enroll, bind_eq_ok, failIf_eq_ok, pure_eq_ok, exists_const, Prod.mk.injEq,
    Bool.not_eq_true, List.any_eq_false, decide_eq_true_eq] at h
  obtain ⟨-, hm, rfl, rfl⟩ := h
  exact ⟨hm, rfl, rfl⟩

theorem personalize_ok {cardId : Bytes 32} {m : SecpPubkey} {packet : PersonalizationPacket}
    (h : reg.personalize cardId m = .ok (packet, reg')) :
    packet = ⟨cardId, m, reg.cards.length, reg.currentVersion + 1⟩ ∧
      reg.enroll cardId m = .ok (reg.cards.length, reg') := by
  simp only [personalize, bind_eq_ok, pure_eq_ok, Prod.exists, Prod.mk.injEq] at h
  obtain ⟨position, reg'', henroll, rfl, rfl⟩ := h
  obtain ⟨-, rfl, -⟩ := enroll_ok henroll
  exact ⟨rfl, henroll⟩

theorem revoke_ok {cardId : Bytes 32} (h : reg.revoke cardId = .ok reg') :
    ∃ i, reg' = { reg with cards := reg.cards.modify i fun c => { c with status := .revoked } } := by
  simp only [revoke, bind_eq_ok, pure_eq_ok] at h
  obtain ⟨i, -, rfl⟩ := h
  exact ⟨i, rfl⟩

end OperatorRegistry

open OperatorRegistry

/-! ## Runs of the operator -/

/-- What the operator does. -/
inductive OperatorStep (F : Type) where
  | enroll (cardId : Bytes 32) (m : SecpPubkey)
  | personalize (packet : PersonalizationPacket)
  | revoke (cardId : Bytes 32)
  | rebuild
  | publish (version : Nat) (root : Option F) (size : Nat)
  | rejected

section
variable {F T ε : Type} [BnField F]

/-- The registry, and whether its tree is that of its cards. The tree is rebuilt over a fresh one, and
published only if no card was enrolled or revoked since. -/
inductive OperatorTransition (hash : List F → F) (S : AppendStore F T ε) :
    OperatorRegistry T × Bool → OperatorStep F → OperatorRegistry T × Bool → Prop where
  | enroll {reg reg' b cardId m position} (ok : reg.enroll cardId m = .ok (position, reg')) :
    OperatorTransition hash S (reg, b) (.enroll cardId m) (reg', false)
  | personalize {reg reg' b cardId m packet} (ok : reg.personalize cardId m = .ok (packet, reg')) :
    OperatorTransition hash S (reg, b) (.personalize packet) (reg', false)
  | revoke {reg reg' b cardId} (ok : reg.revoke cardId = .ok reg') :
    OperatorTransition hash S (reg, b) (.revoke cardId) (reg', false)
  | rebuild {reg b tree} (fresh : S.leaves tree = []) : OperatorTransition hash S (reg, b) .rebuild
      (rebuildTree hash S { reg with tree }, true)
  | publish {reg reg' version root size} (eq : publishCohort S reg = ((version, root, size), reg')) :
    OperatorTransition hash S (reg, true) (.publish version root size) (reg', true)
  | enrollRejected {reg b cardId m e} (err : reg.enroll cardId m = .error e) :
    OperatorTransition hash S (reg, b) .rejected (reg, b)
  | revokeRejected {reg b cardId e} (err : reg.revoke cardId = .error e) :
    OperatorTransition hash S (reg, b) .rejected (reg, b)

/-- Cards are numbered in the order of their enrolment and have different keys, and a tree that was
rebuilt holds the active ones. -/
structure OperatorInv (hash : List F → F) (S : AppendStore F T ε) (s : OperatorRegistry T × Bool) : Prop where
  position : ∀ (i : Nat) (c : CardRecord), s.1.cards[i]? = some c → c.cohortPosition = i
  nodup : (s.1.cards.map CardRecord.m).Nodup
  built : s.2 = true → S.leaves s.1.tree = s.1.active.map fun c => c.m.packed hash

variable {hash : List F → F} {S : AppendStore F T ε} {s s' : OperatorRegistry T × Bool}
  {tr : List (OperatorStep F)} {reg : OperatorRegistry T}

/-- The active cards are sorted already. -/
theorem ordered_eq (h : ∀ (i : Nat) (c : CardRecord), reg.cards[i]? = some c → c.cohortPosition = i) :
    reg.active.insertionSort (fun a b => a.cohortPosition ≤ b.cohortPosition) = reg.active := by
  apply List.Pairwise.insertionSort_eq
  apply List.Pairwise.filter
  rw [List.pairwise_iff_getElem]
  intro i j hi hj hij
  rw [h i _ (List.getElem?_eq_getElem hi), h j _ (List.getElem?_eq_getElem hj)]
  exact hij.le

theorem OperatorInv.enrolled {b : Bool} (inv : OperatorInv hash S (reg, b)) {reg' : OperatorRegistry T}
    {cardId : Bytes 32} {m : SecpPubkey} {position : Nat}
    (h : reg.enroll cardId m = .ok (position, reg')) : OperatorInv hash S (reg', false) := by
  obtain ⟨hnew, -, rfl⟩ := enroll_ok h
  refine ⟨fun i c hc => ?_, ?_, Bool.noConfusion⟩
  · rcases Nat.lt_trichotomy i reg.cards.length with hlt | rfl | hgt
    · rw [List.getElem?_append_left hlt] at hc
      exact inv.position i c hc
    · rw [List.getElem?_concat_length] at hc
      cases hc
      rfl
    · rw [List.getElem?_eq_none (by simp; omega)] at hc
      cases hc
  · rw [List.map_append, List.nodup_append]
    refine ⟨inv.nodup, List.nodup_singleton _, fun a ha b hb => ?_⟩
    obtain ⟨c, hc, rfl⟩ := List.mem_map.mp ha
    obtain rfl := List.mem_singleton.mp hb
    exact hnew c hc

theorem OperatorInv.step (hS : S.Lawful (merkleHash hash)) (inv : OperatorInv hash S s)
    {st : OperatorStep F} (h : OperatorTransition hash S s st s') : OperatorInv hash S s' := by
  cases h with
  | enroll ok => exact inv.enrolled ok
  | personalize ok =>
    obtain ⟨-, ok⟩ := personalize_ok ok
    exact inv.enrolled ok
  | revoke ok =>
    obtain ⟨i, rfl⟩ := revoke_ok ok
    refine ⟨fun j c hc => ?_, ?_, Bool.noConfusion⟩
    · rw [List.getElem?_modify] at hc
      obtain ⟨c, hc', rfl⟩ := Option.map_eq_some_iff.mp hc
      have hposition := inv.position j c hc'
      split <;> exact hposition
    · have hkeys : ∀ c : CardRecord, CardRecord.m { c with status := .revoked } = c.m := fun _ => rfl
      exact (List.map_modify_of_eq hkeys).symm ▸ inv.nodup
  | @rebuild reg b tree fresh =>
    refine ⟨inv.position, inv.nodup, fun _ => ?_⟩
    have hleaves := hS.leaves_foldl (reg.active.map fun c => c.m.packed hash) tree
    rw [fresh, List.nil_append, List.foldl_map] at hleaves
    rw [rebuildTree, @ordered_eq _ { reg with tree } inv.position]
    exact hleaves
  | publish eq =>
    cases eq
    exact ⟨inv.position, inv.nodup, inv.built⟩
  | enrollRejected | revokeRejected => exact inv

theorem OperatorInv.run (hS : S.Lawful (merkleHash hash)) {tree : T}
    (hrun : Run (OperatorTransition hash S) (.new tree, false) tr s) : OperatorInv hash S s :=
  @Run.invariant _ _ _ _ _ _ (fun _ s => OperatorInv hash S s) hrun
    ⟨by simp [OperatorRegistry.new], List.nodup_nil, Bool.noConfusion⟩
    fun _ _ _ _ _ h inv => inv.step hS h

/-! ## The published cohort -/

/-- What is published describes the cohort, and each active card finds its leaf at its position. -/
structure CohortConsistent (hash : List F → F) (S : AppendStore F T ε) (reg : OperatorRegistry T)
    (root : Option F) (size : Nat) : Prop where
  root : root = Merkle.leanRoot (merkleHash hash) (S.leaves reg.tree)
  size : size = (S.leaves reg.tree).length
  leaves : S.leaves reg.tree = reg.active.map fun c => c.m.packed hash
  position : ∀ c ∈ reg.active, (S.leaves reg.tree)[c.cohortPosition]? = some (c.m.packed hash)

/-- No revoked card was enrolled before an active one. -/
def Gapless (cards : List CardRecord) : Prop :=
  ∀ (i j : Nat) (c d : CardRecord), i < j → cards[i]? = some c → cards[j]? = some d →
    d.status = .active → c.status = .active

/-- An element that is kept stays at its index just if all before it are kept. -/
theorem List.getElem?_filter_iff {α : Type} {p : α → Bool} {xs : List α} (hnodup : xs.Nodup) {i : Nat}
    {a : α} (ha : xs[i]? = some a) (hp : p a = true) :
    (xs.filter p)[i]? = some a ↔ ∀ x ∈ xs.take i, p x = true := by
  obtain ⟨hi, rfl⟩ := List.getElem?_eq_some_iff.mp ha
  -- the index of the element among those kept is the number of those kept before it
  have hsplit : xs.filter p = (xs.take i).filter p ++ xs[i] :: (xs.drop (i + 1)).filter p := by
    rw [← List.filter_cons_of_pos hp, ← List.filter_append, ← List.drop_eq_getElem_cons hi,
      List.take_append_drop]
  have hindex : (xs.filter p)[((xs.take i).filter p).length]? = some xs[i] := by
    rw [hsplit, List.getElem?_append_right (Nat.le_refl _), Nat.sub_self, List.getElem?_cons_zero]
  have hlength : (xs.take i).length = i := List.length_take_of_le hi.le
  rw [← List.length_filter_eq_length_iff, hlength]
  constructor
  · intro h
    obtain ⟨hlt, -⟩ := List.getElem?_eq_some_iff.mp hindex
    exact (List.getElem?_inj hlt (hnodup.filter p)).mp (hindex.trans h.symm)
  · intro h
    rw [← hindex, h]

theorem OperatorInv.leaf_iff (H : IdealHash hash) (inv : OperatorInv hash S (reg, true)) {c : CardRecord}
    (hc : c ∈ reg.active) : (S.leaves reg.tree)[c.cohortPosition]? = some (c.m.packed hash) ↔
      ∀ d ∈ reg.cards.take c.cohortPosition, d.status = .active := by
  obtain ⟨hmem, hactive⟩ := List.mem_filter.mp hc
  obtain ⟨i, hi⟩ := List.mem_iff_getElem?.mp hmem
  obtain rfl := inv.position i c hi
  have hkept := @List.getElem?_filter_iff _ (fun c : CardRecord => c.status = .active) _
    inv.nodup.of_map _ _ hi hactive
  simp only [decide_eq_true_eq] at hkept
  rw [← hkept, inv.built rfl, List.getElem?_map, Option.map_eq_some_iff]
  constructor
  · rintro ⟨d, hd, hpacked⟩
    have hd_mem := (List.mem_filter.mp (List.mem_of_getElem? hd)).1
    have heq := List.inj_on_of_nodup_map inv.nodup hd_mem hmem (SecpPubkey.packed_inj H hpacked)
    exact heq ▸ hd
  · intro h
    exact ⟨c, h, rfl⟩

/-- Whatever was enrolled and revoked, what is published has as many leaves as it says, the keys of the
active cards, and each card's leaf is at the card's position just if no revoked card was enrolled before
an active one. -/
theorem published_positions (H : IdealHash hash) (hS : S.Lawful (merkleHash hash)) {tree : T}
    (hrun : Run (OperatorTransition hash S) (.new tree, false) tr s) {version size : Nat}
    {root : Option F} (hpublish : OperatorTransition hash S s (.publish version root size) s') :
    CohortConsistent hash S s.1 root size ↔ Gapless s.1.cards := by
  have inv := OperatorInv.run hS hrun
  cases hpublish with
  | @publish reg _ _ _ _ eq =>
    cases eq
    have hleaves := inv.built rfl
    constructor
    · intro h i j c d hij hi hj hd
      have hd_active : d ∈ reg.active :=
        List.mem_filter.mpr ⟨List.mem_of_getElem? hj, decide_eq_true hd⟩
      refine (inv.leaf_iff H hd_active).mp (h.position d hd_active) c ?_
      rw [inv.position j d hj]
      exact List.mem_of_getElem? ((List.getElem?_take_of_lt hij).trans hi)
    · intro h
      refine ⟨hS.root _, ?_, hleaves, fun c hc => (inv.leaf_iff H hc).mpr fun d hd => ?_⟩
      · rw [hleaves, List.length_map]
      · obtain ⟨hmem, hactive⟩ := List.mem_filter.mp hc
        obtain ⟨j, hj⟩ := List.mem_iff_getElem?.mp hmem
        obtain ⟨i, hi⟩ := List.mem_iff_getElem?.mp hd
        rw [List.getElem?_take] at hi
        split at hi
        · rename_i hlt
          rw [inv.position j c hj] at hlt
          exact h i j d c hlt hi hj (of_decide_eq_true hactive)
        · cases hi

end

namespace Operator.Sample

def store : AppendStore Unbounded (List Unbounded) ListStoreError := listAppendStore (merkleHash idealHash)

def bytes (b : UInt8) : Bytes 32 := ⟨List.replicate 32 b, rfl⟩

def key (b : UInt8) : SecpPubkey := ⟨bytes b, bytes b⟩

/-- Two cards are enrolled and the tree is rebuilt over both. -/
theorem enrolled : Run (OperatorTransition idealHash store) (.new [], false)
    [.rebuild, .enroll (bytes 2) (key 2), .enroll (bytes 1) (key 1)]
    (rebuildTree idealHash store ⟨[⟨bytes 1, key 1, .active, 0⟩, ⟨bytes 2, key 2, .active, 1⟩], [], 0⟩, true) :=
  .cons (.cons (.cons .nil (.enroll rfl)) (.enroll rfl)) (.rebuild rfl)

/-- The first one is revoked before the tree is rebuilt. -/
theorem revoked : Run (OperatorTransition idealHash store) (.new [], false)
    [.rebuild, .revoke (bytes 1), .enroll (bytes 2) (key 2), .enroll (bytes 1) (key 1)]
    (rebuildTree idealHash store
      ⟨[⟨bytes 1, key 1, .revoked, 0⟩, ⟨bytes 2, key 2, .active, 1⟩], [], 0⟩, true) :=
  .cons (.cons (.cons (.cons .nil (.enroll rfl)) (.enroll rfl)) (.revoke rfl)) (.rebuild rfl)

end Operator.Sample

open Operator.Sample in
/-- Two active cards are published at their positions. -/
theorem published_positions_sample : CohortConsistent idealHash store (rebuildTree idealHash store
      ⟨[⟨bytes 1, key 1, .active, 0⟩, ⟨bytes 2, key 2, .active, 1⟩], [], 0⟩)
    (Merkle.leanRoot (merkleHash idealHash) [(key 1).packed idealHash, (key 2).packed idealHash]) 2 := by
  refine (published_positions Swap.idealHash_poseidon listAppendStore_lawful enrolled (.publish rfl)).mpr ?_
  intro i j c d _ hi _ _
  rcases i with _ | _ | i
  · cases hi
    rfl
  · cases hi
    rfl
  · cases hi

open Operator.Sample in
/-- After the first of two cards is revoked, the leaf of the second is not at its position. -/
theorem revocation_shifts_leaves : ∃ tr s s' version root size,
    Run (OperatorTransition idealHash store) (.new [], false) tr s ∧
      OperatorTransition idealHash store s (.publish version root size) s' ∧
      ¬ CohortConsistent idealHash store s.1 root size := by
  refine ⟨_, _, _, _, _, _, revoked, .publish rfl, fun h => ?_⟩
  have hposition := h.position ⟨bytes 2, key 2, .active, 1⟩ (List.mem_singleton.mpr rfl)
  cases hposition

end Pocs.Rails
