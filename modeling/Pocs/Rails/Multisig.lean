import Mathlib.Data.Vector.Basic
import Pocs.Compliance.Field
import Pocs.Lib.Nested
import Pocs.Lib.Update

/-! # The funder's multisig

`Multisig.sol`. A proposal is executed once four of the seven owners have confirmed it; the target may
call back before its call returns, and a failed call undoes all that happened in it. The log is what is
left of the calls that were not undone. -/

namespace Pocs.Rails

open Compliance (Address)

def threshold : Nat := 4

structure Proposal where
  target : Address
  data : List UInt8
  confirmations : Nat
  executed : Bool
  confirmed : Address → Bool

def Proposal.unset : Proposal := ⟨0, [], 0, false, fun _ => false⟩

/-- The storage of the multisig. -/
structure Multisig where
  owners : Address → Bool
  proposalCount : Nat
  proposals : Nat → Proposal

inductive MultisigError where
  | notOwner
  | alreadyConfirmed
  | alreadyExecuted
  | belowThreshold
  | executionFailed
  | invalidProposal
  | duplicateOwner
  | zeroAddress
  /-- Arithmetic overflow. -/
  | panic
  deriving DecidableEq, Repr

namespace Multisig

def addOwner (ms : Multisig) (owner : Address) : Except MultisigError Multisig := do
  failIf (owner = 0) .zeroAddress
  failIf (ms.owners owner = true) .duplicateOwner
  pure { ms with owners := Function.update ms.owners owner true }

def new (owners : List.Vector Address 7) : Except MultisigError Multisig :=
  owners.toList.foldlM addOwner ⟨fun _ => false, 0, fun _ => .unset⟩

variable (ms : Multisig)

def propose (sender target : Address) (data : List UInt8) : Except MultisigError (Nat × Multisig) := do
  failIf (ms.owners sender = false) .notOwner
  let id := ms.proposalCount
  failIf (2 ^ 256 ≤ id + 1) .panic
  let p := { ms.proposals id with target, data }
  pure (id, { ms with proposalCount := id + 1, proposals := Function.update ms.proposals id p })

def confirm (sender : Address) (proposalId : Nat) : Except MultisigError Multisig := do
  failIf (ms.owners sender = false) .notOwner
  failIf (ms.proposalCount ≤ proposalId) .invalidProposal
  let p := ms.proposals proposalId
  failIf (p.executed = true) .alreadyExecuted
  failIf (p.confirmed sender = true) .alreadyConfirmed
  failIf (2 ^ 256 ≤ p.confirmations + 1) .panic
  let p := { p with confirmed := Function.update p.confirmed sender true, confirmations := p.confirmations + 1 }
  pure { ms with proposals := Function.update ms.proposals proposalId p }

/-- `execute` up to the call of the target. -/
def beginExecute (sender : Address) (proposalId : Nat) : Except MultisigError Multisig := do
  failIf (ms.owners sender = false) .notOwner
  failIf (ms.proposalCount ≤ proposalId) .invalidProposal
  let p := ms.proposals proposalId
  failIf (p.executed = true) .alreadyExecuted
  failIf (p.confirmations < threshold) .belowThreshold
  pure { ms with proposals := Function.update ms.proposals proposalId { p with executed := true } }

variable {ms ms' : Multisig} {sender target : Address} {data : List UInt8} {id : Nat}

theorem addOwner_ok {owner : Address} (h : ms.addOwner owner = .ok ms') :
    ms.owners owner = false ∧ ms' = { ms with owners := Function.update ms.owners owner true } := by
  simp only [addOwner, bind_eq_ok, failIf_eq_ok, pure_eq_ok, exists_const, Bool.not_eq_true] at h
  exact ⟨h.2.1, h.2.2.symm⟩

/-- The loop of the constructor adds distinct owners and nothing else. -/
theorem foldlM_addOwner_ok {owners : List Address} (h : owners.foldlM addOwner ms = .ok ms') :
    owners.Nodup ∧ (∀ a ∈ owners, ms.owners a = false) ∧
      (∀ a, ms'.owners a = true ↔ ms.owners a = true ∨ a ∈ owners) ∧
      ms'.proposalCount = ms.proposalCount ∧ ms'.proposals = ms.proposals := by
  induction owners generalizing ms with
  | nil =>
    simp only [List.foldlM_nil, pure_eq_ok] at h
    subst h
    simp
  | cons o owners ih =>
    simp only [List.foldlM_cons, bind_eq_ok] at h
    obtain ⟨ms₁, hone, hrest⟩ := h
    obtain ⟨hnew, rfl⟩ := addOwner_ok hone
    obtain ⟨hnodup, hfresh, howners, hcount, hproposals⟩ := ih hrest
    have ho : o ∉ owners := fun hmem => by simpa using hfresh o hmem
    refine ⟨List.nodup_cons.mpr ⟨ho, hnodup⟩, fun a ha => ?_, fun a => ?_, hcount, hproposals⟩
    · rcases List.mem_cons.mp ha with rfl | ha
      · exact hnew
      · have hne : a ≠ o := fun heq => ho (heq ▸ ha)
        simpa [hne] using hfresh a ha
    · rw [howners a, List.mem_cons]
      rcases eq_or_ne a o with rfl | hne
      · simp
      · simp [hne]

theorem new_ok {owners : List.Vector Address 7} (h : new owners = .ok ms) :
    owners.toList.Nodup ∧ (∀ a, ms.owners a = true ↔ a ∈ owners.toList) ∧ ms.proposalCount = 0 ∧
      ms.proposals = fun _ => .unset := by
  obtain ⟨hnodup, -, howners, hcount, hproposals⟩ := foldlM_addOwner_ok h
  exact ⟨hnodup, fun a => by simp [howners a], hcount, hproposals⟩

theorem propose_ok (h : ms.propose sender target data = .ok (id, ms')) :
    ms.owners sender = true ∧ id = ms.proposalCount ∧ ms' = ⟨ms.owners, id + 1,
        Function.update ms.proposals id { ms.proposals id with target, data }⟩ := by
  simp only [propose, bind_eq_ok, failIf_eq_ok, pure_eq_ok, exists_const, Bool.not_eq_false, Prod.mk.injEq] at h
  obtain ⟨howner, -, rfl, rfl⟩ := h
  exact ⟨howner, rfl, rfl⟩

theorem confirm_ok (h : ms.confirm sender id = .ok ms') :
    ms.owners sender = true ∧ id < ms.proposalCount ∧ (ms.proposals id).executed = false ∧
      (ms.proposals id).confirmed sender = false ∧
      ms' = ⟨ms.owners, ms.proposalCount, Function.update ms.proposals id { ms.proposals id with
        confirmed := Function.update (ms.proposals id).confirmed sender true
        confirmations := (ms.proposals id).confirmations + 1 }⟩ := by
  simp only [confirm, bind_eq_ok, failIf_eq_ok, pure_eq_ok, exists_const, Bool.not_eq_false,
    Bool.not_eq_true, not_le] at h
  obtain ⟨howner, hid, hexecuted, hconfirmed, -, rfl⟩ := h
  exact ⟨howner, hid, hexecuted, hconfirmed, rfl⟩

theorem beginExecute_eq_ok : ms.beginExecute sender id = .ok ms' ↔
    ms.owners sender = true ∧ id < ms.proposalCount ∧ (ms.proposals id).executed = false ∧
      threshold ≤ (ms.proposals id).confirmations ∧ ⟨ms.owners, ms.proposalCount,
        Function.update ms.proposals id { ms.proposals id with executed := true }⟩ = ms' := by
  simp only [beginExecute, bind_eq_ok, failIf_eq_ok, pure_eq_ok, exists_const, Bool.not_eq_false,
    Bool.not_eq_true, not_le, not_lt]

end Multisig

open Multisig

/-! ## Runs with calls that re-enter -/

/-- What the multisig emits. -/
inductive MultisigEvent where
  | proposed (proposalId : Nat) (target : Address) (data : List UInt8)
  | confirmed (proposalId : Nat) (confirmer : Address)
  /-- The call of the target. -/
  | called (proposalId : Nat) (target : Address) (data : List UInt8)
  deriving DecidableEq, Repr

/-- A multisig and the calls that were not undone, newest first. -/
structure Ledger where
  multisig : Multisig
  log : List MultisigEvent

/-- The calls of the multisig, with their senders. -/
inductive MultisigCall where
  | propose (sender target : Address) (data : List UInt8)
  | confirm (sender : Address) (proposalId : Nat)
  | execute (sender : Address) (proposalId : Nat)
  deriving DecidableEq, Repr

inductive Ledger.Act (c : Ledger) : MultisigCall → Ledger → Prop where
  | propose {sender target data id ms} (ok : c.multisig.propose sender target data = .ok (id, ms)) :
    Act c (.propose sender target data) ⟨ms, .proposed id target data :: c.log⟩
  | confirm {sender id ms} (ok : c.multisig.confirm sender id = .ok ms) :
    Act c (.confirm sender id) ⟨ms, .confirmed id sender :: c.log⟩
  | proposeReverted {sender target data e} (err : c.multisig.propose sender target data = .error e) :
    Act c (.propose sender target data) c
  | confirmReverted {sender id e} (err : c.multisig.confirm sender id = .error e) : Act c (.confirm sender id) c
  | executeReverted {sender id e} (err : c.multisig.beginExecute sender id = .error e) :
    Act c (.execute sender id) c

/-- The calls that are pending while others run: an execution, or a call of another contract. -/
inductive Pending where
  | execute (sender : Address) (proposalId : Nat)
  | foreign
  deriving DecidableEq, Repr

inductive Ledger.Enter (c : Ledger) : Pending → Ledger → Prop where
  | execute {sender id ms} (ok : c.multisig.beginExecute sender id = .ok ms) : Enter c (.execute sender id)
      ⟨ms, .called id (ms.proposals id).target (ms.proposals id).data :: c.log⟩
  | foreign : Enter c .foreign c

/-- A multisig with the calls that have not returned. -/
abbrev Calls := Nested Ledger Pending

abbrev Calls.Step : Calls → Nested.Label Pending MultisigCall → Calls → Prop :=
  Nested.Step Ledger.Act Ledger.Enter

/-! ## What runs keep -/

/-- The number of distinct owners that confirmed the proposal. -/
def confirmers (owners : List Address) (log : List MultisigEvent) (id : Nat) : Nat :=
  owners.countP fun a => .confirmed id a ∈ log

def MultisigEvent.created : MultisigEvent → Option Nat
  | .proposed id _ _ => some id
  | _ => none

def MultisigEvent.callee : MultisigEvent → Option Nat
  | .called id _ _ => some id
  | _ => none

/-- The proposals that were created, those whose target was called, and who had confirmed these. -/
structure Ledger.Sound (owners : List Address) (c : Ledger) : Prop where
  isOwner : ∀ a, c.multisig.owners a = true ↔ a ∈ owners
  unset : ∀ id, c.multisig.proposalCount ≤ id → c.multisig.proposals id = .unset
  counter : ∀ id, (c.multisig.proposals id).confirmations = confirmers owners c.log id
  confirmed : ∀ id a, (c.multisig.proposals id).confirmed a = true ↔ .confirmed id a ∈ c.log
  owner : ∀ id a, .confirmed id a ∈ c.log → a ∈ owners
  proposed : ∀ id target data, .proposed id target data ∈ c.log ↔ id < c.multisig.proposalCount ∧
    (c.multisig.proposals id).target = target ∧ (c.multisig.proposals id).data = data
  created_once : (c.log.filterMap MultisigEvent.created).Nodup
  called : ∀ id target data, .called id target data ∈ c.log ↔
    (c.multisig.proposals id).executed = true ∧ (c.multisig.proposals id).target = target ∧
      (c.multisig.proposals id).data = data
  called_once : (c.log.filterMap MultisigEvent.callee).Nodup
  authorized : ∀ later id target data earlier, c.log = later ++ .called id target data :: earlier →
    threshold ≤ confirmers owners earlier id

theorem countP_confirmed {owners : List Address} (hnodup : owners.Nodup) {a : Address}
    (ha : a ∈ owners) {p : Address → Bool} (hp : p a = false) :
    owners.countP (fun b => b = a || p b) = owners.countP p + 1 := by
  induction owners with
  | nil => cases ha
  | cons o owners ih =>
    obtain ⟨ho, hnodup⟩ := List.nodup_cons.mp hnodup
    rcases eq_or_ne o a with rfl | hne
    · have hrest : owners.countP (fun b => b = o || p b) = owners.countP p :=
        List.countP_congr fun b hb => by
          have hb' : b ≠ o := fun heq => ho (heq ▸ hb)
          simp [hb']
      simp [hrest, hp]
    · have hin : a ∈ owners := (List.mem_cons.mp ha).resolve_left hne.symm
      rw [List.countP_cons, List.countP_cons, ih hnodup hin]
      simp only [hne, decide_false, Bool.false_or]
      omega

namespace Ledger.Sound
variable {owners : List Address} {c c' : Ledger}

theorem confirmers_cons {e : MultisigEvent} {log : List MultisigEvent} {id : Nat}
    (he : ∀ a, e ≠ .confirmed id a) : confirmers owners (e :: log) id = confirmers owners log id :=
  List.countP_congr fun a _ => by simp [List.mem_cons, (he a).symm]

theorem initial {owners : List.Vector Address 7} {ms : Multisig}
    (h : Multisig.new owners = .ok ms) : Sound owners.toList ⟨ms, []⟩ := by
  obtain ⟨-, howners, hcount, hproposals⟩ := new_ok h
  have hunset : ∀ id, ms.proposals id = .unset := fun id => congrFun hproposals id
  refine ⟨howners, fun id _ => hunset id, fun id => ?_, fun id a => ?_, ?_, fun id target data => ?_,
    List.nodup_nil, fun id target data => ?_, List.nodup_nil, ?_⟩
  · show (ms.proposals id).confirmations = _
    rw [hunset id]
    simp [confirmers, Proposal.unset]
  · show (ms.proposals id).confirmed a = true ↔ _
    rw [hunset id]
    simp [Proposal.unset]
  · intro id a hmem
    cases hmem
  · show _ ↔ id < ms.proposalCount ∧ _
    simp [hcount]
  · show _ ↔ (ms.proposals id).executed = true ∧ _
    rw [hunset id]
    simp [Proposal.unset]
  · intro later id target data earlier hlog
    simp at hlog

/-- A call is recorded below all that follows it. -/
theorem authorized_cons {e : MultisigEvent} {log : List MultisigEvent}
    (hlog : ∀ later id target data earlier, log = later ++ .called id target data :: earlier →
      threshold ≤ confirmers owners earlier id)
    (he : ∀ id target data, e = .called id target data → threshold ≤ confirmers owners log id) :
    ∀ later id target data earlier, e :: log = later ++ .called id target data :: earlier →
      threshold ≤ confirmers owners earlier id := by
  intro later id target data earlier hcons
  cases later with
  | nil =>
    cases hcons
    exact he _ _ _ rfl
  | cons x later =>
    cases hcons
    exact hlog _ _ _ _ _ rfl

theorem mem_created (inv : Sound owners c) {id : Nat}
    (h : id ∈ c.log.filterMap MultisigEvent.created) : id < c.multisig.proposalCount := by
  obtain ⟨e, he, hid⟩ := List.mem_filterMap.mp h
  cases e with
  | proposed id' target data =>
    cases hid
    exact ((inv.proposed _ _ _).mp he).1
  | confirmed | called => cases hid

theorem mem_callee (inv : Sound owners c) {id : Nat}
    (h : id ∈ c.log.filterMap MultisigEvent.callee) : (c.multisig.proposals id).executed = true := by
  obtain ⟨e, he, hid⟩ := List.mem_filterMap.mp h
  cases e with
  | called id' target data =>
    cases hid
    exact ((inv.called _ _ _).mp he).1
  | confirmed | proposed => cases hid

theorem propose (inv : Sound owners c) {sender target : Address} {data : List UInt8} {id : Nat}
    {ms : Multisig} (ok : c.multisig.propose sender target data = .ok (id, ms)) :
    Sound owners ⟨ms, .proposed id target data :: c.log⟩ := by
  obtain ⟨-, hid, hms⟩ := propose_ok ok
  generalize hp : ({ c.multisig.proposals id with target, data } : Proposal) = p at hms
  subst hms
  -- nothing is known of a proposal that does not exist yet
  have hunset : c.multisig.proposals id = .unset := inv.unset id hid.ge
  have hnew : id ∉ c.log.filterMap MultisigEvent.created := fun h =>
    absurd (inv.mem_created h) (hid ▸ Nat.lt_irrefl _)
  have hexecuted : (c.multisig.proposals id).executed ≠ true := by
    rw [hunset]
    exact Bool.noConfusion
  refine ⟨inv.isOwner, fun id' hid' => ?_, fun id' => ?_, fun id' a => ?_, fun id' a hmem => ?_,
    fun id' target' data' => ?_, List.nodup_cons.mpr ⟨hnew, inv.created_once⟩,
    fun id' target' data' => ?_, inv.called_once, ?_⟩
  · have hlt : id < id' := hid'
    exact (Function.update_of_ne hlt.ne' _ _).trans (inv.unset id' (by omega))
  · rw [confirmers_cons fun a => MultisigEvent.noConfusion, ← inv.counter id']
    exact @update_field _ _ _ _ c.multisig.proposals id Proposal.confirmations p (by rw [← hp]) id'
  · rw [List.mem_cons, or_iff_right MultisigEvent.noConfusion, ← inv.confirmed id' a]
    have hsame := @update_field _ _ _ _ c.multisig.proposals id (fun q => q.confirmed a) p (by rw [← hp]) id'
    exact Iff.of_eq (congrArg (· = true) hsame)
  · exact inv.owner id' a ((List.mem_cons.mp hmem).resolve_left MultisigEvent.noConfusion)
  · show _ ↔ id' < id + 1 ∧ (Function.update c.multisig.proposals id p id').target = _ ∧
      (Function.update c.multisig.proposals id p id').data = _
    rw [List.mem_cons, MultisigEvent.proposed.injEq, inv.proposed id' target' data', ← hid]
    rcases eq_or_ne id' id with rfl | hne
    · rw [Function.update_self, ← hp]
      simp only [Nat.lt_irrefl, false_and, or_false, true_and, Nat.lt_succ_self]
      exact and_congr eq_comm eq_comm
    · have hlt : id' < id ↔ id' < id + 1 := by omega
      rw [Function.update_of_ne hne, hlt]
      simp [hne]
  · show _ ↔ (Function.update c.multisig.proposals id p id').executed = true ∧
      (Function.update c.multisig.proposals id p id').target = _ ∧
      (Function.update c.multisig.proposals id p id').data = _
    rw [List.mem_cons, or_iff_right MultisigEvent.noConfusion, inv.called id' target' data']
    rcases eq_or_ne id' id with rfl | hne
    · rw [Function.update_self, ← hp]
      exact iff_of_false (fun h => hexecuted h.1) fun h => hexecuted h.1
    · rw [Function.update_of_ne hne]
  · exact authorized_cons inv.authorized fun _ _ _ he => MultisigEvent.noConfusion he

theorem confirm (inv : Sound owners c) (hnodup : owners.Nodup) {sender : Address} {id : Nat}
    {ms : Multisig} (ok : c.multisig.confirm sender id = .ok ms) :
    Sound owners ⟨ms, .confirmed id sender :: c.log⟩ := by
  obtain ⟨howner, hid, -, hconfirmed, hms⟩ := confirm_ok ok
  generalize hp : ({ c.multisig.proposals id with
    confirmed := Function.update (c.multisig.proposals id).confirmed sender true
    confirmations := (c.multisig.proposals id).confirmations + 1 } : Proposal) = p at hms
  subst hms
  have htarget := @update_field _ _ _ _ c.multisig.proposals id Proposal.target p (by rw [← hp])
  have hdata := @update_field _ _ _ _ c.multisig.proposals id Proposal.data p (by rw [← hp])
  have hexecuted := @update_field _ _ _ _ c.multisig.proposals id Proposal.executed p (by rw [← hp])
  refine ⟨inv.isOwner, fun id' hid' => ?_, fun id' => ?_, fun id' a => ?_, fun id' a hmem => ?_,
    fun id' target' data' => ?_, inv.created_once, fun id' target' data' => ?_, inv.called_once, ?_⟩
  · have hlt : c.multisig.proposalCount ≤ id' := hid'
    exact (Function.update_of_ne (hid.trans_le hlt).ne' _ _).trans (inv.unset id' hid')
  · show (Function.update c.multisig.proposals id p id').confirmations = _
    rcases eq_or_ne id' id with rfl | hne
    · -- the sender is one more confirmer
      have hfresh : decide (MultisigEvent.confirmed id' sender ∈ c.log) = false := by
        rw [decide_eq_false_iff_not, ← inv.confirmed id' sender, hconfirmed]
        exact Bool.noConfusion
      have hcount := @countP_confirmed owners hnodup sender ((inv.isOwner sender).mp howner)
        (fun a => .confirmed id' a ∈ c.log) hfresh
      rw [Function.update_self, ← hp]
      show (c.multisig.proposals id').confirmations + 1 = _
      rw [inv.counter id', confirmers, ← hcount]
      exact List.countP_congr fun a _ => by simp
    · rw [Function.update_of_ne hne, inv.counter id']
      exact (confirmers_cons fun a h => hne (MultisigEvent.confirmed.inj h).1.symm).symm
  · show (Function.update c.multisig.proposals id p id').confirmed a = true ↔ _
    rw [List.mem_cons, MultisigEvent.confirmed.injEq, ← inv.confirmed id' a]
    rcases eq_or_ne id' id with rfl | hne
    · rw [Function.update_self, ← hp]
      rcases eq_or_ne a sender with rfl | hne
      · simp
      · simp [hne]
    · rw [Function.update_of_ne hne]
      simp [hne]
  · rcases List.mem_cons.mp hmem with heq | hmem
    · cases heq
      exact (inv.isOwner _).mp howner
    · exact inv.owner id' a hmem
  · rw [List.mem_cons, or_iff_right MultisigEvent.noConfusion, inv.proposed id' target' data',
      ← htarget id', ← hdata id']
  · rw [List.mem_cons, or_iff_right MultisigEvent.noConfusion, inv.called id' target' data',
      ← htarget id', ← hdata id', ← hexecuted id']
  · exact authorized_cons inv.authorized fun _ _ _ he => MultisigEvent.noConfusion he

theorem execute (inv : Sound owners c) {sender : Address} {id : Nat} {ms : Multisig}
    (ok : c.multisig.beginExecute sender id = .ok ms) :
    Sound owners ⟨ms, .called id (ms.proposals id).target (ms.proposals id).data :: c.log⟩ := by
  obtain ⟨-, hid, hpending, hthreshold, hms⟩ := beginExecute_eq_ok.mp ok
  generalize hp : ({ c.multisig.proposals id with executed := true } : Proposal) = p at hms
  subst hms
  have htarget := @update_field _ _ _ _ c.multisig.proposals id Proposal.target p (by rw [← hp])
  have hdata := @update_field _ _ _ _ c.multisig.proposals id Proposal.data p (by rw [← hp])
  have hnew : id ∉ c.log.filterMap MultisigEvent.callee := fun h => by
    rw [inv.mem_callee h] at hpending
    cases hpending
  refine ⟨inv.isOwner, fun id' hid' => ?_, fun id' => ?_, fun id' a => ?_, fun id' a hmem => ?_,
    fun id' target' data' => ?_, inv.created_once, fun id' target' data' => ?_,
    List.nodup_cons.mpr ⟨hnew, inv.called_once⟩, ?_⟩
  · have hlt : c.multisig.proposalCount ≤ id' := hid'
    exact (Function.update_of_ne (hid.trans_le hlt).ne' _ _).trans (inv.unset id' hid')
  · rw [confirmers_cons fun a => MultisigEvent.noConfusion, ← inv.counter id']
    exact @update_field _ _ _ _ c.multisig.proposals id Proposal.confirmations p (by rw [← hp]) id'
  · rw [List.mem_cons, or_iff_right MultisigEvent.noConfusion, ← inv.confirmed id' a]
    have hsame := @update_field _ _ _ _ c.multisig.proposals id (fun q => q.confirmed a) p (by rw [← hp]) id'
    exact Iff.of_eq (congrArg (· = true) hsame)
  · exact inv.owner id' a ((List.mem_cons.mp hmem).resolve_left MultisigEvent.noConfusion)
  · rw [List.mem_cons, or_iff_right MultisigEvent.noConfusion, inv.proposed id' target' data',
      ← htarget id', ← hdata id']
  · show _ ↔ (Function.update c.multisig.proposals id p id').executed = true ∧
      (Function.update c.multisig.proposals id p id').target = _ ∧
      (Function.update c.multisig.proposals id p id').data = _
    rw [List.mem_cons, MultisigEvent.called.injEq, inv.called id' target' data', htarget id', hdata id']
    rcases eq_or_ne id' id with rfl | hne
    · have hexecuted : p.executed = true := by rw [← hp]
      show _ = _ ∧ _ = (Function.update c.multisig.proposals id' p id').target ∧
        _ = (Function.update c.multisig.proposals id' p id').data ∨ _ ↔ _
      rw [htarget, hdata, Function.update_self]
      simp only [hexecuted, hpending, Bool.false_eq_true, false_and, or_false, true_and]
      exact and_congr eq_comm eq_comm
    · rw [Function.update_of_ne hne]
      simp [hne]
  · refine authorized_cons inv.authorized fun id' target' data' he => ?_
    cases he
    rw [← inv.counter id]
    exact hthreshold

theorem act (hnodup : owners.Nodup) {l : MultisigCall} (h : Act c l c') (inv : Sound owners c) :
    Sound owners c' := by
  cases h with
  | propose ok => exact inv.propose ok
  | confirm ok => exact inv.confirm hnodup ok
  | proposeReverted | confirmReverted | executeReverted => exact inv

theorem enter {f : Pending} (h : Enter c f c') (inv : Sound owners c) : Sound owners c' := by
  cases h with
  | execute ok => exact inv.execute ok
  | foreign => exact inv

end Ledger.Sound

/-- A deployed multisig is sound however calls are nested, and so are the states that the failure of
a pending call restores. -/
theorem Calls.sound {owners : List.Vector Address 7} {ms : Multisig} {n : Calls}
    {tr : List (Nested.Label Pending MultisigCall)} (h : Multisig.new owners = .ok ms)
    (hrun : Run Calls.Step ⟨⟨ms, []⟩, []⟩ tr n) : Nested.Inv Ledger.Enter (Ledger.Sound owners.toList) n :=
  Nested.Inv.run (Ledger.Sound.act (new_ok h).1) Ledger.Sound.enter (.initial h) hrun

/-- In every run, whoever calls and however the targets call back: the counter of a proposal is the
number of distinct owners that confirmed it; a created proposal keeps its target and data; the target
is called at most once, with just these, and only after four distinct owners confirmed; and when the
call fails, the multisig is as before the execution, which any owner can try again. -/
theorem proposals_authorized {owners : List.Vector Address 7} {ms : Multisig} {n : Calls}
    {tr : List (Nested.Label Pending MultisigCall)} (h : Multisig.new owners = .ok ms)
    (hrun : Run Calls.Step ⟨⟨ms, []⟩, []⟩ tr n) : (∀ id, (n.state.multisig.proposals id).confirmations =
      (owners.toList.filter fun a => .confirmed id a ∈ n.state.log).length) ∧
    (∀ id a, .confirmed id a ∈ n.state.log →
      a ∈ owners.toList ∧ (n.state.multisig.proposals id).confirmed a = true) ∧ owners.toList.Nodup ∧
    (∀ id target data, .proposed id target data ∈ n.state.log →
      (n.state.multisig.proposals id).target = target ∧ (n.state.multisig.proposals id).data = data) ∧
    (n.state.log.filterMap MultisigEvent.created).Nodup ∧ (n.state.log.filterMap MultisigEvent.callee).Nodup ∧
    (∀ later id target data earlier, n.state.log = later ++ .called id target data :: earlier →
        .proposed id target data ∈ n.state.log ∧
          4 ≤ (owners.toList.filter fun a => .confirmed id a ∈ earlier).length) ∧
    ∀ sender id n₁ tr' n₂ n₃, Calls.Step n (.enter (.execute sender id)) n₁ →
      Run Calls.Step n₁ tr' n₂ → n₂.frames = n₁.frames → Calls.Step n₂ (.revert (.execute sender id)) n₃ →
      n₃ = n ∧ ∀ a ∈ owners.toList, ∃ ms', n₃.state.multisig.beginExecute a id = .ok ms' := by
  have inv := (Calls.sound h hrun).state
  refine ⟨fun id => ?_, fun id a hmem => ⟨inv.owner id a hmem, (inv.confirmed id a).mpr hmem⟩,
    (new_ok h).1, fun id target data hmem => ((inv.proposed id target data).mp hmem).2,
    inv.created_once, inv.called_once, fun later id target data earlier hlog => ⟨?_, ?_⟩, ?_⟩
  · rw [inv.counter id, confirmers, List.countP_eq_length_filter]
  · have hcalled : .called id target data ∈ n.state.log := by
      rw [hlog]
      exact List.mem_append_right _ List.mem_cons_self
    obtain ⟨hexecuted, htarget⟩ := (inv.called id target data).mp hcalled
    refine (inv.proposed id target data).mpr ⟨?_, htarget⟩
    -- a proposal that does not exist was not executed
    by_contra hnot
    rw [inv.unset id (Nat.le_of_not_lt hnot)] at hexecuted
    cases hexecuted
  · have hthreshold := inv.authorized later id target data earlier hlog
    rwa [confirmers, List.countP_eq_length_filter] at hthreshold
  · intro sender id n₁ tr' n₂ n₃ henter _ hframes hrevert
    have hrestored := Nested.restored henter hframes hrevert
    refine ⟨hrestored, fun a ha => ?_⟩
    subst hrestored
    cases henter with
    | enter henter =>
      cases henter with
      | execute ok =>
        obtain ⟨-, hid, hpending, hthreshold, -⟩ := beginExecute_eq_ok.mp ok
        exact ⟨_, beginExecute_eq_ok.mpr ⟨(inv.isOwner a).mpr ha, hid, hpending, hthreshold, rfl⟩⟩

def Sample.multisig : Multisig where
  owners := [1, 2, 3, 4, 5, 6, 7].foldl (fun f a => Function.update f a true) fun _ => false
  proposalCount := 0
  proposals _ := .unset

theorem Sample.new_eq : Multisig.new ⟨[1, 2, 3, 4, 5, 6, 7], rfl⟩ = .ok Sample.multisig := rfl

/-- Four owners confirm the proposal of one of them, and a fifth executes it. -/
theorem proposals_authorized_sample : ∃ (n : Calls) (tr : List (Nested.Label Pending MultisigCall)),
    Run Calls.Step ⟨⟨Sample.multisig, []⟩, []⟩ tr n ∧
    n.state.log = [.called 0 9 [1], .confirmed 0 4, .confirmed 0 3, .confirmed 0 2, .confirmed 0 1,
      .proposed 0 9 [1]] ∧ ∀ id, (n.state.multisig.proposals id).confirmations =
      ([1, 2, 3, 4, 5, 6, 7].filter fun a => .confirmed id a ∈ n.state.log).length := by
  have hnone : Run Calls.Step ⟨⟨Sample.multisig, []⟩, []⟩ [] ⟨⟨Sample.multisig, []⟩, []⟩ := .nil
  have hproposed := hnone.cons (.act (@Ledger.Act.propose _ 1 9 [1] _ _ rfl))
  have hfirst := hproposed.cons (.act (@Ledger.Act.confirm _ 1 0 _ rfl))
  have hsecond := hfirst.cons (.act (@Ledger.Act.confirm _ 2 0 _ rfl))
  have hthird := hsecond.cons (.act (@Ledger.Act.confirm _ 3 0 _ rfl))
  have hfourth := hthird.cons (.act (@Ledger.Act.confirm _ 4 0 _ rfl))
  have hcalled := hfourth.cons (.enter (@Ledger.Enter.execute _ 5 0 _ rfl))
  exact ⟨_, _, hcalled, rfl, (proposals_authorized Sample.new_eq hcalled).1⟩

end Pocs.Rails
