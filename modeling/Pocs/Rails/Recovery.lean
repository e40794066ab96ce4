import Pocs.Rails.Multisig

/-! # Residual recovery through the multisig

`Funder::recover_residual`: read `proposalCount`, propose, confirm with each signer, execute. The
other owners call the multisig between these steps and from within the execution. The id is the count
that was read; `own` is the id of the proposal that the propose call created. -/

namespace Pocs.Rails

open Compliance (Address Word)

/-- `funderUnshieldResidualCall { roundId }.abi_encode()`. -/
def residualCallData (keccak : List UInt8 → List UInt8) (roundId : Word) : List UInt8 :=
  (keccak "funderUnshieldResidual(uint256)".toUTF8.toList).take 4 ++ beOfNat 32 roundId

/-- What `recover_residual` reads of the funder; the accounts are those of the signer providers. -/
structure Funder where
  signerProviders : List Address
  claimContract : Address
  threshold : Nat

/-- How far `recover_residual` has come. -/
inductive Recovery where
  | idle
  | read (proposalId : Nat)
  /-- So many signers have confirmed. -/
  | confirming (proposalId own confirmed : Nat)
  | executing (proposalId own : Nat)
  | stopped

namespace Recovery

/-- The steps of a recovery among those of others. -/
inductive Label where
  | other (l : Nested.Label Pending MultisigCall)
  | read (proposalId : Nat)
  | propose (proposalId own : Nat)
  | confirm (sender : Address) (proposalId own : Nat)
  | execute (sender : Address) (proposalId own : Nat)
  | stop

/-- One step of `recover_residual` or of somebody else. The funder's transactions start when no call is
pending. -/
inductive Step (f : Funder) (callData : List UInt8) : Calls × Recovery → Label → Calls × Recovery → Prop where
  | other {n n' l r} (h : Calls.Step n l n') : Step f callData (n, r) (.other l) (n', r)
  | read {c} (configured : f.threshold ≠ 0) (providers : f.threshold ≤ f.signerProviders.length) :
    Step f callData (⟨c, []⟩, .idle) (.read c.multisig.proposalCount) (⟨c, []⟩, .read c.multisig.proposalCount)
  | propose {c c' id own sender} (first : f.signerProviders[0]? = some sender)
    (ok : c.multisig.propose sender f.claimContract callData = .ok (own, c')) :
    Step f callData (⟨c, []⟩, .read id) (.propose id own)
      (⟨⟨c', .proposed own f.claimContract callData :: c.log⟩, []⟩, .confirming id own 0)
  | confirm {c ms id own i sender} (lt : i < f.threshold) (next : f.signerProviders[i]? = some sender)
    (ok : c.multisig.confirm sender id = .ok ms) :
    Step f callData (⟨c, []⟩, .confirming id own i) (.confirm sender id own)
      (⟨⟨ms, .confirmed id sender :: c.log⟩, []⟩, .confirming id own (i + 1))
  | confirmReverted {c id own i sender e} (lt : i < f.threshold)
    (next : f.signerProviders[i]? = some sender) (err : c.multisig.confirm sender id = .error e) :
    Step f callData (⟨c, []⟩, .confirming id own i) (.confirm sender id own) (⟨c, []⟩, .stopped)
  | execute {c c' id own sender} (first : f.signerProviders[0]? = some sender)
    (enter : c.Enter (.execute sender id) c') :
    Step f callData (⟨c, []⟩, .confirming id own f.threshold) (.execute sender id own)
      (⟨c', [(.execute sender id, c)]⟩, .executing id own)
  | executeReverted {c id own sender e} (first : f.signerProviders[0]? = some sender)
    (err : c.multisig.beginExecute sender id = .error e) :
    Step f callData (⟨c, []⟩, .confirming id own f.threshold) (.execute sender id own) (⟨c, []⟩, .stopped)
  /-- A call to the node fails, or the propose transaction reverts. -/
  | stop {n r} : Step f callData (n, r) .stop (n, .stopped)

variable {f : Funder} {callData : List UInt8} {n : Calls} {r : Recovery} {tr : List Label}
  {s s' : Calls × Recovery} {l : Label}

/-- The proposal that the process is at, and the one it created. -/
def targets : Recovery → Option (Nat × Nat)
  | .confirming id own _ | .executing id own => some (id, own)
  | _ => none

/-- The proposal that a confirmation or an execution of the funder is for, and the one it created. -/
def Label.targets : Label → Option (Nat × Nat)
  | .confirm _ id own | .execute _ id own => some (id, own)
  | _ => none

/-- When the propose call runs, the count is still the one that was read. -/
def Undisturbed (s : Calls × Recovery) (l : Label) : Prop :=
  ∀ id own, l = .propose id own → s.1.state.multisig.proposalCount = id

/-- The steps of a run in which no other proposal falls between the read and the propose call. -/
def UndisturbedStep (f : Funder) (callData : List UInt8) (s : Calls × Recovery) (l : Label)
    (s' : Calls × Recovery) : Prop :=
  Step f callData s l s' ∧ Undisturbed s l

/-- The multisig is sound, and what the funder proposed is in its log. -/
def Kept (f : Funder) (callData : List UInt8) (owners : List Address) (tr : List Label) (c : Ledger) : Prop :=
  c.Sound owners ∧ ∀ id own, .propose id own ∈ tr → .proposed own f.claimContract callData ∈ c.log

/-- The log keeps what the funder proposed whatever is undone, and the funder is at the proposal that
it created. -/
structure Inv (f : Funder) (callData : List UInt8) (owners : List Address) (tr : List Label)
    (s : Calls × Recovery) : Prop where
  calls : Nested.Inv Ledger.Enter (Kept f callData owners tr) s.1
  own : ∀ id own, .propose id own ∈ tr → id = own
  at_own : ∀ id own, s.2.targets = some (id, own) → .propose id own ∈ tr
  issued : ∀ l ∈ tr, ∀ id own, l.targets = some (id, own) → .propose id own ∈ tr

variable {owners : List Address}

theorem Kept.act (hnodup : owners.Nodup) {c c' : Ledger} {l : MultisigCall} (h : c.Act l c')
    (kept : Kept f callData owners tr c) : Kept f callData owners tr c' := by
  refine ⟨kept.1.act hnodup h, fun id own hmem => ?_⟩
  have hlog := kept.2 id own hmem
  cases h with
  | propose | confirm => exact List.mem_cons_of_mem _ hlog
  | proposeReverted | confirmReverted | executeReverted => exact hlog

theorem Kept.enter {c c' : Ledger} {p : Pending} (h : c.Enter p c')
    (kept : Kept f callData owners tr c) : Kept f callData owners tr c' := by
  refine ⟨kept.1.enter h, fun id own hmem => ?_⟩
  have hlog := kept.2 id own hmem
  cases h with
  | execute => exact List.mem_cons_of_mem _ hlog
  | foreign => exact hlog

theorem Kept.cons (hl : ∀ id own, l ≠ .propose id own) (c : Ledger)
    (kept : Kept f callData owners tr c) : Kept f callData owners (l :: tr) c :=
  ⟨kept.1, fun id own hmem =>
    kept.2 id own ((List.mem_cons.mp hmem).resolve_left (hl id own).symm)⟩

theorem Kept.step (hnodup : owners.Nodup) {n n' : Calls} {l : Nested.Label Pending MultisigCall}
    (h : Calls.Step n l n') (inv : Nested.Inv Ledger.Enter (Kept f callData owners tr) n) :
    Nested.Inv Ledger.Enter (Kept f callData owners tr) n' :=
  inv.step (Kept.act hnodup) Kept.enter h

/-- A step other than a propose call of the funder, whose label and state are at the same proposal. -/
theorem Inv.of_calls (inv : Inv f callData owners tr s) (hl : ∀ id own, l ≠ .propose id own)
    (hcalls : Nested.Inv Ledger.Enter (Kept f callData owners tr) s'.1)
    (hlabel : ∀ id own, l.targets = some (id, own) → s.2.targets = some (id, own))
    (hstate : ∀ id own, s'.2.targets = some (id, own) → s.2.targets = some (id, own)) :
    Inv f callData owners (l :: tr) s' := by
  refine ⟨hcalls.imp (Kept.cons hl), fun id own hmem => ?_, fun id own ht => ?_, fun l' hl' id own ht => ?_⟩
  · exact inv.own id own ((List.mem_cons.mp hmem).resolve_left (hl id own).symm)
  · exact List.mem_cons_of_mem _ (inv.at_own id own (hstate id own ht))
  · rcases List.mem_cons.mp hl' with rfl | hl'
    · exact List.mem_cons_of_mem _ (inv.at_own id own (hlabel id own ht))
    · exact List.mem_cons_of_mem _ (inv.issued l' hl' id own ht)

theorem Inv.propose (hnodup : owners.Nodup) {c c' : Ledger} {ms : Multisig} {id own : Nat}
    {sender : Address} (inv : Inv f callData owners tr (⟨c, []⟩, .read id))
    (hcount : c.multisig.proposalCount = id)
    (ok : c.multisig.propose sender f.claimContract callData = .ok (own, ms))
    (hc' : c' = ⟨ms, .proposed own f.claimContract callData :: c.log⟩) :
    Inv f callData owners (.propose id own :: tr) (⟨c', []⟩, .confirming id own 0) := by
  obtain ⟨-, hown, -⟩ := Multisig.propose_ok ok
  subst hc'
  refine ⟨⟨⟨inv.calls.state.1.act hnodup (.propose ok), fun id' own' hmem => ?_⟩,
    fun hmem => absurd hmem List.not_mem_nil, fun hmem => absurd hmem List.not_mem_nil⟩,
    fun id' own' hmem => ?_, fun id' own' ht => ?_, fun l hl id' own' ht => ?_⟩
  · rcases List.mem_cons.mp hmem with heq | hmem
    · cases heq
      exact List.mem_cons_self
    · exact List.mem_cons_of_mem _ (inv.calls.state.2 id' own' hmem)
  · rcases List.mem_cons.mp hmem with heq | hmem
    · cases heq
      exact hcount.symm.trans hown.symm
    · exact inv.own id' own' hmem
  · cases ht
    exact List.mem_cons_self
  · rcases List.mem_cons.mp hl with rfl | hl
    · cases ht
    · exact List.mem_cons_of_mem _ (inv.issued l hl id' own' ht)

theorem Inv.step (hnodup : owners.Nodup) (inv : Inv f callData owners tr s)
    (h : UndisturbedStep f callData s l s') : Inv f callData owners (l :: tr) s' := by
  obtain ⟨h, hundisturbed⟩ := h
  cases h with
  | other h =>
    exact inv.of_calls (fun _ _ => Label.noConfusion)
      (Kept.step hnodup h inv.calls) (fun _ _ ht => by cases ht) fun _ _ ht => ht
  | read | stop =>
    exact inv.of_calls (fun _ _ => Label.noConfusion) inv.calls (fun _ _ ht => by cases ht)
      fun _ _ ht => by cases ht
  | propose first ok => exact inv.propose hnodup (hundisturbed _ _ rfl) ok rfl
  | confirm lt next ok =>
    exact inv.of_calls (fun _ _ => Label.noConfusion)
      (Kept.step hnodup (.act (.confirm ok)) inv.calls) (fun _ _ ht => ht)
      fun _ _ ht => ht
  | execute first enter =>
    exact inv.of_calls (fun _ _ => Label.noConfusion)
      (Kept.step hnodup (.enter enter) inv.calls) (fun _ _ ht => ht)
      fun _ _ ht => ht
  | confirmReverted | executeReverted =>
    exact inv.of_calls (fun _ _ => Label.noConfusion) inv.calls (fun _ _ ht => ht) fun _ _ ht => by cases ht

theorem Inv.run {owners : List.Vector Address 7} {ms : Multisig} (h : Multisig.new owners = .ok ms)
    (hrun : Run (UndisturbedStep f callData) (⟨⟨ms, []⟩, []⟩, .idle) tr s) :
    Inv f callData owners.toList tr s := by
  have hinit : Inv f callData owners.toList [] (⟨⟨ms, []⟩, []⟩, .idle) := by
    refine ⟨⟨⟨.initial h, fun _ _ hmem => ?_⟩, fun hmem => ?_, fun hmem => ?_⟩, fun _ _ hmem => ?_,
      fun _ _ ht => ?_, fun _ hmem => ?_⟩
    · cases hmem
    · cases hmem
    · cases hmem
    · cases hmem
    · cases ht
    · cases hmem
  exact @Run.invariant _ _ _ _ _ _ (fun tr s => Inv f callData owners.toList tr s) hrun hinit
    fun _ _ _ _ _ hstep inv => inv.step (Multisig.new_ok h).1 hstep

/-- In every run where no other proposal falls between the read and the propose call: what the funder
confirms and executes is the proposal that its own propose call created, which calls
`funderUnshieldResidual` of the claim contract and nothing else. -/
theorem recovery_targets_own {owners : List.Vector Address 7} {ms : Multisig}
    {keccak : List UInt8 → List UInt8} {roundId : Word} (h : Multisig.new owners = .ok ms)
    (hrun : Run (UndisturbedStep f (residualCallData keccak roundId)) (⟨⟨ms, []⟩, []⟩, .idle) tr s)
    {sender : Address} {id own : Nat} (hissued : .confirm sender id own ∈ tr ∨ .execute sender id own ∈ tr) :
    id = own ∧ .proposed own f.claimContract (residualCallData keccak roundId) ∈ s.1.state.log ∧
      (s.1.state.multisig.proposals id).target = f.claimContract ∧
      (s.1.state.multisig.proposals id).data = residualCallData keccak roundId ∧
      ∀ target data, .called id target data ∈ s.1.state.log →
        target = f.claimContract ∧ data = residualCallData keccak roundId := by
  have inv := Inv.run h hrun
  have hproposed : .propose id own ∈ tr := by
    rcases hissued with hmem | hmem
    · exact inv.issued _ hmem id own rfl
    · exact inv.issued _ hmem id own rfl
  obtain rfl := inv.own id own hproposed
  obtain ⟨hsound, hlog⟩ := inv.calls.state
  have hmem := hlog id id hproposed
  obtain ⟨-, htarget, hdata⟩ := (hsound.proposed _ _ _).mp hmem
  refine ⟨rfl, hmem, htarget, hdata, fun target data hcalled => ?_⟩
  obtain ⟨-, htarget', hdata'⟩ := (hsound.called _ _ _).mp hcalled
  exact ⟨htarget'.symm.trans htarget, hdata'.symm.trans hdata⟩

end Recovery

namespace Sample
open Recovery

def funder : Funder := ⟨[1, 2, 3, 4], 8, 4⟩

/-- The hash of the signature of `funderUnshieldResidual`. -/
def keccak : List UInt8 → List UInt8 := fun _ =>
  [155, 224, 54, 49, 38, 252, 56, 154, 153, 116, 97, 156, 132, 175, 136, 91, 117, 5, 215, 193, 83, 97,
    79, 1, 50, 97, 251, 0, 18, 23, 142, 128]

end Sample

open Sample

/-- Nobody else proposes: the funder confirms its own proposal. -/
theorem recovery_targets_own_sample : ∃ (tr : List Recovery.Label) (s : Calls × Recovery),
    Run (Recovery.UndisturbedStep funder (residualCallData keccak 3))
      (⟨⟨multisig, []⟩, []⟩, .idle) tr s ∧ .confirm 1 0 0 ∈ tr ∧
    (s.1.state.multisig.proposals 0).target = funder.claimContract := by
  have hnone : Run (Recovery.UndisturbedStep funder (residualCallData keccak 3))
    (⟨⟨multisig, []⟩, []⟩, .idle) [] (⟨⟨multisig, []⟩, []⟩, .idle) := .nil
  have hread := hnone.cons ⟨.read (by decide) (by decide), fun _ _ heq => by cases heq⟩
  have hproposed := hread.cons ⟨.propose rfl rfl, fun _ _ heq => by cases heq; rfl⟩
  have hconfirmed := hproposed.cons ⟨.confirm (by decide) rfl rfl, fun _ _ heq => by cases heq⟩
  exact ⟨_, _, hconfirmed, List.mem_cons_self,
    (Recovery.recovery_targets_own new_eq hconfirmed (.inl List.mem_cons_self)).2.2.1⟩

/-- Owner 5 proposes a call of its own between the read and the propose call. The funder's signers
confirm and execute that call, which nobody else has confirmed. -/
theorem recovery_of_other : ∃ (tr : List Recovery.Label) (s : Calls × Recovery),
    Run (Recovery.Step funder (residualCallData keccak 3))
      (⟨⟨multisig, []⟩, []⟩, .idle) tr s ∧ .confirm 1 0 1 ∈ tr ∧ .execute 1 0 1 ∈ tr ∧
    s.1.state.log = [.called 0 9 [1], .confirmed 0 4, .confirmed 0 3, .confirmed 0 2, .confirmed 0 1,
      .proposed 1 8 (residualCallData keccak 3), .proposed 0 9 [1]] := by
  have hnone : Run (Recovery.Step funder (residualCallData keccak 3))
    (⟨⟨multisig, []⟩, []⟩, .idle) [] (⟨⟨multisig, []⟩, []⟩, .idle) := .nil
  have hread := hnone.cons (.read (by decide) (by decide))
  have hother := hread.cons (.other (.act (@Ledger.Act.propose _ 5 9 [1] _ _ rfl)))
  have hproposed := hother.cons (.propose rfl rfl)
  have hfirst := hproposed.cons (.confirm (by decide) rfl rfl)
  have hsecond := hfirst.cons (.confirm (by decide) rfl rfl)
  have hthird := hsecond.cons (.confirm (by decide) rfl rfl)
  have hfourth := hthird.cons (.confirm (by decide) rfl rfl)
  have hexecuted := hfourth.cons (.execute rfl (.execute rfl))
  refine ⟨_, _, hexecuted, ?_, List.mem_cons_self, rfl⟩
  exact List.mem_cons_of_mem _ (List.mem_cons_of_mem _ (List.mem_cons_of_mem _
    (List.mem_cons_of_mem _ List.mem_cons_self)))

end Pocs.Rails
