import Pocs.Compliance.Honest
import Pocs.Compliance.Spends

/-! # Solvency

The balance of the pool is what it owes: the value of the notes of the tree that are not spent, and
the credits of blocked exits (`pool_solvent`). A withdrawal that names the pool itself as its recipient
spends a note and moves nothing; what such withdrawals leave behind is `selfPaid`. -/

namespace Pocs.Compliance

variable {F T τ : Type} [BnField F] {D : Deployment F T τ} {w w' : World F T τ} {tr : List Step}
  {sender : Address}

/-! ## The accounts -/

open Classical in
/-- The value of a leaf: the amount of a note of the pool's token, and nothing otherwise. -/
noncomputable def noteValue (D : Deployment F T τ) (c : F) : Nat :=
  if h : ValueLeaf D c then h.choose.toNat else 0

def Spent (D : Deployment F T τ) (w : World F T τ) (c : F) : Prop :=
  ∃ note : Note F, note.commitment D.hash = c ∧ w.pool.nullifiers (Scalar.toNat (note.nullifier D.hash)) = true

/-- What the unspent notes of the tree are worth. -/
noncomputable def unspentValue (D : Deployment F T τ) (w : World F T τ) : Nat :=
  unspent (noteValue D) (Spent D w) (D.imt.leaves w.pool.tree)

/-- What a step pays from the pool to the pool. -/
def Step.selfPaid (D : Deployment F T τ) : Step → Nat
  | .pool _ (.withdraw p) => if p.recipient = D.address then p.amount else 0
  | _ => 0

/-- What a run paid from the pool to the pool. -/
def selfPaid (D : Deployment F T τ) (tr : List Step) : Nat := (tr.map (Step.selfPaid D)).sum

theorem noteValue_commitment (H : Ideal D.hash) (amount : UInt64) (owner salt : F) :
    noteValue D (noteCommitment D.hash (ofAddress D.tokenAddress) (ofU64 amount) owner salt) =
      amount.toNat := by
  have h : ValueLeaf D (noteCommitment D.hash (ofAddress D.tokenAddress) (ofU64 amount) owner salt) :=
    ⟨amount, owner, salt, rfl⟩
  obtain ⟨_, _, hchoose⟩ := h.choose_spec
  rw [noteValue, dif_pos h, ← ofU64_inj (H.hash4_inj hchoose).2.1]

theorem noteValue_of_complianceLeaf (H : Ideal D.hash) {c : F} (hc : ComplianceLeaf D c) :
    noteValue D c = 0 := by
  obtain ⟨_, _, _, _, _, _, _, hc⟩ := hc
  refine dif_neg fun ⟨_, _, _, hvalue⟩ => ?_
  exact cnTag_ne_ofAddress D.tokenAddress (H.hash4_inj (hc.symm.trans hvalue)).1

theorem Note.amount_ne_zero (H : Ideal D.hash) {note : Note F}
    (h : noteValue D (note.commitment D.hash) ≠ 0) : note.amount ≠ 0 := by
  intro hzero
  apply h
  by_cases hvalue : ValueLeaf D (note.commitment D.hash)
  · obtain ⟨amount, owner, salt, he⟩ := hvalue
    have hamount := (H.hash4_inj he).2.1
    rw [hzero] at hamount
    rw [he, noteValue_commitment H, ← ofU64_inj ((ofU64_zero (F := F)).trans hamount)]
    rfl
  · exact dif_neg hvalue

/-! ## What a call does to the unspent notes -/

/-- The nullifiers of a call: of the notes it opens, and of velocity chains. -/
structure Consumes (D : Deployment F T τ) (nullifiers : List Word) (notes : List (Note F)) : Prop where
  nodup : notes.Nodup
  marked : ∀ note ∈ notes, ∃ n ∈ nullifiers, Scalar.ofNat n = note.nullifier D.hash
  only : ∀ n ∈ nullifiers, (∃ note ∈ notes, Scalar.ofNat n = note.nullifier D.hash) ∨
    ∃ a b c d, Scalar.ofNat n = D.hash [a, b, c, d]

section
variable {nullifiers leaves : List Word} {notes : List (Note F)}

theorem spent_iff (H : Ideal D.hash) (adm : Admitted D w w' nullifiers leaves)
    (hc : Consumes D nullifiers notes) (c : F) :
    Spent D w' c ↔ Spent D w c ∨ c ∈ notes.map (Note.commitment D.hash) := by
  constructor
  · intro ⟨note, hnote, hmarked⟩
    rcases (adm.marks _).mp hmarked with hnew | hold
    · right
      rcases hc.only _ hnew with ⟨note', hmem, hword⟩ | ⟨a, b, c, d, hword⟩
      · rw [BnField.ofNat_toNat] at hword
        obtain rfl := Note.nullifier_inj H hword
        exact hnote ▸ List.mem_map_of_mem hmem
      · rw [BnField.ofNat_toNat] at hword
        exact absurd hword (H.ne_of_length (by simp) (by simp) (by simp) (by simp) (by simp))
    · exact .inl ⟨note, hnote, hold⟩
  · rintro (⟨note, hnote, hold⟩ | hmap)
    · exact ⟨note, hnote, (adm.marks _).mpr (.inr hold)⟩
    · obtain ⟨note, hmem, rfl⟩ := List.mem_map.mp hmap
      obtain ⟨n, hn, hword⟩ := hc.marked note hmem
      refine ⟨note, rfl, (adm.marks _).mpr (.inl ?_)⟩
      rwa [← BnField.eq_toNat (adm.canonical n (List.mem_append_left _ hn)) hword]

theorem not_spent (H : Ideal D.hash) (adm : Admitted D w w' nullifiers leaves)
    (hc : Consumes D nullifiers notes) {note : Note F} (hmem : note ∈ notes) :
    ¬ Spent D w (note.commitment D.hash) := by
  intro ⟨note', hnote', hmarked⟩
  obtain rfl := Note.commitment_inj H hnote'
  obtain ⟨n, hn, hword⟩ := hc.marked note' hmem
  rw [← BnField.eq_toNat (adm.canonical n (List.mem_append_left _ hn)) hword, adm.fresh n hn] at hmarked
  cases hmarked

/-- Spent notes of positive value are in the tree. -/
def SpentInTree (D : Deployment F T τ) (w : World F T τ) : Prop :=
  ∀ c, noteValue D c ≠ 0 → Spent D w c → c ∈ D.imt.leaves w.pool.tree

theorem unspentValue_step (H : Ideal D.hash) (hL : D.imt.Lawful (merkleHash D.hash))
    (inv : PoolInv D tr w) (hspent : SpentInTree D w) (adm : Admitted D w w' nullifiers leaves)
    (hc : Consumes D nullifiers notes) (hopen : ∀ note ∈ notes, noteValue D (note.commitment D.hash) ≠ 0 →
      note.commitment D.hash ∈ D.imt.leaves w.pool.tree) :
    unspentValue D w' + (notes.map fun note => noteValue D (note.commitment D.hash)).sum =
      unspentValue D w + (leaves.map fun l => noteValue D (Scalar.ofNat l)).sum ∧ SpentInTree D w' := by
  have hleaves : D.imt.leaves w'.pool.tree =
      D.imt.leaves w.pool.tree ++ leaves.map Scalar.ofNat := hL.insertAll adm.tree
  have hnodup := hL.insertAll_nodup adm.tree inv.nodup
  have hold : ∀ c, noteValue D c ≠ 0 → Spent D w' c → c ∈ D.imt.leaves w.pool.tree := by
    intro c hvalue hspent'
    rcases (spent_iff H adm hc c).mp hspent' with h | h
    · exact hspent c hvalue h
    · obtain ⟨note, hmem, rfl⟩ := List.mem_map.mp h
      exact hopen note hmem hvalue
  refine ⟨?_, fun c hvalue h => hleaves ▸ List.mem_append_left _ (hold c hvalue h)⟩
  rw [hleaves] at hnodup
  -- what was minted is new, so it is not spent
  have hminted : unspent (noteValue D) (Spent D w') (leaves.map Scalar.ofNat) =
      ((leaves.map Scalar.ofNat).map (noteValue D)).sum := by
    refine unspent_of_fresh fun c hmem hvalue h => ?_
    exact (List.nodup_append.mp hnodup).2.2 c (hold c hvalue h) c hmem rfl
  have hspends := unspent_spendAll inv.nodup (hc.nodup.map fun _ _ h => Note.commitment_inj H h)
    (fun c hmem hvalue => by
      obtain ⟨note, hnote, rfl⟩ := List.mem_map.mp hmem
      exact ⟨hopen note hnote hvalue, not_spent H adm hc hnote⟩)
    (fun c _ => spent_iff H adm hc c)
  rw [unspentValue, unspentValue, hleaves, unspent_append, hminted, ← hspends]
  simp only [List.map_map, Function.comp_def]
  omega

end

/-! ## Value in and out of the notes -/

def PoolCall.enters : PoolCall → Nat
  | .deposit p => p.amount
  | _ => 0

def PoolCall.exits : PoolCall → Nat
  | .withdraw p => p.amount
  | .withdrawBlocked p => p.amount
  | _ => 0

variable {call : PoolCall} {slot : Nat}

theorem ChainStep.velocity {inp : ComplianceInputs F} {tx : TxFacts F} {amounts : UInt64 × UInt64}
    (h : ChainStep D.hash D.policyTag inp tx amounts) {n : Word} (hn : Scalar.ofNat n = inp.velocityNullifier) :
    ∃ a b c d, Scalar.ofNat n = D.hash [a, b, c, d] :=
  ⟨_, _, _, _, hn.trans h.nullifier⟩

/-- An opened note of positive value is in the tree. -/
theorem PoolStep.mem_leaves (H : Ideal D.hash) (hL : D.imt.Lawful (merkleHash D.hash))
    (inv : PoolInv D tr w) (leaf : LeafInv D tr) (h : PoolStep D sender w w' call) {note : Note F}
    (ho : Opens D call slot note) (hvalue : noteValue D (note.commitment D.hash) ≠ 0) :
    note.commitment D.hash ∈ D.imt.leaves w.pool.tree := by
  obtain ⟨n, hn, he⟩ := (h.opened H hL inv leaf ho (Note.amount_ne_zero H hvalue)).minted
  rw [inv.leaves, ← he]
  exact List.mem_map_of_mem (mem_inserted.mpr (.inl hn))

theorem DepositAccepted.unspentValue (hV : D.Sound) (H : Ideal D.hash)
    (hL : D.imt.Lawful (merkleHash D.hash)) (inv : PoolInv D tr w) (hspent : SpentInTree D w)
    {p : DepositParams} (accepted : DepositAccepted D sender w w' p) :
    unspentValue D w' = unspentValue D w + p.amount ∧ SpentInTree D w' := by
  obtain ⟨verifier, hproof⟩ := accepted.proof
  obtain ⟨pub, wit, hinputs, hmain⟩ := hV.deposit hproof
  have hamountMem : p.amount ∈ p.gated.inputs := by simp [DepositParams.gated, DepositParams.inputs]
  simp only [DepositParams.inputs, DepositPublic.toFields, List.map_cons, List.map_nil,
    List.cons.injEq, and_true] at hinputs
  obtain ⟨hcommitment, htoken, hamount, -, hvn, hout, -⟩ := hinputs
  obtain ⟨hnote, -, hrun⟩ := depositMain_ok hmain
  have step := complianceRun_chainStep hrun
  have hc : Consumes D (PoolCall.deposit p).nullifiers ([] : List (Note F)) := by
    refine ⟨List.nodup_nil, by simp, fun n hn => .inr ?_⟩
    obtain rfl := List.mem_singleton.mp hn
    exact step.velocity hvn
  obtain ⟨hsum, hspent'⟩ := unspentValue_step H hL inv hspent accepted.admitted hc (by simp)
  refine ⟨?_, hspent'⟩
  have hvalue : noteValue D (Scalar.ofNat p.commitment) = p.amount := by
    rw [accepted.token] at htoken
    rw [hcommitment, hnote, ← htoken, toNat_of_word (accepted.canonical _ hamountMem) hamount]
    exact noteValue_commitment H _ _ _
  have hzero : noteValue D (Scalar.ofNat p.complianceCommitmentOut) = 0 :=
    noteValue_of_complianceLeaf H (hout ▸ step.complianceLeaf)
  simpa [PoolCall.leaves, hvalue, hzero] using hsum

theorem TransferAccepted.unspentValue (sender : Address) (hV : D.Sound) (H : Ideal D.hash)
    (hL : D.imt.Lawful (merkleHash D.hash)) (inv : PoolInv D tr w) (leaf : LeafInv D tr)
    (hspent : SpentInTree D w) {p : TransferParams} (accepted : TransferAccepted D w w' p) :
    unspentValue D w' = unspentValue D w ∧ SpentInTree D w' := by
  obtain ⟨verifier, hproof⟩ := accepted.proof
  obtain ⟨pub, wit, hinputs, hmain⟩ := hV.transfer hproof
  have ho0 : Opens D (.transfer p) 0 wit.note0 := .transfer0 hinputs hmain
  have ho1 : Opens D (.transfer p) 1 wit.note1 := .transfer1 hinputs hmain
  simp only [TransferParams.inputs, TransferPublic.toFields, List.map_cons, List.map_nil,
    List.cons.injEq, and_true] at hinputs
  obtain ⟨hn0, hn1, hout0, hout1, hroot, hvn, hout, -⟩ := hinputs
  obtain ⟨hok, -, -, -, hrun⟩ := transferMain_ok hmain
  have step := complianceRun_chainStep hrun
  have hincluded := hok.included0
  rw [← hroot] at hincluded
  obtain ⟨-, htoken, -⟩ := exists_minted H hL inv leaf accepted.root hincluded
  have hnull0 := hn0.trans hok.nullifier0
  have hnull1 := hn1.trans hok.nullifier1
  have hc : Consumes D (PoolCall.transfer p).nullifiers [wit.note0, wit.note1] := by
    refine ⟨?_, ?_, ?_⟩
    · -- equal notes would have equal nullifiers
      have hne : p.nullifier0 ≠ p.nullifier1 := by
        have hnodup := accepted.admitted.nodup
        simp only [PoolCall.nullifiers, List.nodup_cons, List.mem_cons] at hnodup
        exact fun he => hnodup.1 (.inl he)
      have hcanonical : ∀ n ∈ (PoolCall.transfer p).nullifiers, BnField.canonical F n = true :=
        fun n hn => accepted.admitted.canonical n (List.mem_append_left _ hn)
      have h01 : wit.note0 ≠ wit.note1 := by
        intro he
        apply hne
        rw [BnField.eq_toNat (hcanonical _ (by simp [PoolCall.nullifiers])) hnull0,
          BnField.eq_toNat (hcanonical _ (by simp [PoolCall.nullifiers])) hnull1]
        exact congrArg (fun note => Scalar.toNat (note.nullifier D.hash)) he
      simpa using h01
    · simp only [PoolCall.nullifiers, List.forall_mem_cons, List.not_mem_nil, false_imp_iff,
        implies_true, and_true]
      exact ⟨⟨_, List.mem_cons_self, hnull0⟩, _, by simp, hnull1⟩
    · simp only [PoolCall.nullifiers, List.forall_mem_cons, List.not_mem_nil, false_imp_iff,
        implies_true, and_true]
      exact ⟨.inl ⟨_, List.mem_cons_self, hnull0⟩, .inl ⟨wit.note1, by simp, hnull1⟩,
        .inr (step.velocity hvn)⟩
  have hstep : PoolStep D sender w w' (.transfer p) := .transfer accepted
  obtain ⟨hsum, hspent'⟩ := unspentValue_step H hL inv hspent accepted.admitted hc (by
    simp only [List.forall_mem_cons, List.not_mem_nil, false_imp_iff, implies_true, and_true]
    exact ⟨hstep.mem_leaves H hL inv leaf ho0, hstep.mem_leaves H hL inv leaf ho1⟩)
  refine ⟨?_, hspent'⟩
  have hin0 : noteValue D (wit.note0.commitment D.hash) = wit.amountIn0.toNat := by
    rw [Note.commitment, TransferWitness.note0, htoken]
    exact noteValue_commitment H _ _ _
  have hin1 : noteValue D (wit.note1.commitment D.hash) = wit.amountIn1.toNat := by
    rw [Note.commitment, TransferWitness.note1, hok.tokens.1, htoken]
    exact noteValue_commitment H _ _ _
  have hval0 : noteValue D (Scalar.ofNat p.commitmentOut0) = wit.amountOut0.toNat := by
    rw [hout0, hok.out0, hok.tokens.2.1, htoken]
    exact noteValue_commitment H _ _ _
  have hval1 : noteValue D (Scalar.ofNat p.commitmentOut1) = wit.amountOut1.toNat := by
    rw [hout1, hok.out1, hok.tokens.2.2, htoken]
    exact noteValue_commitment H _ _ _
  have hzero : noteValue D (Scalar.ofNat p.complianceCommitmentOut) = 0 :=
    noteValue_of_complianceLeaf H (hout ▸ step.complianceLeaf)
  have hconserved := hok.conserved
  simp only [PoolCall.leaves, List.map_cons, List.map_nil, List.sum_cons, List.sum_nil, hin0, hin1,
    hval0, hval1, hzero] at hsum
  omega

theorem WithdrawAccepted.unspentValue (sender : Address) (hV : D.Sound) (H : Ideal D.hash)
    (hL : D.imt.Lawful (merkleHash D.hash)) (inv : PoolInv D tr w) (leaf : LeafInv D tr)
    (hspent : SpentInTree D w) {p : WithdrawParams} (accepted : WithdrawAccepted D w w' p) :
    unspentValue D w' + p.amount = unspentValue D w ∧ SpentInTree D w' := by
  obtain ⟨verifier, hproof⟩ := accepted.proof
  obtain ⟨pub, wit, hinputs, hmain⟩ := hV.withdraw hproof
  have ho : Opens D (.withdraw p) 0 _ := .withdraw hinputs hmain
  have hstep : PoolStep D sender w w' (.withdraw p) := .withdraw accepted
  have hamountMem : p.amount ∈ p.gated.inputs := by simp [WithdrawParams.gated, WithdrawParams.inputs]
  simp only [WithdrawParams.inputs, WithdrawPublic.toFields, List.map_cons, List.map_nil,
    List.cons.injEq, and_true] at hinputs
  obtain ⟨hn, htoken, hamount, -, -, hvn, hout, -⟩ := hinputs
  obtain ⟨-, hnull, -, hrun⟩ := withdrawMain_ok hmain
  have step := complianceRun_chainStep hrun
  have hc : Consumes D (PoolCall.withdraw p).nullifiers
      [(⟨pub.token, ofU64 pub.amount, wit.spendingKey, wit.salt⟩ : Note F)] := by
    refine ⟨List.nodup_singleton _, ?_, ?_⟩
    · simp only [PoolCall.nullifiers, List.forall_mem_cons, List.not_mem_nil, false_imp_iff,
        implies_true, and_true]
      exact ⟨_, List.mem_cons_self, hn.trans hnull⟩
    · simp only [PoolCall.nullifiers, List.forall_mem_cons, List.not_mem_nil, false_imp_iff,
        implies_true, and_true]
      exact ⟨.inl ⟨_, List.mem_cons_self, hn.trans hnull⟩, .inr (step.velocity hvn)⟩
  obtain ⟨hsum, hspent'⟩ := unspentValue_step H hL inv hspent accepted.admitted hc (by
    simp only [List.forall_mem_cons, List.not_mem_nil, false_imp_iff, implies_true, and_true]
    exact hstep.mem_leaves H hL inv leaf ho)
  refine ⟨?_, hspent'⟩
  rw [accepted.token] at htoken
  have hvalue : noteValue D (Note.commitment D.hash
      ⟨pub.token, ofU64 pub.amount, wit.spendingKey, wit.salt⟩) = p.amount := by
    rw [Note.commitment, ← htoken, toNat_of_word (accepted.canonical _ hamountMem) hamount]
    exact noteValue_commitment H _ _ _
  have hzero : noteValue D (Scalar.ofNat p.complianceCommitmentOut) = 0 :=
    noteValue_of_complianceLeaf H (hout ▸ step.complianceLeaf)
  simpa [PoolCall.leaves, hvalue, hzero] using hsum

theorem WithdrawBlockedAccepted.unspentValue (sender : Address) (hV : D.Sound) (H : Ideal D.hash)
    (hL : D.imt.Lawful (merkleHash D.hash)) (inv : PoolInv D tr w) (leaf : LeafInv D tr)
    (hspent : SpentInTree D w) {p : WithdrawBlockedParams} (accepted : WithdrawBlockedAccepted D w w' p) :
    unspentValue D w' + p.amount = unspentValue D w ∧ SpentInTree D w' := by
  obtain ⟨verifier, hproof⟩ := accepted.proof
  obtain ⟨pub, wit, hinputs, hmain⟩ := hV.ungated hproof
  have ho : Opens D (.withdrawBlocked p) 0 _ := .withdrawBlocked hinputs hmain
  have hstep : PoolStep D sender w w' (.withdrawBlocked p) := .withdrawBlocked accepted
  have hamountMem : p.amount ∈ p.inputs := by simp [WithdrawBlockedParams.inputs]
  simp only [WithdrawBlockedParams.inputs, UngatedWithdrawPublic.toFields, List.map_cons,
    List.map_nil, List.cons.injEq, and_true] at hinputs
  obtain ⟨hn, -, hamount, -, hroot⟩ := hinputs
  obtain ⟨hincluded, hnull⟩ := withdrawUngatedMain_ok hmain
  rw [← hroot] at hincluded
  -- the circuit does not range check the amount; the note it opens was minted with a machine integer
  obtain ⟨-, htoken, a, ha⟩ := exists_minted H hL inv leaf accepted.root hincluded
  have hc : Consumes D [p.nullifier] [(⟨pub.token, pub.amount, wit.spendingKey, wit.salt⟩ : Note F)] := by
    refine ⟨List.nodup_singleton _, ?_, ?_⟩
    · simp only [List.forall_mem_cons, List.not_mem_nil, false_imp_iff, implies_true, and_true]
      exact ⟨_, List.mem_cons_self, hn.trans hnull⟩
    · simp only [List.forall_mem_cons, List.not_mem_nil, false_imp_iff, implies_true, and_true]
      exact .inl ⟨_, List.mem_cons_self, hn.trans hnull⟩
  obtain ⟨hsum, hspent'⟩ := unspentValue_step H hL inv hspent accepted.admitted hc (by
    simp only [List.forall_mem_cons, List.not_mem_nil, false_imp_iff, implies_true, and_true]
    exact hstep.mem_leaves H hL inv leaf ho)
  refine ⟨?_, hspent'⟩
  have hvalue : noteValue D (Note.commitment D.hash
      ⟨pub.token, pub.amount, wit.spendingKey, wit.salt⟩) = p.amount := by
    rw [Note.commitment, htoken, ha, toNat_of_word (accepted.canonical _ hamountMem) (hamount.trans ha)]
    exact noteValue_commitment H _ _ _
  simpa [hvalue] using hsum

/-- A call that neither spends nor mints. -/
theorem unspentValue_idle (H : Ideal D.hash) (hL : D.imt.Lawful (merkleHash D.hash))
    (inv : PoolInv D tr w) (hspent : SpentInTree D w) (adm : Admitted D w w' [] []) :
    unspentValue D w' = unspentValue D w ∧ SpentInTree D w' := by
  have hc : Consumes D [] ([] : List (Note F)) := ⟨List.nodup_nil, by simp, by simp⟩
  obtain ⟨hsum, hspent'⟩ := unspentValue_step H hL inv hspent adm hc (by simp)
  exact ⟨by simpa using hsum, hspent'⟩

theorem PoolStep.unspentValue (hV : D.Sound) (H : Ideal D.hash)
    (hL : D.imt.Lawful (merkleHash D.hash)) (inv : PoolInv D tr w) (leaf : LeafInv D tr)
    (hspent : SpentInTree D w) (h : PoolStep D sender w w' call) :
    unspentValue D w' + call.exits = unspentValue D w + call.enters ∧ SpentInTree D w' := by
  cases h with
  | deposit accepted => exact accepted.unspentValue hV H hL inv hspent
  | transfer accepted | withdraw accepted | withdrawBlocked accepted =>
    exact accepted.unspentValue sender hV H hL inv leaf hspent
  | claimBlocked accepted => exact unspentValue_idle H hL inv hspent accepted.admitted
  | governed governed nullifiers leaves =>
    have hidle : call.exits = 0 ∧ call.enters = 0 := by
      cases call with
      | deposit | withdraw | withdrawBlocked => cases nullifiers
      | _ => exact ⟨rfl, rfl⟩
    rw [hidle.1, hidle.2]
    exact unspentValue_idle H hL inv hspent (.frame governed.pool.tree governed.pool.validRoots
      governed.pool.nullifiers governed.registry governed.timestamp)

/-- What a call does to the balance and to the credits. -/
theorem PoolStep.paid (hT : D.token.Exact) (hfin : w.pool.blockedBalance.support.Finite)
    (hne : sender ≠ D.address) (h : PoolStep D sender w w' call) :
    D.token.balanceOf w'.token D.address + total w.pool.blockedBalance + call.exits =
        D.token.balanceOf w.token D.address + total w'.pool.blockedBalance + call.enters +
          (Step.pool sender call).selfPaid D ∧ w'.pool.blockedBalance.support.Finite := by
  have hupdate : ∀ {n : Word} {v : Nat},
      (Function.update w.pool.blockedBalance n v).support.Finite := fun {n v} =>
    (hfin.insert n).subset fun m hm => by
      rcases eq_or_ne m n with rfl | hmn
      · exact .inl rfl
      · rw [Function.mem_support, Function.update_of_ne hmn] at hm
        exact .inr hm
  cases h with
  | @deposit p accepted =>
    obtain ⟨-, hbalance⟩ := hT.transferFrom accepted.paid
    rw [hbalance, accepted.blocked, moved_dst hne]
    refine ⟨?_, hfin⟩
    simp only [PoolCall.exits, PoolCall.enters, Step.selfPaid]
    omega
  | @transfer p accepted =>
    rw [accepted.blocked, accepted.paid]
    exact ⟨rfl, hfin⟩
  | @withdraw p accepted =>
    obtain ⟨hle, hbalance⟩ := hT.transfer accepted.paid
    rw [hbalance, accepted.blocked]
    refine ⟨?_, hfin⟩
    simp only [PoolCall.exits, PoolCall.enters, Step.selfPaid]
    split
    · next hself =>
      rw [hself, moved, if_pos rfl]
      omega
    · next hother =>
      rw [moved_src (Ne.symm hother)]
      omega
  | @withdrawBlocked p accepted =>
    rw [accepted.blocked, accepted.paid]
    refine ⟨?_, hupdate⟩
    have htotal := total_update hfin p.nullifier (w.pool.blockedBalance p.nullifier + p.amount)
    simp only [PoolCall.exits, PoolCall.enters, Step.selfPaid]
    omega
  | @claimBlocked nullifier accepted =>
    obtain ⟨hle, hbalance⟩ := hT.transfer accepted.paid
    rw [hbalance, accepted.blocked, moved_src hne.symm]
    refine ⟨?_, hupdate⟩
    have htotal := total_update hfin nullifier 0
    simp only [PoolCall.exits, PoolCall.enters, Step.selfPaid]
    omega
  | governed governed nullifiers leaves =>
    rw [governed.pool.blockedBalance, governed.token]
    refine ⟨?_, hfin⟩
    cases call with
    | deposit | withdraw | withdrawBlocked => cases nullifiers
    | _ => rfl

/-! ## Runs -/

/-- The balance is what the pool held at first, what it owes, and what it paid to itself. -/
structure SolvencyInv (D : Deployment F T τ) (initial : Nat) (tr : List Step) (w : World F T τ) : Prop where
  balance : D.token.balanceOf w.token D.address =
    initial + unspentValue D w + total w.pool.blockedBalance + selfPaid D tr
  spent : SpentInTree D w
  finite : w.pool.blockedBalance.support.Finite

theorem SolvencyInv.idle {initial : Nat} {st : Step} (inv : SolvencyInv D initial tr w)
    (hpool : w'.pool = w.pool) (hst : st.selfPaid D = 0) (hbalance :
      D.token.balanceOf w'.token D.address = D.token.balanceOf w.token D.address) :
    SolvencyInv D initial (st :: tr) w' := by
  obtain ⟨balance, spent, finite⟩ := inv
  have hsame : Spent D w' = Spent D w := by
    funext c
    rw [Spent, Spent, hpool]
  refine ⟨?_, ?_, hpool ▸ finite⟩
  · rw [hbalance, balance, selfPaid, selfPaid, List.map_cons, List.sum_cons, hst, Nat.zero_add,
      unspentValue, unspentValue, hsame, hpool]
  · intro c hvalue hspent
    rw [hpool]
    exact spent c hvalue (hsame ▸ hspent)

theorem Run.solvencyInv (hV : D.Sound) (H : Ideal D.hash) (hL : D.imt.Lawful (merkleHash D.hash))
    (hT : D.token.Exact) {w₀ : World F T τ} (h₀ : Deployed D w₀) (hrun : Run (Transition D) w₀ tr w) :
    SolvencyInv D (D.token.balanceOf w₀.token D.address) tr w := by
  refine hrun.invariant (I := SolvencyInv D (D.token.balanceOf w₀.token D.address)) ?_ ?_
  · obtain ⟨htree, -, hnullifiers, hblocked⟩ := h₀.fresh
    refine ⟨?_, ?_, ?_⟩
    · rw [unspentValue, htree, hL.leaves_empty, hblocked, total_zero]
      rfl
    · rintro c - ⟨note, -, hmarked⟩
      rw [hnullifiers] at hmarked
      cases hmarked
    · rw [hblocked]
      exact Set.finite_empty.subset fun n hn => hn rfl
  · intro tr w st w' hrun hstep inv
    cases hstep with
    | @pool sender call _ _ sender_ne ok =>
      have hstep := PoolCall.run_step ok
      obtain ⟨hvalue, hspent⟩ := hstep.unspentValue hV H hL (Run.poolInv hL h₀ hrun)
        (Run.leafInv hV H hL h₀ hrun) inv.spent
      obtain ⟨hpaid, hfinite⟩ := hstep.paid hT inv.finite sender_ne
      refine ⟨?_, hspent, hfinite⟩
      have hbalance := inv.balance
      rw [selfPaid, List.map_cons, List.sum_cons, ← selfPaid]
      omega
    | registry | poolReverted | registryReverted | tick => exact inv.idle rfl rfl rfl
    | elsewhere balance => exact inv.idle rfl rfl balance

/-- In every run the balance of the pool is what it held at deployment, the unspent value notes, the
credits of blocked exits and what it paid to itself; a note is opened in at most one slot of one call;
and an accepted call opens in each of its slots a note, which, if its amount is positive, is a value
note that an earlier call minted. -/
theorem pool_solvent (hV : D.Sound) (H : Ideal D.hash) (hL : D.imt.Lawful (merkleHash D.hash))
    (hT : D.token.Exact) {w₀ : World F T τ} (h₀ : Deployed D w₀) (hrun : Run (Transition D) w₀ tr w) :
    D.token.balanceOf w.token D.address = D.token.balanceOf w₀.token D.address +
        unspentValue D w + total w.pool.blockedBalance + selfPaid D tr ∧ OpenedOnce D tr ∧
      ∀ sender call w' events, PoolCall.run D sender w call = .ok (w', events) →
        (∀ slot < call.spends, ∃ note, Opens D call slot note) ∧
          ∀ slot note, Opens D call slot note → note.amount ≠ 0 → Opened D tr note := by
  have inv := Run.poolInv hL h₀ hrun
  refine ⟨(Run.solvencyInv hV H hL hT h₀ hrun).balance, inv.openedOnce H, ?_⟩
  intro sender call w' events hok
  have hstep := PoolCall.run_step hok
  exact ⟨fun slot hslot => hstep.exists_opens hV hslot, fun slot note ho hamount =>
    hstep.opened H hL inv (Run.leafInv hV H hL h₀ hrun) ho hamount⟩

open Sample

/-- A deposit and a withdrawal to an account. -/
theorem pool_solvent_withdraw : ∃ w₀ tr w, Deployed (deployment idealHash) w₀ ∧
      Run (Transition (deployment idealHash)) w₀ tr w ∧ (marked tr).length = 3 ∧
      w.token (deployment idealHash).address = w₀.token (deployment idealHash).address +
        unspentValue (deployment idealHash) w + total w.pool.blockedBalance +
        selfPaid (deployment idealHash) tr ∧ OpenedOnce (deployment idealHash) tr := by
  have hone : (1 : Address) ≠ 0 := by decide
  have hne : depositor ≠ (deployment idealHash).address := by
    show (12 : Address) ≠ 10
    decide
  obtain ⟨w₀, w, dp, wp, w', events, h₀, -, hrun, hok, -, -⟩ :=
    exists_run idealHash idealHash_ideal hone
  have hrun' := hrun.cons (.pool hne hok)
  obtain ⟨hbalance, honce, -⟩ := pool_solvent (sound idealHash) idealHash_ideal (lawful idealHash)
    (ledger_exact Address) h₀ hrun'
  exact ⟨w₀, _, w', h₀, hrun', rfl, hbalance, honce⟩

/-- A withdrawal to the pool itself: the note is spent, and its value stays. -/
theorem balance_ne_of_selfPaid : ¬ ∀ w₀ tr w, Deployed (deployment idealHash) w₀ →
      w₀.token (deployment idealHash).address = 0 →
      Run (Transition (deployment idealHash)) w₀ tr w → w.token (deployment idealHash).address =
        unspentValue (deployment idealHash) w + total w.pool.blockedBalance := by
  intro h
  have hself : (deployment idealHash).address ≠ 0 := by
    show (10 : Address) ≠ 0
    decide
  have hne : depositor ≠ (deployment idealHash).address := by
    show (12 : Address) ≠ 10
    decide
  obtain ⟨w₀, w, dp, wp, w', events, h₀, hzero, hrun, hok, hrecipient, hamount⟩ :=
    exists_run idealHash idealHash_ideal hself
  have hrun' := hrun.cons (.pool hne hok)
  have hexact := (Run.solvencyInv (sound idealHash) idealHash_ideal (lawful idealHash)
    (ledger_exact Address) h₀ hrun').balance
  have hclaim := h w₀ _ w' h₀ hzero hrun'
  have hpaid : selfPaid (deployment idealHash) (.pool depositor (.withdraw wp) ::
      .pool depositor (.deposit dp) :: registrySteps idealHash) = 100 := by
    simp [selfPaid, Step.selfPaid, registrySteps, hrecipient, hamount]
  rw [hpaid] at hexact
  have hexcess : w'.token (deployment idealHash).address = w₀.token (deployment idealHash).address +
        unspentValue (deployment idealHash) w' + total w'.pool.blockedBalance + 100 := hexact
  omega

end Pocs.Compliance
