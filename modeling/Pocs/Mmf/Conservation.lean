import Pocs.Mmf.Honest

/-! # Units are conserved and notes are spent once

Every accepted call keeps a `Ledger`: a deposit mints what it was paid for, a transfer mints what it
opened, and a withdrawal opens what it pays for. The nullifier of a note is the same on the owner and
the claim path, so a run opens a note in at most one slot of one call. -/

namespace Pocs.Mmf

open Compliance (BnField Word Address Ideal merkleHash ofAddress idealHash idealHash_ideal)

variable {F T τ : Type} [FeedField F] {D : Deployment F T τ} {w w' : World T τ} {tr : List Step}
  {sender : Address} {events : List PoolEvent} {call : PoolCall} {notes : List (Note F)}

/-! ## What the calls do to the notes -/

theorem DepositAccepted.ledger (hV : D.Sound) (H : Ideal D.hash)
    (hL : D.imt.Lawful (merkleHash D.hash)) (inv : PoolInv D tr w) (ledger : Ledger D w notes)
    {p : DepositParams} {m shares : Nat} (accepted : DepositAccepted D sender w w' p m shares) :
    ∃ minted, Ledger D w' (notes ++ minted) := by
  obtain ⟨wit, hmain, -⟩ := accepted.proved hV
  have ok := depositMain_ok hmain
  have hcommitment : Scalar.ofNat p.commitment =
      (depositNote D.toPrimitives (p.toPublic D w sender) wit).commitment D.toPrimitives :=
    ok.commitment
  refine ⟨[depositNote D.toPrimitives (p.toPublic D w sender) wit], ?_⟩
  refine ledger.step [] _ H hL inv accepted.admitted ⟨List.nodup_nil, by simp, ?_⟩ (by simp) ?_ ?_ ?_
  · simp [PoolCall.nullifiers]
  · simp [PoolCall.leaves, hcommitment]
  · simp [depositNote, DepositParams.toPublic]
  · simpa [depositNote, DepositParams.toPublic] using accepted.totalUnits

theorem TransferAccepted.consumes (H : Ideal D.hash) {p : TransferParams}
    (accepted : TransferAccepted D w w' p) {wit : TransferWitness F}
    (ok : TransferOk D.toPrimitives (p.toPublic D w) wit) : Consumes D (PoolCall.transfer p).nullifiers
      [wit.input D.toPrimitives 0, wit.input D.toPrimitives 1] := by
  obtain ⟨h0, h1⟩ := ok.nullifies
  refine ⟨?_, ?_, ?_⟩
  · -- equal inputs would have equal nullifiers
    have hnodup := accepted.admitted.nodup
    have hcanonical : ∀ n ∈ (PoolCall.transfer p).nullifiers, BnField.canonical F n = true :=
      fun n hn => accepted.admitted.canonical n (List.mem_append_left _ hn)
    have hne : wit.input D.toPrimitives 0 ≠ wit.input D.toPrimitives 1 := by
      intro he
      rw [he] at h0
      have hword : (Scalar.ofNat p.nullifier0 : F) = Scalar.ofNat p.nullifier1 := h0.unique H h1
      have heq : p.nullifier0 = p.nullifier1 := by
        rw [BnField.eq_toNat (hcanonical _ (by simp [PoolCall.nullifiers])) hword,
          BnField.toNat_ofNat_of_canonical (hcanonical _ (by simp [PoolCall.nullifiers]))]
      simp [PoolCall.nullifiers, heq] at hnodup
    simpa using hne
  · simp only [PoolCall.nullifiers, List.forall_mem_cons, List.not_mem_nil, false_imp_iff,
      implies_true, and_true]
    exact ⟨⟨_, List.mem_cons_self, h0⟩, _, by simp, h1⟩
  · simp only [PoolCall.nullifiers, List.forall_mem_cons, List.not_mem_nil, false_imp_iff,
      implies_true, and_true]
    exact ⟨⟨_, List.mem_cons_self, h0⟩, _, by simp, h1⟩

section
variable (hV : D.Sound) (H : Ideal D.hash) (hL : D.imt.Lawful (merkleHash D.hash))
  (inv : PoolInv D tr w)
include hV H hL inv

theorem TransferAccepted.ledger (ledger : Ledger D w notes) {p : TransferParams}
    (accepted : TransferAccepted D w w' p) : ∃ minted, Ledger D w' (notes ++ minted) := by
  obtain ⟨wit, hmain, -⟩ := accepted.proved hV
  have ok := transferMain_ok hmain
  have hmem0 := ledger.mem_of_verify H hL inv accepted.root ok.included0
  -- the inclusion of the first input is never skipped, so the private token is the pool's
  have htoken : wit.token = ofAddress D.tokenAddress := ledger.token _ hmem0
  refine ⟨[wit.outputs 0, wit.outputs 1], ?_⟩
  refine ledger.step _ _ H hL inv accepted.admitted (accepted.consumes H ok) ?_ ?_ ?_ ?_
  · simp only [List.forall_mem_cons, List.not_mem_nil, false_imp_iff, implies_true, and_true]
    refine ⟨fun _ => hmem0, fun hunits => ?_⟩
    exact ledger.mem_of_verify H hL inv accepted.root
      (ok.included1 fun hzero => hunits (congrArg UInt64.toNat hzero))
  · have hout0 : Scalar.ofNat p.commitmentOut0 = (wit.outputs 0).commitment D.toPrimitives := ok.out0
    have hout1 : Scalar.ofNat p.commitmentOut1 = (wit.outputs 1).commitment D.toPrimitives := ok.out1
    simp [PoolCall.leaves, hout0, hout1]
  · simp only [List.forall_mem_cons, List.not_mem_nil, false_imp_iff, implies_true, and_true]
    exact ⟨(ok.token 0).trans htoken, (ok.token 1).trans htoken⟩
  · have hconserved := ok.conserved
    simp only [List.map_cons, List.map_nil, List.sum_cons, List.sum_nil, TransferWitness.input,
      InputNote.note, accepted.totalUnits]
    omega

theorem WithdrawAccepted.ledger (ledger : Ledger D w notes) {p : WithdrawParams} {m shares : Nat}
    (accepted : WithdrawAccepted D w w' p m shares) : ∃ minted, Ledger D w' (notes ++ minted) := by
  obtain ⟨wit, hmain, -⟩ := accepted.proved hV
  have ok := withdrawMain_ok hmain
  have hmem := ledger.mem_of_verify H hL inv accepted.root ok.included
  have hnullifies : (withdrawNote D.toPrimitives (p.toPublic D w) wit).Nullifies D.toPrimitives
      (Scalar.ofNat p.nullifier) := ok.nullifies
  refine ⟨[], ?_⟩
  refine ledger.step [withdrawNote D.toPrimitives (p.toPublic D w) wit] _ H hL inv
    accepted.admitted ⟨List.nodup_singleton _, ?_, ?_⟩ ?_ ?_ (by simp) ?_
  · simpa [PoolCall.nullifiers] using hnullifies
  · simpa [PoolCall.nullifiers] using hnullifies
  · intro note hnote _
    exact List.mem_singleton.mp hnote ▸ hmem
  · rfl
  · have htotal := accepted.totalUnits
    have hunits : (withdrawNote D.toPrimitives (p.toPublic D w) wit).units = p.units := ok.units
    simp only [List.map_cons, List.map_nil, List.sum_cons, List.sum_nil, hunits]
    omega

theorem PoolStep.ledger (ledger : Ledger D w notes) (h : PoolStep D sender w w' events call) :
    ∃ minted, Ledger D w' (notes ++ minted) := by
  cases h with
  | deposit accepted | transfer accepted | withdraw accepted => exact accepted.ledger hV H hL inv ledger
  | governed governed =>
    refine ⟨[], ledger.step [] _ H hL inv governed.admitted
      ⟨List.nodup_nil, by simp, by simp⟩ (by simp) rfl (by simp) ?_⟩
    simp [governed.totalUnits]

end

/-- The notes depend on the pool only. -/
theorem Ledger.of_pool (ledger : Ledger D w notes) (hpool : w'.pool = w.pool) : Ledger D w' notes := by
  have hspent : Spent D w' = Spent D w := by
    funext note
    rw [Spent, Spent, hpool]
  obtain ⟨leaves, token, spent, units⟩ := ledger
  exact ⟨hpool ▸ leaves, token, hspent ▸ spent, by rw [hpool, hspent, units]⟩

theorem Run.ledger (hV : D.Sound) (H : Ideal D.hash) (hL : D.imt.Lawful (merkleHash D.hash))
    {w₀ : World T τ} (h₀ : Deployed D w₀) (hrun : Run (Transition D) w₀ tr w) : ∃ notes, Ledger D w notes := by
  refine hrun.invariant (I := fun _ w => ∃ notes, Ledger D w notes) ?_ ?_
  · obtain ⟨_, _, hnew⟩ := h₀.pool_new
    obtain ⟨-, htree, -, hnull, hunits, -⟩ := ShieldedPool.new_ok hnew
    refine ⟨[], ?_, by simp, fun note _ hspent => ?_, by simp [hunits]⟩
    · rw [htree, hL.leaves_empty, List.map_nil]
    · obtain ⟨n, -, hmarked⟩ := hspent
      rw [hnull] at hmarked
      cases hmarked
  · intro tr w st w' hrun hstep ⟨notes, ledger⟩
    cases hstep with
    | pool _ ok =>
      obtain ⟨minted, hledger⟩ :=
        (PoolCall.run_step ok).ledger hV H hL (Run.poolInv hL h₀ hrun) ledger
      exact ⟨_, hledger⟩
    | registry | poolReverted | registryReverted | tick | inflow =>
      exact ⟨notes, ledger.of_pool rfl⟩

/-- The calls of a run open a note in one slot of one call, on whichever path. -/
def OpenedOnce (D : Deployment F T τ) (tr : List Step) : Prop :=
  ∀ (i j slot slot' : Nat) (sender sender' : Address) (call call' : PoolCall)
    (events events' : List PoolEvent) (note note' : Note F),
    tr[i]? = some (.pool sender call events) → tr[j]? = some (.pool sender' call' events') →
    Opens D call slot note → Opens D call' slot' note' →
    note.commitment D.toPrimitives = note'.commitment D.toPrimitives → i = j ∧ slot = slot'

/-- A nullifier stands in one slot of one call of a run. -/
theorem PoolInv.slot_unique (inv : PoolInv D tr w) {i j slot slot' : Nat} {sender sender' : Address}
    {call call' : PoolCall} {events events' : List PoolEvent} {n : Word}
    (hi : tr[i]? = some (.pool sender call events))
    (hj : tr[j]? = some (.pool sender' call' events')) (hn : call.nullifiers[slot]? = some n)
    (hn' : call'.nullifiers[slot']? = some n) : i = j ∧ slot = slot' := by
  obtain ⟨hnodup, hdisjoint⟩ := List.nodup_flatMap.mp inv.marked_nodup
  have hmem : n ∈ (Step.pool sender call events).nullifiers := List.mem_of_getElem? hn
  have hmem' : n ∈ (Step.pool sender' call' events').nullifiers := List.mem_of_getElem? hn'
  have hij : i = j := by
    by_contra hne
    obtain ⟨hi', hgeti⟩ := List.getElem?_eq_some_iff.mp hi
    obtain ⟨hj', hgetj⟩ := List.getElem?_eq_some_iff.mp hj
    rw [List.pairwise_iff_getElem] at hdisjoint
    rcases Nat.lt_or_gt_of_ne hne with hlt | hlt
    · have hd := hdisjoint i j hi' hj' hlt
      rw [Function.onFun, hgeti, hgetj] at hd
      exact hd hmem hmem'
    · have hd := hdisjoint j i hj' hi' hlt
      rw [Function.onFun, hgeti, hgetj] at hd
      exact hd hmem' hmem
  subst hij
  obtain ⟨-, rfl, -⟩ := Step.pool.inj (Option.some.inj (hi.symm.trans hj))
  refine ⟨rfl, ?_⟩
  have hcall : call.nullifiers.Nodup := hnodup _ (List.mem_of_getElem? hi)
  obtain ⟨hs, hgets⟩ := List.getElem?_eq_some_iff.mp hn
  obtain ⟨hs', hgets'⟩ := List.getElem?_eq_some_iff.mp hn'
  exact (hcall.getElem_inj_iff).mp (hgets.trans hgets'.symm)

theorem PoolInv.openedOnce (inv : PoolInv D tr w) (H : Ideal D.hash) : OpenedOnce D tr := by
  intro i j slot slot' sender sender' call call' events events' note note' hi hj ho ho' hnote
  obtain rfl := Note.commitment_inj H hnote
  obtain ⟨n, hn, hword⟩ := ho.nullifies
  obtain ⟨n', hn', hword'⟩ := ho'.nullifies
  have hmarked : ∀ {k : Nat} {sender : Address} {call : PoolCall} {events : List PoolEvent}
      {slot : Nat} {n : Word}, tr[k]? = some (.pool sender call events) →
      call.nullifiers[slot]? = some n → n ∈ marked tr :=
    fun hk hn => List.mem_flatMap.mpr ⟨_, List.mem_of_getElem? hk, List.mem_of_getElem? hn⟩
  have hsame : n = n' := by
    rw [BnField.eq_toNat (inv.canonical n (List.mem_append_left _ (hmarked hi hn)))
      (hword.unique H hword'), BnField.toNat_ofNat_of_canonical
      (inv.canonical n' (List.mem_append_left _ (hmarked hj hn')))]
  exact inv.slot_unique hi hj hn (hsame ▸ hn')

/-- A note that stands for units: inserted by an earlier deposit or transfer in the pool's token, and
neither padding, nor a node of the tree, nor the hash of a lock, nor a leaf of the registry that the
pool never inserted. -/
structure Opened (D : Deployment F T τ) (tr : List Step) (w : World T τ) (note : Note F) : Prop where
  minted : ∃ n ∈ inserted tr, Scalar.ofNat n = note.commitment D.toPrimitives
  token : note.token = ofAddress D.tokenAddress
  not_padding : ∀ padding : Note F, padding.units = 0 →
    note.commitment D.toPrimitives ≠ padding.commitment D.toPrimitives
  not_node : ∀ l r, note.commitment D.toPrimitives ≠ merkleHash D.hash l r
  not_lock : ∀ terms, note.commitment D.toPrimitives ≠ lockValue D.toPrimitives terms
  not_attestation : ∀ leaf ∈ D.imt.leaves w.registry.attestationTree,
    leaf ∉ (inserted tr).map Scalar.ofNat → note.commitment D.toPrimitives ≠ leaf

theorem PoolStep.opened (H : Ideal D.hash) (hL : D.imt.Lawful (merkleHash D.hash))
    (inv : PoolInv D tr w) (ledger : Ledger D w notes) (h : PoolStep D sender w w' events call)
    {slot : Nat} {note : Note F} (ho : Opens D call slot note) (hunits : note.units ≠ 0) :
    Opened D tr w note := by
  obtain ⟨r, path, hr, hverify⟩ := h.included ho hunits
  have hmem := ledger.mem_of_verify H hL inv hr hverify
  have hleaf : note.commitment D.toPrimitives ∈ (inserted tr).map Scalar.ofNat := by
    rw [← inv.leaves, ledger.leaves]
    exact List.mem_map_of_mem hmem
  refine ⟨List.mem_map.mp hleaf, ledger.token note hmem, fun padding hpadding he => ?_,
    Note.commitment_ne_node H, Note.commitment_ne_lockValue H, fun leaf _ hnot he => ?_⟩
  · exact hunits (Note.commitment_inj H he ▸ hpadding)
  · exact hnot (he ▸ hleaf)

/-- Every note of the tree is of the pool's token, `totalUnits` is the sum of the units of the notes
whose nullifier is not recorded, the proof of an accepted call opens a note in each of its slots, no
note is opened twice, and what is opened with positive units is a note of the tree. -/
theorem units_conserved (hV : D.Sound) (H : Ideal D.hash) (hL : D.imt.Lawful (merkleHash D.hash))
    {w₀ : World T τ} (h₀ : Deployed D w₀) (hrun : Run (Transition D) w₀ tr w) :
    (∃ notes : List (Note F), D.imt.leaves w.pool.tree = notes.map (Note.commitment D.toPrimitives) ∧
      (∀ note ∈ notes, note.token = ofAddress D.tokenAddress) ∧
      w.pool.totalUnits = unspent (fun note => note.units.toNat) (Spent D w) notes) ∧ OpenedOnce D tr ∧
    ∀ sender call w' events, PoolCall.run D sender w call = .ok (w', events) →
      (∀ slot < call.nullifiers.length, ∃ note, Opens D call slot note) ∧
      ∀ slot note, Opens D call slot note → note.units ≠ 0 → Opened D tr w note := by
  have inv := Run.poolInv hL h₀ hrun
  obtain ⟨notes, ledger⟩ := Run.ledger hV H hL h₀ hrun
  refine ⟨⟨notes, ledger.leaves, ledger.token, ledger.units⟩, inv.openedOnce H,
    fun sender call w' events ok => ⟨fun slot hslot => ?_, fun slot note ho hunits => ?_⟩⟩
  · exact (PoolCall.run_step ok).exists_opens hV hslot
  · exact (PoolCall.run_step ok).opened H hL inv ledger ho hunits

open Sample

/-- A deposit and its withdrawal. -/
theorem units_conserved_sample : ∃ w₀ tr w, Deployed sample w₀ ∧ Run (Transition sample) w₀ tr w ∧
    (∃ p events, .pool agent (.deposit p) events ∈ tr) ∧
    (∃ p events, .pool agent (.withdraw p) events ∈ tr) ∧
    (∃ notes : List (Note Unbounded), sample.imt.leaves w.pool.tree =
        notes.map (Note.commitment sample.toPrimitives) ∧ w.pool.totalUnits =
      unspent (fun note => note.units.toNat) (Spent sample w) notes) ∧
    OpenedOnce sample tr := by
  obtain ⟨w₀, w, w₁, w₂, p, _, _, q, _, hdeployed, -, hrun, hdeposit, -, hwithdraw⟩ :=
    exists_run idealHash idealHash_ideal signs_all (show (1 : Address) ≠ 0 by decide)
  have hrun' := (hrun.cons hdeposit).cons
    (.pool (agent_ne _) (show PoolCall.run _ _ _ (.withdraw q) = _ from hwithdraw))
  obtain ⟨⟨notes, hleaves, -, hunits⟩, honce, -⟩ :=
    units_conserved (sound _) idealHash_ideal (lawful _) hdeployed hrun'
  exact ⟨w₀, _, w₂, hdeployed, hrun', ⟨p, _, List.mem_cons_of_mem _ List.mem_cons_self⟩,
    ⟨q, _, List.mem_cons_self⟩, ⟨notes, hleaves, hunits⟩, honce⟩

end Pocs.Mmf
