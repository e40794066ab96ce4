import Pocs.Compliance.Notes

/-! # Gated calls and the proofs behind them

A gated call shows the chain its public inputs; `Proves` relates it to the inputs and witnesses its
circuit may have been satisfied by. `Explains` does so for the gated calls of a run, in the order in
which they were accepted. -/

namespace Pocs.Compliance

variable {F T τ : Type} [BnField F] {D : Deployment F T τ} {w w' : World F T τ} {tr : List Step}
  {sender : Address} {call : PoolCall} {g : GatedProof F}

/-- The parameters of a call that the policy gates. -/
def PoolCall.gated : PoolCall → Option GatedParams
  | .deposit p => some p.gated
  | .transfer p => some p.gated
  | .withdraw p => some p.gated
  | _ => none

/-- The circuit accepts the witness for the inputs of the call. -/
inductive Proves (D : Deployment F T τ) : PoolCall → GatedProof F → Prop where
  | deposit {p pub wit} (inputs : p.inputs.map Scalar.ofNat = DepositPublic.toFields pub)
    (main : depositMain D.hash D.policyTag pub wit = .ok ()) : Proves D (.deposit p) (.deposit pub wit)
  | transfer {p pub wit} (inputs : p.inputs.map Scalar.ofNat = TransferPublic.toFields pub)
    (main : transferMain D.hash D.policyTag pub wit = .ok ()) :
    Proves D (.transfer p) (.transfer pub wit)
  | withdraw {p pub wit} (inputs : p.inputs.map Scalar.ofNat = WithdrawPublic.toFields pub)
    (main : withdrawMain D.hash D.policyTag pub wit = .ok ()) :
    Proves D (.withdraw p) (.withdraw pub wit)

theorem Proves.main (h : Proves D call g) : g.main D.hash D.policyTag = .ok () := by
  cases h with
  | deposit _ main => exact main
  | transfer _ main => exact main
  | withdraw _ main => exact main

/-- The public inputs of the proof are the words of the call. -/
theorem Proves.words (h : Proves D call g) : ∃ p vn, call.gated = some p ∧ vn ∈ call.nullifiers ∧
    call.noted.map Scalar.ofNat = [g.complianceCommitmentOut] ∧
    Scalar.ofNat vn = (g.compliance D.hash).velocityNullifier ∧ Scalar.ofNat p.epoch = (ofU64 g.epoch : F) ∧
    Scalar.ofNat p.epochSeconds = (ofU64 (g.compliance D.hash).epochSeconds : F) ∧
    Scalar.ofNat p.commitmentRoot = (g.compliance D.hash).commitmentRoot ∧
    Scalar.ofNat p.attestationRoot = g.attestationInputs.1 ∧
    Scalar.ofNat p.attesterRevocationRoot = g.attestationInputs.2.1 ∧
    Scalar.ofNat p.minAcceptedGeneration = (ofU64 g.attestationInputs.2.2 : F) := by
  cases h with
  | @deposit p pub wit inputs _ =>
    simp only [DepositParams.inputs, DepositPublic.toFields, List.map_cons, List.map_nil,
      List.cons.injEq, and_true] at inputs
    obtain ⟨-, -, -, har, hvn, hout, hepoch, hseconds, -, hroot, hrr, hgen, -⟩ := inputs
    exact ⟨p.gated, p.velocityNullifier, rfl, by simp [PoolCall.nullifiers],
      congrArg (fun x => [x]) hout, hvn, hepoch, hseconds, hroot, har, hrr, hgen⟩
  | @transfer p pub wit inputs _ =>
    simp only [TransferParams.inputs, TransferPublic.toFields, List.map_cons, List.map_nil,
      List.cons.injEq, and_true] at inputs
    obtain ⟨-, -, -, -, hroot, hvn, hout, hepoch, hseconds, -, har, hrr, hgen, -⟩ := inputs
    exact ⟨p.gated, p.velocityNullifier, rfl, by simp [PoolCall.nullifiers],
      congrArg (fun x => [x]) hout, hvn, hepoch, hseconds, hroot, har, hrr, hgen⟩
  | @withdraw p pub wit inputs _ =>
    simp only [WithdrawParams.inputs, WithdrawPublic.toFields, List.map_cons, List.map_nil,
      List.cons.injEq, and_true] at inputs
    obtain ⟨-, -, -, -, hroot, hvn, hout, hepoch, hseconds, -, har, hrr, hgen, -⟩ := inputs
    exact ⟨p.gated, p.velocityNullifier, rfl, by simp [PoolCall.nullifiers],
      congrArg (fun x => [x]) hout, hvn, hepoch, hseconds, hroot, har, hrr, hgen⟩

/-- A gated call passed the checks of the gated entry points. -/
theorem PoolStep.gatedAccepted (h : PoolStep D sender w w' call) {p : GatedParams}
    (hp : call.gated = some p) : GatedAccepted D w p := by
  cases h with
  | deposit accepted | transfer accepted | withdraw accepted =>
    exact Option.some.inj hp ▸ accepted.toGatedAccepted
  | withdrawBlocked | claimBlocked => cases hp
  | governed _ nullifiers =>
    cases call with
    | deposit | transfer | withdraw => cases nullifiers
    | _ => cases hp

/-- An accepted gated call has a proof. -/
theorem PoolStep.exists_proves (hV : D.Sound) (h : PoolStep D sender w w' call)
    (hgated : call.gated ≠ none) : ∃ g, Proves D call g := by
  cases h with
  | deposit accepted =>
    obtain ⟨verifier, hproof⟩ := accepted.proof
    obtain ⟨pub, wit, hinputs, hmain⟩ := hV.deposit hproof
    exact ⟨_, .deposit hinputs hmain⟩
  | transfer accepted =>
    obtain ⟨verifier, hproof⟩ := accepted.proof
    obtain ⟨pub, wit, hinputs, hmain⟩ := hV.transfer hproof
    exact ⟨_, .transfer hinputs hmain⟩
  | withdraw accepted =>
    obtain ⟨verifier, hproof⟩ := accepted.proof
    obtain ⟨pub, wit, hinputs, hmain⟩ := hV.withdraw hproof
    exact ⟨_, .withdraw hinputs hmain⟩
  | withdrawBlocked | claimBlocked => exact absurd rfl hgated
  | governed _ nullifiers =>
    cases call with
    | deposit | transfer | withdraw => cases nullifiers
    | _ => exact absurd rfl hgated

/-! ## The gated calls of a run -/

def Step.gated : Step → Option PoolCall
  | .pool _ call => if call.gated ≠ none then some call else none
  | _ => none

def gatedCalls (tr : List Step) : List PoolCall := (tr.filterMap Step.gated).reverse

/-- Witnesses of the gated calls, in order. -/
def Explains (D : Deployment F T τ) (tr : List Step) (gs : List (GatedProof F)) : Prop :=
  List.Forall₂ (Proves D) (gatedCalls tr) gs

theorem explains_nil : Explains D [] [] := .nil

theorem explains_cons_of_none {st : Step} (hst : st.gated = none) {gs : List (GatedProof F)} :
    Explains D (st :: tr) gs ↔ Explains D tr gs := by
  rw [Explains, Explains, gatedCalls, gatedCalls, List.filterMap_cons_none hst]

theorem explains_cons_of_some {st : Step} (hst : st.gated = some call) {gs : List (GatedProof F)} :
    Explains D (st :: tr) gs ↔ ∃ gs' g, gs = gs' ++ [g] ∧ Explains D tr gs' ∧ Proves D call g := by
  rw [Explains, gatedCalls, List.filterMap_cons_some hst, List.reverse_cons]
  constructor
  · intro h
    have hrev := List.forall₂_reverse_iff.mpr h
    rw [List.reverse_append, List.reverse_singleton, List.singleton_append, List.reverse_reverse] at hrev
    generalize hgs : gs.reverse = rs at hrev
    cases hrev with
    | @cons _ g _ rest hg hrest =>
      refine ⟨rest.reverse, g, ?_, List.forall₂_reverse_iff.mpr hrest, hg⟩
      rw [← List.reverse_reverse gs, hgs, List.reverse_cons]
  · rintro ⟨gs', g, rfl, hgs', hg⟩
    exact List.rel_append hgs' (.cons hg .nil)

theorem Step.gated_pool (hcall : call.gated ≠ none) : (Step.pool sender call).gated = some call :=
  if_pos hcall

theorem Step.gated_pool_none (hcall : call.gated = none) : (Step.pool sender call).gated = none :=
  if_neg (not_not.mpr hcall)

theorem Run.exists_explains (hV : D.Sound) {w₀ : World F T τ} (hrun : Run (Transition D) w₀ tr w) :
    ∃ gs, Explains D tr gs := by
  refine hrun.invariant (I := fun tr _ => ∃ gs, Explains D tr gs) ⟨[], explains_nil⟩ ?_
  rintro tr w st w' - hstep ⟨gs, hgs⟩
  cases hstep with
  | @pool sender call _ _ _ ok =>
    by_cases hcall : call.gated = none
    · exact ⟨gs, (explains_cons_of_none (Step.gated_pool_none hcall)).mpr hgs⟩
    · obtain ⟨g, hg⟩ := (PoolCall.run_step ok).exists_proves hV hcall
      exact ⟨gs ++ [g], (explains_cons_of_some (Step.gated_pool hcall)).mpr ⟨gs, g, rfl, hgs, hg⟩⟩
  | registry | poolReverted | registryReverted | tick | elsewhere =>
    exact ⟨gs, (explains_cons_of_none rfl).mpr hgs⟩

theorem PoolCall.noted_of_gated_none (h : call.gated = none) : call.noted = [] := by
  cases call with
  | deposit | transfer | withdraw => cases h
  | _ => rfl

theorem Step.noted_of_gated_none {st : Step} (h : st.gated = none) : st.noted = [] := by
  cases st with
  | pool sender call =>
    apply PoolCall.noted_of_gated_none
    by_contra hne
    rw [Step.gated_pool hne] at h
    cases h
  | registry | reverted | tick | elsewhere => rfl

theorem Step.eq_pool_of_gated {st : Step} (h : st.gated = some call) : ∃ sender, st = .pool sender call := by
  cases st with
  | pool sender call' =>
    by_cases hcall : call'.gated = none
    · rw [Step.gated_pool_none hcall] at h
      cases h
    · rw [Step.gated_pool hcall] at h
      cases h
      exact ⟨sender, rfl⟩
  | registry | reverted | tick | elsewhere => cases h

theorem Explains.exists_proves {gs : List (GatedProof F)} (h : Explains D tr gs) (hg : g ∈ gs) :
    ∃ call, Proves D call g := by
  unfold Explains at h
  generalize gatedCalls tr = calls at h
  induction h with
  | nil => simp at hg
  | cons hcall _ ih =>
    rcases List.mem_cons.mp hg with rfl | hg
    · exact ⟨_, hcall⟩
    · exact ih hg

/-- The compliance notes of an explained run are those of its proofs. -/
theorem Explains.mem_of_noted {gs : List (GatedProof F)} (h : Explains D tr gs) {n : Word}
    (hn : n ∈ noted tr) : ∃ g ∈ gs, Scalar.ofNat n = g.complianceCommitmentOut := by
  induction tr generalizing gs with
  | nil => simp [noted] at hn
  | cons st tr ih =>
    have hn : n ∈ st.noted ++ noted tr := hn
    cases hst : st.gated with
    | none =>
      rw [Step.noted_of_gated_none hst, List.nil_append] at hn
      exact ih ((explains_cons_of_none hst).mp h) hn
    | some call =>
      obtain ⟨gs', g, rfl, hgs', hg⟩ := (explains_cons_of_some hst).mp h
      obtain ⟨sender, rfl⟩ := Step.eq_pool_of_gated hst
      rcases List.mem_append.mp hn with hn | hn
      · obtain ⟨_, _, -, -, hout, -⟩ := hg.words
        have hmem : Scalar.ofNat n ∈ call.noted.map (Scalar.ofNat (F := F)) :=
          List.mem_map_of_mem hn
        rw [hout, List.mem_singleton] at hmem
        exact ⟨g, by simp, hmem⟩
      · obtain ⟨g', hg', he⟩ := ih hgs' hn
        exact ⟨g', List.mem_append_left _ hg', he⟩

/-- The velocity nullifiers of the proofs are marked. -/
theorem Explains.mem_marked {gs : List (GatedProof F)} (h : Explains D tr gs) (hg : g ∈ gs) :
    ∃ vn ∈ marked tr, Scalar.ofNat vn = (g.compliance D.hash).velocityNullifier := by
  induction tr generalizing gs with
  | nil =>
    cases h
    simp at hg
  | cons st tr ih =>
    cases hst : st.gated with
    | none =>
      obtain ⟨vn, hvn, he⟩ := ih ((explains_cons_of_none hst).mp h) hg
      exact ⟨vn, List.mem_append_right _ hvn, he⟩
    | some call =>
      obtain ⟨gs', g', rfl, hgs', hg'⟩ := (explains_cons_of_some hst).mp h
      obtain ⟨sender, rfl⟩ := Step.eq_pool_of_gated hst
      rcases List.mem_append.mp hg with hg | hg
      · obtain ⟨vn, hvn, he⟩ := ih hgs' hg
        exact ⟨vn, List.mem_append_right _ hvn, he⟩
      · obtain rfl := List.mem_singleton.mp hg
        obtain ⟨_, vn, -, hvn, -, he, -⟩ := hg'.words
        exact ⟨vn, List.mem_append_left _ hvn, he⟩

end Pocs.Compliance
