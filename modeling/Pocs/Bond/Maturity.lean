import Pocs.Bond.Ledger

/-! # Redemption and maturity

A burn compares two of its arguments, and a swap the fourth words of its arrays, with the clock and with one. The proof
has a maturity date and a result of its own. -/

namespace Pocs.Bond

open Compliance (BnField Word)

variable {F : Type} [BnField F] {hash : List F → F} {tr : List (Step F)} {st : Step F} {w w' w₀ : World}

def Proof.maturity (proof : Proof F) : Nat := Scalar.toNat proof.inputMaturityDate

theorem Proof.maturity_eq {proof : Proof F} {note : Note F} (h : note ∈ proof.inputs) :
    Scalar.toNat note.maturityDate = proof.maturity := by
  rcases List.mem_cons.mp h with rfl | h
  · rfl
  · rw [List.mem_singleton.mp h]
    rfl

/-- A burn spends mature notes for notes without value, a swap spends notes that are not mature. -/
def Step.RespectsMaturity : Step F → Prop
  | .burn timestamp args _ _ => (∀ note ∈ args.proof.inputs, Scalar.toNat note.maturityDate ≤ timestamp) ∧
    ∀ note ∈ args.proof.outputs, note.value = 0
  | .atomicSwap timestamp _ proofA _ proofB _ =>
    ∀ note ∈ proofA.inputs ++ proofB.inputs, timestamp < Scalar.toNat note.maturityDate
  | _ => True

def NotLater (proof : Proof F) (publicInputs : List Word) : Prop :=
  ∀ date, publicInputs[3]? = some date → date ≤ proof.maturity

/-- The arguments that are compared bound the values of the proofs. -/
def Step.Bound : Step F → Prop
  | .burn _ args inputMaturityDate isRedeem =>
    args.proof.maturity ≤ inputMaturityDate ∧ (isRedeem = 1 → args.proof.isRedeem = true)
  | .atomicSwap _ _ proofA publicInputsA proofB publicInputsB =>
    NotLater proofA publicInputsA ∧ NotLater proofB publicInputsB
  | _ => True

/-- A call whose maturity date is bound to its proof. -/
def BoundTransition (hash : List F → F) (w : World) (st : Step F) (w' : World) : Prop :=
  Transition hash w st w' ∧ st.Bound

/-- The result of the circuit says that the outputs have no value. -/
theorem Proof.Proves.outputs_zero {proof : Proof F} {root n₀ n₁ c₀ c₁ : Word}
    (h : proof.Proves hash root n₀ n₁ c₀ c₁) : proof.isRedeem = true ↔ ∀ note ∈ proof.outputs, note.value = 0 := by
  rw [h.satisfied.isRedeem, decide_eq_true_iff, Proof.outputs, List.forall_mem_cons, List.forall_mem_singleton]
  rfl

theorem SwapSide.later {bond : PrivateBond} {timestamp : Nat} {proof : Proof F} {publicInputs : List Word}
    {nullifier commitment : Word} (h : SwapSide hash bond timestamp proof publicInputs nullifier commitment)
    (hdate : NotLater proof publicInputs) :
    ∀ note ∈ proof.inputs, timestamp < Scalar.toNat note.maturityDate := by
  obtain ⟨root, c₀, c₁, rfl, htime, -, -⟩ := h.words
  intro note hnote
  rw [Proof.maturity_eq hnote]
  exact htime.trans_le (hdate c₀ rfl)

theorem Transition.respectsMaturity (h : Transition hash w st w') (hbound : st.Bound) : st.RespectsMaturity := by
  cases h with
  | burn ok =>
    obtain ⟨htime, hredeem, hspent⟩ := burn_eq_ok.mp ok
    refine ⟨fun note hnote => ?_, hspent.proves.outputs_zero.mp (hbound.2 hredeem)⟩
    rw [Proof.maturity_eq hnote]
    exact hbound.1.trans htime
  | atomicSwap ok =>
    obtain ⟨_, _, _, _, hsideA, hsideB, -, -⟩ := (atomicSwap_ok ok).sides
    intro note hnote
    rcases List.mem_append.mp hnote with hnote | hnote
    · exact hsideA.later hbound.1 note hnote
    · exact hsideB.later hbound.2 note hnote
  | mint | mintBatch | transfer | reverted | tick => trivial

/-- In a run whose arguments bound the values of the proofs, every burn and every swap respects maturity. -/
theorem maturity_respected (hrun : Run (BoundTransition hash) w₀ tr w) : ∀ st ∈ tr, st.RespectsMaturity := by
  refine hrun.invariant (I := fun tr _ => ∀ st ∈ tr, st.RespectsMaturity) (fun st hst => absurd hst List.not_mem_nil) ?_
  intro tr w st w' _ hstep htr
  exact List.forall_mem_cons.mpr ⟨hstep.1.respectsMaturity hstep.2, htr⟩

namespace Sample

open Swap (Doubled)

variable {hash : List Doubled → Doubled} {value : UInt64}

/-- A burn with any two arguments that pass the checks. -/
theorem exists_burn {w : World} (h : Minted hash value w) (hvalue : value = 0 ∨ value = 1)
    (hne : Scalar.toNat (nullifier hash 0) ≠ Scalar.toNat (nullifier hash 1)) (inputMaturityDate : Word)
    (htime : inputMaturityDate ≤ w.timestamp) : ∃ w', Transition hash w
      (.burn w.timestamp (spendArgs hash value 1 (Scalar.toNat (nullifier hash 1))) inputMaturityDate 1) w' := by
  obtain ⟨bond, hspent⟩ := exists_spent h hvalue (.inr rfl) (BnField.ofNat_toNat _) hne
  exact ⟨_, .burn (burn_eq_ok.mpr ⟨htime, rfl, hspent⟩)⟩

end Sample

/-- Notes without value are burned when they are mature. -/
theorem maturity_respected_sample : ∃ w₀ w tr, Deployed w₀ ∧
    Run (BoundTransition Swap.doubledHash) w₀ tr w ∧ tr.length = 2 ∧ ∀ st ∈ tr, st.RespectsMaturity := by
  obtain ⟨w₀, w₁, hdeployed, hclock, hmint, hminted⟩ := @Sample.exists_minted Swap.doubledHash 0 5
  obtain ⟨w₂, hburn⟩ := Sample.exists_burn hminted (.inl rfl) Sample.nullifier_ne 5 hclock.ge
  have hmaturity : (Scalar.toNat (Scalar.ofNat 5 : Swap.Doubled)) = 5 := Scalar.toNat_ofNat (by decide)
  have hmint' : BoundTransition Swap.doubledHash w₀ _ w₁ := ⟨hmint.step, trivial⟩
  have hburn' : BoundTransition Swap.doubledHash w₁ _ w₂ := ⟨hburn, hmaturity.le, fun _ => rfl⟩
  have hrun := Run.cons (Run.cons .nil hmint') hburn'
  exact ⟨w₀, w₂, _, hdeployed, hrun, rfl, maturity_respected hrun⟩

/-- At time zero, notes of value one that mature at five are burned for a note of value two. -/
theorem burned_early : ∃ w₀ w tr st, Deployed w₀ ∧ Run (Transition Swap.doubledHash) w₀ (st :: tr) w ∧
    ¬ st.RespectsMaturity := by
  obtain ⟨w₀, w₁, hdeployed, hclock, hmint, hminted⟩ := @Sample.exists_minted Swap.doubledHash 1 0
  obtain ⟨w₂, hburn⟩ := Sample.exists_burn hminted (.inr rfl) Sample.nullifier_ne 0 hclock.ge
  refine ⟨w₀, w₂, _, _, hdeployed, .cons (.cons .nil hmint.step) hburn, fun h => ?_⟩
  have hearly := h.1 _ List.mem_cons_self
  have hmaturity : (Scalar.toNat (Scalar.ofNat 5 : Swap.Doubled)) = 5 := Scalar.toNat_ofNat (by decide)
  replace hearly : Scalar.toNat (Scalar.ofNat 5 : Swap.Doubled) ≤ w₁.timestamp := hearly
  rw [hmaturity, hclock] at hearly
  exact absurd hearly (by decide)

end Pocs.Bond
