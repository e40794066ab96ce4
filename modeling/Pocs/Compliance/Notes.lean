import Pocs.Compliance.System

/-! # The leaves of the commitment tree

Value notes and compliance notes are leaves of one tree and images of one hash. Every leaf of a run is
one or the other (`LeafInv`), and an opening of a leaf against a root the pool knows is an opening of
a note of its kind: a value note binds its owner where a compliance note binds its state
(`exists_minted`), and no token address is the tag of a compliance note (`exists_noted`). -/

namespace Pocs.Compliance

/-! ## The leaves of a run by kind -/

def PoolCall.minted : PoolCall → List Word
  | .deposit p => [p.commitment]
  | .transfer p => [p.commitmentOut0, p.commitmentOut1]
  | _ => []

def PoolCall.noted : PoolCall → List Word
  | .deposit p => [p.complianceCommitmentOut]
  | .transfer p => [p.complianceCommitmentOut]
  | .withdraw p => [p.complianceCommitmentOut]
  | _ => []

theorem PoolCall.leaves_eq (call : PoolCall) : call.leaves = call.minted ++ call.noted := by
  cases call <;> rfl

def Step.minted : Step → List Word
  | .pool _ call => call.minted
  | _ => []

def Step.noted : Step → List Word
  | .pool _ call => call.noted
  | _ => []

theorem Step.leaves_eq (st : Step) : st.leaves = st.minted ++ st.noted := by
  cases st with
  | pool _ call => exact call.leaves_eq
  | registry | reverted | tick | elsewhere => rfl

def minted (tr : List Step) : List Word := tr.flatMap Step.minted

def noted (tr : List Step) : List Word := tr.flatMap Step.noted

theorem mem_inserted {tr : List Step} {n : Word} : n ∈ inserted tr ↔ n ∈ minted tr ∨ n ∈ noted tr := by
  simp only [inserted, minted, noted, List.mem_flatMap, List.mem_reverse, Step.leaves_eq,
    List.mem_append, and_or_left, exists_or]

section
variable {F T τ : Type} [BnField F] {D : Deployment F T τ} {w w' : World F T τ} {tr : List Step}
  {sender : Address}

/-- A note of the pool's token. -/
def ValueLeaf (D : Deployment F T τ) (c : F) : Prop :=
  ∃ (amount : UInt64) (owner salt : F),
    c = noteCommitment D.hash (ofAddress D.tokenAddress) (ofU64 amount) owner salt

def ComplianceLeaf (D : Deployment F T τ) (c : F) : Prop :=
  ∃ (owner : F) (epoch seq : UInt64) (commitment : F) (flags : UInt64) (facts salt : F),
    c = complianceNote D.hash owner (stateHash D.hash epoch seq commitment flags facts) salt

structure LeafInv (D : Deployment F T τ) (tr : List Step) : Prop where
  minted : ∀ n ∈ minted tr, ValueLeaf D (Scalar.ofNat n)
  noted : ∀ n ∈ noted tr, ComplianceLeaf D (Scalar.ofNat n)

/-- A leaf that verifies against a known root is in the tree. -/
theorem mem_inserted_of_verify (H : Ideal D.hash) (hL : D.imt.Lawful (merkleHash D.hash))
    (inv : PoolInv D tr w) (leaf : LeafInv D tr) {r : Word} (hr : isKnownRoot D w r = true)
    {maxDepth : Nat} {p : MerklePath F maxDepth} {a b c d : F}
    (hverify : merkleVerify D.hash (D.hash [a, b, c, d]) (Scalar.ofNat r) p = .ok ()) :
    ∃ n ∈ inserted tr, Scalar.ofNat n = D.hash [a, b, c, d] := by
  have hnode : ∀ a b c d l r : F, D.hash [a, b, c, d] ≠ merkleHash D.hash l r := fun _ _ _ _ _ _ =>
    H.ne_of_length (by simp) (by simp) (by simp) (by simp) (by simp)
  have hleaves : ∀ y ∈ D.imt.leaves w.pool.tree, ∀ l r, y ≠ merkleHash D.hash l r := by
    intro y hy l r
    rw [inv.leaves] at hy
    obtain ⟨n, hn, rfl⟩ := List.mem_map.mp hy
    rcases mem_inserted.mp hn with hn | hn
    · obtain ⟨amount, owner, salt, hc⟩ := leaf.minted n hn
      rw [hc]
      exact hnode _ _ _ _ _ _
    · obtain ⟨owner, epoch, seq, commitment, flags, facts, salt, hc⟩ := leaf.noted n hn
      rw [hc]
      exact hnode _ _ _ _ _ _
  rcases inv.known hL hr with hzero | hspans
  · rw [hzero] at hverify
    exact absurd hverify (merkleVerify_zero H (by simp) (by simp))
  · have hmem := mem_of_merkleVerify H hleaves hverify hspans (hnode a b c d)
    rw [inv.leaves] at hmem
    exact List.mem_map.mp hmem

theorem cnTag_ne_ofAddress (a : Address) : (cnTag : F) ≠ ofAddress a := by
  intro h
  have hlt := toNat_ofAddress_lt (F := F) a
  rw [← h, cnTag, BnField.toNat_ofNat_of_canonical (BnField.canonical_of_lt (by decide))] at hlt
  exact absurd hlt (by decide)

section
variable (H : Ideal D.hash) (hL : D.imt.Lawful (merkleHash D.hash)) (inv : PoolInv D tr w) (leaf : LeafInv D tr)
  {r : Word} (hr : isKnownRoot D w r = true)
include H hL inv leaf hr

/-- An opened value note was minted, in the pool's token. -/
theorem exists_minted {maxDepth : Nat} {p : MerklePath F maxDepth} {token amount spendingKey salt : F}
    (hverify : merkleVerify D.hash (noteCommitment D.hash token amount (D.hash [spendingKey]) salt)
      (Scalar.ofNat r) p = .ok ()) : (∃ n ∈ minted tr, Scalar.ofNat n =
      noteCommitment D.hash token amount (D.hash [spendingKey]) salt) ∧
      token = ofAddress D.tokenAddress ∧ ∃ a, amount = ofU64 a := by
  obtain ⟨n, hn, he⟩ := mem_inserted_of_verify H hL inv leaf hr hverify
  rcases mem_inserted.mp hn with hn | hn
  · obtain ⟨a, owner, salt', hc⟩ := leaf.minted n hn
    obtain ⟨htoken, hamount, -⟩ := H.hash4_inj (he.symm.trans hc)
    exact ⟨⟨n, hn, he⟩, htoken, a, hamount⟩
  · -- the owner of the value note would be the state of the compliance note
    obtain ⟨owner, epoch, seq, commitment, flags, facts, salt', hc⟩ := leaf.noted n hn
    obtain ⟨-, -, howner, -⟩ := H.hash4_inj (he.symm.trans hc)
    exact absurd howner (H.ne_of_length (by simp) (by simp) (by simp) (by simp) (by simp))

theorem exists_noted {maxDepth : Nat} {p : MerklePath F maxDepth} {owner state salt : F}
    (hverify : merkleVerify D.hash (complianceNote D.hash owner state salt) (Scalar.ofNat r) p =
      .ok ()) : ∃ n ∈ noted tr, Scalar.ofNat n = complianceNote D.hash owner state salt := by
  obtain ⟨n, hn, he⟩ := mem_inserted_of_verify H hL inv leaf hr hverify
  rcases mem_inserted.mp hn with hn | hn
  · -- the token of the value note would be the tag of the compliance note
    obtain ⟨a, owner', salt', hc⟩ := leaf.minted n hn
    exact absurd (H.hash4_inj (he.symm.trans hc)).1 (cnTag_ne_ofAddress D.tokenAddress)
  · exact ⟨n, hn, he⟩

end

theorem ChainStep.complianceLeaf {tag : PolicyTag F} {inp : ComplianceInputs F} {tx : TxFacts F}
    {amounts : UInt64 × UInt64} (h : ChainStep D.hash tag inp tx amounts) :
    ComplianceLeaf D inp.complianceCommitmentOut := by
  obtain ⟨next, seqOut, -, -, hout⟩ := h.noted
  exact ⟨_, _, _, _, _, _, _, hout⟩

theorem PoolStep.leafInv (hV : D.Sound) (H : Ideal D.hash) (hL : D.imt.Lawful (merkleHash D.hash))
    (inv : PoolInv D tr w) (leaf : LeafInv D tr) {call : PoolCall} (h : PoolStep D sender w w' call) :
    (∀ n ∈ call.minted, ValueLeaf D (Scalar.ofNat n)) ∧
      ∀ n ∈ call.noted, ComplianceLeaf D (Scalar.ofNat n) := by
  cases h with
  | @deposit p accepted =>
    obtain ⟨verifier, hproof⟩ := accepted.proof
    obtain ⟨pub, wit, hinputs, hmain⟩ := hV.deposit hproof
    simp only [DepositParams.inputs, DepositPublic.toFields, List.map_cons, List.map_nil,
      List.cons.injEq, and_true] at hinputs
    obtain ⟨hcommitment, htoken, -, -, -, hout, -⟩ := hinputs
    obtain ⟨hnote, -, hrun⟩ := depositMain_ok hmain
    rw [accepted.token] at htoken
    simp only [PoolCall.minted, PoolCall.noted, List.mem_singleton, forall_eq, hcommitment, hout]
    exact ⟨⟨_, _, _, by rw [hnote, ← htoken]; rfl⟩, (complianceRun_chainStep hrun).complianceLeaf⟩
  | @transfer p accepted =>
    obtain ⟨verifier, hproof⟩ := accepted.proof
    obtain ⟨pub, wit, hinputs, hmain⟩ := hV.transfer hproof
    simp only [TransferParams.inputs, TransferPublic.toFields, List.map_cons, List.map_nil,
      List.cons.injEq, and_true] at hinputs
    obtain ⟨-, -, hout0, hout1, hroot, -, hout, -⟩ := hinputs
    obtain ⟨hok, -, -, -, hrun⟩ := transferMain_ok hmain
    have hincluded := hok.included0
    rw [← hroot] at hincluded
    obtain ⟨-, htoken, -⟩ := exists_minted H hL inv leaf accepted.root hincluded
    simp only [PoolCall.minted, PoolCall.noted, List.mem_cons, List.not_mem_nil, or_false,
      forall_eq_or_imp, forall_eq, hout0, hout1, hout]
    refine ⟨⟨⟨wit.amountOut0, wit.ownerOut0, wit.saltOut0, ?_⟩, wit.amountOut1, wit.ownerOut1,
      wit.saltOut1, ?_⟩, (complianceRun_chainStep hrun).complianceLeaf⟩
    · rw [hok.out0, hok.tokens.2.1, htoken]
    · rw [hok.out1, hok.tokens.2.2, htoken]
  | @withdraw p accepted =>
    obtain ⟨verifier, hproof⟩ := accepted.proof
    obtain ⟨pub, wit, hinputs, hmain⟩ := hV.withdraw hproof
    simp only [WithdrawParams.inputs, WithdrawPublic.toFields, List.map_cons, List.map_nil,
      List.cons.injEq, and_true] at hinputs
    obtain ⟨-, -, -, -, -, -, hout, -⟩ := hinputs
    obtain ⟨-, -, -, hrun⟩ := withdrawMain_ok hmain
    simp only [PoolCall.minted, PoolCall.noted, List.mem_singleton, forall_eq, hout,
      List.not_mem_nil, false_imp_iff, implies_true, true_and]
    exact (complianceRun_chainStep hrun).complianceLeaf
  | withdrawBlocked | claimBlocked => exact ⟨by simp [PoolCall.minted], by simp [PoolCall.noted]⟩
  | governed _ _ leaves =>
    rw [PoolCall.leaves_eq, List.append_eq_nil_iff] at leaves
    exact ⟨by simp [leaves.1], by simp [leaves.2]⟩

theorem Run.leafInv (hV : D.Sound) (H : Ideal D.hash) (hL : D.imt.Lawful (merkleHash D.hash))
    {w₀ : World F T τ} (h₀ : Deployed D w₀) (hrun : Run (Transition D) w₀ tr w) : LeafInv D tr := by
  refine hrun.invariant (I := fun tr _ => LeafInv D tr) ⟨by simp [minted], by simp [noted]⟩ ?_
  intro tr w st w' hrun hstep leaf
  have hcons : ∀ {n}, n ∈ st.minted ∨ n ∈ minted tr ↔ n ∈ minted (st :: tr) := by simp [minted]
  have hcons' : ∀ {n}, n ∈ st.noted ∨ n ∈ noted tr ↔ n ∈ noted (st :: tr) := by simp [noted]
  cases hstep with
  | pool _ ok =>
    obtain ⟨hm, hn⟩ := (PoolCall.run_step ok).leafInv hV H hL (Run.poolInv hL h₀ hrun) leaf
    refine ⟨fun n h => ?_, fun n h => ?_⟩
    · rcases hcons.mpr h with h | h
      · exact hm n h
      · exact leaf.minted n h
    · rcases hcons'.mpr h with h | h
      · exact hn n h
      · exact leaf.noted n h
  | registry | poolReverted | registryReverted | tick | elsewhere =>
    exact ⟨leaf.minted, leaf.noted⟩

end

end Pocs.Compliance
