import Pocs.Compliance.Gated
import Pocs.Compliance.Honest

/-! # The velocity chain

Nothing on chain stores the chain of a key. Its position is marked by a velocity nullifier, its
predecessor is a leaf of the tree, and only position zero has no predecessor; so the gated operations
of a key in an epoch are the positions `0, 1, ..., k - 1` in the order of their acceptance, and the
note of each carries the policy's fold over the facts of all operations up to it
(`velocityChain_linear`). -/

namespace Pocs.Compliance

open GatedProof (chainStep compliance_epoch compliance_out compliance_seq compliance_spendingKey)

variable {F T τ : Type} [BnField F] {D : Deployment F T τ} {w w' : World F T τ} {tr : List Step}
  {sender : Address} {call : PoolCall} {g : GatedProof F} {gs chain : List (GatedProof F)}
  {sk : F} {epoch : UInt64}

/-- The operations of a key in an epoch, in their order. -/
def chainOf (gs : List (GatedProof F)) (sk : F) (epoch : UInt64) : List (GatedProof F) :=
  gs.filter fun g => g.spendingKey = sk ∧ g.epoch = epoch

/-- `policy::advance` folded from `policy::zero()` over the facts of the operations. -/
def accumulate (hash : List F → F) (chain : List (GatedProof F)) : Except String Policy.State :=
  (chain.map (GatedProof.tx hash)).foldlM Policy.advance Policy.zero

/-- The operations have the positions `0, 1, ..., k - 1`, and the note of each carries the fold over
the operations up to it with the flags of the last. -/
structure LinearChain (D : Deployment F T τ) (sk : F) (epoch : UInt64)
    (chain : List (GatedProof F)) : Prop where
  seqs : chain.map (fun g => g.seq.toNat) = List.range chain.length
  notes : ∀ i g, chain[i]? = some g → ∃ prev next seqOut, accumulate D.hash (chain.take i) = .ok prev ∧
    accumulate D.hash (chain.take (i + 1)) = .ok next ∧ seqOut.toNat = i + 1 ∧
    g.complianceCommitmentOut = chainNote D.hash D.policyTag (D.hash [sk]) epoch seqOut next
      (Policy.evaluate (g.tx D.hash) prev next) (g.tx D.hash) g.amounts
      (g.compliance D.hash).saltOut

theorem accumulate_append (hash : List F → F) (chain : List (GatedProof F)) (g : GatedProof F) :
    accumulate hash (chain ++ [g]) = accumulate hash chain >>= fun st => Policy.advance st (g.tx hash) := by
  simp [accumulate]

/-- The predecessor note determines the position and the accumulated state. -/
theorem cnIn_eq_chainNote (H : Ideal D.hash) {inp : ComplianceInputs F} {owner : F}
    {seq flags : UInt64} {st : Policy.State} {tx : TxFacts F} {amounts : UInt64 × UInt64} {salt : F}
    (h : inp.cnIn D.hash D.policyTag = chainNote D.hash D.policyTag owner epoch seq st flags tx amounts salt) :
    inp.ownerPubkey = owner ∧ inp.epochIn = epoch ∧ inp.seq = seq ∧ inp.prev = st := by
  obtain ⟨-, howner, hstate, -⟩ := H.hash4_inj h
  obtain ⟨hepoch, hseq, hcommit, -⟩ := H.hash5_inj hstate
  exact ⟨howner, ofU64_inj hepoch, ofU64_inj hseq, (stateCommit_inj H hcommit).2⟩

/-- A step extends the chain at its end: its position is new, and its predecessor, if it has one, is
in the chain. -/
theorem LinearChain.snoc (H : Ideal D.hash) (hchain : LinearChain D sk epoch chain)
    (step : ChainStep D.hash D.policyTag (g.compliance D.hash) (g.tx D.hash) g.amounts)
    (hkey : g.spendingKey = sk) (hepoch : g.epoch = epoch) (hfresh : ∀ g' ∈ chain, g'.seq ≠ g.seq)
    (hpred : g.seq ≠ 0 → ∃ g' ∈ chain,
      g'.complianceCommitmentOut = (g.compliance D.hash).cnIn D.hash D.policyTag) :
    LinearChain D sk epoch (chain ++ [g]) := by
  have hnew : ∀ i < chain.length, g.seq.toNat ≠ i := by
    intro i hi he
    have hmem : i ∈ chain.map fun g => g.seq.toNat := by
      rw [hchain.seqs]
      exact List.mem_range.mpr hi
    obtain ⟨g', hg', hseq⟩ := List.mem_map.mp hmem
    exact hfresh g' hg' (UInt64.toNat_inj.mp (hseq.trans he.symm))
  -- the position is the length of the chain, and the state is what the chain has accumulated
  have hlast : g.seq.toNat = chain.length ∧ accumulate D.hash chain = .ok (g.compliance D.hash).prev := by
    by_cases hzero : g.seq = 0
    · have hlen : chain.length = 0 := by
        by_contra hne
        exact hnew 0 (Nat.pos_of_ne_zero hne) (by rw [hzero]; rfl)
      have hprev := step.origin ((compliance_seq D.hash g).trans hzero)
      rw [List.length_eq_zero_iff] at hlen
      subst hlen
      exact ⟨by rw [hzero]; rfl, by rw [hprev]; rfl⟩
    · obtain ⟨g', hg', hout⟩ := hpred hzero
      obtain ⟨i, hi, hget⟩ := List.getElem_of_mem hg'
      obtain ⟨prev, next, seqOut, -, hnext, hseqOut, hnote⟩ :=
        hchain.notes i g' (List.getElem?_eq_some_iff.mpr ⟨hi, hget⟩)
      obtain ⟨-, -, hseq, hprev⟩ := cnIn_eq_chainNote H (hout.symm.trans hnote)
      rw [compliance_seq] at hseq
      rw [← hseq] at hseqOut
      have hlen : i + 1 = chain.length := by
        by_contra hne
        exact hnew (i + 1) (by omega) hseqOut
      rw [hlen, List.take_length] at hnext
      exact ⟨hseqOut.trans hlen, hprev ▸ hnext⟩
  obtain ⟨hseq, hprev⟩ := hlast
  refine ⟨?_, fun i g' hg' => ?_⟩
  · rw [List.map_append, hchain.seqs, List.length_append, List.length_singleton, List.range_succ,
      List.map_singleton, hseq]
  rcases Nat.lt_or_ge i chain.length with hi | hi
  · rw [List.getElem?_append_left hi] at hg'
    rw [List.take_append_of_le_length hi.le, List.take_append_of_le_length hi]
    exact hchain.notes i g' hg'
  · rw [List.getElem?_append_right hi] at hg'
    obtain rfl : i = chain.length := by
      have hidx := (List.getElem?_eq_some_iff.mp hg').1
      simp only [List.length_singleton] at hidx
      omega
    obtain rfl : g = g' := by simpa using hg'
    obtain ⟨next, seqOut, hnext, hadd, hout⟩ := step.noted
    refine ⟨(g.compliance D.hash).prev, next, seqOut, ?_, ?_, ?_, ?_⟩
    · rw [List.take_left]
      exact hprev
    · rw [List.take_of_length_le (by simp), accumulate_append, hprev]
      exact hnext
    · rw [toNat_of_u64Add hadd, compliance_seq, hseq]
      rfl
    · rw [← compliance_out D.hash, hout, step.owner, compliance_spendingKey, compliance_epoch, hkey, hepoch]

/-- In a run, an accepted step of a key and epoch extends their chain. -/
theorem PoolStep.linearChain (H : Ideal D.hash)
    (hL : D.imt.Lawful (merkleHash D.hash)) (inv : PoolInv D tr w) (leaf : LeafInv D tr)
    (h : PoolStep D sender w w' call) (hgs : Explains D tr gs)
    (ih : ∀ sk epoch, LinearChain D sk epoch (chainOf gs sk epoch)) (hg : Proves D call g) :
    LinearChain D g.spendingKey g.epoch (chainOf gs g.spendingKey g.epoch ++ [g]) := by
  have step := chainStep hg.main
  obtain ⟨p, vn, hp, hvn, -, hvnWord, -, -, hroot, -⟩ := hg.words
  refine (ih _ _).snoc H step rfl rfl (fun g' hg' hseq => ?_) (fun hne => ?_)
  · -- two operations at one position would mark one velocity nullifier twice
    simp only [chainOf, List.mem_filter, decide_eq_true_eq] at hg'
    obtain ⟨hmem, hkey, hepoch⟩ := hg'
    obtain ⟨vn', hvn', hvnWord'⟩ := hgs.mem_marked hmem
    have step' : ChainStep D.hash D.policyTag (g'.compliance D.hash) (g'.tx D.hash) g'.amounts := by
      obtain ⟨call', hcall'⟩ := hgs.exists_proves hmem
      exact chainStep hcall'.main
    have hsame : (g'.compliance D.hash).velocityNullifier = (g.compliance D.hash).velocityNullifier := by
      rw [step.nullifier, step'.nullifier]
      simp only [compliance_seq, compliance_epoch, compliance_spendingKey, hkey, hepoch, hseq]
    have heq : vn' = vn := by
      rw [BnField.eq_toNat (inv.canonical vn' (List.mem_append_left _ hvn')) hvnWord', hsame,
        ← BnField.eq_toNat (h.admitted.canonical vn (List.mem_append_left _ hvn)) hvnWord]
    have hspent := (inv.nullifiers vn').mpr hvn'
    rw [heq, h.admitted.fresh vn hvn] at hspent
    cases hspent
  · -- the predecessor is a compliance note of the tree, so the note of an earlier operation
    have hincluded := step.included (by rwa [compliance_seq])
    rw [← hroot] at hincluded
    obtain ⟨n, hn, hcn⟩ := exists_noted H hL inv leaf (h.gatedAccepted hp).root hincluded
    obtain ⟨g', hg', hout⟩ := hgs.mem_of_noted hn
    refine ⟨g', ?_, hout.symm.trans hcn⟩
    obtain ⟨call', hcall'⟩ := hgs.exists_proves hg'
    have step' := chainStep hcall'.main
    obtain ⟨next, seqOut, -, -, hnote⟩ := step'.noted
    rw [compliance_out, ← hout] at hnote
    obtain ⟨howner, hepochIn, -⟩ := cnIn_eq_chainNote H (hcn.symm.trans hnote)
    rw [step.owner, step'.owner, compliance_spendingKey, compliance_spendingKey] at howner
    rw [step.epochIn, compliance_epoch, compliance_epoch] at hepochIn
    simp only [chainOf, List.mem_filter, decide_eq_true_eq]
    exact ⟨hg', (H.hash1_inj howner).symm, hepochIn.symm⟩

/-- In every run the gated operations of a spending key in an epoch, whatever proofs are behind
them, have the positions `0, 1, ..., k - 1` in the order of their acceptance, and the note of each
carries the policy's fold over the operations up to it. -/
theorem velocityChain_linear (hV : D.Sound) (H : Ideal D.hash)
    (hL : D.imt.Lawful (merkleHash D.hash)) {w₀ : World F T τ} (h₀ : Deployed D w₀)
    (hrun : Run (Transition D) w₀ tr w) : (∃ gs, Explains D tr gs) ∧
      ∀ gs, Explains D tr gs → ∀ sk epoch, LinearChain D sk epoch (chainOf gs sk epoch) := by
  refine ⟨Run.exists_explains hV hrun, ?_⟩
  refine hrun.invariant (I := fun tr _ => ∀ gs, Explains D tr gs → ∀ sk epoch,
    LinearChain D sk epoch (chainOf gs sk epoch)) ?_ ?_
  · intro gs hgs sk epoch
    cases hgs
    exact ⟨rfl, fun i g hg => by simp [chainOf] at hg⟩
  · intro tr w st w' hrun hstep ih gs hgs
    cases hstep with
    | @pool sender call _ _ _ ok =>
      by_cases hcall : call.gated = none
      · exact ih gs ((explains_cons_of_none (Step.gated_pool_none hcall)).mp hgs)
      · obtain ⟨gs', g, rfl, hgs', hg⟩ := (explains_cons_of_some (Step.gated_pool hcall)).mp hgs
        have hext := (PoolCall.run_step ok).linearChain H hL (Run.poolInv hL h₀ hrun)
          (Run.leafInv hV H hL h₀ hrun) hgs' (ih gs' hgs') hg
        intro sk epoch
        by_cases hsame : g.spendingKey = sk ∧ g.epoch = epoch
        · obtain ⟨rfl, rfl⟩ := hsame
          simpa [chainOf, List.filter_append] using hext
        · have hskip := ih gs' hgs' sk epoch
          simpa [chainOf, List.filter_append, hsame] using hskip
    | registry | poolReverted | registryReverted | tick | elsewhere =>
      exact ih gs ((explains_cons_of_none rfl).mp hgs)

open Sample

/-- A deposit and a withdrawal of one key in one epoch. -/
theorem velocityChain_linear_two : ∃ w₀ tr w, Deployed (deployment idealHash) w₀ ∧
      Run (Transition (deployment idealHash)) w₀ tr w ∧ (gatedCalls tr).length = 2 ∧
      (∃ gs, Explains (deployment idealHash) tr gs) ∧
      ∀ gs, Explains (deployment idealHash) tr gs → ∀ sk epoch,
        LinearChain (deployment idealHash) sk epoch (chainOf gs sk epoch) := by
  have hone : (1 : Address) ≠ 0 := by decide
  have hne : depositor ≠ (deployment idealHash).address := by
    show (12 : Address) ≠ 10
    decide
  obtain ⟨w₀, w, dp, wp, w', events, h₀, -, hrun, hok, -, -⟩ :=
    exists_run idealHash idealHash_ideal hone
  have hrun' := hrun.cons (.pool hne hok)
  exact ⟨w₀, _, w', h₀, hrun', rfl,
    velocityChain_linear (sound idealHash) idealHash_ideal (lawful idealHash) h₀ hrun'⟩

end Pocs.Compliance
