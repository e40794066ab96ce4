import Pocs.Lib.RootRing
import Pocs.Compliance.Honest

/-! # The windows of historical roots

The pool records the root after each operation that inserts leaves, the registry the root before each
batch that starts from a nonempty tree. Where the roots of a run are distinct and nonzero, the roots
each of them knows are the current one and the last `maxHistoricalRoots` recorded. -/

namespace Pocs.Compliance

variable {F T τ : Type} [BnField F] {D : Deployment F T τ} {w w' : World F T τ} {sender : Address}

/-- Nonempty trees have nonzero roots, and trees with different leaves different ones. -/
structure DistinctRoots (L : LeanImt F T) (trees : List T) : Prop where
  ne_zero : ∀ t ∈ trees, L.leaves t ≠ [] → L.root t ≠ 0
  ne : ∀ t ∈ trees, ∀ t' ∈ trees, L.leaves t ≠ L.leaves t' → L.root t ≠ L.root t'

namespace DistinctRoots
variable {L : LeanImt F T} {trees : List T} {t t' : T}

theorem word_ne_zero (h : DistinctRoots L trees) (ht : t ∈ trees) (hne : L.leaves t ≠ []) :
    Scalar.toNat (L.root t) ≠ 0 := fun hzero =>
  h.ne_zero t ht hne (Scalar.toNat_inj (hzero.trans Scalar.toNat_zero.symm))

theorem word_ne_zero_iff {node : F → F → F} (h : DistinctRoots L trees) (hL : L.Lawful node)
    (ht : t ∈ trees) : Scalar.toNat (L.root t) ≠ 0 ↔ L.leaves t ≠ [] := by
  refine ⟨fun hne hnil => hne ?_, h.word_ne_zero ht⟩
  rw [hL.root_nil hnil, Scalar.toNat_zero]

theorem word_ne (h : DistinctRoots L trees) (ht : t ∈ trees) (ht' : t' ∈ trees)
    (hlt : (L.leaves t').length < (L.leaves t).length) :
    Scalar.toNat (L.root t) ≠ Scalar.toNat (L.root t') := fun heq =>
  h.ne t ht t' ht' (fun hleaves => (hleaves ▸ hlt).ne rfl) (Scalar.toNat_inj heq)

end DistinctRoots

/-! ## The ring of the pool -/

def ShieldedPool.ring (pool : ShieldedPool T) : RootRing :=
  ⟨pool.historicalRoots, pool.historicalRootIndex, pool.validRoots⟩

theorem recordRoot_ring (pool : ShieldedPool T) : (recordRoot D pool).ring =
    pool.ring.record maxHistoricalRoots (Scalar.toNat (D.imt.root (recordRoot D pool).tree)) :=
  rfl

theorem insertAll_ring {pool pool' : ShieldedPool T} {ns leaves : List Word}
    (h : insertAll D (pool.markAll ns) leaves = .ok pool') : pool'.ring = pool.ring := by
  simp only [insertAll, bind_eq_ok, mapErr_eq_ok, pure_eq_ok] at h
  obtain ⟨tree, -, rfl⟩ := h
  rfl

omit [BnField F] in
theorem maybePromotePolicy_ring (D : Deployment F T τ) (w : World F T τ) :
    (maybePromotePolicy D w).1.pool.ring = w.pool.ring := by
  unfold maybePromotePolicy
  split <;> rfl

/-- What a step of the pool with these leaves does to the ring. -/
def Recorded (D : Deployment F T τ) (w w' : World F T τ) (leaves : List Word) : Prop :=
  w'.pool.ring = if leaves = [] then w.pool.ring
    else w.pool.ring.record maxHistoricalRoots (commitmentRoot D w')

theorem Recorded.frame (h : w'.pool.ring = w.pool.ring) : Recorded D w w' [] := h

/-- The last writes of the operations that insert leaves. -/
theorem Recorded.of_insertAll {pool pool' : ShieldedPool T} {ns leaves : List Word}
    (hring : pool.ring = w.pool.ring) (hins : insertAll D (pool.markAll ns) leaves = .ok pool')
    (hleaves : leaves ≠ []) (hpool : w'.pool = recordRoot D pool') : Recorded D w w' leaves := by
  rw [Recorded, if_neg hleaves, commitmentRoot, hpool, recordRoot_ring, insertAll_ring hins, hring]

variable {events : List PoolEvent}

theorem deposit_recorded {p : DepositParams} (h : deposit D w sender p = .ok (w', events)) :
    Recorded D w w' (PoolCall.deposit p).leaves := by
  have hring := maybePromotePolicy_ring D w
  simp only [deposit, bind_eq_ok, okOr_eq_ok, pure_eq_ok, Prod.mk.injEq] at h
  obtain ⟨_, -, _, -, _, -, _, -, _, -, _, -, _, -, _, -, _, -, _, -, _, -, _, -, pool', hins, token', -,
    rfl, -⟩ := h
  exact .of_insertAll hring hins (List.cons_ne_nil _ _) rfl

theorem transfer_recorded {p : TransferParams} (h : transfer D w p = .ok (w', events)) :
    Recorded D w w' (PoolCall.transfer p).leaves := by
  have hring := maybePromotePolicy_ring D w
  simp only [transfer, bind_eq_ok, pure_eq_ok, Prod.mk.injEq] at h
  obtain ⟨_, -, _, -, _, -, _, -, _, -, _, -, _, -, _, -, _, -, _, -, _, -, pool', hins, rfl, -⟩ := h
  exact .of_insertAll hring hins (List.cons_ne_nil _ _) rfl

theorem withdraw_recorded {p : WithdrawParams} (h : withdraw D w p = .ok (w', events)) :
    Recorded D w w' (PoolCall.withdraw p).leaves := by
  have hring := maybePromotePolicy_ring D w
  simp only [withdraw, bind_eq_ok, okOr_eq_ok, pure_eq_ok, Prod.mk.injEq] at h
  obtain ⟨_, -, _, -, _, -, _, -, _, -, _, -, _, -, _, -, _, -, _, -, _, -, _, -, _, -, _, -, _, -, pool',
    hins, token', -, rfl, -⟩ := h
  exact .of_insertAll hring hins (List.cons_ne_nil _ _) rfl

theorem withdrawBlocked_recorded {p : WithdrawBlockedParams}
    (h : withdrawBlocked D w p = .ok (w', events)) : Recorded D w w' [] := by
  have hring := maybePromotePolicy_ring D w
  simp only [withdrawBlocked, bind_eq_ok, pure_eq_ok, Prod.mk.injEq] at h
  obtain ⟨_, -, _, -, _, -, _, -, _, -, _, -, _, -, _, -, _, -, rfl, -⟩ := h
  exact .frame hring

theorem claimBlocked_recorded {nullifier : Word} (h : claimBlocked D w sender nullifier = .ok (w', events)) :
    Recorded D w w' [] := by
  simp only [claimBlocked, bind_eq_ok, okOr_eq_ok, pure_eq_ok, Prod.mk.injEq] at h
  obtain ⟨_, -, _, -, rfl, -⟩ := h
  exact .frame rfl

theorem setPolicy_recorded {verifier : Address} {sourceHash toolchainId : Word} {activationEpoch : Nat}
    {sourceUri : String} (h : setPolicy D w sender verifier sourceHash activationEpoch sourceUri
      toolchainId = .ok (w', events)) : Recorded D w w' [] := by
  have hring := maybePromotePolicy_ring D w
  simp only [setPolicy, bind_eq_ok, pure_eq_ok, Prod.mk.injEq] at h
  obtain ⟨_, -, _, -, _, -, _, -, rfl, -⟩ := h
  exact .frame hring

theorem cancelPolicy_recorded (h : cancelPolicy D w sender = .ok (w', events)) : Recorded D w w' [] := by
  have hring := maybePromotePolicy_ring D w
  simp only [cancelPolicy, bind_eq_ok, pure_eq_ok, Prod.mk.injEq] at h
  obtain ⟨_, -, rfl, -⟩ := h
  exact .frame hring

theorem pause_recorded {untilEpoch : Nat} {blockedExit : Bool}
    (h : pause D w sender untilEpoch blockedExit = .ok (w', events)) : Recorded D w w' [] := by
  simp only [pause, bind_eq_ok, pure_eq_ok, Prod.mk.injEq] at h
  obtain ⟨_, -, _, -, _, -, _, -, rfl, -⟩ := h
  apply Recorded.frame
  split <;> split <;> split <;> rfl

theorem setBlockedFundsAccount_recorded {newAccount : Address}
    (h : setBlockedFundsAccount D w sender newAccount = .ok (w', events)) : Recorded D w w' [] := by
  simp only [setBlockedFundsAccount, bind_eq_ok, pure_eq_ok, Prod.mk.injEq] at h
  obtain ⟨_, -, _, -, _, -, _, -, rfl, -⟩ := h
  exact .frame rfl

theorem PoolCall.run_recorded {call : PoolCall} (h : PoolCall.run D sender w call = .ok (w', events)) :
    Recorded D w w' call.leaves := by
  cases call with
  | deposit => exact deposit_recorded h
  | transfer => exact transfer_recorded h
  | withdraw => exact withdraw_recorded h
  | withdrawBlocked => exact withdrawBlocked_recorded h
  | claimBlocked => exact claimBlocked_recorded h
  | setPolicy => exact setPolicy_recorded h
  | cancelPolicy => exact cancelPolicy_recorded h
  | pause => exact pause_recorded h
  | setSingleTxThreshold | setBlockedDestination | recordGrant | rearmGuardian | grantRole |
    revokeRole | renounceRole =>
    obtain ⟨_, -, h⟩ := bind_eq_ok.mp h
    cases pure_eq_ok.mp h
    exact .frame rfl
  | setUngatedWithdrawVerifier | setCommittee =>
    obtain ⟨_, -, h⟩ := bind_eq_ok.mp h
    obtain ⟨_, -, h⟩ := bind_eq_ok.mp h
    cases pure_eq_ok.mp h
    exact .frame rfl
  | setBlockedFundsAccount => exact setBlockedFundsAccount_recorded h

/-! ## The ring of the registry -/

namespace AttestationRegistry
variable {C : RegistryConfig F T} {self self' : AttestationRegistry F T}

def ring (self : AttestationRegistry F T) : RootRing :=
  ⟨self.historicalAttestationRoots, self.historicalAttestationRootIndex, self.validAttestationRoots⟩

omit [BnField F] in
theorem advanceAttestationRoot_ring (rootBefore : Word) : (self.advanceAttestationRoot rootBefore).ring =
      if rootBefore = 0 then self.ring else self.ring.record maxHistoricalRoots rootBefore := by
  unfold advanceAttestationRoot
  split <;> rfl

omit [BnField F] in
theorem checkGeneration_frame {generation : UInt64} (h : self.checkGeneration generation = .ok self') :
    self'.attestationTree = self.attestationTree ∧ self'.ring = self.ring := by
  simp only [checkGeneration] at h
  split at h
  · simp only [bind_eq_ok, pure_eq_ok] at h
    obtain ⟨_, -, _, -, rfl⟩ := h
    split <;> exact ⟨rfl, rfl⟩
  · obtain rfl := pure_eq_ok.mp h
    split <;> exact ⟨rfl, rfl⟩

end AttestationRegistry

open AttestationRegistry

/-- Whether a step issues a batch of attestations. -/
def Step.issues : Step → Bool
  | .registry _ (.addAttestations ..) => true
  | _ => false

/-- What a call of the registry does to its tree and to the ring. -/
structure Issues (D : Deployment F T τ) (registry registry' : AttestationRegistry F T) (issues : Bool) :
    Prop where
  tree : ∃ added, D.imt.leaves registry'.attestationTree =
    D.imt.leaves registry.attestationTree ++ added ∧ (issues = true → D.minCohortSize ≤ added.length)
  ring : registry'.ring = if issues = true ∧ registry.attestationRoot D.toRegistryConfig ≠ 0
    then registry.ring.record maxHistoricalRoots (registry.attestationRoot D.toRegistryConfig)
    else registry.ring

variable {registry registry' : AttestationRegistry F T} {registryEvents : List RegistryEvent}

theorem Issues.frame (tree : registry'.attestationTree = registry.attestationTree)
    (ring : registry'.ring = registry.ring) : Issues D registry registry' false where
  tree := ⟨[], by rw [tree, List.append_nil], fun h => absurd h Bool.false_ne_true⟩
  ring := by rw [ring, if_neg fun h => Bool.false_ne_true h.1]

theorem addAttestations_issues (hL : D.imt.Lawful (merkleHash D.hash)) {timestamp : Nat}
    {subjects : List Word} {expiresAt generation : UInt64}
    (h : registry.addAttestations D.toRegistryConfig sender timestamp subjects expiresAt generation =
      .ok (registry', registryEvents)) : Issues D registry registry' true := by
  obtain ⟨-, hleaves, -⟩ := AttestationRegistry.addAttestations_ok hL h
  simp only [AttestationRegistry.addAttestations, bind_eq_ok, failIf_eq_ok, pure_eq_ok, Prod.mk.injEq,
    exists_const, Nat.not_lt] at h
  obtain ⟨_, -, hcohort, _, -, checked, hchecked, issued, hissued, rfl, -⟩ := h
  obtain ⟨htree, hring⟩ := checkGeneration_frame hchecked
  obtain ⟨tree, rfl, -⟩ := issueAll_ok hissued
  have hroot : checked.attestationRoot D.toRegistryConfig = registry.attestationRoot D.toRegistryConfig := by
    rw [attestationRoot, attestationRoot, htree]
  refine ⟨⟨_, hleaves, fun _ => by rwa [List.length_map]⟩, ?_⟩
  rw [advanceAttestationRoot_ring, hroot, ← hring]
  by_cases hzero : registry.attestationRoot D.toRegistryConfig = 0
  · rw [if_pos hzero, if_neg fun h => h.2 hzero]
    rfl
  · rw [if_neg hzero, if_pos ⟨rfl, hzero⟩]
    rfl

theorem RegistryCall.run_issues (hL : D.imt.Lawful (merkleHash D.hash)) {timestamp : Nat}
    {call : RegistryCall} (h : RegistryCall.run D.toRegistryConfig sender timestamp registry call =
      .ok (registry', registryEvents)) : Issues D registry registry' (Step.registry sender call).issues := by
  cases call with
  | addAttestations => exact addAttestations_issues hL h
  | addAttester attester =>
    simp only [run, AttestationRegistry.addAttester, bind_eq_ok, pure_eq_ok, Prod.mk.injEq] at h
    obtain ⟨_, -, _, -, _, -, rfl, -⟩ := h
    exact .frame rfl rfl
  | removeAttester attester =>
    simp only [run, AttestationRegistry.removeAttester, bind_eq_ok, pure_eq_ok, Prod.mk.injEq] at h
    obtain ⟨_, -, _, -, rfl, -⟩ := h
    exact .frame rfl rfl
  | lowerRevocation attester newRevokedAtEpoch =>
    simp only [run, AttestationRegistry.lowerRevocation, bind_eq_ok, pure_eq_ok, Prod.mk.injEq] at h
    obtain ⟨_, -, _, -, _, -, _, -, rfl, -⟩ := h
    exact .frame rfl rfl
  | raiseMinAcceptedGeneration newValue activationEpoch =>
    simp only [run, AttestationRegistry.raiseMinAcceptedGeneration, bind_eq_ok, pure_eq_ok, Prod.mk.injEq] at h
    obtain ⟨_, -, _, -, _, -, rfl, -⟩ := h
    exact .frame rfl rfl
  | grantRole | revokeRole | renounceRole =>
    obtain ⟨_, -, h⟩ := bind_eq_ok.mp h
    cases pure_eq_ok.mp h
    exact .frame rfl rfl

/-! ## Along a run -/

theorem Deployed.minCohortSize_ne_zero (h : Deployed D w) : D.minCohortSize ≠ 0 := by
  obtain ⟨hregistry, -⟩ := h
  simp only [AttestationRegistry.new, bind_eq_ok, failIf_eq_ok] at hregistry
  obtain ⟨_, -, _, -, _, -, _, hcohort, -⟩ := hregistry
  exact hcohort

theorem Deployed.ring_empty (h : Deployed D w) : w.pool.ring = .empty ∧ w.registry.ring = .empty := by
  obtain ⟨hregistry, hpool⟩ := h
  simp only [AttestationRegistry.new, bind_eq_ok, pure_eq_ok] at hregistry
  simp only [ShieldedPool.new, bind_eq_ok, pure_eq_ok] at hpool
  obtain ⟨_, -, _, -, _, -, _, -, rfl⟩ := hregistry
  obtain ⟨_, -, _, -, _, -, _, -, rfl⟩ := hpool
  exact ⟨rfl, rfl⟩

/-- The root the pool records in a step that inserts leaves: that of the tree it leaves. -/
def recordedRoot (D : Deployment F T τ) (p : Passage (World F T τ) Step) : Option Word :=
  if p.label.leaves = [] then none else some (commitmentRoot D p.after)

/-- The root the registry records in a batch that starts from a nonempty tree: that of this tree. -/
def recordedAttestationRoot (D : Deployment F T τ) (p : Passage (World F T τ) Step) : Option Word :=
  if p.label.issues = true ∧ D.imt.leaves p.before.registry.attestationTree ≠ []
  then some (p.before.registry.attestationRoot D.toRegistryConfig) else none

theorem Transition.recorded {st : Step} (h : Transition D w st w') : Recorded D w w' st.leaves := by
  cases h with
  | pool _ ok => exact PoolCall.run_recorded ok
  | registry | poolReverted | registryReverted | tick | elsewhere => exact .frame rfl

theorem Transition.leaves (hL : D.imt.Lawful (merkleHash D.hash)) {st : Step} (h : Transition D w st w') :
    D.imt.leaves w'.pool.tree = D.imt.leaves w.pool.tree ++ st.leaves.map Scalar.ofNat := by
  cases h with
  | pool _ ok => exact hL.insertAll (PoolCall.run_step ok).admitted.tree
  | registry | poolReverted | registryReverted | tick | elsewhere => exact (List.append_nil _).symm

theorem Transition.issues (hL : D.imt.Lawful (merkleHash D.hash)) {st : Step} (h : Transition D w st w') :
    Issues D w.registry w'.registry st.issues := by
  cases h with
  | pool _ ok => rw [(PoolCall.run_step ok).admitted.registry]; exact .frame rfl rfl
  | registry ok => exact RegistryCall.run_issues hL ok
  | poolReverted | registryReverted | tick | elsewhere => exact .frame rfl rfl

section
variable {w₀ : World F T τ} {ps : List (Passage (World F T τ) Step)}

/-- The pool's ring holds the last of the recorded roots. -/
theorem Run.ring_holds (hL : D.imt.Lawful (merkleHash D.hash)) (h₀ : Deployed D w₀)
    (hrun : Run (Passes (Transition D)) w₀ ps w) (hroots : DistinctRoots D.imt (ps.map (·.after.pool.tree))) :
    w.pool.ring.Holds maxHistoricalRoots (ps.filterMap (recordedRoot D)).reverse := by
  have hstep := hrun.step_of_mem
  have hmem : ∀ p ∈ ps, p.after.pool.tree ∈ ps.map (·.after.pool.tree) := fun _ hp =>
    List.mem_map_of_mem hp
  obtain ⟨-, hle⟩ := hrun.passes_le (m := fun w => (D.imt.leaves w.pool.tree).length) fun w st w' h => by
    rw [h.leaves hL, List.length_append]
    exact Nat.le_add_right _ _
  have hsize : 0 < maxHistoricalRoots := by decide
  refine @RootRing.holds_of_run maxHistoricalRoots _ _ _ (fun w => w.pool.ring) _ _ _ _ hrun
    h₀.ring_empty.1 hsize ?_ ?_ ?_
  · rintro p - s s' ⟨h⟩
    have hring := h.recorded
    rw [Recorded] at hring
    rw [hring, recordedRoot]
    split <;> rfl
  · intro hzero
    obtain ⟨p, hp, hrec⟩ := List.mem_filterMap.mp hzero
    rw [recordedRoot, Option.ite_none_left_eq_some] at hrec
    obtain ⟨hne, hrec⟩ := hrec
    refine hroots.word_ne_zero (hmem p hp) ?_ (Option.some.inj hrec)
    rw [(hstep p hp).leaves hL]
    exact List.append_ne_nil_of_right_ne_nil _ (mt List.map_eq_nil_iff.mp hne)
  · rw [List.Nodup, List.pairwise_filterMap]
    refine hle.imp_of_mem fun {later earlier} hl he hle r hr r' hr' => ?_
    rw [recordedRoot, Option.ite_none_left_eq_some] at hr hr'
    rw [← Option.some.inj hr.2, ← Option.some.inj hr'.2]
    -- the later step inserts leaves after the earlier one
    refine hroots.word_ne (hmem _ hl) (hmem _ he) (hle.trans_lt ?_)
    rw [(hstep _ hl).leaves hL, List.length_append, List.length_map]
    exact Nat.lt_add_of_pos_right (List.length_pos_iff.mpr hr.1)

/-- The registry's ring holds the last of the recorded roots. -/
theorem Run.attestationRing_holds (hL : D.imt.Lawful (merkleHash D.hash)) (h₀ : Deployed D w₀)
    (hrun : Run (Passes (Transition D)) w₀ ps w)
    (hroots : DistinctRoots D.imt (ps.map (·.before.registry.attestationTree))) :
    w.registry.ring.Holds maxHistoricalRoots (ps.filterMap (recordedAttestationRoot D)).reverse := by
  have hstep := hrun.step_of_mem
  have hmem : ∀ p ∈ ps, p.before.registry.attestationTree ∈
      ps.map (·.before.registry.attestationTree) := fun _ hp => List.mem_map_of_mem hp
  obtain ⟨-, hle⟩ := hrun.passes_le (m := fun w => (D.imt.leaves w.registry.attestationTree).length)
    fun w st w' h => by
      obtain ⟨added, hadded, -⟩ := (h.issues hL).tree
      rw [hadded, List.length_append]
      exact Nat.le_add_right _ _
  have hsize : 0 < maxHistoricalRoots := by decide
  refine @RootRing.holds_of_run maxHistoricalRoots _ _ _ (fun w => w.registry.ring) _ _ _ _ hrun
    h₀.ring_empty.2 hsize ?_ ?_ ?_
  · rintro p hp s s' ⟨h⟩
    have hiff : s.registry.attestationRoot D.toRegistryConfig ≠ 0 ↔
        D.imt.leaves s.registry.attestationTree ≠ [] := hroots.word_ne_zero_iff hL (hmem _ hp)
    rw [(h.issues hL).ring, if_congr (and_congr_right fun _ => hiff) rfl rfl, recordedAttestationRoot]
    split <;> rfl
  · intro hzero
    obtain ⟨p, hp, hrec⟩ := List.mem_filterMap.mp hzero
    rw [recordedAttestationRoot, Option.ite_none_right_eq_some] at hrec
    exact hroots.word_ne_zero (hmem p hp) hrec.1.2 (Option.some.inj hrec.2)
  · rw [List.Nodup, List.pairwise_filterMap]
    refine hle.imp_of_mem fun {later earlier} hl he hle r hr r' hr' => ?_
    rw [recordedAttestationRoot, Option.ite_none_right_eq_some] at hr hr'
    rw [← Option.some.inj hr.2, ← Option.some.inj hr'.2]
    -- the earlier batch inserts leaves before the later one starts
    refine hroots.word_ne (hmem _ hl) (hmem _ he) (Nat.lt_of_lt_of_le ?_ hle)
    obtain ⟨added, hadded, hlen⟩ := ((hstep _ he).issues hL).tree
    have hcohort := h₀.minCohortSize_ne_zero
    have hlen := hlen hr'.1.1
    rw [hadded, List.length_append]
    omega

theorem known_windows (hL : D.imt.Lawful (merkleHash D.hash)) (h₀ : Deployed D w₀)
    (hrun : Run (Passes (Transition D)) w₀ ps w) (hroots : DistinctRoots D.imt (ps.map (·.after.pool.tree)))
    (hattestations : DistinctRoots D.imt (ps.map (·.before.registry.attestationTree))) (r : Word) :
    (isKnownRoot D w r = true ↔
      r = commitmentRoot D w ∨ r ∈ (ps.filterMap (recordedRoot D)).take maxHistoricalRoots) ∧
    (w.registry.isKnownAttestationRoot D.toRegistryConfig r = true ↔
      r = w.registry.attestationRoot D.toRegistryConfig ∨
        r ∈ (ps.filterMap (recordedAttestationRoot D)).take maxHistoricalRoots) := by
  have hpool := (Run.ring_holds hL h₀ hrun hroots).valid_iff_take r
  have hregistry := (Run.attestationRing_holds hL h₀ hrun hattestations).valid_iff_take r
  constructor
  · rw [isKnownRoot_iff, ← hpool]
    rfl
  · rw [← hregistry, isKnownAttestationRoot, Bool.or_eq_true, decide_eq_true_eq]
    rfl

end

/-- An empty tree and a tree with a nonzero root. -/
theorem DistinctRoots.pair {L : LeanImt F T} {trees : List T} {t u : T} (hnil : L.leaves u = [])
    (hzero : L.root u = 0) (hne : L.root t ≠ 0) (hsub : trees ⊆ [t, u]) : DistinctRoots L trees where
  ne_zero a ha hleaves := by
    rcases List.mem_pair.mp (hsub ha) with rfl | rfl
    · exact hne
    · exact absurd hnil hleaves
  ne a ha b hb hleaves := by
    rcases List.mem_pair.mp (hsub ha) with rfl | rfl <;> rcases List.mem_pair.mp (hsub hb) with rfl | rfl
    · exact absurd rfl hleaves
    · rwa [hzero]
    · rw [hzero]
      exact hne.symm
    · exact absurd rfl hleaves

theorem Sample.exists_passages (hash : List F → F) (H : Ideal hash) :
    ∃ w₀ w ps, Deployed (deployment hash) w₀ ∧ Run (Passes (Transition (deployment hash))) w₀ ps w ∧
      ps.map Passage.label = .pool depositor (.deposit ((depositPublic hash).params [])) :: registrySteps hash ∧
      DistinctRoots (deployment hash).imt (ps.map (·.after.pool.tree)) ∧
      DistinctRoots (deployment hash).imt (ps.map (·.before.registry.attestationTree)) := by
  obtain ⟨pool, hpool, hfresh⟩ := pool_new hash
  obtain ⟨tree, hroot, events, hissued⟩ := addAttestations_ok hash H
  obtain ⟨leaves, _, hroot', -, hdeposit⟩ := exists_deposit hash H hroot hfresh
  have hne : depositor ≠ (deployment hash).address := by
    show (12 : Address) ≠ 10
    decide
  have hadd : Transition (deployment hash) ⟨timestamp, registry₀ hash, pool, funds⟩
      (.registry admin (.addAttester attester))
      (world hash (leanImt (merkleHash hash)).empty pool) := .registry (addAttester_ok hash)
  have hissue : Transition (deployment hash) (world hash (leanImt (merkleHash hash)).empty pool)
      (.registry attester (.addAttestations [Scalar.toNat (owner hash)] expiresAt 0))
      (world hash tree pool) := .registry hissued
  have hpay : Transition (deployment hash) (world hash tree pool)
      (.pool depositor (.deposit ((depositPublic hash).params []))) (deposited hash tree leaves pool) :=
    .pool hne hdeposit
  refine ⟨_, _, _, .mk (registry_new hash) hpool,
    .cons (.cons (.cons .nil (.mk hadd)) (.mk hissue)) (.mk hpay), rfl, ?_, ?_⟩
  · have htree : pool.tree = (leanImt (merkleHash hash)).empty := hfresh.tree
    refine .pair (u := pool.tree) (t := leaves) (htree ▸ rfl) (htree ▸ rfl) ?_ ?_
    · exact hroot' ▸ H.ne_zero (by simp) (by simp)
    · show [leaves, pool.tree, pool.tree] ⊆ _
      simp
  · refine .pair (u := (leanImt (merkleHash hash)).empty) (t := tree) rfl rfl ?_ ?_
    · exact hroot ▸ H.ne_zero (by simp) (by simp)
    · show [tree, (leanImt (merkleHash hash)).empty, (leanImt (merkleHash hash)).empty] ⊆ _
      simp

theorem known_windows_sample : ∃ w₀ w ps, Deployed (Sample.deployment idealHash) w₀ ∧
    Run (Passes (Transition (Sample.deployment idealHash))) w₀ ps w ∧
    ps.map Passage.label = .pool Sample.depositor (.deposit ((Sample.depositPublic idealHash).params [])) ::
      Sample.registrySteps idealHash ∧ ∀ r, (isKnownRoot (Sample.deployment idealHash) w r = true ↔
        r = commitmentRoot (Sample.deployment idealHash) w ∨
          r ∈ (ps.filterMap (recordedRoot (Sample.deployment idealHash))).take maxHistoricalRoots) ∧
      (w.registry.isKnownAttestationRoot (Sample.deployment idealHash).toRegistryConfig r = true ↔
        r = w.registry.attestationRoot (Sample.deployment idealHash).toRegistryConfig ∨
          r ∈ (ps.filterMap (recordedAttestationRoot (Sample.deployment idealHash))).take
            maxHistoricalRoots) := by
  obtain ⟨w₀, w, ps, h₀, hrun, hlabels, hroots, hattestations⟩ :=
    Sample.exists_passages idealHash idealHash_ideal
  exact ⟨w₀, w, ps, h₀, hrun, hlabels, fun r =>
    known_windows (Sample.lawful idealHash) h₀ hrun hroots hattestations r⟩

end Pocs.Compliance
