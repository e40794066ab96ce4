import Pocs.Mmf.Notes

/-! # Attestations of the fund

Every leaf of the attestation tree was issued by an accepted call, and every root the registry knows
is of leaves of the tree. A proof that an owner is attested is therefore about an attestation that was
issued, is valid to the end of the epoch, and is not below the generation floor. -/

namespace Pocs.Mmf

open Compliance (BnField Word Address Ideal merkleHash mem_of_merkleVerify merkleVerify_zero)

/-! ## Issuing -/

namespace AttestationRegistry
variable {F T : Type} [FeedField F] {C : RegistryConfig F T} {self self' : AttestationRegistry T}
  {sender : Address} {generation issuedAt expiresAt : UInt64} {owners : List Word}

theorem issueAll_ok (h : owners.foldlM (issueOne C sender generation issuedAt expiresAt) self =
    .ok self') : ∃ tree, self' = { self with attestationTree := tree } ∧
      (owners.map fun owner => leafOf C sender owner generation issuedAt expiresAt).foldlM
        (fun tree leaf => C.imt.insert leaf tree) self.attestationTree = .ok tree := by
  induction owners generalizing self with
  | nil =>
    cases pure_eq_ok.mp h
    exact ⟨_, rfl, rfl⟩
  | cons owner owners ih =>
    rw [List.foldlM_cons, bind_eq_ok] at h
    obtain ⟨next, howner, hrest⟩ := h
    simp only [issueOne, bind_eq_ok, mapErr_eq_ok, pure_eq_ok] at howner
    obtain ⟨_, -, tree₁, htree₁, rfl⟩ := howner
    obtain ⟨tree, rfl, htree⟩ := ih hrest
    refine ⟨tree, rfl, ?_⟩
    rw [List.map_cons, List.foldlM_cons, bind_eq_ok]
    exact ⟨tree₁, htree₁, htree⟩

theorem checkGeneration_ok (h : self.checkGeneration generation = .ok self') :
    self'.attestationTree = self.attestationTree ∧
      self'.historicalAttestationRoots = self.historicalAttestationRoots := by
  simp only [checkGeneration, bind_eq_ok, pure_eq_ok] at h
  obtain ⟨_, -, rfl⟩ := h
  split <;> exact ⟨rfl, rfl⟩

theorem advanceAttestationRoot_valid {rootBefore r : Word}
    (h : (self.advanceAttestationRoot rootBefore).historicalAttestationRoots.valid r = true) :
    self.historicalAttestationRoots.valid r = true ∨ rootBefore ≠ 0 ∧ r = rootBefore := by
  unfold advanceAttestationRoot at h
  split at h
  · exact .inl h
  next hne =>
  rcases RootRing.valid_of_record h with rfl | hold
  · exact .inr ⟨hne, rfl⟩
  · exact .inl hold

theorem advanceAttestationRoot_tree (rootBefore : Word) :
    (self.advanceAttestationRoot rootBefore).attestationTree = self.attestationTree := by
  unfold advanceAttestationRoot
  split <;> rfl

theorem addAttestations_ok (hL : C.imt.Lawful (merkleHash C.hash)) {timestamp : Nat}
    {events : List RegistryEvent} (h : self.addAttestations C sender timestamp owners expiresAt
      generation = .ok (self', events)) :
      C.imt.leaves self'.attestationTree = C.imt.leaves self.attestationTree ++
        owners.map (fun owner => leafOf C sender owner generation (UInt64.ofNat timestamp) expiresAt) ∧
      ∀ r, self'.historicalAttestationRoots.valid r = true → self.historicalAttestationRoots.valid r = true ∨
          C.imt.leaves self.attestationTree ≠ [] ∧ r = self.attestationRoot C := by
  simp only [addAttestations, bind_eq_ok, pure_eq_ok, Prod.mk.injEq] at h
  obtain ⟨_, -, _, -, _, -, _, -, checked, hchecked, issued, hissued, rfl, -⟩ := h
  obtain ⟨htree, hvalid⟩ := checkGeneration_ok hchecked
  obtain ⟨tree, rfl, hinsert⟩ := issueAll_ok hissued
  rw [htree] at hinsert
  have hroot : checked.attestationRoot C = self.attestationRoot C := by
    rw [attestationRoot, attestationRoot, htree]
  rw [advanceAttestationRoot_tree]
  refine ⟨hL.insertAll hinsert, fun r hr => ?_⟩
  rcases advanceAttestationRoot_valid hr with hr | ⟨hne, rfl⟩
  · exact .inl (hvalid ▸ hr)
  · refine .inr ⟨fun hnil => hne ?_, hroot⟩
    rw [hroot, attestationRoot, hL.root_nil hnil]
    exact Scalar.toNat_zero

end AttestationRegistry

open AttestationRegistry

/-! ## What every run keeps of the registry -/

section
variable {F T τ : Type} [FeedField F] {D : Deployment F T τ} {w : World T τ} {tr : List Step}
  {registry registry' : AttestationRegistry T}

def Issued (tr : List Step) (attester : Address) (owner : Word) (generation expiresAt : UInt64) :
    Prop :=
  ∃ owners, owner ∈ owners ∧ .registry attester (.addAttestations owners expiresAt generation) ∈ tr

theorem Issued.cons {attester : Address} {owner : Word} {generation expiresAt : UInt64}
    (h : Issued tr attester owner generation expiresAt) (st : Step) :
    Issued (st :: tr) attester owner generation expiresAt := by
  obtain ⟨owners, hmem, hcall⟩ := h
  exact ⟨owners, hmem, List.mem_cons_of_mem _ hcall⟩

structure RegistryInv (D : Deployment F T τ) (tr : List Step) (registry : AttestationRegistry T) : Prop where
  issued : ∀ leaf ∈ D.imt.leaves registry.attestationTree,
    ∃ attester owner generation issuedAt expiresAt, Issued tr attester owner generation expiresAt ∧
      leaf = leafOf D.toRegistryConfig attester owner generation issuedAt expiresAt
  roots : ∀ r, registry.historicalAttestationRoots.valid r = true →
    Merkle.Spans (merkleHash D.hash) (D.imt.leaves registry.attestationTree) (Scalar.ofNat r)

/-- A step that leaves the attestations alone. -/
theorem RegistryInv.frame (inv : RegistryInv D tr registry) (st : Step)
    (tree : registry'.attestationTree = registry.attestationTree)
    (roots : registry'.historicalAttestationRoots = registry.historicalAttestationRoots) :
    RegistryInv D (st :: tr) registry' where
  issued leaf h := by
    obtain ⟨attester, owner, generation, issuedAt, expiresAt, hissued, hleaf⟩ :=
      inv.issued leaf (tree ▸ h)
    exact ⟨attester, owner, generation, issuedAt, expiresAt, hissued.cons st, hleaf⟩
  roots r h := tree ▸ inv.roots r (roots ▸ h)

section
variable (inv : RegistryInv D tr registry) (hL : D.imt.Lawful (merkleHash D.hash))
include inv hL

/-- The roots the registry knows: of the current tree, or of an earlier one. -/
theorem RegistryInv.known
    {r : Word} (h : registry.isKnownAttestationRoot D.toRegistryConfig r = true) : Scalar.ofNat r = (0 : F) ∨
      Merkle.Spans (merkleHash D.hash) (D.imt.leaves registry.attestationTree) (Scalar.ofNat r) := by
  simp only [isKnownAttestationRoot, Bool.or_eq_true, decide_eq_true_eq] at h
  exact hL.known BnField.ofNat_toNat inv.roots h

theorem RegistryInv.addAttestations {sender : Address} {timestamp : Nat}
    {owners : List Word} {expiresAt generation : UInt64} {events : List RegistryEvent}
    (h : registry.addAttestations D.toRegistryConfig sender timestamp owners expiresAt generation =
      .ok (registry', events)) :
    RegistryInv D (.registry sender (.addAttestations owners expiresAt generation) :: tr) registry' := by
  obtain ⟨hleaves, hvalid⟩ := addAttestations_ok hL h
  have hsub : D.imt.leaves registry.attestationTree ⊆ D.imt.leaves registry'.attestationTree := by
    rw [hleaves]
    exact List.subset_append_left _ _
  refine ⟨fun leaf hleaf => ?_, fun r hr => ?_⟩
  · rw [hleaves, List.mem_append] at hleaf
    rcases hleaf with hleaf | hleaf
    · obtain ⟨attester, owner, gen, issuedAt, expires, hissued, rfl⟩ := inv.issued leaf hleaf
      exact ⟨attester, owner, gen, issuedAt, expires, hissued.cons _, rfl⟩
    · obtain ⟨owner, howner, rfl⟩ := List.mem_map.mp hleaf
      exact ⟨sender, owner, generation, _, expiresAt, ⟨owners, howner, List.mem_cons_self⟩, rfl⟩
  · rcases hvalid r hr with hr | ⟨hne, rfl⟩
    · exact (inv.roots r hr).mono hsub
    · rw [attestationRoot, BnField.ofNat_toNat]
      exact (hL.root hne).mono hsub

theorem RegistryInv.call
    {sender : Address} {timestamp : Nat} {call : RegistryCall} {events : List RegistryEvent}
    (h : RegistryCall.run D.toRegistryConfig sender timestamp registry call =
      .ok (registry', events)) : RegistryInv D (.registry sender call :: tr) registry' := by
  cases call with
  | addAttestations => exact inv.addAttestations hL h
  | setAttester newAttester =>
    simp only [RegistryCall.run, AttestationRegistry.setAttester, bind_eq_ok, pure_eq_ok, Prod.mk.injEq] at h
    obtain ⟨_, -, _, -, rfl, -⟩ := h
    exact inv.frame _ rfl rfl
  | revokeAttester trustedUntil =>
    simp only [RegistryCall.run, AttestationRegistry.revokeAttester, bind_eq_ok, pure_eq_ok, Prod.mk.injEq] at h
    obtain ⟨_, -, _, -, _, -, _, -, rfl, -⟩ := h
    -- a floor that is queued is not about the tree
    split <;> exact inv.frame _ rfl rfl
  | raiseMinAcceptedGeneration newValue activationEpoch =>
    simp only [RegistryCall.run, AttestationRegistry.raiseMinAcceptedGeneration, bind_eq_ok, pure_eq_ok] at h
    obtain ⟨_, -, _, -, _, -, h⟩ := h
    cases h
    exact inv.frame _ rfl rfl
  | grantRole | revokeRole | renounceRole =>
    obtain ⟨_, -, h⟩ := bind_eq_ok.mp h
    cases pure_eq_ok.mp h
    exact inv.frame _ rfl rfl

end

theorem Run.registryInv (hL : D.imt.Lawful (merkleHash D.hash)) {w₀ : World T τ}
    (h₀ : Deployed D w₀) (hrun : Run (Transition D) w₀ tr w) : RegistryInv D tr w.registry := by
  refine hrun.invariant (I := fun tr w => RegistryInv D tr w.registry) ?_ ?_
  · obtain ⟨hregistry, -⟩ := h₀
    simp only [AttestationRegistry.new, bind_eq_ok, pure_eq_ok] at hregistry
    obtain ⟨_, -, _, -, _, -, _, -, rfl⟩ := hregistry
    refine ⟨fun leaf hleaf => ?_, fun r hr => absurd hr Bool.false_ne_true⟩
    rw [grantAttester, hL.leaves_empty] at hleaf
    cases hleaf
  · intro tr w st w' _ hstep inv
    cases hstep with
    | pool _ ok =>
      have hsame := (PoolCall.run_step ok).admitted.registry
      exact inv.frame _ (by rw [hsame]) (by rw [hsame])
    | registry ok => exact inv.call hL ok
    | poolReverted | registryReverted | tick | inflow => exact inv.frame _ rfl rfl

/-- The owner holds an attestation that the run issued, that is valid to the end of the epoch and not
below the generation floor. -/
def Attested (D : Deployment F T τ) (tr : List Step) (w : World T τ) (owner : F) : Prop :=
  ∃ attester word generation expiresAt, Issued tr attester word generation expiresAt ∧
    Scalar.ofNat word = owner ∧ (w.epoch D + 1) * 86400 ≤ expiresAt.toNat ∧
    w.registry.minAcceptedGeneration D.toRegistryConfig w.timestamp ≤ generation

theorem leafOf_ne_node (H : Ideal D.hash) (attester : Address) (owner : Word)
    (generation issuedAt expiresAt : UInt64) (l r : F) :
    leafOf D.toRegistryConfig attester owner generation issuedAt expiresAt ≠ merkleHash D.hash l r :=
  H.ne_of_length (by simp) (List.cons_ne_nil _ _) (Nat.le_refl _) (by simp) (by simp)

theorem AttestationOk.attested (H : Ideal D.hash) (hL : D.imt.Lawful (merkleHash D.hash))
    (inv : RegistryInv D tr w.registry) {owner : F} {wit : AttestationWitness F} {epoch : Nat}
    (hepoch : epoch = w.epoch D) (hlt : epoch < 2 ^ 64) {root : Word}
    (hroot : w.registry.isKnownAttestationRoot D.toRegistryConfig root = true)
    (ok : AttestationOk D.toPrimitives owner wit (.ofNat epoch)
      (w.registry.minAcceptedGeneration D.toRegistryConfig w.timestamp) (Scalar.ofNat root)) :
    Attested D tr w owner := by
  have hleaves : ∀ y ∈ D.imt.leaves w.registry.attestationTree, ∀ l r, y ≠ merkleHash D.hash l r := by
    intro y hy l r
    obtain ⟨attester, word, generation, issuedAt, expiresAt, -, rfl⟩ := inv.issued y hy
    exact leafOf_ne_node H attester word generation issuedAt expiresAt l r
  have hnode : ∀ l r, attestationLeaf D.toPrimitives owner wit ≠ merkleHash D.hash l r := fun l r =>
    H.ne_of_length (by simp) (List.cons_ne_nil _ _) (Nat.le_refl _) (by simp) (by simp)
  rcases inv.known hL hroot with hzero | hspans
  · have hverify := ok.included
    rw [hzero] at hverify
    exact absurd hverify (merkleVerify_zero H (List.cons_ne_nil _ _) (Nat.le_refl _))
  · have hmem := mem_of_merkleVerify H hleaves ok.included hspans hnode
    obtain ⟨attester, word, generation, issuedAt, expiresAt, hissued, hleaf⟩ := inv.issued _ hmem
    obtain ⟨howner, -, hgeneration, -, hexpires⟩ := H.hash5_inj hleaf
    have hcurrent := ok.current
    rw [EndsBy, UInt64.toNat_ofNat_of_lt' hlt, hepoch, Compliance.ofU64_inj hexpires] at hcurrent
    refine ⟨attester, word, generation, expiresAt, hissued, howner.symm, hcurrent, ?_⟩
    rw [← Compliance.ofU64_inj hgeneration]
    exact ok.generation

end

end Pocs.Mmf
