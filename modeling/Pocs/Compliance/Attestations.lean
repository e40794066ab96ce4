import Pocs.Compliance.System

/-! # What the registry vouches for

`RegistryInv` is what every run keeps of the registry: each leaf of the attestation tree was issued by
a call of the run, each root it knows is a root over such leaves, the array of the revocation tree
holds the attesters it contains, and the cached root is the root over that array. A path of the
revocation tree has a fixed length, so it ends at a leaf of the tree, however its siblings are chosen
(`RevocationTree.exists_leafNodes`). -/

namespace Pocs.Compliance

/-! ## The revocation tree -/

namespace RevocationTree

/-- `remove` takes the attester out of the array. -/
theorem swapAndPop_perm {attesters : List Address} {a : Address} (h : a ∈ attesters) :
    (swapAndPop attesters a).Perm (attesters.erase a) := by
  obtain ⟨before, after, rfl, hnew⟩ := List.eq_append_cons_of_mem h
  have hidx : (before ++ a :: after).idxOf? a = some before.length := by
    have hnone : before.findIdx? (· == a) = none := by
      rw [List.findIdx?_eq_none_iff]
      intro b hb
      exact beq_false_of_ne fun he => hnew (he ▸ hb)
    rw [List.idxOf?, List.findIdx?_append, hnone]
    simp [List.findIdx?_cons]
  rw [List.erase_append_right _ hnew, List.erase_cons_head, swapAndPop, hidx]
  rcases List.eq_nil_or_concat after with rfl | ⟨after, last, rfl⟩
  · simp
  · have hlast : (before ++ a :: (after ++ [last])).getLastD a = last := by
      rw [← List.cons_append, ← List.append_assoc, List.getLastD_concat]
    simp only [List.concat_eq_append, hlast, List.set_append_right _ _ le_rfl, Nat.sub_self, List.set_cons_zero]
    rw [← List.cons_append, ← List.append_assoc, List.dropLast_concat]
    exact (List.perm_append_singleton last after).symm.append_left _

variable {F : Type} [BnField F] {hash : List F → F} {self self' : RevocationTree F}

omit [BnField F] in
/-- The loop over one level reads each pair before it is overwritten. -/
theorem hashLevel_apply (half : Nat) (nodes : Nat → F) (j : Nat) : hashLevel hash half nodes j =
    if j < half then merkleHash hash (nodes (2 * j)) (nodes (2 * j + 1)) else nodes j := by
  induction half generalizing j with
  | zero => rfl
  | succ half ih =>
    have hstep : hashLevel hash (half + 1) nodes = Function.update (hashLevel hash half nodes) half (hash
          [hashLevel hash half nodes (2 * half), hashLevel hash half nodes (2 * half + 1)]) := by
      simp only [hashLevel, List.range_succ, List.foldl_append, List.foldl_cons, List.foldl_nil]
    rw [hstep]
    rcases eq_or_ne j half with rfl | hne
    · rw [Function.update_self, ih, ih, if_neg (by omega), if_neg (by omega), if_pos (by omega)]
      rfl
    · rw [Function.update_of_ne hne, ih]
      by_cases hj : j < half
      · rw [if_pos hj, if_pos (by omega)]
      · rw [if_neg hj, if_neg (by omega)]

omit [BnField F] in
theorem hashLevels_eq_nodeAt (d : Nat) (nodes : Nat → F) :
    hashLevels hash d nodes 0 = Merkle.nodeAt (merkleHash hash) nodes d 0 := by
  induction d generalizing nodes with
  | zero => rfl
  | succ d ih =>
    rw [hashLevels, ih, ← Merkle.nodeAt_pairs]
    refine Merkle.nodeAt_congr fun j hj => ?_
    have hlt : j < 2 ^ d := (Nat.div_eq_zero_iff_lt (Nat.two_pow_pos d)).mp hj
    rw [hashLevel_apply, if_pos hlt]

theorem computeRoot_eq_nodeAt (self : RevocationTree F) : self.computeRoot hash =
    Merkle.nodeAt (merkleHash hash) (self.leafNodes hash) depth 0 :=
  hashLevels_eq_nodeAt _ _

/-- What verifies against the root is one of the leaves. -/
theorem exists_leafNodes (H : Ideal hash) {leaf : F} {indices : Fin attesterTreeDepth → Bool}
    {path : Fin attesterTreeDepth → F} (h : merkleVerify hash leaf (self.computeRoot hash)
      ⟨attesterTreeDepth, indices, path⟩ = .ok ()) : ∃ i, leaf = self.leafNodes hash i := by
  rw [merkleVerify, require_eq_ok, binaryMerkleRoot_eq_foldPath, computeRoot_eq_nodeAt] at h
  have hall : (List.finRange attesterTreeDepth).filter
      (fun i => decide (i.val < attesterTreeDepth)) = List.finRange attesterTreeDepth :=
    List.filter_eq_self.mpr fun i _ => decide_eq_true i.isLt
  rw [hall] at h
  have hlen : ((List.finRange attesterTreeDepth).map fun i => (indices i, path i)).length = depth := by
    rw [List.length_map, List.length_finRange]
    rfl
  rw [← hlen, ← Nat.zero_add (List.length _)] at h
  exact ⟨_, (Merkle.foldPath_sound H.node_inj h).1⟩

/-- Every leaf has a path to the root. -/
theorem merkleVerify_leafNodes (self : RevocationTree F) {i : Nat} (hi : i < capacity) :
    ∃ (indices : Fin attesterTreeDepth → Bool) (path : Fin attesterTreeDepth → F),
      merkleVerify hash (self.leafNodes hash i) (self.computeRoot hash)
        ⟨attesterTreeDepth, indices, path⟩ = .ok () := by
  let p := Merkle.pathAt (merkleHash hash) (self.leafNodes hash) 0 attesterTreeDepth i
  have hlen : p.length = attesterTreeDepth := Merkle.length_pathAt _ _ _
  have hfold : Merkle.foldPath (merkleHash hash) (self.leafNodes hash i) p = self.computeRoot hash := by
    have hpath := @Merkle.foldPath_pathAt _ (merkleHash hash) (self.leafNodes hash) 0 attesterTreeDepth i
    have hdiv : i / 2 ^ attesterTreeDepth = 0 := Nat.div_eq_of_lt hi
    rw [Nat.zero_add, hdiv] at hpath
    rw [computeRoot_eq_nodeAt]
    exact hpath
  have hverify := (merkleVerify_ofList hlen.le).mpr hfold
  rw [MerklePath.ofList, hlen] at hverify
  exact ⟨_, _, hverify⟩

theorem refresh_cachedRoot (self : RevocationTree F) :
    (self.refresh hash).cachedRoot = (self.refresh hash).computeRoot hash := rfl

/-- The array holds the attesters, and the cached root is the root over it. -/
structure Inv (hash : List F → F) (tree : RevocationTree F) : Prop where
  nodup : tree.attesters.Nodup
  mem : ∀ a, a ∈ tree.attesters ↔ tree.isAttester a = true
  cached : tree.cachedRoot = tree.computeRoot hash

theorem inv_init : Inv hash (init hash) where
  nodup := List.nodup_nil
  mem a := by simp [init, refresh]
  cached := rfl

theorem Inv.insert (inv : Inv hash self) {a : Address} (h : self.insert hash a = .ok self') :
    Inv hash self' := by
  simp only [RevocationTree.insert, bind_eq_ok, failIf_eq_ok, pure_eq_ok, exists_const, Bool.not_eq_true] at h
  obtain ⟨hnew, -, rfl⟩ := h
  refine ⟨?_, fun b => ?_, rfl⟩
  · have hnotMem : a ∉ self.attesters := fun hmem => by simp [(inv.mem a).mp hmem] at hnew
    show (self.attesters ++ [a]).Nodup
    rw [← List.concat_eq_append]
    exact inv.nodup.concat hnotMem
  · show b ∈ self.attesters ++ [a] ↔ Function.update self.isAttester a true b = true
    rcases eq_or_ne b a with rfl | hne
    · simp
    · simp [inv.mem, hne]

theorem Inv.remove (inv : Inv hash self) {a : Address} (h : self.remove hash a = .ok self') :
    Inv hash self' := by
  simp only [RevocationTree.remove, bind_eq_ok, failIf_eq_ok, pure_eq_ok, exists_const, Bool.not_eq_false] at h
  obtain ⟨hold, rfl⟩ := h
  have hperm := swapAndPop_perm ((inv.mem a).mpr hold)
  refine ⟨hperm.nodup_iff.mpr (inv.nodup.erase a), fun b => ?_, rfl⟩
  show b ∈ swapAndPop self.attesters a ↔ Function.update self.isAttester a false b = true
  rw [hperm.mem_iff, inv.nodup.mem_erase_iff]
  rcases eq_or_ne b a with rfl | hne
  · simp
  · simp [inv.mem, hne]

theorem Inv.lower (inv : Inv hash self) {a : Address} {epoch : UInt64}
    (h : self.lower hash a epoch = .ok self') : Inv hash self' := by
  simp only [RevocationTree.lower, bind_eq_ok, pure_eq_ok] at h
  obtain ⟨_, -, rfl⟩ := h
  exact ⟨inv.nodup, inv.mem, rfl⟩

/-- A pair with a positive epoch that verifies against the cached root is the pair of an attester; the
empty leaf carries the epoch zero. -/
theorem Inv.contains_of_verify (inv : Inv hash self) (H : Ideal hash) {a : Address}
    {revokedAt : UInt64} {indices : Fin attesterTreeDepth → Bool} {path : Fin attesterTreeDepth → F}
    (h : merkleVerify hash (hash [ofAddress a, ofU64 revokedAt]) self.cachedRoot
      ⟨attesterTreeDepth, indices, path⟩ = .ok ()) (hpos : revokedAt ≠ 0) :
    self.contains a = true ∧ self.revokedAtEpochOf a = revokedAt := by
  rw [inv.cached] at h
  obtain ⟨i, hi⟩ := exists_leafNodes H h
  rw [leafNodes] at hi
  split at hi
  · next b hb =>
    obtain ⟨ha, hepoch⟩ := H.hash2_inj hi
    obtain rfl := ofAddress_inj ha
    exact ⟨(inv.mem a).mp (List.mem_of_getElem? hb), (ofU64_inj hepoch).symm⟩
  · exact absurd (ofU64_inj (H.hash2_inj hi).2) hpos

end RevocationTree

/-! ## Issuing -/

namespace AttestationRegistry
variable {F T : Type} [BnField F] {C : RegistryConfig F T} {self self' : AttestationRegistry F T}
  {sender : Address} {generation issuedAt expiresAt : UInt64} {subjects : List Word}

theorem issueAll_ok (h : subjects.foldlM (issueOne C sender generation issuedAt expiresAt) self =
    .ok self') : ∃ tree, self' = { self with attestationTree := tree } ∧
      (subjects.map fun s => attestationLeaf C sender s generation issuedAt expiresAt).foldlM
        (fun tree leaf => C.imt.insert leaf tree) self.attestationTree = .ok tree := by
  induction subjects generalizing self with
  | nil =>
    cases pure_eq_ok.mp h
    exact ⟨_, rfl, rfl⟩
  | cons s subjects ih =>
    rw [List.foldlM_cons, bind_eq_ok] at h
    obtain ⟨next, hs, hrest⟩ := h
    simp only [issueOne, bind_eq_ok, mapErr_eq_ok, pure_eq_ok] at hs
    obtain ⟨tree₁, htree₁, rfl⟩ := hs
    obtain ⟨tree, rfl, htree⟩ := ih hrest
    refine ⟨tree, rfl, ?_⟩
    rw [List.map_cons, List.foldlM_cons, bind_eq_ok]
    exact ⟨tree₁, htree₁, htree⟩

omit [BnField F] in
theorem checkGeneration_ok (h : self.checkGeneration generation = .ok self') :
    self'.attestationTree = self.attestationTree ∧ self'.validAttestationRoots = self.validAttestationRoots ∧
      self'.revocationTree = self.revocationTree := by
  have hself : self' = if generation > self.currentGeneration
      then { self with currentGeneration := generation } else self := by
    simp only [checkGeneration] at h
    split at h
    · simp only [bind_eq_ok, pure_eq_ok] at h
      obtain ⟨_, -, _, -, h⟩ := h
      exact h.symm
    · exact (pure_eq_ok.mp h).symm
  subst hself
  split <;> exact ⟨rfl, rfl, rfl⟩

omit [BnField F] in
theorem advanceAttestationRoot_valid {rootBefore r : Word}
    (h : (self.advanceAttestationRoot rootBefore).validAttestationRoots r = true) :
    self.validAttestationRoots r = true ∨ rootBefore ≠ 0 ∧ r = rootBefore := by
  unfold advanceAttestationRoot at h
  split at h
  · exact .inl h
  next hne =>
  rcases eq_or_ne r rootBefore with rfl | hr
  · exact .inr ⟨hne, rfl⟩
  · left
    simp only [Function.update_of_ne hr] at h
    split at h
    · rcases eq_or_ne r (self.historicalAttestationRoots self.historicalAttestationRootIndex) with rfl | hev
      · simp at h
      · rwa [Function.update_of_ne hev] at h
    · exact h

omit [BnField F] in
theorem advanceAttestationRoot_frame (rootBefore : Word) :
    (self.advanceAttestationRoot rootBefore).attestationTree = self.attestationTree ∧
      (self.advanceAttestationRoot rootBefore).revocationTree = self.revocationTree := by
  unfold advanceAttestationRoot
  split <;> exact ⟨rfl, rfl⟩

theorem addAttestations_ok (hL : C.imt.Lawful (merkleHash C.hash)) {timestamp : Nat}
    {events : List RegistryEvent} (h : self.addAttestations C sender timestamp subjects expiresAt
      generation = .ok (self', events)) : self'.revocationTree = self.revocationTree ∧
      C.imt.leaves self'.attestationTree = C.imt.leaves self.attestationTree ++ subjects.map (fun s =>
          attestationLeaf C sender s generation (UInt64.ofNat timestamp) expiresAt) ∧
      ∀ r, self'.validAttestationRoots r = true → self.validAttestationRoots r = true ∨
        C.imt.leaves self.attestationTree ≠ [] ∧ r = self.attestationRoot C := by
  simp only [addAttestations, bind_eq_ok, pure_eq_ok, Prod.mk.injEq] at h
  obtain ⟨_, -, _, -, _, -, checked, hchecked, issued, hissued, rfl, -⟩ := h
  obtain ⟨htree, hvalid, hrevocation⟩ := checkGeneration_ok hchecked
  obtain ⟨tree, rfl, hinsert⟩ := issueAll_ok hissued
  rw [htree] at hinsert
  have hroot : checked.attestationRoot C = self.attestationRoot C := by
    rw [attestationRoot, attestationRoot, htree]
  rw [(advanceAttestationRoot_frame _).1, (advanceAttestationRoot_frame _).2]
  refine ⟨hrevocation, hL.insertAll hinsert, fun r hr => ?_⟩
  rcases advanceAttestationRoot_valid hr with hr | ⟨hne, rfl⟩
  · exact .inl (hvalid ▸ hr)
  · refine .inr ⟨fun hnil => hne ?_, hroot⟩
    rw [hroot, attestationRoot, hL.root_nil hnil]
    exact Scalar.toNat_zero

end AttestationRegistry

open AttestationRegistry

/-! ## What every run keeps of the registry -/

section
variable {F T τ : Type} [BnField F] {D : Deployment F T τ} {w : World F T τ} {tr : List Step}
  {registry registry' : AttestationRegistry F T}

/-- A leaf that an accepted call of the run issued. -/
def Issued (D : Deployment F T τ) (tr : List Step) (leaf : F) : Prop :=
  ∃ attester subjects expiresAt generation, ∃ subject ∈ subjects, ∃ issuedAt,
    .registry attester (.addAttestations subjects expiresAt generation) ∈ tr ∧
      leaf = attestationLeaf D.toRegistryConfig attester subject generation issuedAt expiresAt

theorem Issued.cons {leaf : F} (h : Issued D tr leaf) (st : Step) : Issued D (st :: tr) leaf := by
  obtain ⟨attester, subjects, expiresAt, generation, subject, hmem, issuedAt, hcall, hleaf⟩ := h
  exact ⟨attester, subjects, expiresAt, generation, subject, hmem, issuedAt,
    List.mem_cons_of_mem _ hcall, hleaf⟩

structure RegistryInv (D : Deployment F T τ) (tr : List Step) (registry : AttestationRegistry F T) : Prop where
  issued : ∀ leaf ∈ D.imt.leaves registry.attestationTree, Issued D tr leaf
  roots : ∀ r, registry.validAttestationRoots r = true →
    Merkle.Spans (merkleHash D.hash) (D.imt.leaves registry.attestationTree) (Scalar.ofNat r)
  revocation : registry.revocationTree.Inv D.hash

/-- A step that leaves the attestations alone. -/
theorem RegistryInv.frame (inv : RegistryInv D tr registry) (st : Step)
    (tree : registry'.attestationTree = registry.attestationTree)
    (valid : registry'.validAttestationRoots = registry.validAttestationRoots)
    (revocation : registry'.revocationTree.Inv D.hash) : RegistryInv D (st :: tr) registry' where
  issued leaf h := (inv.issued leaf (tree ▸ h)).cons st
  roots r h := tree ▸ inv.roots r (valid ▸ h)
  revocation := revocation

section
variable (inv : RegistryInv D tr registry) (hL : D.imt.Lawful (merkleHash D.hash))
include inv hL

/-- The roots the registry knows: of the current tree, or of an earlier one. -/
theorem RegistryInv.known
    {r : Word} (h : registry.isKnownAttestationRoot D.toRegistryConfig r = true) : Scalar.ofNat r = (0 : F) ∨
      Merkle.Spans (merkleHash D.hash) (D.imt.leaves registry.attestationTree) (Scalar.ofNat r) := by
  simp only [isKnownAttestationRoot, Bool.or_eq_true, decide_eq_true_eq] at h
  exact hL.known BnField.ofNat_toNat inv.roots h

theorem RegistryInv.addAttestations {sender : Address} {timestamp : Nat}
    {subjects : List Word} {expiresAt generation : UInt64} {events : List RegistryEvent}
    (h : registry.addAttestations D.toRegistryConfig sender timestamp subjects expiresAt generation =
      .ok (registry', events)) :
    RegistryInv D (.registry sender (.addAttestations subjects expiresAt generation) :: tr) registry' := by
  obtain ⟨hrevocation, hleaves, hvalid⟩ := addAttestations_ok hL h
  have hsub : D.imt.leaves registry.attestationTree ⊆ D.imt.leaves registry'.attestationTree := by
    rw [hleaves]
    exact List.subset_append_left _ _
  refine ⟨fun leaf hleaf => ?_, fun r hr => ?_, hrevocation ▸ inv.revocation⟩
  · rw [hleaves, List.mem_append] at hleaf
    rcases hleaf with hleaf | hleaf
    · exact (inv.issued leaf hleaf).cons _
    · obtain ⟨s, hs, rfl⟩ := List.mem_map.mp hleaf
      exact ⟨sender, subjects, expiresAt, generation, s, hs, _, List.mem_cons_self, rfl⟩
  · rcases hvalid r hr with hr | ⟨hne, rfl⟩
    · exact (inv.roots r hr).mono hsub
    · rw [attestationRoot, BnField.ofNat_toNat]
      exact (hL.root hne).mono hsub

theorem RegistryInv.call
    {sender : Address} {timestamp : Nat} {call : RegistryCall} {events : List RegistryEvent}
    (h : RegistryCall.run D.toRegistryConfig sender timestamp registry call =
      .ok (registry', events)) : RegistryInv D (.registry sender call :: tr) registry' := by
  cases call with
  | addAttestations => exact inv.addAttestations hL h
  | addAttester attester =>
    simp only [RegistryCall.run, AttestationRegistry.addAttester, bind_eq_ok, pure_eq_ok, Prod.mk.injEq] at h
    obtain ⟨_, -, _, -, tree, htree, rfl, -⟩ := h
    exact inv.frame _ rfl rfl (inv.revocation.insert htree)
  | removeAttester attester =>
    simp only [RegistryCall.run, AttestationRegistry.removeAttester, bind_eq_ok, pure_eq_ok, Prod.mk.injEq] at h
    obtain ⟨_, -, tree, htree, rfl, -⟩ := h
    exact inv.frame _ rfl rfl (inv.revocation.remove htree)
  | lowerRevocation attester newRevokedAtEpoch =>
    simp only [RegistryCall.run, AttestationRegistry.lowerRevocation, bind_eq_ok, pure_eq_ok,
      Prod.mk.injEq] at h
    obtain ⟨_, -, _, -, _, -, tree, htree, rfl, -⟩ := h
    exact inv.frame _ rfl rfl (inv.revocation.lower htree)
  | raiseMinAcceptedGeneration newValue activationEpoch =>
    simp only [RegistryCall.run, AttestationRegistry.raiseMinAcceptedGeneration, bind_eq_ok,
      pure_eq_ok, Prod.mk.injEq] at h
    obtain ⟨_, -, _, -, _, -, rfl, -⟩ := h
    exact inv.frame _ rfl rfl inv.revocation
  | grantRole | revokeRole | renounceRole =>
    obtain ⟨_, -, h⟩ := bind_eq_ok.mp h
    cases pure_eq_ok.mp h
    exact inv.frame _ rfl rfl inv.revocation

end

theorem Run.registryInv (hL : D.imt.Lawful (merkleHash D.hash)) {w₀ : World F T τ}
    (h₀ : Deployed D w₀) (hrun : Run (Transition D) w₀ tr w) : RegistryInv D tr w.registry := by
  refine hrun.invariant (I := fun tr w => RegistryInv D tr w.registry) ?_ ?_
  · obtain ⟨hregistry, -⟩ := h₀
    simp only [AttestationRegistry.new, bind_eq_ok, pure_eq_ok] at hregistry
    obtain ⟨_, -, _, -, _, -, _, -, rfl⟩ := hregistry
    refine ⟨fun leaf hleaf => ?_, fun r hr => absurd hr Bool.false_ne_true, RevocationTree.inv_init⟩
    rw [hL.leaves_empty] at hleaf
    cases hleaf
  · intro tr w st w' _ hstep inv
    cases hstep with
    | pool _ ok =>
      have hsame := (PoolCall.run_step ok).admitted.registry
      exact inv.frame _ (by rw [hsame]) (by rw [hsame]) (hsame ▸ inv.revocation)
    | registry ok => exact inv.call hL ok
    | poolReverted | registryReverted | tick | elsewhere => exact inv.frame _ rfl rfl inv.revocation

end

end Pocs.Compliance
