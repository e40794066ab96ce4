import Pocs.Compliance.Honest

/-! # What the registry never takes back

The registry alone, with its clock. A lowered revocation survives the removal and the re-addition of
its attester through `revocationFloor`, whose zero stands for "never lowered" (`Lowered`); the
accepted generation only grows, although it is stored as a pair of a settled and a pending value
(`FloorInv`). -/

namespace Pocs.Compliance

variable {F T : Type} [BnField F]

/-- The registry and `block.timestamp`. -/
structure RegistryWorld (F T : Type) where
  timestamp : Nat
  registry : AttestationRegistry F T

inductive RegistryStep where
  | call (sender : Address) (call : RegistryCall)
  | reverted (sender : Address) (call : RegistryCall)
  | tick (timestamp : Nat)

/-- Calls, failed calls and the passage of time. -/
inductive RegistryTransition (C : RegistryConfig F T) (s : RegistryWorld F T) :
    RegistryStep → RegistryWorld F T → Prop where
  | call {sender call registry events}
    (ok : RegistryCall.run C sender s.timestamp s.registry call = .ok (registry, events)) :
    RegistryTransition C s (.call sender call) { s with registry }
  | reverted {sender call e} (err : RegistryCall.run C sender s.timestamp s.registry call = .error e) :
    RegistryTransition C s (.reverted sender call) s
  | tick {timestamp} (le : s.timestamp ≤ timestamp) :
    RegistryTransition C s (.tick timestamp) { s with timestamp }

def RegistryWorld.minAcceptedGeneration (C : RegistryConfig F T) (s : RegistryWorld F T) : UInt64 :=
  s.registry.minAcceptedGeneration C s.timestamp

/-! ## What a call does to the revocation tree and the generation floor -/

namespace RevocationTree

/-- `a` was lowered to `e` or below: its floor is set, and it is gone or revoked by then. -/
structure Lowered (tree : RevocationTree F) (a : Address) (e : UInt64) : Prop where
  floor_ne : tree.revocationFloor a ≠ 0
  floor_le : tree.revocationFloor a ≤ e
  revoked : tree.isAttester a = true → tree.revokedAtEpoch a ≤ e

variable {hash : List F → F} {tree tree' : RevocationTree F} {a b : Address} {e e' : UInt64}

theorem Lowered.insert (h : tree.Lowered a e) (hok : tree.insert hash b = .ok tree') : tree'.Lowered a e := by
  simp only [RevocationTree.insert, bind_eq_ok, failIf_eq_ok, pure_eq_ok, exists_const] at hok
  obtain ⟨-, -, rfl⟩ := hok
  refine ⟨h.floor_ne, h.floor_le, fun hmem => ?_⟩
  show Function.update tree.revokedAtEpoch b _ a ≤ e
  rcases eq_or_ne a b with rfl | hne
  · -- the attester comes back with its floor
    rw [Function.update_self, if_neg h.floor_ne]
    exact h.floor_le
  · rw [Function.update_of_ne hne]
    refine h.revoked ?_
    rw [← hmem]
    exact (Function.update_of_ne hne _ _).symm

theorem Lowered.remove (h : tree.Lowered a e) (hok : tree.remove hash b = .ok tree') : tree'.Lowered a e := by
  simp only [RevocationTree.remove, bind_eq_ok, failIf_eq_ok, pure_eq_ok, exists_const] at hok
  obtain ⟨-, rfl⟩ := hok
  refine ⟨h.floor_ne, h.floor_le, fun hmem => ?_⟩
  show Function.update tree.revokedAtEpoch b 0 a ≤ e
  replace hmem : Function.update tree.isAttester b false a = true := hmem
  rcases eq_or_ne a b with rfl | hne
  · rw [Function.update_self] at hmem
    cases hmem
  · rw [Function.update_of_ne hne] at hmem ⊢
    exact h.revoked hmem

/-- Lowering `b` lowers `b`, and keeps what was lowered before. -/
theorem Lowered.lower (hok : tree.lower hash b e' = .ok tree') (he' : e' ≠ 0)
    (hlt : e' < tree.revokedAtEpoch b) (h : a = b ∧ e = e' ∨ tree.Lowered a e) : tree'.Lowered a e := by
  simp only [RevocationTree.lower, bind_eq_ok, failIf_eq_ok, pure_eq_ok, exists_const, Bool.not_eq_false] at hok
  obtain ⟨hmem, rfl⟩ := hok
  rcases eq_or_ne a b with rfl | hne
  · have hle : e' ≤ e := by
      rcases h with ⟨-, rfl⟩ | h
      · exact UInt64.le_refl e
      · exact UInt64.le_of_lt (UInt64.lt_of_lt_of_le hlt (h.revoked hmem))
    refine ⟨?_, ?_, fun _ => ?_⟩
    · show Function.update tree.revocationFloor a e' a ≠ 0
      rwa [Function.update_self]
    · show Function.update tree.revocationFloor a e' a ≤ e
      rwa [Function.update_self]
    · show Function.update tree.revokedAtEpoch a e' a ≤ e
      rwa [Function.update_self]
  · replace h := h.resolve_left fun h => hne h.1
    refine ⟨?_, ?_, fun hold => ?_⟩
    · show Function.update tree.revocationFloor b e' a ≠ 0
      rw [Function.update_of_ne hne]
      exact h.floor_ne
    · show Function.update tree.revocationFloor b e' a ≤ e
      rw [Function.update_of_ne hne]
      exact h.floor_le
    · show Function.update tree.revokedAtEpoch b e' a ≤ e
      rw [Function.update_of_ne hne]
      exact h.revoked hold

end RevocationTree

namespace AttestationRegistry
variable {C : RegistryConfig F T} {self self' : AttestationRegistry F T} {sender : Address}
  {timestamp : Nat} {events : List RegistryEvent}

/-- The floor of the accepted generations is stored as before. -/
structure SameFloor (r r' : AttestationRegistry F T) : Prop where
  stored : r'.storedMinAcceptedGeneration = r.storedMinAcceptedGeneration
  pending : r'.pendingMinAcceptedGeneration = r.pendingMinAcceptedGeneration
  activation : r'.minAcceptedGenerationActivationEpoch = r.minAcceptedGenerationActivationEpoch

/-- What an accepted call does to the revocation tree and to the generation floor. -/
inductive Effect (C : RegistryConfig F T) (timestamp : Nat) (r r' : AttestationRegistry F T) :
    RegistryCall → Prop where
  | addAttester {a} (tree : r.revocationTree.insert C.hash a = .ok r'.revocationTree)
    (same : SameFloor r r') : Effect C timestamp r r' (.addAttester a)
  | removeAttester {a} (tree : r.revocationTree.remove C.hash a = .ok r'.revocationTree)
    (same : SameFloor r r') : Effect C timestamp r r' (.removeAttester a)
  | lowerRevocation {a e} (tree : r.revocationTree.lower C.hash a e = .ok r'.revocationTree)
    (lt : e < r.revocationTree.revokedAtEpoch a) (le : currentEpoch C timestamp ≤ e.toNat)
    (same : SameFloor r r') : Effect C timestamp r r' (.lowerRevocation a e)
  | raiseMinAcceptedGeneration {newValue activationEpoch} (tree : r'.revocationTree = r.revocationTree)
    (future : currentEpoch C timestamp < r'.minAcceptedGenerationActivationEpoch)
    (lt : r'.storedMinAcceptedGeneration < r'.pendingMinAcceptedGeneration)
    (settled : r'.storedMinAcceptedGeneration = r.minAcceptedGeneration C timestamp) :
    Effect C timestamp r r' (.raiseMinAcceptedGeneration newValue activationEpoch)
  | other {call} (tree : r'.revocationTree = r.revocationTree) (same : SameFloor r r')
    (not_lower : ∀ a e, call ≠ .lowerRevocation a e) : Effect C timestamp r r' call

/-- Issuing attestations leaves the revocation tree and the floor alone. -/
theorem addAttestations_frame {subjects : List Word} {expiresAt generation : UInt64}
    (h : self.addAttestations C sender timestamp subjects expiresAt generation =
      .ok (self', events)) : self'.revocationTree = self.revocationTree ∧ SameFloor self self' := by
  simp only [addAttestations, bind_eq_ok, pure_eq_ok, Prod.mk.injEq] at h
  obtain ⟨_, -, _, -, _, -, checked, hchecked, issued, hissued, rfl, -⟩ := h
  have hfirst : checked.revocationTree = self.revocationTree ∧ SameFloor self checked := by
    simp only [checkGeneration] at hchecked
    have hcases : checked = if generation > self.currentGeneration
        then { self with currentGeneration := generation } else self := by
      split at hchecked
      · simp only [bind_eq_ok, pure_eq_ok] at hchecked
        obtain ⟨_, -, _, -, h⟩ := hchecked
        exact h.symm
      · exact (pure_eq_ok.mp hchecked).symm
    subst hcases
    split <;> exact ⟨rfl, rfl, rfl, rfl⟩
  have hloop : issued.revocationTree = self.revocationTree ∧ SameFloor self issued := by
    refine foldlM_ok_induction (motive := fun r => r.revocationTree = self.revocationTree ∧
      SameFloor self r) hissued hfirst fun subject _ r r' hr ih => ?_
    simp only [issueOne, bind_eq_ok, pure_eq_ok] at hr
    obtain ⟨_, -, rfl⟩ := hr
    exact ⟨ih.1, ih.2.stored, ih.2.pending, ih.2.activation⟩
  unfold advanceAttestationRoot
  split
  · exact hloop
  · exact ⟨hloop.1, hloop.2.stored, hloop.2.pending, hloop.2.activation⟩

end AttestationRegistry

open AttestationRegistry

section
variable {C : RegistryConfig F T} {self self' : AttestationRegistry F T} {sender : Address}
  {timestamp : Nat} {events : List RegistryEvent}

theorem RegistryCall.run_effect {call : RegistryCall}
    (h : RegistryCall.run C sender timestamp self call = .ok (self', events)) :
    Effect C timestamp self self' call := by
  cases call with
  | addAttestations =>
    obtain ⟨htree, hsame⟩ := addAttestations_frame h
    exact .other htree hsame fun _ _ => RegistryCall.noConfusion
  | addAttester a =>
    simp only [RegistryCall.run, AttestationRegistry.addAttester, bind_eq_ok, pure_eq_ok, Prod.mk.injEq] at h
    obtain ⟨_, -, _, -, tree, htree, rfl, -⟩ := h
    exact .addAttester htree ⟨rfl, rfl, rfl⟩
  | removeAttester a =>
    simp only [RegistryCall.run, AttestationRegistry.removeAttester, bind_eq_ok, pure_eq_ok, Prod.mk.injEq] at h
    obtain ⟨_, -, tree, htree, rfl, -⟩ := h
    exact .removeAttester htree ⟨rfl, rfl, rfl⟩
  | lowerRevocation a e =>
    simp only [RegistryCall.run, AttestationRegistry.lowerRevocation, bind_eq_ok, failIf_eq_ok,
      pure_eq_ok, exists_const, not_or, Prod.mk.injEq] at h
    obtain ⟨_, -, -, ⟨hlt, hle⟩, tree, htree, rfl, -⟩ := h
    exact .lowerRevocation htree (UInt64.not_le.mp hlt) (Nat.not_lt.mp hle) ⟨rfl, rfl, rfl⟩
  | raiseMinAcceptedGeneration newValue activationEpoch =>
    simp only [RegistryCall.run, AttestationRegistry.raiseMinAcceptedGeneration, bind_eq_ok,
      failIf_eq_ok, pure_eq_ok, exists_const, Prod.mk.injEq] at h
    obtain ⟨_, -, hfuture, hgt, rfl, -⟩ := h
    exact .raiseMinAcceptedGeneration rfl (Nat.not_le.mp hfuture) (UInt64.not_le.mp hgt) rfl
  | grantRole | revokeRole | renounceRole =>
    obtain ⟨_, -, h⟩ := bind_eq_ok.mp h
    cases pure_eq_ok.mp h
    exact .other rfl ⟨rfl, rfl, rfl⟩ fun _ _ => RegistryCall.noConfusion

/-- From the first epoch on, a call keeps what was lowered, and `lowerRevocation` lowers. -/
theorem AttestationRegistry.Effect.lowered {call : RegistryCall}
    (h : Effect C timestamp self self' call) (hepoch : 1 ≤ currentEpoch C timestamp) {a : Address}
    {e : UInt64} (hlow : call = .lowerRevocation a e ∨ self.revocationTree.Lowered a e) :
    self'.revocationTree.Lowered a e := by
  cases h with
  | addAttester tree =>
    exact (hlow.resolve_left nofun).insert tree
  | removeAttester tree =>
    exact (hlow.resolve_left nofun).remove tree
  | lowerRevocation tree lt le =>
    refine .lower tree (fun hzero => ?_) lt ?_
    · rw [hzero] at le
      exact absurd (hepoch.trans le) (by decide)
    · rcases hlow with hcall | hlow
      · cases hcall
        exact .inl ⟨rfl, rfl⟩
      · exact .inr hlow
  | raiseMinAcceptedGeneration tree =>
    rw [tree]
    exact hlow.resolve_left nofun
  | other tree _ not_lower =>
    rw [tree]
    exact hlow.resolve_left (not_lower a e)

/-! ## The generation floor -/

/-- The pending value is not below the settled one. -/
def AttestationRegistry.FloorInv (self : AttestationRegistry F T) : Prop :=
  self.storedMinAcceptedGeneration ≤ self.pendingMinAcceptedGeneration

omit [BnField F] in
theorem AttestationRegistry.SameFloor.minAcceptedGeneration (h : SameFloor self self') :
    self'.minAcceptedGeneration C timestamp = self.minAcceptedGeneration C timestamp := by
  have hactive : self'.floorActive C timestamp ↔ self.floorActive C timestamp := by
    rw [floorActive, floorActive, h.activation]
  simp only [AttestationRegistry.minAcceptedGeneration, hactive, h.stored, h.pending]

/-- A call does not change the generation accepted now: a raise settles the value in force and is
itself in the future. -/
theorem AttestationRegistry.Effect.minAcceptedGeneration_eq {call : RegistryCall}
    (h : Effect C timestamp self self' call) :
    self'.minAcceptedGeneration C timestamp = self.minAcceptedGeneration C timestamp := by
  cases h with
  | addAttester _ same | removeAttester _ same | lowerRevocation _ _ _ same | other _ same =>
    exact same.minAcceptedGeneration
  | raiseMinAcceptedGeneration _ future _ settled =>
    have hinactive : ¬ self'.floorActive C timestamp := fun h => absurd future (Nat.not_lt.mpr h.2)
    rw [AttestationRegistry.minAcceptedGeneration, if_neg hinactive]
    exact settled

theorem AttestationRegistry.Effect.floorInv {call : RegistryCall}
    (h : Effect C timestamp self self' call) (inv : self.FloorInv) : self'.FloorInv := by
  cases h with
  | addAttester _ same | removeAttester _ same | lowerRevocation _ _ _ same | other _ same =>
    rw [FloorInv, same.stored, same.pending]
    exact inv
  | raiseMinAcceptedGeneration _ _ lt => exact UInt64.le_of_lt lt

omit [BnField F] in
/-- The clock only activates the pending value. -/
theorem AttestationRegistry.FloorInv.minAcceptedGeneration_le (inv : self.FloorInv)
    {timestamp' : Nat} (h : timestamp ≤ timestamp') :
    self.minAcceptedGeneration C timestamp ≤ self.minAcceptedGeneration C timestamp' := by
  unfold AttestationRegistry.minAcceptedGeneration
  by_cases hnow : self.floorActive C timestamp
  · have hlater : self.floorActive C timestamp' :=
      ⟨hnow.1, hnow.2.trans (Nat.div_le_div_right h)⟩
    rw [if_pos hnow, if_pos hlater]
    exact UInt64.le_refl _
  · rw [if_neg hnow]
    split
    · exact inv
    · exact UInt64.le_refl _

end

/-! ## Runs -/

section
variable {C : RegistryConfig F T} {s s' s₀ : RegistryWorld F T} {tr tr' : List RegistryStep}

/-- What a run keeps: the clock is past the first epoch, the floor is in order, and each lowering
holds. -/
structure RevocationInv (C : RegistryConfig F T) (tr : List RegistryStep) (s : RegistryWorld F T) : Prop where
  epoch : 1 ≤ currentEpoch C s.timestamp
  floor : s.registry.FloorInv
  lowered : ∀ sender a e, .call sender (.lowerRevocation a e) ∈ tr → s.registry.revocationTree.Lowered a e

theorem RevocationInv.step (inv : RevocationInv C tr s) {st : RegistryStep}
    (h : RegistryTransition C s st s') : RevocationInv C (st :: tr) s' := by
  cases h with
  | call ok =>
    have heffect := RegistryCall.run_effect ok
    refine ⟨inv.epoch, heffect.floorInv inv.floor, fun sender a e hmem => ?_⟩
    apply heffect.lowered inv.epoch
    rcases List.mem_cons.mp hmem with hcall | hold
    · cases hcall
      exact .inl rfl
    · exact .inr (inv.lowered sender a e hold)
  | reverted =>
    exact ⟨inv.epoch, inv.floor, fun sender a e hmem =>
      inv.lowered sender a e ((List.mem_cons.mp hmem).resolve_left nofun)⟩
  | tick le =>
    exact ⟨inv.epoch.trans (Nat.div_le_div_right le), inv.floor, fun sender a e hmem =>
      inv.lowered sender a e ((List.mem_cons.mp hmem).resolve_left nofun)⟩

theorem RevocationInv.minAcceptedGeneration_le (inv : RevocationInv C tr s) {st : RegistryStep}
    (h : RegistryTransition C s st s') : s.minAcceptedGeneration C ≤ s'.minAcceptedGeneration C := by
  cases h with
  | call ok =>
    have heq := (RegistryCall.run_effect ok).minAcceptedGeneration_eq
    exact UInt64.le_of_eq heq.symm
  | reverted => exact UInt64.le_refl _
  | tick le => exact inv.floor.minAcceptedGeneration_le le

theorem RevocationInv.run (inv : RevocationInv C tr s) (h : Run (RegistryTransition C) s tr' s') :
    RevocationInv C (tr' ++ tr) s' ∧ s.minAcceptedGeneration C ≤ s'.minAcceptedGeneration C := by
  refine h.invariant (I := fun tr' s' => RevocationInv C (tr' ++ tr) s' ∧
    s.minAcceptedGeneration C ≤ s'.minAcceptedGeneration C) ⟨inv, UInt64.le_refl _⟩ ?_
  intro tr₁ s₁ st s₂ _ hstep ⟨inv₁, hle⟩
  exact ⟨inv₁.step hstep, UInt64.le_trans hle (inv₁.minAcceptedGeneration_le hstep)⟩

theorem AttestationRegistry.new_revocationInv {admin timelock : Address} {timestamp : Nat}
    (h : AttestationRegistry.new C admin timelock = .ok self) (hepoch : 1 ≤ currentEpoch C timestamp) :
    RevocationInv C [] ⟨timestamp, self⟩ := by
  simp only [AttestationRegistry.new, bind_eq_ok, pure_eq_ok] at h
  obtain ⟨_, -, _, -, _, -, _, -, rfl⟩ := h
  exact ⟨hepoch, UInt64.le_refl _, fun _ _ _ hmem => absurd hmem List.not_mem_nil⟩

/-- In every run of the registry from its constructor on, an attester that was lowered to an epoch is
out of the revocation tree or revoked by that epoch, however often it was removed and added again;
and from any point of the run on, the accepted generation does not fall. -/
theorem revocations_never_return {admin timelock : Address} {timestamp : Nat}
    {registry : AttestationRegistry F T} (hnew : AttestationRegistry.new C admin timelock = .ok registry)
    (hepoch : 1 ≤ currentEpoch C timestamp) (hrun : Run (RegistryTransition C) ⟨timestamp, registry⟩ tr s)
    (hrun' : Run (RegistryTransition C) s tr' s') : (∀ sender a e, .call sender (.lowerRevocation a e) ∈ tr →
      s'.registry.revocationTree.contains a = false ∨ s'.registry.revocationTree.revokedAtEpochOf a ≤ e) ∧
      s.minAcceptedGeneration C ≤ s'.minAcceptedGeneration C := by
  have inv := ((new_revocationInv hnew hepoch).run hrun).1
  rw [List.append_nil] at inv
  obtain ⟨inv', hle⟩ := inv.run hrun'
  refine ⟨fun sender a e hmem => ?_, hle⟩
  have hlow := inv'.lowered sender a e (List.mem_append_right _ hmem)
  cases hcontains : s'.registry.revocationTree.contains a with
  | false => exact .inl rfl
  | true => exact .inr (hlow.revoked hcontains)

def Sample.lowered (hash : List F → F) : AttestationRegistry F (LeanImtTree (merkleHash hash)) :=
  { Sample.registry hash (leanImt (merkleHash hash)).empty with
    revocationTree := .refresh hash { Sample.revocationTree hash with
      revokedAtEpoch := Function.update (Sample.revocationTree hash).revokedAtEpoch Sample.attester 9
      revocationFloor := Function.update (fun _ => 0) Sample.attester 9 } }

theorem Sample.lowerRevocation_ok (hash : List F → F) :
    (Sample.registry hash (leanImt (merkleHash hash)).empty).lowerRevocation
      (Sample.deployment hash).toRegistryConfig Sample.timelock Sample.timestamp Sample.attester 9 =
        .ok (Sample.lowered hash, [.attesterRevocationLowered Sample.attester 9]) := by
  have hepoch : currentEpoch (Sample.deployment hash).toRegistryConfig Sample.timestamp = 7 := by
    show 604800 / 86400 = 7
    rfl
  refine bind_eq_ok.mpr ⟨(), rfl, bind_eq_ok.mpr ⟨(), rfl, bind_eq_ok.mpr ⟨(), ?_, rfl⟩⟩⟩
  rw [failIf_eq_ok, hepoch]
  show ¬ ((9 : UInt64) ≥ uint64Max ∨ UInt64.toNat 9 < 7)
  decide

/-- An attester that is lowered, removed and added again. -/
theorem revocations_never_return_readded : ∃ s s',
    Run (RegistryTransition (Sample.deployment idealHash).toRegistryConfig)
      ⟨Sample.timestamp, Sample.registry₀ idealHash⟩
      [.call Sample.timelock (.lowerRevocation Sample.attester 9),
        .call Sample.admin (.addAttester Sample.attester)] s ∧
    Run (RegistryTransition (Sample.deployment idealHash).toRegistryConfig) s
      [.tick 700000, .call Sample.admin (.addAttester Sample.attester),
        .call Sample.admin (.removeAttester Sample.attester)] s' ∧
    s'.registry.revocationTree.contains Sample.attester = true ∧
    s'.registry.revocationTree.revokedAtEpochOf Sample.attester ≤ 9 := by
  have hepoch : 1 ≤ currentEpoch (Sample.deployment idealHash).toRegistryConfig Sample.timestamp := by
    show 1 ≤ 604800 / 86400
    decide
  have hle : Sample.timestamp ≤ 700000 := by decide
  have hrun : Run (RegistryTransition (Sample.deployment idealHash).toRegistryConfig)
      ⟨Sample.timestamp, Sample.registry₀ idealHash⟩
      [.call Sample.timelock (.lowerRevocation Sample.attester 9),
        .call Sample.admin (.addAttester Sample.attester)]
      ⟨Sample.timestamp, Sample.lowered idealHash⟩ :=
    .cons (.cons .nil (.call (Sample.addAttester_ok idealHash))) (.call (Sample.lowerRevocation_ok idealHash))
  obtain ⟨s', hrun', hmember⟩ : ∃ s', Run (RegistryTransition (Sample.deployment idealHash).toRegistryConfig)
        ⟨Sample.timestamp, Sample.lowered idealHash⟩
        [.tick 700000, .call Sample.admin (.addAttester Sample.attester),
          .call Sample.admin (.removeAttester Sample.attester)] s' ∧
      s'.registry.revocationTree.contains Sample.attester = true :=
    ⟨_, .cons (.cons (.cons .nil (.call rfl)) (.call rfl)) (.tick hle), rfl⟩
  have hlast := (revocations_never_return (Sample.registry_new idealHash) hepoch hrun hrun').1
    Sample.timelock Sample.attester 9 List.mem_cons_self
  refine ⟨_, s', hrun, hrun', hmember, hlast.resolve_left ?_⟩
  rw [hmember]
  exact nofun

end

end Pocs.Compliance
