import Pocs.Mmf.Attestations
import Pocs.Mmf.Losses

/-! # Retired generations

The fund's registry alone, with its clock. Its generation floor never falls, although it is stored as a
settled and a pending value (`FloorInv`). A revocation for cause queues a floor past every generation
issued; the leaves are retired from the next epoch unless governance queues another raise before the
epoch is over, which takes the one slot for pending values (`Spares`). -/

namespace Pocs.Mmf

open Compliance (BnField Word Address Ideal merkleHash uint256Max idealHash idealHash_ideal)

variable {F T : Type} [FeedField F]

/-! ## Runs of the registry -/

/-- The registry and `block.timestamp`. -/
structure RegistryWorld (T : Type) where
  timestamp : Nat
  registry : AttestationRegistry T

inductive RegistryStep where
  | call (timestamp : Nat) (sender : Address) (call : RegistryCall) (events : List RegistryEvent)
  | reverted (sender : Address) (call : RegistryCall)
  | tick (timestamp : Nat)

/-- The clock does not go back, and does not come to the end of a `uint256`. -/
inductive RegistryTransition (C : RegistryConfig F T) (s : RegistryWorld T) :
    RegistryStep → RegistryWorld T → Prop where
  | call {sender call registry events}
    (ok : RegistryCall.run C sender s.timestamp s.registry call = .ok (registry, events)) :
    RegistryTransition C s (.call s.timestamp sender call events) { s with registry }
  | reverted {sender call e} (err : RegistryCall.run C sender s.timestamp s.registry call = .error e) :
    RegistryTransition C s (.reverted sender call) s
  | tick {timestamp} (le : s.timestamp ≤ timestamp) (lt : timestamp < uint256Max) :
    RegistryTransition C s (.tick timestamp) { s with timestamp }

/-- The registry as it was deployed. -/
inductive RegistryDeployed (C : RegistryConfig F T) : RegistryWorld T → Prop where
  | mk {timestamp attester timelock registry} (lt : timestamp < uint256Max)
    (new : AttestationRegistry.new C attester timelock = .ok registry) :
    RegistryDeployed C ⟨timestamp, registry⟩

section
variable (C : RegistryConfig F T) (s : RegistryWorld T)

def RegistryWorld.epoch : Nat := AttestationRegistry.currentEpoch C s.timestamp

def RegistryWorld.minAcceptedGeneration : UInt64 := s.registry.minAcceptedGeneration C s.timestamp

end

/-- A leaf of the generation was issued. -/
def Added (tr : List RegistryStep) (generation : UInt64) : Prop :=
  ∃ timestamp sender call events leaf owner attester issuedAt expiresAt,
    .call timestamp sender call events ∈ tr ∧
    .attestationAdded leaf owner attester generation issuedAt expiresAt ∈ events

theorem Added.mono {tr tr' : List RegistryStep} {generation : UInt64} (h : Added tr generation)
    (hsub : tr ⊆ tr') : Added tr' generation := by
  obtain ⟨timestamp, sender, call, events, leaf, owner, attester, issuedAt, expiresAt, hstep, hadded⟩ := h
  exact ⟨timestamp, sender, call, events, leaf, owner, attester, issuedAt, expiresAt, hsub hstep, hadded⟩

/-! ## What a call does to the floor -/

namespace AttestationRegistry
variable {C : RegistryConfig F T} {self self' : AttestationRegistry T} {sender : Address}
  {timestamp : Nat} {events : List RegistryEvent} {call : RegistryCall}

/-- The floor is stored as before. -/
structure SameFloor (r r' : AttestationRegistry T) : Prop where
  stored : r'.storedMinAcceptedGeneration = r.storedMinAcceptedGeneration
  pending : r'.pendingMinAcceptedGeneration = r.pendingMinAcceptedGeneration
  activation : r'.minAcceptedGenerationActivationEpoch = r.minAcceptedGenerationActivationEpoch

structure SameBatch (r r' : AttestationRegistry T) : Prop where
  generation : r'.currentGeneration = r.currentGeneration
  issuedAt : r'.lastIssuedAt = r.lastIssuedAt
  tree : r'.attestationTree = r.attestationTree

/-- A higher floor is queued for a later epoch, and the one in force is settled. -/
structure Queued (C : RegistryConfig F T) (timestamp : Nat) (newValue : UInt64) (activationEpoch : Nat)
    (r r' : AttestationRegistry T) : Prop where
  stored : r'.storedMinAcceptedGeneration = r.minAcceptedGeneration C timestamp
  pending : r'.pendingMinAcceptedGeneration = newValue
  activation : r'.minAcceptedGenerationActivationEpoch = activationEpoch
  increases : r.minAcceptedGeneration C timestamp < newValue
  future : currentEpoch C timestamp < activationEpoch

/-- What an accepted call does to the floor and to the generation of the batches. -/
inductive FloorEffect (C : RegistryConfig F T) (timestamp : Nat) (r r' : AttestationRegistry T) :
    RegistryCall → Prop where
  | issued {owners expiresAt generation} (floor : SameFloor r r')
    (generation_eq : r'.currentGeneration = generation)
    (le : r.currentGeneration ≤ generation) :
    FloorEffect C timestamp r r' (.addAttestations owners expiresAt generation)
  | raised {newValue activationEpoch} (queued : Queued C timestamp newValue activationEpoch r r')
    (same : SameBatch r r') :
    FloorEffect C timestamp r r' (.raiseMinAcceptedGeneration newValue activationEpoch)
  | retired {trustedUntil} (cause : trustedUntil < r.lastIssuedAt)
    (queued : Queued C timestamp (r.currentGeneration + 1) (currentEpoch C timestamp + 1) r r')
    (same : SameBatch r r') :
    FloorEffect C timestamp r r' (.revokeAttester trustedUntil)
  | revoked {trustedUntil} (floor : SameFloor r r')
    (past : trustedUntil < r.lastIssuedAt → r.currentGeneration < r.minAcceptedGeneration C timestamp)
    (same : SameBatch r r') :
    FloorEffect C timestamp r r' (.revokeAttester trustedUntil)
  | other {other : RegistryCall} (floor : SameFloor r r') (same : SameBatch r r')
    (not_issues : ∀ owners expiresAt generation, other ≠ .addAttestations owners expiresAt generation)
    (not_raises : ∀ newValue activationEpoch, other ≠ .raiseMinAcceptedGeneration newValue activationEpoch)
    (not_revokes : ∀ trustedUntil, other ≠ .revokeAttester trustedUntil) :
    FloorEffect C timestamp r r' other

omit [FeedField F] in
theorem not_floorActive_of_future (h : currentEpoch C timestamp <
    self.minAcceptedGenerationActivationEpoch) : ¬ self.floorActive C timestamp :=
  fun hactive => absurd hactive.2 (Nat.not_le.mpr h)

omit [FeedField F] in
theorem minAcceptedGeneration_of_active (h : self.floorActive C timestamp) :
    self.minAcceptedGeneration C timestamp = self.pendingMinAcceptedGeneration := if_pos h

omit [FeedField F] in
theorem minAcceptedGeneration_of_inactive (h : ¬ self.floorActive C timestamp) :
    self.minAcceptedGeneration C timestamp = self.storedMinAcceptedGeneration := if_neg h

omit [FeedField F] in
/-- The floor in force depends on the epoch only. -/
theorem SameFloor.minAcceptedGeneration (h : SameFloor self self') {t t' : Nat}
    (hepoch : currentEpoch C t' = currentEpoch C t) :
    self'.minAcceptedGeneration C t' = self.minAcceptedGeneration C t := by
  have hiff : self'.floorActive C t' ↔ self.floorActive C t := by
    unfold floorActive
    rw [h.activation, hepoch]
  by_cases hactive : self.floorActive C t
  · rw [minAcceptedGeneration_of_active hactive, minAcceptedGeneration_of_active (hiff.mpr hactive), h.pending]
  · rw [minAcceptedGeneration_of_inactive hactive,
      minAcceptedGeneration_of_inactive (mt hiff.mp hactive), h.stored]

omit [FeedField F] in
/-- Queueing does not change the floor in force. -/
theorem Queued.minAcceptedGeneration {newValue : UInt64} {activationEpoch : Nat}
    (h : Queued C timestamp newValue activationEpoch self self') :
    self'.minAcceptedGeneration C timestamp = self.minAcceptedGeneration C timestamp := by
  rw [minAcceptedGeneration_of_inactive, h.stored]
  exact not_floorActive_of_future (h.activation ▸ h.future)

omit [FeedField F] in
/-- Calls change the floor of later epochs only. -/
theorem FloorEffect.minAcceptedGeneration (h : FloorEffect C timestamp self self' call) :
    self'.minAcceptedGeneration C timestamp = self.minAcceptedGeneration C timestamp := by
  cases h with
  | issued floor | revoked floor | other floor => exact floor.minAcceptedGeneration rfl
  | raised queued | retired _ queued => exact queued.minAcceptedGeneration

omit [FeedField F] in
theorem FloorEffect.currentGeneration_le (h : FloorEffect C timestamp self self' call) :
    self.currentGeneration ≤ self'.currentGeneration := by
  cases h with
  | issued _ generation_eq le => exact generation_eq ▸ le
  | raised _ same | retired _ _ same | revoked _ _ same | other _ same =>
    exact same.generation ▸ UInt64.le_refl _

/-! ### Inversion -/

theorem toNat_next {g : UInt64} (h : g.toNat + 1 < 2 ^ 64) : (g + 1).toNat = g.toNat + 1 := by
  rw [UInt64.toNat_add]
  exact Nat.mod_eq_of_lt h

theorem lt_next_iff {g g' : UInt64} (h : g.toNat + 1 < 2 ^ 64) : g' < g + 1 ↔ g' ≤ g := by
  rw [UInt64.lt_iff_toNat_lt, UInt64.le_iff_toNat_le, toNat_next h, Nat.lt_succ_iff]

omit [FeedField F] in
theorem checkGeneration_eq_ok {generation : UInt64} : self.checkGeneration generation = .ok self' ↔
      (generation ≠ self.currentGeneration → self.currentGeneration.toNat + 1 < 2 ^ 64 ∧
        generation = self.currentGeneration + 1) ∧ self' = { self with currentGeneration := generation } := by
  simp only [checkGeneration, bind_eq_ok, onlyIf_eq_ok, failIf_eq_ok, pure_eq_ok, exists_const,
    Nat.not_le, not_not]
  refine and_congr_right fun hgen => ?_
  have hset : (if generation > self.currentGeneration
      then { self with currentGeneration := generation } else self) =
        { self with currentGeneration := generation } := by
    split
    · rfl
    · next hnot =>
      by_cases heq : generation = self.currentGeneration
      · rw [heq]
      · obtain ⟨hlt, rfl⟩ := hgen heq
        exact absurd ((lt_next_iff hlt).mpr (UInt64.le_refl _)) hnot
  rw [hset]
  exact eq_comm

theorem addAttestations_floor {owners : List Word} {expiresAt generation : UInt64}
    (h : self.addAttestations C sender timestamp owners expiresAt generation = .ok (self', events)) :
    FloorEffect C timestamp self self' (.addAttestations owners expiresAt generation) ∧
      C.minBatchSize ≤ owners.length ∧ events = owners.map fun owner => .attestationAdded
        (Scalar.toNat (leafOf C sender owner generation (UInt64.ofNat timestamp) expiresAt)) owner sender
          generation (UInt64.ofNat timestamp) expiresAt := by
  simp only [addAttestations, bind_eq_ok, failIf_eq_ok, pure_eq_ok, exists_const, Nat.not_lt,
    Prod.mk.injEq] at h
  obtain ⟨_, -, hsize, -, _, -, checked, hchecked, issued, hissued, rfl, rfl⟩ := h
  refine ⟨?_, hsize, rfl⟩
  obtain ⟨hgen, rfl⟩ := checkGeneration_eq_ok.mp hchecked
  obtain ⟨tree, rfl, -⟩ := issueAll_ok hissued
  have hle : self.currentGeneration ≤ generation := by
    by_cases heq : generation = self.currentGeneration
    · exact heq ▸ UInt64.le_refl _
    · obtain ⟨hlt, rfl⟩ := hgen heq
      exact UInt64.le_of_lt ((lt_next_iff hlt).mpr (UInt64.le_refl _))
  unfold advanceAttestationRoot
  split <;> exact .issued ⟨rfl, rfl, rfl⟩ rfl hle

omit [FeedField F] in
theorem revokeAttester_floor {trustedUntil : UInt64}
    (h : self.revokeAttester C sender timestamp trustedUntil = .ok (self', events)) :
    FloorEffect C timestamp self self' (.revokeAttester trustedUntil) ∧
      (trustedUntil < self.lastIssuedAt → self.currentGeneration.toNat + 1 < 2 ^ 64) := by
  simp only [revokeAttester, bind_eq_ok, onlyIf_eq_ok, failIf_eq_ok, pure_eq_ok, exists_const,
    Nat.not_le, Prod.mk.injEq] at h
  obtain ⟨_, -, -, -, hfits, rfl, -⟩ := h
  refine ⟨?_, hfits⟩
  split
  · next hretire =>
    obtain ⟨hcause, hgt⟩ := hretire
    exact .retired hcause ⟨rfl, rfl, rfl, hgt, Nat.lt_succ_self _⟩ ⟨rfl, rfl, rfl⟩
  · next hnot =>
    refine .revoked ⟨rfl, rfl, rfl⟩ (fun hcause => ?_) ⟨rfl, rfl, rfl⟩
    have hle : ¬ self.minAcceptedGeneration C timestamp < self.currentGeneration + 1 :=
      fun hgt => hnot ⟨hcause, hgt⟩
    rw [lt_next_iff (hfits hcause)] at hle
    exact UInt64.not_le.mp hle

omit [FeedField F] in
/-- A revocation for cause, unless the floor in force is past every generation issued. -/
theorem revokeAttester_retires {trustedUntil : UInt64}
    (hrole : self.onlyRole .timelock sender = .ok ()) (hattester : self.attester ≠ 0)
    (hpast : trustedUntil.toNat ≤ timestamp) (hcause : trustedUntil < self.lastIssuedAt)
    (hfits : self.currentGeneration.toNat + 1 < 2 ^ 64)
    (hle : self.minAcceptedGeneration C timestamp ≤ self.currentGeneration) :
    ∃ events, self.revokeAttester C sender timestamp trustedUntil =
      .ok ((queueMinAcceptedGeneration C timestamp (self.currentGeneration + 1)
        (currentEpoch C timestamp + 1) { self with
          attester := 0
          roles := self.roles.set .attester self.attester false }).1, events) := by
  simp only [revokeAttester, bind_eq_ok, onlyIf_eq_ok, failIf_eq_ok, pure_eq_ok, exists_const,
    Nat.not_le, Nat.not_lt, Prod.mk.injEq]
  refine ⟨_, (), hrole, hattester, hpast, fun _ => hfits, ?_, rfl⟩
  exact congrArg Prod.fst (if_pos ⟨hcause, (lt_next_iff hfits).mpr hle⟩)

end AttestationRegistry

open AttestationRegistry

section
variable {C : RegistryConfig F T} {registry registry' : AttestationRegistry T} {sender : Address}
  {timestamp : Nat} {events : List RegistryEvent} {call : RegistryCall}

theorem RegistryCall.run_floor
    (h : RegistryCall.run C sender timestamp registry call = .ok (registry', events)) :
    FloorEffect C timestamp registry registry' call := by
  cases call with
  | addAttestations => exact (addAttestations_floor h).1
  | revokeAttester => exact (revokeAttester_floor h).1
  | raiseMinAcceptedGeneration newValue activationEpoch =>
    simp only [RegistryCall.run, AttestationRegistry.raiseMinAcceptedGeneration, bind_eq_ok, failIf_eq_ok, pure_eq_ok,
      exists_const, Nat.not_le] at h
    obtain ⟨_, -, hfuture, hgt, h⟩ := h
    cases h
    exact .raised ⟨rfl, rfl, rfl, UInt64.not_le.mp hgt, hfuture⟩ ⟨rfl, rfl, rfl⟩
  | setAttester =>
    simp only [RegistryCall.run, AttestationRegistry.setAttester, bind_eq_ok, pure_eq_ok, Prod.mk.injEq] at h
    obtain ⟨_, -, _, -, rfl, -⟩ := h
    exact .other ⟨rfl, rfl, rfl⟩ ⟨rfl, rfl, rfl⟩ (fun _ _ _ => RegistryCall.noConfusion)
      (fun _ _ => RegistryCall.noConfusion) fun _ => RegistryCall.noConfusion
  | grantRole | revokeRole | renounceRole =>
    obtain ⟨_, -, h⟩ := bind_eq_ok.mp h
    cases pure_eq_ok.mp h
    exact .other ⟨rfl, rfl, rfl⟩ ⟨rfl, rfl, rfl⟩ (fun _ _ _ => RegistryCall.noConfusion)
      (fun _ _ => RegistryCall.noConfusion) fun _ => RegistryCall.noConfusion

/-- Only issuing adds leaves, at the generation of the batch. -/
theorem RegistryCall.added_le (h : RegistryCall.run C sender timestamp registry call = .ok (registry', events))
    {leaf owner : Word} {attester : Address} {generation issuedAt expiresAt : UInt64}
    (hadded : .attestationAdded leaf owner attester generation issuedAt expiresAt ∈ events) :
    generation = registry'.currentGeneration := by
  cases call with
  | addAttestations owners expiresAt' generation' =>
    obtain ⟨heffect, -, rfl⟩ := addAttestations_floor h
    obtain ⟨owner', -, heq⟩ := List.mem_map.mp hadded
    cases heq
    cases heffect with
    | issued _ generation_eq => exact generation_eq.symm
    | other _ _ not_issues => exact absurd rfl (not_issues _ _ _)
  | revokeAttester trustedUntil =>
    simp only [RegistryCall.run, AttestationRegistry.revokeAttester, bind_eq_ok, pure_eq_ok, Prod.mk.injEq] at h
    obtain ⟨_, -, _, -, _, -, _, -, -, rfl⟩ := h
    exfalso
    split at hadded <;> simp [queueMinAcceptedGeneration] at hadded
  | raiseMinAcceptedGeneration newValue activationEpoch =>
    simp only [RegistryCall.run, AttestationRegistry.raiseMinAcceptedGeneration, bind_eq_ok, pure_eq_ok] at h
    obtain ⟨_, -, _, -, _, -, h⟩ := h
    cases h
    simp at hadded
  | setAttester =>
    simp only [RegistryCall.run, AttestationRegistry.setAttester, bind_eq_ok, pure_eq_ok, Prod.mk.injEq] at h
    obtain ⟨_, -, _, -, -, rfl⟩ := h
    simp at hadded
  | grantRole | revokeRole | renounceRole =>
    obtain ⟨_, -, h⟩ := bind_eq_ok.mp h
    cases pure_eq_ok.mp h
    cases hadded

/-- A batch adds a leaf of its generation. -/
theorem AttestationRegistry.addAttestations_added (hsize : C.minBatchSize ≠ 0) {owners : List Word}
    {expiresAt generation : UInt64}
    (h : registry.addAttestations C sender timestamp owners expiresAt generation = .ok (registry', events)) :
    ∃ leaf owner issuedAt, .attestationAdded leaf owner sender generation issuedAt expiresAt ∈ events := by
  obtain ⟨-, hle, rfl⟩ := addAttestations_floor h
  obtain ⟨owner, howner⟩ : ∃ owner, owner ∈ owners := by
    apply List.exists_mem_of_length_pos
    omega
  exact ⟨_, owner, _, List.mem_map.mpr ⟨owner, howner, rfl⟩⟩

end

/-! ## What every run keeps of the floor -/

section
variable {C : RegistryConfig F T} {s s' s₀ : RegistryWorld T} {tr : List RegistryStep} {st : RegistryStep}

/-- The pending floor is not below the settled one. -/
def AttestationRegistry.Ordered (r : AttestationRegistry T) : Prop :=
  r.storedMinAcceptedGeneration ≤ r.pendingMinAcceptedGeneration

omit [FeedField F] in
theorem AttestationRegistry.FloorEffect.ordered {timestamp : Nat} {r r' : AttestationRegistry T}
    {call : RegistryCall} (h : FloorEffect C timestamp r r' call) (hr : r.Ordered) : r'.Ordered := by
  unfold Ordered at hr ⊢
  cases h with
  | issued floor | revoked floor | other floor => rwa [floor.stored, floor.pending]
  | raised queued | retired _ queued =>
    rw [queued.stored, queued.pending]
    exact UInt64.le_of_lt queued.increases

omit [FeedField F] in
/-- As time passes the pending floor comes into force. -/
theorem AttestationRegistry.Ordered.le_of_le {r : AttestationRegistry T} (h : r.Ordered)
    {t t' : Nat} (hle : t ≤ t') : r.minAcceptedGeneration C t ≤ r.minAcceptedGeneration C t' := by
  have hepoch : currentEpoch C t ≤ currentEpoch C t' := Nat.div_le_div_right hle
  by_cases hactive : r.floorActive C t
  · have hstill : r.floorActive C t' := ⟨hactive.1, hactive.2.trans hepoch⟩
    rw [minAcceptedGeneration_of_active hactive, minAcceptedGeneration_of_active hstill]
    exact UInt64.le_refl _
  · rw [minAcceptedGeneration_of_inactive hactive]
    by_cases hactive' : r.floorActive C t'
    · rw [minAcceptedGeneration_of_active hactive']
      exact h
    · rw [minAcceptedGeneration_of_inactive hactive']
      exact UInt64.le_refl _

theorem RegistryTransition.floor_le (h : RegistryTransition C s st s') (hs : s.registry.Ordered) :
    s'.registry.Ordered ∧ s.minAcceptedGeneration C ≤ s'.minAcceptedGeneration C := by
  cases h with
  | call ok =>
    have heffect := RegistryCall.run_floor ok
    exact ⟨heffect.ordered hs, UInt64.le_of_eq heffect.minAcceptedGeneration.symm⟩
  | reverted => exact ⟨hs, UInt64.le_refl _⟩
  | tick le => exact ⟨hs, hs.le_of_le le⟩

theorem Run.floor_le (hrun : Run (RegistryTransition C) s tr s') (hs : s.registry.Ordered) :
    s'.registry.Ordered ∧ s.minAcceptedGeneration C ≤ s'.minAcceptedGeneration C := by
  induction hrun with
  | nil => exact ⟨hs, UInt64.le_refl _⟩
  | cons _ hstep ih =>
    obtain ⟨hordered, hle⟩ := hstep.floor_le ih.1
    exact ⟨hordered, UInt64.le_trans ih.2 hle⟩

theorem Run.epoch_le (hrun : Run (RegistryTransition C) s tr s') : s.epoch C ≤ s'.epoch C := by
  induction hrun with
  | nil => exact Nat.le_refl _
  | cons _ hstep ih =>
    cases hstep with
    | call | reverted => exact ih
    | tick le => exact ih.trans (Nat.div_le_div_right le)

/-- Within an epoch the floor in force does not change. -/
theorem Run.floor_eq (hrun : Run (RegistryTransition C) s tr s') (hepoch : s'.epoch C = s.epoch C) :
    s'.minAcceptedGeneration C = s.minAcceptedGeneration C := by
  induction hrun with
  | nil => rfl
  | cons hrun hstep ih =>
    cases hstep with
    | call ok => exact (RegistryCall.run_floor ok).minAcceptedGeneration.trans (ih hepoch)
    | reverted => exact ih hepoch
    | @tick timestamp le =>
      -- neither did the epoch on the way
      have hmono : currentEpoch C _ ≤ currentEpoch C timestamp := Nat.div_le_div_right le
      have hsame := le_antisymm (hmono.trans_eq hepoch) (Run.epoch_le hrun)
      rw [← ih hsame]
      exact SameFloor.minAcceptedGeneration ⟨rfl, rfl, rfl⟩ (hepoch.trans hsame.symm)

/-- What every run keeps of the floor and of the generations issued. -/
structure FloorInv (C : RegistryConfig F T) (tr : List RegistryStep) (s : RegistryWorld T) : Prop where
  ordered : s.registry.Ordered
  clock : s.timestamp < uint256Max
  added_le : ∀ generation, Added tr generation → generation ≤ s.registry.currentGeneration
  added : s.registry.lastIssuedAt ≠ 0 → Added tr s.registry.currentGeneration

theorem FloorInv.call (inv : FloorInv C tr s) (hsize : C.minBatchSize ≠ 0) {sender : Address}
    {call : RegistryCall} {registry : AttestationRegistry T} {events : List RegistryEvent}
    (ok : RegistryCall.run C sender s.timestamp s.registry call = .ok (registry, events)) :
    FloorInv C (.call s.timestamp sender call events :: tr) { s with registry } := by
  have heffect := RegistryCall.run_floor ok
  refine ⟨heffect.ordered inv.ordered, inv.clock, fun generation hadded => ?_, fun hissued => ?_⟩
  · obtain ⟨timestamp, sender', call', events', leaf, owner, attester, issuedAt, expiresAt, hstep,
      hevent⟩ := hadded
    rcases List.mem_cons.mp hstep with heq | hold
    · cases heq
      exact (RegistryCall.added_le ok hevent).symm ▸ UInt64.le_refl _
    · exact UInt64.le_trans (inv.added_le _ ⟨timestamp, sender', call', events', leaf, owner, attester,
        issuedAt, expiresAt, hold, hevent⟩) heffect.currentGeneration_le
  · have hkept : SameBatch s.registry registry →
        Added (.call s.timestamp sender call events :: tr) registry.currentGeneration := by
      intro same
      rw [same.generation]
      exact (inv.added (same.issuedAt ▸ hissued)).mono (List.subset_cons_self _ _)
    cases heffect with
    | issued _ generation_eq =>
      obtain ⟨leaf, owner, issuedAt, hevent⟩ := addAttestations_added hsize ok
      exact ⟨_, _, _, _, leaf, owner, _, issuedAt, _, List.mem_cons_self, generation_eq ▸ hevent⟩
    | raised _ same | retired _ _ same | revoked _ _ same | other _ same => exact hkept same

omit [FeedField F] in
theorem FloorInv.mono (inv : FloorInv C tr s) (st : RegistryStep) {timestamp : Nat}
    (lt : timestamp < uint256Max) (hst : ∀ t sender call events, st ≠ .call t sender call events) :
    FloorInv C (st :: tr) { s with timestamp } := by
  refine ⟨inv.ordered, lt, fun generation hadded => inv.added_le _ ?_,
    fun hissued => (inv.added hissued).mono (List.subset_cons_self _ _)⟩
  obtain ⟨t, sender, call, events, leaf, owner, attester, issuedAt, expiresAt, hstep, hevent⟩ := hadded
  refine ⟨t, sender, call, events, leaf, owner, attester, issuedAt, expiresAt, ?_, hevent⟩
  exact (List.mem_cons.mp hstep).resolve_left fun heq => hst _ _ _ _ heq.symm

omit [FeedField F] in
theorem RegistryDeployed.minBatchSize_ne (h : RegistryDeployed C s) : C.minBatchSize ≠ 0 := by
  obtain ⟨-, hnew⟩ := h
  simp only [AttestationRegistry.new, bind_eq_ok, failIf_eq_ok, exists_const] at hnew
  exact hnew.2.2.2.1

theorem Run.floorInv (h₀ : RegistryDeployed C s₀) (hrun : Run (RegistryTransition C) s₀ tr s) :
    FloorInv C tr s := by
  have hsize := h₀.minBatchSize_ne
  refine hrun.invariant (I := FloorInv C) ?_ ?_
  · obtain ⟨hlt, hnew⟩ := h₀
    simp only [AttestationRegistry.new, bind_eq_ok, pure_eq_ok] at hnew
    obtain ⟨_, -, _, -, _, -, _, -, rfl⟩ := hnew
    refine ⟨UInt64.le_refl _, hlt, fun generation hadded => ?_, fun hissued => absurd rfl hissued⟩
    obtain ⟨_, _, _, _, _, _, _, _, _, hstep, -⟩ := hadded
    cases hstep
  · intro tr s st s' _ hstep inv
    cases hstep with
    | call ok => exact inv.call hsize ok
    | reverted => exact inv.mono _ inv.clock fun _ _ _ _ => RegistryStep.noConfusion
    | tick _ lt => exact inv.mono _ lt fun _ _ _ _ => RegistryStep.noConfusion

/-! ## Revocations for cause -/

/-- A revocation in a run, of an attester that issued something after the time it was trusted. -/
structure ForCause (C : RegistryConfig F T) (s₀ u u' s : RegistryWorld T)
    (before after : List RegistryStep) : Prop where
  before : Run (RegistryTransition C) s₀ before u
  revoked : ∃ sender trustedUntil events, trustedUntil < u.registry.lastIssuedAt ∧
    RegistryTransition C u (.call u.timestamp sender (.revokeAttester trustedUntil) events) u'
  after : Run (RegistryTransition C) u' after s

/-- No raise of the epoch of a revocation takes back what it queued: it goes past every generation
issued, from the next epoch. Nothing was queued if the floor in force already was past them. -/
def Spares (C : RegistryConfig F T) (u : RegistryWorld T) (after : List RegistryStep) : Prop :=
  ∀ timestamp sender newValue activationEpoch events,
    .call timestamp sender (.raiseMinAcceptedGeneration newValue activationEpoch) events ∈ after →
    currentEpoch C timestamp = u.epoch C →
    u.minAcceptedGeneration C ≤ u.registry.currentGeneration →
    u.registry.currentGeneration < newValue ∧ activationEpoch = u.epoch C + 1

def Retired (C : RegistryConfig F T) (epoch : Nat) (generation : UInt64) (s : RegistryWorld T) : Prop :=
  generation < s.minAcceptedGeneration C ∨ s.epoch C = epoch ∧
    generation < s.registry.pendingMinAcceptedGeneration ∧
    s.registry.minAcceptedGenerationActivationEpoch = epoch + 1

/-- A revocation retires every generation issued. -/
theorem ForCause.retired {u u' : RegistryWorld T} {before after : List RegistryStep}
    (h : ForCause C s₀ u u' s before after) : Retired C (u.epoch C) u.registry.currentGeneration u' ∧
      u.registry.currentGeneration.toNat + 1 < 2 ^ 64 ∧ u'.timestamp = u.timestamp ∧
      u'.minAcceptedGeneration C = u.minAcceptedGeneration C ∧ SameBatch u.registry u'.registry := by
  obtain ⟨sender, trustedUntil, events, hcause, hstep⟩ := h.revoked
  cases hstep with
  | call ok =>
    obtain ⟨heffect, hfits⟩ := revokeAttester_floor ok
    have hkept := heffect.minAcceptedGeneration
    cases heffect with
    | retired _ queued same =>
      refine ⟨.inr ⟨rfl, ?_, queued.activation⟩, hfits hcause, rfl, hkept, same⟩
      rw [queued.pending]
      exact (lt_next_iff (hfits hcause)).mpr (UInt64.le_refl _)
    | revoked floor past same =>
      refine ⟨.inl ?_, hfits hcause, rfl, hkept, same⟩
      rw [RegistryWorld.minAcceptedGeneration, hkept]
      exact past hcause
    | other _ _ _ _ not_revokes => exact absurd rfl (not_revokes _)

/-- It stays so, unless a raise of the epoch takes the pending value. -/
theorem Retired.step {epoch : Nat} {generation : UInt64} (h : Retired C epoch generation s)
    (hordered : s.registry.Ordered) (hstep : RegistryTransition C s st s')
    (hspares : ∀ timestamp sender newValue activationEpoch events,
      st = .call timestamp sender (.raiseMinAcceptedGeneration newValue activationEpoch) events →
      currentEpoch C timestamp = epoch → s.minAcceptedGeneration C ≤ generation →
      generation < newValue ∧ activationEpoch = epoch + 1)
    (hissued : generation ≤ s.registry.currentGeneration) : Retired C epoch generation s' := by
  rcases UInt64.lt_or_le generation (s.minAcceptedGeneration C) with hlt | hge
  · exact .inl (UInt64.lt_of_lt_of_le hlt (hstep.floor_le hordered).2)
  obtain ⟨hepoch, hpending, hactivation⟩ := h.resolve_left (UInt64.not_lt.mpr hge)
  cases hstep with
  | call ok =>
    have heffect := RegistryCall.run_floor ok
    cases heffect with
    | issued floor | revoked floor | other floor =>
      exact .inr ⟨hepoch, floor.pending.symm ▸ hpending, floor.activation.trans hactivation⟩
    | raised queued =>
      obtain ⟨hlt, hnext⟩ := hspares _ _ _ _ _ rfl hepoch hge
      exact .inr ⟨hepoch, queued.pending.symm ▸ hlt, queued.activation.trans hnext⟩
    | retired cause queued =>
      refine .inr ⟨hepoch, ?_, ?_⟩
      · rw [queued.pending]
        exact (lt_next_iff ((revokeAttester_floor ok).2 cause)).mpr hissued
      · rw [queued.activation]
        exact congrArg (· + 1) hepoch
  | reverted => exact .inr ⟨hepoch, hpending, hactivation⟩
  | @tick timestamp le lt =>
    by_cases hsame : currentEpoch C timestamp = epoch
    · exact .inr ⟨hsame, hpending, hactivation⟩
    · -- the next epoch has begun
      have hmono : s.epoch C ≤ currentEpoch C timestamp := Nat.div_le_div_right le
      have hself : currentEpoch C timestamp ≤ timestamp := Nat.div_le_self _ _
      have hactive : s.registry.floorActive C timestamp := by
        unfold floorActive
        omega
      left
      rw [RegistryWorld.minAcceptedGeneration, minAcceptedGeneration_of_active hactive]
      exact hpending

theorem Run.currentGeneration_le (hrun : Run (RegistryTransition C) s tr s') :
    s.registry.currentGeneration ≤ s'.registry.currentGeneration := by
  induction hrun with
  | nil => exact UInt64.le_refl _
  | cons _ hstep ih =>
    cases hstep with
    | call ok => exact UInt64.le_trans ih (RegistryCall.run_floor ok).currentGeneration_le
    | reverted | tick => exact ih

theorem ForCause.retired_after {u u' : RegistryWorld T} {before after : List RegistryStep}
    (h : ForCause C s₀ u u' s before after) (hordered : u.registry.Ordered)
    (hspares : Spares C u after) : Retired C (u.epoch C) u.registry.currentGeneration s := by
  obtain ⟨hretired, -, -, hfloor, same⟩ := h.retired
  obtain ⟨sender, trustedUntil, events, -, hrevoke⟩ := h.revoked
  have hordered' := (hrevoke.floor_le hordered).1
  have hafter := h.after
  clear h
  induction hafter with
  | nil => exact hretired
  | cons hrun hstep ih =>
    have hle := Run.floor_le hrun hordered'
    refine (ih fun _ _ _ _ _ hmem => hspares _ _ _ _ _ (List.mem_cons_of_mem _ hmem)).step hle.1 hstep ?_ ?_
    · intro timestamp sender newValue activationEpoch events heq hepoch hge
      refine hspares _ _ _ _ _ (List.mem_cons.mpr (.inl heq.symm)) hepoch ?_
      exact UInt64.le_trans (UInt64.le_trans (UInt64.le_of_eq hfloor.symm) hle.2) hge
    · exact same.generation ▸ Run.currentGeneration_le hrun

/-! ## Successors -/

structure Batch (C : RegistryConfig F T) (s : RegistryWorld T) (attester : Address)
    (owners : List Word) (expiresAt generation : UInt64) : Prop where
  size : C.minBatchSize ≤ owners.length
  room : (C.imt.leaves s.registry.attestationTree).length + owners.length ≤ maxAttestations
  expiry : AttestationRegistry.checkExpiry C s.timestamp expiresAt = .ok ()
  canonical : ∀ owner ∈ owners, BnField.canonical F owner = true
  nodup : owners.Nodup
  /-- Its leaves were not issued before. -/
  fresh : s.registry.currentGeneration = generation → ∀ owner ∈ owners,
    leafOf C attester owner generation (UInt64.ofNat s.timestamp) expiresAt ∉
      C.imt.leaves s.registry.attestationTree

namespace AttestationRegistry
variable {r : AttestationRegistry T} {attester : Address} {generation issuedAt expiresAt : UInt64}

theorem leafOf_inj (H : Ideal C.hash) {attester' : Address} {owner owner' : Word}
    {generation' issuedAt' expiresAt' : UInt64} (h : leafOf C attester owner generation issuedAt expiresAt =
      leafOf C attester' owner' generation' issuedAt' expiresAt') :
    (Scalar.ofNat owner : F) = Scalar.ofNat owner' ∧ generation = generation' := by
  obtain ⟨howner, -, hgeneration, -, -⟩ := H.hash5_inj h
  exact ⟨howner, Compliance.ofU64_inj hgeneration⟩

theorem exists_issueAll (H : Ideal C.hash) (hL : C.imt.Lawful (merkleHash C.hash))
    (hins : C.imt.Inserts) {owners : List Word}
    (hcanonical : ∀ owner ∈ owners, BnField.canonical F owner = true) (hnodup : owners.Nodup)
    (hfresh : ∀ owner ∈ owners, leafOf C attester owner generation issuedAt expiresAt ∉
      C.imt.leaves r.attestationTree) :
    ∃ r', owners.foldlM (issueOne C attester generation issuedAt expiresAt) r = .ok r' := by
  induction owners generalizing r with
  | nil => exact ⟨r, rfl⟩
  | cons owner owners ih =>
    obtain ⟨hfirst, hcanonical⟩ := List.forall_mem_cons.mp hcanonical
    obtain ⟨hnew, hfresh⟩ := List.forall_mem_cons.mp hfresh
    obtain ⟨hnotin, hnodup⟩ := List.nodup_cons.mp hnodup
    obtain ⟨tree, htree⟩ := hins (H.ne_zero (List.cons_ne_nil _ _) (Nat.le_refl _)) hnew
    have hone : issueOne C attester generation issuedAt expiresAt r owner =
        .ok { r with attestationTree := tree } := by
      simp only [issueOne, bind_eq_ok, failIf_eq_ok, mapErr_eq_ok, pure_eq_ok, exists_const, Bool.not_eq_false]
      exact ⟨hfirst, tree, htree, rfl⟩
    -- the leaf of another owner is another leaf
    have hrest : ∀ owner' ∈ owners, leafOf C attester owner' generation issuedAt expiresAt ∉
        C.imt.leaves tree := by
      intro owner' hmem hin
      rw [(hL.insert htree).2.2, List.mem_append, List.mem_singleton] at hin
      rcases hin with hin | heq
      · exact hfresh owner' hmem hin
      · have hsame := BnField.eq_toNat (hcanonical owner' hmem) (leafOf_inj H heq).1
        rw [BnField.toNat_ofNat_of_canonical hfirst] at hsame
        exact hnotin (hsame ▸ hmem)
    obtain ⟨r', hr'⟩ := @ih { r with attestationTree := tree } hcanonical hnodup hrest
    exact ⟨r', by rw [List.foldlM_cons, hone]; exact hr'⟩

/-- A leaf was issued at the current generation or before. -/
def LeavesBelow (C : RegistryConfig F T) (r : AttestationRegistry T) : Prop :=
  ∀ leaf ∈ C.imt.leaves r.attestationTree, ∃ attester owner generation issuedAt expiresAt,
    leaf = leafOf C attester owner generation issuedAt expiresAt ∧ generation ≤ r.currentGeneration

end AttestationRegistry

theorem Run.leavesBelow (hL : C.imt.Lawful (merkleHash C.hash)) (h₀ : RegistryDeployed C s₀)
    (hrun : Run (RegistryTransition C) s₀ tr s) : s.registry.LeavesBelow C := by
  refine hrun.invariant (I := fun _ s => s.registry.LeavesBelow C) ?_ ?_
  · obtain ⟨-, hnew⟩ := h₀
    simp only [AttestationRegistry.new, bind_eq_ok, pure_eq_ok] at hnew
    obtain ⟨_, -, _, -, _, -, _, -, rfl⟩ := hnew
    intro leaf hleaf
    rw [grantAttester, hL.leaves_empty] at hleaf
    cases hleaf
  · intro tr s st s' _ hstep inv
    cases hstep with
    | call ok =>
      have heffect := RegistryCall.run_floor ok
      intro leaf hleaf
      cases heffect with
      | issued _ generation_eq le =>
        rw [(AttestationRegistry.addAttestations_ok hL ok).1, List.mem_append] at hleaf
        rcases hleaf with hold | hnew
        · obtain ⟨attester, owner, generation, issuedAt, expiresAt, rfl, hle⟩ := inv leaf hold
          exact ⟨attester, owner, generation, issuedAt, expiresAt, rfl, generation_eq ▸ UInt64.le_trans hle le⟩
        · obtain ⟨owner, -, rfl⟩ := List.mem_map.mp hnew
          exact ⟨_, owner, _, _, _, rfl, UInt64.le_of_eq generation_eq.symm⟩
      | raised _ same | retired _ _ same | revoked _ _ same | other _ same =>
        obtain ⟨attester, owner, generation, issuedAt, expiresAt, rfl, hle⟩ := inv leaf (same.tree ▸ hleaf)
        exact ⟨attester, owner, generation, issuedAt, expiresAt, rfl, same.generation ▸ hle⟩
    | reverted | tick => exact inv

/-- A batch at the next generation, or at the current one, is accepted. -/
theorem Batch.accepted (H : Ideal C.hash) (hL : C.imt.Lawful (merkleHash C.hash))
    (hins : C.imt.Inserts) (hbelow : s.registry.LeavesBelow C) {attester : Address}
    {owners : List Word} {expiresAt generation : UInt64} (hrole : s.registry.roles .attester attester = true)
    (hgen : generation ≠ s.registry.currentGeneration → s.registry.currentGeneration.toNat + 1 < 2 ^ 64 ∧
        generation = s.registry.currentGeneration + 1) (h : Batch C s attester owners expiresAt generation) :
    ∃ r, s.registry.addAttestations C attester s.timestamp owners expiresAt generation = .ok r := by
  have hfresh : ∀ owner ∈ owners, leafOf C attester owner generation (UInt64.ofNat s.timestamp)
      expiresAt ∉ C.imt.leaves s.registry.attestationTree := by
    by_cases heq : generation = s.registry.currentGeneration
    · exact h.fresh heq.symm
    · intro owner _ hin
      obtain ⟨attester', owner', generation', issuedAt, expiresAt', hleaf, hle⟩ := hbelow _ hin
      obtain ⟨hlt, rfl⟩ := hgen heq
      rw [← (leafOf_inj H hleaf).2] at hle
      exact absurd ((lt_next_iff hlt).mpr (UInt64.le_refl _)) (UInt64.not_lt.mpr hle)
  have hchecked := checkGeneration_eq_ok.mpr ⟨hgen, rfl⟩
  obtain ⟨issued, hissued⟩ := @exists_issueAll _ _ _ C { s.registry with
      currentGeneration := generation, lastIssuedAt := UInt64.ofNat s.timestamp }
    attester generation (UInt64.ofNat s.timestamp) expiresAt H hL hins owners h.canonical h.nodup hfresh
  have hrole' : s.registry.onlyRole .attester attester = .ok () :=
    failIf_neg (by rw [hrole]; exact Bool.noConfusion) _
  simp only [addAttestations, hrole', failIf_neg (Nat.not_lt.mpr h.size),
    failIf_neg (Nat.not_lt.mpr h.room), h.expiry, hchecked, ok_bind]
  rw [hissued]
  exact ⟨_, rfl⟩

/-- What governance can rely on. -/
structure FloorKept (C : RegistryConfig F T) (s₀ : RegistryWorld T) : Prop where
  /-- The floor never falls. -/
  monotone : ∀ {before after u s}, Run (RegistryTransition C) s₀ before u →
    Run (RegistryTransition C) u after s → u.minAcceptedGeneration C ≤ s.minAcceptedGeneration C
  /-- From the epoch after a revocation for cause, every leaf issued before it is below the floor. -/
  retires : ∀ {u u' s before after}, ForCause C s₀ u u' s before after → Spares C u after →
    u.epoch C < s.epoch C → ∀ generation, Added before generation → generation < s.minAcceptedGeneration C
  /-- A raise that does not spare it leaves some of them above the floor in the next epoch. -/
  undone : ∀ {u u' s before after sender newValue activationEpoch registry events timestamp},
    ForCause C s₀ u u' s before after → s.epoch C = u.epoch C →
    RegistryCall.run C sender s.timestamp s.registry
      (.raiseMinAcceptedGeneration newValue activationEpoch) = .ok (registry, events) →
    u.minAcceptedGeneration C ≤ u.registry.currentGeneration →
    ¬ (u.registry.currentGeneration < newValue ∧ activationEpoch = u.epoch C + 1) →
    currentEpoch C timestamp = u.epoch C + 1 →
    ∃ generation, Added before generation ∧ registry.minAcceptedGeneration C timestamp ≤ generation
  /-- A successor holds the role, -/
  installs : ∀ {r r' : AttestationRegistry T} {sender timestamp successor events},
    RegistryCall.run C sender timestamp r (.setAttester successor) = .ok (r', events) →
    r'.roles .attester successor = true
  /-- and can issue at the generation past the last one before the revocation. -/
  successor : ∀ {u u' s before after successor owners expiresAt}, Ideal C.hash →
    C.imt.Lawful (merkleHash C.hash) → C.imt.Inserts → ForCause C s₀ u u' s before after →
    s.registry.roles .attester successor = true →
    s.registry.currentGeneration ≤ u.registry.currentGeneration + 1 →
    Batch C s successor owners expiresAt (u.registry.currentGeneration + 1) →
    ∃ r, s.registry.addAttestations C successor s.timestamp owners expiresAt
      (u.registry.currentGeneration + 1) = .ok r

omit [FeedField F] in
theorem setAttester_role {r r' : AttestationRegistry T} {sender newAttester : Address}
    {events : List RegistryEvent} (h : r.setAttester sender newAttester = .ok (r', events)) :
    r'.roles .attester newAttester = true := by
  simp only [AttestationRegistry.setAttester, bind_eq_ok, pure_eq_ok, Prod.mk.injEq] at h
  obtain ⟨_, -, _, -, rfl, -⟩ := h
  simp [grantAttester, Compliance.Roles.set]

/-- A raise takes the slot of what was pending. -/
theorem ForCause.undone {u u' : RegistryWorld T} {before after : List RegistryStep} {sender : Address}
    {newValue : UInt64} {activationEpoch timestamp : Nat} {registry : AttestationRegistry T}
    {events : List RegistryEvent} (h : ForCause C s₀ u u' s before after) (inv : FloorInv C before u)
    (hraise : RegistryCall.run C sender s.timestamp s.registry
      (.raiseMinAcceptedGeneration newValue activationEpoch) = .ok (registry, events))
    (hfloor : s.minAcceptedGeneration C ≤ u.registry.currentGeneration)
    (hnot : ¬ (u.registry.currentGeneration < newValue ∧ activationEpoch = u.epoch C + 1))
    (hsame : s.epoch C = u.epoch C) (hnext : currentEpoch C timestamp = u.epoch C + 1) :
    ∃ generation, Added before generation ∧ registry.minAcceptedGeneration C timestamp ≤ generation := by
  have hissued : u.registry.lastIssuedAt ≠ 0 := by
    obtain ⟨_, trustedUntil, _, hcause, -⟩ := h.revoked
    intro hzero
    rw [hzero] at hcause
    exact absurd hcause (UInt64.not_lt.mpr (UInt64.zero_le))
  refine ⟨_, inv.added hissued, ?_⟩
  have heffect := RegistryCall.run_floor hraise
  cases heffect with
  | raised queued =>
    have hfuture := queued.future
    replace hfuture : u.epoch C < activationEpoch := hsame ▸ hfuture
    by_cases hactive : registry.floorActive C timestamp
    · -- the raise is active, so it is too low
      rw [minAcceptedGeneration_of_active hactive, queued.pending]
      have hle := hactive.2
      rw [queued.activation, hnext] at hle
      exact UInt64.not_lt.mp fun hlt => hnot ⟨hlt, by omega⟩
    · rw [minAcceptedGeneration_of_inactive hactive, queued.stored]
      exact hfloor
  | other _ _ _ not_raises => exact absurd rfl (not_raises _ _)

theorem floor_kept (h₀ : RegistryDeployed C s₀) : FloorKept C s₀ := by
  constructor
  · intro before after u s hbefore hafter
    exact (Run.floor_le hafter (Run.floorInv h₀ hbefore).ordered).2
  · intro u u' s before after h hspares hlater generation hadded
    have inv := Run.floorInv h₀ h.before
    have hle := inv.added_le generation hadded
    rcases h.retired_after inv.ordered hspares with hlt | ⟨hepoch, -⟩
    · exact UInt64.lt_of_le_of_lt hle hlt
    · omega
  · intro u u' s before after sender newValue activationEpoch registry events timestamp h hsame hraise
      hfloor hnot hnext
    refine h.undone (Run.floorInv h₀ h.before) hraise ?_ hnot hsame hnext
    obtain ⟨-, -, hclock, hkept, -⟩ := h.retired
    have hepoch : u'.epoch C = u.epoch C := congrArg (currentEpoch C) hclock
    rw [Run.floor_eq h.after (hsame.trans hepoch.symm), hkept]
    exact hfloor
  · intro r r' sender timestamp successor events h
    exact setAttester_role h
  · intro u u' s before after successor owners expiresAt H hL hins h hrole hcurrent hbatch
    obtain ⟨-, hfits, -, -, same⟩ := h.retired
    have hge : u.registry.currentGeneration ≤ s.registry.currentGeneration :=
      same.generation ▸ Run.currentGeneration_le h.after
    obtain ⟨sender, trustedUntil, events, -, hrevoke⟩ := h.revoked
    have hrun := (h.before.cons hrevoke).append h.after
    refine hbatch.accepted H hL hins (Run.leavesBelow hL h₀ hrun) hrole fun hne => ?_
    have heq : s.registry.currentGeneration = u.registry.currentGeneration := by
      refine UInt64.le_antisymm ?_ hge
      exact (lt_next_iff hfits).mp (UInt64.lt_of_le_of_ne hcurrent hne.symm)
    rw [heq]
    exact ⟨hfits, rfl⟩

end
/-! ## A revocation that is undone -/

namespace Sample

variable (tree : LeanImtTree (merkleHash idealHash))

/-- The registry after a revocation for cause in epoch 7. -/
def retiring : AttestationRegistry (LeanImtTree (merkleHash idealHash)) :=
  { registry idealHash tree (UInt64.ofNat timestamp) with
    attester := 0
    pendingMinAcceptedGeneration := 1
    minAcceptedGenerationActivationEpoch := 8
    roles := (registry idealHash tree (UInt64.ofNat timestamp)).roles.set .attester attester false }

theorem currentEpoch_timestamp : currentEpoch sample.toRegistryConfig timestamp = 7 :=
  show 604800 / 86400 = 7 from rfl

theorem onlyRole_timelock (r : AttestationRegistry (LeanImtTree (merkleHash idealHash)))
    (h : r.roles .timelock timelock = true) : r.onlyRole .timelock timelock = .ok () :=
  failIf_neg (by rw [h]; exact Bool.noConfusion) _

theorem revokeAttester_retiring : ∃ events, (registry idealHash tree (UInt64.ofNat timestamp)).revokeAttester
      sample.toRegistryConfig timelock timestamp 0 = .ok (retiring tree, events) := by
  -- no floor was queued before
  have hfloor : ¬ (registry idealHash tree (UInt64.ofNat timestamp)).floorActive
      sample.toRegistryConfig timestamp := fun hactive => hactive.1 rfl
  obtain ⟨events, hrevoked⟩ := @revokeAttester_retires _ _
    sample.toRegistryConfig (registry idealHash tree (UInt64.ofNat timestamp))
    timelock timestamp 0 (onlyRole_timelock _ rfl) (show attester ≠ 0 by decide) (Nat.zero_le _)
    (show (0 : UInt64) < 604800 by decide) (show 0 + 1 < 2 ^ 64 by decide)
    (by
      rw [minAcceptedGeneration_of_inactive hfloor]
      exact UInt64.le_refl 0)
  refine ⟨events, hrevoked.trans ?_⟩
  rw [queueMinAcceptedGeneration, currentEpoch_timestamp]
  split
  · next hactive => exact absurd hactive hfloor
  · rfl

theorem raise_retiring : (retiring tree).raiseMinAcceptedGeneration
    sample.toRegistryConfig timelock timestamp 1 100 =
      .ok ({ retiring tree with minAcceptedGenerationActivationEpoch := 100 },
        [.minAcceptedGenerationQueued 1 100]) := by
  have hinactive : ¬ (retiring tree).floorActive sample.toRegistryConfig
      timestamp := not_floorActive_of_future (currentEpoch_timestamp ▸ show 7 < 8 by decide)
  have hfuture : ¬ 100 ≤ currentEpoch sample.toRegistryConfig timestamp := by
    rw [currentEpoch_timestamp]
    decide
  have hfloor : (retiring tree).storedMinAcceptedGeneration = 0 := rfl
  rw [raiseMinAcceptedGeneration, onlyRole_timelock _ rfl, ok_bind, failIf_neg hfuture, ok_bind,
    minAcceptedGeneration_of_inactive hinactive, hfloor, failIf_neg (by decide), ok_bind,
    queueMinAcceptedGeneration, if_neg hinactive]
  rfl

/-- The attester issues and is revoked for cause. The next epoch begins, after one more raise or without
it. -/
theorem exists_revocation : ∃ s₀ u u' before generation, RegistryDeployed sample.toRegistryConfig s₀ ∧
    Added before generation ∧ u.epoch sample.toRegistryConfig = 7 ∧
    (∀ {s after}, Run (RegistryTransition sample.toRegistryConfig) u' after s →
      ForCause sample.toRegistryConfig s₀ u u' s before after) ∧
    RegistryTransition sample.toRegistryConfig u' (.tick 691200) { u' with timestamp := 691200 } ∧
    ∃ registry events, RegistryTransition sample.toRegistryConfig u'
      (.call u'.timestamp timelock (.raiseMinAcceptedGeneration 1 100) events)
      { u' with registry } ∧
    registry.minAcceptedGeneration sample.toRegistryConfig 691200 ≤
      generation := by
  obtain ⟨tree, -, events, hissued⟩ := addAttestations_ok idealHash idealHash_ideal
  obtain ⟨leaf, owner, issuedAt, hadded⟩ := addAttestations_added (show 1 ≠ 0 by decide) hissued
  obtain ⟨_, hrevoked⟩ := revokeAttester_retiring tree
  have hbefore := Run.cons .nil (@RegistryTransition.call _ _ _ sample.toRegistryConfig
    ⟨timestamp, registry idealHash (leanImt (merkleHash idealHash)).empty 0⟩ attester
    (.addAttestations [(Sample.owner idealHash).val] expiresAt 0) _ _ hissued)
  refine ⟨_, ⟨timestamp, registry idealHash tree (UInt64.ofNat timestamp)⟩, ⟨timestamp, retiring tree⟩, _, 0,
    .mk (by decide) (registry_new idealHash),
    ⟨_, _, _, _, leaf, owner, _, issuedAt, _, List.mem_cons_self, hadded⟩,
    currentEpoch_timestamp, fun hafter => ⟨hbefore, ⟨timelock, 0, _, ?_, .call hrevoked⟩, hafter⟩,
    .tick (show timestamp ≤ 691200 by decide) (by decide), _, _, .call (raise_retiring tree), ?_⟩
  · exact show (0 : UInt64) < 604800 by decide
  · exact show (0 : UInt64) ≤ 0 by decide

end Sample

open Sample

/-- In a run where no raise follows it, a revocation retires what was issued. -/
theorem floor_kept_sample : ∃ s₀ u u' s before after generation, RegistryDeployed sample.toRegistryConfig s₀ ∧
    ForCause sample.toRegistryConfig s₀ u u' s before after ∧
    Spares sample.toRegistryConfig u after ∧ Added before generation ∧
    generation < s.minAcceptedGeneration sample.toRegistryConfig := by
  obtain ⟨s₀, u, u', before, generation, hdeployed, hadded, hepoch, hcause, htick, -⟩ :=
    exists_revocation
  have h := hcause (Run.cons .nil htick)
  have hspares : Spares sample.toRegistryConfig u [.tick 691200] := by
    intro timestamp sender newValue activationEpoch events hmem
    cases List.mem_singleton.mp hmem
  refine ⟨s₀, u, u', _, before, _, generation, hdeployed, h, hspares, hadded, ?_⟩
  refine (floor_kept hdeployed).retires h hspares ?_ generation hadded
  rw [hepoch]
  exact show 7 < 691200 / 86400 by decide

/-- A raise of the same epoch, to be in force much later, takes the place of the revocation's: in the
next epoch the leaf is not below the floor. -/
theorem revocation_undone : ∃ s₀ u u' s before after generation, RegistryDeployed sample.toRegistryConfig s₀ ∧
    ForCause sample.toRegistryConfig s₀ u u' s before after ∧
    u.epoch sample.toRegistryConfig < s.epoch sample.toRegistryConfig ∧ Added before generation ∧
    s.minAcceptedGeneration sample.toRegistryConfig ≤ generation := by
  obtain ⟨s₀, u, u', before, generation, hdeployed, hadded, hepoch, hcause, htick, registry, events,
    hraise, hle⟩ := exists_revocation
  cases htick with
  | tick le lt =>
    have h := hcause (Run.cons (Run.cons .nil hraise) (.tick le lt))
    refine ⟨s₀, u, u', _, before, _, generation, hdeployed, h, ?_, hadded, hle⟩
    rw [hepoch]
    exact show 7 < 691200 / 86400 by decide

end Pocs.Mmf
