import Mathlib.Data.Finset.Card
import Pocs.Lib.Chunks
import Pocs.Mmf.Claims
import Pocs.Mmf.Selection

/-! # Attestation rounds

`attestation_batch` of `agent.rs` and the caps on investors. What is due is admitted in the order of the map,
and an investor not counted yet only while the caps allow. The keys drawn for padding and the shuffle are those
of `Draw`. -/

namespace Pocs.Mmf

open Compliance (Address idealHash idealHash_ideal)
open TransferAgent

/-! ## The agent's attesting state -/

/-- The errors of `ActorError` that counting investors returns. -/
inductive CapError (F : Type) where
  | unknownOwner (owner : F)
  | unknownPublicHolder (address : Address)
  | capReached (cap : Nat)
  | jurisdictionCapReached (jurisdiction : String) (cap : Nat)

structure OwnerKeys (F : Type) where
  pk : SpendKey
  nk : F

def attestationPeriod : UInt64 := 30
def attestationOverlap : UInt64 := 3
def attestationPart : Nat := 16

structure AttestationBatch (F : Type) where
  parts : List (List F)
  expiresAt : UInt64
  generation : UInt64

def AttestationBatch.owners {F : Type} (self : AttestationBatch F) : List F := self.parts.flatten

structure AttestationRound (F : Type) where
  batch : AttestationBatch F
  overCap : List F

/-- The agent with what attestation reads besides the register. -/
structure AttestingAgent (F : Type) [FeedField F] extends TransferAgent F where
  /-- The keys of `investors`, in their order. -/
  investorKeys : List F
  sorted : investorKeys.Pairwise fun a b => Scalar.toNat a ≤ Scalar.toNat b
  nodup : investorKeys.Nodup
  mem_investorKeys : ∀ owner, owner ∈ investorKeys ↔ (investors owner).isSome
  maxInvestors : Option Nat
  jurisdictionCaps : BTreeMap String Nat
  /-- By investor ID. -/
  jurisdictions : String → Option String
  publicHolders : Address → Option String
  padding : List (OwnerKeys F)
  periodStart : Option UInt64
  notRenewed : F → Bool

/-- What a round draws: the keys of the padding, and the order of the batch. -/
structure Draw (F : Type) where
  keys : Nat → OwnerKeys F
  shuffle : List F → List F
  shuffle_perm : ∀ owners, (shuffle owners).Perm owners

variable {F : Type} [FeedField F] (P : Primitives F)

def periodExpiry (start epoch : UInt64) : UInt64 :=
  let period := (epoch + attestationOverlap - start) / attestationPeriod
  (start + (period + 1) * attestationPeriod) * epochSeconds

def OwnerKeys.owner (keys : OwnerKeys F) : F := ownerValue P keys.pk keys.nk

namespace AttestingAgent
variable (self : AttestingAgent F)

def readFeed (view : ChainView F) : AttestingAgent F :=
  { self with
    toTransferAgent := self.toTransferAgent.readFeed P view
    mem_investorKeys := fun owner =>
      (readFeed_sameKeys P self.toTransferAgent view).investors ▸ self.mem_investorKeys owner }

/-- The keys of the map once `owner` is in it. -/
def keysWith (owner : F) : List F :=
  if (self.investors owner).isSome then self.investorKeys
  else self.investorKeys.orderedInsert (fun a b => Scalar.toNat a ≤ Scalar.toNat b) owner

variable {self}

theorem mem_keysWith {owner key : F} : key ∈ self.keysWith owner ↔ key = owner ∨ key ∈ self.investorKeys := by
  unfold keysWith
  split
  · next hknown =>
    refine ⟨.inr, fun h => h.elim (fun heq => ?_) id⟩
    exact (self.mem_investorKeys key).mpr (heq ▸ hknown)
  · exact List.mem_orderedInsert _

theorem sorted_keysWith (owner : F) :
    (self.keysWith owner).Pairwise fun a b => Scalar.toNat a ≤ Scalar.toNat b := by
  unfold keysWith
  split
  · exact self.sorted
  · have : Std.Total fun a b : F => Scalar.toNat a ≤ Scalar.toNat b := ⟨fun _ _ => Nat.le_total _ _⟩
    have : IsTrans F fun a b => Scalar.toNat a ≤ Scalar.toNat b := ⟨fun _ _ _ => Nat.le_trans⟩
    exact self.sorted.orderedInsert _ _

theorem nodup_keysWith (owner : F) : (self.keysWith owner).Nodup := by
  unfold keysWith
  split
  · exact self.nodup
  · next hnew =>
    refine (List.perm_orderedInsert _ _ _).nodup_iff.mpr (List.nodup_cons.mpr ⟨fun h => ?_, self.nodup⟩)
    exact hnew ((self.mem_investorKeys owner).mp h)

variable (self)

def recordOwner (holder : Holder) (pk : SpendKey) (nk : F) : AttestingAgent F :=
  { self with
    toTransferAgent := self.toTransferAgent.recordOwner P holder pk nk
    investorKeys := self.keysWith (ownerValue P pk nk)
    sorted := sorted_keysWith _
    nodup := nodup_keysWith _
    mem_investorKeys := fun owner => by
      rw [mem_keysWith, self.mem_investorKeys]
      by_cases heq : owner = ownerValue P pk nk
      · simp [TransferAgent.recordOwner, heq]
      · simp [TransferAgent.recordOwner, heq] }

variable {P self} {owner nk : F} {holder : Holder} {pk : SpendKey}

theorem mem_recordOwner : owner ∈ (self.recordOwner P holder pk nk).investorKeys ↔
    owner = ownerValue P pk nk ∨ owner ∈ self.investorKeys := mem_keysWith

theorem investors_recordOwner (h : owner ≠ ownerValue P pk nk) :
    (self.recordOwner P holder pk nk).investors owner = self.investors owner := Function.update_of_ne h _ _

variable (P self)

/-! ## Caps -/

def attestedInvestors (view : AttestedView F) (env : PoolEnv F) : List String :=
  self.investorKeys.filterMap fun owner => do
    let record ← self.investors owner
    let id ← record.holder.investorId
    if (view.attestationOf owner env.epoch env.minAcceptedGeneration).isSome then some id else none

def heldInvestors : List String :=
  self.heldEntries.filterMap fun e => e.holder.bind Holder.investorId

def countedInvestors (view : AttestedView F) (env : PoolEnv F) (holdingPublicly : List Address) :
    Except (CapError F) (Finset String) := do
  -- a public holding the agent cannot attribute cannot be counted
  let publicly ← holdingPublicly.mapM fun address =>
    okOr (self.publicHolders address) (.unknownPublicHolder address)
  pure (self.attestedInvestors view env ++ self.heldInvestors ++ publicly).toFinset

def countIn (jurisdiction : String) (ids : Finset String) : Nat :=
  (ids.filter fun id => self.jurisdictions id = some jurisdiction).card

def capRefusal (before counted : Finset String) : Option (CapError F) :=
  match self.maxInvestors.filter fun cap => counted.card > max before.card cap with
  | some cap => some (.capReached cap)
  | none => self.jurisdictionCaps.entries.findSome? fun (jurisdiction, cap) =>
    if self.countIn jurisdiction counted > max (self.countIn jurisdiction before) cap then
      some (.jurisdictionCapReached jurisdiction cap)
    else none

/-! ## Rounds -/

/-- When the owner value's attestations end. -/
def ends (view : AttestedView F) (env : PoolEnv F) (owner : F) : Option UInt64 :=
  ((view.attestationRecords.filter fun r =>
    r.owner = owner ∧ r.generation ≥ env.minAcceptedGeneration).map AttestationRecord.expiresAt).max?

def isDue (view : AttestedView F) (env : PoolEnv F) (expiresAt : UInt64) (owner : F) : Bool :=
  !self.notRenewed owner && (ends view env owner).all fun last => last < expiresAt

/-- What the batch should attest: the agent's own value, and the map's. -/
def due (view : AttestedView F) (env : PoolEnv F) (expiresAt : UInt64) : List F :=
  (self.owner P :: self.investorKeys).filter (self.isDue view env expiresAt)

/-- What the loop has admitted. -/
structure Admission (F : Type) where
  owners : List F
  overCap : List F
  counted : Finset String

def admitOwner (before : Finset String) (admission : Admission F) (owner : F) :
    Except (CapError F) (Admission F) := do
  let holder ← okOr (self.holderOf P owner) (.unknownOwner owner)
  match holder.investorId.filter fun id => decide (id ∉ admission.counted) with
  | none => pure { admission with owners := admission.owners ++ [owner] }
  | some id =>
    let counted := insert id admission.counted
    if (self.capRefusal before counted).isSome then
      pure { admission with overCap := admission.overCap ++ [owner] }
    else pure { admission with owners := admission.owners ++ [owner], counted }

/-- `fresh_padding` with the keys drawn. -/
def freshPadding (self : AttestingAgent F) : List (OwnerKeys F) → List F × AttestingAgent F
  | [] => ([], self)
  | keys :: rest =>
    let recorded := self.recordOwner P .padding keys.pk keys.nk
    let (owners, padded) := freshPadding { recorded with padding := recorded.padding ++ [keys] } rest
    (keys.owner P :: owners, padded)

/-- `n.next_multiple_of(ATTESTATION_PART) - n`. -/
def paddingFor (n : Nat) : Nat := (n + (attestationPart - 1)) / attestationPart * attestationPart - n

/-- `attestation_batch`, with the agent after the round. -/
def attestationBatch (draw : Draw F) (view : AttestedView F) (env : PoolEnv F)
    (holdingPublicly : List Address) (generation : UInt64) :
    Except (CapError F) (AttestationRound F × AttestingAgent F) := do
  let start := self.periodStart.getD env.epoch
  let self := { self.readFeed P view.toChainView with periodStart := some start }
  let expiresAt := periodExpiry start env.epoch
  let before ← self.countedInvestors view env holdingPublicly
  let admission ← (self.due P view env expiresAt).foldlM (self.admitOwner P before) ⟨[], [], before⟩
  let drawn := (List.range (paddingFor admission.owners.length)).map draw.keys
  let (padding, self) := self.freshPadding P drawn
  let owners := draw.shuffle (admission.owners ++ padding)
  pure (⟨⟨owners.toChunks attestationPart, expiresAt, generation⟩, admission.overCap⟩, self)

end AttestingAgent

open AttestingAgent

/-! ## What a round should be -/

structure AttestingAgent.WithinCaps (agent : AttestingAgent F) (before counted : Finset String) : Prop where
  total : ∀ cap, agent.maxInvestors = some cap → counted.card ≤ max before.card cap
  jurisdictions : ∀ e ∈ agent.jurisdictionCaps.entries,
    agent.countIn e.1 counted ≤ max (agent.countIn e.1 before) e.2

def AttestingAgent.investorOf (agent : AttestingAgent F) (owner : F) : Option String :=
  (agent.holderOf P owner).bind Holder.investorId

structure AttestationBatch.Attests (batch : AttestationBatch F) (records : List (AttestationRecord F)) :
    Prop where
  owners : (records.map AttestationRecord.owner).Perm batch.owners
  uniform : ∀ r ∈ records, r.expiresAt = batch.expiresAt ∧ r.generation = batch.generation

structure RegistryConfig.ForAgent {T : Type} (C : RegistryConfig F T) : Prop where
  epochSeconds : C.epochSeconds = Mmf.epochSeconds.toNat
  maxAttestationEpochs : C.maxAttestationEpochs = attestationPeriod.toNat
  overlapEpochs : C.overlapEpochs = attestationOverlap.toNat

/-- What one round of attestations does. -/
structure RoundExact {T : Type} (C : RegistryConfig F T) (agent : AttestingAgent F) (view : AttestedView F)
    (env : PoolEnv F) (holdingPublicly : List Address) (start : UInt64) (round : AttestationRound F)
    (after : AttestingAgent F) : Prop where
  /-- Nobody is dropped, and only fresh padding is added. -/
  partition : ∃ fresh, (∀ owner ∈ fresh, agent.holderOf C.toPrimitives owner = none) ∧
    (round.batch.owners ++ round.overCap).Perm
      (agent.due C.toPrimitives view env round.batch.expiresAt ++ fresh)
  once : (round.batch.owners ++ round.overCap).Nodup
  /-- What adds no investor to those counted is in the batch. -/
  renewed : ∀ before, agent.countedInvestors view env holdingPublicly = .ok before →
    ∀ owner ∈ agent.due C.toPrimitives view env round.batch.expiresAt,
      (∀ id, agent.investorOf C.toPrimitives owner = some id → id ∈ before) → owner ∈ round.batch.owners
  caps : ∀ before, agent.countedInvestors view env holdingPublicly = .ok before →
    ∀ records (view' : AttestedView F), round.batch.Attests records →
      view'.attestationRecords = view.attestationRecords ++ records →
        ∃ counted, after.countedInvestors view' env holdingPublicly = .ok counted ∧
          agent.WithinCaps before counted
  parts : ∀ part ∈ round.batch.parts, part.length = attestationPart
  expiry : start ≤ env.epoch → ∀ timestamp, timestamp / C.epochSeconds = env.epoch.toNat →
    AttestationRegistry.checkExpiry C timestamp round.batch.expiresAt = .ok ()

def periodEnd (start epoch : Nat) : Nat :=
  (start + ((epoch + attestationOverlap.toNat - start) / attestationPeriod.toNat + 1) *
    attestationPeriod.toNat) * epochSeconds.toNat

/-- The padding drawn is nobody's. -/
structure Draw.Fresh (P : Primitives F) (draw : Draw F) (agent : AttestingAgent F) : Prop where
  unknown : ∀ i < attestationPart, agent.holderOf P ((draw.keys i).owner P) = none
  distinct : ((List.range attestationPart).map fun i => (draw.keys i).owner P).Nodup

omit [FeedField F] in
theorem checkExpiry_iff {T : Type} {C : RegistryConfig F T} (hC : C.ForAgent) {timestamp : Nat}
    {epoch expiresAt : UInt64} (htime : timestamp / C.epochSeconds = epoch.toNat) :
    AttestationRegistry.checkExpiry C timestamp expiresAt = .ok () ↔
      (epoch.toNat + 1) * 86400 ≤ expiresAt.toNat ∧ expiresAt.toNat < (epoch.toNat + 34) * 86400 := by
  have hepoch := epoch.toNat_lt
  have hfirst : (epoch.toNat + 1) * C.epochSeconds = (epoch.toNat + 1) * 86400 := by
    rw [hC.epochSeconds]
    rfl
  have hlast : (epoch.toNat + 1 + C.maxAttestationEpochs + C.overlapEpochs) * C.epochSeconds =
      (epoch.toNat + 34) * 86400 := by
    rw [hC.epochSeconds, hC.maxAttestationEpochs, hC.overlapEpochs]
    rfl
  simp only [AttestationRegistry.checkExpiry, AttestationRegistry.currentEpoch, htime, hfirst, hlast,
    AttestationRegistry.u256, bind_eq_ok, failIf_eq_ok, pure_eq_ok, exists_const, not_lt, not_le]
  constructor
  · rintro ⟨first, ⟨-, rfl⟩, hge, last, ⟨-, rfl⟩, hlt⟩
    exact ⟨hge, hlt⟩
  · rintro ⟨hge, hlt⟩
    exact ⟨_, ⟨by omega, rfl⟩, hge, _, ⟨by omega, rfl⟩, hlt⟩

theorem toNat_periodExpiry {start epoch : UInt64} (hle : start ≤ epoch) (hfit : epoch.toNat + 34 < 2 ^ 64) :
    (periodExpiry start epoch).toNat = periodEnd start.toNat epoch.toNat % 2 ^ 64 := by
  have hle' := UInt64.le_iff_toNat_le.mp hle
  have hoverlap : (epoch + attestationOverlap).toNat = epoch.toNat + 3 := by
    rw [UInt64.toNat_add, Nat.mod_eq_of_lt]
    · rfl
    · change epoch.toNat + 3 < 2 ^ 64
      omega
  have hsince : (epoch + attestationOverlap - start).toNat = epoch.toNat + 3 - start.toNat := by
    rw [UInt64.toNat_sub_of_le _ _ (UInt64.le_iff_toNat_le.mpr (by omega)), hoverlap]
  have hperiod : ((epoch + attestationOverlap - start) / attestationPeriod).toNat =
      (epoch.toNat + 3 - start.toNat) / 30 := by
    rw [UInt64.toNat_div, hsince]
    rfl
  rw [periodExpiry, UInt64.toNat_mul, UInt64.toNat_add, UInt64.toNat_mul, UInt64.toNat_add, hperiod]
  change (start.toNat + ((epoch.toNat + 3 - start.toNat) / 30 + 1) % 2 ^ 64 * 30 % 2 ^ 64) % 2 ^ 64 * 86400 %
    2 ^ 64 = (start.toNat + ((epoch.toNat + 3 - start.toNat) / 30 + 1) * 30) * 86400 % 2 ^ 64
  omega

omit [FeedField F] in
theorem periodExpiry_iff {T : Type} {C : RegistryConfig F T} (hC : C.ForAgent) {start epoch : UInt64}
    (hle : start ≤ epoch) {timestamp : Nat} (htime : timestamp / C.epochSeconds = epoch.toNat) :
    AttestationRegistry.checkExpiry C timestamp (periodExpiry start epoch) = .ok () ↔
      periodEnd start.toNat epoch.toNat < 2 ^ 64 := by
  have hle' := UInt64.le_iff_toNat_le.mp hle
  have hlt := (periodExpiry start epoch).toNat_lt
  have hend : periodEnd start.toNat epoch.toNat =
    (start.toNat + ((epoch.toNat + 3 - start.toNat) / 30 + 1) * 30) * 86400 := rfl
  rw [checkExpiry_iff hC htime]
  by_cases hfit : epoch.toNat + 34 < 2 ^ 64
  · rw [toNat_periodExpiry hle hfit]
    by_cases hends : periodEnd start.toNat epoch.toNat < 2 ^ 64
    · rw [Nat.mod_eq_of_lt hends]
      omega
    · have hwrap : periodEnd start.toNat epoch.toNat % 2 ^ 64 ≤ periodEnd start.toNat epoch.toNat - 2 ^ 64 := by
        rw [Nat.mod_eq_sub_mod (Nat.le_of_not_lt hends)]
        exact Nat.mod_le _ _
      omega
  · omega

/-! ## The loop -/

section
variable {P} {agent : AttestingAgent F} {before : Finset String}

theorem capRefusal_eq_none {counted : Finset String} :
    agent.capRefusal before counted = none ↔ agent.WithinCaps before counted := by
  unfold capRefusal
  cases hcap : agent.maxInvestors.filter fun cap => counted.card > max before.card cap with
  | some cap =>
    obtain ⟨hmax, hover⟩ := Option.filter_eq_some_iff.mp hcap
    refine iff_of_false (Option.some_ne_none _) fun h => ?_
    exact absurd (h.total cap hmax) (Nat.not_le.mpr (of_decide_eq_true hover))
  | none =>
    have htotal : ∀ cap, agent.maxInvestors = some cap → counted.card ≤ max before.card cap := by
      intro cap hmax
      rw [hmax, Option.filter_eq_none_iff] at hcap
      exact Nat.le_of_not_lt fun hover => hcap cap rfl (decide_eq_true hover)
    simp only [List.findSome?_eq_none_iff]
    constructor
    · refine fun h => ⟨htotal, fun e he => ?_⟩
      by_contra hover
      have := h e he
      rw [if_pos (Nat.lt_of_not_le hover)] at this
      cases this
    · intro h e he
      exact if_neg (Nat.not_lt.mpr (h.jurisdictions e he))

theorem WithinCaps_self : agent.WithinCaps before before :=
  ⟨fun _ _ => Nat.le_max_left _ _, fun _ _ => Nat.le_max_left _ _⟩

theorem AttestingAgent.WithinCaps.mono {counted counted' : Finset String} (h : agent.WithinCaps before counted)
    (hsub : counted' ⊆ counted) : agent.WithinCaps before counted' :=
  ⟨fun cap hcap => (Finset.card_le_card hsub).trans (h.total cap hcap), fun e he =>
    (Finset.card_le_card (Finset.filter_subset_filter _ hsub)).trans (h.jurisdictions e he)⟩

/-- What holds of the loop before each owner value, `done` being those behind it. -/
structure AdmissionInv (P : Primitives F) (agent : AttestingAgent F) (before : Finset String) (done : List F)
    (a : AttestingAgent.Admission F) : Prop where
  split : (a.owners ++ a.overCap).Perm done
  within : agent.WithinCaps before a.counted
  mono : before ⊆ a.counted
  counted : ∀ owner ∈ a.owners, ∀ id, agent.investorOf P owner = some id → id ∈ a.counted
  renewed : ∀ owner ∈ done, (∀ id, agent.investorOf P owner = some id → id ∈ before) → owner ∈ a.owners

theorem concat_append_perm {α : Type} (xs ys : List α) (x : α) : (xs ++ [x] ++ ys).Perm (xs ++ ys ++ [x]) := by
  rw [List.append_assoc, List.append_assoc]
  exact List.perm_append_comm.append_left _

theorem AdmissionInv.step {done : List F} {a a' : AttestingAgent.Admission F} {owner : F}
    (inv : AdmissionInv P agent before done a) (h : agent.admitOwner P before a owner = .ok a') :
    AdmissionInv P agent before (done ++ [owner]) a' := by
  simp only [admitOwner, bind_eq_ok, okOr_eq_ok] at h
  obtain ⟨holder, hholder, h⟩ := h
  have hinvestor : agent.investorOf P owner = holder.investorId := by
    rw [investorOf, hholder, Option.bind_some]
  cases hnew : holder.investorId.filter fun id => decide (id ∉ a.counted) with
  | none =>
    -- the agent's own value, padding, or one more of an investor already counted
    have hcounted : ∀ id, agent.investorOf P owner = some id → id ∈ a.counted := by
      intro id hid
      rw [hinvestor] at hid
      rw [hid, Option.filter_eq_none_iff] at hnew
      by_contra hnot
      exact hnew id rfl (decide_eq_true hnot)
    simp only [hnew, pure_eq_ok] at h
    subst h
    refine ⟨?_, inv.within, inv.mono, ?_, ?_⟩
    · exact (concat_append_perm _ _ _).trans (inv.split.append_right _)
    · intro owner' howner'
      rcases List.mem_append.mp howner' with hold | hlast
      · exact inv.counted owner' hold
      · exact List.mem_singleton.mp hlast ▸ hcounted
    · intro owner' howner' hbefore
      rcases List.mem_append.mp howner' with hold | hlast
      · exact List.mem_append_left _ (inv.renewed owner' hold hbefore)
      · exact List.mem_append_right _ hlast
  | some id =>
    obtain ⟨hid, hnot⟩ := Option.filter_eq_some_iff.mp hnew
    have hfresh : id ∉ before := fun hbefore => of_decide_eq_true hnot (inv.mono hbefore)
    simp only [hnew] at h
    split at h
    · cases h
      refine ⟨?_, inv.within, inv.mono, inv.counted, ?_⟩
      · rw [← List.append_assoc]
        exact inv.split.append_right _
      · intro owner' howner' hbefore
        rcases List.mem_append.mp howner' with hold | hlast
        · exact inv.renewed owner' hold hbefore
        · exact absurd (hbefore id (List.mem_singleton.mp hlast ▸ hinvestor.trans hid)) hfresh
    · next hallowed =>
      cases h
      rw [Bool.not_eq_true, Option.isSome_eq_false_iff, Option.isNone_iff_eq_none,
        capRefusal_eq_none] at hallowed
      refine ⟨?_, hallowed, fun id' hid' => Finset.mem_insert_of_mem (inv.mono hid'), ?_, ?_⟩
      · exact (concat_append_perm _ _ _).trans (inv.split.append_right _)
      · intro owner' howner' id' hid'
        rcases List.mem_append.mp howner' with hold | hlast
        · exact Finset.mem_insert_of_mem (inv.counted owner' hold id' hid')
        · rw [List.mem_singleton.mp hlast, hinvestor, hid] at hid'
          exact Option.some.inj hid' ▸ Finset.mem_insert_self _ _
      · intro owner' howner' hbefore
        rcases List.mem_append.mp howner' with hold | hlast
        · exact List.mem_append_left _ (inv.renewed owner' hold hbefore)
        · exact List.mem_append_right _ hlast

theorem AdmissionInv.run {owners done : List F} {a a' : AttestingAgent.Admission F}
    (inv : AdmissionInv P agent before done a) (h : owners.foldlM (agent.admitOwner P before) a = .ok a') :
    AdmissionInv P agent before (done ++ owners) a' := by
  induction owners generalizing done a with
  | nil =>
    rw [List.foldlM_nil, pure_eq_ok] at h
    rw [List.append_nil]
    exact h ▸ inv
  | cons owner owners ih =>
    simp only [List.foldlM_cons, bind_eq_ok] at h
    obtain ⟨next, hnext, hrest⟩ := h
    have := ih (inv.step hnext) hrest
    rwa [List.append_assoc] at this

/-- The loop refuses only values of nobody. -/
theorem exists_admission {owners : List F} (h : ∀ owner ∈ owners, (agent.holderOf P owner).isSome)
    (a : AttestingAgent.Admission F) : ∃ a', owners.foldlM (agent.admitOwner P before) a = .ok a' := by
  induction owners generalizing a with
  | nil => exact ⟨a, rfl⟩
  | cons owner owners ih =>
    obtain ⟨hknown, hrest⟩ := List.forall_mem_cons.mp h
    obtain ⟨holder, hholder⟩ := Option.isSome_iff_exists.mp hknown
    have hadmit : ∃ next, agent.admitOwner P before a owner = .ok next := by
      cases hadmit : agent.admitOwner P before a owner with
      | ok next => exact ⟨next, rfl⟩
      | error e =>
        simp only [admitOwner, bind_eq_error, okOr_eq_error, hholder] at hadmit
        rcases hadmit with ⟨hnone, -⟩ | ⟨_, -, hmatch⟩
        · cases hnone
        · split at hmatch
          · cases hmatch
          · split at hmatch <;> cases hmatch
    obtain ⟨next, hnext⟩ := hadmit
    obtain ⟨a', ha'⟩ := ih hrest next
    exact ⟨a', by rw [List.foldlM_cons, bind_eq_ok]; exact ⟨next, hnext, ha'⟩⟩

theorem holderOf_isSome_of_due {view : AttestedView F} {env : PoolEnv F} {expiresAt : UInt64} {owner : F}
    (h : owner ∈ agent.due P view env expiresAt) : (agent.holderOf P owner).isSome := by
  rcases List.mem_cons.mp (List.mem_of_mem_filter h) with rfl | hkey
  · simp [holderOf]
  · have hknown := (agent.mem_investorKeys owner).mp hkey
    unfold holderOf
    split
    · rfl
    · rwa [Option.isSome_map]

end

section
variable {P} {agent : AttestingAgent F}

theorem freshPadding_owners (drawn : List (OwnerKeys F)) :
    (agent.freshPadding P drawn).1 = drawn.map (OwnerKeys.owner P) := by
  induction drawn generalizing agent with
  | nil => rfl
  | cons keys rest ih => exact congrArg (keys.owner P :: ·) ih

structure Padded (P : Primitives F) (agent after : AttestingAgent F) (padding : List F) : Prop where
  register : after.register = agent.register
  publicHolders : after.publicHolders = agent.publicHolders
  investors : ∀ {owner record}, after.investors owner = some record → record.holder.investorId ≠ none →
    agent.investors owner = some record ∧ owner ∉ padding

theorem freshPadding_padded (drawn : List (OwnerKeys F)) :
    Padded P agent (agent.freshPadding P drawn).2 (drawn.map (OwnerKeys.owner P)) := by
  induction drawn generalizing agent with
  | nil => exact ⟨rfl, rfl, fun h _ => ⟨h, List.not_mem_nil⟩⟩
  | cons keys rest ih =>
    let recorded := agent.recordOwner P .padding keys.pk keys.nk
    obtain ⟨hregister, hpublic, hinvestors⟩ := @ih { recorded with padding := recorded.padding ++ [keys] }
    refine ⟨hregister, hpublic, ?_⟩
    intro owner record hrecord hid
    obtain ⟨hold, hrest⟩ := hinvestors hrecord hid
    have hne : owner ≠ keys.owner P := by
      rintro rfl
      have hpadding : recorded.investors (keys.owner P) = some ⟨.padding, keys.pk, keys.nk⟩ :=
        Function.update_self ..
      obtain rfl := Option.some.inj (hpadding.symm.trans hold)
      exact hid rfl
    refine ⟨?_, fun hmem => ?_⟩
    · exact (Function.update_of_ne hne _ _).symm.trans hold
    · rcases List.mem_cons.mp hmem with heq | hmem
      · exact hne heq
      · exact hrest hmem

end

section
variable {P} {agent after : AttestingAgent F} {view view' : AttestedView F} {env : PoolEnv F}
  {holdingPublicly : List Address} {before : Finset String}

theorem mem_attestedInvestors {id : String} : id ∈ agent.attestedInvestors view env ↔
    ∃ owner record, agent.investors owner = some record ∧ record.holder.investorId = some id ∧
      (view.attestationOf owner env.epoch env.minAcceptedGeneration).isSome := by
  simp only [attestedInvestors, List.mem_filterMap, Option.bind_eq_bind,
    Option.bind_eq_some_iff, Option.ite_none_right_eq_some, Option.some.injEq]
  constructor
  · rintro ⟨owner, -, record, hrecord, id', hid, hattested, rfl⟩
    exact ⟨owner, record, hrecord, hid, hattested⟩
  · rintro ⟨owner, record, hrecord, hid, hattested⟩
    have hkey : owner ∈ agent.investorKeys := (agent.mem_investorKeys owner).mpr (hrecord ▸ rfl)
    exact ⟨owner, hkey, record, hrecord, id, hid, hattested, rfl⟩

/-- Whoever is counted after the round was counted before, or has an owner value among the new records. -/
theorem exists_countedInvestors {padding : List F} (hpadded : Padded P agent after padding)
    (hbefore : agent.countedInvestors view env holdingPublicly = .ok before)
    {records : List (AttestationRecord F)}
    (hview : view'.attestationRecords = view.attestationRecords ++ records) :
    ∃ counted, after.countedInvestors view' env holdingPublicly = .ok counted ∧
      ∀ id ∈ counted, id ∈ before ∨ ∃ owner record, agent.investors owner = some record ∧
        record.holder.investorId = some id ∧ owner ∉ padding ∧ owner ∈ records.map AttestationRecord.owner := by
  simp only [countedInvestors, bind_eq_ok, pure_eq_ok] at hbefore ⊢
  obtain ⟨publicly, hpublicly, rfl⟩ := hbefore
  refine ⟨_, ⟨publicly, hpadded.publicHolders ▸ hpublicly, rfl⟩, fun id hid => ?_⟩
  simp only [List.mem_toFinset, List.mem_append, mem_attestedInvestors] at hid ⊢
  rcases hid with (⟨owner, record, hrecord, hinvestor, hattested⟩ | hheld) | hpublic
  · obtain ⟨hold, hpadding⟩ := hpadded.investors hrecord (hinvestor ▸ Option.some_ne_none id)
    rw [AttestedView.attestationOf, List.find?_isSome] at hattested
    obtain ⟨r, hr, hcurrent⟩ := hattested
    rw [List.mem_reverse, hview, List.mem_append] at hr
    rcases hr with hrold | hrnew
    · refine .inl (.inl (.inl ⟨owner, record, hold, hinvestor, ?_⟩))
      rw [AttestedView.attestationOf, List.find?_isSome]
      exact ⟨r, List.mem_reverse.mpr hrold, hcurrent⟩
    · have howner : r.owner = owner := (of_decide_eq_true hcurrent).1
      exact .inr ⟨owner, record, hold, hinvestor, hpadding, howner ▸ List.mem_map_of_mem hrnew⟩
  · refine .inl (.inl (.inr ?_))
    rwa [heldInvestors, heldEntries, hpadded.register] at hheld
  · exact .inl (.inr hpublic)

end

/-! ## The round -/

section
variable {T : Type} {C : RegistryConfig F T} {agent after : AttestingAgent F} {view : AttestedView F}
  {env : PoolEnv F} {holdingPublicly : List Address} {generation : UInt64} {draw : Draw F}
  {round : AttestationRound F}

/-- The agent does not hold its own value as an investor's while it is due. -/
def OwnValueOnce (P : Primitives F) (agent : AttestingAgent F) (view : AttestedView F) (env : PoolEnv F)
    (expiresAt : UInt64) : Prop :=
  agent.owner P ∈ agent.investorKeys → agent.isDue view env expiresAt (agent.owner P) = false

theorem due_nodup_iff {P : Primitives F} {expiresAt : UInt64} :
    (agent.due P view env expiresAt).Nodup ↔ OwnValueOnce P agent view env expiresAt := by
  rw [due, List.filter_cons]
  have hkeys : (agent.investorKeys.filter (agent.isDue view env expiresAt)).Nodup := agent.nodup.filter _
  by_cases hown : agent.isDue view env expiresAt (agent.owner P) = true
  · rw [if_pos hown, List.nodup_cons, and_iff_left hkeys, List.mem_filter, and_iff_left hown, OwnValueOnce]
    simp [hown]
  · rw [if_neg hown]
    exact iff_of_true hkeys fun _ => Bool.not_eq_true _ ▸ hown

theorem dvd_paddingFor (n : Nat) : attestationPart ∣ n + paddingFor n := by
  unfold paddingFor attestationPart
  omega

theorem paddingFor_lt (n : Nat) : paddingFor n < attestationPart := by
  unfold paddingFor attestationPart
  omega

/-- How a round comes about. -/
structure Rounds (P : Primitives F) (agent : AttestingAgent F) (draw : Draw F) (view : AttestedView F)
    (env : PoolEnv F) (holdingPublicly : List Address) (round : AttestationRound F) (after : AttestingAgent F)
    (before : Finset String) (a : AttestingAgent.Admission F) (padding : List F) : Prop where
  counted : agent.countedInvestors view env holdingPublicly = .ok before
  admitted : AdmissionInv P agent before (agent.due P view env round.batch.expiresAt) a
  drawn : padding = (List.range (paddingFor a.owners.length)).map fun i => (draw.keys i).owner P
  padded : Padded P agent after padding
  parts : round.batch.parts = (draw.shuffle (a.owners ++ padding)).toChunks attestationPart
  overCap : round.overCap = a.overCap

theorem rounds_of_attestationBatch
    (h : agent.attestationBatch C.toPrimitives draw view env holdingPublicly generation = .ok (round, after)) :
    round.batch.expiresAt = periodExpiry (agent.periodStart.getD env.epoch) env.epoch ∧
    ∃ before a padding, Rounds C.toPrimitives (agent.readFeed C.toPrimitives view.toChainView) draw view env
      holdingPublicly round after before a padding := by
  simp only [attestationBatch, bind_eq_ok, pure_eq_ok, Prod.mk.injEq] at h
  obtain ⟨before, hbefore, a, hadmitted, rfl, rfl⟩ := h
  have hstart : AdmissionInv C.toPrimitives (agent.readFeed C.toPrimitives view.toChainView) before []
      ⟨[], [], before⟩ :=
    ⟨List.Perm.refl _, WithinCaps_self, Finset.Subset.refl _, fun _ h => absurd h List.not_mem_nil,
      fun _ h => absurd h List.not_mem_nil⟩
  refine ⟨rfl, before, a, _, hbefore, hstart.run hadmitted, rfl, ?_, ?_, rfl⟩
  · let drawn := (List.range (paddingFor a.owners.length)).map draw.keys
    have hpadded : Padded C.toPrimitives { agent.readFeed C.toPrimitives view.toChainView with
        periodStart := some (agent.periodStart.getD env.epoch) } _
        (drawn.map (OwnerKeys.owner C.toPrimitives)) :=
      freshPadding_padded drawn
    rw [List.map_map] at hpadded
    exact ⟨hpadded.register, hpadded.publicHolders, hpadded.investors⟩
  · rw [freshPadding_owners, List.map_map]
    rfl

namespace Rounds
variable {P : Primitives F} {before : Finset String} {a : AttestingAgent.Admission F} {padding : List F}
  (r : Rounds P agent draw view env holdingPublicly round after before a padding)

include r

theorem owners_perm : round.batch.owners.Perm (a.owners ++ padding) := by
  rw [AttestationBatch.owners, r.parts, flatten_toChunks]
  exact draw.shuffle_perm _

theorem partition :
    (round.batch.owners ++ round.overCap).Perm (agent.due P view env round.batch.expiresAt ++ padding) := by
  rw [r.overCap]
  refine (r.owners_perm.append_right _).trans ?_
  rw [List.append_assoc]
  refine (List.perm_append_comm.append_left _).trans ?_
  rw [← List.append_assoc]
  exact r.admitted.split.append_right _

theorem holderOf_padding (hfresh : draw.Fresh P agent) {owner : F} (h : owner ∈ padding) :
    agent.holderOf P owner = none := by
  rw [r.drawn] at h
  obtain ⟨i, hi, rfl⟩ := List.mem_map.mp h
  exact hfresh.unknown i ((List.mem_range.mp hi).trans (paddingFor_lt _))

theorem once_iff (hfresh : draw.Fresh P agent) : (round.batch.owners ++ round.overCap).Nodup ↔
      (agent.due P view env round.batch.expiresAt).Nodup := by
  rw [r.partition.nodup_iff, List.nodup_append']
  refine and_iff_left ⟨?_, fun owner hdue hpadding => ?_⟩
  · rw [r.drawn]
    exact hfresh.distinct.sublist ((List.range_sublist.mpr (paddingFor_lt _).le).map _)
  · have hnone := r.holderOf_padding hfresh hpadding
    exact absurd (holderOf_isSome_of_due hdue) (hnone ▸ Bool.false_ne_true)

theorem length_part {part : List F} (h : part ∈ round.batch.parts) : part.length = attestationPart := by
  rw [r.parts] at h
  refine length_of_mem_toChunks (by decide) ?_ h
  rw [(draw.shuffle_perm _).length_eq, List.length_append, r.drawn, List.length_map, List.length_range]
  exact dvd_paddingFor _

/-- Attesting the batch counts nobody whom the loop did not count. -/
theorem caps (hown : OwnValueOnce P agent view env round.batch.expiresAt) {records : List (AttestationRecord F)}
    {view' : AttestedView F} (hattests : round.batch.Attests records)
    (hview : view'.attestationRecords = view.attestationRecords ++ records) :
    ∃ counted, after.countedInvestors view' env holdingPublicly = .ok counted ∧
      agent.WithinCaps before counted := by
  obtain ⟨counted, hcounted, hmem⟩ := exists_countedInvestors r.padded r.counted hview
  refine ⟨counted, hcounted, r.admitted.within.mono fun id hid => ?_⟩
  rcases hmem id hid with hbefore | ⟨owner, record, hrecord, hinvestor, hpadding, hattested⟩
  · exact r.admitted.mono hbefore
  · have hbatch := r.owners_perm.subset (hattests.owners.subset hattested)
    have howner := (List.mem_append.mp hbatch).resolve_right hpadding
    have hdue := r.admitted.split.subset (List.mem_append_left _ howner)
    have hne : owner ≠ agent.owner P := by
      rintro rfl
      have hkey := (agent.mem_investorKeys _).mpr (Option.isSome_iff_exists.mpr ⟨_, hrecord⟩)
      have := List.of_mem_filter hdue
      rw [hown hkey] at this
      cases this
    refine r.admitted.counted owner howner id ?_
    rw [investorOf, holderOf, if_neg hne, hrecord]
    exact hinvestor

end Rounds

/-- A round fails only for a public holder that the agent cannot attribute. -/
theorem exists_attestationBatch (P : Primitives F) (agent : AttestingAgent F) (draw : Draw F)
    (view : AttestedView F) (env : PoolEnv F) (generation : UInt64)
    (h : ∀ address ∈ holdingPublicly, (agent.publicHolders address).isSome) : ∃ round after,
      agent.attestationBatch P draw view env holdingPublicly generation = .ok (round, after) := by
  cases hbatch : agent.attestationBatch P draw view env holdingPublicly generation with
  | ok result => exact ⟨result.1, result.2, rfl⟩
  | error e =>
    simp only [attestationBatch, countedInvestors, bind_eq_error, bind_eq_ok, pure_eq_ok] at hbatch
    rcases hbatch with (hpublicly | ⟨_, -, hcounted⟩) | ⟨before, -, hloop | ⟨_, -, hround⟩⟩
    · obtain ⟨address, haddress, hunknown⟩ := exists_of_mapM_eq_error hpublicly
      rw [okOr_eq_error] at hunknown
      have hknown := h address haddress
      rw [← Option.not_isNone, Bool.not_eq_true', ← Bool.not_eq_true] at hknown
      exact absurd (Option.isNone_iff_eq_none.mpr hunknown.1) hknown
    · cases hcounted
    · obtain ⟨a, ha⟩ := @exists_admission _ _ P _ before _ (fun owner hdue => holderOf_isSome_of_due hdue)
        ⟨[], [], before⟩
      cases ha.symm.trans hloop
    · cases hround

theorem owner_readFeed (P : Primitives F) (agent : AttestingAgent F) (view : ChainView F) :
    (agent.readFeed P view).owner P = agent.owner P := by
  have hsame := readFeed_sameKeys P agent.toTransferAgent view
  change ownerValue P (agent.toTransferAgent.readFeed P view).wallet.pk
    (agent.toTransferAgent.readFeed P view).wallet.nk = _
  rw [hsame.pk, hsame.nk]
  rfl

theorem holderOf_readFeed (P : Primitives F) (agent : AttestingAgent F) (view : ChainView F) (owner : F) :
    (agent.readFeed P view).holderOf P owner = agent.holderOf P owner := by
  rw [holderOf, holderOf, owner_readFeed]
  change (if _ then _ else ((agent.toTransferAgent.readFeed P view).investors owner).map _) = _
  rw [(readFeed_sameKeys P agent.toTransferAgent view).investors]

/-- A round is exact if and only if the agent's own value is not due twice and the period's end does not
overflow. -/
theorem attestationBatch_exact_iff (hC : C.ForAgent) (hfresh : draw.Fresh C.toPrimitives agent)
    (h : agent.attestationBatch C.toPrimitives draw view env holdingPublicly generation = .ok (round, after)) :
    RoundExact C (agent.readFeed C.toPrimitives view.toChainView) view env holdingPublicly
        (agent.periodStart.getD env.epoch) round after ↔
      OwnValueOnce C.toPrimitives agent view env (periodExpiry (agent.periodStart.getD env.epoch) env.epoch) ∧
      (agent.periodStart.getD env.epoch ≤ env.epoch →
        periodEnd (agent.periodStart.getD env.epoch).toNat env.epoch.toNat < 2 ^ 64) := by
  obtain ⟨hexpiry, before, a, padding, r⟩ := rounds_of_attestationBatch h
  have hfresh' : draw.Fresh C.toPrimitives (agent.readFeed C.toPrimitives view.toChainView) :=
    ⟨fun i hi => (holderOf_readFeed _ _ _ _).trans (hfresh.unknown i hi), hfresh.distinct⟩
  have hown : OwnValueOnce C.toPrimitives (agent.readFeed C.toPrimitives view.toChainView) view env
      round.batch.expiresAt ↔ OwnValueOnce C.toPrimitives agent view env
        (periodExpiry (agent.periodStart.getD env.epoch) env.epoch) := by
    rw [OwnValueOnce, owner_readFeed, hexpiry]
    rfl
  rw [← hown]
  constructor
  · intro hexact
    refine ⟨due_nodup_iff.mp ((r.once_iff hfresh').mp hexact.once), fun hle => ?_⟩
    have hseconds : 0 < C.epochSeconds := hC.epochSeconds ▸ (by decide)
    have htime : env.epoch.toNat * C.epochSeconds / C.epochSeconds = env.epoch.toNat :=
      Nat.mul_div_cancel _ hseconds
    exact (periodExpiry_iff hC hle htime).mp (hexpiry ▸ hexact.expiry hle _ htime)
  · rintro ⟨honce, hends⟩
    refine ⟨⟨padding, fun owner => r.holderOf_padding hfresh', r.partition⟩,
      (r.once_iff hfresh').mpr (due_nodup_iff.mpr honce), ?_, ?_, fun part => r.length_part, ?_⟩
    · intro before' hbefore' owner hdue hcounted
      obtain rfl := Except.ok.inj (hbefore'.symm.trans r.counted)
      exact r.owners_perm.symm.subset (List.mem_append_left _ (r.admitted.renewed owner hdue hcounted))
    · intro before' hbefore' records view' hattests hview
      obtain rfl := Except.ok.inj (hbefore'.symm.trans r.counted)
      exact r.caps honce hattests hview
    · intro hle timestamp htime
      exact hexpiry ▸ (periodExpiry_iff hC hle htime).mpr (hends hle)

end

/-! ## A round -/

namespace Sample

def attestingAgent : AttestingAgent Unbounded :=
  { TransferAgent.new wallet 2 with
    investorKeys := []
    sorted := .nil
    nodup := .nil
    mem_investorKeys := fun _ => iff_of_false List.not_mem_nil Bool.false_ne_true
    maxInvestors := some 1
    jurisdictionCaps := .new
    jurisdictions _ := none
    publicHolders _ := none
    padding := []
    periodStart := none
    notRenewed _ := false }

def draw : Draw Unbounded := ⟨fun i => ⟨ownerKey, ⟨i + 6⟩⟩, id, fun _ => .refl _⟩

def noRecords : AttestedView Unbounded := ⟨.empty, [], []⟩

noncomputable abbrev registryConfig := sample.toRegistryConfig

/-- The agent recorded its own owner value as an investor's. -/
noncomputable def selfOnboarded : AttestingAgent Unbounded :=
  attestingAgent.recordOwner registryConfig.toPrimitives (.investor "INV-SELF") ownerKey nk

/-- Two investors, where the cap admits one. -/
noncomputable def onboarded : AttestingAgent Unbounded :=
  (attestingAgent.recordOwner registryConfig.toPrimitives (.investor "INV-A") ownerKey ⟨100⟩).recordOwner
    registryConfig.toPrimitives (.investor "INV-B") ownerKey ⟨101⟩

theorem ownerValue_ne {n m : Nat} (h : n ≠ m) : ownerValue registryConfig.toPrimitives ownerKey ⟨n⟩ ≠
    ownerValue registryConfig.toPrimitives ownerKey ⟨m⟩ :=
  fun heq => h (congrArg Unbounded.val (nk_of_ownerValue idealHash_ideal heq))

theorem draw_fresh : draw.Fresh registryConfig.toPrimitives onboarded := by
  constructor
  · intro i hi
    have hi' : i < 16 := hi
    have hne : ∀ n, i + 6 ≠ n → (draw.keys i).owner registryConfig.toPrimitives ≠
        ownerValue registryConfig.toPrimitives ownerKey ⟨n⟩ := fun n h => ownerValue_ne h
    have hown : (draw.keys i).owner registryConfig.toPrimitives ≠
        onboarded.owner registryConfig.toPrimitives := hne 5 (by omega)
    rw [holderOf, if_neg hown, onboarded, investors_recordOwner (hne 101 (by omega)),
      investors_recordOwner (hne 100 (by omega))]
    rfl
  · refine (List.nodup_map_iff_inj_on List.nodup_range).mpr fun i hi j hj heq => ?_
    have hval := congrArg Unbounded.val (nk_of_ownerValue idealHash_ideal heq)
    exact Nat.add_right_cancel hval

end Sample

open Sample

theorem own_value_twice : ∃ round after, selfOnboarded.attestationBatch
      registryConfig.toPrimitives draw noRecords poolEnv [] 0 =
        .ok (round, after) ∧ ¬ (round.batch.owners ++ round.overCap).Nodup := by
  obtain ⟨round, after, h⟩ := exists_attestationBatch registryConfig.toPrimitives
    selfOnboarded draw noRecords poolEnv 0 fun address h => absurd h List.not_mem_nil
  refine ⟨round, after, h, fun hnodup => ?_⟩
  obtain ⟨-, before, a, padding, r⟩ := rounds_of_attestationBatch (C := registryConfig) h
  have honce := due_nodup_iff.mp ((r.partition.nodup_iff.mp hnodup).of_append_left)
  rw [OwnValueOnce, owner_readFeed] at honce
  have hkey : selfOnboarded.owner registryConfig.toPrimitives ∈ selfOnboarded.investorKeys :=
    mem_recordOwner.mpr (.inl rfl)
  cases honce hkey

/-- The first round of an agent with more investors than its cap. -/
theorem attestationBatch_exact_sample : ∃ round after, onboarded.attestationBatch
      registryConfig.toPrimitives draw noRecords poolEnv [] 0 = .ok (round, after) ∧
    RoundExact registryConfig (onboarded.readFeed registryConfig.toPrimitives .empty)
      noRecords poolEnv [] 0 round after := by
  obtain ⟨round, after, h⟩ := exists_attestationBatch registryConfig.toPrimitives
    onboarded draw noRecords poolEnv 0 fun address h => absurd h List.not_mem_nil
  have hC : registryConfig.ForAgent := ⟨rfl, rfl, rfl⟩
  refine ⟨round, after, h, (attestationBatch_exact_iff hC draw_fresh h).mpr ⟨fun hkey => ?_, fun _ => ?_⟩⟩
  · rw [onboarded, mem_recordOwner, mem_recordOwner] at hkey
    rcases hkey with heq | heq | hmem
    · exact absurd heq (@ownerValue_ne 5 101 (by decide))
    · exact absurd heq (@ownerValue_ne 5 100 (by decide))
    · exact absurd hmem List.not_mem_nil
  · decide

end Pocs.Mmf
