import Pocs.Mmf.Desk
import Pocs.Mmf.Locks

/-! # The seed stays in the pool

The seed's deposit is spent by a freeze or not at all, and what the freeze of the log created is not
spent: `SeedInv` says so of what the agent returns, and `Custody` that its keys sign nothing else of the
seed's. The circuits keep the freeze from the owner path, so the units of the seed stay. -/

namespace Pocs.Mmf

open Compliance (Address Ideal merkleHash ofAddress idealHash idealHash_ideal)

variable {F T τ : Type} [FeedField F] {P : Primitives F} {D : Deployment F T τ}

/-! ## Transfers of the seed -/

namespace BuiltTransfer

def plan (built : BuiltTransfer F) : Plan F := transferPlan built.pub built.witness

local instance neZero_movedOutputs : NeZero 2 := ⟨by decide⟩

/-- The first output, which holds the units of a claim's target. -/
def moved (built : BuiltTransfer F) : Note F := built.witness.outputs 0

end BuiltTransfer

namespace Desk

/-- The transfer stands in the log. -/
def Mined (d : Desk F T τ) (built : BuiltTransfer F) : Prop :=
  ∃ s ∈ spendsOf F d.office.logs, built.pub.nullifier0 ∈ s.nullifiers ∧ s.outputs = built.outputs

/-- The log has a deposit of the note. -/
def Deposited (P : Primitives F) (d : Desk F T τ) (note : Note F) : Prop :=
  ∃ commitment units shares feedR feedCt payload,
    .deposit commitment units shares feedR feedCt payload ∈ d.office.logs ∧
      Scalar.ofNat commitment = note.commitment P

def Act.seedNote : Act F → Option (Note F)
  | .depositSeed note => some note
  | .freezeSeed built => some built.moved
  | _ => none

/-- A step with fresh salts for the seed's notes, which nothing returned before spends, while the
claim keys of the pool are among `held`. -/
structure SeedNext (D : Deployment F T τ) (held : SpendKey → Prop) (d : Desk F T τ) (act : Act F)
    (d' : Desk F T τ) : Prop where
  step : Next D d act d'
  fresh : ∀ note, act.seedNote = some note → ∀ t ∈ d.returned, ¬ t.Spends D.toPrimitives note
  claimKeys : ∀ key, keyHash D.toPrimitives key = Scalar.ofNat d.office.world.pool.claimKeyHash → held key

end Desk

/-- A freeze of the note: its units, with a lock that no epoch releases. -/
structure SeedFreeze (P : Primitives F) (note : Note F) (built : BuiltTransfer F) : Prop where
  spends : ∃ nk, SpendsOne P (note.commitment P) nk true built.witness.outputs built
  nullifies : note.Nullifies P built.pub.nullifier0
  units : built.moved.units = note.units
  lock : built.moved.lock = lockValue P LockOpening.freeze

theorem lockFreeze_ne_zero : (lockFreeze : F) ≠ 0 := fun h => by
  have hone := congrArg Scalar.toNat h
  rw [lockFreeze, Scalar.toNat_ofNat (by decide)] at hone
  cases hone.trans Scalar.toNat_zero

/-- A freeze on an entry of the agent's. -/
theorem ClaimBuilt.seedFreeze {a a' : KeyedAgent F} {note : Note F} {built : BuiltTransfer F}
    (H : Ideal P.hash) (h : ClaimBuilt P a a' (note.commitment P) .freeze built)
    (hregister : ∀ e ∈ a.register, e.commitment = e.note.commitment P)
    (howner : note.owner = a.owner P) : SeedFreeze P note built := by
  obtain ⟨e, he, hcommitment, record, hrecord, env, draws, hspends⟩ := h.spends
  obtain rfl := Note.commitment_inj H ((hregister e he).symm.trans hcommitment)
  rw [KeyedAgent.keysOf, if_pos howner, pure_eq_ok] at hrecord
  subst hrecord
  have hmoved : built.moved =
      ⟨ofAddress env.token, e.note.units, e.note.owner, draws.salts 0, LockOpening.freeze.value P⟩ := by
    rw [BuiltTransfer.moved, hspends.outputs]
    rfl
  refine ⟨⟨_, hspends.outputs ▸ hspends⟩, ⟨_, _, howner, hspends.nullifier0⟩, ?_, ?_⟩
  · rw [hmoved]
  · rw [hmoved]
    exact if_neg lockFreeze_ne_zero

/-! ## What the agent returns -/

/-- A freeze is recorded, and what it moved is not spent, or it is superseded. -/
def Guarded (P : Primitives F) (d : Desk F T τ) (note : Note F) (built : BuiltTransfer F) : Prop :=
  Superseded d.office.logs built ∨ d.office.agent.Records (note.commitment P) built ∧
    (note.units ≠ 0 → ∀ t ∈ d.returned, ¬ t.Spends P built.moved)

/-- The agent's book about its seed. -/
structure SeedKept (P : Primitives F) (d : Desk F T τ) (note : Note F) : Prop where
  deposit : d.seedDeposit = some (note.commitment P)
  owner : note.owner = d.office.agent.owner P
  lock : note.lock = 0
  returned : note.units ≠ 0 → ∀ t ∈ d.returned, ¬ t.Spends P note
  freeze : ∀ f ∈ d.freezes, SeedFreeze P note f
  guarded : ∀ f ∈ d.freezes, Guarded P d note f

inductive SeedInv (P : Primitives F) (d : Desk F T τ) : Prop where
  | unseeded (seed : d.seed = none) (deposit : d.seedDeposit = none) (freezes : d.freezes = [])
  | seeded {note} (seed : d.seed = some note) (kept : SeedKept P d note)

namespace SeedKept
variable {d d' : Desk F T τ} {note : Note F} {t : BuiltTransfer F}

/-- The transfer spends neither the deposit nor what a recorded freeze moved. -/
def Avoided (P : Primitives F) (d : Desk F T τ) (note : Note F) (t : BuiltTransfer F) : Prop :=
  note.units ≠ 0 → ¬ t.Spends P note ∧
    ∀ f ∈ d.freezes, d.office.agent.Records (note.commitment P) f → ¬ t.Spends P f.moved

/-- Whatever `is_seed` does not recognise is another note. -/
theorem avoided (H : Ideal P.hash) (h : SeedKept P d note) {source nk : F} {claim : Bool}
    {notes : Fin 2 → Note F} (hseed : d.agent.isSeed source = false)
    (ht : SpendsOne P source nk claim notes t) : Avoided P d note t := by
  have hdeposit : d.agent.seedDeposit = some (note.commitment P) := h.deposit
  simp only [KeyedAgent.isSeed, hdeposit, Bool.or_eq_false_iff, decide_eq_false_iff_not,
    List.any_eq_false, Bool.and_eq_true, decide_eq_true_eq, not_and] at hseed
  obtain ⟨hne, hrecords⟩ := hseed
  refine fun hunits => ⟨fun hspends => ?_, fun f hf hrecorded hspends => ?_⟩
  · exact hne (ht.commitment_eq H hunits hspends).symm
  · have hmoved := h.freeze f hf
    obtain ⟨_, hone⟩ := hmoved.spends
    have hcommitment := ht.commitment_eq H (hmoved.units ▸ hunits) hspends
    refine hrecords _ hrecorded rfl ?_
    exact hone.out0.trans hcommitment

theorem step (h : SeedKept P d note) (deposit : d'.seedDeposit = d.seedDeposit)
    (owner : d'.office.agent.owner P = d.office.agent.owner P) (logs : d.office.logs <+: d'.office.logs)
    (records : ∀ f ∈ d.freezes, d.office.agent.Records (note.commitment P) f →
      Superseded d'.office.logs f ∨ d'.office.agent.Records (note.commitment P) f)
    (returned : ∀ t ∈ d'.returned, t ∈ d.returned ∨ Avoided P d note t)
    (freezes : ∀ f ∈ d'.freezes, f ∈ d.freezes ∨ SeedFreeze P note f ∧ Guarded P d' note f) :
    SeedKept P d' note := by
  have hguarded : ∀ f ∈ d.freezes, Guarded P d' note f := by
    intro f hf
    rcases h.guarded f hf with hsuperseded | ⟨hrecorded, hunspent⟩
    · exact .inl (hsuperseded.mono logs)
    · refine (records f hf hrecorded).imp_right fun hkept => ⟨hkept, fun hunits t ht => ?_⟩
      rcases returned t ht with hold | havoided
      · exact hunspent hunits t hold
      · exact (havoided hunits).2 f hf hrecorded
  refine ⟨deposit.trans h.deposit, h.owner.trans owner.symm, h.lock, fun hunits t ht => ?_,
    fun f hf => ?_, fun f hf => ?_⟩
  · rcases returned t ht with hold | havoided
    · exact h.returned hunits t hold
    · exact (havoided hunits).1
  · rcases freezes f hf with hold | hnew
    · exact h.freeze f hold
    · exact hnew.1
  · rcases freezes f hf with hold | hnew
    · exact hguarded f hold
    · exact hnew.2

end SeedKept

/-! ## Steps -/

section
variable {o o' : Office F T τ} {note : Note F} {act : Office.Act F}

/-- What a step of the office keeps of the seed. -/
structure OfficeKept (P : Primitives F) (o o' : Office F T τ) (note : Note F) : Prop where
  owner : o'.agent.owner P = o.agent.owner P
  logs : o.logs <+: o'.logs
  records : ∀ {built}, SeedFreeze P note built → o.agent.Records (note.commitment P) built →
    Superseded o'.logs built ∨ o'.agent.Records (note.commitment P) built

theorem Office.Next.seedKept (H : Ideal D.hash) (h : Office.Next D Office.Taken o act o')
    (hregister : ∀ e ∈ o'.agent.register, e.commitment = e.note.commitment D.toPrimitives)
    (howner : note.owner = o.agent.owner D.toPrimitives) : OfficeKept D.toPrimitives o o' note := by
  cases h with
  | chain => exact ⟨rfl, List.prefix_append _ _, fun _ hrecorded => .inr hrecorded⟩
  | newRegisterKey | commitRefused | recordOwner =>
    exact ⟨rfl, List.prefix_rfl, fun _ hrecorded => .inr hrecorded⟩
  | commitRegisterKey _ ok =>
    simp only [TransferAgent.commitRegisterKey, bind_eq_ok, pure_eq_ok] at ok
    obtain ⟨_, -, _, -, rfl⟩ := ok
    exact ⟨rfl, List.prefix_rfl, fun _ hrecorded => .inr hrecorded⟩
  | @readFeed logs outflows view earlier sync =>
    have hsame := readFeed_sameKeys D.toPrimitives o.agent view
    refine ⟨?_, List.prefix_rfl, fun hbuilt hrecorded => ?_⟩
    · show ownerValue _ _ _ = ownerValue _ _ _
      rw [hsame.pk, hsame.nk]
    · refine (readFeed_records H sync hregister (fun nk hnk => ?_) hbuilt.nullifies hrecorded).imp_left
        (.mono earlier)
      rw [TransferAgent.nkOf, if_pos howner, Option.some.injEq] at hnk
      subst hnk
      exact ⟨_, howner⟩

end

section
variable {held : SpendKey → Prop} {d d₀ d' : Desk F T τ} {act : Desk.Act F} {acts : List (Desk.Act F)}

/-- What one step of the desk keeps. -/
theorem SeedInv.step (H : Ideal D.hash) (h : Desk.SeedNext D held d act d')
    (hregister : ∀ e ∈ d.office.agent.register, e.commitment = e.note.commitment D.toPrimitives)
    (hregister' : ∀ e ∈ d'.office.agent.register, e.commitment = e.note.commitment D.toPrimitives)
    (inv : SeedInv D.toPrimitives d) : SeedInv D.toPrimitives d' := by
  obtain ⟨hnext, hfresh, -⟩ := h
  cases hnext with
  | office step =>
    cases inv with
    | unseeded seed deposit freezes => exact .unseeded seed deposit freezes
    | seeded seed kept =>
      have hkept := step.seedKept H hregister' kept.owner
      exact .seeded seed (kept.step rfl hkept.owner hkept.logs
        (fun f hf hrecorded => hkept.records (kept.freeze f hf) hrecorded) (fun _ ht => .inl ht)
        fun _ hf => .inl hf)
  | depositSeed ok =>
    obtain ⟨hnone, rfl, hcommitment, howner, hlock⟩ := depositSeed_ok ok
    cases inv with
    | seeded seed kept => cases kept.deposit.symm.trans hnone
    | unseeded seed deposit freezes =>
      refine .seeded rfl ⟨congrArg some hcommitment, howner, hlock,
        fun _ t ht => hfresh _ rfl t ht, fun f hf => ?_, fun f hf => ?_⟩
      · exact absurd (freezes ▸ hf : f ∈ []) List.not_mem_nil
      · exact absurd (freezes ▸ hf : f ∈ []) List.not_mem_nil
  | @freezeSeed _ _ _ _ a built ok =>
    obtain ⟨commitment, hdeposit, hbuilt⟩ := freezeSeed_ok ok
    cases inv with
    | unseeded seed deposit freezes => cases deposit.symm.trans hdeposit
    | @seeded note seed kept =>
      obtain rfl : commitment = note.commitment D.toPrimitives :=
        Option.some.inj (hdeposit.symm.trans kept.deposit)
      have hfreeze := hbuilt.seedFreeze H hregister kept.owner
      have hagent := hbuilt.agent
      subst hagent
      refine .seeded seed (kept.step rfl rfl List.prefix_rfl (fun f _ hrecorded => .inr ?_)
        (fun _ ht => .inl ht) fun f hf => ?_)
      · exact hrecorded.append _
      · rcases List.mem_append.mp hf with hold | hnew
        · exact .inl hold
        · obtain rfl := List.mem_singleton.mp hnew
          refine .inr ⟨hfreeze, .inr ⟨?_, fun _ t ht => hfresh _ rfl t ht⟩⟩
          exact List.mem_append_left _ (List.mem_append_right _ List.mem_cons_self)
  | @claim _ _ _ target _ a built _ ok =>
    obtain ⟨hseed, hbuilt⟩ := claim_ok ok
    have hagent := hbuilt.agent
    subst hagent
    cases inv with
    | unseeded seed deposit freezes => exact .unseeded seed deposit freezes
    | seeded seed kept =>
      obtain ⟨e, _, _, record, _, env, draws, hspends⟩ := hbuilt.spends
      refine .seeded seed (kept.step rfl rfl List.prefix_rfl (fun f _ hrecorded => .inr ?_)
        (fun t ht => ?_) fun _ hf => .inl hf)
      · exact hrecorded.append _
      · rcases List.mem_append.mp ht with hclaim | hhandOut
        · rcases List.mem_append.mp hclaim with hold | hnew
          · exact .inl (List.mem_append_left _ hold)
          · obtain rfl := List.mem_singleton.mp hnew
            exact .inr (kept.avoided H hseed hspends)
        · exact .inl (List.mem_append_right _ hhandOut)
  | handOut ok =>
    have hbuilt := handOutTransfer_ok ok
    cases inv with
    | unseeded seed deposit freezes => exact .unseeded seed deposit freezes
    | seeded seed kept =>
      obtain ⟨_, _, hspends⟩ := hbuilt.spends
      refine .seeded seed (kept.step rfl rfl List.prefix_rfl (fun f _ hrecorded => .inr hrecorded)
        (fun t ht => ?_) fun _ hf => .inl hf)
      · rcases List.mem_append.mp ht with hclaim | hhandOut
        · exact .inl (List.mem_append_left _ hclaim)
        · rcases List.mem_append.mp hhandOut with hold | hnew
          · exact .inl (List.mem_append_right _ hold)
          · obtain rfl := List.mem_singleton.mp hnew
            exact .inr (kept.avoided H hbuilt.seed hspends)

theorem Run.ofSeedNext (hrun : Run (Desk.SeedNext D held) d₀ acts d) : Run (Desk.Next D) d₀ acts d :=
  hrun.mono fun _ _ _ h => h.step

theorem Run.seedInv (hV : D.Sound) (H : Ideal D.hash) (hL : D.imt.Lawful (merkleHash D.hash))
    (hstart : Desk.Start D d₀) (hrun : Run (Desk.SeedNext D held) d₀ acts d) : SeedInv D.toPrimitives d := by
  refine hrun.invariant (I := fun _ d => SeedInv D.toPrimitives d) ?_ ?_
  · obtain ⟨_⟩ := hstart
    exact .unseeded rfl rfl rfl
  · intro acts d act d' hrun hstep inv
    have hregister := Run.deskRegister hV H hL hstart (Run.ofSeedNext hrun)
    have hregister' := Run.deskRegister hV H hL hstart (Run.ofSeedNext (hrun.cons hstep))
    exact inv.step H hstep (fun e he => (hregister.entry e he).commitment)
      fun e he => (hregister'.entry e he).commitment

end

/-! ## What the log spends -/

inductive SpendRecord.Planned (s : SpendRecord F) (plan : Plan F) : Prop where
  | transfer (nullifiers : s.nullifiers = [plan.nullifiers.1, plan.nullifiers.2])
    (outputs : s.outputs = [plan.outputs.1, plan.outputs.2])
  | withdraw (nullifiers : s.nullifiers = [plan.nullifiers.1]) (single : plan.nullifiers.2 = 0)

/-- One of its nullifiers is that of the note. -/
def Plan.Spends (P : Primitives F) (plan : Plan F) (note : Note F) : Prop :=
  note.Nullifies P plan.nullifiers.1 ∨ note.Nullifies P plan.nullifiers.2

theorem SpendRecord.Planned.spends {s : SpendRecord F} {plan : Plan F} (h : s.Planned plan) {n : F}
    (hn : n ∈ s.nullifiers) {note : Note F} (hnote : note.Nullifies P n) : plan.Spends P note := by
  cases h with
  | transfer nullifiers =>
    rcases List.mem_pair.mp (nullifiers ▸ hn) with rfl | rfl
    · exact .inl hnote
    · exact .inr hnote
  | withdraw nullifiers =>
    obtain rfl := List.mem_singleton.mp (nullifiers ▸ hn)
    exact .inl hnote

/-- A key signed the spend of the note: that of its owner, unless the lock is a freeze for good, or a
claim key. -/
inductive SignedSpend (P : Primitives F) (signed : SpendKey → Plan F → Prop) (held : SpendKey → Prop)
    (note : Note F) (s : SpendRecord F) : Prop where
  | owner {key nk plan} (owner : note.owner = ownerValue P key nk)
    (lock : note.lock ≠ lockValue P LockOpening.freeze) (signed : signed key plan)
    (planned : s.Planned plan)
  | claim {key plan} (held : held key) (signed : signed key plan) (planned : s.Planned plan)

/-- The terms of the freeze are not released before the last epoch. -/
theorem releaseAfter_of_freeze (H : Ideal P.hash) {terms : LockOpening F}
    (h : lockValue P terms = lockValue P LockOpening.freeze) : terms.releaseAfter.toNat = 2 ^ 64 - 1 := by
  rw [lockValue_inj H h]
  rfl

/-- The owner path of the circuits refuses the freeze at every epoch below the last. -/
theorem checkInput_freeze (H : Ideal P.hash) {lock : F} {opening : LockOpening F} {epoch : UInt64}
    (h : checkInput P lock opening epoch = .ok ()) (hepoch : epoch.toNat < 2 ^ 64 - 1) :
    lock ≠ lockValue P LockOpening.freeze := by
  rintro rfl
  obtain ⟨hvalue, hrelease⟩ := checkInput_ok h (lockValue_ne_zero H _)
  have hle : opening.releaseAfter.toNat ≤ epoch.toNat := hrelease
  rw [releaseAfter_of_freeze H hvalue] at hle
  omega

section
variable {signed : SpendKey → Plan F → Prop} {held : SpendKey → Prop} {w w' : World T τ}
  {sender : Address} {events : List PoolEvent} {note : Note F} {s : SpendRecord F}

theorem SpendSigned.signedSpend (H : Ideal D.hash) {call : PoolCall}
    (hkeys : ∀ key, keyHash D.toPrimitives key = Scalar.ofNat w.pool.claimKeyHash → held key)
    (h : SpendSigned D signed sender w call note)
    (hplanned : ∀ {path expiry plan}, call.plan D sender path expiry = some plan → s.Planned plan) :
    SignedSpend D.toPrimitives signed held note s := by
  rcases h with ⟨hrelease, key, nk, howner, plan, expiry, hplan, hsigned, hexpiry⟩ |
    ⟨-, key, hkey, plan, expiry, hplan, hsigned, -⟩
  · refine .owner howner (fun hlock => ?_) hsigned (hplanned hplan)
    obtain ⟨terms, hterms, hle⟩ := hrelease (hlock ▸ lockValue_ne_zero H _)
    rw [releaseAfter_of_freeze H (hterms.trans hlock)] at hle
    -- the plan expires after the epoch, before the seconds of its end overflow
    have hlt := expiry.toNat_lt
    omega
  · exact .claim (hkeys key hkey) hsigned (hplanned hplan)

theorem Logged.signedSpend (hV : D.Sound) (H : Ideal D.hash) (hS : Signatures D.toPrimitives signed)
    (hkeys : ∀ key, keyHash D.toPrimitives key = Scalar.ofNat w.pool.claimKeyHash → held key)
    (h : Logged D sender w w' events) (hs : s ∈ spendsOf F events) {n : F} (hn : n ∈ s.nullifiers)
    (hnote : note.Nullifies D.toPrimitives n) : SignedSpend D.toPrimitives signed held note s := by
  cases h with
  | deposit | rotated => cases hs
  | @transfer p accepted =>
    obtain rfl := List.mem_singleton.mp hs
    have hspends : Spends D (.transfer p) note := by
      rcases List.mem_pair.mp hn with rfl | rfl
      · exact ⟨_, List.mem_cons_self, hnote⟩
      · exact ⟨_, List.mem_cons_of_mem _ List.mem_cons_self, hnote⟩
    have hsigned : SpendSigned D signed sender w (.transfer p) note :=
      accepted.spendSigned hV H hS hspends
    refine hsigned.signedSpend H hkeys fun hplan => ?_
    cases hplan
    exact .transfer rfl rfl
  | @withdraw p m shares accepted =>
    obtain rfl := List.mem_singleton.mp hs
    obtain rfl := List.mem_singleton.mp hn
    have hsigned : SpendSigned D signed sender w (.withdraw p) note :=
      accepted.spendSigned hV H hS ⟨_, List.mem_cons_self, hnote⟩
    refine hsigned.signedSpend H hkeys fun hplan => ?_
    cases hplan
    exact .withdraw rfl rfl
  | silent _ silent =>
    obtain ⟨e, he, hspend⟩ := List.mem_filterMap.mp hs
    have hne := silent e he
    cases e <;> first | exact hne.elim | cases hspend

end

section
variable {signed : SpendKey → Plan F → Prop} {held : SpendKey → Prop} {w : World T τ} {tr : List Step}
  {d d₀ d' : Desk F T τ} {acts : List (Desk.Act F)} {note : Note F}

theorem Run.signedSpends (hV : D.Sound) (H : Ideal D.hash) (hS : Signatures D.toPrimitives signed)
    (hstart : Desk.Start D d₀) (hrun : Run (Desk.SeedNext D held) d₀ acts d) {s : SpendRecord F}
    (hs : s ∈ spendsOf F d.office.logs) {n : F} (hn : n ∈ s.nullifiers)
    (hnote : note.Nullifies D.toPrimitives n) : SignedSpend D.toPrimitives signed held note s := by
  refine (hrun.invariant (I := fun _ d => ∀ s ∈ spendsOf F d.office.logs, ∀ n ∈ s.nullifiers,
    note.Nullifies D.toPrimitives n → SignedSpend D.toPrimitives signed held note s) ?_ ?_)
    s hs n hn hnote
  · obtain ⟨⟨_, _⟩⟩ := hstart
    exact fun s hs => by cases hs
  · intro acts d act d' _ hstep inv s hs n hn hnote
    obtain ⟨hnext, -, hkeys⟩ := hstep
    cases hnext with
    | office step =>
      cases step with
      | chain step =>
        rw [spendsOf_append] at hs
        rcases List.mem_append.mp hs with hold | hnew
        · exact inv s hold n hn hnote
        · cases step with
          | pool _ ok => exact (PoolCall.run_logged ok).signedSpend hV H hS hkeys hnew hn hnote
          | registry | poolReverted | registryReverted | tick | inflow => cases hnew
      | newRegisterKey | commitRegisterKey | commitRefused | readFeed | recordOwner =>
        exact inv s hs n hn hnote
    | depositSeed | freezeSeed | claim | handOut => exact inv s hs n hn hnote

/-- A deposit of the log minted a note of positive units. -/
def DepositsOk (D : Deployment F T τ) (logs : List PoolEvent) (w : World T τ) : Prop :=
  ∀ commitment units shares feedR feedCt payload, .deposit commitment units shares feedR feedCt payload ∈ logs →
      ∃ note : Note F, Scalar.ofNat commitment = note.commitment D.toPrimitives ∧ note.units ≠ 0 ∧
        note.commitment D.toPrimitives ∈ D.imt.leaves w.pool.tree

theorem Run.depositsOk (hV : D.Sound) (hL : D.imt.Lawful (merkleHash D.hash)) {w₀ : World T τ}
    (hrun : Run (Transition D) w₀ tr w) : DepositsOk D (logOf tr) w := by
  refine hrun.invariant (I := fun tr w => DepositsOk D (logOf tr) w) ?_ ?_
  · intro _ _ _ _ _ _ h
    cases h
  · intro tr w st w' _ hstep inv commitment units shares feedR feedCt payload hmem
    rw [logOf_cons] at hmem
    rcases List.mem_append.mp hmem with hold | hnew
    · obtain ⟨note, hcommitment, hunits, hleaf⟩ := inv _ _ _ _ _ _ hold
      exact ⟨note, hcommitment, hunits, (hstep.leaves_prefix hL).subset hleaf⟩
    · cases hstep with
      | pool _ ok =>
        cases PoolCall.run_logged ok with
        | deposit accepted =>
          cases List.mem_singleton.mp hnew
          obtain ⟨wit, hmain, -⟩ := accepted.proved hV
          have hcommitment := (depositMain_ok hmain).commitment
          refine ⟨_, hcommitment, accepted.units, ?_⟩
          rw [hL.insertAll accepted.admitted.tree]
          refine List.mem_append_right _ (List.mem_map.mpr ⟨_, List.mem_cons_self, hcommitment⟩)
        | transfer | withdraw | rotated => cases List.mem_singleton.mp hnew
        | silent _ silent => exact (silent _ hnew).elim
      | registry | poolReverted | registryReverted | tick | inflow => cases hnew

/-- What a later state of the desk has, once the seed is there. -/
structure Later (d d' : Desk F T τ) : Prop where
  seed : d'.seed = d.seed
  logs : d.office.logs <+: d'.office.logs
  freezes : d.freezes ⊆ d'.freezes

theorem Desk.Next.later {act : Desk.Act F} (h : Desk.Next D d act d') (hseed : d.seed = some note)
    (inv : SeedInv D.toPrimitives d) : Later d d' := by
  cases h with
  | office step =>
    refine ⟨rfl, ?_, List.Subset.refl _⟩
    cases step with
    | chain => exact List.prefix_append _ _
    | newRegisterKey | commitRegisterKey | commitRefused | readFeed | recordOwner =>
      exact List.prefix_rfl
  | depositSeed ok =>
    obtain ⟨hnone, -⟩ := depositSeed_ok ok
    cases inv with
    | unseeded seed => cases seed.symm.trans hseed
    | seeded _ kept => cases kept.deposit.symm.trans hnone
  | freezeSeed => exact ⟨rfl, List.prefix_rfl, List.subset_append_left _ _⟩
  | claim | handOut => exact ⟨rfl, List.prefix_rfl, List.Subset.refl _⟩

theorem Run.later (hV : D.Sound) (H : Ideal D.hash) (hL : D.imt.Lawful (merkleHash D.hash))
    (hstart : Desk.Start D d₀) (hrun : Run (Desk.SeedNext D held) d₀ acts d)
    (hseed : d.seed = some note) {later : List (Desk.Act F)}
    (hlater : Run (Desk.SeedNext D held) d later d') : Later d d' := by
  refine hlater.invariant (I := fun _ d' => Later d d') ?_ ?_
  · exact ⟨rfl, List.prefix_rfl, List.Subset.refl _⟩
  · intro later d₁ act d₂ hlater hstep inv
    have hnext := hstep.step.later (inv.seed.trans hseed) (Run.seedInv hV H hL hstart (hrun.append hlater))
    exact ⟨hnext.seed.trans inv.seed, inv.logs.trans hnext.logs, List.Subset.trans inv.freezes hnext.freezes⟩

/-! ## The seed -/

/-- Whatever the agent's spend key or one of its claim keys signed on a note of the seed is a transfer
that the agent returned. -/
def Desk.Custody (P : Primitives F) (signed : SpendKey → Plan F → Prop) (held : SpendKey → Prop)
    (d : Desk F T τ) : Prop :=
  ∀ key plan, key = d.office.agent.wallet.pk ∨ held key → signed key plan →
    ∀ note, d.seed = some note ∨ (∃ f ∈ d.freezes, note = f.moved) → plan.Spends P note →
      ∃ t ∈ d.returned ++ d.freezes, plan = t.plan

namespace SeedKept

/-- A freeze of the log is recorded, and what it moved is not spent by what the agent returned. -/
theorem of_mined (kept : SeedKept D.toPrimitives d note)
    (spends : SpendsInv D d.office.logs d.office.world) {f : BuiltTransfer F} (hf : f ∈ d.freezes)
    (hmined : d.Mined f) : d.office.agent.Records (note.commitment D.toPrimitives) f ∧
      (note.units ≠ 0 → ∀ t ∈ d.returned, ¬ t.Spends D.toPrimitives f.moved) := by
  rcases kept.guarded f hf with ⟨s, hs, hn, hother⟩ | hguarded
  · obtain ⟨s', hs', hn', houtputs⟩ := hmined
    obtain rfl := spends.eq_of_mem hs hs' hn hn'
    exact absurd houtputs hother
  · exact hguarded

/-- The claim record makes the note of a freeze the seed. -/
theorem isSeed (kept : SeedKept P d note) {f : BuiltTransfer F} (hf : f ∈ d.freezes)
    (hrecorded : d.office.agent.Records (note.commitment P) f) : d.agent.isSeed (f.moved.commitment P) = true := by
  have hdeposit : d.agent.seedDeposit = some (note.commitment P) := kept.deposit
  obtain ⟨_, hone⟩ := (kept.freeze f hf).spends
  simp only [KeyedAgent.isSeed, hdeposit, Bool.or_eq_true, List.any_eq_true, Bool.and_eq_true,
    decide_eq_true_eq]
  exact .inr ⟨_, hrecorded, rfl, hone.out0⟩

theorem freeze_of_spend (H : Ideal P.hash) (kept : SeedKept P d note) (hseed : d.seed = some note)
    (hunits : note.units ≠ 0) (custody : d.Custody P signed held) {s : SpendRecord F} {n : F}
    (hn : n ∈ s.nullifiers) (hnote : note.Nullifies P n) (h : SignedSpend P signed held note s) :
    ∃ f ∈ d.freezes, f.pub.nullifier0 ∈ s.nullifiers ∧ s.outputs = f.outputs := by
  have hplan : ∃ key plan, (key = d.office.agent.wallet.pk ∨ held key) ∧ signed key plan ∧ s.Planned plan := by
    cases h with
    | @owner key nk plan owner _ signed planned =>
      exact ⟨key, plan, .inl (key_of_ownerValue H (owner.symm.trans kept.owner)), signed, planned⟩
    | claim held signed planned => exact ⟨_, _, .inr held, signed, planned⟩
  obtain ⟨key, plan, hkey, hsigned, hplanned⟩ := hplan
  have hspends := hplanned.spends hn hnote
  obtain ⟨t, ht, rfl⟩ := custody key plan hkey hsigned note (.inl hseed) hspends
  rcases List.mem_append.mp ht with hreturned | hfreeze
  · exact absurd hspends (kept.returned hunits t hreturned)
  · refine ⟨t, hfreeze, ?_⟩
    cases hplanned with
    | transfer nullifiers outputs => exact ⟨nullifiers ▸ List.mem_cons_self, outputs⟩
    | withdraw _ single =>
      obtain ⟨_, hone⟩ := (kept.freeze t hfreeze).spends
      obtain ⟨padding, -, hpadded⟩ := hone.padded
      exact absurd (hpadded.symm.trans single) (H.ne_zero (List.cons_ne_nil _ _) (show 2 ≤ 5 by decide))

/-- The log does not spend what a freeze of the log moved. -/
theorem not_spend_moved (H : Ideal D.hash) (kept : SeedKept D.toPrimitives d note)
    (spends : SpendsInv D d.office.logs d.office.world) (hunits : note.units ≠ 0)
    (custody : d.Custody D.toPrimitives signed held) {f : BuiltTransfer F} (hf : f ∈ d.freezes)
    (hmined : d.Mined f) {s : SpendRecord F} {n : F} (hn : n ∈ s.nullifiers)
    (hnote : f.moved.Nullifies D.toPrimitives n) : ¬ SignedSpend D.toPrimitives signed held f.moved s := by
  have hfreeze := kept.freeze f hf
  intro h
  cases h with
  | owner _ lock => exact lock hfreeze.lock
  | @claim key plan hheld hsigned planned =>
    have hspends := planned.spends hn hnote
    obtain ⟨t, ht, rfl⟩ := custody key plan (.inr hheld) hsigned f.moved (.inr ⟨f, hf, rfl⟩) hspends
    rcases List.mem_append.mp ht with hreturned | hother
    · exact (kept.of_mined spends hf hmined).2 hunits t hreturned hspends
    · -- a freeze spends the deposit, which carries no lock
      obtain ⟨_, hone⟩ := (kept.freeze t hother).spends
      have hmoved := Note.commitment_inj H (hone.commitment_eq H (hfreeze.units ▸ hunits) hspends)
      have hlock := hfreeze.lock
      rw [hmoved, kept.lock] at hlock
      exact lockValue_ne_zero H _ hlock.symm

end SeedKept

theorem Spent.spend (spends : SpendsInv D d.office.logs d.office.world)
    (h : Spent D d.office.world note) : ∃ s ∈ spendsOf F d.office.logs, ∃ n ∈ s.nullifiers,
      note.Nullifies D.toPrimitives n := by
  obtain ⟨n, hnote, hmarked⟩ := h
  obtain ⟨s, hs, hn⟩ := List.mem_flatMap.mp ((spends.marked n).mpr hmarked)
  exact ⟨s, hs, n, hn, hnote⟩

/-- What an unspent note of the tree is worth is part of the pool's units. -/
theorem Ledger.units_le {notes : List (Note F)} (ledger : Ledger D w notes) (inv : PoolInv D tr w)
    (hmem : note ∈ notes) (hunspent : ¬ Spent D w note) : note.units.toNat ≤ w.pool.totalUnits := by
  rw [ledger.units]
  have hsum := @sum_le_unspent _ (fun note : Note F => note.units.toNat) (Spent D w) notes
    (ledger.nodup inv) [note] (List.nodup_singleton _) fun c hc => by
      obtain rfl := List.mem_singleton.mp hc
      exact ⟨hmem, hunspent⟩
  simpa using hsum

theorem Ledger.mem_of_leaf (H : Ideal D.hash) {notes : List (Note F)} (ledger : Ledger D w notes)
    (hleaf : note.commitment D.toPrimitives ∈ D.imt.leaves w.pool.tree) : note ∈ notes := by
  rw [ledger.leaves] at hleaf
  obtain ⟨note', hmem, he⟩ := List.mem_map.mp hleaf
  exact Note.commitment_inj H he ▸ hmem

/-- Once the deposit is in the log, the units of the seed stay in the pool: as the deposit, or as what
its freeze moved. -/
theorem Run.seed_units (hV : D.Sound) (H : Ideal D.hash) (hL : D.imt.Lawful (merkleHash D.hash))
    (hS : Signatures D.toPrimitives signed) (hstart : Desk.Start D d₀)
    (hrun : Run (Desk.SeedNext D held) d₀ acts d) {later : List (Desk.Act F)}
    (hlater : Run (Desk.SeedNext D held) d later d')
    (custody : d'.Custody D.toPrimitives signed held) (hseed : d.seed = some note)
    (kept : SeedKept D.toPrimitives d' note) (hunits : note.units ≠ 0)
    (hleaf : note.commitment D.toPrimitives ∈ D.imt.leaves d.office.world.pool.tree) :
    note.units.toNat ≤ d.office.world.pool.totalUnits := by
  obtain ⟨deployed, tr, hchain, -⟩ := Run.deskChain hstart (Run.ofSeedNext hrun)
  have inv : PoolInv D tr d.office.world := Run.poolInv hL deployed hchain
  obtain ⟨notes, ledger⟩ : ∃ notes, Ledger D d.office.world notes := Run.ledger hV H hL deployed hchain
  have spends := Run.deskSpends hL hstart (Run.ofSeedNext hrun)
  have spends' := Run.deskSpends hL hstart (Run.ofSeedNext (hrun.append hlater))
  have grown := Run.later hV H hL hstart hrun hseed hlater
  by_cases hspent : Spent D d.office.world note
  · obtain ⟨s, hs, n, hn, hnote⟩ := hspent.spend spends
    obtain ⟨f, hf, hnullifier, houtputs⟩ := kept.freeze_of_spend H (grown.seed.trans hseed) hunits custody
      hn hnote (Run.signedSpends hV H hS hstart hrun hs hn hnote)
    have hfreeze := kept.freeze f hf
    obtain ⟨_, hone⟩ := hfreeze.spends
    have hmined : d'.Mined f := ⟨s, mem_spendsOf_of_prefix grown.logs hs, hnullifier, houtputs⟩
    have hmoved : f.moved.commitment D.toPrimitives ∈ D.imt.leaves d.office.world.pool.tree := by
      refine spends.outputs.subset (List.mem_flatMap.mpr ⟨s, hs, ?_⟩)
      rw [houtputs, BuiltTransfer.outputs, hone.out0]
      exact List.mem_cons_self
    rw [← hfreeze.units]
    refine ledger.units_le inv (ledger.mem_of_leaf H hmoved) fun hspent' => ?_
    obtain ⟨s', hs', n', hn', hnote'⟩ := hspent'.spend spends
    exact kept.not_spend_moved H spends' hunits custody hf hmined hn' hnote'
      (Run.signedSpends hV H hS hstart hrun hs' hn' hnote')
  · exact ledger.units_le inv (ledger.mem_of_leaf H hleaf) hspent

/-- From the deposit of the seed on, in every state of every run of the desk: nothing that `claim` or
`hand_out_transfer` returned spends the deposit or what its freeze of the log created, `is_seed` holds of
that note, no proof of a transfer's owner path or of a withdrawal opens its lock before the last epoch,
and the pool holds at least the units of the seed. -/
theorem seed_kept (hV : D.Sound) (H : Ideal D.hash) (hL : D.imt.Lawful (merkleHash D.hash))
    (hS : Signatures D.toPrimitives signed) (hstart : Desk.Start D d₀)
    (hrun : Run (Desk.SeedNext D held) d₀ acts d) {later : List (Desk.Act F)}
    (hlater : Run (Desk.SeedNext D held) d later d')
    (custody : d'.Custody D.toPrimitives signed held) (hseed : d.seed = some note)
    (deposited : d.Deposited D.toPrimitives note) : (∀ t ∈ d.returned, ¬ t.Spends D.toPrimitives note ∧
      ∀ f ∈ d.freezes, d.Mined f → ¬ t.Spends D.toPrimitives f.moved) ∧
    (∀ f ∈ d.freezes, d.Mined f → d.agent.isSeed (f.moved.commitment D.toPrimitives) = true ∧
      (∀ pub wit, transferMain D.toPrimitives pub wit = .ok () → wit.claim = false →
        pub.epoch.toNat < 2 ^ 64 - 1 → ∀ j, wit.input D.toPrimitives j ≠ f.moved) ∧
      ∀ pub wit, withdrawMain D.toPrimitives pub wit = .ok () → pub.epoch.toNat < 2 ^ 64 - 1 →
        withdrawNote D.toPrimitives pub wit ≠ f.moved) ∧ note.units.toNat ≤ d.office.world.pool.totalUnits := by
  have hkept : ∀ {acts d}, Run (Desk.SeedNext D held) d₀ acts d → d.seed = some note →
      SeedKept D.toPrimitives d note := by
    intro acts d hrun hseed
    cases Run.seedInv hV H hL hstart hrun with
    | unseeded seed => cases seed.symm.trans hseed
    | seeded seed kept => exact Option.some.inj (seed.symm.trans hseed) ▸ kept
  have kept := hkept hrun hseed
  have grown := Run.later hV H hL hstart hrun hseed hlater
  have spends := Run.deskSpends hL hstart (Run.ofSeedNext hrun)
  -- the deposit minted the units of the seed
  obtain ⟨-, tr, hchain, hlog⟩ := Run.deskChain hstart (Run.ofSeedNext hrun)
  obtain ⟨commitment, _, _, _, _, _, hmem, hcommitment⟩ := deposited
  obtain ⟨note', hnote', hunits, hleaf⟩ :=
    Run.depositsOk hV hL hchain commitment _ _ _ _ _ (hlog.symm ▸ hmem)
  obtain rfl := Note.commitment_inj H (hcommitment.symm.trans hnote')
  refine ⟨fun t ht => ⟨kept.returned hunits t ht, fun f hf hmined =>
    (kept.of_mined spends hf hmined).2 hunits t ht⟩, fun f hf hmined => ⟨?_, ?_, ?_⟩, ?_⟩
  · exact kept.isSeed hf (kept.of_mined spends hf hmined).1
  · intro pub wit hmain hclaim hepoch j hinput
    have hreleased := ((transferMain_ok hmain).ownerPath hclaim).released j
    refine checkInput_freeze H hreleased hepoch ?_
    rw [← (kept.freeze f hf).lock, ← hinput]
    rfl
  · intro pub wit hmain hepoch hinput
    refine checkInput_freeze H (withdrawMain_ok hmain).released hepoch ?_
    rw [← (kept.freeze f hf).lock, ← hinput]
    rfl
  · exact Run.seed_units hV H hL hS hstart hrun hlater custody hseed
      (hkept (hrun.append hlater) (grown.seed.trans hseed)) hunits hleaf

end

/-! ## A seed in the pool -/

namespace Sample

/-- The agent signs plans that spend nothing, such as deposits, and the freeze of its note. -/
def seedSigned (key : SpendKey) (plan : Plan Unbounded) : Prop :=
  key = ownerKey ∧ (plan.nullifiers = (0, 0) ∨ ∃ w, plan = holdPlan .freeze w)

noncomputable abbrev seedDeployment := deployment idealHash seedSigned

noncomputable abbrev seedPrimitives := seedDeployment.toPrimitives

def signer : PlanSigner Unbounded := ⟨ownerKey, fun _ _ => .ok signature⟩

def env : PoolEnv Unbounded := ⟨1, 10, 9, pointOf (words 2), 0, 0, 7⟩

def seedDraws : Draws Unbounded where
  salts _ := 0
  paddingSalt := 0
  feedSecret := ⟨3, 0, by decide, by decide, .inl (by decide)⟩
  encryptPayload _ := []

def attestedView (view : ChainView Unbounded) : AttestedView Unbounded :=
  { view with
    attestations := [leaf idealHash]
    attestationRecords := [⟨owner idealHash, attester, 0, UInt64.ofNat timestamp, expiresAt, 0⟩] }

def desk (o : Office Unbounded (LeanImtTree (merkleHash idealHash)) (Address → Nat)) :
    Desk Unbounded (LeanImtTree (merkleHash idealHash)) (Address → Nat) :=
  ⟨o, signer, signer, none, none, [], [], []⟩

theorem treeProof_single {leaf : Unbounded} {P : Primitives Unbounded} : treeProof P [leaf] 0 =
      some (Merkle.promotedPath (merkleHash P.hash) maxCommitmentTreeDepth [leaf] 0) :=
  if_pos ⟨Nat.one_pos, Nat.one_le_two_pow⟩

theorem depositSeed_sample {a : KeyedAgent Unbounded} (hwallet : a.wallet = wallet)
    (hsigner : a.signer = signer) (hseed : a.seedDeposit = none) :
    ∃ a' pub wit payload, a.depositSeed seedPrimitives (fun _ => 0) seedDraws
      (attestedView ChainView.empty) env 1 agent = .ok (a', pub, wit, payload) ∧
      depositNote seedPrimitives pub wit = note idealHash := by
  have howner : a.owner seedPrimitives = owner idealHash := by
    rw [TransferAgent.owner, hwallet]
    rfl
  have hinvestor : a.attestedInvestor seedPrimitives (attestedView ChainView.empty) = none := by
    refine List.find?_eq_none.mpr fun r hr => ?_
    obtain rfl := List.mem_singleton.mp hr
    rw [TransferAgent.holderOf, if_pos howner.symm]
    exact Bool.noConfusion
  have hattested : requireAttestation seedPrimitives (attestedView ChainView.empty) env
      (owner idealHash) = .ok ⟨ofAddress attester, 0, UInt64.ofNat timestamp, expiresAt, .ofList
        (Merkle.promotedPath (merkleHash idealHash) maxCommitmentTreeDepth [leaf idealHash] 0)⟩ := by
    have hrecord : (attestedView ChainView.empty).attestationOf (owner idealHash) env.epoch
        env.minAcceptedGeneration =
          some ⟨owner idealHash, attester, 0, UInt64.ofNat timestamp, expiresAt, 0⟩ := by
      refine List.find?_cons_of_pos ?_
      exact decide_eq_true ⟨rfl, by decide, by decide⟩
    rw [requireAttestation, attestationWitness, hrecord]
    simp only [Option.bind_eq_bind, Option.bind_some]
    rw [show (attestedView ChainView.empty).attestations = [leaf idealHash] from rfl, treeProof_single]
    rfl
  have hexpired : requireUnexpired (wallet.prepareDeposit seedPrimitives env 1 agent seedDraws).plan
      env = .ok () := failIf_neg (show ¬ (env.epoch + 1) * epochSeconds > env.expiry by decide) _
  have hdeposit : ∃ pub wit payload, wallet.deposit seedPrimitives (fun _ => 0) signer seedDraws
      (attestedView ChainView.empty) env 1 agent = .ok (pub, wit, payload) ∧
        depositNote seedPrimitives pub wit = note idealHash := by
    simp only [Wallet.deposit, PendingDeposit.finish, bind_eq_ok, pure_eq_ok, Prod.mk.injEq]
    exact ⟨_, _, _, ⟨signature, rfl, (), hexpired, _, hattested, rfl, rfl, rfl⟩, rfl⟩
  obtain ⟨pub, wit, payload, hdeposit, hnote⟩ := hdeposit
  refine ⟨{ a with seedDeposit := some pub.commitment }, pub, wit, payload, ?_, hnote⟩
  simp only [KeyedAgent.depositSeed, hseed, hinvestor, hwallet, hsigner, hdeposit, ok_bind]
  rfl

/-- The record of the deposit. -/
noncomputable def seedRecord : NoteRecord Unbounded :=
  ⟨commitment idealHash, 0, 0, pointOf (words 3),
    fun i => Scalar.ofNat ((depositParams idealHash seedSigned 2 3).feedCt i), [], 0⟩

noncomputable def seedView : ChainView Unbounded := ⟨[commitment idealHash], [seedRecord], [], [], []⟩

theorem sync_seedView : ChainView.sync [.deposit (commitment idealHash).val 1 1 (words 3)
    (depositParams idealHash seedSigned 2 3).feedCt []] [] = .ok seedView := rfl

/-- The agent that has read its deposit. -/
def registered : TransferAgent Unbounded :=
  { TransferAgent.new wallet 2 with
    register := [⟨note idealHash, noLock, commitment idealHash, 0, some .agent, false⟩]
    wallet := { wallet with notes := [⟨note idealHash, noLock, commitment idealHash, 0, false⟩] } }

open TransferAgent in
theorem readFeed_seedView : (TransferAgent.new wallet 2).readFeed seedPrimitives seedView = registered := by
  have hderive : derive seedPrimitives ⟨⟨3⟩, 0⟩ (curve.fixedBaseMul 2) = _ :=
    (congrArg _ (fixedBaseMul_eq 2)).trans
      (derive_eq idealHash (show 3 < 2 ^ 128 by decide) (show words 3 ≠ (0, 0) by decide))
  have hopen : tryKey seedPrimitives seedRecord 2 = some (note idealHash, noLock) :=
    tryKey_eq_some.mpr ⟨(congrArg openFeed (decrypt_encrypt commutes hderive (note idealHash) noLock 0)).trans
      (openFeed_feedRecord (P := seedPrimitives) ⟨fun _ => rfl, fun h => absurd rfl h⟩), rfl⟩
  have howner : (note idealHash).owner = (TransferAgent.new wallet 2).owner seedPrimitives := rfl
  have hread : seedView.notes.foldl (readRecord seedPrimitives)
      { TransferAgent.new wallet 2 with unreadableNotes := [] } = registered := by
    show (TransferAgent.new wallet 2).readRecord seedPrimitives seedRecord = _
    rw [readRecord, if_neg (by decide), show (TransferAgent.new wallet 2).keysFor _ = [2]
      by decide, List.findSome?_cons, hopen]
    simp only [holderOf]
    rw [if_pos ⟨howner, rfl⟩, if_pos howner]
    rfl
  have hmarked : registered.markSpent seedPrimitives seedView = registered := by
    have hspent : ∀ e, registered.isSpent seedPrimitives seedView e = false := by
      intro e
      unfold isSpent
      split <;> rfl
    simp only [markSpent, hspent]
    rfl
  have hscan : registered.wallet.scan seedPrimitives seedView = registered.wallet := by
    have hheld : seedView.notes.foldl (Wallet.scanRecord seedPrimitives) registered.wallet =
        registered.wallet := by
      show registered.wallet.scanRecord seedPrimitives seedRecord = _
      rw [Wallet.scanRecord, if_pos (by simp [Wallet.holds, registered, seedRecord])]
    rw [Wallet.scan, hheld]
    rfl
  rw [readFeed, hread, hmarked, show registered.settleClaims seedView = registered from rfl, hscan]

/-- The agent that signs for itself. -/
def seeded (a : TransferAgent Unbounded) (deposit : Unbounded) : KeyedAgent Unbounded :=
  { a with signer, claimKey := signer, seedDeposit := some deposit }

def freezeDraws : Draws Unbounded := { seedDraws with salts := ![⟨2⟩, ⟨3⟩], paddingSalt := ⟨1⟩ }

theorem freezeSeed_sample : ∃ a built, (seeded registered (commitment idealHash)).freezeSeed seedPrimitives
    (fun _ => 0) freezeDraws (attestedView seedView) env = .ok (a, built) ∧
      ∀ w, built.plan = holdPlan .freeze w := by
  let entry : RegisterEntry Unbounded := ⟨note idealHash, noLock, commitment idealHash, 0, some .agent, false⟩
  have hfind : registered.register.find? (fun e => e.commitment = commitment idealHash ∧ e.spent = false) =
      some entry := List.find?_cons_of_pos (decide_eq_true ⟨rfl, rfl⟩)
  have hinput : ∃ input, OwnedNote.input seedPrimitives ⟨note idealHash, noLock, commitment idealHash, 0, false⟩
      (attestedView seedView) = .ok input := by
    rw [OwnedNote.input, show (attestedView seedView).commitments = [commitment idealHash] from rfl,
      treeProof_single]
    simp only [bind_eq_ok, okOr_eq_ok, pure_eq_ok, Option.filter_eq_some_iff]
    exact ⟨_, _, ⟨rfl, decide_eq_true rfl⟩, rfl⟩
  obtain ⟨_, hinput⟩ := hinput
  have hself : ∀ (pending : PendingTransfer Unbounded) j, pending.claim = true →
      (pending.outputs j).owner = pending.ownerIn seedPrimitives →
      pending.outputAttestation seedPrimitives (attestedView seedView) env j = .ok _ :=
    fun pending j hclaim howner => if_neg fun h => h.elim (by simp [hclaim]) fun h => h howner
  simp only [KeyedAgent.freezeSeed, KeyedAgent.buildClaim, buildTransfer, PendingTransfer.finish, bind_eq_ok,
    okOr_eq_ok, pure_eq_ok, Prod.mk.injEq]
  refine ⟨_, _, ⟨_, rfl, entry, hfind, _, if_pos rfl, _, ⟨_, rfl, signature, rfl, (), ?_, _, hinput, _, rfl,
    _, rfl, _, hself _ _ rfl rfl, _, hself _ _ rfl rfl, rfl⟩, rfl, rfl⟩, fun w => ?_⟩
  · exact failIf_neg (show ¬ (env.epoch + 1) * epochSeconds > env.expiry by decide) _
  · have hvalue : LockOpening.freeze.value seedPrimitives = lockValue hashed .freeze :=
      if_neg lockFreeze_ne_zero
    exact congrArg (fun lock => { holdPlan .freeze w with
      outputs := (Note.commitment hashed ⟨ofAddress 9, 1, owner idealHash, ⟨2⟩, lock⟩,
        (held .freeze 1).commitment hashed) }) hvalue

end Sample

open Sample

theorem Run.desk (d : Desk F T τ) {acts : List (Office.Act F)} {o o' : Office F T τ}
    (hrun : Run (Office.Next D Office.Taken) o acts o') :
    Run (Desk.SeedNext D fun _ => True) { d with office := o } (acts.map .office) { d with office := o' } := by
  induction hrun with
  | nil => exact .nil
  | cons _ hstep ih => exact .cons ih ⟨.office hstep, fun _ h => (by cases h), fun _ _ => trivial⟩

/-- The agent deposits its seed and freezes it once it has read the deposit; the pool takes both. -/
theorem exists_seedRun : ∃ d₀ acts d f, Desk.Start seedDeployment d₀ ∧
    Run (Desk.SeedNext seedDeployment fun _ => True) d₀ acts d ∧ d.seed = some (note idealHash) ∧
    d.Deposited seedPrimitives (note idealHash) ∧ f ∈ d.freezes ∧ d.Mined f ∧
    ∀ w, f.plan = holdPlan .freeze w := by
  obtain ⟨w₀, w, w₁, w₂, events, hdeployed, hkey, hrun, hdeposit, hfreeze⟩ :=
    @exists_hold seedSigned .freeze (.inl rfl) (fun _ h => ⟨rfl, .inl h⟩) fun w => ⟨rfl, .inr ⟨w, rfl⟩⟩
  have hstart : Desk.Start seedDeployment (desk (office w₀)) :=
    .mk (.mk hdeployed (hkey ▸ fixedBaseMul_eq 2))
  have hsetup := Run.desk (desk (office w₀)) (Run.office (office w₀) hrun fun st hst _ _ => by
    simp [setupSteps_events st hst])
  obtain ⟨a, pub, wit, payload, hseed, hnote⟩ := @depositSeed_sample
    (desk { office w₀ with world := w }).agent rfl rfl rfl
  obtain ⟨-, rfl, hcommitment, -⟩ := depositSeed_ok hseed
  rw [hnote] at hcommitment
  have hdesk := hsetup.cons ⟨.depositSeed hseed, fun _ _ t ht => absurd ht List.not_mem_nil, fun _ _ => trivial⟩
  have hmined := hdesk.cons ⟨.office (.chain hdeposit fun version key hmem => by
    simp [Step.events] at hmem), fun _ h => (by cases h), fun _ _ => trivial⟩
  have hread := hmined.cons ⟨.office (.readFeed (List.prefix_refl _) sync_seedView), fun _ h => (by cases h),
    fun _ _ => trivial⟩
  have hbuilt : ∃ a f, (seeded ((TransferAgent.new wallet 2).readFeed seedPrimitives seedView)
      pub.commitment).freezeSeed seedPrimitives (fun _ => 0) freezeDraws (attestedView seedView) env =
        .ok (a, f) ∧ ∀ w, f.plan = holdPlan .freeze w := by
    rw [readFeed_seedView, hcommitment]
    exact freezeSeed_sample
  obtain ⟨a, f, hbuilt, hplan⟩ := hbuilt
  have hfrozen := hread.cons ⟨.freezeSeed hbuilt, fun _ _ t ht => absurd ht List.not_mem_nil,
    fun _ _ => trivial⟩
  cases hfreeze with
  | pool hne ok =>
    obtain ⟨-, rfl⟩ := transfer_accepted ok
    have htaken := hfrozen.cons ⟨.office (.chain (.pool hne ok) fun version key hmem => by
      simp [Step.events] at hmem), fun _ h => (by cases h), fun _ _ => trivial⟩
    refine ⟨_, _, _, f, hstart, htaken, congrArg some hnote, ?_,
      List.mem_append_right _ (List.mem_singleton_self f), ?_, hplan⟩
    · exact ⟨_, _, _, _, _, _, List.mem_append_left _ (List.mem_append_right _ List.mem_cons_self), rfl⟩
    · exact ⟨_, List.mem_filterMap.mpr ⟨_, List.mem_append_right _ (List.mem_singleton_self _), rfl⟩,
        List.mem_cons.mpr (.inl (congrArg (fun plan => plan.nullifiers.1) (hplan w))),
        congrArg (fun plan => [plan.outputs.1, plan.outputs.2]) (hplan w).symm⟩

/-- The pool holds the seed once its freeze is mined. -/
theorem seed_kept_sample : ∃ d₀ acts d f, Desk.Start seedDeployment d₀ ∧
    Run (Desk.SeedNext seedDeployment fun _ => True) d₀ acts d ∧
    d.Deposited seedPrimitives (note idealHash) ∧ f ∈ d.freezes ∧ d.Mined f ∧
    d.agent.isSeed (f.moved.commitment seedPrimitives) = true ∧
    (note idealHash).units.toNat ≤ d.office.world.pool.totalUnits := by
  obtain ⟨d₀, acts, d, f, hstart, hrun, hseed, hdeposited, hf, hmined, hplan⟩ := exists_seedRun
  have hkept := seed_kept (sound _) idealHash_ideal (lawful _) (signatures _) hstart hrun .nil ?_ hseed
    hdeposited
  · exact ⟨d₀, acts, d, f, hstart, hrun, hdeposited, hf, hmined, (hkept.2.1 f hf hmined).1, hkept.2.2⟩
  -- what is signed spends nothing, or is the freeze
  rintro key plan _ ⟨-, hnullifiers | ⟨w, rfl⟩⟩ note _ hspends
  · have hzero : note.Nullifies seedPrimitives 0 := by
      rw [Plan.Spends, hnullifiers] at hspends
      exact hspends.elim id id
    obtain ⟨_, _, -, hn⟩ := hzero
    exact absurd hn.symm (idealHash_ideal.ne_zero (List.cons_ne_nil _ _) (show 2 ≤ 5 by decide))
  · exact ⟨f, List.mem_append_right _ hf, (hplan w).symm⟩

end Pocs.Mmf
