import Mathlib.Data.String.Basic
import Pocs.Lib.Totals
import Pocs.Mmf.Builder
import Pocs.Mmf.Completeness

/-! # Selecting notes and adding them up

`balance` and `pay` of `wallet.rs`, `positions` and `total_units` of `agent.rs`. A wallet takes the smallest
note that covers the units, else its two largest, and no choice of two covers more. The agent's total is a `u128`;
the other sums are in `u64` and wrap. -/

namespace Pocs.Mmf

variable {F : Type} [FeedField F] {P : Primitives F}

/-! ## The sums of the source -/

def Wallet.balance (wallet : Wallet F) (epoch : UInt64) : UInt64 := totalOf (wallet.spendable epoch)

def agentId : String := "transfer-agent"

def paddingId : String := "transfer-agent-padding"

def Holder.asStr : Holder → String
  | agent => agentId
  | padding => paddingId
  | investor id => id

def RegisterEntry.position (e : RegisterEntry F) : String := e.holder.elim "unknown" Holder.asStr

namespace TransferAgent
variable (self : TransferAgent F)

def heldEntries : List (RegisterEntry F) := self.register.filter fun e => !e.spent && e.note.units > 0

def positions : List (String × UInt64) :=
  SortedMap.tally (self.heldEntries.map fun e => (e.position, e.note.units))

def heldBy (name : String) : Nat :=
  ((self.heldEntries.filter fun e => e.position = name).map fun e => e.note.units.toNat).sum

end TransferAgent

open TransferAgent

/-! ## What they should be -/

def natTotal (notes : List (OwnedNote F)) : Nat := (notes.map fun n => n.note.units.toNat).sum

def Covered (notes : List (OwnedNote F)) (units : UInt64) : Prop :=
  ∃ chosen, chosen ≠ [] ∧ chosen.length ≤ 2 ∧ chosen.Subperm notes ∧ units.toNat ≤ natTotal chosen

/-- What `pay` adds up when no note covers the units. -/
def Wallet.largestTwo (wallet : Wallet F) (epoch : UInt64) : List (OwnedNote F) :=
  ((wallet.spendable epoch).insertionSort fun a b => a.note.units ≤ b.note.units).reverse.take 2

structure BuiltTransfer.Splits (built : BuiltTransfer F) (inputs : List (OwnedNote F)) (owner recipient : F)
    (units : UInt64) : Prop where
  spent : ∑ i, (built.witness.inputs i).units.toNat = natTotal inputs
  made : ∑ j, (built.witness.outputs j).units.toNat = natTotal inputs
  paid : (built.witness.outputs 0).owner = recipient ∧ (built.witness.outputs 0).units = units
  change : (built.witness.outputs 1).owner = owner

/-- The selection of `pay` is complete, and every sum it takes is exact. -/
structure PayExact (P : Primitives F) (wallet : Wallet F) (env : PoolEnv F) (units : UInt64) : Prop where
  selects : (∃ inputs ≠ [], wallet.payInputs env units = .ok inputs) ↔
    Covered (wallet.spendable env.epoch) units
  compared : (∀ n ∈ wallet.spendable env.epoch, n.note.units < units) →
    (Wallet.totalOf (wallet.largestTwo env.epoch)).toNat = natTotal (wallet.largestTwo env.epoch)
  selected : ∀ inputs, wallet.payInputs env units = .ok inputs →
    inputs.Subperm (wallet.spendable env.epoch) ∧ (Wallet.totalOf inputs).toNat = natTotal inputs ∧ units ≤ Wallet.totalOf inputs
  splits : ∀ payloadCommitment signer draws view recipient built,
    wallet.pay P payloadCommitment signer draws view env recipient units = .ok built →
      ∃ inputs, wallet.payInputs env units = .ok inputs ∧ built.Splits inputs (wallet.owner P) recipient units

/-- The positions are the units of their holders, and add up to the total. -/
structure PositionsExact (agent : TransferAgent F) : Prop where
  keys : ∀ name, name ∈ agent.positions.map Prod.fst ↔ ∃ e ∈ agent.heldEntries, e.position = name
  units : ∀ name, ((agent.positions.lookup name).getD 0).toNat = agent.heldBy name
  total : (agent.positions.map fun e => e.2.toNat).sum = agent.totalUnits

omit [FeedField F] in
theorem toNat_totalOf_iff {notes : List (OwnedNote F)} :
    (Wallet.totalOf notes).toNat = natTotal notes ↔ natTotal notes < 2 ^ 64 := by
  have hmap : (notes.map fun n => n.note.units).map UInt64.toNat = notes.map fun n => n.note.units.toNat :=
    List.map_map
  rw [Wallet.totalOf, natTotal, ← hmap]
  exact toNat_sum_iff

section
variable {wallet : Wallet F} {env : PoolEnv F} {units : UInt64}

theorem largestTwo_subperm {epoch : UInt64} : (wallet.largestTwo epoch).Subperm (wallet.spendable epoch) :=
  (List.take_sublist _ _).subperm.trans ((List.reverse_perm _).trans (List.perm_insertionSort _ _)).subperm

/-- No two notes have more units. -/
theorem natTotal_le_largestTwo {epoch : UInt64} {chosen : List (OwnedNote F)} (hlen : chosen.length ≤ 2)
    (h : chosen.Subperm (wallet.spendable epoch)) : natTotal chosen ≤ natTotal (wallet.largestTwo epoch) := by
  have hsorted : ((wallet.spendable epoch).insertionSort fun a b => a.note.units ≤ b.note.units).Pairwise
      fun a b => a.note.units ≤ b.note.units := by
    have : Std.Total fun a b : OwnedNote F => a.note.units ≤ b.note.units :=
      ⟨fun _ _ => UInt64.le_total _ _⟩
    have : IsTrans (OwnedNote F) fun a b => a.note.units ≤ b.note.units := ⟨fun _ _ _ => UInt64.le_trans⟩
    exact List.pairwise_insertionSort _ _
  refine sum_le_sum_take (h.trans ?_) (List.pairwise_reverse.mpr (hsorted.imp fun hle => hle)) hlen
  exact ((List.reverse_perm _).trans (List.perm_insertionSort _ _)).symm.subperm

/-- The two ways to select. -/
theorem payInputs_cases (wallet : Wallet F) (env : PoolEnv F) (units : UInt64) :
    (∃ n ∈ wallet.spendable env.epoch, units ≤ n.note.units ∧ wallet.payInputs env units = .ok [n]) ∨
    (∀ n ∈ wallet.spendable env.epoch, n.note.units < units) ∧ wallet.payInputs env units =
      if Wallet.totalOf (wallet.largestTwo env.epoch) < units then
        .error (.insufficientUnits (Wallet.totalOf (wallet.largestTwo env.epoch)) units)
      else .ok (wallet.largestTwo env.epoch) := by
  have hmem : ∀ n, n ∈ (wallet.spendable env.epoch).insertionSort
      (fun a b => a.note.units ≤ b.note.units) ↔ n ∈ wallet.spendable env.epoch := fun n => (List.perm_insertionSort _ _).mem_iff
  unfold Wallet.payInputs
  cases hfind : ((wallet.spendable env.epoch).insertionSort fun a b => a.note.units ≤ b.note.units).find?
    fun n => n.note.units ≥ units with
  | some n =>
    left
    have hle : units ≤ n.note.units := by simpa using List.find?_some hfind
    exact ⟨n, (hmem n).mp (List.mem_of_find?_eq_some hfind), hle, by simp [hfind]⟩
  | none =>
    right
    refine ⟨fun n hn => ?_, ?_⟩
    · simpa using List.find?_eq_none.mp hfind n ((hmem n).mpr hn)
    · simp only [hfind]
      change (do
        failIf (Wallet.totalOf (wallet.largestTwo env.epoch) < units)
          (BuildError.insufficientUnits (Wallet.totalOf (wallet.largestTwo env.epoch)) units)
        pure (wallet.largestTwo env.epoch)) = _
      unfold failIf
      split <;> rfl

end

section
variable {view : AttestedView F} {env : PoolEnv F} {built : BuiltTransfer F}

theorem OwnedNote.units_of_input {n : OwnedNote F} {input : InputNote F} (h : n.input P view = .ok input) :
    input.units = n.note.units := by
  simp only [OwnedNote.input, bind_eq_ok, pure_eq_ok] at h
  obtain ⟨_, -, rfl⟩ := h
  rfl

/-- The witness has the units of the inputs, and the outputs that were asked for. -/
theorem witness_of_buildTransfer {payloadCommitment : List UInt8 → F} {spec : TransferSpec F}
    {signer : PlanSigner F} {draws : Draws F}
    (h : buildTransfer P payloadCommitment spec signer draws view env = .ok built) :
    ∑ i, (built.witness.inputs i).units.toNat = natTotal spec.inputs ∧
      built.witness.outputs = spec.notes P env draws := by
  simp only [buildTransfer, PendingTransfer.finish, bind_eq_ok, pure_eq_ok] at h
  obtain ⟨pending, hpending, _, -, _, -, input0, h0, input1, h1, _, -, _, -, _, -, rfl⟩ := h
  have hfirst := OwnedNote.units_of_input h0
  rw [Fin.sum_univ_two]
  unfold prepareTransfer at hpending
  split at hpending
  · next first hinputs =>
    cases hpending
    obtain rfl := Except.ok.inj h1
    refine ⟨?_, rfl⟩
    rw [natTotal, hinputs]
    exact congrArg (·.toNat + 0) hfirst
  · next first second hinputs =>
    cases hpending
    refine ⟨?_, rfl⟩
    rw [natTotal, hinputs]
    have hsecond := OwnedNote.units_of_input h1
    exact congrArg₂ (·.toNat + ·.toNat) hfirst hsecond
  · cases hpending

theorem splits_of_pay {wallet : Wallet F} {payloadCommitment : List UInt8 → F} {signer : PlanSigner F}
    {draws : Draws F} {recipient : F} {units : UInt64} {inputs : List (OwnedNote F)}
    (hexact : (Wallet.totalOf inputs).toNat = natTotal inputs) (hle : units ≤ Wallet.totalOf inputs)
    (h : wallet.transfer P payloadCommitment signer draws view env inputs ![⟨recipient, units, noLock⟩,
      ⟨wallet.owner P, Wallet.totalOf inputs - units, noLock⟩] = .ok built) :
    built.Splits inputs (wallet.owner P) recipient units := by
  obtain ⟨hspent, hmade⟩ := witness_of_buildTransfer h
  refine ⟨hspent, ?_, ?_, ?_⟩
  · rw [hmade, Fin.sum_univ_two, ← hexact]
    change units.toNat + (Wallet.totalOf inputs - units).toNat = _
    rw [UInt64.toNat_sub_of_le _ _ hle]
    exact Nat.add_sub_cancel' hle
  · rw [hmade]
    exact ⟨rfl, rfl⟩
  · rw [hmade]
    rfl

end

/-! ## When the sums are exact -/

section
variable {wallet : Wallet F} {env : PoolEnv F} {units : UInt64}

omit [FeedField F] in
theorem natTotal_singleton (n : OwnedNote F) : natTotal [n] = n.note.units.toNat := rfl

/-- A note covers the units, or no two notes overflow. -/
def PayFits (wallet : Wallet F) (env : PoolEnv F) (units : UInt64) : Prop :=
  (∃ n ∈ wallet.spendable env.epoch, units ≤ n.note.units) ∨ ∀ chosen : List (OwnedNote F),
    chosen.length = 2 → chosen.Subperm (wallet.spendable env.epoch) → natTotal chosen < 2 ^ 64

theorem natTotal_largestTwo_lt (h : ∀ chosen : List (OwnedNote F), chosen.length = 2 →
    chosen.Subperm (wallet.spendable env.epoch) → natTotal chosen < 2 ^ 64) :
    natTotal (wallet.largestTwo env.epoch) < 2 ^ 64 := by
  by_cases hlen : (wallet.largestTwo env.epoch).length = 2
  · exact h _ hlen largestTwo_subperm
  · have htwo : (wallet.largestTwo env.epoch).length ≤ 2 := List.length_take_le _ _
    have hshort : (wallet.largestTwo env.epoch).length ≤ 1 := by omega
    cases hnotes : wallet.largestTwo env.epoch with
    | nil => exact Nat.two_pow_pos 64
    | cons n rest =>
      rw [hnotes, List.length_cons] at hshort
      obtain rfl := List.length_eq_zero_iff.mp (Nat.le_zero.mp (Nat.le_of_succ_le_succ hshort))
      exact n.note.units.toNat_lt

theorem selected_of_fits (h : PayFits wallet env units) {inputs : List (OwnedNote F)}
    (hinputs : wallet.payInputs env units = .ok inputs) : inputs.Subperm (wallet.spendable env.epoch) ∧
      (Wallet.totalOf inputs).toNat = natTotal inputs ∧ units ≤ Wallet.totalOf inputs := by
  rcases payInputs_cases wallet env units with ⟨n, hn, hle, heq⟩ | ⟨hnone, heq⟩
  · obtain rfl := Except.ok.inj (heq.symm.trans hinputs)
    have hexact : (Wallet.totalOf [n]).toNat = natTotal [n] :=
      toNat_totalOf_iff.mpr (natTotal_singleton n ▸ n.note.units.toNat_lt)
    exact ⟨List.singleton_subperm_iff.mpr hn, hexact, UInt64.le_iff_toNat_le.mpr (hexact ▸ hle)⟩
  · have hfit := h.resolve_left fun hcover => by
      obtain ⟨n, hn, hle⟩ := hcover
      exact absurd hle (UInt64.not_le.mpr (hnone n hn))
    rw [heq] at hinputs
    split at hinputs
    · cases hinputs
    · next hshort =>
      obtain rfl := Except.ok.inj hinputs
      exact ⟨largestTwo_subperm, toNat_totalOf_iff.mpr (natTotal_largestTwo_lt hfit), UInt64.not_lt.mp hshort⟩

theorem selects_iff_of_fits (h : PayFits wallet env units) :
    (∃ inputs ≠ [], wallet.payInputs env units = .ok inputs) ↔ Covered (wallet.spendable env.epoch) units := by
  constructor
  · rintro ⟨inputs, hne, hinputs⟩
    obtain ⟨hsub, hexact, hle⟩ := selected_of_fits h hinputs
    refine ⟨inputs, hne, ?_, hsub, hexact ▸ UInt64.le_iff_toNat_le.mp hle⟩
    rcases payInputs_cases wallet env units with ⟨n, -, -, heq⟩ | ⟨-, heq⟩
    · obtain rfl := Except.ok.inj (heq.symm.trans hinputs)
      exact Nat.le_succ 1
    · rw [heq] at hinputs
      split at hinputs
      · cases hinputs
      · obtain rfl := Except.ok.inj hinputs
        exact List.length_take_le _ _
  · rintro ⟨chosen, hne, hlen, hsub, hcovers⟩
    rcases payInputs_cases wallet env units with ⟨n, hn, -, heq⟩ | ⟨hnone, heq⟩
    · exact ⟨[n], List.cons_ne_nil _ _, heq⟩
    · have hfit := h.resolve_left fun hcover => by
        obtain ⟨n, hn, hle⟩ := hcover
        exact absurd hle (UInt64.not_le.mpr (hnone n hn))
      have hmost := natTotal_le_largestTwo hlen hsub
      have henough : ¬ Wallet.totalOf (wallet.largestTwo env.epoch) < units := by
        rw [UInt64.not_lt, UInt64.le_iff_toNat_le, toNat_totalOf_iff.mpr (natTotal_largestTwo_lt hfit)]
        exact hcovers.trans hmost
      have hlargest : (wallet.largestTwo env.epoch).length = min 2 (wallet.spendable env.epoch).length := by
        simp [Wallet.largestTwo]
      have hpos := List.length_pos_iff.mpr hne
      have hnotes := hsub.length_le
      exact ⟨wallet.largestTwo env.epoch, List.length_pos_iff.mp (by omega), heq.trans (if_neg henough)⟩

/-- The selection is exact if and only if no sum of two notes it may take overflows. -/
theorem payExact_iff : PayExact P wallet env units ↔ PayFits wallet env units := by
  constructor
  · intro h
    by_cases hcover : ∃ n ∈ wallet.spendable env.epoch, units ≤ n.note.units
    · exact .inl hcover
    refine .inr fun chosen hlen hsub => (natTotal_le_largestTwo hlen.le hsub).trans_lt ?_
    refine toNat_totalOf_iff.mp (h.compared fun n hn => UInt64.not_le.mp fun hle => hcover ⟨n, hn, hle⟩)
  · intro h
    refine ⟨selects_iff_of_fits h, fun hnone => ?_, fun inputs => selected_of_fits h, ?_⟩
    · refine toNat_totalOf_iff.mpr (natTotal_largestTwo_lt (h.resolve_left fun hcover => ?_))
      obtain ⟨n, hn, hle⟩ := hcover
      exact absurd hle (UInt64.not_le.mpr (hnone n hn))
    · intro payloadCommitment signer draws view recipient built hbuilt
      simp only [Wallet.pay, bind_eq_ok] at hbuilt
      obtain ⟨inputs, hinputs, hbuilt⟩ := hbuilt
      obtain ⟨-, hexact, hle⟩ := selected_of_fits h hinputs
      exact ⟨inputs, hinputs, splits_of_pay hexact hle hbuilt⟩

end

section
variable {agent : TransferAgent F}

omit [FeedField F] in
theorem sum_heldEntries : (agent.heldEntries.map fun e => e.note.units.toNat).sum = agent.totalUnits := by
  unfold heldEntries totalUnits unspentEntries
  induction agent.register with
  | nil => rfl
  | cons e es ih =>
    simp only [List.filter_cons]
    cases e.spent with
    | true => exact ih
    | false =>
      by_cases hunits : e.note.units > 0
      · simp [hunits, ih]
      · have hzero : e.note.units.toNat = 0 :=
          Nat.le_zero.mp (UInt64.le_iff_toNat_le.mp (UInt64.not_lt.mp hunits))
        simpa [hunits, hzero] using ih

omit [FeedField F] in
theorem toNat_valuesOf (name : String) : ((SortedMap.valuesOf name (agent.heldEntries.map fun e =>
    (e.position, e.note.units))).map UInt64.toNat).sum = agent.heldBy name := by
  rw [SortedMap.valuesOf, List.filter_map, List.map_map, List.map_map]
  rfl

omit [FeedField F] in
/-- The positions are exact if and only if no holder's units overflow. -/
theorem positionsExact_iff : PositionsExact agent ↔ ∀ name, agent.heldBy name < 2 ^ 64 := by
  constructor
  · intro h name
    exact h.units name ▸ UInt64.toNat_lt _
  · intro h
    have hlookup : ∀ name, ((agent.positions.lookup name).getD 0).toNat = agent.heldBy name := by
      intro name
      rw [positions, SortedMap.lookup_tally, ← toNat_valuesOf]
      exact toNat_sum_of_lt (toNat_valuesOf name ▸ h name)
    refine ⟨fun name => ?_, hlookup, ?_⟩
    · rw [positions, SortedMap.mem_keys_tally, List.map_map, List.mem_map]
      rfl
    · rw [positions, SortedMap.sum_toNat_tally fun name => toNat_valuesOf name ▸ h name, List.map_map]
      exact sum_heldEntries

end

/-! ## Exactness -/

/-- Selection, balance and positions are exact if and only if the sums they take fit 64 bits. -/
theorem selection_exact_iff (P : Primitives F) (wallet : Wallet F) (agent : TransferAgent F) (env : PoolEnv F)
    (units : UInt64) : (PayExact P wallet env units ↔ PayFits wallet env units) ∧
      (∀ epoch, (wallet.balance epoch).toNat = natTotal (wallet.spendable epoch) ↔
        natTotal (wallet.spendable epoch) < 2 ^ 64) ∧
      (PositionsExact agent ↔ ∀ name, agent.heldBy name < 2 ^ 64) :=
  ⟨payExact_iff, fun _ => toNat_totalOf_iff, positionsExact_iff⟩

/-- Two notes of `2 ^ 63` units. -/
def Sample.twoHalves : Wallet Unbounded :=
  { Sample.wallet with
    notes := [⟨⟨0, .ofNat (2 ^ 63), 0, 0, 0⟩, noLock, 0, 0, false⟩,
      ⟨⟨0, .ofNat (2 ^ 63), 0, 0, 0⟩, noLock, ⟨1⟩, 1, false⟩] }

def Sample.poolEnv : PoolEnv Unbounded := ⟨1, 0, 0, (0, 0), 0, 0, 0⟩

theorem spendable_twoHalves : Sample.twoHalves.spendable Sample.poolEnv.epoch = Sample.twoHalves.notes := by
  rfl

/-- A pair covers the units, and `pay` adds it up to nothing. -/
theorem pair_wraps : Covered (Sample.twoHalves.spendable Sample.poolEnv.epoch) (.ofNat (2 ^ 64 - 1)) ∧
    Sample.twoHalves.payInputs Sample.poolEnv (.ofNat (2 ^ 64 - 1)) =
      .error (.insufficientUnits 0 (.ofNat (2 ^ 64 - 1))) := by
  refine ⟨⟨Sample.twoHalves.notes, List.cons_ne_nil _ _, Nat.le_refl _, ?_, ?_⟩, ?_⟩
  · exact spendable_twoHalves ▸ List.Subperm.refl _
  · decide
  · rfl

end Pocs.Mmf
