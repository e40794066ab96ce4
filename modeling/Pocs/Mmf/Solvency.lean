import Pocs.Mmf.Conservation

/-! # The fund is solvent

What every run of the fund can rely on, whoever trades and whatever comes in: the units are those of
the unspent notes, trading does not lower the multiplier, and the balance pays every note. -/

namespace Pocs.Mmf

open Compliance (BnField Address Ideal merkleHash idealHash idealHash_ideal)

variable {F T τ : Type} [FeedField F] {D : Deployment F T τ} {w w' : World T τ} {tr : List Step}
  {sender : Address} {events : List PoolEvent} {notes : List (Note F)}

omit [FeedField F] in
/-- While units are left, the multiplier is at least what it was. -/
theorem Settled.multiplier_le {m : Nat} (h : Settled D w w' m) (hU : w'.pool.totalUnits ≠ 0) :
    ∃ m', multiplier D w = .ok m ∧ multiplier D w' = .ok m' ∧ m ≤ m' := by
  obtain ⟨hlast, hle⟩ := h.live hU
  refine ⟨_, (checkedMultiplier_eq_ok.mp h.checked).2.1, ?_, hle⟩
  rw [multiplier, if_neg hU, hlast]

theorem DepositAccepted.totalUnits_ne {p : DepositParams} {m shares : Nat}
    (h : DepositAccepted D sender w w' p m shares) : w'.pool.totalUnits ≠ 0 := by
  have hunits : p.units.toNat ≠ 0 := fun he => h.units (UInt64.toNat_inj.mp he)
  have htotal := h.totalUnits
  omega

/-- A withdrawal that passes every check up to its proof. -/
structure Ready (D : Deployment F T τ) (w : World T τ) (p : WithdrawParams) : Prop where
  notPaused : requireNotPaused D w = .ok ()
  canonical : ∀ n ∈ p.inputs D w, BnField.canonical F n = true
  units : p.units ≠ 0
  recipient : p.recipient ≠ 0
  epoch : p.epoch = w.epoch D
  fresh : w.pool.nullifiers p.nullifier = false
  root : isKnownRoot D w p.commitmentRoot = true
  attestationRoot : w.registry.isKnownAttestationRoot D.toRegistryConfig p.attestationRoot = true
  proof : D.verifyWithdraw w.pool.verifier p.proof (p.inputs D w) = true

namespace Ready
variable {p : WithdrawParams}

/-- The proof opens an unspent note of the ledger. -/
theorem units_le (ready : Ready D w p) (hV : D.Sound) (H : Ideal D.hash)
    (hL : D.imt.Lawful (merkleHash D.hash)) (inv : PoolInv D tr w) (ledger : Ledger D w notes) :
    p.units.toNat ≤ w.pool.totalUnits := by
  obtain ⟨pub, wit, hinputs, hmain⟩ := hV.withdraw ready.proof
  obtain ⟨rfl, -⟩ := WithdrawParams.public_eq (ready.canonical _ (by simp [WithdrawParams.inputs])) hinputs
  have ok := withdrawMain_ok hmain
  have hmem := ledger.mem_of_verify H hL inv ready.root ok.included
  have hunspent : ¬ Spent D w (withdrawNote D.toPrimitives (p.toPublic D w) wit) := by
    rintro ⟨n, hn, hmarked⟩
    have hword : n = Scalar.ofNat p.nullifier := hn.unique H ok.nullifies
    rw [hword, BnField.toNat_ofNat_of_canonical
      (ready.canonical _ (by simp [WithdrawParams.inputs])), ready.fresh] at hmarked
    cases hmarked
  have hunits : (withdrawNote D.toPrimitives (p.toPublic D w) wit).units = p.units := ok.units
  have hle : ([withdrawNote D.toPrimitives (p.toPublic D w) wit].map fun note =>
      note.units.toNat).sum ≤ unspent (fun note => note.units.toNat) (Spent D w) notes :=
    sum_le_unspent (ledger.nodup inv) (List.nodup_singleton _)
      fun c hc => List.mem_singleton.mp hc ▸ ⟨hmem, hunspent⟩
  rw [List.map_singleton, List.sum_singleton, hunits, ← ledger.units] at hle
  exact hle

/-- The pool pays it, unless the price of a unit does not fit a word. -/
theorem withdraws (ready : Ready D w p) (hT : D.token.Exact) (hpays : D.token.Pays D.address)
    (inv : BackedInv D w) (hle : p.units.toNat ≤ w.pool.totalUnits)
    (hfits : w.balance D * multiplierScale < 2 ^ 256) : ∃ r, withdraw D w p = .ok r := by
  have hunits : p.units.toNat ≠ 0 := fun he => ready.units (UInt64.toNat_inj.mp he)
  have hU : w.pool.totalUnits ≠ 0 := by omega
  have hS : multiplierScale ≠ 0 := multiplierScale_pos.ne'
  -- the multiplier is read from the balance
  set m := w.balance D * multiplierScale / w.pool.totalUnits with hm
  have hmultiplier : multiplier D w = .ok m := by
    rw [multiplier, if_neg hU]
    exact mulDiv_eq_ok.mpr ⟨hU, (Nat.div_le_self _ _).trans_lt hfits, rfl⟩
  have hchecked : checkedMultiplier D w = .ok m :=
    checkedMultiplier_eq_ok.mpr ⟨inv.live, hmultiplier, inv.le_multiplier hmultiplier⟩
  have hbacked : Backed multiplierScale (w.balance D) w.pool.totalUnits m := .floor _ _ _
  -- the payout is covered
  set shares := p.units.toNat * m / multiplierScale with hshares
  have hcover : shares * multiplierScale ≤ p.units.toNat * m := Nat.div_mul_le_self _ _
  have hpayout : shares ≤ w.balance D := hbacked.payout_le multiplierScale_pos hle hcover
  have hpriced : mulDiv p.units.toNat m multiplierScale = .ok shares :=
    mulDiv_eq_ok.mpr ⟨hS, (hpayout.trans (Nat.le_mul_of_pos_right _ multiplierScale_pos)).trans_lt hfits, rfl⟩
  obtain ⟨token, htoken⟩ := Option.isSome_iff_exists.mp (hpays p.recipient shares w.token hpayout)
  obtain ⟨-, hmoved⟩ := hT.transfer htoken
  have hless : D.token.balanceOf token D.address ≤ w.balance D := by
    rw [hmoved]
    exact moved_src_le hpayout
  -- and settling reads a multiplier that fits
  set w₁ : World T τ := { w with
    pool := { w.pool.markAll [p.nullifier] with totalUnits := w.pool.totalUnits - p.units.toNat }
    token } with hw₁
  have hafter : ∃ w₂, settleMultiplier D w₁ m = .ok w₂ := by
    have hread : ∃ m', multiplier D w₁ = .ok m' := by
      unfold multiplier
      split
      · exact ⟨_, rfl⟩
      · next hne =>
        refine ⟨_, mulDiv_eq_ok.mpr ⟨hne, ?_, rfl⟩⟩
        exact ((Nat.div_le_self _ _).trans (Nat.mul_le_mul_right _ hless)).trans_lt hfits
    obtain ⟨m', hm'⟩ := hread
    have hge : ¬ (w₁.pool.totalUnits ≠ 0 ∧ m' < m) := by
      rintro ⟨hne, hlt⟩
      have hleft : Backed multiplierScale (w₁.balance D) w₁.pool.totalUnits m := by
        refine (hbacked.sub hle hcover).mono ?_
        rw [hw₁]
        show w.balance D - shares ≤ D.token.balanceOf token D.address
        rw [hmoved, World.balance]
        exact le_moved_src
      rw [multiplier_ok hm', price, if_neg hne] at hlt
      exact absurd (hleft.le_floor hne) (Nat.not_le.mpr hlt)
    exact ⟨_, bind_eq_ok.mpr ⟨m', hm', bind_eq_ok.mpr ⟨(), failIf_neg hge _, rfl⟩⟩⟩
  obtain ⟨w₂, hw₂⟩ := hafter
  refine ⟨(w₂, [.withdraw p.nullifier p.recipient p.units shares]), ?_⟩
  simp only [withdraw, checkEpoch, checkAttestationRoot, bind_eq_ok, failIf_eq_ok,
    requireCanonical_eq_ok, okOr_eq_ok, pure_eq_ok, exists_const, not_not, Bool.not_eq_false,
    Bool.not_eq_true, Nat.not_lt]
  exact ⟨(), ready.notPaused, ready.canonical, ready.units, ready.recipient, ready.epoch, ready.fresh,
    ready.root, ready.attestationRoot, m, hchecked, ready.proof, hle, shares, hpriced, token, htoken,
    w₂, hw₂, rfl⟩

end Ready

/-- What was in the pool when nobody held a unit of it. -/
def unowned (D : Deployment F T τ) (w : World T τ) : Nat :=
  if w.pool.totalUnits = 0 then w.balance D else 0

/-- A deposit and a withdrawal of as many units right after it: the withdrawal returns at most what
was paid, and what was in the pool without an owner. -/
theorem roundTrip_accepted (hT : D.token.Exact) (hsender : sender ≠ D.address) {p : DepositParams}
    {q : WithdrawParams} {w₁ w₂ : World T τ} {m paid m' got : Nat}
    (hin : DepositAccepted D sender w w₁ p m paid) (hout : WithdrawAccepted D w₁ w₂ q m' got)
    (hunits : q.units = p.units) : got ≤ paid + unowned D w := by
  have hm : m = price multiplierScale (w.balance D) w.pool.totalUnits w.pool.lastMultiplier :=
    multiplier_ok (checkedMultiplier_eq_ok.mp hin.settled.checked).2.1
  have hm' : m' = w₁.balance D * multiplierScale / w₁.pool.totalUnits := by
    rw [multiplier_ok (checkedMultiplier_eq_ok.mp hout.settled.checked).2.1, price, if_neg hin.totalUnits_ne]
  have hpaid := mulDivUp_ok hin.priced
  obtain ⟨-, -, hgot⟩ := mulDiv_eq_ok.mp hout.priced
  rw [hin.balance hT hsender, hin.totalUnits] at hm'
  rw [← hgot, hunits, hm', unowned]
  by_cases hU : w.pool.totalUnits = 0
  · rw [if_pos hU, hU, Nat.zero_add]
    have hfloor := Nat.mul_div_le ((w.balance D + paid) * multiplierScale) p.units.toNat
    calc p.units.toNat * ((w.balance D + paid) * multiplierScale / p.units.toNat) / multiplierScale
        ≤ (w.balance D + paid) * multiplierScale / multiplierScale := Nat.div_le_div_right hfloor
      _ = paid + w.balance D := by
        rw [Nat.mul_div_cancel _ multiplierScale_pos, Nat.add_comm]
  · rw [if_neg hU, Nat.add_zero]
    rw [hm, price, if_neg hU] at hpaid
    exact roundTrip_le multiplierScale_pos hU hpaid

/-- What holds of the pool after any run. -/
structure Solvent (D : Deployment F T τ) (w : World T τ) : Prop where
  /-- The units are those of the unspent notes, and paying these out in any order never takes more
  than is left. -/
  notes : ∃ notes : List (Note F), D.imt.leaves w.pool.tree = notes.map (Note.commitment D.toPrimitives) ∧
    w.pool.totalUnits = unspent (fun note => note.units.toNat) (Spent D w) notes ∧
    ∀ order : List (Note F), order.Nodup → (∀ note ∈ order, note ∈ notes ∧ ¬ Spent D w note) →
      Drains multiplierScale (w.balance D) w.pool.totalUnits w.pool.lastMultiplier
        (order.map fun note => note.units.toNat)
  /-- No deposit lowers the multiplier. -/
  deposit : ∀ {sender p}, sender ≠ D.address → Mmf.deposit D w sender p ≠ .error .multiplierDecreased ∧
    ∀ {w' events}, Mmf.deposit D w sender p = .ok (w', events) →
      ∃ m m', multiplier D w = .ok m ∧ multiplier D w' = .ok m' ∧ m ≤ m'
  /-- No withdrawal lowers the multiplier of the units that are left. -/
  withdraw : ∀ {p}, Mmf.withdraw D w p ≠ .error .multiplierDecreased ∧
    ∀ {w' events}, Mmf.withdraw D w p = .ok (w', events) → w'.pool.totalUnits ≠ 0 →
      ∃ m m', multiplier D w = .ok m ∧ multiplier D w' = .ok m' ∧ m ≤ m'
  /-- What a withdrawal pays is in the balance. -/
  payout : ∀ {p w' nullifier recipient units shares}, Mmf.withdraw D w p =
      .ok (w', [.withdraw nullifier recipient units shares]) →
    ∃ m, multiplier D w = .ok m ∧ shares = units.toNat * m / multiplierScale ∧ shares ≤ w.balance D
  /-- A withdrawal that proves an unspent note is paid by a token that pays what the pool has, as long
  as the multiplier fits a word. -/
  ready : D.token.Pays D.address → w.balance D * multiplierScale < 2 ^ 256 →
    ∀ {p}, Ready D w p → ∃ r, Mmf.withdraw D w p = .ok r
  /-- Nobody gains by going in and out. -/
  roundTrip : ∀ {sender p q w₁ w₂ commitment units paid feedR feedCt payload nullifier recipient got},
    sender ≠ D.address →
    Mmf.deposit D w sender p = .ok (w₁, [.deposit commitment units paid feedR feedCt payload]) →
    Mmf.withdraw D w₁ q = .ok (w₂, [.withdraw nullifier recipient units got]) → got ≤ paid + unowned D w

theorem fund_solvent (hV : D.Sound) (H : Ideal D.hash) (hL : D.imt.Lawful (merkleHash D.hash))
    (hT : D.token.Exact) {w₀ : World T τ} (h₀ : Deployed D w₀) (hrun : Run (Transition D) w₀ tr w) :
    Solvent D w := by
  have inv := Run.poolInv hL h₀ hrun
  have backed := Run.backedInv h₀ hrun
  obtain ⟨notes, ledger⟩ := Run.ledger hV H hL h₀ hrun
  constructor
  · refine ⟨notes, ledger.leaves, ledger.units, fun order hnodup hmem => ?_⟩
    refine drains multiplierScale_pos ?_
    rw [ledger.units]
    exact sum_le_unspent (ledger.nodup inv) hnodup hmem
  · intro sender p hsender
    refine ⟨deposit_ne_decreased hT backed hsender, fun h => ?_⟩
    obtain ⟨m, shares, accepted, -⟩ := deposit_accepted h
    exact ⟨m, accepted.settled.multiplier_le accepted.totalUnits_ne⟩
  · intro p
    refine ⟨withdraw_ne_decreased hT backed, fun h hU => ?_⟩
    obtain ⟨m, shares, accepted, -⟩ := withdraw_accepted h
    exact ⟨m, accepted.settled.multiplier_le hU⟩
  · intro p w' nullifier recipient units shares h
    obtain ⟨m, shares', accepted, hevents⟩ := withdraw_accepted h
    cases hevents
    obtain ⟨-, -, hfloor⟩ := mulDiv_eq_ok.mp accepted.priced
    exact ⟨m, (checkedMultiplier_eq_ok.mp accepted.settled.checked).2.1, hfloor.symm, (accepted.balance hT).1⟩
  · intro hpays hfits p ready
    exact ready.withdraws hT hpays backed (ready.units_le hV H hL inv ledger) hfits
  · intro sender p q w₁ w₂ commitment units paid feedR feedCt payload nullifier recipient got hsender hin hout
    obtain ⟨m, paid', hdeposit, hevents⟩ := deposit_accepted hin
    obtain ⟨m', got', hwithdraw, hevents'⟩ := withdraw_accepted hout
    cases hevents
    simp only [List.cons.injEq, PoolEvent.withdraw.injEq, and_true] at hevents'
    obtain ⟨rfl, rfl, hunits, rfl⟩ := hevents'
    exact roundTrip_accepted hT hsender hdeposit hwithdraw hunits.symm

open Sample

theorem fund_solvent_sample : ∃ w₀ tr w, Deployed sample w₀ ∧ Run (Transition sample) w₀ tr w ∧
    (∃ p events, .pool agent (.deposit p) events ∈ tr) ∧
    Solvent sample w := by
  obtain ⟨w₀, w, w₁, _, p, _, _, _, _, hdeployed, -, hrun, hdeposit, -, -⟩ :=
    exists_run idealHash idealHash_ideal signs_all (show (1 : Address) ≠ 0 by decide)
  have hrun' := Run.cons hrun hdeposit
  exact ⟨w₀, _, w₁, hdeployed, hrun', ⟨p, _, List.mem_cons_self⟩,
    fund_solvent (sound _) idealHash_ideal (lawful _) (ledger_exact Address) hdeployed hrun'⟩

/-- Five shares came into the empty pool: the first unit is deposited for one share and withdrawn for
six. -/
theorem roundTrip_gains : sample.token.Exact ∧
    ∃ w₀ tr w p q w₁ w₂ commitment units paid feedR feedCt payload nullifier recipient got, Deployed sample w₀ ∧
      Run (Transition sample) w₀ tr w ∧
      deposit sample w agent p = .ok (w₁, [.deposit commitment units paid feedR feedCt payload]) ∧
      withdraw sample w₁ q = .ok (w₂, [.withdraw nullifier recipient units got]) ∧ paid < got := by
  obtain ⟨w₀, w, w₁, w₂, p, feedR, feedCt, q, nullifier, hdeployed, -, hrun, -, hdeposit, hwithdraw⟩ :=
    exists_run idealHash idealHash_ideal signs_all (show (1 : Address) ≠ 0 by decide)
  exact ⟨ledger_exact Address, w₀, _, w, p, q, w₁, w₂, _, _, _, feedR, feedCt, _, nullifier, _, _,
    hdeployed, hrun, hdeposit, hwithdraw, by decide⟩

end Pocs.Mmf
