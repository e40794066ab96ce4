import Pocs.Lib.Update
import Pocs.Rails.Binding

/-! # The books of the pool

The pool keeps a balance per claim contract and totals per round, and the claim contracts count the
nullifiers. `AccountsInv` ties them together along every run, over a token that moves exactly what it is
told to. -/

namespace Pocs.Rails

open Compliance (Address Word BnField)
open ClaimContract

variable {F T τ : Type} [BnField F]

def rounds (claimContract : Address) (tr : List Step) : Finset Word :=
  ((publications claimContract tr).map fun round => round.1.roundId).toFinset

/-- What the step returned of the round to its funder. -/
def Step.residual (claimContract : Address) (roundId : Word) : Step → Nat
  | .call _ (.funderUnshieldResidual claimContract' roundId') paid =>
    if claimContract' = claimContract ∧ roundId' = roundId then paid else 0
  | _ => 0

def residuals (tr : List Step) (claimContract : Address) (roundId : Word) : Nat :=
  (tr.map (Step.residual claimContract roundId)).sum

theorem residuals_cons (st : Step) (tr : List Step) (claimContract : Address) (roundId : Word) :
    residuals (st :: tr) claimContract roundId =
      st.residual claimContract roundId + residuals tr claimContract roundId :=
  List.sum_cons

structure AccountsInv (D : Deployment F T τ) (tr : List Step) (w : World T τ) : Prop
    extends RegisteredInv D tr w where
  unregistered : ∀ c roundId, (w.claims c).roundRegistered roundId = false →
    w.pool.roundDeposit (c, roundId) = 0 ∧ (w.claims c).nullifiersConsumedCount roundId = 0 ∧
      (w.claims c).residualPaid roundId = false
  deposit : ∀ c roundId, (w.claims c).roundRegistered roundId = true → w.pool.roundDeposit (c, roundId) =
      ((w.claims c).header roundId).cohortSize * ((w.claims c).header roundId).perRecipientAmount
  deposit_lt : ∀ c roundId, w.pool.roundDeposit (c, roundId) < 2 ^ 256
  claimed : ∀ c roundId, w.pool.roundClaimed (c, roundId) =
    (w.claims c).nullifiersConsumedCount roundId * ((w.claims c).header roundId).perRecipientAmount
  unpaid : ∀ c roundId, (w.claims c).residualPaid roundId = false → residuals tr c roundId = 0
  paid : ∀ c roundId, (w.claims c).residualPaid roundId = true →
    ((w.claims c).header roundId).closeTime.toNat ≤ w.timestamp ∧
      w.pool.roundDeposit (c, roundId) = w.pool.roundClaimed (c, roundId) + residuals tr c roundId
  balance : ∀ c, w.pool.balance c + ∑ roundId ∈ rounds c tr, w.pool.roundClaimed (c, roundId) +
    ∑ roundId ∈ rounds c tr, residuals tr c roundId = ∑ roundId ∈ rounds c tr, w.pool.roundDeposit (c, roundId)
  covers : Covers (D.token.balanceOf w.token D.poolAddress) w.pool.balance

section
variable {D : Deployment F T τ} {w w' w₀ : World T τ} {tr : List Step} {st : Step}
  {claimContract sender factory : Address} {roundId : Word}

omit [BnField F] in
theorem RegisteredInv.mem_rounds (inv : RegisteredInv D tr w) :
    roundId ∈ rounds claimContract tr ↔ (w.claims claimContract).roundRegistered roundId = true := by
  rw [rounds, List.mem_toFinset, inv.registered]

omit [BnField F] in
theorem AccountsInv.init (h₀ : Deployed D w₀) : AccountsInv D [] w₀ := by
  obtain ⟨verifier, hpool⟩ := h₀.pool
  refine
    { toRegisteredInv := .init h₀
      unregistered := fun c roundId _ => ?_
      deposit := fun c roundId h => ?_
      deposit_lt := fun c roundId => ?_
      claimed := fun c roundId => ?_
      unpaid := fun c roundId _ => rfl
      paid := fun c roundId h => ?_
      balance := fun c => ?_
      covers := ?_ }
  · rw [hpool, h₀.claims]
    exact ⟨rfl, rfl, rfl⟩
  · rw [h₀.claims] at h
    cases h
  · rw [hpool]
    exact Nat.two_pow_pos 256
  · rw [hpool, h₀.claims]
    exact (Nat.zero_mul _).symm
  · rw [h₀.claims] at h
    cases h
  · rw [hpool]
    rfl
  · rw [hpool]
    exact Covers.zero.mono (Nat.zero_le _)

/-- A step that leaves the books alone. -/
structure AccountsKept (D : Deployment F T τ) (w w' : World T τ) : Prop where
  claims : w'.claims = w.claims
  roundDeposit : w'.pool.roundDeposit = w.pool.roundDeposit
  roundClaimed : w'.pool.roundClaimed = w.pool.roundClaimed
  balance : w'.pool.balance = w.pool.balance
  time_le : w.timestamp ≤ w'.timestamp
  token_le : D.token.balanceOf w.token D.poolAddress ≤ D.token.balanceOf w'.token D.poolAddress

omit [BnField F] in
theorem AccountsInv.kept (inv : AccountsInv D tr w) (h : AccountsKept D w w')
    (hregistered : RegisteredInv D (st :: tr) w') (hrounds : ∀ c, st.publications c = [])
    (hresidual : ∀ c roundId, st.residual c roundId = 0) : AccountsInv D (st :: tr) w' := by
  have hresiduals : ∀ c roundId, residuals (st :: tr) c roundId = residuals tr c roundId := by
    intro c roundId
    rw [residuals_cons, hresidual, Nat.zero_add]
  have hsame : ∀ c, rounds c (st :: tr) = rounds c tr := by
    intro c
    rw [rounds, publications, hrounds, List.append_nil, rounds]
  refine
    { toRegisteredInv := hregistered
      unregistered := ?_
      deposit := ?_
      deposit_lt := ?_
      claimed := ?_
      unpaid := fun c roundId hpaid => ?_
      paid := fun c roundId hpaid => ?_
      balance := fun c => ?_
      covers := ?_ }
  · rw [h.roundDeposit, h.claims]
    exact inv.unregistered
  · rw [h.roundDeposit, h.claims]
    exact inv.deposit
  · rw [h.roundDeposit]
    exact inv.deposit_lt
  · rw [h.roundClaimed, h.claims]
    exact inv.claimed
  · rw [hresiduals]
    rw [h.claims] at hpaid
    exact inv.unpaid c roundId hpaid
  · rw [h.roundDeposit, h.roundClaimed, hresiduals, h.claims]
    rw [h.claims] at hpaid
    obtain ⟨htime, hsum⟩ := inv.paid c roundId hpaid
    exact ⟨htime.trans h.time_le, hsum⟩
  · rw [h.balance, h.roundClaimed, h.roundDeposit, hsame]
    simp only [hresiduals]
    exact inv.balance c
  · rw [h.balance]
    exact inv.covers.mono h.token_le

structure PaidOut (D : Deployment F T τ) (w w' : World T τ) (claimContract : Address) (amount : Nat) :
    Prop where
  le : amount ≤ w.pool.balance claimContract
  balance : w'.pool.balance = Function.update w.pool.balance claimContract
    (w.pool.balance claimContract - amount)
  roundDeposit : w'.pool.roundDeposit = w.pool.roundDeposit
  timestamp : w'.timestamp = w.timestamp
  token_le : D.token.balanceOf w.token D.poolAddress ≤ D.token.balanceOf w'.token D.poolAddress + amount

omit [BnField F] in
theorem PaidOut.covers {amount : Nat} (h : PaidOut D w w' claimContract amount)
    (hcovers : Covers (D.token.balanceOf w.token D.poolAddress) w.pool.balance) :
    Covers (D.token.balanceOf w'.token D.poolAddress) w'.pool.balance := by
  rw [h.balance]
  have hle := h.le
  have htoken := h.token_le
  exact hcovers.update (by omega)

omit [BnField F] in
/-- A transfer of the pool takes no more than its amount. -/
theorem balanceOf_transfer_le (hE : D.token.Exact) {recipient : Address} {amount : Nat} {t t' : τ}
    (h : D.token.transfer D.poolAddress recipient amount t = some t') :
    D.token.balanceOf t D.poolAddress ≤ D.token.balanceOf t' D.poolAddress + amount := by
  obtain ⟨-, hmoved⟩ := hE.transfer h
  have hle := @le_moved_src _ _ (D.token.balanceOf t) D.poolAddress recipient amount
  rw [hmoved]
  omega

omit [BnField F] in
/-- A claim pays the amount of its round. -/
theorem claim_paidOut (hE : D.token.Exact) {args : ClaimArgs}
    (h : claim D w claimContract sender args = .ok w') : ∃ roundId,
      decodeRoundId args.claimPublicInputs = .ok roundId ∧
      (w.claims claimContract).roundRegistered roundId = true ∧
      w.timestamp < ((w.claims claimContract).header roundId).closeTime.toNat ∧
      PaidOut D w w' claimContract ((w.claims claimContract).header roundId).perRecipientAmount ∧
      w'.claims = Function.update w.claims claimContract
        ((w.claims claimContract).consumed roundId args.claimPublicInputs.nullifier) ∧
      w'.pool.roundClaimed = Function.update w.pool.roundClaimed (claimContract, roundId)
        (w.pool.roundClaimed (claimContract, roundId) +
          ((w.claims claimContract).header roundId).perRecipientAmount) := by
  obtain ⟨roundId, header, token, hclaim, hunshield, -, rfl⟩ := claim_eq_ok.mp h
  obtain rfl := hclaim.header
  exact ⟨roundId, hclaim.decoded, hclaim.registered, hclaim.timely,
    ⟨hunshield.balance, rfl, rfl, rfl, balanceOf_transfer_le hE hunshield.token⟩, rfl, rfl⟩

omit [BnField F] in
/-- The payment of a residual, which may be zero. -/
theorem funderUnshieldResidual_paidOut (hE : D.token.Exact)
    (h : funderUnshieldResidual D w claimContract sender roundId = .ok w') :
    ∃ amount, amount = (((w.claims claimContract).header roundId).cohortSize -
        (w.claims claimContract).nullifiersConsumedCount roundId) *
          ((w.claims claimContract).header roundId).perRecipientAmount ∧ PaidOut D w w' claimContract amount ∧
      w'.claims = Function.update w.claims claimContract { w.claims claimContract with
        residualPaid := Function.update (w.claims claimContract).residualPaid roundId true } ∧
      w'.pool.roundClaimed = w.pool.roundClaimed := by
  obtain ⟨-, -, -, -, -, w₁, amount, rfl, hamount, hpaid⟩ := funderUnshieldResidual_ok h
  refine ⟨amount, hamount, ?_⟩
  rcases hpaid with ⟨rfl, rfl⟩ | ⟨-, hrecover⟩
  · refine ⟨⟨Nat.zero_le _, ?_, rfl, rfl, Nat.le_refl _⟩, rfl, rfl⟩
    rw [Nat.sub_zero, Function.update_eq_self]
    rfl
  · obtain ⟨token, -, -, hle, htransfer, rfl⟩ := recoverResidual_eq_ok.mp hrecover
    exact ⟨⟨hle, rfl, rfl, rfl, balanceOf_transfer_le hE htransfer⟩, rfl, rfl⟩

omit [BnField F] in
theorem AccountsInv.claim (hE : D.token.Exact) (inv : AccountsInv D tr w) {args : ClaimArgs}
    {paid : Nat} (h : claim D w claimContract sender args = .ok w')
    (hregistered : RegisteredInv D (.call sender (.claim claimContract args) paid :: tr) w') :
    AccountsInv D (.call sender (.claim claimContract args) paid :: tr) w' := by
  have hkept := claim_roundsKept h
  obtain ⟨roundId, -, hround, htimely, hout, hclaims, hroundClaimed⟩ := claim_paidOut hE h
  have hresiduals : ∀ c roundId', residuals (.call sender (.claim claimContract args) paid :: tr) c
      roundId' = residuals tr c roundId' := fun _ _ => Nat.zero_add _
  have hsame : ∀ c, rounds c (.call sender (.claim claimContract args) paid :: tr) = rounds c tr := by
    intro c
    exact congrArg (fun rs : List Publication => (rs.map fun round => round.1.roundId).toFinset)
      (List.append_nil _)
  have hcount : ∀ c roundId', (w'.claims c).nullifiersConsumedCount roundId' =
      (w.claims c).nullifiersConsumedCount roundId' +
        if c = claimContract ∧ roundId' = roundId then 1 else 0 := by
    intro c roundId'
    rw [hclaims]
    rcases eq_or_ne c claimContract with rfl | hne
    · rw [Function.update_self]
      rcases eq_or_ne roundId' roundId with rfl | hne
      · simp [consumed]
      · simp [consumed, hne]
    · simp [hne]
  have hpaid : ∀ c, (w'.claims c).residualPaid = (w.claims c).residualPaid := by
    rw [hclaims]
    exact update_field ClaimContract.residualPaid rfl
  have hclaimed : ∀ c roundId', w'.pool.roundClaimed (c, roundId') = w.pool.roundClaimed (c, roundId') +
      if c = claimContract ∧ roundId' = roundId then
        ((w.claims claimContract).header roundId).perRecipientAmount else 0 := by
    intro c roundId'
    rw [hroundClaimed]
    by_cases heq : (c, roundId') = (claimContract, roundId)
    · obtain ⟨rfl, rfl⟩ := Prod.mk.inj heq
      simp
    · rw [Function.update_of_ne heq, if_neg (fun hand => heq (Prod.ext hand.1 hand.2))]
      rfl
  refine
    { toRegisteredInv := hregistered
      unregistered := fun c roundId' hr => ?_
      deposit := ?_
      deposit_lt := ?_
      claimed := fun c roundId' => ?_
      unpaid := ?_
      paid := fun c roundId' hp => ?_
      balance := fun c => ?_
      covers := hout.covers inv.covers }
  · rw [hkept.roundRegistered] at hr
    obtain ⟨hzero, hnone, hunpaid⟩ := inv.unregistered c roundId' hr
    have hother : ¬ (c = claimContract ∧ roundId' = roundId) := by
      rintro ⟨rfl, rfl⟩
      rw [hr] at hround
      cases hround
    rw [hcount, if_neg hother, hpaid, hout.roundDeposit]
    exact ⟨hzero, hnone, hunpaid⟩
  · simp only [hout.roundDeposit, hkept.roundRegistered, hkept.header]
    exact inv.deposit
  · rw [hout.roundDeposit]
    exact inv.deposit_lt
  · rw [hclaimed, hcount, hkept.header, inv.claimed, Nat.add_mul]
    split
    · next hand =>
      obtain ⟨rfl, rfl⟩ := hand
      rw [Nat.one_mul]
    · rw [Nat.zero_mul]
  · simp only [hpaid, hresiduals]
    exact inv.unpaid
  · -- a round whose residual was paid is closed
    rw [hpaid] at hp
    obtain ⟨htime, hsum⟩ := inv.paid c roundId' hp
    have hother : ¬ (c = claimContract ∧ roundId' = roundId) := by
      rintro ⟨rfl, rfl⟩
      omega
    rw [hkept.header, hout.timestamp, hout.roundDeposit, hclaimed, if_neg hother, hresiduals]
    exact ⟨htime, hsum⟩
  · have hbalance := inv.balance c
    rw [hout.roundDeposit, hout.balance, hsame]
    simp only [hresiduals, hclaimed]
    rcases eq_or_ne c claimContract with rfl | hne
    · have hle := hout.le
      simp only [true_and]
      rw [Function.update_self, sum_add_ite (inv.mem_rounds.mpr hround)]
      omega
    · simp only [hne, false_and, if_false, Nat.add_zero, Function.update_of_ne hne]
      exact hbalance

omit [BnField F] in
theorem AccountsInv.residual (hE : D.token.Exact) (inv : AccountsInv D tr w) {paid : Nat}
    (h : funderUnshieldResidual D w claimContract sender roundId = .ok w')
    (hdrop : paid = w.pool.balance claimContract - w'.pool.balance claimContract) (hregistered : RegisteredInv D
      (.call sender (.funderUnshieldResidual claimContract roundId) paid :: tr) w') :
    AccountsInv D (.call sender (.funderUnshieldResidual claimContract roundId) paid :: tr) w' := by
  have hkept := funderUnshieldResidual_roundsKept h
  obtain ⟨-, hround, htime, hunpaid, hle, -⟩ := funderUnshieldResidual_ok h
  obtain ⟨amount, hamount, hout, hclaims, hclaimed⟩ := funderUnshieldResidual_paidOut hE h
  have hpaid : paid = amount := by
    have hle := hout.le
    rw [hdrop, hout.balance, Function.update_self]
    omega
  rw [hpaid] at hregistered ⊢
  have hresiduals : ∀ c roundId', residuals
      (.call sender (.funderUnshieldResidual claimContract roundId) amount :: tr) c roundId' =
        residuals tr c roundId' + if c = claimContract ∧ roundId' = roundId then amount else 0 := by
    intro c roundId'
    rw [residuals_cons, Nat.add_comm, Step.residual]
    simp only [eq_comm]
  have hsame : ∀ c, rounds c
      (.call sender (.funderUnshieldResidual claimContract roundId) amount :: tr) = rounds c tr := by
    intro c
    exact congrArg (fun rs : List Publication => (rs.map fun round => round.1.roundId).toFinset)
      (List.append_nil _)
  have hcount : ∀ c, (w'.claims c).nullifiersConsumedCount = (w.claims c).nullifiersConsumedCount := by
    rw [hclaims]
    exact update_field nullifiersConsumedCount rfl
  have hmarked : ∀ c roundId', (w'.claims c).residualPaid roundId' = true ↔
      (w.claims c).residualPaid roundId' = true ∨ c = claimContract ∧ roundId' = roundId := by
    intro c roundId'
    rw [hclaims]
    rcases eq_or_ne c claimContract with rfl | hne
    · rw [Function.update_self]
      rcases eq_or_ne roundId' roundId with rfl | hne
      · simp
      · simp [hne]
    · simp [hne]
  refine
    { toRegisteredInv := hregistered
      unregistered := fun c roundId' hr => ?_
      deposit := ?_
      deposit_lt := ?_
      claimed := fun c roundId' => ?_
      unpaid := fun c roundId' hp => ?_
      paid := fun c roundId' hp => ?_
      balance := fun c => ?_
      covers := hout.covers inv.covers }
  · rw [hkept.roundRegistered] at hr
    obtain ⟨hzero, hnone, hnot⟩ := inv.unregistered c roundId' hr
    rw [hcount, hout.roundDeposit]
    refine ⟨hzero, hnone, ?_⟩
    rw [← Bool.not_eq_true, hmarked]
    rintro (hp | ⟨rfl, rfl⟩)
    · rw [hnot] at hp
      cases hp
    · rw [hround] at hr
      cases hr
  · simp only [hout.roundDeposit, hkept.roundRegistered, hkept.header]
    exact inv.deposit
  · rw [hout.roundDeposit]
    exact inv.deposit_lt
  · rw [hclaimed, hcount, hkept.header, inv.claimed]
  · rw [← Bool.not_eq_true, hmarked, not_or, Bool.not_eq_true] at hp
    rw [hresiduals, if_neg hp.2, inv.unpaid c roundId' hp.1]
  · rw [hkept.header, hout.timestamp, hout.roundDeposit, hclaimed, hresiduals]
    rcases (hmarked c roundId').mp hp with hold | ⟨rfl, rfl⟩
    · obtain ⟨htime', hsum⟩ := inv.paid c roundId' hold
      have hother : ¬ (c = claimContract ∧ roundId' = roundId) := by
        rintro ⟨rfl, rfl⟩
        rw [hunpaid] at hold
        cases hold
      rw [if_neg hother]
      exact ⟨htime', hsum⟩
    · refine ⟨(Nat.le_add_right _ _).trans htime, ?_⟩
      rw [if_pos ⟨rfl, rfl⟩, inv.unpaid c roundId' hunpaid, inv.deposit c roundId' hround, inv.claimed,
        Nat.zero_add, hamount, ← Nat.add_mul, Nat.add_sub_cancel' hle]
  · have hbalance := inv.balance c
    rw [hout.roundDeposit, hout.balance, hsame, hclaimed]
    simp only [hresiduals]
    rcases eq_or_ne c claimContract with rfl | hne
    · have hle := hout.le
      simp only [true_and]
      rw [Function.update_self, sum_add_ite (inv.mem_rounds.mpr hround)]
      omega
    · simp only [hne, false_and, if_false, Nat.add_zero, Function.update_of_ne hne]
      exact hbalance

/-- What the deposits pull into the pool. -/
theorem depositAll_balanceOf (hE : D.token.Exact) (hfactory : factory ≠ D.poolAddress) {amount : Nat}
    {commitments : List Word} (h : depositAll D factory claimContract amount roundId commitments w = .ok w') :
    D.token.balanceOf w'.token D.poolAddress =
      D.token.balanceOf w.token D.poolAddress + commitments.length * amount := by
  induction commitments generalizing w with
  | nil =>
    cases h
    simp
  | cons commitment commitments ih =>
    rw [depositAll, List.foldlM_cons, bind_eq_ok] at h
    obtain ⟨w₁, hdeposit, hrest⟩ := h
    obtain ⟨token, tree, hdeposited, -, -, rfl⟩ := deposit_eq_ok.mp hdeposit
    obtain ⟨-, hmoved⟩ := hE.transferFrom hdeposited.token
    have hpulled : D.token.balanceOf token D.poolAddress =
        D.token.balanceOf w.token D.poolAddress + amount := by
      rw [hmoved, moved_dst hfactory]
    rw [ih hrest, List.length_cons, Nat.succ_mul]
    show D.token.balanceOf token D.poolAddress + _ = _
    rw [hpulled]
    omega

theorem publishRound_residualPaid {h : RoundHeader} {commitments : List Word}
    (ok : publishRound D w factory sender h commitments = .ok w') (c : Address) :
    (w'.claims c).residualPaid = (w.claims c).residualPaid := by
  obtain ⟨first, hclaims⟩ := publishRound_claims ok
  rw [hclaims]
  exact update_field ClaimContract.residualPaid (by rfl) c

theorem AccountsInv.publishRound (hE : D.token.Exact) (inv : AccountsInv D tr w)
    (hsender : sender ≠ D.poolAddress) (hplaced : factory ≠ D.poolAddress) {h : RoundHeader}
    {commitments : List Word} {paid : Nat} (ok : publishRound D w factory sender h commitments = .ok w') :
    AccountsInv D (.call sender (.publishRound factory h commitments) paid :: tr) w' := by
  have hregistered : RegisteredInv D (.call sender (.publishRound factory h commitments) paid :: tr) w' :=
    inv.toRegisteredInv.publishRound ok
  have hnotMem := inv.notMem_of_publishRound ok
  obtain ⟨hpublish, token₁, token₂, w₂, hpull, happrove, hdeposits, hregister⟩ :=
    publishRound_eq_ok.mp ok
  have hall := depositAll_ok hdeposits
  have hpulled := depositAll_balanceOf hE hplaced hdeposits
  obtain ⟨-, hnew, hw'⟩ := registerHeader_eq_ok.mp hregister
  have hclaims : w₂.claims = w.claims := hall.claims
  have hpool : w'.pool = w₂.pool := by rw [← hw', World.setClaims_pool]
  have hclaimed : w'.pool.roundClaimed = w.pool.roundClaimed := hpool ▸ hall.roundClaimed
  rw [hclaims] at hnew hw'
  have htotal : commitments.length * h.perRecipientAmount = h.cohortSize * h.perRecipientAmount := by
    rw [hpublish.length]
  rw [htotal] at hall hpulled
  obtain ⟨hzero, hnone, hunpaid⟩ := inv.unregistered _ _ hnew
  have hbalance : w'.pool.balance = Function.update w.pool.balance h.claimContractAddress
      (w.pool.balance h.claimContractAddress + h.cohortSize * h.perRecipientAmount) :=
    hpool ▸ hall.balance
  have hresiduals : ∀ c roundId', residuals (.call sender (.publishRound factory h commitments) paid :: tr)
      c roundId' = residuals tr c roundId' := fun _ _ => Nat.zero_add _
  have hdeposit : ∀ c roundId', w₂.pool.roundDeposit (c, roundId') =
      if c = h.claimContractAddress ∧ roundId' = h.roundId then h.cohortSize * h.perRecipientAmount
      else w.pool.roundDeposit (c, roundId') := by
    intro c roundId'
    rw [hall.roundDeposit]
    split
    · next hand =>
      obtain ⟨rfl, rfl⟩ := hand
      rw [Function.update_self]
      exact (congrArg (· + _) hzero).trans (Nat.zero_add _)
    · next hother => exact Function.update_of_ne (fun heq => hother (Prod.mk.inj heq)) ..
  have hround : ∀ c roundId', (w'.claims c).roundRegistered roundId' = true ↔
      (c = h.claimContractAddress ∧ roundId' = h.roundId) ∨ (w.claims c).roundRegistered roundId' = true := by
    intro c roundId'
    rw [← hw', ← hclaims, roundRegistered_setClaims, hclaims]
    simp only [eq_comm]
  have hrounds : ∀ c, rounds c (.call sender (.publishRound factory h commitments) paid :: tr) =
      if h.claimContractAddress = c then insert h.roundId (rounds c tr) else rounds c tr := by
    intro c
    rw [rounds, publications_publishRound]
    split
    · simp [rounds, Finset.union_comm]
    · rw [List.append_nil, rounds]
  -- the claim contract keeps all but its registrations
  have hcount : ∀ c, (w'.claims c).nullifiersConsumedCount = (w.claims c).nullifiersConsumedCount := by
    rw [← hw', ← hclaims]
    exact update_field nullifiersConsumedCount (by rw [hclaims]; rfl)
  have hmarked := publishRound_residualPaid ok
  have hheader : ∀ c roundId', (w'.claims c).header roundId' =
      if c = h.claimContractAddress ∧ roundId' = h.roundId then h
      else (w.claims c).header roundId' := by
    intro c roundId'
    rw [← hw']
    rcases eq_or_ne c h.claimContractAddress with rfl | hne
    · rw [World.setClaims_self]
      rcases eq_or_ne roundId' h.roundId with rfl | hne
      · simp [registered]
      · simp [registered, hne]
    · rw [World.setClaims_of_ne hne, hclaims, if_neg (fun hand => hne hand.1)]
  refine
    { toRegisteredInv := hregistered
      unregistered := fun c roundId' hr => ?_
      deposit := fun c roundId' hr => ?_
      deposit_lt := fun c roundId' => ?_
      claimed := fun c roundId' => ?_
      unpaid := fun c roundId' hp => ?_
      paid := fun c roundId' hp => ?_
      balance := fun c => ?_
      covers := ?_ }
  · rw [← Bool.not_eq_true, hround, not_or, Bool.not_eq_true] at hr
    rw [hpool, hdeposit, if_neg hr.1, hcount, hmarked]
    exact inv.unregistered c roundId' hr.2
  · rw [hpool, hdeposit, hheader]
    split
    · rfl
    · next hother => exact inv.deposit c roundId' (((hround c roundId').mp hr).resolve_left hother)
  · rw [hpool, hdeposit]
    split
    · rw [Nat.mul_comm]
      exact hpublish.total
    · exact inv.deposit_lt c roundId'
  · rw [hclaimed, hcount, hheader, inv.claimed]
    split
    · next hand =>
      obtain ⟨rfl, rfl⟩ := hand
      rw [hnone, Nat.zero_mul, Nat.zero_mul]
    · rfl
  · rw [hmarked] at hp
    rw [hresiduals]
    exact inv.unpaid c roundId' hp
  · rw [hmarked] at hp
    have hother : ¬ (c = h.claimContractAddress ∧ roundId' = h.roundId) := by
      rintro ⟨rfl, rfl⟩
      rw [hunpaid] at hp
      cases hp
    have htimestamp : w'.timestamp = w.timestamp := hw' ▸ hall.timestamp
    rw [hheader, if_neg hother, hclaimed, hpool, hdeposit, if_neg hother, hresiduals, htimestamp]
    exact inv.paid c roundId' hp
  · have hsum := inv.balance c
    rw [hbalance, hclaimed, hpool, hrounds]
    simp only [hresiduals, hdeposit]
    rcases eq_or_ne c h.claimContractAddress with rfl | hne
    · -- the new round has neither claims nor a residual
      have hnotIn : h.roundId ∉ rounds h.claimContractAddress tr := by rwa [rounds, List.mem_toFinset]
      have hothers : ∑ roundId' ∈ rounds h.claimContractAddress tr,
          (if roundId' = h.roundId then h.cohortSize * h.perRecipientAmount
            else w.pool.roundDeposit (h.claimContractAddress, roundId')) =
          ∑ roundId' ∈ rounds h.claimContractAddress tr,
            w.pool.roundDeposit (h.claimContractAddress, roundId') := by
        refine Finset.sum_congr rfl fun roundId' hin => if_neg ?_
        rintro rfl
        exact hnotIn hin
      have hfree := inv.claimed h.claimContractAddress h.roundId
      rw [hnone, Nat.zero_mul] at hfree
      have hresidual := inv.unpaid h.claimContractAddress h.roundId hunpaid
      simp only [true_and, if_true]
      rw [Function.update_self, Finset.sum_insert hnotIn, Finset.sum_insert hnotIn,
        Finset.sum_insert hnotIn, hothers, if_pos rfl, hresidual, hfree]
      omega
    · rw [if_neg hne.symm, Function.update_of_ne hne]
      simp only [hne, false_and, if_false]
      exact hsum
  · -- the tokens of the round come from the sender over the factory
    obtain ⟨-, hmoved⟩ := hE.transferFrom hpull
    have hfactory : D.token.balanceOf token₁ D.poolAddress = D.token.balanceOf w.token D.poolAddress := by
      rw [hmoved, moved, if_neg hsender.symm, if_neg hplaced.symm, Nat.sub_zero, Nat.add_zero]
    have hfunded : D.token.balanceOf (w.funded factory h.roundId token₂).token D.poolAddress =
        D.token.balanceOf w.token D.poolAddress :=
      (congrFun (hE.forceApprove happrove) _).trans hfactory
    have htoken : w'.token = w₂.token := hw' ▸ rfl
    rw [hbalance, htoken, hpulled, hfunded]
    exact inv.covers.update (by omega)

theorem AccountsInv.step (hE : D.token.Exact) (inv : AccountsInv D tr w)
    (h : Transition D w st w') : AccountsInv D (st :: tr) w' := by
  have hregistered := inv.toRegisteredInv.step h
  cases h with
  | @call sender c w' ok sender_ne placed =>
    cases c with
    | publishRound factory header commitments => exact inv.publishRound hE sender_ne placed ok
    | claim claimContract args => exact inv.claim hE ok hregistered
    | funderUnshieldResidual claimContract roundId => exact inv.residual hE ok rfl hregistered
    | governance call =>
      simp only [Call.run, bind_eq_ok, pure_eq_ok] at ok
      obtain ⟨pool, hpool, rfl⟩ := ok
      have hbooks := GovernanceCall.run_books hpool
      have hdeposit : pool.books.roundDeposit = w.pool.books.roundDeposit := by rw [hbooks]
      have hclaimed : pool.books.roundClaimed = w.pool.books.roundClaimed := by rw [hbooks]
      have hbalance : pool.books.balance = w.pool.books.balance := by rw [hbooks]
      exact inv.kept ⟨rfl, hdeposit, hclaimed, hbalance, Nat.le_refl _, Nat.le_refl _⟩ hregistered
        (fun _ => rfl) fun _ _ => rfl
    | registry call =>
      simp only [Call.run, bind_eq_ok, pure_eq_ok] at ok
      obtain ⟨registry, -, rfl⟩ := ok
      exact inv.kept ⟨rfl, rfl, rfl, rfl, Nat.le_refl _, Nat.le_refl _⟩ hregistered (fun _ => rfl)
        fun _ _ => rfl
  | reverted =>
    exact inv.kept ⟨rfl, rfl, rfl, rfl, Nat.le_refl _, Nat.le_refl _⟩ hregistered (fun _ => rfl) fun _ _ => rfl
  | tick _ time_le =>
    exact inv.kept ⟨rfl, rfl, rfl, rfl, time_le, Nat.le_refl _⟩ hregistered (fun _ => rfl) fun _ _ => rfl
  | elsewhere le =>
    exact inv.kept ⟨rfl, rfl, rfl, rfl, Nat.le_refl _, le⟩ hregistered (fun _ => rfl) fun _ _ => rfl

theorem AccountsInv.run (hE : D.token.Exact) (h₀ : Deployed D w₀) (hrun : Run (Transition D) w₀ tr w) :
    AccountsInv D tr w :=
  hrun.invariant (AccountsInv.init h₀) fun _ _ _ _ _ h inv => inv.step hE h

theorem Transition.residualPaid_mono (hE : D.token.Exact) (h : Transition D w st w') {c : Address}
    (hpaid : (w.claims c).residualPaid roundId = true) : (w'.claims c).residualPaid roundId = true := by
  cases h with
  | @call sender call w' ok =>
    cases call with
    | publishRound => rwa [publishRound_residualPaid ok]
    | claim claimContract args =>
      obtain ⟨roundId', -, -, -, -, hclaims, -⟩ := claim_paidOut hE ok
      rw [hclaims]
      exact (congrFun (update_field ClaimContract.residualPaid (by rfl) c) roundId).trans hpaid
    | funderUnshieldResidual claimContract roundId' =>
      obtain ⟨amount, -, -, hclaims, -⟩ := funderUnshieldResidual_paidOut hE ok
      rw [hclaims]
      rcases eq_or_ne c claimContract with rfl | hne
      · rw [Function.update_self]
        rcases eq_or_ne roundId roundId' with rfl | hne
        · exact Function.update_self ..
        · exact (Function.update_of_ne hne ..).trans hpaid
      · rwa [Function.update_of_ne hne]
    | governance =>
      simp only [Call.run, bind_eq_ok, pure_eq_ok] at ok
      obtain ⟨pool, -, rfl⟩ := ok
      exact hpaid
    | registry =>
      simp only [Call.run, bind_eq_ok, pure_eq_ok] at ok
      obtain ⟨registry, -, rfl⟩ := ok
      exact hpaid
  | reverted | tick | elsewhere => exact hpaid

/-- A round whose residual was paid stays marked. -/
theorem residualPaid_of_mem (hE : D.token.Exact) (hrun : Run (Transition D) w₀ tr w) {paid : Nat}
    (hmem : .call sender (.funderUnshieldResidual claimContract roundId) paid ∈ tr) :
    (w.claims claimContract).residualPaid roundId = true := by
  induction hrun with
  | nil => cases hmem
  | @cons tr w st w' run h ih =>
    rcases List.mem_cons.mp hmem with rfl | hmem
    · cases h with
      | call ok =>
        obtain ⟨amount, -, -, hclaims, -⟩ := funderUnshieldResidual_paidOut hE ok
        rw [hclaims, Function.update_self]
        exact Function.update_self ..
    · exact h.residualPaid_mono hE (ih hmem)

end

/-! ## The tallies -/

/-- No round of the claim contract has had more claims than it has cards. -/
def Unexceeded (w : World T τ) (claimContract : Address) : Prop :=
  ∀ roundId, (w.claims claimContract).roundRegistered roundId = true →
    (w.claims claimContract).nullifiersConsumedCount roundId ≤
      ((w.claims claimContract).header roundId).cohortSize

/-- The pool's books after a run. -/
structure Tallies (D : Deployment F T τ) (tr : List Step) (w : World T τ) : Prop where
  covers : ∀ claimContracts : Finset Address, ∑ c ∈ claimContracts, w.pool.balance c ≤
    D.token.balanceOf w.token D.poolAddress
  balance : ∀ c, (w.pool.balance c : ℤ) = ∑ roundId ∈ rounds c tr,
    ((w.pool.roundDeposit (c, roundId) : ℤ) - w.pool.roundClaimed (c, roundId) - residuals tr c roundId)
  mem_rounds : ∀ c roundId, roundId ∈ rounds c tr ↔ (w.claims c).roundRegistered roundId = true
  deposit : ∀ c roundId, (w.claims c).roundRegistered roundId = true → w.pool.roundDeposit (c, roundId) =
      ((w.claims c).header roundId).cohortSize * ((w.claims c).header roundId).perRecipientAmount
  claimed : ∀ c roundId, (w.claims c).roundRegistered roundId = true →
    w.pool.roundClaimed (c, roundId) = (w.claims c).nullifiersConsumedCount roundId *
      ((w.claims c).header roundId).perRecipientAmount
  paid : ∀ sender c roundId amount, .call sender (.funderUnshieldResidual c roundId) amount ∈ tr →
    w.pool.roundDeposit (c, roundId) = w.pool.roundClaimed (c, roundId) + residuals tr c roundId
  /-- A round that has not been exceeded has all that was paid out for it. -/
  within : ∀ c roundId, (w.claims c).roundRegistered roundId = true →
    (w.claims c).nullifiersConsumedCount roundId ≤ ((w.claims c).header roundId).cohortSize →
      w.pool.roundClaimed (c, roundId) + residuals tr c roundId ≤ w.pool.roundDeposit (c, roundId)
  /-- The residual is in the balance of the claim contract, and can be computed. -/
  residual : ∀ c, Unexceeded w c → ∀ sender roundId e,
    funderUnshieldResidual D w c sender roundId = .error e → e ≠ .panic ∧ e ≠ .insufficientBalance

section
variable {D : Deployment F T τ} {w : World T τ} {tr : List Step}

omit [BnField F] in
theorem AccountsInv.within (inv : AccountsInv D tr w) {c : Address} {roundId : Word}
    (hround : (w.claims c).roundRegistered roundId = true)
    (hle : (w.claims c).nullifiersConsumedCount roundId ≤ ((w.claims c).header roundId).cohortSize) :
    w.pool.roundClaimed (c, roundId) + residuals tr c roundId ≤ w.pool.roundDeposit (c, roundId) := by
  cases hpaid : (w.claims c).residualPaid roundId with
  | true => exact (inv.paid c roundId hpaid).2.ge
  | false =>
    rw [inv.unpaid c roundId hpaid, inv.claimed, inv.deposit c roundId hround, Nat.add_zero]
    exact Nat.mul_le_mul_right _ hle

omit [BnField F] in
/-- What a round has left is a part of the balance. -/
theorem AccountsInv.le_balance (inv : AccountsInv D tr w) {c : Address} (h : Unexceeded w c)
    {roundId : Word} (hround : (w.claims c).roundRegistered roundId = true)
    (hunpaid : (w.claims c).residualPaid roundId = false) :
    (((w.claims c).header roundId).cohortSize - (w.claims c).nullifiersConsumedCount roundId) *
      ((w.claims c).header roundId).perRecipientAmount ≤ w.pool.balance c := by
  obtain ⟨amount, hamount⟩ : ∃ amount : Nat, (((w.claims c).header roundId).cohortSize -
    (w.claims c).nullifiersConsumedCount roundId) *
      ((w.claims c).header roundId).perRecipientAmount = amount := ⟨_, rfl⟩
  -- no round takes more than its deposit, and this one has the amount left
  have hleft : w.pool.roundClaimed (c, roundId) + residuals tr c roundId + amount =
      w.pool.roundDeposit (c, roundId) := by
    rw [inv.unpaid c roundId hunpaid, inv.claimed, inv.deposit c roundId hround, Nat.add_zero, ← hamount,
      ← Nat.add_mul, Nat.add_sub_cancel' (h roundId hround)]
  have hsum : ∑ j ∈ rounds c tr, (w.pool.roundClaimed (c, j) + residuals tr c j +
      if j = roundId then amount else 0) ≤ ∑ j ∈ rounds c tr, w.pool.roundDeposit (c, j) := by
    refine Finset.sum_le_sum fun j hj => ?_
    have hj' := inv.mem_rounds.mp hj
    split
    · next heq => rw [heq, hleft]
    · exact inv.within hj' (h j hj')
  rw [sum_add_ite (inv.mem_rounds.mpr hround), Finset.sum_add_distrib] at hsum
  have hbalance := inv.balance c
  have hle : amount ≤ w.pool.balance c := by omega
  exact hamount ▸ hle

omit [BnField F] in
theorem AccountsInv.residual_ne (inv : AccountsInv D tr w) {c : Address} (h : Unexceeded w c)
    {sender : Address} {roundId : Word} {e : RailsError}
    (herr : funderUnshieldResidual D w c sender roundId = .error e) :
    e ≠ .panic ∧ e ≠ .insufficientBalance := by
  simp only [funderUnshieldResidual, bind_eq_error, failIf_eq_error, failIf_eq_ok, okOr_eq_error,
    okOr_eq_ok, exists_const, not_not, Bool.not_eq_false, Bool.not_eq_true] at herr
  rcases herr with ⟨-, rfl⟩ | ⟨-, ⟨-, rfl⟩ | ⟨hround, ⟨-, rfl⟩ | ⟨-, ⟨-, rfl⟩ | ⟨hunpaid, ⟨hlt, -⟩ |
    ⟨hle, ⟨hover, -⟩ | ⟨amount, hamount, herr⟩⟩⟩⟩⟩⟩
  · exact ⟨by simp, by simp⟩
  · exact ⟨by simp, by simp⟩
  · exact ⟨by simp, by simp⟩
  · exact ⟨by simp, by simp⟩
  · exact absurd (h roundId hround) (Nat.not_le.mpr hlt)
  · -- the product is at most the deposit
    have hproduct := Nat.mul_le_mul_right ((w.claims c).header roundId).perRecipientAmount
      (Nat.sub_le ((w.claims c).header roundId).cohortSize ((w.claims c).nullifiersConsumedCount roundId))
    rw [← inv.deposit c roundId hround] at hproduct
    have hlt := hproduct.trans_lt (inv.deposit_lt c roundId)
    rw [checkedMul, if_pos hlt] at hover
    cases hover
  · obtain ⟨-, rfl⟩ := checkedMul_eq_some.mp hamount
    have hcovered := inv.le_balance h hround hunpaid
    split at herr
    · simp only [recoverResidual, bind_eq_error, failIf_eq_error, failIf_eq_ok, okOr_eq_error,
        exists_const] at herr
      rcases herr with ⟨-, rfl⟩ | ⟨-, ⟨-, rfl⟩ | ⟨-, ⟨hlt, -⟩ | ⟨-, ⟨-, rfl⟩ | ⟨_, -, herr⟩⟩⟩⟩
      · exact ⟨by simp, by simp⟩
      · exact ⟨by simp, by simp⟩
      · exact absurd hcovered (Nat.not_le.mpr hlt)
      · exact ⟨by simp, by simp⟩
      · cases herr
    · cases herr

end

/-- Over a token that moves exactly what it is told to, the pool has what it owes to the claim contracts,
whose balances are the sums of what is left of their rounds. -/
theorem pool_tallies {D : Deployment F T τ} (hE : D.token.Exact) {w₀ w : World T τ} {tr : List Step}
    (h₀ : Deployed D w₀) (hrun : Run (Transition D) w₀ tr w) : Tallies D tr w := by
  have inv := AccountsInv.run hE h₀ hrun
  refine
    { covers := inv.covers
      balance := fun c => ?_
      mem_rounds := fun c roundId => inv.mem_rounds
      deposit := inv.deposit
      claimed := fun c roundId _ => inv.claimed c roundId
      paid := fun sender c roundId amount hmem =>
        (inv.paid c roundId (residualPaid_of_mem hE hrun hmem)).2
      within := fun c roundId hround hle => inv.within hround hle
      residual := fun c h sender roundId e herr => inv.residual_ne h herr }
  have hbalance := inv.balance c
  rw [Finset.sum_sub_distrib, Finset.sum_sub_distrib]
  zify at hbalance
  omega

open Binding.Sample in
theorem pool_tallies_sample : Tallies deployment
    (.call 9 (.claim 4 (args 6)) 1 :: .call 9 (.claim 4 (args 5)) 1 :: steps)
    (claimed (claimed republished 5) 6) :=
  pool_tallies (ledgerErc20_exact _) deployed claims_run

open Binding.Sample in
/-- A round of one card with two claims has taken a token of another round, and its residual cannot be
computed. -/
theorem residual_panics : deployment.token.Exact ∧ Deployed deployment world ∧
    ∃ tr w, Run (Transition deployment) world tr w ∧ w.pool.roundDeposit (4, 1) < w.pool.roundClaimed (4, 1) ∧
      funderUnshieldResidual deployment w 4 5 1 = .error .panic := by
  have hrun := claims_run.cons (@Transition.tick _ _ _ _ deployment _ 0 (10 + residualTimelockSeconds)
    (Nat.le_refl _) (Nat.zero_le _))
  refine ⟨ledgerErc20_exact _, deployed, _, _, hrun, by decide, ?_⟩
  simp only [funderUnshieldResidual, bind_eq_error, failIf_eq_error, failIf_eq_ok, exists_const]
  exact .inr ⟨not_not.mpr rfl, .inr ⟨Bool.noConfusion, .inr ⟨Nat.lt_irrefl _, .inr ⟨Bool.noConfusion,
    .inl ⟨by decide, trivial⟩⟩⟩⟩⟩

end Pocs.Rails
