import Pocs.Civic.Contract
import Pocs.Civic.Registry.Progress

/-! # The escrow of the contract

All petitions share one balance of the bounty token. `CallStep` says what a successful call does to
the petitions and the token; from it every run keeps the balance above the open bounties and pays
each bounty in one call (`escrow_conserved`). -/

namespace Pocs.Civic.Solidity

variable {τ : Type} {D : Deployment τ} {msg : Msg} {w w' : World τ} {out : Output}

/-! ## What a call does -/

def PetitionState.Final (st : PetitionState) : Prop := st = .resolved ∨ st = .unresolved

/-- Registered and not ended: the bounty is held for the petition. -/
def PetitionState.Live (st : PetitionState) : Prop := st ≠ .unset ∧ ¬ st.Final

instance : DecidablePred PetitionState.Final := fun _ => inferInstanceAs (Decidable (_ ∨ _))
instance : DecidablePred PetitionState.Live := fun _ => inferInstanceAs (Decidable (_ ∧ _))

/-- Reading a petition does not end it. -/
theorem advanceStateOnRead_live {b c : Nat} {st st' : PetitionState}
    (h : advanceStateOnRead b c st = some st') (hl : st'.Live) : st.Live := by
  cases st with
  | unset => simp [advanceStateOnRead] at h
  | resolved | unresolved =>
    obtain rfl : _ = st' := by simpa [advanceStateOnRead] using h
    exact hl
  | registered | signingOpen | signingClosed | cooldown | disputeWindow => decide

/-- Reading keeps the bounty and the organizer. -/
theorem PetitionRecord.advance_spec {rec rec' : PetitionRecord} (h : rec.advance msg = .ok rec') :
    (rec'.state.Live → rec.state.Live) ∧ rec'.bounty = rec.bounty ∧ rec'.organizer = rec.organizer := by
  simp only [PetitionRecord.advance, bind_eq_ok, okOr_eq_ok, pure_eq_ok] at h
  obtain ⟨st, hst, rfl⟩ := h
  exact ⟨advanceStateOnRead_live hst, rfl, rfl⟩

/-- The token after the contract made the payments in order. -/
def payAll (D : Deployment τ) (payments : List Payment) (t : τ) : Option τ :=
  payments.foldlM (fun t p => D.bountyToken.transfer D.address p.recipient p.amount t) t

/-- The record of a petition before and after a call that neither registers nor ends it. -/
structure Touched (rec rec' : PetitionRecord) : Prop where
  live : rec.state.Live
  live' : rec'.state.Live
  bounty : rec'.bounty = rec.bounty
  organizer : rec'.organizer = rec.organizer

/-- The payments that end a petition. -/
inductive Settlement (rec : PetitionRecord) (sender : Address) : PetitionState → List Payment → Prop where
  | resolved : Settlement rec sender .resolved [⟨sender, rec.bounty⟩]
  | unresolved {refund rebate : Nat} (sum : refund + rebate = rec.bounty)
    (cap : 100 * rebate ≤ rec.bounty) : Settlement rec sender .unresolved
      (⟨rec.organizer, refund⟩ :: if rebate > 0 then [⟨sender, rebate⟩] else [])

def Call.settles : Call → Option Bytes32
  | .resolve petitionId _ _ => some petitionId
  | .markUnresolved petitionId => some petitionId
  | _ => none

def Call.deposit : Call → Nat
  | .register params => params.bounty
  | _ => 0

/-- What a successful call does to the petitions and the token. -/
inductive CallStep (D : Deployment τ) (msg : Msg) (w w' : World τ) : Call → List Payment → Prop where
  | registered {params pid rec} (unset : (w.storage.petitions pid).state = .unset)
    (live : rec.state.Live) (bounty : rec.bounty = params.bounty) (organizer : rec.organizer = msg.sender)
    (petitions : w'.storage.petitions = Function.update w.storage.petitions pid rec)
    (token : D.bountyToken.transferFrom D.address msg.sender D.address params.bounty w.token =
      some w'.token) : CallStep D msg w w' (.register params) []
  | touched {call pid rec} (settles : call.settles = none) (deposit : call.deposit = 0)
    (touched : Touched (w.storage.petitions pid) rec)
    (petitions : w'.storage.petitions = Function.update w.storage.petitions pid rec)
    (token : w'.token = w.token) : CallStep D msg w w' call []
  | governed {newAlpha} (petitions : w'.storage.petitions = w.storage.petitions)
    (token : w'.token = w.token) : CallStep D msg w w' (.updateAlpha newAlpha) []
  | ended {call pid rec st payments} (settles : call.settles = some pid) (deposit : call.deposit = 0)
    (live : (w.storage.petitions pid).state.Live)
    (settlement : Settlement (w.storage.petitions pid) msg.sender st payments)
    (state : rec.state = st) (bounty : rec.bounty = (w.storage.petitions pid).bounty)
    (organizer : rec.organizer = (w.storage.petitions pid).organizer)
    (petitions : w'.storage.petitions = Function.update w.storage.petitions pid rec)
    (token : payAll D payments w.token = some w'.token) : CallStep D msg w w' call payments

theorem register_step {params : PetitionParams} (h : register D msg params w = .ok (w', out)) :
    CallStep D msg w w' (.register params) out.payments := by
  simp only [register, bind_eq_ok, failIf_eq_ok, mapErr_eq_ok, okOr_eq_ok, pure_eq_ok, not_not,
    Prod.mk.injEq] at h
  obtain ⟨_, -, _, -, _, -, _, hunset, token, htoken, rfl, rfl⟩ := h
  exact .registered hunset (by simp [PetitionRecord.written, PetitionState.Live, PetitionState.Final])
    rfl rfl rfl htoken

/-- A call that reads a petition in a live state and rewrites its roots. -/
theorem CallStep.roots {call : Call} {pid : Bytes32} {rec : PetitionRecord}
    (settles : call.settles = none) (deposit : call.deposit = 0)
    (hrec : (w.storage.petitions pid).advance msg = .ok rec) (hlive : rec.state.Live)
    {rr idt : Bytes32} {lc : Nat} (petitions : w'.storage.petitions =
      Function.update w.storage.petitions pid (rec.withRoots rr idt lc))
    (token : w'.token = w.token) : CallStep D msg w w' call [] := by
  obtain ⟨live, bounty, organizer⟩ := PetitionRecord.advance_spec hrec
  refine .touched settles deposit ?_ petitions token
  exact ⟨live hlive, hlive, bounty, organizer⟩

theorem publishBatch_step {pi : BatchPublicInputs} {batchProof kzgCommitment kzgProofs : List UInt8}
    (h : publishBatch D msg pi batchProof kzgCommitment kzgProofs w = .ok (w', out)) :
    CallStep D msg w w' (.publishBatch pi batchProof kzgCommitment kzgProofs) out.payments := by
  simp only [publishBatch, preflightBatch, bind_eq_ok, failIf_eq_ok, okOr_eq_ok, pure_eq_ok, not_not,
    Prod.mk.injEq] at h
  obtain ⟨_, ⟨rec, hrec, _, hopen, _, -, _, -, _, -, _, -, _, -, _, -, rfl⟩, _, -, _, -, rfl, rfl⟩ := h
  exact .roots rfl rfl hrec (hopen ▸ by decide) rfl rfl

theorem dispute_step {dp : DisputeParams} {kzgCommitment openingsBlob proofsBlob : List UInt8}
    (h : dispute D msg dp kzgCommitment openingsBlob proofsBlob w = .ok (w', out)) :
    CallStep D msg w w' (.dispute dp kzgCommitment openingsBlob proofsBlob) out.payments := by
  simp only [dispute, preflightDispute, bind_eq_ok, failIf_eq_ok, okOr_eq_ok, pure_eq_ok, not_not,
    Prod.mk.injEq] at h
  obtain ⟨_, ⟨rec, hrec, _, hwindow, _, -, bat, -, _, -, _, -, _, -, _, -, rfl⟩, _, -, _, -, _, -, _, -,
    rfl, rfl⟩ := h
  exact .roots rfl rfl hrec (hwindow ▸ by decide) rfl rfl

theorem safeTransfer_eq_ok {recipient : Address} {amount : Nat} : safeTransfer D recipient amount w = .ok w' ↔
      D.bountyToken.transfer D.address recipient amount w.token = some w'.token ∧ w'.storage = w.storage := by
  simp only [safeTransfer, bind_eq_ok, okOr_eq_ok, pure_eq_ok]
  constructor
  · rintro ⟨t, ht, rfl⟩
    exact ⟨ht, rfl⟩
  · rintro ⟨ht, hs⟩
    refine ⟨_, ht, ?_⟩
    rw [← hs]

theorem resolve_step {pid : Bytes32} {pi : ResolutionPublicInputs} {proof : List UInt8}
    (h : resolve D msg pid pi proof w = .ok (w', out)) :
    CallStep D msg w w' (.resolve pid pi proof) out.payments := by
  simp only [resolve, bind_eq_ok, failIf_eq_ok, pure_eq_ok, not_not, safeTransfer_eq_ok, Prod.mk.injEq] at h
  obtain ⟨rec, hrec, _, hwindow, _, -, _, -, _, -, _, -, w₁, ⟨ht, hs⟩, rfl, rfl⟩ := h
  obtain ⟨live, bounty, organizer⟩ := PetitionRecord.advance_spec hrec
  rw [bounty] at ht ⊢
  refine .ended rfl rfl (live (hwindow ▸ by decide)) .resolved ?_ ?_ ?_
    (congrArg Storage.petitions hs) ?_
  · rfl
  · exact bounty
  · exact organizer
  · simpa [payAll, World.setPetition] using ht

theorem rebateOf_le {bounty gasprice rebate : Nat} (h : rebateOf bounty gasprice = .ok rebate) :
    100 * rebate ≤ bounty := by
  simp only [rebateOf, bind_eq_ok, okOr_eq_ok, pure_eq_ok, checkedMul_eq_some] at h
  obtain ⟨scaled, ⟨-, rfl⟩, cost, -, rfl⟩ := h
  unfold gasRebateBps
  split <;> omega

/-- The second transfer of `markUnresolved`, left out when the rebate is zero. -/
theorem payAll_refund_rebate {organizer : Address} {refund rebate : Nat} {w₁ : World τ}
    (ht : D.bountyToken.transfer D.address organizer refund w.token = some w₁.token)
    (hw : (if rebate > 0 then safeTransfer D msg.sender rebate w₁ else pure w₁) = .ok w') :
    payAll D (⟨organizer, refund⟩ :: if rebate > 0 then [⟨msg.sender, rebate⟩] else []) w.token =
      some w'.token ∧ w'.storage = w₁.storage := by
  split at hw
  · next hpos =>
    obtain ⟨ht₂, hs₂⟩ := safeTransfer_eq_ok.mp hw
    simpa [payAll, ht, if_pos hpos, ht₂] using hs₂
  · next hpos =>
    obtain rfl := pure_eq_ok.mp hw
    simp [payAll, ht, if_neg hpos]

theorem markUnresolved_step {pid : Bytes32} (h : markUnresolved D msg pid w = .ok (w', out)) :
    CallStep D msg w w' (.markUnresolved pid) out.payments := by
  simp only [markUnresolved, bind_eq_ok, failIf_eq_ok, not_not, safeTransfer_eq_ok] at h
  obtain ⟨rec, hrec, _, hwindow, _, -, rebate, hrebate, _, hle, w₁, ⟨ht, hs⟩, h⟩ := h
  have hlast : (if rebate > 0 then safeTransfer D msg.sender rebate w₁ else pure w₁) = .ok w' ∧
      out.payments = ⟨rec.organizer, rec.bounty - rebate⟩ ::
        if rebate > 0 then [⟨msg.sender, rebate⟩] else [] := by
    split at h
    · next hpos =>
      obtain ⟨w₂, hw₂, h⟩ := bind_eq_ok.mp h
      cases h
      exact ⟨by rwa [if_pos hpos], by rw [if_pos hpos]⟩
    · next hpos =>
      cases h
      exact ⟨by rw [if_neg hpos]; rfl, by rw [if_neg hpos]⟩
  obtain ⟨hpaid, hs₂⟩ := payAll_refund_rebate (w := w) ht hlast.1
  obtain ⟨live, bounty, organizer⟩ := PetitionRecord.advance_spec hrec
  have hset : Settlement (w.storage.petitions pid) msg.sender .unresolved out.payments := by
    rw [hlast.2, bounty, organizer]
    apply Settlement.unresolved
    · exact Nat.sub_add_cancel (bounty ▸ not_lt.mp hle)
    · exact bounty ▸ rebateOf_le hrebate
  rw [← hlast.2] at hpaid
  refine .ended rfl rfl (live (hwindow ▸ by decide)) hset ?_ ?_ ?_
    (congrArg Storage.petitions (hs₂.trans hs)) hpaid
  · rfl
  · exact bounty
  · exact organizer

theorem updateAlpha_step {newAlpha : Nat} (h : updateAlpha D msg newAlpha w = .ok (w', out)) :
    CallStep D msg w w' (.updateAlpha newAlpha) out.payments := by
  simp only [updateAlpha, bind_eq_ok, failIf_eq_ok, pure_eq_ok, Prod.mk.injEq] at h
  obtain ⟨_, -, _, -, rfl, rfl⟩ := h
  exact .governed rfl rfl

theorem Call.run_step {call : Call} (h : call.run D msg w = .ok (w', out)) :
    CallStep D msg w w' call out.payments := by
  cases call with
  | register params => exact register_step h
  | publishBatch pi batchProof kzgCommitment kzgProofs => exact publishBatch_step h
  | dispute dp kzgCommitment openingsBlob proofsBlob => exact dispute_step h
  | resolve pid pi proof => exact resolve_step h
  | markUnresolved pid => exact markUnresolved_step h
  | updateAlpha newAlpha => exact updateAlpha_step h

/-! ## Runs -/

/-- A transaction to the registry, or a plain payment. -/
inductive Step where
  | succeeded (msg : Msg) (call : Call) (payments : List Payment)
  | reverted (msg : Msg) (call : Call)
  | received (amount : Nat)

/-- The contract never calls itself, and nobody else spends its balance. -/
inductive Transition (D : Deployment τ) (w : World τ) : Step → World τ → Prop where
  | succeeded {msg call w' out} (sender : msg.sender ≠ D.address)
    (ok : call.run D msg w = .ok (w', out)) : Transition D w (.succeeded msg call out.payments) w'
  | reverted {msg call e} (err : call.run D msg w = .error e) : Transition D w (.reverted msg call) w
  | received {amount token'} (balance : D.bountyToken.balanceOf token' D.address =
      D.bountyToken.balanceOf w.token D.address + amount) :
    Transition D w (.received amount) { w with token := token' }

/-- What the step paid when it ended the petition. -/
def Step.settlement (pid : Bytes32) : Step → Option (List Payment)
  | .succeeded _ call payments => if call.settles = some pid then some payments else none
  | _ => none

/-- What each call that ended the petition paid. -/
def settlements (tr : List Step) (pid : Bytes32) : List (List Payment) :=
  tr.filterMap (Step.settlement pid)

def Step.paidIn : Step → Nat
  | .succeeded _ call _ => call.deposit
  | .received amount => amount
  | _ => 0

def Step.paidOut : Step → Nat
  | .succeeded _ _ payments => (payments.map Payment.amount).sum
  | _ => 0

/-- The settlements of a petition match its record: none before it ended, then one of the whole
bounty to others than the contract. -/
inductive Settled (D : Deployment τ) (rec : PetitionRecord) : List (List Payment) → Prop where
  | pending (state : ¬ rec.state.Final) : Settled D rec []
  | ended {sender payments} (state : rec.state.Final) (settlement : Settlement rec sender rec.state payments)
    (others : ∀ p ∈ payments, p.recipient ≠ D.address) : Settled D rec [payments]

def PetitionRecord.held (rec : PetitionRecord) : Nat := if rec.state.Live then rec.bounty else 0

/-- What every run keeps. -/
structure EscrowInv (D : Deployment τ) (balance₀ : Nat) (tr : List Step) (w : World τ) : Prop where
  covers : Covers (D.bountyToken.balanceOf w.token D.address) fun pid =>
    (w.storage.petitions pid).held
  organizer : ∀ pid, (w.storage.petitions pid).state ≠ .unset → (w.storage.petitions pid).organizer ≠ D.address
  settled : ∀ pid, Settled D (w.storage.petitions pid) (settlements tr pid)
  balance : D.bountyToken.balanceOf w.token D.address + (tr.map Step.paidOut).sum =
    balance₀ + (tr.map Step.paidIn).sum

theorem PetitionState.Live.not_final {st : PetitionState} (h : st.Live) : ¬ st.Final := h.2

theorem PetitionState.Final.not_live {st : PetitionState} (h : st.Final) : ¬ st.Live := fun hl => hl.2 h

theorem PetitionRecord.held_of_live {rec : PetitionRecord} (h : rec.state.Live) :
    rec.held = rec.bounty := if_pos h

theorem PetitionRecord.held_of_not_live {rec : PetitionRecord} (h : ¬ rec.state.Live) : rec.held = 0 := if_neg h

/-- The balance falls by what is paid to others. -/
theorem payAll_balance (hT : D.bountyToken.Exact) {payments : List Payment} {t t' : τ}
    (h : payAll D payments t = some t') (hother : ∀ p ∈ payments, p.recipient ≠ D.address) :
    D.bountyToken.balanceOf t' D.address + (payments.map Payment.amount).sum =
      D.bountyToken.balanceOf t D.address := by
  induction payments generalizing t with
  | nil =>
    obtain rfl : t = t' := by simpa [payAll] using h
    rfl
  | cons p payments ih =>
    simp only [payAll, List.foldlM_cons, Option.bind_eq_bind, Option.bind_eq_some_iff] at h
    obtain ⟨t₁, ht₁, h⟩ := h
    have hrest := ih h fun q hq => hother q (List.mem_cons_of_mem _ hq)
    obtain ⟨hle, hbal⟩ := hT.transfer ht₁
    have hne : D.address ≠ p.recipient := (hother p List.mem_cons_self).symm
    rw [hbal, moved_src hne] at hrest
    rw [List.map_cons, List.sum_cons]
    omega

section
variable {rec rec' : PetitionRecord} {sender : Address} {st : PetitionState} {payments : List Payment}

theorem Settlement.final (h : Settlement rec sender st payments) : st.Final := by
  cases h with
  | resolved => exact .inl rfl
  | unresolved => exact .inr rfl

theorem Settlement.congr (h : Settlement rec sender st payments) (bounty : rec'.bounty = rec.bounty)
    (organizer : rec'.organizer = rec.organizer) : Settlement rec' sender st payments := by
  cases h with
  | resolved =>
    rw [← bounty]
    exact .resolved
  | unresolved sum cap =>
    rw [← organizer]
    exact .unresolved (bounty ▸ sum) (bounty ▸ cap)

/-- A settlement pays the whole bounty. -/
theorem Settlement.total (h : Settlement rec sender st payments) :
    (payments.map Payment.amount).sum = rec.bounty := by
  cases h with
  | resolved => simp
  | @unresolved refund rebate sum cap =>
    split
    · simpa using sum
    · simp only [List.map_cons, List.map_nil, List.sum_cons, List.sum_nil]
      omega

theorem Settlement.others (h : Settlement rec sender st payments) {a : Address} (hsender : sender ≠ a)
    (horganizer : rec.organizer ≠ a) : ∀ p ∈ payments, p.recipient ≠ a := by
  intro p hp
  cases h with
  | resolved =>
    rw [List.mem_singleton.mp hp]
    exact hsender
  | unresolved sum cap =>
    rcases List.mem_cons.mp hp with rfl | hp
    · exact horganizer
    · split at hp
      · rw [List.mem_singleton.mp hp]
        exact hsender
      · cases hp

end

/-- A petition that did not end has no settlement. -/
theorem Settled.eq_nil {rec : PetitionRecord} {ss : List (List Payment)} (h : Settled D rec ss)
    (hfinal : ¬ rec.state.Final) : ss = [] := by
  cases h with
  | pending => rfl
  | ended state => exact absurd state hfinal

theorem settlements_cons_none {st : Step} {tr : List Step} {pid : Bytes32}
    (h : st.settlement pid = none) : settlements (st :: tr) pid = settlements tr pid :=
  List.filterMap_cons_none h

theorem settlements_cons_some {st : Step} {tr : List Step} {pid : Bytes32} {ps : List Payment}
    (h : st.settlement pid = some ps) : settlements (st :: tr) pid = ps :: settlements tr pid :=
  List.filterMap_cons_some h

section
variable {balance₀ : Nat} {tr : List Step} {st : Step}

/-- A step that rewrites one petition. -/
theorem EscrowInv.update (inv : EscrowInv D balance₀ tr w) {pid : Bytes32} {rec : PetitionRecord}
    (petitions : w'.storage.petitions = Function.update w.storage.petitions pid rec)
    (held : D.bountyToken.balanceOf w.token D.address + rec.held ≤
      D.bountyToken.balanceOf w'.token D.address + (w.storage.petitions pid).held)
    (organizer : rec.organizer ≠ D.address) (settled : Settled D rec (settlements (st :: tr) pid))
    (others : ∀ q, q ≠ pid → st.settlement q = none)
    (balance : D.bountyToken.balanceOf w'.token D.address + st.paidOut =
      D.bountyToken.balanceOf w.token D.address + st.paidIn) : EscrowInv D balance₀ (st :: tr) w' where
  covers := by
    have hcov := inv.covers.update held
    rw [petitions]
    convert hcov using 2 with q
    by_cases hq : q = pid
    · rw [hq, Function.update_self, Function.update_self]
    · rw [Function.update_of_ne hq, Function.update_of_ne hq]
  organizer q := by
    rw [petitions]
    by_cases hq : q = pid
    · rw [hq, Function.update_self]
      exact fun _ => organizer
    · rw [Function.update_of_ne hq]
      exact inv.organizer q
  settled q := by
    rw [petitions]
    by_cases hq : q = pid
    · rwa [hq, Function.update_self]
    · rw [Function.update_of_ne hq, settlements_cons_none (others q hq)]
      exact inv.settled q
  balance := by
    have := inv.balance
    simp only [List.map_cons, List.sum_cons]
    omega

/-- A step that touches no petition. -/
theorem EscrowInv.frame (inv : EscrowInv D balance₀ tr w)
    (petitions : w'.storage.petitions = w.storage.petitions)
    (settlement : ∀ q, st.settlement q = none) (paidOut : st.paidOut = 0)
    (balance : D.bountyToken.balanceOf w'.token D.address =
      D.bountyToken.balanceOf w.token D.address + st.paidIn) : EscrowInv D balance₀ (st :: tr) w' where
  covers := by
    rw [petitions]
    exact inv.covers.mono (by omega)
  organizer := petitions ▸ inv.organizer
  settled q := by
    rw [petitions, settlements_cons_none (settlement q)]
    exact inv.settled q
  balance := by
    have := inv.balance
    simp only [List.map_cons, List.sum_cons]
    omega

theorem CallStep.inv (hT : D.bountyToken.Exact) (inv : EscrowInv D balance₀ tr w) {call : Call}
    {payments : List Payment} (hsender : msg.sender ≠ D.address) (h : CallStep D msg w w' call payments) :
    EscrowInv D balance₀ (.succeeded msg call payments :: tr) w' := by
  cases h with
  | @registered params pid rec unset live bounty organizer petitions token =>
    obtain ⟨-, htoken⟩ := hT.transferFrom token
    have hbal : D.bountyToken.balanceOf w'.token D.address =
        D.bountyToken.balanceOf w.token D.address + params.bounty := by
      rw [htoken, moved_dst hsender]
    have hnone := (inv.settled pid).eq_nil (by rw [unset]; decide)
    refine inv.update petitions ?_ (organizer ▸ hsender) ?_ (fun _ _ => rfl) hbal
    · rw [PetitionRecord.held_of_live live]
      omega
    · rw [settlements_cons_none rfl, hnone]
      exact .pending live.2
  | @touched _ pid rec settles deposit touched petitions token =>
    have hsettles : ∀ q, (Step.succeeded msg call []).settlement q = none := fun q => by
      simp [Step.settlement, settles]
    have hnone := (inv.settled pid).eq_nil touched.live.not_final
    refine inv.update petitions ?_ ?_ ?_ (fun q _ => hsettles q) ?_
    · rw [token, PetitionRecord.held_of_live touched.live, PetitionRecord.held_of_live touched.live',
        touched.bounty]
    · rw [touched.organizer]
      exact inv.organizer pid touched.live.1
    · rw [settlements_cons_none (hsettles pid), hnone]
      exact .pending touched.live'.not_final
    · simp [Step.paidIn, Step.paidOut, deposit, token]
  | governed petitions token =>
    exact inv.frame petitions (fun _ => rfl) rfl (congrArg (D.bountyToken.balanceOf · D.address) token)
  | @ended _ pid rec st' _ settles deposit live settlement state bounty organizer petitions token =>
    have hothers := settlement.others hsender (inv.organizer pid live.1)
    have hpaid := payAll_balance hT token hothers
    have hnone := (inv.settled pid).eq_nil live.not_final
    have hnew := settlement.congr bounty organizer
    rw [← state] at hnew
    refine inv.update petitions ?_ (organizer ▸ inv.organizer pid live.1) ?_ ?_ ?_
    · rw [PetitionRecord.held_of_live live, PetitionRecord.held_of_not_live hnew.final.not_live]
      rw [settlement.total] at hpaid
      omega
    · have hsettlement : (Step.succeeded msg call payments).settlement pid = some payments := by
        simp [Step.settlement, settles]
      rw [settlements_cons_some hsettlement, hnone]
      exact .ended hnew.final hnew hothers
    · intro q hq
      simp [Step.settlement, settles, hq.symm]
    · simpa [Step.paidIn, Step.paidOut, deposit] using hpaid

end

theorem Run.escrowInv (hT : D.bountyToken.Exact) {alpha : Nat} {token : τ} {tr : List Step}
    (hrun : Run (Transition D) ⟨.deployed alpha, token⟩ tr w) :
    EscrowInv D (D.bountyToken.balanceOf token D.address) tr w := by
  refine hrun.invariant (I := EscrowInv D (D.bountyToken.balanceOf token D.address)) ?_ ?_
  · have hheld : PetitionRecord.default.held = 0 := rfl
    exact
      { covers := by
          show Covers _ fun _ => PetitionRecord.default.held
          rw [hheld]
          exact Covers.zero
        organizer := fun _ h => absurd rfl h
        settled := fun _ => .pending (by simp [Storage.deployed, PetitionRecord.default, PetitionState.Final])
        balance := rfl }
  · intro tr w st w' _ hstep inv
    cases hstep with
    | succeeded sender ok => exact (Call.run_step ok).inv hT inv sender
    | reverted err => exact inv.frame rfl (fun _ => rfl) rfl rfl
    | received balance => exact inv.frame rfl (fun _ => rfl) rfl balance

/-- A call that pays ends a petition. -/
theorem CallStep.settles_of_paid {call : Call} {payments : List Payment}
    (h : CallStep D msg w w' call payments) (hp : payments ≠ []) : ∃ pid, call.settles = some pid := by
  cases h with
  | registered | touched | governed => exact absurd rfl hp
  | ended settles => exact ⟨_, settles⟩

theorem Run.settles_of_paid {w₀ : World τ} {tr : List Step} (hrun : Run (Transition D) w₀ tr w) :
    ∀ st ∈ tr, st.paidOut ≠ 0 → ∃ pid, st.settlement pid ≠ none := by
  refine hrun.invariant (I := fun tr _ => ∀ st ∈ tr, st.paidOut ≠ 0 → ∃ pid, st.settlement pid ≠ none)
    (by simp) ?_
  intro tr w st w' _ hstep ih st' hmem hpaid
  rcases List.mem_cons.mp hmem with rfl | hmem
  · cases hstep with
    | succeeded sender ok =>
      obtain ⟨pid, hpid⟩ := (Call.run_step ok).settles_of_paid fun h =>
        hpaid (by simp [Step.paidOut, h])
      exact ⟨pid, by simp [Step.settlement, hpid]⟩
    | reverted | received => exact absurd rfl hpaid
  · exact ih st' hmem hpaid

/-- In every run the balance covers the bounties of the petitions that have not ended, a petition
that has ended was paid out whole and once, nothing else was paid, and the balance is what came in
less what was paid. -/
theorem escrow_conserved (hT : D.bountyToken.Exact) {alpha : Nat} {token : τ} {tr : List Step}
    (hrun : Run (Transition D) ⟨.deployed alpha, token⟩ tr w) :
    (∀ S : Finset Bytes32, (∀ pid ∈ S, (w.storage.petitions pid).state.Live) →
      ∑ pid ∈ S, (w.storage.petitions pid).bounty ≤ D.bountyToken.balanceOf w.token D.address) ∧
    (∀ pid, Settled D (w.storage.petitions pid) (settlements tr pid)) ∧
    (∀ st ∈ tr, st.paidOut ≠ 0 → ∃ pid, st.settlement pid ≠ none) ∧
    D.bountyToken.balanceOf w.token D.address + (tr.map Step.paidOut).sum =
      D.bountyToken.balanceOf token D.address + (tr.map Step.paidIn).sum := by
  have inv := Run.escrowInv hT hrun
  refine ⟨fun S hS => ?_, inv.settled, Run.settles_of_paid hrun, inv.balance⟩
  have hheld : ∑ pid ∈ S, (w.storage.petitions pid).bounty = ∑ pid ∈ S, (w.storage.petitions pid).held :=
    Finset.sum_congr rfl fun pid hpid => (PetitionRecord.held_of_live (hS pid hpid)).symm
  rw [hheld]
  exact inv.covers S

namespace Sample

def deployment : Deployment (Address → Nat) where
  primitives := Civic.Sample.primitives
  address := .ofNat 20 1
  chainId := 1
  governance := .zero 20
  alphaMin := 0
  alphaMax := 10
  attrCount := 4
  emptyImtRoot := .zero 32
  pinnedSignerVkHash := .zero 32
  batchVerifier _ _ := true
  resolutionVerifier _ _ := true
  pointEvaluation _ := some [1]
  bountyToken := ledger Address

def sentBy (sender blockNumber : Nat) : Msg := ⟨.ofNat 20 sender, blockNumber, 1, .zero 32⟩

/-- `attr[0] == 100`, one class, a bounty of 1000. -/
def params : PetitionParams where
  closeAtBlock := 301000
  classIndex := 0
  classSet := [100]
  classThresholds := [1]
  predicateDef := [1, 0] ++ beOfNat 32 100 ++ [0x01, 0x10, 1, 0x20, 0]
  bounty := 1000
  rRoot := .zero 32
  salt := .zero 32

def start : World (Address → Nat) := ⟨.deployed 1, fun _ => 5000⟩

def markedUnresolved : Except RegistryRevert (World (Address → Nat) × Output) := do
  let r ← register deployment (sentBy 2 300000) params start
  markUnresolved deployment (sentBy 3 500000) (.zero 32) r.1

/-- One percent of the bounty is less than the estimated cost of the call. -/
def payments : List Payment := [⟨.ofNat 20 2, 990⟩, ⟨.ofNat 20 3, 10⟩]

theorem exists_markedUnresolved : ∃ r, markedUnresolved = .ok r ∧
    (r.1.storage.petitions (.zero 32)).state = .unresolved ∧ r.2.payments = payments := by
  have h : markedUnresolved.map (fun r => ((r.1.storage.petitions (.zero 32)).state, r.2.payments)) =
    .ok (.unresolved, payments) := by decide +kernel
  cases hr : markedUnresolved with
  | error e => rw [hr] at h; cases h
  | ok r =>
    rw [hr] at h
    obtain ⟨hst, hp⟩ := Prod.mk.inj (Except.ok.inj h)
    exact ⟨r, rfl, hst, hp⟩

end Sample

theorem escrow_conserved_sample : ∃ tr w, Run (Transition Sample.deployment) Sample.start tr w ∧
    (w.storage.petitions (.zero 32)).state = .unresolved ∧ settlements tr (.zero 32) = [Sample.payments] ∧
    Settled Sample.deployment (w.storage.petitions (.zero 32)) (settlements tr (.zero 32)) := by
  obtain ⟨⟨w₂, o₂⟩, hr, hst, hp⟩ := Sample.exists_markedUnresolved
  obtain ⟨⟨w₁, o₁⟩, h₁, h₂⟩ := bind_eq_ok.mp hr
  have hstep₁ : Transition Sample.deployment Sample.start
    (.succeeded (Sample.sentBy 2 300000) (.register Sample.params) o₁.payments) w₁ :=
    .succeeded (by decide) h₁
  have hstep₂ : Transition Sample.deployment w₁
    (.succeeded (Sample.sentBy 3 500000) (.markUnresolved (.zero 32)) o₂.payments) w₂ :=
    .succeeded (by decide) h₂
  have hrun := Run.cons (.cons .nil hstep₁) hstep₂
  have hs := (escrow_conserved (ledger_exact Address) hrun).2.1 (.zero 32)
  refine ⟨_, w₂, hrun, hst, ?_, hs⟩
  rw [← hp]
  rfl

end Pocs.Civic.Solidity
