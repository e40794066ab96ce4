import Pocs.Rails.Contracts

/-! # What the calls do

One lemma for each function of the contracts: what it has checked when it succeeds, and the state it
leaves. -/

namespace Pocs.Rails

open Compliance (Address Word BnField)

variable {F T τ : Type} [BnField F] {D : Deployment F T τ} {w w' : World T τ}
  {sender claimContract factory : Address} {roundId : Word}

/-! ## The pool -/

def World.deposited (D : Deployment F T τ) (w : World T τ) (claimContract : Address) (commitment : Word)
    (amount : Nat) (roundId : Word) (token : τ) (tree : T) : World T τ :=
  { w with
    token
    pool := { w.pool with
      trees := Function.update w.pool.trees claimContract tree
      commitmentIndex := Function.update w.pool.commitmentIndex (claimContract, commitment)
        (subTreeSize D w claimContract + 1)
      commitmentCount := Function.update w.pool.commitmentCount claimContract
        (subTreeSize D w claimContract + 1)
      roots := Function.update w.pool.roots claimContract
        ((w.pool.roots claimContract).record recentRootsWindow (Scalar.toNat (D.imt.root tree)))
      balance := Function.update w.pool.balance claimContract (w.pool.balance claimContract + amount)
      roundDeposit := Function.update w.pool.roundDeposit (claimContract, roundId)
        (w.pool.roundDeposit (claimContract, roundId) + amount) } }

structure Deposited (D : Deployment F T τ) (w : World T τ) (sender claimContract : Address)
    (commitment : Word) (amount : Nat) (token : τ) (tree : T) : Prop where
  factory : sender = w.pool.authorizedFactory
  nonzero : claimContract ≠ 0
  fresh : w.pool.commitmentIndex (claimContract, commitment) = 0
  token : D.token.transferFrom D.poolAddress sender D.poolAddress amount w.token = some token
  canonical : BnField.canonical F commitment = true
  tree : D.imt.insert (Scalar.ofNat commitment) (w.pool.trees claimContract) = .ok tree

theorem deposit_eq_ok {commitment : Word} {amount : Nat} :
    deposit D w sender claimContract commitment amount roundId = .ok w' ↔
      ∃ token tree, Deposited D w sender claimContract commitment amount token tree ∧
        w.pool.balance claimContract + amount < 2 ^ 256 ∧
        w.pool.roundDeposit (claimContract, roundId) + amount < 2 ^ 256 ∧
        w.deposited D claimContract commitment amount roundId token tree = w' := by
  simp only [deposit, bind_eq_ok, failIf_eq_ok, okOr_eq_ok, mapErr_eq_ok, pure_eq_ok, exists_const,
    not_not, Bool.not_eq_false, checkedAdd_eq_some]
  constructor
  · rintro ⟨hfactory, hnonzero, hfresh, token, htoken, hcanonical, tree, htree, _, ⟨hbalance, rfl⟩, _,
      ⟨hdeposit, rfl⟩, hw'⟩
    exact ⟨token, tree, ⟨hfactory, hnonzero, hfresh, htoken, hcanonical, htree⟩, hbalance, hdeposit, hw'⟩
  · rintro ⟨token, tree, h, hbalance, hdeposit, hw'⟩
    exact ⟨h.factory, h.nonzero, h.fresh, token, h.token, h.canonical, tree, h.tree, _, ⟨hbalance, rfl⟩,
      _, ⟨hdeposit, rfl⟩, hw'⟩

def World.unshielded (w : World T τ) (claimContract : Address) (claimNullifier : Word) (amount : Nat)
    (roundId : Word) (token : τ) : World T τ :=
  { w with
    token
    pool := { w.pool with
      spentClaimNullifiers := Function.update w.pool.spentClaimNullifiers claimNullifier true
      balance := Function.update w.pool.balance claimContract (w.pool.balance claimContract - amount)
      roundClaimed := Function.update w.pool.roundClaimed (claimContract, roundId)
        (w.pool.roundClaimed (claimContract, roundId) + amount) } }

structure Unshielded (D : Deployment F T τ) (w : World T τ) (claimContract : Address)
    (proof : List UInt8) (pi : PoolInputs) (amount : Nat) (recipient : Address) (token : τ) :
    Prop where
  fresh : w.pool.spentClaimNullifiers pi.claimNullifier = false
  root : isKnownRoot w claimContract pi.poolRoot = true
  balance : amount ≤ w.pool.balance claimContract
  proof : D.verifyPoolWithdraw w.pool.verifier proof pi.toList = true
  inputs : pi.token = D.tokenAddress.toNat ∧ pi.amount = amount ∧ pi.recipient = recipient.toNat
  token : D.token.transfer D.poolAddress recipient amount w.token = some token

omit [BnField F] in
/-- Only the pool and the token matter. -/
theorem Unshielded.of_pool {proof : List UInt8} {pi : PoolInputs} {amount : Nat} {recipient : Address}
    {token : τ} (h : Unshielded D w claimContract proof pi amount recipient token)
    (hpool : w'.pool = w.pool) (htoken : w'.token = w.token) :
    Unshielded D w' claimContract proof pi amount recipient token where
  fresh := by rw [hpool]; exact h.fresh
  root := by rw [isKnownRoot, hpool]; exact h.root
  balance := by rw [hpool]; exact h.balance
  proof := by rw [hpool]; exact h.proof
  inputs := h.inputs
  token := by rw [htoken]; exact h.token

omit [BnField F] in
theorem unshield_eq_ok {proof : List UInt8} {root nullifier : Word} {amount : Nat} {recipient : Address} :
    unshield D w claimContract claimContract proof root nullifier D.tokenAddress amount recipient
        roundId = .ok w' ↔ ∃ token, Unshielded D w claimContract proof
          ⟨root, nullifier, D.tokenAddress.toNat, amount, recipient.toNat⟩ amount recipient token ∧
        w.pool.roundClaimed (claimContract, roundId) + amount < 2 ^ 256 ∧
        w.unshielded claimContract nullifier amount roundId token = w' := by
  simp only [unshield, bind_eq_ok, failIf_eq_ok, okOr_eq_ok, pure_eq_ok, exists_const, not_not,
    Bool.not_eq_false, Bool.not_eq_true, checkedAdd_eq_some, not_lt, true_and]
  constructor
  · rintro ⟨hfresh, hroot, hbalance, hproof, _, ⟨hclaimed, rfl⟩, token, htoken, hw'⟩
    exact ⟨token, ⟨hfresh, hroot, hbalance, hproof, ⟨rfl, rfl, rfl⟩, htoken⟩, hclaimed, hw'⟩
  · rintro ⟨token, h, hclaimed, hw'⟩
    exact ⟨h.fresh, h.root, h.balance, h.proof, _, ⟨hclaimed, rfl⟩, token, h.token, hw'⟩

def World.recovered (w : World T τ) (claimContract : Address) (roundId : Word) (amount : Nat)
    (token : τ) : World T τ :=
  { w with
    token
    pool := { w.pool with
      roundResidualPaid := Function.update w.pool.roundResidualPaid (claimContract, roundId) true
      balance := Function.update w.pool.balance claimContract (w.pool.balance claimContract - amount) } }

omit [BnField F] in
theorem recoverResidual_eq_ok {amount : Nat} {recipient : Address} :
    recoverResidual D w claimContract roundId amount recipient = .ok w' ↔ ∃ token, recipient ≠ 0 ∧
      w.pool.roundResidualPaid (claimContract, roundId) = false ∧ amount ≤ w.pool.balance claimContract ∧
      D.token.transfer D.poolAddress recipient amount w.token = some token ∧
      w.recovered claimContract roundId amount token = w' := by
  simp only [recoverResidual, bind_eq_ok, failIf_eq_ok, okOr_eq_ok, pure_eq_ok, exists_const,
    Bool.not_eq_true, not_lt, exists_and_left]
  rfl

/-! ## The claim contracts -/

def World.setClaims (w : World T τ) (claimContract : Address) (cc : ClaimContract) : World T τ :=
  { w with claims := Function.update w.claims claimContract cc }

@[simp] theorem World.setClaims_pool {cc : ClaimContract} : (w.setClaims claimContract cc).pool = w.pool :=
  rfl

@[simp] theorem World.setClaims_published {cc : ClaimContract} :
    (w.setClaims claimContract cc).published = w.published :=
  rfl

@[simp] theorem World.setClaims_self {cc : ClaimContract} :
    (w.setClaims claimContract cc).claims claimContract = cc :=
  Function.update_self ..

@[simp] theorem World.unshielded_claims {nullifier : Word} {amount : Nat} {token : τ} :
    (w.unshielded claimContract nullifier amount roundId token).claims = w.claims :=
  rfl

theorem World.setClaims_of_ne {cc : ClaimContract} {c : Address} (h : c ≠ claimContract) :
    (w.setClaims claimContract cc).claims c = w.claims c :=
  Function.update_of_ne h ..

def ClaimContract.registered (cc : ClaimContract) (h : RoundHeader) (firstPoolLeafIndex : UInt64) :
    ClaimContract :=
  { cc with
    roundRegistered := Function.update cc.roundRegistered h.roundId true
    header := Function.update cc.header h.roundId h
    firstPoolLeafIndex := Function.update cc.firstPoolLeafIndex h.roundId firstPoolLeafIndex }

omit [BnField F] in
theorem registerHeader_eq_ok {h : RoundHeader} {first : UInt64} :
    registerHeader D w sender claimContract h first = .ok w' ↔ sender = (D.claims claimContract).factory ∧
      (w.claims claimContract).roundRegistered h.roundId = false ∧
      w.setClaims claimContract ((w.claims claimContract).registered h first) = w' := by
  simp only [registerHeader, bind_eq_ok, failIf_eq_ok, pure_eq_ok, exists_const, not_not, Bool.not_eq_true]
  rfl

def ClaimContract.consumed (cc : ClaimContract) (roundId nullifier : Word) : ClaimContract :=
  { cc with
    nullifierConsumed := Function.update cc.nullifierConsumed nullifier true
    nullifiersConsumedCount := Function.update cc.nullifiersConsumedCount roundId
      (cc.nullifiersConsumedCount roundId + 1) }

structure Claimed (D : Deployment F T τ) (w : World T τ) (claimContract sender : Address)
    (args : ClaimArgs) (roundId : Word) (h : RoundHeader) : Prop where
  decoded : decodeRoundId args.claimPublicInputs = .ok roundId
  registered : (w.claims claimContract).roundRegistered roundId = true
  header : (w.claims claimContract).header roundId = h
  timely : w.timestamp < h.closeTime.toNat
  chainId : joinLimbs args.claimPublicInputs.chainIdHi args.claimPublicInputs.chainIdLo = .ok D.chainId
  headerChainId : h.chainId = D.chainId
  cohortRoot : args.claimPublicInputs.cohortRoot = h.cohortRoot
  amount : args.claimPublicInputs.amount = h.perRecipientAmount
  contract : args.claimPublicInputs.claimContractAddress = claimContract.toNat
  relaySubmitter : args.claimPublicInputs.relaySubmitter = sender.toNat
  destination : args.claimPublicInputs.destination < 2 ^ 160
  poolInputs : args.poolPublicInputs = ⟨args.poolPublicInputs.poolRoot,
    args.claimPublicInputs.nullifier, D.tokenAddress.toNat, h.perRecipientAmount,
    args.claimPublicInputs.destination⟩
  root : isKnownRoot w claimContract args.poolPublicInputs.poolRoot = true
  fresh : (w.claims claimContract).nullifierConsumed args.claimPublicInputs.nullifier = false
  proof : D.verifyClaim (D.claims claimContract).verifier args.claimProof args.claimPublicInputs.toList = true
  count : (w.claims claimContract).nullifiersConsumedCount roundId + 1 < 2 ^ 256

def ClaimArgs.payee (args : ClaimArgs) : Address := .ofNat 160 args.claimPublicInputs.destination

theorem ClaimArgs.payee_toNat {args : ClaimArgs} (h : args.claimPublicInputs.destination < 2 ^ 160) :
    args.payee.toNat = args.claimPublicInputs.destination :=
  (BitVec.toNat_ofNat ..).trans (Nat.mod_eq_of_lt h)

omit [BnField F] in
theorem assertChainId_eq_ok {pi : ClaimInputs} {headerChainId : Word} {u : Unit} :
    assertChainId D pi headerChainId = .ok u ↔
      joinLimbs pi.chainIdHi pi.chainIdLo = .ok D.chainId ∧ headerChainId = D.chainId := by
  simp only [assertChainId, bind_eq_ok, failIf_eq_ok, not_or, not_not]
  constructor
  · rintro ⟨chainId, hjoin, rfl, rfl⟩
    exact ⟨hjoin, rfl⟩
  · rintro ⟨hjoin, hheader⟩
    exact ⟨_, hjoin, rfl, hheader.symm⟩

theorem assertHeaderBindings_eq_ok {pi : ClaimInputs} {h : RoundHeader} {u : Unit} :
    assertHeaderBindings claimContract pi h = .ok u ↔ pi.cohortRoot = h.cohortRoot ∧
      pi.amount = h.perRecipientAmount ∧ pi.claimContractAddress = claimContract.toNat := by
  simp only [assertHeaderBindings, bind_eq_ok, failIf_eq_ok, not_not, exists_const]

omit [BnField F] in
theorem assertPoolBindings_eq_ok {pi : PoolInputs} {nullifier : Word} {amount : Nat}
    {destination : Address} {u : Unit} :
    assertPoolBindings D w claimContract pi nullifier amount destination = .ok u ↔
      pi = ⟨pi.poolRoot, nullifier, D.tokenAddress.toNat, amount, destination.toNat⟩ ∧
        isKnownRoot w claimContract pi.poolRoot = true := by
  simp only [assertPoolBindings, bind_eq_ok, failIf_eq_ok, not_not, exists_const, Bool.not_eq_false]
  constructor
  · rintro ⟨rfl, rfl, htoken, hrecipient, hroot⟩
    exact ⟨by rw [← htoken, ← hrecipient], hroot⟩
  · rintro ⟨heq, hroot⟩
    rw [heq]
    exact ⟨rfl, rfl, rfl, rfl, hroot⟩

omit [BnField F] in
theorem claim_eq_ok {args : ClaimArgs} : claim D w claimContract sender args = .ok w' ↔ ∃ roundId h token,
      Claimed D w claimContract sender args roundId h ∧
      Unshielded D w claimContract args.poolWithdrawProof args.poolPublicInputs h.perRecipientAmount
        args.payee token ∧ w.pool.roundClaimed (claimContract, roundId) + h.perRecipientAmount < 2 ^ 256 ∧
      (w.setClaims claimContract ((w.claims claimContract).consumed roundId
        args.claimPublicInputs.nullifier)).unshielded claimContract args.claimPublicInputs.nullifier
          h.perRecipientAmount roundId token = w' := by
  simp only [claim, bind_eq_ok, failIf_eq_ok, okOr_eq_ok, exists_const, not_not, Bool.not_eq_false,
    Bool.not_eq_true, checkedAdd_eq_some, not_le, assertChainId_eq_ok, assertHeaderBindings_eq_ok,
    assertPoolBindings_eq_ok, unshield_eq_ok]
  constructor
  · rintro ⟨roundId, hround, hregistered, htimely, ⟨hjoin, hchain⟩, ⟨hroot, hamount, hcontract⟩,
      hrelay, hdestination, ⟨hpool, hknown⟩, hfresh, hproof, _, ⟨hcount, rfl⟩, token, hunshield,
      hclaimed, hw'⟩
    have hpayee : (BitVec.ofNat 160 args.claimPublicInputs.destination).toNat = _ :=
      ClaimArgs.payee_toNat hdestination
    rw [hpayee] at hpool hunshield
    rw [← hpool] at hunshield
    exact ⟨roundId, _, token, ⟨hround, hregistered, rfl, htimely, hjoin, hchain, hroot, hamount,
      hcontract, hrelay, hdestination, hpool, hknown, hfresh, hproof, hcount⟩,
      hunshield.of_pool rfl rfl, hclaimed, hw'⟩
  · rintro ⟨roundId, h, token, hclaim, hunshield, hclaimed, hw'⟩
    obtain rfl := hclaim.header
    have hpayee : (BitVec.ofNat 160 args.claimPublicInputs.destination).toNat = _ :=
      ClaimArgs.payee_toNat hclaim.destination
    refine ⟨roundId, hclaim.decoded, hclaim.registered, hclaim.timely,
      ⟨hclaim.chainId, hclaim.headerChainId⟩, ⟨hclaim.cohortRoot, hclaim.amount, hclaim.contract⟩,
      hclaim.relaySubmitter, hclaim.destination, ⟨?_, hclaim.root⟩, hclaim.fresh, hclaim.proof, _,
      ⟨hclaim.count, rfl⟩, token, ?_, hclaimed, hw'⟩
    · rw [hpayee]
      exact hclaim.poolInputs
    · rw [hpayee, ← hclaim.poolInputs]
      exact hunshield.of_pool rfl rfl

omit [BnField F] in
/-- The residual is paid where there is one, after the claim contract has marked the round. -/
theorem funderUnshieldResidual_ok (h : funderUnshieldResidual D w claimContract sender roundId = .ok w') :
    sender = (D.claims claimContract).funderMultisig ∧ (w.claims claimContract).roundRegistered roundId = true ∧
    ((w.claims claimContract).header roundId).closeTime.toNat + residualTimelockSeconds ≤ w.timestamp ∧
    (w.claims claimContract).residualPaid roundId = false ∧
    (w.claims claimContract).nullifiersConsumedCount roundId ≤
      ((w.claims claimContract).header roundId).cohortSize ∧
    ∃ w₁ unclaimed, w₁ = w.setClaims claimContract { w.claims claimContract with
        residualPaid := Function.update (w.claims claimContract).residualPaid roundId true } ∧
      unclaimed = (((w.claims claimContract).header roundId).cohortSize -
        (w.claims claimContract).nullifiersConsumedCount roundId) *
          ((w.claims claimContract).header roundId).perRecipientAmount ∧
      (unclaimed = 0 ∧ w' = w₁ ∨ 0 < unclaimed ∧ recoverResidual D w₁ claimContract roundId unclaimed
        (D.claims claimContract).funderResidualDestination = .ok w') := by
  simp only [funderUnshieldResidual, bind_eq_ok, failIf_eq_ok, okOr_eq_ok, exists_const, not_not,
    Bool.not_eq_false, Bool.not_eq_true, checkedMul_eq_some, not_lt] at h
  obtain ⟨hsender, hregistered, htime, hpaid, hcount, unclaimed, ⟨-, rfl⟩, h⟩ := h
  refine ⟨hsender, hregistered, htime, hpaid, hcount, _, _, rfl, rfl, ?_⟩
  split at h
  · next hpos => exact .inr ⟨hpos, h⟩
  · next hzero => exact .inl ⟨Nat.eq_zero_of_not_pos hzero, (pure_eq_ok.mp h).symm⟩

/-! ## The factory -/

/-- What `publishRound` has checked before it moves tokens. -/
structure Publishable (D : Deployment F T τ) (w : World T τ) (factory sender : Address)
    (h : RoundHeader) (commitments : List Word) : Prop where
  decoded : h.Decoded
  sender : sender = (D.factories factory).funderMultisig
  cohortRoot : w.registry.cohortRoot h.cohortVersion = h.cohortRoot
  cohortSize : w.registry.cohortSize h.cohortVersion = h.cohortSize
  length : commitments.length = h.cohortSize
  length_lt : commitments.length < 2 ^ 64
  size_ne : h.cohortSize ≠ 0
  amount_ne : h.perRecipientAmount ≠ 0
  chainId : h.chainId = D.chainId
  token : h.token = D.tokenAddress
  contract : h.claimContractAddress = (D.factories factory).claimContract
  unpublished : w.published (factory, h.roundId) = false
  total : h.perRecipientAmount * h.cohortSize < 2 ^ 256

def World.funded (w : World T τ) (factory : Address) (roundId : Word) (token : τ) : World T τ :=
  { w with published := Function.update w.published (factory, roundId) true, token }

def depositAll (D : Deployment F T τ) (factory claimContract : Address) (amount : Nat) (roundId : Word)
    (commitments : List Word) (w : World T τ) : Except RailsError (World T τ) :=
  commitments.foldlM (fun w commitment => deposit D w factory claimContract commitment amount roundId) w

/-- What deposits for a round leave alone, and what they add up to. -/
structure DepositedAll (w w' : World T τ) (claimContract : Address) (total : Nat) (roundId : Word) : Prop where
  claims : w'.claims = w.claims
  published : w'.published = w.published
  timestamp : w'.timestamp = w.timestamp
  trees : ∀ c, c ≠ claimContract → w'.pool.trees c = w.pool.trees c
  commitmentIndex : ∀ c x, c ≠ claimContract → w'.pool.commitmentIndex (c, x) = w.pool.commitmentIndex (c, x)
  roots : ∀ c, c ≠ claimContract → w'.pool.roots c = w.pool.roots c
  roundClaimed : w'.pool.roundClaimed = w.pool.roundClaimed
  roundResidualPaid : w'.pool.roundResidualPaid = w.pool.roundResidualPaid
  spentClaimNullifiers : w'.pool.spentClaimNullifiers = w.pool.spentClaimNullifiers
  balance : w'.pool.balance = Function.update w.pool.balance claimContract
    (w.pool.balance claimContract + total)
  roundDeposit : w'.pool.roundDeposit = Function.update w.pool.roundDeposit (claimContract, roundId)
    (w.pool.roundDeposit (claimContract, roundId) + total)

theorem DepositedAll.refl : DepositedAll w w claimContract 0 roundId :=
  ⟨rfl, rfl, rfl, fun _ _ => rfl, fun _ _ _ => rfl, fun _ _ => rfl, rfl, rfl, rfl,
    (Function.update_eq_self ..).symm, (Function.update_eq_self ..).symm⟩

theorem DepositedAll.deposited {commitment : Word} {amount total : Nat} {token : τ} {tree : T}
    (h : DepositedAll (w.deposited D claimContract commitment amount roundId token tree) w' claimContract
      total roundId) : DepositedAll w w' claimContract (amount + total) roundId where
  claims := h.claims
  published := h.published
  timestamp := h.timestamp
  trees c hc := (h.trees c hc).trans (Function.update_of_ne hc ..)
  commitmentIndex c x hc := (h.commitmentIndex c x hc).trans
    (Function.update_of_ne (fun heq => hc (Prod.mk.inj heq).1) ..)
  roots c hc := (h.roots c hc).trans (Function.update_of_ne hc ..)
  roundClaimed := h.roundClaimed
  roundResidualPaid := h.roundResidualPaid
  spentClaimNullifiers := h.spentClaimNullifiers
  balance := by
    rw [h.balance]
    simp [World.deposited, Nat.add_assoc]
  roundDeposit := by
    rw [h.roundDeposit]
    simp [World.deposited, Nat.add_assoc]

theorem depositAll_ok {amount : Nat} {commitments : List Word}
    (h : depositAll D factory claimContract amount roundId commitments w = .ok w') :
    DepositedAll w w' claimContract (commitments.length * amount) roundId := by
  induction commitments generalizing w with
  | nil =>
    cases h
    rw [List.length_nil, Nat.zero_mul]
    exact .refl
  | cons commitment commitments ih =>
    rw [depositAll, List.foldlM_cons, bind_eq_ok] at h
    obtain ⟨w₁, hdeposit, hrest⟩ := h
    obtain ⟨token, tree, -, -, -, rfl⟩ := deposit_eq_ok.mp hdeposit
    rw [List.length_cons, Nat.succ_mul, Nat.add_comm]
    exact (ih hrest).deposited

theorem publishRound_eq_ok {h : RoundHeader} {commitments : List Word} :
    publishRound D w factory sender h commitments = .ok w' ↔
      Publishable D w factory sender h commitments ∧ ∃ token₁ token₂ w₂,
        D.token.transferFrom factory sender factory (h.perRecipientAmount * h.cohortSize) w.token =
          some token₁ ∧
        D.token.forceApprove factory D.poolAddress (h.perRecipientAmount * h.cohortSize) token₁ = some token₂ ∧
        depositAll D factory h.claimContractAddress h.perRecipientAmount h.roundId commitments
          (w.funded factory h.roundId token₂) = .ok w₂ ∧ registerHeader D w₂ factory h.claimContractAddress h
          (.ofNat (subTreeSize D w h.claimContractAddress)) = .ok w' := by
  simp only [publishRound, bind_eq_ok, failIf_eq_ok, okOr_eq_ok, exists_const, not_not, not_le,
    Bool.not_eq_true, checkedMul_eq_some]
  constructor
  · rintro ⟨hdecoded, hlt, hsender, hroot, hsize, hlength, hne, hamount, hchain, htoken, hcontract,
      hnew, _, ⟨htotal, rfl⟩, token₁, hpull, token₂, happrove, w₂, hdeposits, hregister⟩
    rw [← hcontract] at hdeposits hregister
    exact ⟨⟨hdecoded, hsender, hroot, hsize, hlength, hlt, hne, hamount, hchain, htoken, hcontract,
      hnew, htotal⟩, token₁, token₂, w₂, hpull, happrove, hdeposits, hregister⟩
  · rintro ⟨h, token₁, token₂, w₂, hpull, happrove, hdeposits, hregister⟩
    rw [← h.contract]
    exact ⟨h.decoded, h.length_lt, h.sender, h.cohortRoot, h.cohortSize, h.length, h.size_ne,
      h.amount_ne, h.chainId, h.token, rfl, h.unpublished, _, ⟨h.total, rfl⟩, token₁, hpull,
      token₂, happrove, w₂, hdeposits, hregister⟩

/-- Of the claim contracts, a publication changes the registrations of one. -/
theorem publishRound_claims {h : RoundHeader} {commitments : List Word}
    (ok : publishRound D w factory sender h commitments = .ok w') :
    ∃ first, w'.claims = Function.update w.claims h.claimContractAddress
      ((w.claims h.claimContractAddress).registered h first) := by
  obtain ⟨-, _, _, w₂, -, -, hdeposits, hregister⟩ := publishRound_eq_ok.mp ok
  have hclaims : w₂.claims = w.claims := (depositAll_ok hdeposits).claims
  obtain ⟨-, -, rfl⟩ := registerHeader_eq_ok.mp hregister
  rw [hclaims, World.setClaims, hclaims]
  exact ⟨_, rfl⟩

def World.published₁ (D : Deployment F T τ) (w : World T τ) (factory : Address) (h : RoundHeader)
    (commitment : Word) (token : τ) (tree : T) : World T τ :=
  ((w.funded factory h.roundId w.token).deposited D h.claimContractAddress commitment
    h.perRecipientAmount h.roundId token tree).setClaims h.claimContractAddress
      ((w.claims h.claimContractAddress).registered h (.ofNat (subTreeSize D w h.claimContractAddress)))

theorem publishRound_single {h : RoundHeader} {commitment : Word} {token₁ token₂ token₃ : τ} {tree : T}
    (hpublish : Publishable D w factory sender h [commitment])
    (hpull : D.token.transferFrom factory sender factory (h.perRecipientAmount * h.cohortSize) w.token =
      some token₁) (happrove : D.token.forceApprove factory D.poolAddress (h.perRecipientAmount * h.cohortSize)
      token₁ = some token₂)
    (hdeposit : Deposited D (w.funded factory h.roundId token₂) factory h.claimContractAddress
      commitment h.perRecipientAmount token₃ tree)
    (hbalance : w.pool.balance h.claimContractAddress + h.perRecipientAmount < 2 ^ 256)
    (hround : w.pool.roundDeposit (h.claimContractAddress, h.roundId) + h.perRecipientAmount < 2 ^ 256)
    (hfactory : factory = (D.claims h.claimContractAddress).factory)
    (hnew : (w.claims h.claimContractAddress).roundRegistered h.roundId = false) :
    publishRound D w factory sender h [commitment] = .ok (w.published₁ D factory h commitment token₃ tree) := by
  have hdeposits : depositAll D factory h.claimContractAddress h.perRecipientAmount h.roundId
      [commitment] (w.funded factory h.roundId token₂) = .ok ((w.funded factory h.roundId w.token).deposited
        D h.claimContractAddress commitment h.perRecipientAmount h.roundId token₃ tree) := by
    rw [depositAll, List.foldlM_cons, bind_eq_ok]
    exact ⟨_, deposit_eq_ok.mpr ⟨_, _, hdeposit, hbalance, hround, rfl⟩, rfl⟩
  exact publishRound_eq_ok.mpr ⟨hpublish, token₁, token₂, _, hpull, happrove, hdeposits,
    registerHeader_eq_ok.mpr ⟨hfactory, hnew, rfl⟩⟩

end Pocs.Rails
