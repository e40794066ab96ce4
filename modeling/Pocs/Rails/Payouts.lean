import Pocs.Rails.Accounting

/-! # One payout per signed key

The nullifier of a claim is made of the key of a card and of the derived key that the card has signed. A
card is paid once for each derived key that it signs for a round (`payouts_bounded`): once, if it derives
one key and signs no other. -/

namespace Pocs.Rails

open Compliance (Address Word BnField merkleHash ofAddress mem_of_merkleVerify)
open Swap (IdealHash)
open World

variable {F T τ : Type} [BnField F]

/-! ## The claims of a run -/

def Step.claimed (claimContract : Address) : Step → List ClaimArgs
  | .call _ (.claim claimContract' args) _ => if claimContract' = claimContract then [args] else []
  | _ => []

def claimsOf (claimContract : Address) (tr : List Step) : List ClaimArgs :=
  tr.flatMap (Step.claimed claimContract)

def ClaimArgs.nullifier (args : ClaimArgs) : Word := args.claimPublicInputs.nullifier

def ClaimArgs.For (roundId : Word) (args : ClaimArgs) : Prop :=
  (decodeRoundId args.claimPublicInputs).toOption = some roundId

instance (roundId : Word) : DecidablePred (ClaimArgs.For roundId) :=
  fun _ => inferInstanceAs (Decidable (_ = _))

theorem ClaimArgs.for_iff {roundId : Word} {args : ClaimArgs} :
    args.For roundId ↔ decodeRoundId args.claimPublicInputs = .ok roundId := by
  rw [For]
  cases decodeRoundId args.claimPublicInputs <;> simp [Except.toOption]

def roundClaims (claimContract : Address) (roundId : Word) (tr : List Step) : List ClaimArgs :=
  (claimsOf claimContract tr).filter fun args => args.For roundId

variable {P : Primitives} {hash : List F → F}

/-- Every proof of the inputs is one about a member of the cohort, with its signature. -/
structure Accepted (D : Deployment F T τ) (P : Primitives) (hash : List F → F) (claimContract : Address)
    (args : ClaimArgs) (roundId : Word) (h : RoundHeader) : Prop where
  decoded : decodeRoundId args.claimPublicInputs = .ok roundId
  canonical : BnField.canonical F args.nullifier = true
  provable : ∃ wit : ClaimWitness F, claimMain P hash args.claimPublicInputs.toPublic wit = .ok ()
  vouched : ∀ wit : ClaimWitness F, claimMain P hash args.claimPublicInputs.toPublic wit = .ok () →
    ∃ m derived, wit.m = m.limbs ∧ wit.derivedPubkey = derived.limbs ∧
      Vouched D P hash claimContract args roundId h m derived

structure ClaimsInv (D : Deployment F T τ) (P : Primitives) (hash : List F → F) (tr : List Step)
    (w : World T τ) : Prop where
  consumed : ∀ c n, (w.claims c).nullifierConsumed n = true ↔ n ∈ (claimsOf c tr).map ClaimArgs.nullifier
  nodup : ∀ c, ((claimsOf c tr).map ClaimArgs.nullifier).Nodup
  accepted : ∀ c, ∀ args ∈ claimsOf c tr, ∃ roundId, (w.claims c).roundRegistered roundId = true ∧
      Accepted D P hash c args roundId ((w.claims c).header roundId)
  count : ∀ c roundId, (w.claims c).nullifiersConsumedCount roundId = (roundClaims c roundId tr).length

section
variable {D : Deployment F T τ} {w w' w₀ : World T τ} {tr : List Step} {st : Step}

theorem ClaimsInv.init (h₀ : Deployed D w₀) : ClaimsInv D P hash [] w₀ where
  consumed c n := by simp [h₀.claims, ClaimContract.new, claimsOf]
  nodup c := List.nodup_nil
  accepted := by simp [claimsOf]
  count c roundId := by simp [h₀.claims, ClaimContract.new, roundClaims, claimsOf]

/-- A step that claims nothing. -/
structure ClaimsKept (w w' : World T τ) : Prop where
  nullifierConsumed : ∀ c, (w'.claims c).nullifierConsumed = (w.claims c).nullifierConsumed
  nullifiersConsumedCount : ∀ c, (w'.claims c).nullifiersConsumedCount = (w.claims c).nullifiersConsumedCount
  registered : ∀ c roundId, (w.claims c).roundRegistered roundId = true →
    (w'.claims c).roundRegistered roundId = true ∧ (w'.claims c).header roundId = (w.claims c).header roundId

theorem ClaimsInv.kept (inv : ClaimsInv D P hash tr w) (h : ClaimsKept w w')
    (hst : ∀ c, st.claimed c = []) : ClaimsInv D P hash (st :: tr) w' := by
  have hclaims : ∀ c, claimsOf c (st :: tr) = claimsOf c tr := by
    intro c
    rw [claimsOf, List.flatMap_cons, hst, List.nil_append, claimsOf]
  refine ⟨fun c n => ?_, fun c => ?_, fun c args hargs => ?_, fun c roundId => ?_⟩
  · rw [hclaims, h.nullifierConsumed]
    exact inv.consumed c n
  · rw [hclaims]
    exact inv.nodup c
  · rw [hclaims] at hargs
    obtain ⟨roundId, hregistered, haccepted⟩ := inv.accepted c args hargs
    obtain ⟨hregistered', hheader⟩ := h.registered c roundId hregistered
    exact ⟨roundId, hregistered', hheader ▸ haccepted⟩
  · rw [roundClaims, hclaims, h.nullifiersConsumedCount]
    exact inv.count c roundId

theorem ClaimsInv.claim (hS : D.Sound P hash) (inv : ClaimsInv D P hash tr w)
    {claimContract sender : Address} {args : ClaimArgs} {paid : Nat}
    (ok : claim D w claimContract sender args = .ok w') :
    ClaimsInv D P hash (.call sender (.claim claimContract args) paid :: tr) w' := by
  obtain ⟨roundId, h, token, hclaim, -, -, rfl⟩ := claim_eq_ok.mp ok
  obtain ⟨hcanonical, hprovable⟩ := hS.claim hclaim.proof
  obtain rfl := hclaim.header
  have haccepted : Accepted D P hash claimContract args roundId ((w.claims claimContract).header roundId) :=
    ⟨hclaim.decoded, hcanonical _ (by simp [ClaimInputs.toList, ClaimArgs.nullifier]), hprovable,
      fun wit hwit => hclaim.vouched hcanonical hwit⟩
  have hself : claimsOf claimContract (.call sender (.claim claimContract args) paid :: tr) =
      args :: claimsOf claimContract tr := by
    rw [claimsOf, List.flatMap_cons, Step.claimed, if_pos rfl]
    rfl
  have hother : ∀ c, c ≠ claimContract →
      claimsOf c (.call sender (.claim claimContract args) paid :: tr) = claimsOf c tr := by
    intro c hc
    rw [claimsOf, List.flatMap_cons, Step.claimed, if_neg (Ne.symm hc)]
    rfl
  refine ⟨fun c n => ?_, fun c => ?_, fun c args' hargs => ?_, fun c roundId' => ?_⟩
  · rw [unshielded_claims]
    rcases eq_or_ne c claimContract with rfl | hc
    · rw [hself, List.map_cons, List.mem_cons, setClaims_self, ← inv.consumed]
      rcases eq_or_ne n args.nullifier with rfl | hn
      · exact iff_of_true (Function.update_self ..) (.inl rfl)
      · rw [or_iff_right hn]
        exact iff_of_eq (congrArg (· = true) (Function.update_of_ne hn ..))
    · rw [hother c hc, setClaims_of_ne hc]
      exact inv.consumed c n
  · rcases eq_or_ne c claimContract with rfl | hc
    · rw [hself, List.map_cons, List.nodup_cons, ← inv.consumed, ClaimArgs.nullifier, hclaim.fresh]
      exact ⟨Bool.noConfusion, inv.nodup c⟩
    · rw [hother c hc]
      exact inv.nodup c
  · rw [unshielded_claims]
    rcases eq_or_ne c claimContract with rfl | hc
    · rw [setClaims_self]
      rw [hself] at hargs
      rcases List.mem_cons.mp hargs with rfl | hargs
      · exact ⟨roundId, hclaim.registered, haccepted⟩
      · exact inv.accepted c args' hargs
    · rw [setClaims_of_ne hc]
      rw [hother c hc] at hargs
      exact inv.accepted c args' hargs
  · rw [unshielded_claims]
    rcases eq_or_ne c claimContract with rfl | hc
    · rw [roundClaims, hself, setClaims_self]
      rcases eq_or_ne roundId' roundId with rfl | hround
      · have hfor : args.For roundId' := ClaimArgs.for_iff.mpr hclaim.decoded
        simp only [List.filter_cons, hfor, decide_true, if_true, List.length_cons]
        exact (Function.update_self ..).trans (congrArg (· + 1) (inv.count c roundId'))
      · have hfor : ¬ args.For roundId' := by
          rw [ClaimArgs.for_iff, hclaim.decoded]
          exact fun heq => hround (Except.ok.inj heq).symm
        simp only [List.filter_cons, hfor, decide_false, Bool.false_eq_true, if_false]
        exact (Function.update_of_ne hround ..).trans (inv.count c roundId')
    · rw [roundClaims, hother c hc, setClaims_of_ne hc]
      exact inv.count c roundId'

theorem RoundsKept.claimsKept (h : RoundsKept w w')
    (hconsumed : ∀ c, (w'.claims c).nullifierConsumed = (w.claims c).nullifierConsumed)
    (hcount : ∀ c, (w'.claims c).nullifiersConsumedCount = (w.claims c).nullifiersConsumedCount) :
    ClaimsKept w w' where
  nullifierConsumed := hconsumed
  nullifiersConsumedCount := hcount
  registered c roundId hregistered := by
    rw [h.roundRegistered, h.header]
    exact ⟨hregistered, rfl⟩

theorem publishRound_claimsKept {factory sender : Address} {h : RoundHeader} {commitments : List Word}
    (ok : publishRound D w factory sender h commitments = .ok w') : ClaimsKept w w' := by
  have hnew : (w.claims h.claimContractAddress).roundRegistered h.roundId = false := by
    obtain ⟨-, _, _, w₂, -, -, hdeposits, hregister⟩ := publishRound_eq_ok.mp ok
    have hclaims : w₂.claims = w.claims := (depositAll_ok hdeposits).claims
    rw [← hclaims]
    exact (registerHeader_eq_ok.mp hregister).2.1
  obtain ⟨first, hclaims⟩ := publishRound_claims ok
  have hcases : ∀ c, w'.claims c = w.claims c ∨
      c = h.claimContractAddress ∧ w'.claims c = (w.claims c).registered h first := by
    intro c
    rw [hclaims]
    rcases eq_or_ne c h.claimContractAddress with rfl | hc
    · exact .inr ⟨rfl, Function.update_self ..⟩
    · exact .inl (Function.update_of_ne hc ..)
  refine ⟨fun c => ?_, fun c => ?_, fun c roundId hregistered => ?_⟩
  · rcases hcases c with heq | ⟨-, heq⟩ <;> rw [heq]
    rfl
  · rcases hcases c with heq | ⟨-, heq⟩ <;> rw [heq]
    rfl
  · rcases hcases c with heq | ⟨rfl, heq⟩ <;> rw [heq]
    · exact ⟨hregistered, rfl⟩
    · -- the round that is registered now is another one
      have hne : roundId ≠ h.roundId := by
        rintro rfl
        rw [hnew] at hregistered
        cases hregistered
      exact ⟨(Function.update_of_ne hne ..).trans hregistered, Function.update_of_ne hne ..⟩

omit [BnField F] in
theorem funderUnshieldResidual_claimsKept {claimContract sender : Address} {roundId : Word}
    (ok : funderUnshieldResidual D w claimContract sender roundId = .ok w') : ClaimsKept w w' := by
  have hkept := funderUnshieldResidual_roundsKept ok
  obtain ⟨-, -, -, -, -, w₁, unclaimed, hw₁, -, hpaid⟩ := funderUnshieldResidual_ok ok
  have hclaims : w'.claims = w₁.claims := by
    rcases hpaid with ⟨-, rfl⟩ | ⟨-, hrecover⟩
    · rfl
    · obtain ⟨token, -, -, -, -, rfl⟩ := recoverResidual_eq_ok.mp hrecover
      rfl
  rw [hw₁] at hclaims
  refine hkept.claimsKept (fun c => ?_) fun c => ?_ <;>
    rw [hclaims] <;> rcases eq_or_ne c claimContract with rfl | hc
  · rw [setClaims_self]
  · rw [setClaims_of_ne hc]
  · rw [setClaims_self]
  · rw [setClaims_of_ne hc]

theorem ClaimsInv.step (hS : D.Sound P hash) (inv : ClaimsInv D P hash tr w)
    (h : Transition D w st w') : ClaimsInv D P hash (st :: tr) w' := by
  cases h with
  | @call sender c w' ok =>
    cases c with
    | publishRound => exact inv.kept (publishRound_claimsKept ok) fun _ => rfl
    | claim => exact inv.claim hS ok
    | funderUnshieldResidual => exact inv.kept (funderUnshieldResidual_claimsKept ok) fun _ => rfl
    | governance =>
      simp only [Call.run, bind_eq_ok, pure_eq_ok] at ok
      obtain ⟨pool, -, rfl⟩ := ok
      exact inv.kept ⟨fun _ => rfl, fun _ => rfl, fun _ _ h => ⟨h, rfl⟩⟩ fun _ => rfl
    | registry =>
      simp only [Call.run, bind_eq_ok, pure_eq_ok] at ok
      obtain ⟨registry, -, rfl⟩ := ok
      exact inv.kept ⟨fun _ => rfl, fun _ => rfl, fun _ _ h => ⟨h, rfl⟩⟩ fun _ => rfl
  | reverted | tick | elsewhere =>
    exact inv.kept ⟨fun _ => rfl, fun _ => rfl, fun _ _ h => ⟨h, rfl⟩⟩ fun _ => rfl

theorem ClaimsInv.run (hS : D.Sound P hash) (h₀ : Deployed D w₀) (hrun : Run (Transition D) w₀ tr w) :
    ClaimsInv D P hash tr w :=
  hrun.invariant (ClaimsInv.init h₀) fun _ _ _ _ _ h inv => inv.step hS h

/-- The nullifiers of claims differ, so there are at most as many claims as signed pairs of keys. -/
theorem ClaimsInv.length_le (inv : ClaimsInv D P hash tr w) {c : Address} {roundId : Word} {h : RoundHeader}
    {claims : List ClaimArgs} (hsub : claims.Sublist (roundClaims c roundId tr))
    {S : Finset (SecpPubkey × SecpPubkey)}
    (hS : ∀ args ∈ claims, ∃ k ∈ S, Vouched D P hash c args roundId h k.1 k.2) : claims.length ≤ S.card := by
  have hclaims : claims.Sublist (claimsOf c tr) := hsub.trans List.filter_sublist
  have hnodup := (inv.nodup c).sublist (hclaims.map ClaimArgs.nullifier)
  have himage : (claims.map ClaimArgs.nullifier).toFinset ⊆ S.image fun k =>
      Scalar.toNat (claimNullifier hash k.1 k.2 (.ofNat 32 roundId) (.ofNat 32 D.chainId) (ofAddress c)) := by
    intro n hn
    obtain ⟨args, hargs, rfl⟩ := List.mem_map.mp (List.mem_toFinset.mp hn)
    obtain ⟨k, hk, hvouched⟩ := hS args hargs
    obtain ⟨_, -, haccepted⟩ := inv.accepted c args (hclaims.subset hargs)
    exact Finset.mem_image.mpr ⟨k, hk, (BnField.eq_toNat haccepted.canonical hvouched.nullifier).symm⟩
  calc claims.length = (claims.map ClaimArgs.nullifier).toFinset.card := by
        rw [List.toFinset_card_of_nodup hnodup, List.length_map]
    _ ≤ S.card := (Finset.card_le_card himage).trans Finset.card_image_le

/-- The keys of a claim for a round, with the header of the round. -/
theorem ClaimsInv.vouched (inv : ClaimsInv D P hash tr w) {c : Address} {roundId : Word}
    {args : ClaimArgs} (hargs : args ∈ roundClaims c roundId tr) : (w.claims c).roundRegistered roundId = true ∧
      Accepted D P hash c args roundId ((w.claims c).header roundId) := by
  obtain ⟨hmem, hfor⟩ := List.mem_filter.mp hargs
  obtain ⟨roundId', hregistered, haccepted⟩ := inv.accepted c args hmem
  have hdecoded := ClaimArgs.for_iff.mp (of_decide_eq_true hfor)
  obtain rfl := Except.ok.inj (haccepted.decoded.symm.trans hdecoded)
  exact ⟨hregistered, haccepted⟩

end

/-! ## Cards -/

theorem SecpPubkey.limbs_inj {m m' : SecpPubkey} (h : (m.limbs : KeyLimbs F) = m'.limbs) : m = m' := by
  obtain ⟨hxHi, hxLo, hyHi, hyLo⟩ := KeyLimbs.mk.inj h
  have hx := Rails.limbs_inj hxHi hxLo
  have hy := Rails.limbs_inj hyHi hyLo
  cases m
  cases m'
  cases hx
  cases hy
  rfl

/-- There is a signature of the card on the voucher of the round for the derived key. -/
def SignedFor (D : Deployment F T τ) (P : Primitives) (claimContract : Address) (roundId : Word)
    (h : RoundHeader) (m derived : SecpPubkey) : Prop :=
  ∃ r s, Signed P m (claimPreimage D claimContract roundId h m derived) r s

/-- The card signs for one derived key only. -/
def SignsOnce (D : Deployment F T τ) (P : Primitives) (claimContract : Address) (roundId : Word)
    (h : RoundHeader) (m : SecpPubkey) : Prop :=
  ∀ derived derived', SignedFor D P claimContract roundId h m derived →
    SignedFor D P claimContract roundId h m derived' → derived = derived'

/-- The claim can be proved with the card. -/
def ClaimArgs.Uses (P : Primitives) (hash : List F → F) (args : ClaimArgs) (m : SecpPubkey) : Prop :=
  ∃ wit : ClaimWitness F, claimMain P hash args.claimPublicInputs.toPublic wit = .ok () ∧ wit.m = m.limbs

structure RoundHeader.Cohort (hash : List F → F) (h : RoundHeader) (members : List SecpPubkey) : Prop where
  root : Merkle.leanRoot (merkleHash hash) (members.map fun m => m.packed hash) =
    some (Scalar.ofNat h.cohortRoot)
  size : members.length = h.cohortSize

/-- What was paid in a round. -/
structure Payouts (D : Deployment F T τ) (P : Primitives) (hash : List F → F) (tr : List Step)
    (w : World T τ) (c : Address) (roundId : Word) (h : RoundHeader) : Prop where
  count : (w.claims c).nullifiersConsumedCount roundId = (roundClaims c roundId tr).length
  claimed : w.pool.roundClaimed (c, roundId) = (roundClaims c roundId tr).length * h.perRecipientAmount
  /-- A card is paid at most once for each derived key that it signs. -/
  perKey : ∀ (m : SecpPubkey) (keys : Finset SecpPubkey),
    (∀ derived, SignedFor D P c roundId h m derived → derived ∈ keys) →
      ∀ claims : List ClaimArgs, claims.Sublist (roundClaims c roundId tr) → (∀ args ∈ claims, args.Uses P hash m) →
        claims.length ≤ keys.card
  once : ∀ m, SignsOnce D P c roundId h m →
    ∀ claims : List ClaimArgs, claims.Sublist (roundClaims c roundId tr) → (∀ args ∈ claims, args.Uses P hash m) →
      claims.length ≤ 1
  cohort : ∀ members, h.Cohort hash members → (∀ m ∈ members, SignsOnce D P c roundId h m) →
    (w.claims c).nullifiersConsumedCount roundId ≤ h.cohortSize ∧
      w.pool.roundClaimed (c, roundId) ≤ w.pool.roundDeposit (c, roundId)

section
variable {D : Deployment F T τ} {w : World T τ} {tr : List Step} {c : Address} {roundId : Word}

theorem ClaimsInv.perKey (inv : ClaimsInv D P hash tr w) {m : SecpPubkey} (keys : Finset SecpPubkey)
    (hkeys : ∀ derived, SignedFor D P c roundId ((w.claims c).header roundId) m derived → derived ∈ keys)
    {claims : List ClaimArgs} (hsub : claims.Sublist (roundClaims c roundId tr))
    (huses : ∀ args ∈ claims, args.Uses P hash m) : claims.length ≤ keys.card := by
  have hpairs : ∀ args ∈ claims, ∃ k ∈ keys.image fun derived => (m, derived),
      Vouched D P hash c args roundId ((w.claims c).header roundId) k.1 k.2 := by
    intro args hargs
    obtain ⟨wit, hwit, hm⟩ := huses args hargs
    obtain ⟨-, haccepted⟩ := inv.vouched (hsub.subset hargs)
    obtain ⟨m', derived, hm', -, hvouched⟩ := haccepted.vouched wit hwit
    obtain rfl := SecpPubkey.limbs_inj (hm.symm.trans hm')
    exact ⟨_, Finset.mem_image_of_mem _ (hkeys derived hvouched.signed), hvouched⟩
  exact (inv.length_le hsub hpairs).trans Finset.card_image_le

/-- The card of a claim is one of the cohort. -/
theorem Vouched.mem (H : IdealHash hash) {args : ClaimArgs} {h : RoundHeader} {m derived : SecpPubkey}
    (hvouched : Vouched D P hash c args roundId h m derived) {members : List SecpPubkey}
    (hcohort : h.Cohort hash members) : m ∈ members := by
  obtain ⟨path, hpath⟩ := hvouched.cohort
  have hpacked : ∀ (m : SecpPubkey) (l r : F), m.packed hash ≠ merkleHash hash l r :=
    fun m l r => H.ideal.ne_of_length (by simp) (by simp) (by simp) (by simp) (by simp)
  have hleaves : ∀ y ∈ members.map (fun m => m.packed hash), ∀ l r, y ≠ merkleHash hash l r := by
    intro y hy
    obtain ⟨m', -, rfl⟩ := List.mem_map.mp hy
    exact hpacked m'
  obtain ⟨m', hm', heq⟩ := List.mem_map.mp (mem_of_merkleVerify H.ideal hleaves
    (verifyMembership_eq_ok.mp hpath) (.of_leanRoot hcohort.root) (hpacked m))
  exact SecpPubkey.packed_inj H heq ▸ hm'

theorem ClaimsInv.cohort (H : IdealHash hash) (inv : ClaimsInv D P hash tr w) {members : List SecpPubkey}
    (hcohort : ((w.claims c).header roundId).Cohort hash members)
    (honce : ∀ m ∈ members, SignsOnce D P c roundId ((w.claims c).header roundId) m) :
    (roundClaims c roundId tr).length ≤ members.length := by
  classical
  -- the derived key that a card has signed for
  let pair (m : SecpPubkey) : SecpPubkey × SecpPubkey :=
    (m, if hm : ∃ derived, SignedFor D P c roundId ((w.claims c).header roundId) m derived
      then hm.choose else m)
  have hpairs : ∀ args ∈ roundClaims c roundId tr, ∃ k ∈ members.toFinset.image pair,
      Vouched D P hash c args roundId ((w.claims c).header roundId) k.1 k.2 := by
    intro args hargs
    obtain ⟨-, haccepted⟩ := inv.vouched hargs
    obtain ⟨wit, hwit⟩ := haccepted.provable
    obtain ⟨m, derived, -, -, hvouched⟩ := haccepted.vouched wit hwit
    have hm := hvouched.mem H hcohort
    have hsigned : ∃ derived, SignedFor D P c roundId ((w.claims c).header roundId) m derived :=
      ⟨derived, hvouched.signed⟩
    have hpair : pair m = (m, derived) := by
      show (m, _) = _
      rw [dif_pos hsigned, honce m hm _ _ hsigned.choose_spec hvouched.signed]
    refine ⟨pair m, Finset.mem_image_of_mem _ (List.mem_toFinset.mpr hm), ?_⟩
    rw [hpair]
    exact hvouched
  exact (inv.length_le (.refl _) hpairs).trans (Finset.card_image_le.trans members.toFinset_card_le)

end

/-- Over verifiers that accept only what satisfies the circuits, a card is paid for a round once for each
derived key that it signs; a cohort whose cards sign one each is not paid for more than its size. -/
theorem payouts_bounded {D : Deployment F T τ} (H : IdealHash hash) (hS : D.Sound P hash)
    (hE : D.token.Exact) {w₀ w : World T τ} {tr : List Step} (h₀ : Deployed D w₀)
    (hrun : Run (Transition D) w₀ tr w) (c : Address) (roundId : Word) :
    Payouts D P hash tr w c roundId ((w.claims c).header roundId) := by
  have inv := ClaimsInv.run hS h₀ hrun
  have accounts := AccountsInv.run hE h₀ hrun
  have hclaimed := accounts.claimed c roundId
  refine
    { count := inv.count c roundId
      claimed := by rw [← inv.count, hclaimed]
      perKey := fun m keys hkeys claims hsub huses => inv.perKey keys hkeys hsub huses
      once := fun m honce claims hsub huses => ?_
      cohort := fun members hcohort honce => ?_ }
  · by_cases hsigned : ∃ derived, SignedFor D P c roundId ((w.claims c).header roundId) m derived
    · obtain ⟨derived, hderived⟩ := hsigned
      refine inv.perKey {derived} (fun derived' h => ?_) hsub huses
      exact Finset.mem_singleton.mpr (honce _ _ h hderived)
    · refine (inv.perKey ∅ (fun derived h => ?_) hsub huses).trans (Nat.zero_le 1)
      exact absurd ⟨derived, h⟩ hsigned
  · have hcount : (w.claims c).nullifiersConsumedCount roundId ≤ ((w.claims c).header roundId).cohortSize := by
      rw [inv.count, ← hcohort.size]
      exact inv.cohort H hcohort honce
    refine ⟨hcount, ?_⟩
    rcases Bool.eq_false_or_eq_true ((w.claims c).roundRegistered roundId) with hround | hround
    · exact (Nat.le_add_right _ _).trans (accounts.within hround hcount)
    · rw [hclaimed, (accounts.unregistered c roundId hround).2.1, Nat.zero_mul]
      exact Nat.zero_le _

namespace Binding.Sample

theorem roundClaims_eq : roundClaims 4 1 (.call 9 (.claim 4 (args 6)) 1 ::
    .call 9 (.claim 4 (args 5)) 1 :: steps) = [args 6, args 5] := by
  have hfor : ∀ n, (args n).For 1 := fun n => ClaimArgs.for_iff.mpr joinLimbs_one
  show [args 6, args 5].filter (fun args => args.For 1) = _
  rw [List.filter_eq_self]
  intro a ha
  simp only [List.mem_cons, List.not_mem_nil, or_false] at ha
  rcases ha with rfl | rfl
  · exact decide_eq_true (hfor 6)
  · exact decide_eq_true (hfor 5)

theorem uses (n : Nat) : (args n).Uses primitives Compliance.idealHash card :=
  ⟨_, claim_satisfied n, rfl⟩

theorem header_cohort : (header 1).Cohort Compliance.idealHash [card] := ⟨rfl, rfl⟩

end Binding.Sample

open Binding.Sample in
theorem payouts_bounded_sample : Payouts deployment primitives Compliance.idealHash
    (.call 9 (.claim 4 (args 6)) 1 :: .call 9 (.claim 4 (args 5)) 1 :: steps)
    (claimed (claimed republished 5) 6) 4 1 (header 1) :=
  payouts_bounded Swap.idealHash_poseidon sound (ledgerErc20_exact _) deployed claims_run 4 1

open Binding.Sample in
/-- A card that signs for two derived keys is paid twice, from the deposit of another round. -/
theorem card_claims_twice : deployment.Accepts primitives Compliance.idealHash ∧
    IdealHash Compliance.idealHash ∧ Deployed deployment world ∧
    ∃ tr w, Run (Transition deployment) world tr w ∧ (w.claims 4).header 1 = header 1 ∧
      (header 1).Cohort Compliance.idealHash [card] ∧
      (∀ args ∈ roundClaims 4 1 tr, args.Uses primitives Compliance.idealHash card) ∧
      (roundClaims 4 1 tr).length = 2 ∧ (header 1).cohortSize < (w.claims 4).nullifiersConsumedCount 1 ∧
      w.pool.roundDeposit (4, 1) < w.pool.roundClaimed (4, 1) := by
  refine ⟨accepts, Swap.idealHash_poseidon, deployed, _, _, claims_run, rfl, header_cohort, ?_, ?_,
    by decide, by decide⟩
  · rw [roundClaims_eq]
    intro a ha
    simp only [List.mem_cons, List.not_mem_nil, or_false] at ha
    rcases ha with rfl | rfl
    · exact uses 6
    · exact uses 5
  · rw [roundClaims_eq]
    rfl

end Pocs.Rails
