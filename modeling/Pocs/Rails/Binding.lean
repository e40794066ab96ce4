import Pocs.Rails.Circuits
import Pocs.Rails.Rounds

/-! # What a claim proves

The verifiers accept canonical words that satisfy the circuits. The two proofs of a claim share no
witness, but both hash their keys and identifiers into its nullifier, so they are about the same card, the
same derived key, round, chain and contract (`claim_binds`). -/

namespace Pocs.Rails

open Compliance (BnField Word Address merkleHash ofAddress mem_of_merkleVerify merkleVerify_ofList)
open Swap (IdealHash)

variable {F T τ : Type} [BnField F]

/-- The field elements of the words of a claim. -/
def ClaimInputs.toPublic (pi : ClaimInputs) : ClaimPublic F where
  roundIdHi := Scalar.ofNat pi.roundIdHi
  roundIdLo := Scalar.ofNat pi.roundIdLo
  cohortRoot := Scalar.ofNat pi.cohortRoot
  chainIdHi := Scalar.ofNat pi.chainIdHi
  chainIdLo := Scalar.ofNat pi.chainIdLo
  destination := Scalar.ofNat pi.destination
  amount := Scalar.ofNat pi.amount
  nullifier := Scalar.ofNat pi.nullifier
  claimContractAddress := Scalar.ofNat pi.claimContractAddress
  relaySubmitter := Scalar.ofNat pi.relaySubmitter

def PoolInputs.toPublic (pi : PoolInputs) : WithdrawPublic F where
  poolRoot := Scalar.ofNat pi.poolRoot
  claimNullifier := Scalar.ofNat pi.claimNullifier
  token := Scalar.ofNat pi.token
  amount := Scalar.ofNat pi.amount
  recipient := Scalar.ofNat pi.recipient

/-- What the verifiers accept satisfies the circuits; words from the modulus on are rejected. -/
structure Deployment.Sound (D : Deployment F T τ) (P : Primitives) (hash : List F → F) : Prop where
  claim : ∀ {verifier proof} {pi : ClaimInputs}, D.verifyClaim verifier proof pi.toList = true →
    (∀ x ∈ pi.toList, BnField.canonical F x = true) ∧ ∃ wit, claimMain P hash pi.toPublic wit = .ok ()
  withdraw : ∀ {verifier proof} {pi : PoolInputs}, D.verifyPoolWithdraw verifier proof pi.toList = true →
      (∀ x ∈ pi.toList, BnField.canonical F x = true) ∧ ∃ wit, withdrawMain hash pi.toPublic wit = .ok ()

variable {P : Primitives} {hash : List F → F}

theorem SecpPubkey.derivedPacked_inj (H : IdealHash hash) {d d' : SecpPubkey}
    (h : d.derivedPacked hash = d'.derivedPacked hash) : d = d' := by
  obtain ⟨-, hxHi, hxLo, hyHi, hyLo⟩ := H.ideal.hash5_inj h
  have hx := limbs_inj hxHi hxLo
  have hy := limbs_inj hyHi hyLo
  cases d
  cases d'
  cases hx
  cases hy
  rfl

def claimNullifier (hash : List F → F) (m derived : SecpPubkey) (roundId chainId : Bytes 32)
    (claimContract : F) : F :=
  hashClaimNullifier hash (m.packed hash) (derived.derivedPacked hash)
    (packRoundId hash (limbHi roundId) (limbLo roundId)) claimContract
    (packChainId hash (limbHi chainId) (limbLo chainId))

/-- The nullifier determines all that it is made of. -/
theorem claimNullifier_inj (H : IdealHash hash) {m m' d d' : SecpPubkey}
    {roundId roundId' chainId chainId' : Bytes 32} {c c' : F}
    (h : claimNullifier hash m d roundId chainId c = claimNullifier hash m' d' roundId' chainId' c') :
    m = m' ∧ d = d' ∧ roundId = roundId' ∧ chainId = chainId' ∧ c = c' := by
  have hargs := H.inj (by simp) (by simp) (by simp) (by simp) h
  simp only [List.cons.injEq, and_true, true_and] at hargs
  obtain ⟨hm, hd, hround, hc, hchain⟩ := hargs
  obtain ⟨hroundHi, hroundLo⟩ := H.ideal.hash2_inj hround
  obtain ⟨hchainHi, hchainLo⟩ := H.ideal.hash2_inj hchain
  exact ⟨SecpPubkey.packed_inj H hm, SecpPubkey.derivedPacked_inj H hd, limbs_inj hroundHi hroundLo,
    limbs_inj hchainHi hchainLo, hc⟩

/-- The bytes whose halves are two limbs are those of the joined word. -/
theorem ofNat_of_joinLimbs {hi lo n : Word} (h : joinLimbs hi lo = .ok n) {b : Bytes 32}
    (hhi : (limbHi b : F) = Scalar.ofNat hi) (hlo : (limbLo b : F) = Scalar.ofNat lo) : b = .ofNat 32 n := by
  simp only [joinLimbs, bind_eq_ok, failIf_eq_ok, not_or, Nat.not_le, pure_eq_ok, exists_const] at h
  obtain ⟨⟨hhi_lt, hlo_lt⟩, rfl⟩ := h
  have hlarge : (2 : Nat) ^ 128 < 2 ^ 161 := by decide
  have hhi' := BnField.ofNat_inj ((beToNat_take_lt b).trans hlarge) (hhi_lt.trans hlarge) hhi
  have hlo' := BnField.ofNat_inj ((beToNat_drop_lt b).trans hlarge) (hlo_lt.trans hlarge) hlo
  have hsplit : b.toNat = beToNat (b.1.take 16 ++ b.1.drop 16) :=
    congrArg beToNat (List.take_append_drop 16 b.1).symm
  rw [beToNat_append, hhi', hlo', List.length_drop, b.2] at hsplit
  have hpow : 256 ^ (32 - 16) = 2 ^ 128 := by decide
  have hjoined : hi <<< 128 ||| lo = hi * 256 ^ (32 - 16) + lo := by
    rw [← Nat.shiftLeft_add_eq_or_of_lt hlo_lt, Nat.shiftLeft_eq, hpow]
  rw [hjoined, ← hsplit, Bytes.ofNat_toNat]

/-! ## Known roots -/

/-- Every root that proofs may use is one of a tree over the leaves. -/
def RootsSpan (D : Deployment F T τ) (hash : List F → F) (w : World T τ) : Prop :=
  ∀ c r, isKnownRoot w c r = true → Merkle.Spans (merkleHash hash) (leaves D w c) (Scalar.ofNat r)

section
variable {D : Deployment F T τ} {w w' w₀ : World T τ} {tr : List Step} {st : Step}

theorem RootsSpan.init (h₀ : Deployed D w₀) : RootsSpan D hash w₀ := by
  intro c r hr
  obtain ⟨verifier, hpool⟩ := h₀.pool
  rw [isKnownRoot, hpool] at hr
  cases hr

theorem RootsSpan.of_eq (inv : RootsSpan D hash w) (htrees : w'.pool.trees = w.pool.trees)
    (hroots : w'.pool.roots = w.pool.roots) : RootsSpan D hash w' := by
  intro c r hr
  rw [isKnownRoot, hroots] at hr
  rw [leaves, htrees]
  exact inv c r hr

theorem RootsSpan.deposited (hL : D.imt.Lawful (merkleHash hash)) (inv : RootsSpan D hash w)
    {factory claimContract : Address} {commitment roundId : Word} {amount : Nat} {token : τ} {tree : T}
    (h : Deposited D w factory claimContract commitment amount token tree) :
    RootsSpan D hash (w.deposited D claimContract commitment amount roundId token tree) := by
  obtain ⟨-, -, hleaves⟩ := hL.insert h.tree
  intro c r hr
  replace hr : (Function.update w.pool.roots claimContract ((w.pool.roots claimContract).record
    recentRootsWindow (Scalar.toNat (D.imt.root tree))) c).valid r = true := hr
  show Merkle.Spans _ (D.imt.leaves (Function.update w.pool.trees claimContract tree c)) _
  rcases eq_or_ne c claimContract with rfl | hne
  · rw [Function.update_self] at hr ⊢
    rcases RootRing.valid_of_record hr with rfl | hold
    · rw [BnField.ofNat_toNat]
      exact hL.root (by simp [hleaves])
    · rw [hleaves]
      exact (inv c r hold).mono (List.subset_append_left _ _)
  · rw [Function.update_of_ne hne] at hr ⊢
    exact inv c r hr

theorem RootsSpan.depositAll (hL : D.imt.Lawful (merkleHash hash)) {factory claimContract : Address}
    {commitments : List Word} {amount : Nat} {roundId : Word} (inv : RootsSpan D hash w)
    (h : depositAll D factory claimContract amount roundId commitments w = .ok w') : RootsSpan D hash w' := by
  induction commitments generalizing w with
  | nil =>
    cases h
    exact inv
  | cons commitment commitments ih =>
    rw [Rails.depositAll, List.foldlM_cons, bind_eq_ok] at h
    obtain ⟨w₁, hdeposit, hrest⟩ := h
    obtain ⟨token, tree, hdeposited, -, -, rfl⟩ := deposit_eq_ok.mp hdeposit
    exact ih (inv.deposited hL hdeposited) hrest

theorem RootsSpan.step (hL : D.imt.Lawful (merkleHash hash)) (inv : RootsSpan D hash w)
    (h : Transition D w st w') : RootsSpan D hash w' := by
  rcases h.publishes_or with ⟨sender, factory, header, commitments, paid, rfl, ok⟩ | ⟨hkept, -⟩
  · obtain ⟨-, _, token, w₂, -, -, hdeposits, hregister⟩ := publishRound_eq_ok.mp ok
    obtain ⟨-, -, rfl⟩ := registerHeader_eq_ok.mp hregister
    have hfunded : RootsSpan D hash (w.funded factory header.roundId token) := inv.of_eq rfl rfl
    exact (hfunded.depositAll hL hdeposits).of_eq rfl rfl
  · exact inv.of_eq hkept.trees hkept.roots

theorem RootsSpan.run (hL : D.imt.Lawful (merkleHash hash)) (h₀ : Deployed D w₀)
    (hrun : Run (Transition D) w₀ tr w) : RootsSpan D hash w :=
  @Run.invariant _ _ _ _ _ _ (fun _ w => RootsSpan D hash w) hrun (.init h₀)
    fun _ _ _ _ _ h inv => inv.step hL h

end

/-! ## Claims -/

def roundCommitment (hash : List F → F) (token : Address) (amount : Word) (m : SecpPubkey)
    (roundId : Word) : F :=
  hashPoolCommitment hash (ofAddress token) (Scalar.ofNat amount) (m.packed hash)
    (packRoundId hash (limbHi (.ofNat 32 roundId)) (limbLo (.ofNat 32 roundId)))

def payeeOf (P : Primitives) (derived : SecpPubkey) : Address := .ofNat 160 (ethAddress P derived).toNat

/-- The bytes that a key signs for a claim of a round. -/
def claimPreimage (D : Deployment F T τ) (claimContract : Address) (roundId : Word) (h : RoundHeader)
    (m derived : SecpPubkey) : List UInt8 :=
  voucherPreimage (.ofNat 32 roundId) (.ofNat 32 h.cohortRoot) (.ofNat 32 D.chainId) m derived
    (.ofNat 32 h.perRecipientAmount) (.ofNat 20 claimContract.toNat)

/-- What the claim proof of a claim shows of its keys. -/
structure Vouched (D : Deployment F T τ) (P : Primitives) (hash : List F → F) (claimContract : Address)
    (args : ClaimArgs) (roundId : Word) (h : RoundHeader) (m derived : SecpPubkey) : Prop where
  cohort : ∃ path, verifyMembershipCohort hash (m.packed hash) (Scalar.ofNat h.cohortRoot) path = .ok ()
  signed : ∃ r s, Signed P m (claimPreimage D claimContract roundId h m derived) r s
  destination : args.payee = payeeOf P derived
  nullifier : Scalar.ofNat args.claimPublicInputs.nullifier =
    claimNullifier hash m derived (.ofNat 32 roundId) (.ofNat 32 D.chainId) (ofAddress claimContract)

section
variable {D : Deployment F T τ} {w w' w₀ : World T τ} {tr : List Step} {claimContract sender : Address}
  {args : ClaimArgs} {roundId : Word} {h : RoundHeader}

/-- Whoever can prove the public inputs of a claim has the signature of a member of the cohort. -/
theorem Claimed.vouched (hclaim : Claimed D w claimContract sender args roundId h)
    (hcanonical : ∀ x ∈ args.claimPublicInputs.toList, BnField.canonical F x = true) {wit : ClaimWitness F}
    (hwit : claimMain P hash args.claimPublicInputs.toPublic wit = .ok ()) :
    ∃ m derived, wit.m = m.limbs ∧ wit.derivedPubkey = derived.limbs ∧
      Vouched D P hash claimContract args roundId h m derived := by
  obtain ⟨m, derived, roundBytes, chainBytes, hm, hderived, holds⟩ := claimMain_eq_ok.mp hwit
  obtain rfl := ofNat_of_joinLimbs (F := F) hclaim.decoded holds.roundIdHi holds.roundIdLo
  obtain rfl := ofNat_of_joinLimbs (F := F) hclaim.chainId holds.chainIdHi holds.chainIdLo
  have hvalue : ∀ x ∈ args.claimPublicInputs.toList, Scalar.toNat (Scalar.ofNat x : F) = x :=
    fun x hx => BnField.toNat_ofNat_of_canonical (hcanonical x hx)
  have hroot := hvalue args.claimPublicInputs.cohortRoot (by simp [ClaimInputs.toList])
  have hamount := hvalue args.claimPublicInputs.amount (by simp [ClaimInputs.toList])
  have hcontract := hvalue args.claimPublicInputs.claimContractAddress (by simp [ClaimInputs.toList])
  have hsigned := holds.signed
  have hcohort := holds.cohort
  have hnullifier := holds.nullifier
  simp only [ClaimInputs.toPublic] at hsigned hcohort hnullifier
  rw [hroot, hamount, hcontract, hclaim.cohortRoot, hclaim.amount, hclaim.contract] at hsigned
  rw [hclaim.cohortRoot] at hcohort
  rw [hclaim.contract] at hnullifier
  refine ⟨m, derived, hm, hderived, ⟨_, hcohort⟩, ⟨_, _, hsigned⟩, ?_, hnullifier⟩
  have hlt : (ethAddress P derived).toNat < 2 ^ 161 := (ethAddress P derived).toNat_lt.trans (by decide)
  have hdestination := BnField.ofNat_inj (hclaim.destination.trans (by decide)) hlt holds.destination
  rw [ClaimArgs.payee, payeeOf, hdestination]

end

/-- What both proofs of a claim are about. -/
structure Bound (D : Deployment F T τ) (P : Primitives) (hash : List F → F) (w w' : World T τ)
    (claimContract sender : Address) (args : ClaimArgs) (roundId : Word) (h : RoundHeader)
    (m derived : SecpPubkey) : Prop where
  decoded : decodeRoundId args.claimPublicInputs = .ok roundId
  registered : (w.claims claimContract).roundRegistered roundId = true
  header : (w.claims claimContract).header roundId = h
  cohort : ∃ path, verifyMembershipCohort hash (m.packed hash) (Scalar.ofNat h.cohortRoot) path = .ok ()
  root : isKnownRoot w claimContract args.poolPublicInputs.poolRoot = true
  pool : ∃ path, verifyMembershipPool hash (roundCommitment hash D.tokenAddress h.perRecipientAmount m roundId)
    (Scalar.ofNat args.poolPublicInputs.poolRoot) path = .ok ()
  /-- The path starts at a leaf, unless an inner node has been deposited for a leaf. -/
  leaf : (∀ y ∈ leaves D w claimContract, ∀ l r, y ≠ merkleHash hash l r) →
    roundCommitment hash D.tokenAddress h.perRecipientAmount m roundId ∈ leaves D w claimContract
  signed : ∃ r s, Signed P m (claimPreimage D claimContract roundId h m derived) r s
  paid : D.token.transfer D.poolAddress (payeeOf P derived) h.perRecipientAmount w.token = some w'.token
  relay : args.claimPublicInputs.relaySubmitter = sender.toNat
  /-- No other witnesses make proofs of these inputs. -/
  claimWitness : ∀ wit, claimMain P hash args.claimPublicInputs.toPublic wit = .ok () →
    wit.m = m.limbs ∧ wit.derivedPubkey = derived.limbs
  withdrawWitness : ∀ wit, withdrawMain hash args.poolPublicInputs.toPublic wit = .ok () →
    wit.m = m.limbs ∧ wit.derivedPubkey = derived.limbs ∧
      (wit.roundIdHi = limbHi (.ofNat 32 roundId) ∧ wit.roundIdLo = limbLo (.ofNat 32 roundId)) ∧
      (wit.chainIdHi = limbHi (.ofNat 32 D.chainId) ∧ wit.chainIdLo = limbLo (.ofNat 32 D.chainId)) ∧
      wit.claimContract = ofAddress claimContract

/-- A claim that succeeds in a state that is reached is one of a card of the cohort, for which its leaf
was deposited and which has signed for its payee. -/
theorem claim_binds {D : Deployment F T τ} (H : IdealHash hash) (hL : D.imt.Lawful (merkleHash hash))
    (hS : D.Sound P hash) {w₀ w w' : World T τ} {tr : List Step} (h₀ : Deployed D w₀)
    (hrun : Run (Transition D) w₀ tr w) {claimContract sender : Address} {args : ClaimArgs}
    (ok : claim D w claimContract sender args = .ok w') :
    ∃ roundId h m derived, Bound D P hash w w' claimContract sender args roundId h m derived := by
  obtain ⟨roundId, h, token, hclaim, hunshield, -, rfl⟩ := claim_eq_ok.mp ok
  obtain ⟨hcanonical, wit, hwit⟩ := hS.claim hclaim.proof
  obtain ⟨-, wit', hwit'⟩ := hS.withdraw hunshield.proof
  obtain ⟨m, derived, -, -, hvouched⟩ := hclaim.vouched hcanonical hwit
  have hinputs := hclaim.poolInputs
  have hvouched_inj : ∀ {m' derived' : SecpPubkey} {roundId' chainId' : Bytes 32} {c : F},
      Scalar.ofNat args.claimPublicInputs.nullifier =
        claimNullifier hash m' derived' roundId' chainId' c → m = m' ∧ derived = derived' ∧
        .ofNat 32 roundId = roundId' ∧ .ofNat 32 D.chainId = chainId' ∧
        ofAddress claimContract = c :=
    fun heq => claimNullifier_inj H (hvouched.nullifier.symm.trans heq)
  -- the nullifier, which both proofs have computed, links their keys
  have hwithdraw : ∀ wit, withdrawMain hash args.poolPublicInputs.toPublic wit = .ok () →
      (wit.m = m.limbs ∧ wit.derivedPubkey = derived.limbs ∧
        (wit.roundIdHi = limbHi (.ofNat 32 roundId) ∧ wit.roundIdLo = limbLo (.ofNat 32 roundId)) ∧
        (wit.chainIdHi = limbHi (.ofNat 32 D.chainId) ∧ wit.chainIdLo = limbLo (.ofNat 32 D.chainId)) ∧
        wit.claimContract = ofAddress claimContract) ∧
      verifyMembershipPool hash (roundCommitment hash D.tokenAddress h.perRecipientAmount m roundId)
        (Scalar.ofNat args.poolPublicInputs.poolRoot) wit.path = .ok () := by
    intro wit hwit
    obtain ⟨m', derived', roundBytes, chainBytes, hm, hderived, hround, hchain, holds⟩ :=
      withdrawMain_eq_ok.mp hwit
    have hnullifier := holds.nullifier
    have hcommitment := holds.commitment
    rw [hinputs] at hnullifier hcommitment
    obtain ⟨rfl, rfl, rfl, rfl, hcontract⟩ := hvouched_inj hnullifier
    exact ⟨⟨hm, hderived, hround, hchain, hcontract.symm⟩, hcommitment⟩
  obtain ⟨-, hpool⟩ := hwithdraw wit' hwit'
  refine ⟨roundId, h, m, derived,
    { decoded := hclaim.decoded
      registered := hclaim.registered
      header := hclaim.header
      cohort := hvouched.cohort
      root := hclaim.root
      pool := ⟨_, hpool⟩
      leaf := fun hleaves => ?_
      signed := hvouched.signed
      paid := hvouched.destination ▸ hunshield.token
      relay := hclaim.relaySubmitter
      claimWitness := fun wit hwit => ?_
      withdrawWitness := fun wit hwit => (hwithdraw wit hwit).1 }⟩
  · have hspans := RootsSpan.run hL h₀ hrun claimContract _ hclaim.root
    refine mem_of_merkleVerify H.ideal hleaves (verifyMembership_eq_ok.mp hpool) hspans fun l r => ?_
    exact H.ideal.ne_of_length (by simp) (by simp) (by simp) (by simp) (by simp)
  · obtain ⟨m', derived', hm, hderived, hvouched'⟩ := hclaim.vouched hcanonical hwit
    obtain ⟨rfl, rfl, -, -, -⟩ := hvouched_inj hvouched'.nullifier
    exact ⟨hm, hderived⟩

/-! ## A card that claims twice -/

/-- The verifiers accept what satisfies the circuits, whatever the proof. -/
structure Deployment.Accepts (D : Deployment F T τ) (P : Primitives) (hash : List F → F) : Prop where
  claim : ∀ {verifier proof} {pi : ClaimInputs}, D.verifyClaim verifier proof pi.toList = true ↔
    ∃ wit, claimMain P hash pi.toPublic wit = .ok ()
  withdraw : ∀ {verifier proof} {pi : PoolInputs},
    D.verifyPoolWithdraw verifier proof pi.toList = true ↔ ∃ wit, withdrawMain hash pi.toPublic wit = .ok ()

theorem ClaimInputs.toList_inj {pi pi' : ClaimInputs} (h : pi.toList = pi'.toList) : pi = pi' := by
  cases pi
  cases pi'
  simpa [toList] using h

theorem PoolInputs.toList_inj {pi pi' : PoolInputs} (h : pi.toList = pi'.toList) : pi = pi' := by
  cases pi
  cases pi'
  simpa [toList] using h

namespace Binding.Sample

open Compliance (idealHash)
open Rounds.Sample (node)

def card : SecpPubkey := ⟨.zero 32, .zero 32⟩

def primitives : Primitives where
  sha256Compression _ state := state
  keccakf1600 state := state
  verifySignature x y _ _ := decide (x = card.x ∧ y = card.y)

open Classical in
noncomputable def deployment : Deployment Unbounded (List Unbounded) (Address → Nat) where
  imt := listImt node
  chainId := 1
  governance := 1
  poolAddress := 2
  tokenAddress := 3
  token := ledgerErc20 Address
  factories _ := ⟨4, 5⟩
  claims _ := ⟨6, 7, 5, 8⟩
  verifyClaim _ _ words := decide (∃ pi wit, ClaimInputs.toList pi = words ∧
    claimMain primitives idealHash pi.toPublic wit = .ok ())
  verifyPoolWithdraw _ _ words := decide (∃ pi wit, PoolInputs.toList pi = words ∧
    withdrawMain idealHash pi.toPublic wit = .ok ())

theorem accepts : deployment.Accepts primitives idealHash where
  claim {verifier proof pi} := by
    refine (@decide_eq_true_iff _ (Classical.propDecidable _)).trans ⟨?_, ?_⟩
    · rintro ⟨pi', wit, hwords, hwit⟩
      rw [← ClaimInputs.toList_inj hwords]
      exact ⟨wit, hwit⟩
    · rintro ⟨wit, hwit⟩
      exact ⟨pi, wit, rfl, hwit⟩
  withdraw {verifier proof pi} := by
    refine (@decide_eq_true_iff _ (Classical.propDecidable _)).trans ⟨?_, ?_⟩
    · rintro ⟨pi', wit, hwords, hwit⟩
      rw [← PoolInputs.toList_inj hwords]
      exact ⟨wit, hwit⟩
    · rintro ⟨wit, hwit⟩
      exact ⟨pi, wit, rfl, hwit⟩

theorem sound : deployment.Sound primitives idealHash where
  claim h := ⟨fun _ _ => rfl, accepts.claim.mp h⟩
  withdraw h := ⟨fun _ _ => rfl, accepts.withdraw.mp h⟩

def header (roundId : Word) : RoundHeader := ⟨roundId, 1, 679, 1, 1, 3, 10, 4, 1⟩

def commitment (roundId : Word) : Unbounded := roundCommitment idealHash 3 1 card roundId

noncomputable def world : World (List Unbounded) (Address → Nat) where
  blockNumber := 0
  timestamp := 0
  registry := ⟨1, fun _ => 679, fun _ => 1, 10, 0, 0⟩
  published _ := false
  claims _ := .new
  pool := ShieldedPool.new deployment 7
  token a := if a = 5 then 2 else 0

theorem deployed : Deployed deployment world :=
  ⟨⟨7, rfl⟩, fun _ => rfl, fun _ => rfl⟩

noncomputable def wired : World (List Unbounded) (Address → Nat) :=
  { world with pool := { world.pool with authorizedFactory := 6 } }

noncomputable def published : World (List Unbounded) (Address → Nat) :=
  wired.published₁ deployment 6 (header 1) (commitment 1).val
    (moved (moved wired.token 5 6 1) 6 2 1) [commitment 1]

/-- Two rounds were published. -/
noncomputable def republished : World (List Unbounded) (Address → Nat) :=
  published.published₁ deployment 6 (header 2) (commitment 2).val
    (moved (moved published.token 5 6 1) 6 2 1) [commitment 1, commitment 2]

theorem publish_first : publishRound deployment wired 6 5 (header 1) [(commitment 1).val] = .ok published := by
  exact publishRound_single
    ⟨by decide, rfl, rfl, rfl, rfl, by decide, by decide, by decide, rfl, rfl, rfl, rfl, by decide⟩
    rfl rfl ⟨rfl, by decide, rfl, rfl, rfl, rfl⟩ (by decide) (by decide) rfl rfl

theorem publish_second :
    publishRound deployment published 6 5 (header 2) [(commitment 2).val] = .ok republished := by
  exact publishRound_single
    ⟨by decide, rfl, rfl, rfl, rfl, by decide, by decide, by decide, rfl, rfl, rfl, rfl, by decide⟩
    rfl rfl ⟨rfl, by decide, rfl, rfl, rfl, rfl⟩ (by decide) (by decide) rfl rfl

def steps : List Step :=
  [.call 5 (.publishRound 6 (header 2) [(commitment 2).val]) 0,
    .call 5 (.publishRound 6 (header 1) [(commitment 1).val]) 0,
    .call 1 (.governance (.initAuthorizedFactory 6)) 0]

theorem wired_run : Run (Transition deployment) world
    [.call 1 (.governance (.initAuthorizedFactory 6)) 0] wired :=
  .cons .nil (@Transition.call _ _ _ _ deployment world 1 (.governance (.initAuthorizedFactory 6)) wired
    rfl (by decide) trivial)

theorem publications_run : Run (Transition deployment) world steps republished := by
  have hfirst := wired_run.cons (.call (c := .publishRound 6 (header 1) [(commitment 1).val]) publish_first
    (by decide) (show (6 : Address) ≠ 2 by decide))
  exact hfirst.cons (.call (c := .publishRound 6 (header 2) [(commitment 2).val]) publish_second
    (by decide) (show (6 : Address) ≠ 2 by decide))

def derived (n : Nat) : SecpPubkey := ⟨.ofNat 32 n, .zero 32⟩

def nullifier (n : Nat) : Word :=
  (claimNullifier idealHash card (derived n) (.ofNat 32 1) (.ofNat 32 1) (ofAddress 4)).val

/-- The claim of the card for the first round with the `n`-th derived key, against a root of the pool. -/
def argsAt (root : Word) (n : Nat) : ClaimArgs where
  claimProof := []
  claimPublicInputs := ⟨0, 1, 679, 0, 1, (ethAddress primitives (derived n)).toNat, 1, nullifier n, 4, 9⟩
  poolWithdrawProof := []
  poolPublicInputs := ⟨root, nullifier n, 3, 1, (ethAddress primitives (derived n)).toNat⟩

/-- The claim against the root that is the leaf of the card. -/
def args (n : Nat) : ClaimArgs := argsAt (commitment 1).val n

theorem claim_satisfied (n : Nat) : claimMain primitives idealHash (args n).claimPublicInputs.toPublic
    ⟨(derived n).limbs, card.limbs, .zero 32, .zero 32, .ofList []⟩ = .ok () := by
  refine claimMain_eq_ok.mpr ⟨card, derived n, .ofNat 32 1, .ofNat 32 1, rfl, rfl, ?_⟩
  exact ⟨rfl, rfl, rfl, rfl, show 679 < 256 ^ 32 by decide, show 1 < 256 ^ 32 by decide,
    show 4 < 2 ^ 160 by decide, show 9 < 2 ^ 160 by decide,
    verifyMembership_eq_ok.mpr ((merkleVerify_ofList (Nat.zero_le _)).mpr rfl), ⟨rfl, rfl⟩, rfl, rfl⟩

theorem withdraw_satisfied {root : Word} {path : List (Bool × Unbounded)} (hlen : path.length ≤ 32)
    (hpath : Merkle.foldPath node (commitment 1) path = Scalar.ofNat root) (n : Nat) :
    withdrawMain idealHash (argsAt root n).poolPublicInputs.toPublic
      ⟨card.limbs, (derived n).limbs, 0, Scalar.ofNat 1, 0, Scalar.ofNat 1, ofAddress 4, .ofList path⟩ =
        .ok () := by
  refine withdrawMain_eq_ok.mpr ⟨card, derived n, .ofNat 32 1, .ofNat 32 1, rfl, rfl, ⟨rfl, rfl⟩,
    ⟨rfl, rfl⟩, ?_⟩
  exact ⟨Compliance.toNat_ofAddress_lt 4, show 3 < 2 ^ 160 by decide, (ethAddress primitives (derived n)).toNat_lt,
    verifyMembership_eq_ok.mpr ((merkleVerify_ofList hlen).mpr hpath), rfl⟩

noncomputable def claimed (w : World (List Unbounded) (Address → Nat)) (n : Nat) :
    World (List Unbounded) (Address → Nat) :=
  (w.setClaims 4 ((w.claims 4).consumed 1 (nullifier n))).unshielded 4 (nullifier n) 1 1
    (moved w.token 2 (args n).payee 1)

/-- Another claim of the first round can be paid, against a root which the card's leaf leads to. -/
structure Open (poolRoot : Word) (w : World (List Unbounded) (Address → Nat)) : Prop where
  registered : (w.claims 4).roundRegistered 1 = true
  header : (w.claims 4).header 1 = header 1
  timestamp : w.timestamp = 0
  root : isKnownRoot w 4 poolRoot = true
  path : ∃ path : List (Bool × Unbounded), path.length ≤ 32 ∧
    Merkle.foldPath node (commitment 1) path = Scalar.ofNat poolRoot
  count : (w.claims 4).nullifiersConsumedCount 1 ≤ 1
  roundClaimed : w.pool.roundClaimed (4, 1) ≤ 1
  balance : 1 ≤ w.pool.balance 4
  token : 1 ≤ w.token 2

theorem joinLimbs_one : joinLimbs 0 1 = .ok 1 := by rfl

theorem claim_ok {root : Word} {w : World (List Unbounded) (Address → Nat)} (h : Open root w) (n : Nat)
    (hfresh : (w.claims 4).nullifierConsumed (nullifier n) = false)
    (hunspent : w.pool.spentClaimNullifiers (nullifier n) = false) :
    claim deployment w 4 9 (argsAt root n) = .ok (claimed w n) := by
  obtain ⟨path, hlen, hpath⟩ := h.path
  have hdestination : (ethAddress primitives (derived n)).toNat < 2 ^ 160 :=
    (ethAddress primitives (derived n)).toNat_lt
  have hcount := h.count
  have hclaimed := h.roundClaimed
  have hclaim : Claimed deployment w 4 9 (argsAt root n) 1 (header 1) :=
    { decoded := joinLimbs_one
      registered := h.registered
      header := h.header
      timely := by rw [h.timestamp]; decide
      chainId := joinLimbs_one
      headerChainId := rfl
      cohortRoot := rfl
      amount := rfl
      contract := rfl
      relaySubmitter := rfl
      destination := hdestination
      poolInputs := rfl
      root := h.root
      fresh := hfresh
      proof := accepts.claim.mpr ⟨_, claim_satisfied n⟩
      count := by omega }
  have hunshield : Unshielded deployment w 4 [] (argsAt root n).poolPublicInputs 1 (args n).payee
      (moved w.token 2 (args n).payee 1) :=
    { fresh := hunspent
      root := h.root
      balance := h.balance
      proof := accepts.withdraw.mpr ⟨_, withdraw_satisfied hlen hpath n⟩
      inputs := ⟨rfl, rfl, (@ClaimArgs.payee_toNat (args n) hdestination).symm⟩
      token := ledger_transfer h.token }
  have hlt : w.pool.roundClaimed (4, 1) + 1 < 2 ^ 256 := by omega
  exact claim_eq_ok.mpr ⟨1, header 1, _, hclaim, hunshield, hlt, rfl⟩

theorem open_republished : Open (commitment 1).val republished where
  registered := rfl
  header := rfl
  timestamp := rfl
  root := rfl
  path := ⟨[], Nat.zero_le _, rfl⟩
  count := by decide
  roundClaimed := by decide
  balance := by decide
  token := by decide

theorem claim_first : claim deployment republished 4 9 (args 5) = .ok (claimed republished 5) :=
  claim_ok open_republished 5 rfl rfl

theorem nullifier_ne : nullifier 6 ≠ nullifier 5 := by
  intro h
  obtain ⟨-, hderived, -⟩ := claimNullifier_inj Swap.idealHash_poseidon (@Scalar.toNat_inj Unbounded _ _ _ h)
  exact absurd hderived (by decide)

theorem claim_second :
    claim deployment (claimed republished 5) 4 9 (args 6) = .ok (claimed (claimed republished 5) 6) := by
  refine claim_ok ⟨rfl, rfl, rfl, rfl, ⟨[], Nat.zero_le _, rfl⟩, by decide, by decide, by decide, by decide +kernel⟩ 6 ?_ ?_
  · exact Function.update_of_ne nullifier_ne true (republished.claims 4).nullifierConsumed
  · exact Function.update_of_ne nullifier_ne true republished.pool.spentClaimNullifiers

/-- The card claims for two derived keys. -/
theorem claims_run : Run (Transition deployment) world
    (.call 9 (.claim 4 (args 6)) 1 :: .call 9 (.claim 4 (args 5)) 1 :: steps)
    (claimed (claimed republished 5) 6) := by
  have hfirst := publications_run.cons (.call (c := .claim 4 (args 5)) claim_first (by decide) trivial)
  exact hfirst.cons (.call (c := .claim 4 (args 6)) claim_second (by decide) trivial)

/-- An inner node over the leaf of the card is published for its leaf. -/
noncomputable def publishedNode : World (List Unbounded) (Address → Nat) :=
  wired.published₁ deployment 6 (header 1) (node (commitment 1) 0).val
    (moved (moved wired.token 5 6 1) 6 2 1) [node (commitment 1) 0]

theorem publish_node :
    publishRound deployment wired 6 5 (header 1) [(node (commitment 1) 0).val] = .ok publishedNode := by
  exact publishRound_single
    ⟨by decide, rfl, rfl, rfl, rfl, by decide, by decide, by decide, rfl, rfl, rfl, rfl, by decide⟩
    rfl rfl ⟨rfl, by decide, rfl, rfl, rfl, rfl⟩ (by decide) (by decide) rfl rfl

theorem node_run : Run (Transition deployment) world
    [.call 5 (.publishRound 6 (header 1) [(node (commitment 1) 0).val]) 0,
      .call 1 (.governance (.initAuthorizedFactory 6)) 0] publishedNode :=
  wired_run.cons (.call (c := .publishRound 6 (header 1) [(node (commitment 1) 0).val]) publish_node
    (by decide) (show (6 : Address) ≠ 2 by decide))

theorem open_publishedNode : Open (node (commitment 1) 0).val publishedNode where
  registered := rfl
  header := rfl
  timestamp := rfl
  root := rfl
  path := ⟨[(false, 0)], by decide, rfl⟩
  count := by decide
  roundClaimed := by decide
  balance := by decide
  token := by decide

/-- No commitment is an inner node. -/
theorem roundCommitment_ne_node (token : Address) (amount : Word) (m : SecpPubkey) (roundId : Word)
    (l r : Unbounded) : roundCommitment idealHash token amount m roundId ≠ merkleHash idealHash l r :=
  fun h => by simpa using congrArg List.length (Compliance.idealHash_injective h)

end Binding.Sample

open Binding.Sample in
/-- The card claims the one token of a round, for which its leaf was deposited. -/
theorem claim_binds_sample : ∃ roundId h m derived, Bound deployment primitives Compliance.idealHash
    republished (claimed republished 5) 4 9 (args 5) roundId h m derived ∧
    roundCommitment Compliance.idealHash 3 h.perRecipientAmount m roundId ∈ leaves deployment republished 4 := by
  obtain ⟨roundId, h, m, derived, hbound⟩ :=
    claim_binds Swap.idealHash_poseidon listImt_lawful sound deployed publications_run claim_first
  refine ⟨roundId, h, m, derived, hbound, hbound.leaf fun y hy l r => ?_⟩
  have hleaves : leaves deployment republished 4 = [commitment 1, commitment 2] := rfl
  rw [hleaves, List.mem_pair] at hy
  rcases hy with rfl | rfl
  · exact roundCommitment_ne_node 3 1 card 1 l r
  · exact roundCommitment_ne_node 3 1 card 2 l r

open Binding.Sample in
/-- A card claims below an inner node that was published for a leaf: no key has a commitment that is a
leaf of the pool. -/
theorem claim_below_leaf : deployment.Accepts primitives Compliance.idealHash ∧
    IdealHash Compliance.idealHash ∧ deployment.imt.Lawful (merkleHash Compliance.idealHash) ∧
    Deployed deployment world ∧ ∃ tr w w' args, Run (Transition deployment) world tr w ∧
      claim deployment w 4 9 args = .ok w' ∧ decodeRoundId args.claimPublicInputs = .ok 1 ∧
      (w.claims 4).header 1 = header 1 ∧ ∀ m, roundCommitment Compliance.idealHash
        deployment.tokenAddress (header 1).perRecipientAmount m 1 ∉ leaves deployment w 4 := by
  refine ⟨accepts, Swap.idealHash_poseidon, listImt_lawful, deployed, _, _, _, _, node_run,
    claim_ok open_publishedNode 5 rfl rfl, joinLimbs_one, rfl, fun m hm => ?_⟩
  have hleaves : leaves deployment publishedNode 4 = [Rounds.Sample.node (commitment 1) 0] := rfl
  rw [hleaves, List.mem_singleton] at hm
  exact roundCommitment_ne_node _ _ m 1 _ _ hm

end Pocs.Rails
