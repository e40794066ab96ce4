import Pocs.Compliance.Honest
import Pocs.Mmf.Multiplier

/-! # Honest operations of the fund

With verifiers that accept what the circuits can prove (`Deployment.Complete`), the pool accepts a
deposit or a withdrawal that its circuit proves and that agrees with the chain. `Sample` is a
deployment with real points of the register's curve, and a deposit followed by a withdrawal. -/

namespace Pocs.Mmf

open Compliance (BnField Word Address Ideal merkleHash merkleVerify merkleVerify_ofList ofU64 ofAddress
  uint256Max accepts accepts_iff idealHash)
open AttestationRegistry

section
variable {F T τ : Type} [FeedField F] {D : Deployment F T τ} {w : World T τ} {sender : Address}

/-- Each verifier accepts what its circuit can prove. -/
structure Deployment.Complete (D : Deployment F T τ) : Prop where
  deposit : ∀ verifier proof {inputs pub wit}, inputs.map Scalar.ofNat = DepositPublic.toFields pub →
    depositMain D.toPrimitives pub wit = .ok () → D.verifyDeposit verifier proof inputs = true
  transfer : ∀ verifier proof {inputs pub wit}, inputs.map Scalar.ofNat = TransferPublic.toFields pub →
    transferMain D.toPrimitives pub wit = .ok () → D.verifyTransfer verifier proof inputs = true
  withdraw : ∀ verifier proof {inputs pub wit}, inputs.map Scalar.ofNat = WithdrawPublic.toFields pub →
    withdrawMain D.toPrimitives pub wit = .ok () → D.verifyWithdraw verifier proof inputs = true

theorem ofU64_ofNat {n : Nat} (h : n < 2 ^ 64) : (ofU64 (.ofNat n) : F) = Scalar.ofNat n := by
  rw [ofU64, UInt64.toNat_ofNat_of_lt' h]

theorem DepositParams.inputs_toPublic {p : DepositParams} (h : p.epoch < 2 ^ 64) :
    (p.inputs D w sender).map Scalar.ofNat = (p.toPublic D w sender).toFields := by
  simp only [inputs, DepositPublic.toFields, toPublic, List.map_append, List.map_ofFn, List.map_cons,
    List.map_nil, ofU64_ofNat h]
  rfl

theorem TransferParams.inputs_toPublic {p : TransferParams} (h : p.epoch < 2 ^ 64) :
    (p.inputs D w).map Scalar.ofNat = (p.toPublic D w).toFields := by
  simp only [inputs, TransferPublic.toFields, toPublic, List.map_append, List.map_ofFn, List.map_cons,
    List.map_nil, ofU64_ofNat h]
  rfl

theorem WithdrawParams.inputs_toPublic {p : WithdrawParams} (h : p.epoch < 2 ^ 64) :
    (p.inputs D w).map Scalar.ofNat = (p.toPublic D w).toFields := by
  simp only [inputs, WithdrawPublic.toFields, toPublic, List.map_cons, List.map_nil, ofU64_ofNat h]
  rfl

/-! ## Acceptance -/

def World.deposited (D : Deployment F T τ) (w : World T τ) (units : UInt64) (tree : T) (token : τ)
    (last : Nat) : World T τ :=
  { w with
    pool := { recordRoot D { w.pool with tree } with
      totalUnits := w.pool.totalUnits + units.toNat
      lastMultiplier := last }
    token }

omit [FeedField F] in
theorem settleMultiplier_eq {m last : Nat} (hlast : multiplier D w = .ok last)
    (hle : w.pool.totalUnits ≠ 0 → m ≤ last) :
    settleMultiplier D w m = .ok (w.setPool { w.pool with lastMultiplier := last }) := by
  have hnot : ¬ (w.pool.totalUnits ≠ 0 ∧ last < m) := fun h => absurd (hle h.1) (Nat.not_le.mpr h.2)
  rw [settleMultiplier, hlast, ok_bind, failIf_neg hnot]
  rfl

theorem deposit_complete (hC : D.Complete) {p : DepositParams} {wit : DepositWitness F} {tree : T}
    {token : τ} {m shares last : Nat}
    (hmain : depositMain D.toPrimitives (p.toPublic D w sender) wit = .ok ()) (hlt : p.epoch < 2 ^ 64)
    (hopen : w.pool.pausedUntilEpoch ≤ w.epoch D)
    (hcanonical : ∀ n ∈ p.inputs D w sender, BnField.canonical F n = true) (hunits : p.units ≠ 0)
    (hagent : w.pool.totalUnits = 0 → sender = w.pool.transferAgent) (hepoch : p.epoch = w.epoch D)
    (hpoint : onGrumpkin p.feedR = true)
    (hroot : w.registry.isKnownAttestationRoot D.toRegistryConfig p.attestationRoot = true)
    (hm : checkedMultiplier D w = .ok m)
    (htree : D.imt.insert (Scalar.ofNat p.commitment) w.pool.tree = .ok tree)
    (htotal : w.pool.totalUnits + p.units.toNat < 2 ^ 256)
    (hshares : mulDivUp p.units.toNat m multiplierScale = .ok shares)
    (hpaid : D.token.transferFrom D.address sender D.address shares w.token = some token)
    (hlast : multiplier D (w.deposited D p.units tree token w.pool.lastMultiplier) = .ok last)
    (hle : m ≤ last) : deposit D w sender p = .ok (w.deposited D p.units tree token last,
      [.deposit p.commitment p.units shares p.feedR p.feedCt p.recipientPayload]) := by
  have hins : insertAll D w.pool [p.commitment] = .ok { w.pool with tree } := by
    simp only [insertAll, List.map_cons, List.map_nil, List.foldlM_cons, List.foldlM_nil, bind_eq_ok,
      mapErr_eq_ok, pure_eq_ok]
    exact ⟨tree, ⟨tree, htree, rfl⟩, rfl⟩
  have hproof := hC.deposit w.pool.verifier p.proof (DepositParams.inputs_toPublic hlt) hmain
  simp only [deposit, requireNotPaused, checkEpoch, checkFeedPoint, checkAttestationRoot, bind_eq_ok,
    failIf_eq_ok, requireCanonical_eq_ok, okOr_eq_ok, checkedAdd_eq_some, pure_eq_ok, exists_const,
    not_not, not_and, not_lt, Bool.not_eq_false, Prod.mk.injEq]
  exact ⟨hopen, hcanonical, hunits, hagent, hepoch, hpoint, hroot, m, hm, hproof, _, hins, _,
    ⟨htotal, rfl⟩, shares, hshares, token, hpaid, _, settleMultiplier_eq hlast fun _ => hle, rfl, rfl⟩

def World.withdrawn (w : World T τ) (nullifier : Word) (units : UInt64) (token : τ) (last : Nat) : World T τ :=
  { w with
    pool := { w.pool.markAll [nullifier] with
      totalUnits := w.pool.totalUnits - units.toNat
      lastMultiplier := last }
    token }

theorem withdraw_complete (hC : D.Complete) {p : WithdrawParams} {wit : WithdrawWitness F}
    {token : τ} {m shares last : Nat}
    (hmain : withdrawMain D.toPrimitives (p.toPublic D w) wit = .ok ()) (hlt : p.epoch < 2 ^ 64)
    (hopen : w.pool.pausedUntilEpoch ≤ w.epoch D)
    (hcanonical : ∀ n ∈ p.inputs D w, BnField.canonical F n = true) (hunits : p.units ≠ 0)
    (hrecipient : p.recipient ≠ 0) (hepoch : p.epoch = w.epoch D)
    (hfresh : w.pool.nullifiers p.nullifier = false) (hknown : isKnownRoot D w p.commitmentRoot = true)
    (hroot : w.registry.isKnownAttestationRoot D.toRegistryConfig p.attestationRoot = true)
    (hm : checkedMultiplier D w = .ok m) (htotal : p.units.toNat ≤ w.pool.totalUnits)
    (hshares : mulDiv p.units.toNat m multiplierScale = .ok shares)
    (hpaid : D.token.transfer D.address p.recipient shares w.token = some token)
    (hlast : multiplier D (w.withdrawn p.nullifier p.units token w.pool.lastMultiplier) = .ok last)
    (hle : w.pool.totalUnits - p.units.toNat ≠ 0 → m ≤ last) : withdraw D w p =
      .ok (w.withdrawn p.nullifier p.units token last, [.withdraw p.nullifier p.recipient p.units shares]) := by
  have hproof := hC.withdraw w.pool.verifier p.proof (WithdrawParams.inputs_toPublic hlt) hmain
  simp only [withdraw, requireNotPaused, checkEpoch, checkAttestationRoot, bind_eq_ok, failIf_eq_ok,
    requireCanonical_eq_ok, okOr_eq_ok, pure_eq_ok, exists_const, not_not, not_lt,
    Bool.not_eq_false, Bool.not_eq_true, Prod.mk.injEq]
  exact ⟨hopen, hcanonical, hunits, hrecipient, hepoch, hfresh, hknown, hroot, m, hm, hproof, htotal,
    shares, hshares, token, hpaid, _, settleMultiplier_eq hlast hle, rfl, rfl⟩

end

/-! ## A deployment -/

namespace Sample

/-- Multiples of the generator: those that the sample uses are points of Grumpkin, the others stand
for themselves. -/
def words : Nat → Word × Word
  | 1 => (1, 17631683881184975370165255887551781615748388533673675138860)
  | 2 => (3078034153852398078128400807926804309327113743808504829582559963737223069694,
      12696890884641142049456609402511852099066095483298083855939691685001536962732)
  | 3 => (18660890509582237958343981571981920822503400000196279471655180441138020044621,
      8902249110305491597038405103722863701255802573786510474664632793109847672620)
  | 6 => (7786041651712952323865544323473263410636019205571843419816422718643402458906,
      18036943110916577130921083970592721762498477202928970540848920468708869100152)
  | n => (n, 0)

def dlog (p : Unbounded × Unbounded) : Nat :=
  if p.2.val = 0 then p.1.val
  else if p.1.val = (words 1).1 then 1
  else if p.1.val = (words 2).1 then 2
  else if p.1.val = (words 3).1 then 3
  else 6

theorem dlog_words (n : Nat) : dlog (pointOf (words n)) = n := by
  unfold words
  split
  · rfl
  · rfl
  · rfl
  · rfl
  · rfl

def curve : Curve Unbounded where
  generator := pointOf (words 1)
  mul s p := pointOf (words (s * dlog p))

theorem fixedBaseMul_eq (s : Nat) : curve.fixedBaseMul s = pointOf (words s) := by
  show pointOf (words (s * dlog (pointOf (words 1)))) = _
  rw [dlog_words, Nat.mul_one]

theorem mul_eq (s t : Nat) : curve.mul s (pointOf (words t)) = pointOf (words (s * t)) := by
  show pointOf (words (s * dlog (pointOf (words t)))) = _
  rw [dlog_words]

theorem commutes : curve.Commutes := fun a b => by
  rw [fixedBaseMul_eq, fixedBaseMul_eq, mul_eq, mul_eq, Nat.mul_comm]

/-- The investor's keys: the transfer agent itself. -/
def ownerKey : SpendKey := ⟨⟨List.replicate 32 1, rfl⟩, ⟨List.replicate 32 2, rfl⟩⟩

def nk : Unbounded := ⟨5⟩

/-- The owner signs the plans it is shown, and nobody else does. -/
def signs (key : SpendKey) (_ : Plan Unbounded) : Prop := key = ownerKey

theorem signs_all (plan : Plan Unbounded) : signs ownerKey plan := rfl

variable (hash : List Unbounded → Unbounded) (signed : SpendKey → Plan Unbounded → Prop)

noncomputable def primitives : Primitives Unbounded where
  hash := hash
  sponge := hash
  curve := curve
  ecdsa key _ digest := accepts (∃ plan, signed key plan ∧ hash plan.message = digest)

noncomputable def deployment : Deployment Unbounded (LeanImtTree (merkleHash hash)) (Address → Nat) where
  toPrimitives := primitives hash signed
  imt := leanImt (merkleHash hash)
  epochSeconds := 86400
  maxAttestationEpochs := 30
  overlapEpochs := 3
  minBatchSize := 1
  chainId := 1
  address := 10
  tokenAddress := 9
  token := ledger Address
  maxPauseEpochs := 2
  pauseBudgetEpochs := 4
  pauseWindowEpochs := 30
  keccak256 _ := 0
  hasCode _ := true
  verifyDeposit _ _ inputs := accepts (∃ pub wit, inputs.map Scalar.ofNat = DepositPublic.toFields pub ∧
      depositMain (primitives hash signed) pub wit = .ok ())
  verifyTransfer _ _ inputs := accepts (∃ pub wit, inputs.map Scalar.ofNat = TransferPublic.toFields pub ∧
      transferMain (primitives hash signed) pub wit = .ok ())
  verifyWithdraw _ _ inputs := accepts (∃ pub wit, inputs.map Scalar.ofNat = WithdrawPublic.toFields pub ∧
      withdrawMain (primitives hash signed) pub wit = .ok ())

noncomputable abbrev sample := deployment idealHash signs

variable {signed}

theorem sound : (deployment hash signed).Sound where
  deposit h := accepts_iff.mp h
  transfer h := accepts_iff.mp h
  withdraw h := accepts_iff.mp h

theorem complete : (deployment hash signed).Complete where
  deposit _ _ _ _ _ hinputs hmain := accepts_iff.mpr ⟨_, _, hinputs, hmain⟩
  transfer _ _ _ _ _ hinputs hmain := accepts_iff.mpr ⟨_, _, hinputs, hmain⟩
  withdraw _ _ _ _ _ hinputs hmain := accepts_iff.mpr ⟨_, _, hinputs, hmain⟩

theorem lawful : (deployment hash signed).imt.Lawful (merkleHash (deployment hash signed).hash) :=
  leanImt_lawful

/-! ### The registry and the pool -/

def agent : Address := 12
def attester : Address := 13
def timelock : Address := 2
def timestamp : Nat := 604800
def expiresAt : UInt64 := 1209600

def owner : Unbounded := hash [ownerTag, hash [limb ownerKey.x 0, limb ownerKey.x 16,
  limb ownerKey.y 0, limb ownerKey.y 16], hash [nkTag, nk]]

def registry (tree : LeanImtTree (merkleHash hash)) (issuedAt : UInt64) :
    AttestationRegistry (LeanImtTree (merkleHash hash)) where
  attestationTree := tree
  historicalAttestationRoots := .empty
  attester := attester
  currentGeneration := 0
  lastIssuedAt := issuedAt
  storedMinAcceptedGeneration := 0
  pendingMinAcceptedGeneration := 0
  minAcceptedGenerationActivationEpoch := uint256Max
  roles := (Compliance.Roles.set (fun _ _ => false) .timelock timelock true).set .attester attester true

theorem registry_new : AttestationRegistry.new (deployment hash signed).toRegistryConfig attester
    timelock = .ok (registry hash (leanImt (merkleHash hash)).empty 0) := rfl

def leaf : Unbounded :=
  hash [owner hash, ofAddress attester, ofU64 0, ofU64 (UInt64.ofNat timestamp), ofU64 expiresAt]

theorem checkExpiry_ok : AttestationRegistry.checkExpiry (deployment hash signed).toRegistryConfig
    timestamp expiresAt = .ok () := by
  have hepoch : currentEpoch (deployment hash signed).toRegistryConfig timestamp = 7 := by
    show 604800 / 86400 = 7
    rfl
  have hfirst : (7 + 1) * (deployment hash signed).epochSeconds = 691200 := by
    show (7 + 1) * 86400 = 691200
    rfl
  have hlast : (7 + 1 + (deployment hash signed).maxAttestationEpochs +
      (deployment hash signed).overlapEpochs) * (deployment hash signed).epochSeconds = 3542400 := by
    show (7 + 1 + 30 + 3) * 86400 = 3542400
    rfl
  simp only [AttestationRegistry.checkExpiry, hepoch, hfirst, hlast, u256,
    bind_eq_ok, failIf_eq_ok, pure_eq_ok, exists_const]
  exact ⟨_, ⟨by decide, rfl⟩, by decide, _, ⟨by decide, rfl⟩, by decide⟩

theorem addAttestations_ok (H : Ideal hash) :
    ∃ tree, (leanImt (merkleHash hash)).root tree = leaf hash ∧ ∃ events,
      (registry hash (leanImt (merkleHash hash)).empty 0).addAttestations
        (deployment hash signed).toRegistryConfig attester timestamp [(owner hash).val] expiresAt 0 =
          .ok (registry hash tree (UInt64.ofNat timestamp), events) := by
  have hne : leaf hash ≠ 0 := H.ne_zero (by simp) (by simp)
  obtain ⟨tree, htree, hdata⟩ := @leanImt_insert_first Unbounded _ _ (merkleHash hash) _ hne
  have hroot : (leanImt (merkleHash hash)).root tree = leaf hash := by
    show tree.data.root = leaf hash
    rw [hdata]
    rfl
  have hissue : (registry hash (leanImt (merkleHash hash)).empty (UInt64.ofNat timestamp)).issueOne
      (deployment hash signed).toRegistryConfig attester 0 (UInt64.ofNat timestamp) expiresAt
      (owner hash).val = .ok (registry hash tree (UInt64.ofNat timestamp)) := by
    simp only [issueOne, bind_eq_ok, mapErr_eq_ok, pure_eq_ok, failIf_eq_ok]
    exact ⟨(), Bool.noConfusion, tree, htree, rfl⟩
  refine ⟨tree, hroot, ?_⟩
  simp only [addAttestations, bind_eq_ok, pure_eq_ok, Prod.mk.injEq]
  refine ⟨_, (), rfl, (), rfl, (), rfl, (), checkExpiry_ok hash,
    registry hash (leanImt (merkleHash hash)).empty 0, rfl,
    registry hash tree (UInt64.ofNat timestamp), ?_, rfl, rfl⟩
  rw [List.foldlM_cons, bind_eq_ok]
  exact ⟨_, hissue, rfl⟩

noncomputable def constructorParams : ConstructorParams where
  attestationRegistry := 11
  verifier := 3
  claimKeyHash := (keyHash (primitives hash signs) ownerKey).val
  transferAgent := agent
  registerKey := words 2
  timelockController := timelock
  guardian := 6

/-- A pool nobody has used, with the register key `words key`. -/
structure Fresh (key : Nat) (pool : ShieldedPool (LeanImtTree (merkleHash hash))) : Prop where
  tree : pool.tree = (leanImt (merkleHash hash)).empty
  nullifiers : pool.nullifiers = fun _ => false
  totalUnits : pool.totalUnits = 0
  lastMultiplier : pool.lastMultiplier = multiplierScale
  halted : pool.halted = false
  transferAgent : pool.transferAgent = agent
  registerKey : pool.registerKey = words key
  claimKeyHash : pool.claimKeyHash = (keyHash (primitives hash signs) ownerKey).val
  open_ : pool.pausedUntilEpoch = 0

theorem onGrumpkin_words : onGrumpkin (words 1) = true ∧ onGrumpkin (words 2) = true ∧
    onGrumpkin (words 3) = true := by
  decide

theorem pool_new : ∃ pool, ShieldedPool.new (deployment hash signed) timestamp (constructorParams hash) =
    .ok pool ∧ Fresh hash 2 pool ∧ pool.registerKeyVersion = 0 := by
  have hpoint : ¬ onGrumpkin (constructorParams hash).registerKey = false := by
    rw [show (constructorParams hash).registerKey = words 2 from rfl, onGrumpkin_words.2.1]
    exact Bool.noConfusion
  simp only [ShieldedPool.new, failIf_neg hpoint]
  exact ⟨_, rfl, ⟨rfl, rfl, rfl, rfl, rfl, rfl, rfl, rfl, rfl⟩, rfl⟩

/-! ### A deposit and a withdrawal -/

def note : Note Unbounded := ⟨ofAddress 9, 1, owner hash, 0, 0⟩

def commitment : Unbounded := hash (note hash).fields

def attestation : AttestationWitness Unbounded where
  attester := ofAddress attester
  generation := 0
  issuedAt := UInt64.ofNat timestamp
  expiresAt := expiresAt
  path := .ofList []

variable (signed) in
/-- The agent's own note, encrypted with the scalar `r` under the register key `words key`. -/
noncomputable def depositParams (key r : Nat) : DepositParams where
  proof := []
  commitment := (commitment hash).val
  units := 1
  attestationRoot := (leaf hash).val
  epoch := 7
  feedR := words r
  feedCt i := (encrypt (primitives hash signed)
    (feedKey (primitives hash signed) (pointOf (words (r * key)))) (note hash) noLock 0 i).val
  recipientPayload := []

def signature : Bytes 64 := ⟨List.replicate 64 0, rfl⟩

def depositWitness (r : Nat) : DepositWitness Unbounded where
  ownerKey := ownerKey
  nk := nk
  signature := signature
  expiry := expiresAt
  salt := 0
  attestationWitness := attestation
  feedSecret := ⟨⟨r⟩, 0⟩

def withdrawParams (recipient : Address) : WithdrawParams where
  proof := []
  nullifier := (hash [commitment hash, nk]).val
  units := 1
  recipient := recipient
  commitmentRoot := (commitment hash).val
  attestationRoot := (leaf hash).val
  epoch := 7

def withdrawWitness : WithdrawWitness Unbounded where
  ownerKey := ownerKey
  nk := nk
  signature := signature
  expiry := expiresAt
  input := ⟨1, 0, 0, noLock, .ofList []⟩
  attestationWitness := attestation

theorem attestationVerify_ok : attestationVerify (primitives hash signed) (owner hash) attestation 7 0
    (leaf hash) = .ok () := by
  have hincluded : merkleVerify hash (leaf hash) (leaf hash) attestation.path = .ok () :=
    (merkleVerify_ofList (Nat.zero_le _)).mpr rfl
  simp only [attestationVerify, bind_eq_ok, require_eq_ok]
  exact ⟨(), Nat.zero_le _, (), hincluded, 8, rfl, 691200, rfl, (), by decide, by decide⟩

theorem planExpiry_ok {expiry : UInt64} (h : 691200 ≤ expiry) : Mmf.checkExpiry 7 expiry = .ok () := by
  simp only [Mmf.checkExpiry, bind_eq_ok, require_eq_ok]
  exact ⟨8, rfl, 691200, rfl, h⟩

theorem ecdsa_ok (sig : Bytes 64) {plan : Plan Unbounded} (h : signed ownerKey plan) :
    (primitives hash signed).ecdsa ownerKey sig (plan.digest (primitives hash signed)) = true :=
  accepts_iff.mpr ⟨plan, h, rfl⟩

theorem derive_eq {key r : Nat} (hr : r < 2 ^ 128) (hne : words r ≠ (0, 0)) :
    derive (primitives hash signed) ⟨⟨r⟩, 0⟩ (pointOf (words key)) = .ok (pointOf (words r),
      feedKey (primitives hash signed) (pointOf (words (r * key)))) := by
  have hscalar : scalar (⟨⟨r⟩, 0⟩ : FeedSecret Unbounded) = .ok r := by
    simp only [scalar, Compliance.assertMaxBitSize, bind_eq_ok, require_eq_ok, pure_eq_ok, exists_const]
    exact ⟨hr, by decide, Nat.add_zero _⟩
  have hbase : (primitives hash signed).curve.fixedBaseMul r = pointOf (words r) := fixedBaseMul_eq r
  have hshared : (primitives hash signed).curve.mul r (pointOf (words key)) =
      pointOf (words (r * key)) := mul_eq r key
  have hfinite : (pointOf (words r) : Unbounded × Unbounded).1 ≠ 0 ∨
      (pointOf (words r) : Unbounded × Unbounded).2 ≠ 0 := by
    by_contra hzero
    rw [not_or, not_not, not_not] at hzero
    exact hne (Prod.ext (Unbounded.mk.inj hzero.1) (Unbounded.mk.inj hzero.2))
  simp only [derive, hscalar, ok_bind, hbase, hshared, bind_eq_ok, require_eq_ok, pure_eq_ok]
  exact ⟨(), hfinite, trivial⟩

section
variable {tree : LeanImtTree (merkleHash hash)} {w : World (LeanImtTree (merkleHash hash)) (Address → Nat)}

/-- The registry with the agent's attestation, at epoch 7. -/
structure Attesting (tree : LeanImtTree (merkleHash hash))
    (w : World (LeanImtTree (merkleHash hash)) (Address → Nat)) : Prop where
  timestamp : w.timestamp = Sample.timestamp
  registry : w.registry = Sample.registry hash tree (UInt64.ofNat Sample.timestamp)
  root : (leanImt (merkleHash hash)).root tree = leaf hash

namespace Attesting

theorem epoch (h : Attesting hash tree w) : w.epoch (deployment hash signed) = 7 := by
  rw [World.epoch, h.timestamp]
  show 604800 / 86400 = 7
  rfl

theorem known (h : Attesting hash tree w) : w.registry.isKnownAttestationRoot
    (deployment hash signed).toRegistryConfig (leaf hash).val = true := by
  rw [h.registry, ← h.root]
  simp only [isKnownAttestationRoot, Bool.or_eq_true, decide_eq_true_eq]
  exact .inl rfl

theorem floor (h : Attesting hash tree w) : w.registry.minAcceptedGeneration
    (deployment hash signed).toRegistryConfig w.timestamp = 0 := by
  rw [h.registry]
  rfl

end Attesting

theorem depositMain_ok (hsigned : ∀ plan, plan.nullifiers = (0, 0) → signed ownerKey plan) {key r : Nat}
    (h : Attesting hash tree w) (hkey : w.pool.registerKey = words key) (hr : r < 2 ^ 128)
    (hne : words r ≠ (0, 0)) :
    depositMain (deployment hash signed).toPrimitives
      ((depositParams hash signed key r).toPublic (deployment hash signed) w agent)
      (depositWitness r) = .ok () := by
  have hbits : ∀ a : Address, Scalar.toNat (ofAddress a : Unbounded) < 2 ^ 160 :=
    Compliance.toNat_ofAddress_lt
  simp only [depositMain, Compliance.assertMaxBitSize, verifySignature, bind_eq_ok, require_eq_ok,
    exists_const, Prod.exists]
  refine ⟨hbits _, hbits _, rfl, (), ?_, Scalar.ofNat (words r).1, Scalar.ofNat (words r).2, _, ?_,
    rfl, rfl, (), planExpiry_ok (show 691200 ≤ expiresAt by decide), ?_⟩
  · show attestationVerify _ _ _ _ (w.registry.minAcceptedGeneration _ _) _ = _
    rw [h.floor]
    exact attestationVerify_ok hash
  · show derive _ _ (pointOf w.pool.registerKey) = _
    rw [hkey]
    exact derive_eq hash hr hne
  · exact ecdsa_ok hash _ (hsigned _ rfl)

theorem withdrawMain_ok (hsigned : ∀ plan, signed ownerKey plan) (recipient : Address)
    (h : Attesting hash tree w) :
    withdrawMain (deployment hash signed).toPrimitives
      ((withdrawParams hash recipient).toPublic (deployment hash signed) w) withdrawWitness = .ok () := by
  have hbits : ∀ a : Address, Scalar.toNat (ofAddress a : Unbounded) < 2 ^ 160 :=
    Compliance.toNat_ofAddress_lt
  have hincluded : merkleVerify hash (commitment hash) (commitment hash)
      withdrawWitness.input.path = .ok () := (merkleVerify_ofList (Nat.zero_le _)).mpr rfl
  simp only [withdrawMain, Compliance.assertMaxBitSize, verifySignature, bind_eq_ok, require_eq_ok,
    exists_const]
  refine ⟨hbits _, hbits _, rfl, Nat.zero_le _, (), hincluded, rfl, (), ?_, (), rfl, (),
    planExpiry_ok (by decide), ?_⟩
  · show attestationVerify _ _ _ _ (w.registry.minAcceptedGeneration _ _) _ = _
    rw [h.floor]
    exact attestationVerify_ok hash
  · exact ecdsa_ok hash _ (hsigned _)

variable (signed) in
/-- The pool after the deposit, over the tree `leaves`. -/
noncomputable def deposited (w : World (LeanImtTree (merkleHash hash)) (Address → Nat))
    (leaves : LeanImtTree (merkleHash hash)) :
    World (LeanImtTree (merkleHash hash)) (Address → Nat) :=
  w.deposited (deployment hash signed) 1 leaves (moved w.token agent 10 1) ((w.token 10 + 1) * multiplierScale)

theorem agent_ne : agent ≠ (deployment hash signed).address := by
  show (12 : Address) ≠ 10
  decide

theorem canonical (n : Word) : BnField.canonical Unbounded n = true := rfl

/-- A small balance is worth a multiplier that fits a word. -/
theorem mulDiv_one {B : Nat} (hB : B < 100) : mulDiv B multiplierScale 1 = .ok (B * multiplierScale) := by
  refine mulDiv_eq_ok.mpr ⟨by decide, ?_, Nat.div_one _⟩
  rw [Nat.div_one]
  exact (Nat.mul_lt_mul_of_pos_right hB multiplierScale_pos).trans (by decide)

theorem exists_deposit (H : Ideal hash)
    (hsigned : ∀ plan, plan.nullifiers = (0, 0) → signed ownerKey plan) {key r : Nat} (h : Attesting hash tree w)
    (hpool : Fresh hash key w.pool) (hr : r < 2 ^ 128) (hne : words r ≠ (0, 0))
    (hpoint : onGrumpkin (words r) = true) (hfunds : 1 ≤ w.token agent) (hB : w.token 10 < 99) :
    ∃ leaves events, (leanImt (merkleHash hash)).root leaves = commitment hash ∧
      events = [.deposit (commitment hash).val 1 1 (words r) (depositParams hash signed key r).feedCt []] ∧
      deposit (deployment hash signed) w agent (depositParams hash signed key r) =
        .ok (deposited hash signed w leaves, events) := by
  have hnote : commitment hash ≠ 0 := H.ne_zero (by simp [Note.fields]) (by simp [Note.fields])
  obtain ⟨leaves, hins, hdata⟩ := @leanImt_insert_first Unbounded _ _ (merkleHash hash) _ hnote
  have hroot : (leanImt (merkleHash hash)).root leaves = commitment hash := by
    show leaves.data.root = commitment hash
    rw [hdata]
    rfl
  have hm : checkedMultiplier (deployment hash signed) w = .ok multiplierScale := by
    refine checkedMultiplier_eq_ok.mpr ⟨hpool.halted, ?_, hpool.lastMultiplier.le⟩
    rw [multiplier, if_pos hpool.totalUnits, hpool.lastMultiplier]
    rfl
  have hpaid : (deployment hash signed).token.transferFrom (deployment hash signed).address agent
      (deployment hash signed).address 1 w.token = some (moved w.token agent 10 1) :=
    ledger_transferFrom hfunds
  have hbalance : (w.deposited (deployment hash signed) 1 leaves (moved w.token agent 10 1)
      w.pool.lastMultiplier).balance (deployment hash signed) = w.token 10 + 1 :=
    moved_dst (agent_ne hash)
  have htotal : (w.deposited (deployment hash signed) 1 leaves (moved w.token agent 10 1)
      w.pool.lastMultiplier).pool.totalUnits = 1 := by
    show w.pool.totalUnits + 1 = 1
    rw [hpool.totalUnits]
  have hlast : multiplier (deployment hash signed) (w.deposited (deployment hash signed) 1 leaves
      (moved w.token agent 10 1) w.pool.lastMultiplier) = .ok ((w.token 10 + 1) * multiplierScale) := by
    rw [multiplier, htotal, if_neg Nat.one_ne_zero, hbalance]
    exact mulDiv_one (by omega)
  refine ⟨leaves, _, hroot, rfl, ?_⟩
  refine deposit_complete (complete hash) (depositMain_ok hash hsigned h hpool.registerKey hr hne)
    (show 7 < 2 ^ 64 by decide) (hpool.open_ ▸ Nat.zero_le _) (fun n _ => canonical n)
    (show (1 : UInt64) ≠ 0 by decide) (fun _ => hpool.transferAgent.symm) (h.epoch hash).symm
    hpoint (h.known hash) hm (by rw [hpool.tree]; exact hins) ?_ ?_ hpaid hlast ?_
  · show w.pool.totalUnits + 1 < 2 ^ 256
    rw [hpool.totalUnits]
    decide
  · show mulDivUp 1 multiplierScale multiplierScale = .ok 1
    rfl
  · exact Nat.le_mul_of_pos_left _ (Nat.succ_pos _)

theorem exists_withdraw (hsigned : ∀ plan, signed ownerKey plan) {key : Nat}
    {leaves : LeanImtTree (merkleHash hash)} {recipient : Address}
    (h : Attesting hash tree w) (hpool : Fresh hash key w.pool)
    (hroot : (leanImt (merkleHash hash)).root leaves = commitment hash) (hB : w.token 10 < 99)
    (hrecipient : recipient ≠ 0) : ∃ w', withdraw (deployment hash signed)
      (deposited hash signed w leaves) (withdrawParams hash recipient) =
        .ok (w', [.withdraw (hash [commitment hash, nk]).val recipient 1 (w.token 10 + 1)]) := by
  set w₁ := deposited hash signed w leaves with hw₁
  have hbalance : w₁.balance (deployment hash signed) = w.token 10 + 1 :=
    moved_dst (agent_ne hash)
  have htotal : w₁.pool.totalUnits = 1 := by
    show w.pool.totalUnits + 1 = 1
    rw [hpool.totalUnits]
  have hattesting : Attesting hash tree w₁ := ⟨h.timestamp, h.registry, h.root⟩
  have hm : checkedMultiplier (deployment hash signed) w₁ = .ok ((w.token 10 + 1) * multiplierScale) := by
    refine checkedMultiplier_eq_ok.mpr ⟨hpool.halted, ?_, Nat.le_refl _⟩
    rw [multiplier, htotal, if_neg Nat.one_ne_zero, hbalance]
    exact mulDiv_one (by omega)
  have hpaid : (deployment hash signed).token.transfer (deployment hash signed).address recipient
      (w.token 10 + 1) w₁.token = some (moved w₁.token 10 recipient (w.token 10 + 1)) :=
    ledger_transfer hbalance.ge
  refine ⟨_, withdraw_complete (complete hash) (withdrawMain_ok hash hsigned recipient hattesting)
    (show 7 < 2 ^ 64 by decide) (hpool.open_.trans_le (Nat.zero_le _)) (fun n _ => canonical n)
    (show (1 : UInt64) ≠ 0 by decide) hrecipient (hattesting.epoch hash).symm ?_ ?_
    (hattesting.known hash) hm ?_ ?_ hpaid (if_pos ?_) ?_⟩
  · show w.pool.nullifiers _ = false
    rw [hpool.nullifiers]
  · exact isKnownRoot_iff.mpr (.inl (congrArg Scalar.toNat hroot.symm))
  · exact htotal.ge
  · refine mulDiv_eq_ok.mpr ⟨by decide, ?_, ?_⟩
    · show 1 * ((w.token 10 + 1) * multiplierScale) / multiplierScale < 2 ^ 256
      rw [Nat.one_mul, Nat.mul_div_cancel _ multiplierScale_pos]
      omega
    · show 1 * ((w.token 10 + 1) * multiplierScale) / multiplierScale = w.token 10 + 1
      rw [Nat.one_mul, Nat.mul_div_cancel _ multiplierScale_pos]
  · show w₁.pool.totalUnits - 1 = 0
    rw [htotal]
  · show w₁.pool.totalUnits - 1 ≠ 0 → _
    rw [htotal]
    exact fun hzero => absurd rfl hzero

end

def funds (a : Address) : Nat := if a = agent then 10 else 0

def setupSteps : List Step :=
  [.inflow, .registry attester (.addAttestations [(owner hash).val] expiresAt 0)]

theorem exists_setup (H : Ideal hash) : ∃ w₀ tree w, Deployed (deployment hash signed) w₀ ∧
    w₀.pool.registerKey = words 2 ∧
    Run (Transition (deployment hash signed)) w₀ (setupSteps hash) w ∧ Attesting hash tree w ∧
    Fresh hash 2 w.pool ∧ w.pool.registerKeyVersion = 0 ∧ w.token = Function.update funds 10 5 := by
  obtain ⟨pool, hpool, hfresh, hversion⟩ := pool_new hash
  obtain ⟨tree, hroot, events, hissued⟩ := addAttestations_ok hash H
  refine ⟨⟨timestamp, registry hash (leanImt (merkleHash hash)).empty 0, pool, funds⟩, tree,
    ⟨timestamp, registry hash tree (UInt64.ofNat timestamp), pool, Function.update funds 10 5⟩,
    .mk (registry_new hash) hpool, hfresh.registerKey, ?_, ⟨rfl, rfl, hroot⟩, hfresh,
    hversion, rfl⟩
  refine .cons (.cons .nil (.registry hissued)) (.inflow ?_)
  show funds 10 ≤ Function.update funds 10 5 10
  decide

/-- Five shares come into the empty pool, and the agent deposits one unit for one share. -/
theorem exists_run (H : Ideal hash) (hsigned : ∀ plan, signed ownerKey plan) {recipient : Address}
    (hrecipient : recipient ≠ 0) :
    ∃ w₀ w w₁ w₂ dp dr ct wp n, Deployed (deployment hash signed) w₀ ∧ w₀.pool.registerKey = words 2 ∧
      Run (Transition (deployment hash signed)) w₀ (setupSteps hash) w ∧ Transition (deployment hash signed) w
        (.pool agent (.deposit dp) [.deposit (commitment hash).val 1 1 dr ct []]) w₁ ∧
      deposit (deployment hash signed) w agent dp = .ok (w₁, [.deposit (commitment hash).val 1 1 dr ct []]) ∧
      withdraw (deployment hash signed) w₁ wp = .ok (w₂, [.withdraw n recipient 1 6]) := by
  obtain ⟨w₀, tree, w, hdeployed, hkey, hrun, hattesting, hpool, -, htoken⟩ :=
    exists_setup hash H
  have hfunds : 1 ≤ w.token agent := by
    rw [htoken]
    decide
  have hfive : w.token 10 = 5 := by
    rw [htoken]
    rfl
  obtain ⟨leaves, events, hroot, rfl, hdeposit⟩ := exists_deposit hash H (fun plan _ => hsigned plan) hattesting
    hpool
    (show 3 < 2 ^ 128 by decide) (show words 3 ≠ (0, 0) by decide) onGrumpkin_words.2.2 hfunds
    (by omega)
  obtain ⟨w₂, hwithdraw⟩ := exists_withdraw hash hsigned hattesting hpool hroot (by omega) hrecipient
  rw [hfive] at hwithdraw
  exact ⟨w₀, w, _, w₂, _, _, _, _, _, hdeployed, hkey, hrun, .pool (agent_ne hash) hdeposit,
    hdeposit, hwithdraw⟩

end Sample

end Pocs.Mmf
