import Pocs.Lib.Method
import Pocs.Lib.Notes
import Pocs.Compliance.Pool

/-! # Runs of the pool and the registry

The two contracts on one chain: calls of anyone in any order, the clock, and the token changing hands
elsewhere. `Admitted` says what an accepted call does to the tree and the nullifiers of the pool, and
`PoolInv` what every run keeps of them. -/

namespace Pocs.Compliance

variable {F T τ : Type} [BnField F]

/-- Each verifier accepts only what its circuit can prove. -/
structure Deployment.Sound (D : Deployment F T τ) : Prop where
  deposit : ∀ {verifier proof inputs}, D.verifyDeposit verifier proof inputs = true →
    ∃ pub wit, inputs.map Scalar.ofNat = DepositPublic.toFields pub ∧
      depositMain D.hash D.policyTag pub wit = .ok ()
  transfer : ∀ {verifier proof inputs}, D.verifyTransfer verifier proof inputs = true →
    ∃ pub wit, inputs.map Scalar.ofNat = TransferPublic.toFields pub ∧
      transferMain D.hash D.policyTag pub wit = .ok ()
  withdraw : ∀ {verifier proof inputs}, D.verifyWithdraw verifier proof inputs = true →
    ∃ pub wit, inputs.map Scalar.ofNat = WithdrawPublic.toFields pub ∧
      withdrawMain D.hash D.policyTag pub wit = .ok ()
  ungated : ∀ {verifier proof inputs}, D.verifyUngated verifier proof inputs = true →
    ∃ pub wit, inputs.map Scalar.ofNat = UngatedWithdrawPublic.toFields pub ∧
      withdrawUngatedMain D.hash pub wit = .ok ()

/-- A call that succeeds or reverts, time that passes, or anything elsewhere. -/
inductive Step where
  | pool (sender : Address) (call : PoolCall)
  | registry (sender : Address) (call : RegistryCall)
  | reverted (sender : Address)
  | tick (timestamp : Nat)
  | elsewhere

/-- The pool never calls itself, the clock does not go back, and nobody else spends the pool's
balance. -/
inductive Transition (D : Deployment F T τ) (w : World F T τ) : Step → World F T τ → Prop where
  | pool {sender call w' events} (sender_ne : sender ≠ D.address)
    (ok : PoolCall.run D sender w call = .ok (w', events)) : Transition D w (.pool sender call) w'
  | registry {sender call registry events}
    (ok : RegistryCall.run D.toRegistryConfig sender w.timestamp w.registry call =
      .ok (registry, events)) : Transition D w (.registry sender call) { w with registry }
  | poolReverted {sender call e} (err : PoolCall.run D sender w call = .error e) :
    Transition D w (.reverted sender) w
  | registryReverted {sender call e}
    (err : RegistryCall.run D.toRegistryConfig sender w.timestamp w.registry call = .error e) :
    Transition D w (.reverted sender) w
  | tick {timestamp} (le : w.timestamp ≤ timestamp) : Transition D w (.tick timestamp) { w with timestamp }
  | elsewhere {token} (balance : D.token.balanceOf token D.address =
      D.token.balanceOf w.token D.address) : Transition D w .elsewhere { w with token }

/-- Both contracts as they were deployed. -/
inductive Deployed (D : Deployment F T τ) : World F T τ → Prop where
  | mk {timestamp admin timelock params registry pool token}
    (registry_new : AttestationRegistry.new D.toRegistryConfig admin timelock = .ok registry)
    (pool_new : ShieldedPool.new D timestamp params = .ok pool) :
    Deployed D ⟨timestamp, registry, pool, token⟩

/-! ## What a call writes to the tree and the nullifiers -/

def PoolCall.nullifiers : PoolCall → List Word
  | .deposit p => [p.velocityNullifier]
  | .transfer p => [p.nullifier0, p.nullifier1, p.velocityNullifier]
  | .withdraw p => [p.nullifier, p.velocityNullifier]
  | .withdrawBlocked p => [p.nullifier]
  | _ => []

def PoolCall.leaves : PoolCall → List Word
  | .deposit p => [p.commitment, p.complianceCommitmentOut]
  | .transfer p => [p.commitmentOut0, p.commitmentOut1, p.complianceCommitmentOut]
  | .withdraw p => [p.complianceCommitmentOut]
  | _ => []

def Step.nullifiers : Step → List Word
  | .pool _ call => call.nullifiers
  | _ => []

def Step.leaves : Step → List Word
  | .pool _ call => call.leaves
  | _ => []

/-- The nullifiers marked in a run, newest call first. -/
def marked (tr : List Step) : List Word := tr.flatMap Step.nullifiers

def inserted (tr : List Step) : List Word := tr.reverse.flatMap Step.leaves

@[simp] theorem marked_cons (st : Step) (tr : List Step) : marked (st :: tr) = st.nullifiers ++ marked tr := rfl

@[simp] theorem inserted_cons (st : Step) (tr : List Step) :
    inserted (st :: tr) = inserted tr ++ st.leaves := by
  simp [inserted]

structure Admitted (D : Deployment F T τ) (w w' : World F T τ) (nullifiers leaves : List Word) : Prop where
  canonical : ∀ n ∈ nullifiers ++ leaves, BnField.canonical F n = true
  nodup : nullifiers.Nodup
  fresh : ∀ n ∈ nullifiers, w.pool.nullifiers n = false
  marks : ∀ n, w'.pool.nullifiers n = true ↔ n ∈ nullifiers ∨ w.pool.nullifiers n = true
  tree : (leaves.map Scalar.ofNat).foldlM (fun tree leaf => D.imt.insert leaf tree) w.pool.tree =
    .ok w'.pool.tree
  roots : ∀ r, w'.pool.validRoots r = true →
    w.pool.validRoots r = true ∨ leaves ≠ [] ∧ r = Scalar.toNat (D.imt.root w'.pool.tree)
  registry : w'.registry = w.registry
  timestamp : w'.timestamp = w.timestamp

variable {D : Deployment F T τ} {w w' : World F T τ} {sender : Address} {events : List PoolEvent}

/-- A call that leaves the tree, the roots and the nullifiers alone. -/
theorem Admitted.frame (tree : w'.pool.tree = w.pool.tree) (validRoots : w'.pool.validRoots = w.pool.validRoots)
    (nullifiers : w'.pool.nullifiers = w.pool.nullifiers) (registry : w'.registry = w.registry)
    (timestamp : w'.timestamp = w.timestamp) : Admitted D w w' [] [] where
  canonical := by simp
  nodup := List.nodup_nil
  fresh := by simp
  marks n := by simp [nullifiers]
  tree := by rw [tree]; rfl
  roots r h := .inl (validRoots ▸ h)
  registry := registry
  timestamp := timestamp

theorem requireCanonical_eq_ok {inputs : List Word} {u : Unit} :
    requireCanonical F inputs = .ok u ↔ ∀ n ∈ inputs, BnField.canonical F n = true := by
  induction inputs with
  | nil => simp [requireCanonical, pure, Except.pure]
  | cons n inputs ih =>
    show (failIf (BnField.canonical F n = false) .nonCanonicalInput >>= fun _ =>
      requireCanonical F inputs) = .ok () ↔ _
    rw [bind_eq_ok]
    simp [ih]

/-- The pools that agree on what `Admitted` talks about and on the credits. -/
structure SamePool (pool pool' : ShieldedPool T) : Prop where
  tree : pool'.tree = pool.tree
  validRoots : pool'.validRoots = pool.validRoots
  nullifiers : pool'.nullifiers = pool.nullifiers
  blockedBalance : pool'.blockedBalance = pool.blockedBalance

omit [BnField F] in
/-- Promotion changes the policy only. -/
theorem maybePromotePolicy_spec (D : Deployment F T τ) (w : World F T τ) :
    ∃ pool events, maybePromotePolicy D w = (w.setPool pool, events) ∧ SamePool w.pool pool := by
  unfold maybePromotePolicy
  split
  · exact ⟨_, _, rfl, rfl, rfl, rfl, rfl⟩
  · exact ⟨w.pool, _, rfl, rfl, rfl, rfl, rfl⟩

theorem mem_markAll {pool : ShieldedPool T} {ns : List Word} {n : Word} :
    (pool.markAll ns).nullifiers n = true ↔ n ∈ ns ∨ pool.nullifiers n = true :=
  foldl_mark

/-- Marking nullifiers, inserting leaves and recording the root. -/
theorem Admitted.of_insertAll {pool pool' : ShieldedPool T} (same : SamePool w.pool pool)
    (w' : World F T τ) (ns ls : List Word) (canonical : ∀ n ∈ ns ++ ls, BnField.canonical F n = true)
    (nodup : ns.Nodup) (fresh : ∀ n ∈ ns, w.pool.nullifiers n = false)
    (hins : insertAll D (pool.markAll ns) ls = .ok pool') (hls : ls ≠ [])
    (hpool : w'.pool = recordRoot D pool') (registry : w'.registry = w.registry)
    (timestamp : w'.timestamp = w.timestamp) :
    Admitted D w w' ns ls ∧ w'.pool.blockedBalance = w.pool.blockedBalance := by
  simp only [insertAll, bind_eq_ok, mapErr_eq_ok, pure_eq_ok] at hins
  obtain ⟨tree, htree, rfl⟩ := hins
  refine ⟨⟨canonical, nodup, fresh, fun n => ?_, ?_, fun r hr => ?_, registry, timestamp⟩, ?_⟩
  · rw [hpool]
    show (pool.markAll ns).nullifiers n = true ↔ _
    rw [mem_markAll, same.nullifiers]
  · rw [hpool, ← same.tree]
    exact htree
  · rw [hpool] at hr ⊢
    simp only [recordRoot] at hr ⊢
    rcases eq_or_ne r (Scalar.toNat (D.imt.root tree)) with rfl | hne
    · exact .inr ⟨hls, rfl⟩
    · rw [Function.update_of_ne hne] at hr
      left
      rw [← same.validRoots]
      split at hr
      · rcases eq_or_ne r ((pool.markAll ns).historicalRoots (pool.markAll ns).historicalRootIndex)
          with rfl | hev
        · simp at hr
        · rwa [Function.update_of_ne hev] at hr
      · exact hr
  · rw [hpool]
    exact same.blockedBalance

/-- The registry accepts the roots and the generation of a proof. -/
structure RegistryChecked (D : Deployment F T τ) (w : World F T τ) (attestationRoot : Word)
    (attesterRevocationRoot : Word) (minAcceptedGeneration : Nat) : Prop where
  known : w.registry.isKnownAttestationRoot D.toRegistryConfig attestationRoot = true
  revocation : attesterRevocationRoot = w.registry.attesterRevocationRoot
  generation : minAcceptedGeneration = (w.registry.minAcceptedGeneration D.toRegistryConfig w.timestamp).toNat

theorem checkRegistry_eq_ok {ar rr : Word} {g : Nat} {u : Unit} :
    checkRegistry D w ar rr g = .ok u ↔ RegistryChecked D w ar rr g := by
  simp only [checkRegistry, bind_eq_ok, failIf_eq_ok, exists_const, not_not, Bool.not_eq_false]
  constructor
  · rintro ⟨h1, h2, h3⟩
    exact ⟨h1, h2, h3⟩
  · rintro ⟨h1, h2, h3⟩
    exact ⟨h1, h2, h3⟩

/-! ## What an accepted call was checked for -/

structure GatedParams where
  inputs : List Word
  epoch : Nat
  epochSeconds : Nat
  commitmentRoot : Word
  attestationRoot : Word
  attesterRevocationRoot : Word
  minAcceptedGeneration : Nat

def DepositParams.gated (p : DepositParams) : GatedParams :=
  ⟨p.inputs, p.epoch, p.epochSeconds, p.commitmentRoot, p.attestationRoot, p.attesterRevocationRoot,
    p.minAcceptedGeneration⟩

def TransferParams.gated (p : TransferParams) : GatedParams :=
  ⟨p.inputs, p.epoch, p.epochSeconds, p.commitmentRoot, p.attestationRoot, p.attesterRevocationRoot,
    p.minAcceptedGeneration⟩

def WithdrawParams.gated (p : WithdrawParams) : GatedParams :=
  ⟨p.inputs, p.epoch, p.epochSeconds, p.commitmentRoot, p.attestationRoot, p.attesterRevocationRoot,
    p.minAcceptedGeneration⟩

structure GatedAccepted (D : Deployment F T τ) (w : World F T τ) (g : GatedParams) : Prop where
  canonical : ∀ n ∈ g.inputs, BnField.canonical F n = true
  epoch : g.epoch = w.epoch D
  epochSeconds : g.epochSeconds = D.epochSeconds
  root : isKnownRoot D w g.commitmentRoot = true
  registry : RegistryChecked D w g.attestationRoot g.attesterRevocationRoot g.minAcceptedGeneration

structure DepositAccepted (D : Deployment F T τ) (sender : Address) (w w' : World F T τ)
    (p : DepositParams) : Prop extends GatedAccepted D w p.gated where
  token : p.token = D.tokenAddress.toNat
  amount : p.amount ≠ 0
  proof : ∃ verifier, D.verifyDeposit verifier p.proof p.inputs = true
  admitted : Admitted D w w' (PoolCall.deposit p).nullifiers (PoolCall.deposit p).leaves
  blocked : w'.pool.blockedBalance = w.pool.blockedBalance
  paid : D.token.transferFrom D.address sender D.address p.amount w.token = some w'.token

theorem isKnownRoot_iff {r : Word} :
    isKnownRoot D w r = true ↔ r = commitmentRoot D w ∨ w.pool.validRoots r = true := by
  simp [isKnownRoot]

theorem SamePool.isKnownRoot {pool : ShieldedPool T} (same : SamePool w.pool pool) {r : Word}
    (h : isKnownRoot D (w.setPool pool) r = true) : isKnownRoot D w r = true := by
  rw [isKnownRoot_iff] at h ⊢
  simpa [commitmentRoot, World.setPool, same.tree, same.validRoots] using h

/-- The checks run after the promotion, which they do not depend on. -/
theorem GatedAccepted.of_setPool {pool : ShieldedPool T} {g : GatedParams}
    (same : SamePool w.pool pool) (h : GatedAccepted D (w.setPool pool) g) : GatedAccepted D w g where
  canonical := h.canonical
  epoch := h.epoch
  epochSeconds := h.epochSeconds
  root := same.isKnownRoot h.root
  registry := ⟨h.registry.known, h.registry.revocation, h.registry.generation⟩

theorem deposit_accepted {p : DepositParams} (h : deposit D w sender p = .ok (w', events)) :
    DepositAccepted D sender w w' p := by
  obtain ⟨pool, promoted, hprom, same⟩ := maybePromotePolicy_spec D w
  simp only [deposit, hprom, bind_eq_ok, failIf_eq_ok, requireCanonical_eq_ok, checkRegistry_eq_ok,
    okOr_eq_ok, pure_eq_ok, exists_const, not_not, Bool.not_eq_false, Bool.not_eq_true,
    Prod.mk.injEq] at h
  obtain ⟨-, canonical, token, amount, epoch, epochSeconds, -, fresh, root, registry, _, -, proof,
    pool', hins, token', paid, rfl, -⟩ := h
  replace fresh : pool.nullifiers p.velocityNullifier = false := fresh
  rw [same.nullifiers] at fresh
  obtain ⟨admitted, blocked⟩ := Admitted.of_insertAll same ⟨w.timestamp, w.registry,
    recordRoot D pool', token'⟩ [p.velocityNullifier] _
    (fun n hn => canonical n (by
      simp only [List.cons_append, List.nil_append, List.mem_cons] at hn
      simp only [DepositParams.inputs, List.mem_cons]
      tauto))
    (List.nodup_singleton _) (by simpa using fresh) hins (List.cons_ne_nil _ _) rfl rfl rfl
  exact
    { toGatedAccepted := .of_setPool same ⟨canonical, epoch, epochSeconds, root, registry⟩
      token := token
      amount := amount
      proof := ⟨_, proof⟩
      admitted := admitted
      blocked := blocked
      paid := paid }

structure TransferAccepted (D : Deployment F T τ) (w w' : World F T τ) (p : TransferParams) : Prop
    extends GatedAccepted D w p.gated where
  proof : ∃ verifier, D.verifyTransfer verifier p.proof p.inputs = true
  admitted : Admitted D w w' (PoolCall.transfer p).nullifiers (PoolCall.transfer p).leaves
  blocked : w'.pool.blockedBalance = w.pool.blockedBalance
  paid : w'.token = w.token

theorem transfer_accepted {p : TransferParams} (h : transfer D w p = .ok (w', events)) :
    TransferAccepted D w w' p := by
  obtain ⟨pool, promoted, hprom, same⟩ := maybePromotePolicy_spec D w
  simp only [transfer, hprom, bind_eq_ok, failIf_eq_ok, requireCanonical_eq_ok, checkRegistry_eq_ok,
    pure_eq_ok, exists_const, not_not, not_or, Bool.not_eq_false, Bool.not_eq_true,
    Prod.mk.injEq] at h
  obtain ⟨-, canonical, epoch, epochSeconds, -, ⟨h01, h0v, h1v⟩, fresh, root, registry, _, -, proof,
    pool', hins, rfl, -⟩ := h
  replace fresh : pool.nullifiers p.nullifier0 = false ∧ pool.nullifiers p.nullifier1 = false ∧
    pool.nullifiers p.velocityNullifier = false := fresh
  rw [same.nullifiers] at fresh
  obtain ⟨admitted, blocked⟩ := Admitted.of_insertAll same ⟨w.timestamp, w.registry,
    recordRoot D pool', w.token⟩ [p.nullifier0, p.nullifier1, p.velocityNullifier] _
    (fun n hn => canonical n (by
      simp only [List.cons_append, List.nil_append, List.mem_cons] at hn
      simp only [TransferParams.inputs, List.mem_cons]
      tauto))
    (by simp [h01, h0v, h1v]) (by simpa using fresh) hins (List.cons_ne_nil _ _) rfl rfl rfl
  exact
    { toGatedAccepted := .of_setPool same ⟨canonical, epoch, epochSeconds, root, registry⟩
      proof := ⟨_, proof⟩
      admitted := admitted
      blocked := blocked
      paid := rfl }

structure WithdrawAccepted (D : Deployment F T τ) (w w' : World F T τ) (p : WithdrawParams) : Prop
    extends GatedAccepted D w p.gated where
  token : p.token = D.tokenAddress.toNat
  amount : p.amount ≠ 0
  proof : ∃ verifier, D.verifyWithdraw verifier p.proof p.inputs = true
  admitted : Admitted D w w' (PoolCall.withdraw p).nullifiers (PoolCall.withdraw p).leaves
  blocked : w'.pool.blockedBalance = w.pool.blockedBalance
  paid : D.token.transfer D.address p.recipient p.amount w.token = some w'.token

theorem withdraw_accepted {p : WithdrawParams} (h : withdraw D w p = .ok (w', events)) :
    WithdrawAccepted D w w' p := by
  obtain ⟨pool, promoted, hprom, same⟩ := maybePromotePolicy_spec D w
  simp only [withdraw, hprom, bind_eq_ok, failIf_eq_ok, requireCanonical_eq_ok, checkRegistry_eq_ok,
    okOr_eq_ok, pure_eq_ok, exists_const, not_not, not_or, Bool.not_eq_false, Bool.not_eq_true,
    Prod.mk.injEq] at h
  obtain ⟨-, canonical, token, amount, -, epoch, epochSeconds, -, hne, fresh, root, registry, -, _, -,
    proof, pool', hins, token', paid, rfl, -⟩ := h
  replace fresh : pool.nullifiers p.nullifier = false ∧ pool.nullifiers p.velocityNullifier = false := fresh
  rw [same.nullifiers] at fresh
  obtain ⟨admitted, blocked⟩ := Admitted.of_insertAll same ⟨w.timestamp, w.registry,
    recordRoot D pool', token'⟩ [p.nullifier, p.velocityNullifier] _
    (fun n hn => canonical n (by
      simp only [List.cons_append, List.nil_append, List.mem_cons] at hn
      simp only [WithdrawParams.inputs, List.mem_cons]
      tauto))
    (by simp [hne]) (by simpa using fresh) hins (List.cons_ne_nil _ _) rfl rfl rfl
  exact
    { toGatedAccepted := .of_setPool same ⟨canonical, epoch, epochSeconds, root, registry⟩
      token := token
      amount := amount
      proof := ⟨_, proof⟩
      admitted := admitted
      blocked := blocked
      paid := paid }

structure WithdrawBlockedAccepted (D : Deployment F T τ) (w w' : World F T τ)
    (p : WithdrawBlockedParams) : Prop where
  canonical : ∀ n ∈ p.inputs, BnField.canonical F n = true
  token : p.token = D.tokenAddress.toNat
  amount : p.amount ≠ 0
  root : isKnownRoot D w p.commitmentRoot = true
  proof : ∃ verifier, D.verifyUngated verifier p.proof p.inputs = true
  admitted : Admitted D w w' [p.nullifier] []
  blocked : w'.pool.blockedBalance = Function.update w.pool.blockedBalance p.nullifier
    (w.pool.blockedBalance p.nullifier + p.amount)
  paid : w'.token = w.token

theorem withdrawBlocked_accepted {p : WithdrawBlockedParams}
    (h : withdrawBlocked D w p = .ok (w', events)) : WithdrawBlockedAccepted D w w' p := by
  obtain ⟨pool, promoted, hprom, same⟩ := maybePromotePolicy_spec D w
  simp only [withdrawBlocked, hprom, bind_eq_ok, failIf_eq_ok, requireCanonical_eq_ok, okOr_eq_ok,
    checkedAdd_eq_some, pure_eq_ok, exists_const, not_not, Bool.not_eq_false, Bool.not_eq_true,
    Prod.mk.injEq] at h
  obtain ⟨-, canonical, token, amount, fresh, root, -, proof, _, ⟨-, rfl⟩, rfl, -⟩ := h
  replace fresh : pool.nullifiers p.nullifier = false := fresh
  exact
    { canonical := canonical
      token := token
      amount := amount
      root := same.isKnownRoot root
      proof := ⟨_, proof⟩
      admitted :=
        { canonical := fun n hn => canonical n (by
            simp only [List.append_nil, List.mem_singleton] at hn
            simp [WithdrawBlockedParams.inputs, hn])
          nodup := List.nodup_singleton _
          fresh := by simpa [← same.nullifiers] using fresh
          marks := fun n => by
            rw [← same.nullifiers]
            exact mem_markAll
          tree := by
            rw [← same.tree]
            rfl
          roots := fun r hr => .inl (by rw [← same.validRoots]; exact hr)
          registry := rfl
          timestamp := rfl }
      blocked := by
        rw [← same.blockedBalance]
        rfl
      paid := rfl }

structure ClaimBlockedAccepted (D : Deployment F T τ) (sender : Address) (w w' : World F T τ)
    (nullifier : Word) : Prop where
  admitted : Admitted D w w' [] []
  blocked : w'.pool.blockedBalance = Function.update w.pool.blockedBalance nullifier 0
  paid : D.token.transfer D.address sender (w.pool.blockedBalance nullifier) w.token = some w'.token

theorem claimBlocked_accepted {nullifier : Word} (h : claimBlocked D w sender nullifier = .ok (w', events)) :
    ClaimBlockedAccepted D sender w w' nullifier := by
  simp only [claimBlocked, bind_eq_ok, failIf_eq_ok, okOr_eq_ok, pure_eq_ok, exists_const, not_not,
    Prod.mk.injEq] at h
  obtain ⟨rfl, token', paid, rfl, -⟩ := h
  exact ⟨.frame rfl rfl rfl rfl rfl, rfl, paid⟩

/-! ### Governance -/

/-- What the governance calls leave alone. -/
structure Governed (w w' : World F T τ) : Prop where
  pool : SamePool w.pool w'.pool
  registry : w'.registry = w.registry
  timestamp : w'.timestamp = w.timestamp
  token : w'.token = w.token

omit [BnField F] in
theorem Governed.setPool {pool : ShieldedPool T} (same : SamePool w.pool pool) : Governed w (w.setPool pool) :=
  ⟨same, rfl, rfl, rfl⟩

omit [BnField F] in
theorem setPolicy_governed {verifier : Address} {sourceHash toolchainId : Word}
    {activationEpoch : Nat} {sourceUri : String} (h : setPolicy D w sender verifier sourceHash
      activationEpoch sourceUri toolchainId = .ok (w', events)) : Governed w w' := by
  obtain ⟨pool, promoted, hprom, same⟩ := maybePromotePolicy_spec D w
  simp only [setPolicy, hprom, bind_eq_ok, pure_eq_ok, Prod.mk.injEq] at h
  obtain ⟨_, -, _, -, _, -, _, -, rfl, -⟩ := h
  exact .setPool ⟨same.tree, same.validRoots, same.nullifiers, same.blockedBalance⟩

omit [BnField F] in
theorem cancelPolicy_governed (h : cancelPolicy D w sender = .ok (w', events)) : Governed w w' := by
  obtain ⟨pool, promoted, hprom, same⟩ := maybePromotePolicy_spec D w
  simp only [cancelPolicy, hprom, bind_eq_ok, pure_eq_ok, Prod.mk.injEq] at h
  obtain ⟨_, -, rfl, -⟩ := h
  exact .setPool ⟨same.tree, same.validRoots, same.nullifiers, same.blockedBalance⟩

omit [BnField F] in
theorem pause_governed {untilEpoch : Nat} {blockedExit : Bool}
    (h : pause D w sender untilEpoch blockedExit = .ok (w', events)) : Governed w w' := by
  simp only [pause, bind_eq_ok, pure_eq_ok, Prod.mk.injEq] at h
  obtain ⟨_, -, _, -, _, -, _, -, rfl, -⟩ := h
  apply Governed.setPool
  -- none of the branches writes the tree, the roots, the nullifiers or the credits
  split <;> split <;> split <;> exact ⟨rfl, rfl, rfl, rfl⟩

omit [BnField F] in
theorem setBlockedFundsAccount_governed {newAccount : Address}
    (h : setBlockedFundsAccount D w sender newAccount = .ok (w', events)) : Governed w w' := by
  simp only [setBlockedFundsAccount, bind_eq_ok, pure_eq_ok, Prod.mk.injEq] at h
  obtain ⟨_, -, _, -, _, -, _, -, rfl, -⟩ := h
  exact .setPool ⟨rfl, rfl, rfl, rfl⟩

inductive PoolStep (D : Deployment F T τ) (sender : Address) (w w' : World F T τ) : PoolCall → Prop where
  | deposit {p} (accepted : DepositAccepted D sender w w' p) : PoolStep D sender w w' (.deposit p)
  | transfer {p} (accepted : TransferAccepted D w w' p) : PoolStep D sender w w' (.transfer p)
  | withdraw {p} (accepted : WithdrawAccepted D w w' p) : PoolStep D sender w w' (.withdraw p)
  | withdrawBlocked {p} (accepted : WithdrawBlockedAccepted D w w' p) :
    PoolStep D sender w w' (.withdrawBlocked p)
  | claimBlocked {nullifier} (accepted : ClaimBlockedAccepted D sender w w' nullifier) :
    PoolStep D sender w w' (.claimBlocked nullifier)
  | governed {call} (governed : Governed w w') (nullifiers : call.nullifiers = [])
    (leaves : call.leaves = []) : PoolStep D sender w w' call

theorem PoolCall.run_step {call : PoolCall} (h : PoolCall.run D sender w call = .ok (w', events)) :
    PoolStep D sender w w' call := by
  cases call with
  | deposit p => exact .deposit (deposit_accepted h)
  | transfer p => exact .transfer (transfer_accepted h)
  | withdraw p => exact .withdraw (withdraw_accepted h)
  | withdrawBlocked p => exact .withdrawBlocked (withdrawBlocked_accepted h)
  | claimBlocked nullifier => exact .claimBlocked (claimBlocked_accepted h)
  | setPolicy => exact .governed (setPolicy_governed h) rfl rfl
  | cancelPolicy => exact .governed (cancelPolicy_governed h) rfl rfl
  | pause => exact .governed (pause_governed h) rfl rfl
  | setSingleTxThreshold | setBlockedDestination | recordGrant | rearmGuardian | grantRole |
    revokeRole | renounceRole =>
    obtain ⟨_, -, h⟩ := bind_eq_ok.mp h
    cases pure_eq_ok.mp h
    exact .governed (.setPool ⟨rfl, rfl, rfl, rfl⟩) rfl rfl
  | setUngatedWithdrawVerifier | setCommittee =>
    obtain ⟨_, -, h⟩ := bind_eq_ok.mp h
    obtain ⟨_, -, h⟩ := bind_eq_ok.mp h
    cases pure_eq_ok.mp h
    exact .governed (.setPool ⟨rfl, rfl, rfl, rfl⟩) rfl rfl
  | setBlockedFundsAccount => exact .governed (setBlockedFundsAccount_governed h) rfl rfl

theorem PoolStep.admitted {call : PoolCall} (h : PoolStep D sender w w' call) :
    Admitted D w w' call.nullifiers call.leaves := by
  cases h with
  | deposit accepted | transfer accepted | withdraw accepted
  | withdrawBlocked accepted | claimBlocked accepted =>
    exact accepted.admitted
  | governed governed nullifiers leaves =>
    rw [nullifiers, leaves]
    exact .frame governed.pool.tree governed.pool.validRoots governed.pool.nullifiers
      governed.registry governed.timestamp

/-! ## What every run keeps of the tree and the nullifiers -/

abbrev PoolInv (D : Deployment F T τ) (tr : List Step) (w : World F T τ) : Prop :=
  D.imt.NotesInv (merkleHash D.hash) Scalar.ofNat (BnField.canonical F) (marked tr) (inserted tr)
    w.pool.tree w.pool.validRoots w.pool.nullifiers

section
variable {tr : List Step}

theorem PoolInv.step (inv : PoolInv D tr w) (hL : D.imt.Lawful (merkleHash D.hash)) {st : Step}
    (h : Admitted D w w' st.nullifiers st.leaves) : PoolInv D (st :: tr) w' := by
  rw [PoolInv, inserted_cons]
  exact LeanImt.NotesInv.step inv hL BnField.ofNat_toNat h.canonical h.nodup h.fresh h.marks h.tree h.roots

/-- A step that does not touch the pool. -/
theorem PoolInv.idle (inv : PoolInv D tr w) {st : Step} (hpool : w'.pool = w.pool)
    (hn : st.nullifiers = []) (hl : st.leaves = []) : PoolInv D (st :: tr) w' := by
  rw [PoolInv, inserted_cons, marked_cons, hn, hl, List.append_nil, hpool]
  exact inv

/-- The pool of a fresh deployment. -/
theorem Deployed.fresh (h : Deployed D w) : w.pool.tree = D.imt.empty ∧
    (∀ r, w.pool.validRoots r = false) ∧ (∀ n, w.pool.nullifiers n = false) ∧
    w.pool.blockedBalance = fun _ => 0 := by
  obtain ⟨-, hpool⟩ := h
  simp only [ShieldedPool.new, bind_eq_ok, pure_eq_ok] at hpool
  obtain ⟨_, -, _, -, _, -, _, -, rfl⟩ := hpool
  exact ⟨rfl, fun _ => rfl, fun _ => rfl, rfl⟩

theorem Run.poolInv (hL : D.imt.Lawful (merkleHash D.hash)) {w₀ : World F T τ} (h₀ : Deployed D w₀)
    (hrun : Run (Transition D) w₀ tr w) : PoolInv D tr w := by
  refine hrun.invariant (I := PoolInv D) ?_ ?_
  · obtain ⟨htree, hroots, hnull, -⟩ := h₀.fresh
    exact
      { leaves := by rw [htree, hL.leaves_empty]; rfl
        nodup := by rw [htree, hL.leaves_empty]; exact List.nodup_nil
        roots := fun r hr => by simp [hroots r] at hr
        nullifiers := fun n => by simp [hnull n, marked]
        marked_nodup := List.nodup_nil
        canonical := by simp [marked, inserted] }
  · intro tr w st w' _ hstep inv
    cases hstep with
    | pool _ ok => exact inv.step hL (PoolCall.run_step ok).admitted
    | registry | poolReverted | registryReverted | tick | elsewhere => exact inv.idle rfl rfl rfl

/-- The root of the current tree, or of an earlier one. -/
theorem PoolInv.known (inv : PoolInv D tr w) (hL : D.imt.Lawful (merkleHash D.hash)) {r : Word}
    (h : isKnownRoot D w r = true) : Scalar.ofNat r = (0 : F) ∨
      Merkle.Spans (merkleHash D.hash) (D.imt.leaves w.pool.tree) (Scalar.ofNat r) :=
  hL.known BnField.ofNat_toNat inv.roots (isKnownRoot_iff.mp h)

end

end Pocs.Compliance
