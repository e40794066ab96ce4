import Pocs.Lib.Notes
import Pocs.Mmf.Pool

/-! # Runs of the fund

The pool and the registry on one chain: calls of anyone in any order, the clock, and the token moving
elsewhere. Each accepted call has a structure of what it was checked for and what it wrote; `PoolInv`
is what every run keeps of the tree and the nullifiers. -/

namespace Pocs.Mmf

open Compliance (BnField Word Address merkleHash)

variable {F T τ : Type} [FeedField F]

/-- Each verifier accepts only what its circuit can prove. -/
structure Deployment.Sound (D : Deployment F T τ) : Prop where
  deposit : ∀ {verifier proof inputs}, D.verifyDeposit verifier proof inputs = true →
    ∃ pub wit, inputs.map Scalar.ofNat = DepositPublic.toFields pub ∧
      depositMain D.toPrimitives pub wit = .ok ()
  transfer : ∀ {verifier proof inputs}, D.verifyTransfer verifier proof inputs = true →
    ∃ pub wit, inputs.map Scalar.ofNat = TransferPublic.toFields pub ∧
      transferMain D.toPrimitives pub wit = .ok ()
  withdraw : ∀ {verifier proof inputs}, D.verifyWithdraw verifier proof inputs = true →
    ∃ pub wit, inputs.map Scalar.ofNat = WithdrawPublic.toFields pub ∧
      withdrawMain D.toPrimitives pub wit = .ok ()

/-- A transaction, or the passage of time. -/
inductive Step where
  | pool (sender : Address) (call : PoolCall) (events : List PoolEvent)
  | registry (sender : Address) (call : RegistryCall)
  | reverted (sender : Address)
  | tick (timestamp : Nat)
  | inflow

/-- The pool never calls itself, the clock does not go back, and nobody else spends the pool's
balance: yield and donations come in. -/
inductive Transition (D : Deployment F T τ) (w : World T τ) : Step → World T τ → Prop where
  | pool {sender call w' events} (sender_ne : sender ≠ D.address)
    (ok : PoolCall.run D sender w call = .ok (w', events)) :
    Transition D w (.pool sender call events) w'
  | registry {sender call registry events}
    (ok : RegistryCall.run D.toRegistryConfig sender w.timestamp w.registry call =
      .ok (registry, events)) : Transition D w (.registry sender call) { w with registry }
  | poolReverted {sender call e} (err : PoolCall.run D sender w call = .error e) :
    Transition D w (.reverted sender) w
  | registryReverted {sender call e}
    (err : RegistryCall.run D.toRegistryConfig sender w.timestamp w.registry call = .error e) :
    Transition D w (.reverted sender) w
  | tick {timestamp} (le : w.timestamp ≤ timestamp) : Transition D w (.tick timestamp) { w with timestamp }
  | inflow {token} (balance : w.balance D ≤ D.token.balanceOf token D.address) :
    Transition D w .inflow { w with token }

/-- Both contracts as they were deployed. -/
inductive Deployed (D : Deployment F T τ) : World T τ → Prop where
  | mk {timestamp attester timelock params registry pool token}
    (registry_new : AttestationRegistry.new D.toRegistryConfig attester timelock = .ok registry)
    (pool_new : ShieldedPool.new D timestamp params = .ok pool) :
    Deployed D ⟨timestamp, registry, pool, token⟩

/-! ## What a call writes to the tree and the nullifiers -/

def PoolCall.nullifiers : PoolCall → List Word
  | .transfer p => [p.nullifier0, p.nullifier1]
  | .withdraw p => [p.nullifier]
  | _ => []

def PoolCall.leaves : PoolCall → List Word
  | .deposit p => [p.commitment]
  | .transfer p => [p.commitmentOut0, p.commitmentOut1]
  | _ => []

def Step.nullifiers : Step → List Word
  | .pool _ call _ => call.nullifiers
  | _ => []

def Step.leaves : Step → List Word
  | .pool _ call _ => call.leaves
  | _ => []

/-- The nullifiers marked in a run, newest call first. -/
def marked (tr : List Step) : List Word := tr.flatMap Step.nullifiers

def inserted (tr : List Step) : List Word := tr.reverse.flatMap Step.leaves

@[simp] theorem marked_cons (st : Step) (tr : List Step) : marked (st :: tr) = st.nullifiers ++ marked tr := rfl

@[simp] theorem inserted_cons (st : Step) (tr : List Step) :
    inserted (st :: tr) = inserted tr ++ st.leaves := by
  simp [inserted]

structure Admitted (D : Deployment F T τ) (w w' : World T τ) (nullifiers leaves : List Word) : Prop where
  canonical : ∀ n ∈ nullifiers ++ leaves, BnField.canonical F n = true
  nodup : nullifiers.Nodup
  fresh : ∀ n ∈ nullifiers, w.pool.nullifiers n = false
  marks : ∀ n, w'.pool.nullifiers n = true ↔ n ∈ nullifiers ∨ w.pool.nullifiers n = true
  tree : (leaves.map Scalar.ofNat).foldlM (fun tree leaf => D.imt.insert leaf tree) w.pool.tree =
    .ok w'.pool.tree
  roots : ∀ r, w'.pool.historicalRoots.valid r = true → w.pool.historicalRoots.valid r = true ∨
    leaves ≠ [] ∧ r = Scalar.toNat (D.imt.root w'.pool.tree)
  registry : w'.registry = w.registry
  timestamp : w'.timestamp = w.timestamp

variable {D : Deployment F T τ} {w w' : World T τ} {sender : Address} {events : List PoolEvent}

/-- What the calls that move no notes leave alone. -/
structure Governed (w w' : World T τ) : Prop where
  tree : w'.pool.tree = w.pool.tree
  historicalRoots : w'.pool.historicalRoots = w.pool.historicalRoots
  nullifiers : w'.pool.nullifiers = w.pool.nullifiers
  totalUnits : w'.pool.totalUnits = w.pool.totalUnits
  registry : w'.registry = w.registry
  timestamp : w'.timestamp = w.timestamp
  token : w'.token = w.token

theorem Governed.admitted (h : Governed w w') : Admitted D w w' [] [] where
  canonical := by simp
  nodup := List.nodup_nil
  fresh := by simp
  marks n := by simp [h.nullifiers]
  tree := by rw [h.tree]; rfl
  roots r hr := .inl (h.historicalRoots ▸ hr)
  registry := h.registry
  timestamp := h.timestamp

theorem requireCanonical_eq_ok {inputs : List Word} {u : Unit} :
    requireCanonical F inputs = .ok u ↔ ∀ n ∈ inputs, BnField.canonical F n = true := by
  simp only [requireCanonical, forM_eq_ok, failIf_eq_ok, Bool.not_eq_false]

theorem isKnownRoot_iff {r : Word} : isKnownRoot D w r = true ↔
    r = commitmentRoot D w.pool ∨ w.pool.historicalRoots.valid r = true := by
  simp [isKnownRoot]

/-- Marking nullifiers, inserting leaves and recording the root. -/
theorem Admitted.of_insertAll {pool : ShieldedPool T} (w' : World T τ) (ns ls : List Word)
    (canonical : ∀ n ∈ ns ++ ls, BnField.canonical F n = true) (nodup : ns.Nodup)
    (fresh : ∀ n ∈ ns, w.pool.nullifiers n = false)
    (hins : insertAll D (w.pool.markAll ns) ls = .ok pool) (hls : ls ≠ [])
    (tree : w'.pool.tree = pool.tree) (nullifiers : w'.pool.nullifiers = pool.nullifiers)
    (historicalRoots : w'.pool.historicalRoots = (recordRoot D pool).historicalRoots)
    (registry : w'.registry = w.registry) (timestamp : w'.timestamp = w.timestamp) : Admitted D w w' ns ls := by
  simp only [insertAll, bind_eq_ok, mapErr_eq_ok, pure_eq_ok] at hins
  obtain ⟨tree', htree, rfl⟩ := hins
  refine ⟨canonical, nodup, fresh, fun n => ?_, ?_, fun r hr => ?_, registry, timestamp⟩
  · rw [nullifiers]
    exact foldl_mark
  · rw [tree]
    exact htree
  · rw [historicalRoots] at hr
    rcases RootRing.valid_of_record hr with rfl | hold
    · exact .inr ⟨hls, by rw [tree]; rfl⟩
    · exact .inl hold

/-! ## What an accepted call was checked for -/

/-- The multiplier after a trade: while units are left, it is read from the balance and did not
fall. -/
structure Settled (D : Deployment F T τ) (w w' : World T τ) (m : Nat) : Prop where
  checked : checkedMultiplier D w = .ok m
  live : w'.pool.totalUnits ≠ 0 →
    mulDiv (w'.balance D) multiplierScale w'.pool.totalUnits = .ok w'.pool.lastMultiplier ∧
      m ≤ w'.pool.lastMultiplier
  empty : w'.pool.totalUnits = 0 → w'.pool.lastMultiplier = w.pool.lastMultiplier
  halted : w'.pool.halted = w.pool.halted

omit [FeedField F] in
theorem settleMultiplier_ok {w₁ : World T τ} {m : Nat} (h : settleMultiplier D w₁ m = .ok w') :
    ∃ last, w' = w₁.setPool { w₁.pool with lastMultiplier := last } ∧ (w₁.pool.totalUnits ≠ 0 →
        mulDiv (w₁.balance D) multiplierScale w₁.pool.totalUnits = .ok last ∧ m ≤ last) ∧
      (w₁.pool.totalUnits = 0 → last = w₁.pool.lastMultiplier) := by
  simp only [settleMultiplier, multiplier, bind_eq_ok, failIf_eq_ok, pure_eq_ok, exists_const,
    not_and, Nat.not_lt] at h
  obtain ⟨last, hlast, hge, rfl⟩ := h
  refine ⟨last, rfl, fun hne => ?_, fun hzero => ?_⟩
  · rw [if_neg hne] at hlast
    exact ⟨hlast, hge hne⟩
  · rw [if_pos hzero, pure_eq_ok] at hlast
    exact hlast.symm

omit [FeedField F] in
theorem Settled.of_settleMultiplier {w₁ : World T τ} {m : Nat} (checked : checkedMultiplier D w = .ok m)
    (h : settleMultiplier D w₁ m = .ok w') (last : w₁.pool.lastMultiplier = w.pool.lastMultiplier)
    (halted : w₁.pool.halted = w.pool.halted) : Settled D w w' m := by
  obtain ⟨_, rfl, live, empty⟩ := settleMultiplier_ok h
  exact ⟨checked, live, fun hzero => (empty hzero).trans last, halted⟩

structure DepositAccepted (D : Deployment F T τ) (sender : Address) (w w' : World T τ)
    (p : DepositParams) (m shares : Nat) : Prop where
  canonical : ∀ n ∈ p.inputs D w sender, BnField.canonical F n = true
  units : p.units ≠ 0
  agent : w.pool.totalUnits = 0 → sender = w.pool.transferAgent
  epoch : p.epoch = w.epoch D
  attestationRoot : w.registry.isKnownAttestationRoot D.toRegistryConfig p.attestationRoot = true
  proof : D.verifyDeposit w.pool.verifier p.proof (p.inputs D w sender) = true
  admitted : Admitted D w w' (PoolCall.deposit p).nullifiers (PoolCall.deposit p).leaves
  totalUnits : w'.pool.totalUnits = w.pool.totalUnits + p.units.toNat
  priced : mulDivUp p.units.toNat m multiplierScale = .ok shares
  paid : D.token.transferFrom D.address sender D.address shares w.token = some w'.token
  settled : Settled D w w' m
  registerKey : w'.pool.registerKey = w.pool.registerKey
  registerKeyVersion : w'.pool.registerKeyVersion = w.pool.registerKeyVersion

theorem deposit_accepted {p : DepositParams} (h : deposit D w sender p = .ok (w', events)) :
    ∃ m shares, DepositAccepted D sender w w' p m shares ∧
      events = [.deposit p.commitment p.units shares p.feedR p.feedCt p.recipientPayload] := by
  simp only [deposit, checkEpoch, checkAttestationRoot, bind_eq_ok, failIf_eq_ok,
    requireCanonical_eq_ok, okOr_eq_ok, checkedAdd_eq_some, pure_eq_ok, exists_const, not_not,
    not_and, Bool.not_eq_false, Prod.mk.injEq] at h
  obtain ⟨_, -, canonical, units, agent, epoch, _, -, root, m, checked, proof, pool, hins, total,
    ⟨-, htotal⟩, shares, hshares, token, paid, w₁, hsettle, rfl, rfl⟩ := h
  have hsettled := Settled.of_settleMultiplier checked hsettle
  obtain ⟨last, rfl, -⟩ := settleMultiplier_ok hsettle
  have hpool := hins
  simp only [insertAll, bind_eq_ok, mapErr_eq_ok, pure_eq_ok] at hpool
  obtain ⟨tree, -, rfl⟩ := hpool
  refine ⟨m, shares, ?_, rfl⟩
  exact
    { canonical := canonical
      units := units
      agent := agent
      epoch := epoch
      attestationRoot := root
      proof := proof
      admitted := .of_insertAll _ [] [p.commitment] (fun n hn => canonical n (by
          obtain rfl := List.mem_singleton.mp hn
          simp [DepositParams.inputs]))
        List.nodup_nil (by simp) hins (List.cons_ne_nil _ _) rfl rfl rfl rfl rfl
      totalUnits := htotal.symm
      priced := hshares
      paid := paid
      settled := hsettled rfl rfl
      registerKey := rfl
      registerKeyVersion := rfl }

structure TransferAccepted (D : Deployment F T τ) (w w' : World T τ) (p : TransferParams) : Prop where
  canonical : ∀ n ∈ p.inputs D w, BnField.canonical F n = true
  epoch : p.epoch = w.epoch D
  root : isKnownRoot D w p.commitmentRoot = true
  attestationRoot : w.registry.isKnownAttestationRoot D.toRegistryConfig p.attestationRoot = true
  proof : D.verifyTransfer w.pool.verifier p.proof (p.inputs D w) = true
  admitted : Admitted D w w' (PoolCall.transfer p).nullifiers (PoolCall.transfer p).leaves
  totalUnits : w'.pool.totalUnits = w.pool.totalUnits
  lastMultiplier : w'.pool.lastMultiplier = w.pool.lastMultiplier
  halted : w'.pool.halted = w.pool.halted
  paid : w'.token = w.token
  registerKey : w'.pool.registerKey = w.pool.registerKey
  registerKeyVersion : w'.pool.registerKeyVersion = w.pool.registerKeyVersion

theorem transfer_accepted {p : TransferParams} (h : transfer D w p = .ok (w', events)) :
    TransferAccepted D w w' p ∧ events = [.transfer p.nullifier0 p.nullifier1 p.commitmentOut0
      p.commitmentOut1 p.feedR p.feedCt p.recipientPayload] := by
  simp only [transfer, checkEpoch, checkAttestationRoot, bind_eq_ok, failIf_eq_ok,
    requireCanonical_eq_ok, pure_eq_ok, exists_const, not_not, not_or, Bool.not_eq_false,
    Bool.not_eq_true, Prod.mk.injEq] at h
  obtain ⟨_, -, canonical, epoch, _, -, hne, fresh, root, attestationRoot, proof, pool, hins, rfl, rfl⟩ := h
  have hpool := hins
  simp only [insertAll, bind_eq_ok, mapErr_eq_ok, pure_eq_ok] at hpool
  obtain ⟨tree, -, rfl⟩ := hpool
  refine ⟨?_, rfl⟩
  exact
    { canonical := canonical
      epoch := epoch
      root := root
      attestationRoot := attestationRoot
      proof := proof
      admitted := .of_insertAll _ [p.nullifier0, p.nullifier1] [p.commitmentOut0, p.commitmentOut1]
        (fun n hn => canonical n (by
          simp only [List.cons_append, List.nil_append, List.mem_cons, List.not_mem_nil, or_false] at hn
          simp only [TransferParams.inputs, List.mem_append, List.mem_cons]
          tauto))
        (by simp [hne]) (by simpa using fresh) hins (List.cons_ne_nil _ _) rfl rfl rfl rfl rfl
      totalUnits := rfl
      lastMultiplier := rfl
      halted := rfl
      paid := rfl
      registerKey := rfl
      registerKeyVersion := rfl }

structure WithdrawAccepted (D : Deployment F T τ) (w w' : World T τ) (p : WithdrawParams)
    (m shares : Nat) : Prop where
  canonical : ∀ n ∈ p.inputs D w, BnField.canonical F n = true
  units : p.units ≠ 0
  epoch : p.epoch = w.epoch D
  root : isKnownRoot D w p.commitmentRoot = true
  attestationRoot : w.registry.isKnownAttestationRoot D.toRegistryConfig p.attestationRoot = true
  proof : D.verifyWithdraw w.pool.verifier p.proof (p.inputs D w) = true
  admitted : Admitted D w w' (PoolCall.withdraw p).nullifiers (PoolCall.withdraw p).leaves
  totalUnits : w'.pool.totalUnits + p.units.toNat = w.pool.totalUnits
  priced : mulDiv p.units.toNat m multiplierScale = .ok shares
  paid : D.token.transfer D.address p.recipient shares w.token = some w'.token
  settled : Settled D w w' m
  registerKey : w'.pool.registerKey = w.pool.registerKey
  registerKeyVersion : w'.pool.registerKeyVersion = w.pool.registerKeyVersion

theorem withdraw_accepted {p : WithdrawParams} (h : withdraw D w p = .ok (w', events)) :
    ∃ m shares, WithdrawAccepted D w w' p m shares ∧
      events = [.withdraw p.nullifier p.recipient p.units shares] := by
  simp only [withdraw, checkEpoch, checkAttestationRoot, bind_eq_ok, failIf_eq_ok,
    requireCanonical_eq_ok, okOr_eq_ok, pure_eq_ok, exists_const, not_not, Bool.not_eq_false,
    Bool.not_eq_true, Nat.not_lt, Prod.mk.injEq] at h
  obtain ⟨_, -, canonical, units, -, epoch, fresh, root, attestationRoot, m, checked, proof, hle,
    shares, hshares, token, paid, w₁, hsettle, rfl, rfl⟩ := h
  have hsettled := Settled.of_settleMultiplier checked hsettle
  obtain ⟨last, rfl, -⟩ := settleMultiplier_ok hsettle
  refine ⟨m, shares, ?_, rfl⟩
  exact
    { canonical := canonical
      units := units
      epoch := epoch
      root := root
      attestationRoot := attestationRoot
      proof := proof
      admitted :=
        { canonical := fun n hn => canonical n (by
            obtain rfl := List.mem_singleton.mp hn
            simp [WithdrawParams.inputs])
          nodup := List.nodup_singleton _
          fresh := fun n hn => by
            obtain rfl := List.mem_singleton.mp hn
            exact fresh
          marks := fun n => foldl_mark
          tree := rfl
          roots := fun r hr => .inl hr
          registry := rfl
          timestamp := rfl }
      totalUnits := Nat.sub_add_cancel hle
      priced := hshares
      paid := paid
      settled := hsettled rfl rfl
      registerKey := rfl
      registerKeyVersion := rfl }

/-! ### Calls that move no notes -/

omit [FeedField F] in
theorem Governed.setPool {pool : ShieldedPool T} (tree : pool.tree = w.pool.tree)
    (historicalRoots : pool.historicalRoots = w.pool.historicalRoots)
    (nullifiers : pool.nullifiers = w.pool.nullifiers)
    (totalUnits : pool.totalUnits = w.pool.totalUnits) : Governed w (w.setPool pool) :=
  ⟨tree, historicalRoots, nullifiers, totalUnits, rfl, rfl, rfl⟩

omit [FeedField F] in
theorem checkpoint_governed {registerHash : Word} {expectedUnits : Nat}
    (h : checkpoint D w sender registerHash expectedUnits = .ok (w', events)) : Governed w w' := by
  simp only [checkpoint, bind_eq_ok, pure_eq_ok] at h
  obtain ⟨_, -, _, -, m, -, h⟩ := h
  split at h
  · split at h <;> cases h <;> exact ⟨rfl, rfl, rfl, rfl, rfl, rfl, rfl⟩
  · cases h
    exact ⟨rfl, rfl, rfl, rfl, rfl, rfl, rfl⟩

omit [FeedField F] in
theorem pause_governed {untilEpoch : Nat} (h : pause D w sender untilEpoch = .ok (w', events)) :
    Governed w w' := by
  simp only [pause, bind_eq_ok, pure_eq_ok, Prod.mk.injEq] at h
  obtain ⟨_, -, _, -, _, -, _, -, rfl, -⟩ := h
  -- neither the window nor the budget is about notes
  split <;> split <;> exact ⟨rfl, rfl, rfl, rfl, rfl, rfl, rfl⟩

/-- What an accepted call of the pool did. -/
inductive PoolStep (D : Deployment F T τ) (sender : Address) (w w' : World T τ)
    (events : List PoolEvent) : PoolCall → Prop where
  | deposit {p m shares} (accepted : DepositAccepted D sender w w' p m shares)
    (emits : events = [.deposit p.commitment p.units shares p.feedR p.feedCt p.recipientPayload]) :
    PoolStep D sender w w' events (.deposit p)
  | transfer {p} (accepted : TransferAccepted D w w' p)
    (emits : events = [.transfer p.nullifier0 p.nullifier1 p.commitmentOut0 p.commitmentOut1 p.feedR
      p.feedCt p.recipientPayload]) : PoolStep D sender w w' events (.transfer p)
  | withdraw {p m shares} (accepted : WithdrawAccepted D w w' p m shares)
    (emits : events = [.withdraw p.nullifier p.recipient p.units shares]) :
    PoolStep D sender w w' events (.withdraw p)
  | governed {call} (governed : Governed w w') (nullifiers : call.nullifiers = [])
    (leaves : call.leaves = []) : PoolStep D sender w w' events call

theorem PoolCall.run_step {call : PoolCall} (h : PoolCall.run D sender w call = .ok (w', events)) :
    PoolStep D sender w w' events call := by
  cases call with
  | deposit p =>
    obtain ⟨m, shares, accepted, emits⟩ := deposit_accepted h
    exact .deposit accepted emits
  | transfer p =>
    obtain ⟨accepted, emits⟩ := transfer_accepted h
    exact .transfer accepted emits
  | withdraw p =>
    obtain ⟨m, shares, accepted, emits⟩ := withdraw_accepted h
    exact .withdraw accepted emits
  | checkpoint => exact .governed (checkpoint_governed h) rfl rfl
  | pause => exact .governed (pause_governed h) rfl rfl
  | recordGrant =>
    obtain ⟨_, -, h⟩ := bind_eq_ok.mp h
    cases pure_eq_ok.mp h
    exact .governed ⟨rfl, rfl, rfl, rfl, rfl, rfl, rfl⟩ rfl rfl
  | rearmGuardian | grantRole | revokeRole | renounceRole =>
    obtain ⟨_, -, h⟩ := bind_eq_ok.mp h
    cases pure_eq_ok.mp h
    exact .governed (.setPool rfl rfl rfl rfl) rfl rfl
  | setVerifier | setClaimKeyHash | setTransferAgent =>
    obtain ⟨_, -, h⟩ := bind_eq_ok.mp h
    obtain ⟨_, -, h⟩ := bind_eq_ok.mp h
    cases pure_eq_ok.mp h
    exact .governed (.setPool rfl rfl rfl rfl) rfl rfl
  | setRegisterKey | clearHalt =>
    obtain ⟨_, -, h⟩ := bind_eq_ok.mp h
    obtain ⟨_, -, h⟩ := bind_eq_ok.mp h
    obtain ⟨_, -, h⟩ := bind_eq_ok.mp h
    obtain ⟨_, -, h⟩ := bind_eq_ok.mp h
    cases pure_eq_ok.mp h
    exact .governed (.setPool rfl rfl rfl rfl) rfl rfl

theorem PoolStep.admitted {call : PoolCall} (h : PoolStep D sender w w' events call) :
    Admitted D w w' call.nullifiers call.leaves := by
  cases h with
  | deposit accepted | transfer accepted | withdraw accepted => exact accepted.admitted
  | governed governed nullifiers leaves =>
    rw [nullifiers, leaves]
    exact governed.admitted

/-! ## What every run keeps of the tree and the nullifiers -/

abbrev PoolInv (D : Deployment F T τ) (tr : List Step) (w : World T τ) : Prop :=
  D.imt.NotesInv (merkleHash D.hash) Scalar.ofNat (BnField.canonical F) (marked tr) (inserted tr)
    w.pool.tree w.pool.historicalRoots.valid w.pool.nullifiers

section
variable {tr : List Step}

theorem PoolInv.step (inv : PoolInv D tr w) (hL : D.imt.Lawful (merkleHash D.hash)) {st : Step}
    (h : Admitted D w w' st.nullifiers st.leaves) : PoolInv D (st :: tr) w' := by
  rw [PoolInv, inserted_cons]
  exact LeanImt.NotesInv.step inv hL BnField.ofNat_toNat h.canonical h.nodup h.fresh h.marks h.tree h.roots

/-- A step that does not touch the pool. -/
theorem PoolInv.idle (inv : PoolInv D tr w) {st : Step} (hpool : w'.pool = w.pool)
    (hn : st.nullifiers = []) (hl : st.leaves = []) : PoolInv D (st :: tr) w' := by
  rw [PoolInv, inserted_cons, marked_cons, hn, hl, List.append_nil, hpool]
  exact inv

/-- The pool of a fresh deployment. -/
theorem Deployed.pool_new (h : Deployed D w) :
    ∃ timestamp params, ShieldedPool.new D timestamp params = .ok w.pool := by
  obtain ⟨-, hpool⟩ := h
  exact ⟨_, _, hpool⟩

theorem ShieldedPool.new_ok {timestamp : Nat} {params : ConstructorParams} {pool : ShieldedPool T}
    (h : ShieldedPool.new D timestamp params = .ok pool) : D.epochSeconds = circuitEpochSeconds ∧
      pool.tree = D.imt.empty ∧ pool.historicalRoots = .empty ∧ pool.nullifiers = (fun _ => false) ∧
      pool.totalUnits = 0 ∧ pool.halted = false ∧ pool.registerKey = params.registerKey ∧
      pool.registerKeyVersion = 0 := by
  simp only [ShieldedPool.new, bind_eq_ok, failIf_eq_ok, pure_eq_ok, exists_const, not_not] at h
  obtain ⟨-, hepoch, -, -, -, -, rfl⟩ := h
  exact ⟨hepoch, rfl, rfl, rfl, rfl, rfl, rfl, rfl⟩

theorem Run.poolInv (hL : D.imt.Lawful (merkleHash D.hash)) {w₀ : World T τ} (h₀ : Deployed D w₀)
    (hrun : Run (Transition D) w₀ tr w) : PoolInv D tr w := by
  refine hrun.invariant (I := PoolInv D) ?_ ?_
  · obtain ⟨_, _, hnew⟩ := h₀.pool_new
    obtain ⟨-, htree, hroots, hnull, -⟩ := ShieldedPool.new_ok hnew
    exact
      { leaves := by rw [htree, hL.leaves_empty]; rfl
        nodup := by rw [htree, hL.leaves_empty]; exact List.nodup_nil
        roots := fun r hr => by
          rw [hroots, RootRing.valid_empty] at hr
          cases hr
        nullifiers := fun n => by simp [hnull, marked]
        marked_nodup := List.nodup_nil
        canonical := by simp [marked, inserted] }
  · intro tr w st w' _ hstep inv
    cases hstep with
    | pool _ ok => exact inv.step hL (PoolCall.run_step ok).admitted
    | registry | poolReverted | registryReverted | tick | inflow => exact inv.idle rfl rfl rfl

/-- The root of the current tree, or of an earlier one. -/
theorem PoolInv.known (inv : PoolInv D tr w) (hL : D.imt.Lawful (merkleHash D.hash)) {r : Word}
    (h : isKnownRoot D w r = true) : Scalar.ofNat r = (0 : F) ∨
      Merkle.Spans (merkleHash D.hash) (D.imt.leaves w.pool.tree) (Scalar.ofNat r) :=
  hL.known BnField.ofNat_toNat inv.roots (isKnownRoot_iff.mp h)

end

end Pocs.Mmf
