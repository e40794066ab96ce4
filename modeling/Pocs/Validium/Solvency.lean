import Pocs.Validium.Verifier

/-! # Solvency of the bridge

With proofs that move value as they say, the bridge holds what is below the leaves that have not been claimed.
Behind this is one tree for every root: its total falls with each withdrawal, so that no root is withdrawn
from twice. -/

namespace Pocs.Validium

open AccountTree

variable {W τ : Type}

/-! ## Payments of a run -/

def Step.escapes : Step W → List (Nat × UInt64)
  | .call _ _ (.escapeWithdraw leafIndex _ balance _ _) => [(leafIndex, balance)]
  | _ => []

def Step.processed : Step W → List Nat
  | .call _ _ (.processForcedWithdrawal requestId) => [requestId]
  | _ => []

/-- The root that is withdrawn from, in either way. -/
def Step.withdrawnFrom : Step W → List W
  | .call _ _ (.withdraw _ oldRoot _ _ _) => [oldRoot]
  | .call _ before (.processForcedWithdrawal requestId) => [(before.forcedRequests requestId).oldRoot]
  | _ => []

def escapes (tr : List (Step W)) : List (Nat × UInt64) := tr.flatMap Step.escapes
def processed (tr : List (Step W)) : List Nat := tr.flatMap Step.processed
def withdrawnFrom (tr : List (Step W)) : List W := tr.flatMap Step.withdrawnFrom

variable {tr : List (Step W)} {st : Step W}

@[simp] theorem escapes_cons (st : Step W) (tr : List (Step W)) :
    escapes (st :: tr) = st.escapes ++ escapes tr := rfl

@[simp] theorem processed_cons (st : Step W) (tr : List (Step W)) :
    processed (st :: tr) = st.processed ++ processed tr := rfl

@[simp] theorem withdrawnFrom_cons (st : Step W) (tr : List (Step W)) :
    withdrawnFrom (st :: tr) = st.withdrawnFrom ++ withdrawnFrom tr := rfl

/-- The claimed leaves are those of the run, each claimed once, and all after the freeze. -/
structure ClaimsInv (tr : List (Step W)) (b : Bridge W) : Prop where
  claimed : ∀ i, b.claimed i = true ↔ i ∈ (escapes tr).map (·.1)
  nodup : ((escapes tr).map (·.1)).Nodup
  unfrozen : b.frozen = false → escapes tr = []

theorem ClaimsInv.frame {b b' : Bridge W} (h : ClaimsInv tr b) (hst : st.escapes = [])
    (hclaimed : b'.claimed = b.claimed) (hfrozen : b.frozen = true → b'.frozen = true) :
    ClaimsInv (st :: tr) b' := by
  constructor
  · rw [escapes_cons, hst, hclaimed]
    exact h.claimed
  · rw [escapes_cons, hst]
    exact h.nodup
  · intro hf
    rw [escapes_cons, hst]
    apply h.unfrozen
    cases hb : b.frozen with
    | false => rfl
    | true => exact absurd (hf.symm.trans (hfrozen hb)) Bool.false_ne_true

theorem ClaimsInv.unclaimed {b : Bridge W} (h : ClaimsInv tr b) (live : b.frozen = false) :
    b.claimed = fun _ => false := by
  funext i
  have hnone := h.claimed i
  rw [h.unfrozen live] at hnone
  cases hi : b.claimed i with
  | false => rfl
  | true => exact absurd (hnone.mp hi) List.not_mem_nil

variable [DecidableEq W] {D : Deployment W τ} {w w' w₀ : World W τ} {depth : Nat}

theorem ClaimsInv.step (h : ClaimsInv tr w.bridge) (hstep : Transition D w st w') :
    ClaimsInv (st :: tr) w'.bridge := by
  cases hstep with
  | reverted | tick | inflow => exact h.frame rfl rfl id
  | call hne ok =>
    have haccepted := Call.run_eq_ok.mp ok
    cases haccepted with
    | deposit | withdraw | postTransferBatch | requestForcedWithdrawal | processForcedWithdrawal =>
      exact h.frame rfl rfl id
    | freeze live _ => exact h.frame rfl rfl fun _ => rfl
    | freezeOnExpiredRequest live _ _ _ => exact h.frame rfl rfl fun _ => rfl
    | @escapeWithdraw leafIndex _ balance _ _ _ frozen unclaimed _ _ _ _ =>
      have hnew : leafIndex ∉ (escapes tr).map (·.1) := fun hmem =>
        absurd (unclaimed.symm.trans ((h.claimed leafIndex).mpr hmem)) Bool.false_ne_true
      constructor
      · intro i
        show Function.update w.bridge.claimed leafIndex true i = true ↔ i ∈ leafIndex :: (escapes tr).map (·.1)
        rw [List.mem_cons, ← h.claimed]
        rcases eq_or_ne i leafIndex with rfl | hi
        · simp
        · simp [hi]
      · exact List.nodup_cons.mpr ⟨hnew, h.nodup⟩
      · exact fun hf => absurd (hf.symm.trans frozen) Bool.false_ne_true

/-- A stored request has been verified, and one that was processed is gone. -/
structure RequestsInv (D : Deployment W τ) (tr : List (Step W)) (b : Bridge W) : Prop where
  nodup : (processed tr).Nodup
  gone : ∀ id ∈ processed tr, id < b.forcedRequestCount ∧ (b.forcedRequests id).deadline = 0
  lt : ∀ id, (b.forcedRequests id).deadline ≠ 0 → id < b.forcedRequestCount
  verified : ∀ id, (b.forcedRequests id).deadline ≠ 0 → (b.forcedRequests id).amount ≠ 0 ∧
    ∃ proof, D.verifyWithdrawal proof (b.forcedRequests id).oldRoot (b.forcedRequests id).newRoot
      (b.forcedRequests id).amount (b.forcedRequests id).recipient = true

omit [DecidableEq W] in
theorem RequestsInv.frame {b b' : Bridge W} (h : RequestsInv D tr b) (hst : st.processed = [])
    (hrequests : b'.forcedRequests = b.forcedRequests)
    (hcount : b'.forcedRequestCount = b.forcedRequestCount) : RequestsInv D (st :: tr) b' := by
  constructor
  · rw [processed_cons, hst]
    exact h.nodup
  · rw [processed_cons, hst, hrequests, hcount]
    exact h.gone
  · rw [hrequests, hcount]
    exact h.lt
  · rw [hrequests]
    exact h.verified

theorem RequestsInv.step (h : RequestsInv D tr w.bridge) (hstep : Transition D w st w') :
    RequestsInv D (st :: tr) w'.bridge := by
  cases hstep with
  | reverted | tick | inflow => exact h.frame rfl rfl rfl
  | call hne ok =>
    have haccepted := Call.run_eq_ok.mp ok
    cases haccepted with
    | deposit | withdraw | postTransferBatch | freeze | freezeOnExpiredRequest | escapeWithdraw =>
      exact h.frame rfl rfl rfl
    | requestForcedWithdrawal live pos verified =>
      refine ⟨h.nodup, ?_, ?_, ?_⟩
      · intro id hid
        obtain ⟨hlt, hgone⟩ := h.gone id hid
        refine ⟨Nat.lt_succ_of_lt hlt, ?_⟩
        simp only [Function.update_of_ne (Nat.ne_of_lt hlt), hgone]
      · intro id
        rcases eq_or_ne id w.bridge.forcedRequestCount with rfl | hid
        · exact fun _ => Nat.lt_succ_self _
        · simp only [Function.update_of_ne hid]
          exact fun hne => Nat.lt_succ_of_lt (h.lt id hne)
      · intro id
        rcases eq_or_ne id w.bridge.forcedRequestCount with rfl | hid
        · simp only [Function.update_self]
          exact fun _ => ⟨pos, _, verified⟩
        · simp only [Function.update_of_ne hid]
          exact h.verified id
    | @processForcedWithdrawal requestId req _ live stored found _ _ =>
      subst stored
      have hnew : requestId ∉ processed tr := fun hmem => found (h.gone requestId hmem).2
      refine ⟨List.nodup_cons.mpr ⟨hnew, h.nodup⟩, ?_, ?_, ?_⟩
      · intro id hid
        rcases List.mem_cons.mp hid with rfl | hid
        · refine ⟨h.lt id found, ?_⟩
          simp only [Function.update_self]
          rfl
        · have hne : id ≠ requestId := fun heq => hnew (heq ▸ hid)
          simp only [Function.update_of_ne hne]
          exact h.gone id hid
      · intro id
        rcases eq_or_ne id requestId with rfl | hid
        · exact fun _ => h.lt id found
        · simp only [Function.update_of_ne hid]
          exact h.lt id
      · intro id
        rcases eq_or_ne id requestId with rfl | hid
        · simp only [Function.update_self]
          exact fun hgone => absurd rfl hgone
        · simp only [Function.update_of_ne hid]
          exact h.verified id

/-! ## Accounts -/

/-- A tree for the state root, with which the balance and the claims agree. -/
structure AccountsInv (D : Deployment W τ) (depth : Nat) (tr : List (Step W)) (w : World W τ)
    (t : AccountTree W) : Prop where
  depth_eq : t.depth = depth
  root_eq : t.root D.sha256 = w.bridge.stateRoot
  solvent : t.unclaimed w.bridge.claimed ≤ w.balance D
  escaped : ∀ e ∈ escapes tr, e.1 < 2 ^ depth ∧ ∃ a, t.leaves e.1 = some a ∧ a.balance = e.2
  /-- Below every root that was withdrawn from there was more. -/
  lowered : ∀ root ∈ withdrawnFrom tr, ∃ t₁ : AccountTree W, t₁.depth = depth ∧
    t₁.root D.sha256 = root ∧ t.total < t₁.total
  nodup : (withdrawnFrom tr).Nodup

omit [DecidableEq W] in
theorem total_lowered {t t' : AccountTree W} {i n : Nat} (hdepth : t'.depth = t.depth)
    (hi : i < 2 ^ t.depth) (h : t'.balance i + n = t.balance i)
    (hrest : ∀ j ≠ i, t'.balance j = t.balance j) : t'.total + n = t.total := by
  have hupdate : t.balance = Function.update t'.balance i (t.balance i) := by
    funext j
    rcases eq_or_ne j i with rfl | hne
    · rw [Function.update_self]
    · rw [Function.update_of_ne hne, hrest j hne]
  have hsum := sum_update_add (Finset.mem_range.mpr hi) t'.balance (t.balance i)
  rw [← hupdate, ← h] at hsum
  rw [AccountTree.total, AccountTree.total, hdepth]
  omega

omit [DecidableEq W] in
/-- The bridge has at most the amount less. -/
theorem balance_of_transfer (hexact : D.token.Exact) {recipient : Address} {amount : Nat} {token : τ}
    (h : D.token.transfer D.address recipient amount w.token = some token) :
    w.balance D ≤ D.token.balanceOf token D.address + amount := by
  obtain ⟨hle, hmoved⟩ := hexact.transfer h
  have := @le_moved_src _ _ (D.token.balanceOf w.token) D.address recipient amount
  rw [hmoved, World.balance]
  omega

namespace AccountsInv
variable {t : AccountTree W} (h : AccountsInv D depth tr w t)
include h

omit [DecidableEq W] in
theorem frame (hescapes : st.escapes = []) (hwithdrawn : st.withdrawnFrom = [])
    (hroot : w'.bridge.stateRoot = w.bridge.stateRoot) (hclaimed : w'.bridge.claimed = w.bridge.claimed)
    (hbalance : w.balance D ≤ w'.balance D) : AccountsInv D depth (st :: tr) w' t where
  depth_eq := h.depth_eq
  root_eq := h.root_eq.trans hroot.symm
  solvent := by
    rw [hclaimed]
    exact h.solvent.trans hbalance
  escaped := by
    rw [escapes_cons, hescapes]
    exact h.escaped
  lowered := by
    rw [withdrawnFrom_cons, hwithdrawn]
    exact h.lowered
  nodup := by
    rw [withdrawnFrom_cons, hwithdrawn]
    exact h.nodup

omit [DecidableEq W] in
/-- A batch moves to a tree with the same total. -/
theorem transfer (hconserves : D.Conserves depth) (hclaims : ClaimsInv tr w.bridge)
    (live : w.bridge.frozen = false) {proof : List UInt8} {newRoot : W}
    (verified : D.verifyTransfer proof w.bridge.stateRoot newRoot = true)
    (hescapes : st.escapes = []) (hwithdrawn : st.withdrawnFrom = [])
    (hroot : w'.bridge.stateRoot = newRoot) (hclaimed : w'.bridge.claimed = w.bridge.claimed)
    (hbalance : w.balance D ≤ w'.balance D) : ∃ t', AccountsInv D depth (st :: tr) w' t' := by
  rw [← h.root_eq] at verified
  obtain ⟨t', hdepth, hroot', htotal⟩ := hconserves.transfer h.depth_eq verified
  have hsolvent := h.solvent
  refine ⟨t', hdepth, hroot'.trans hroot.symm, ?_, ?_, ?_, ?_⟩
  · rw [hclaims.unclaimed live, unclaimed_none] at hsolvent
    rw [hclaimed, hclaims.unclaimed live, unclaimed_none, htotal]
    exact hsolvent.trans hbalance
  · rw [escapes_cons, hescapes, hclaims.unfrozen live]
    exact fun e he => absurd he List.not_mem_nil
  · rw [withdrawnFrom_cons, hwithdrawn, htotal]
    exact h.lowered
  · rw [withdrawnFrom_cons, hwithdrawn]
    exact h.nodup

omit [DecidableEq W] in
/-- A withdrawal, in either way, moves to a tree with a smaller total. -/
theorem withdrawal (H : D.sha256.Ideal) (hconserves : D.Conserves depth) (hclaims : ClaimsInv tr w.bridge)
    (live : w.bridge.frozen = false) {proof : List UInt8} {newRoot : W} {amount : UInt64}
    {recipient : Address} (pos : amount ≠ 0)
    (verified : D.verifyWithdrawal proof w.bridge.stateRoot newRoot amount recipient = true)
    (hescapes : st.escapes = []) (hwithdrawn : st.withdrawnFrom = [w.bridge.stateRoot])
    (hroot : w'.bridge.stateRoot = newRoot) (hclaimed : w'.bridge.claimed = w.bridge.claimed)
    (hbalance : w.balance D ≤ w'.balance D + amount.toNat) : ∃ t', AccountsInv D depth (st :: tr) w' t' := by
  rw [← h.root_eq] at verified
  obtain ⟨t', hdepth, hroot', i, hi, hlowered, hrest⟩ := hconserves.withdrawal h.depth_eq verified
  have hsolvent := h.solvent
  have htotal := total_lowered (hdepth.trans h.depth_eq.symm) (h.depth_eq ▸ hi) hlowered hrest
  have hamount : amount.toNat ≠ 0 := fun hzero => pos (UInt64.toNat_inj.mp hzero)
  refine ⟨t', hdepth, hroot'.trans hroot.symm, ?_, ?_, ?_, ?_⟩
  · rw [hclaims.unclaimed live, unclaimed_none] at hsolvent
    rw [hclaimed, hclaims.unclaimed live, unclaimed_none]
    omega
  · rw [escapes_cons, hescapes, hclaims.unfrozen live]
    exact fun e he => absurd he List.not_mem_nil
  · rw [withdrawnFrom_cons, hwithdrawn]
    intro root hmem
    rcases List.mem_cons.mp hmem with rfl | hmem
    · exact ⟨t, h.depth_eq, h.root_eq, by omega⟩
    · obtain ⟨t₁, hdepth₁, hroot₁, hlt⟩ := h.lowered root hmem
      exact ⟨t₁, hdepth₁, hroot₁, by omega⟩
  · -- a tree below this root has the total of this one
    rw [withdrawnFrom_cons, hwithdrawn]
    refine List.nodup_cons.mpr ⟨fun hmem => ?_, h.nodup⟩
    obtain ⟨t₁, hdepth₁, hroot₁, hlt⟩ := h.lowered _ hmem
    have heq := H.total_eq (h.depth_eq.trans hdepth₁.symm) (h.root_eq.trans hroot₁.symm)
    omega

/-- An escape pays for a leaf that had not been claimed. -/
theorem escape (H : D.sha256.Ideal) {leafIndex : Nat} {pubkey salt : W} {balance : UInt64}
    {merkleProof : List W} (unclaimed : w.bridge.claimed leafIndex = false)
    (verified : D.sha256.verifyMerkleProof (D.sha256.bridgeCommitment pubkey balance salt) leafIndex merkleProof
      w.bridge.stateRoot = true)
    (hescapes : st.escapes = [(leafIndex, balance)]) (hwithdrawn : st.withdrawnFrom = [])
    (hroot : w'.bridge.stateRoot = w.bridge.stateRoot)
    (hclaimed : w'.bridge.claimed = Function.update w.bridge.claimed leafIndex true)
    (hbalance : w.balance D ≤ w'.balance D + balance.toNat) : AccountsInv D depth (st :: tr) w' t := by
  rw [bridgeCommitment_eq, ← h.root_eq] at verified
  obtain ⟨hlt, hleaf⟩ := H.leaf_of_verifyMerkleProof (a := ⟨pubkey, balance, salt⟩) verified
  have hpaid := unclaimed_update hlt unclaimed
  rw [balance_of_leaves hleaf] at hpaid
  have hsolvent := h.solvent
  refine ⟨h.depth_eq, h.root_eq.trans hroot.symm, ?_, ?_, ?_, ?_⟩
  · rw [hclaimed]
    simp only at hpaid
    omega
  · rw [escapes_cons, hescapes]
    intro e he
    rcases List.mem_cons.mp he with rfl | he
    · exact ⟨h.depth_eq ▸ hlt, _, hleaf, rfl⟩
    · exact h.escaped e he
  · rw [withdrawnFrom_cons, hwithdrawn]
    exact h.lowered
  · rw [withdrawnFrom_cons, hwithdrawn]
    exact h.nodup

end AccountsInv

theorem AccountsInv.step {t : AccountTree W} (h : AccountsInv D depth tr w t) (H : D.sha256.Ideal)
    (hexact : D.token.Exact) (hconserves : D.Conserves depth) (hclaims : ClaimsInv tr w.bridge)
    (hrequests : RequestsInv D tr w.bridge) (hstep : Transition D w st w') :
    ∃ t', AccountsInv D depth (st :: tr) w' t' := by
  cases hstep with
  | reverted | tick => exact ⟨t, h.frame rfl rfl rfl rfl (Nat.le_refl _)⟩
  | inflow balance => exact ⟨t, h.frame rfl rfl rfl rfl balance⟩
  | call hne ok =>
    have haccepted := Call.run_eq_ok.mp ok
    cases haccepted with
    | deposit live _ _ _ paid =>
      obtain ⟨hle, hmoved⟩ := hexact.transferFrom paid
      refine ⟨t, h.frame rfl rfl rfl rfl ?_⟩
      rw [World.balance, World.balance, hmoved]
      exact le_moved_dst hle
    | withdraw live pos verified paid =>
      exact h.withdrawal H hconserves hclaims live pos verified rfl rfl rfl rfl
        (balance_of_transfer hexact paid)
    | postTransferBatch live verified =>
      exact h.transfer hconserves hclaims live verified rfl rfl rfl rfl (Nat.le_refl _)
    | freeze | requestForcedWithdrawal | freezeOnExpiredRequest =>
      exact ⟨t, h.frame rfl rfl rfl rfl (Nat.le_refl _)⟩
    | @processForcedWithdrawal requestId req _ live stored found fresh paid =>
      subst stored
      obtain ⟨pos, proof, verified⟩ := hrequests.verified requestId found
      rw [← fresh] at verified
      exact h.withdrawal H hconserves hclaims live pos verified rfl
        (congrArg (fun root => [root]) fresh.symm) rfl rfl (balance_of_transfer hexact paid)
    | escapeWithdraw frozen unclaimed _ verified _ paid =>
      exact ⟨t, h.escape H unclaimed verified rfl rfl rfl rfl (balance_of_transfer hexact paid)⟩

/-! ## Runs -/

theorem claimsInv_of_run {root : W} (hdeployed : Deployed D root w₀) (hrun : Run (Transition D) w₀ tr w) :
    ClaimsInv tr w.bridge := by
  apply @Run.invariant _ _ _ _ _ _ (fun tr w => ClaimsInv tr w.bridge) hrun
  · cases hdeployed
    refine ⟨fun i => ?_, List.nodup_nil, fun _ => rfl⟩
    exact ⟨fun h => absurd h Bool.false_ne_true, fun h => absurd h List.not_mem_nil⟩
  · exact fun tr w st w' _ hstep ih => ih.step hstep

theorem requestsInv_of_run {root : W} (hdeployed : Deployed D root w₀) (hrun : Run (Transition D) w₀ tr w) :
    RequestsInv D tr w.bridge := by
  apply @Run.invariant _ _ _ _ _ _ (fun tr w => RequestsInv D tr w.bridge) hrun
  · cases hdeployed
    refine ⟨List.nodup_nil, ?_, ?_, ?_⟩
    · exact fun id h => absurd h List.not_mem_nil
    · exact fun id h => absurd rfl h
    · exact fun id h => absurd rfl h
  · exact fun tr w st w' _ hstep ih => ih.step hstep

theorem accountsInv_of_run (H : D.sha256.Ideal) (hexact : D.token.Exact) (hconserves : D.Conserves depth)
    {t₀ : AccountTree W} (hdepth : t₀.depth = depth) (hdeployed : Deployed D (t₀.root D.sha256) w₀)
    (hfunded : t₀.total ≤ w₀.balance D) (hrun : Run (Transition D) w₀ tr w) :
    ∃ t, AccountsInv D depth tr w t := by
  apply @Run.invariant _ _ _ _ _ _ (fun tr w => ∃ t, AccountsInv D depth tr w t) hrun
  · cases hdeployed
    refine ⟨t₀, hdepth, rfl, hfunded, ?_, ?_, List.nodup_nil⟩
    · exact fun e h => absurd h List.not_mem_nil
    · exact fun root h => absurd h List.not_mem_nil
  · intro tr w st w' hprefix hstep ih
    obtain ⟨t, ht⟩ := ih
    exact ht.step H hexact hconserves (claimsInv_of_run hdeployed hprefix)
      (requestsInv_of_run hdeployed hprefix) hstep

/-- Whatever the order of the calls, the bridge holds what is below the leaves not yet claimed of the tree for
its root; a leaf is claimed once and for its balance, a request is processed once, and no root is withdrawn
from twice. -/
theorem bridge_solvent (H : D.sha256.Ideal) (hexact : D.token.Exact) (hconserves : D.Conserves depth)
    {t₀ : AccountTree W} (hdepth : t₀.depth = depth) (hdeployed : Deployed D (t₀.root D.sha256) w₀)
    (hfunded : t₀.total ≤ w₀.balance D) (hrun : Run (Transition D) w₀ tr w) :
    ∃ t : AccountTree W, t.depth = depth ∧ t.root D.sha256 = w.bridge.stateRoot ∧
      t.unclaimed w.bridge.claimed ≤ w.balance D ∧ ((escapes tr).map (·.1)).Nodup ∧
      (∀ e ∈ escapes tr, e.1 < 2 ^ depth ∧ ∃ a, t.leaves e.1 = some a ∧ a.balance = e.2) ∧
      (processed tr).Nodup ∧ (withdrawnFrom tr).Nodup := by
  obtain ⟨t, ht⟩ := accountsInv_of_run H hexact hconserves hdepth hdeployed hfunded hrun
  exact ⟨t, ht.depth_eq, ht.root_eq, ht.solvent, (claimsInv_of_run hdeployed hrun).nodup, ht.escaped,
    (requestsInv_of_run hdeployed hrun).nodup, ht.nodup⟩

def ForcedRequest.request (req : ForcedRequest W) (proof : List UInt8) : Call W :=
  .requestForcedWithdrawal proof req.oldRoot req.newRoot req.amount req.recipient

/-- `withdraw` with the proof of a request. -/
def ForcedRequest.withdraw (req : ForcedRequest W) (proof : List UInt8) : Call W :=
  .withdraw proof req.oldRoot req.newRoot req.amount req.recipient

namespace Sample

/-- What is left when the owner takes out three tokens. -/
def rest : Account Term := ⟨pubkey, 2, .atom 2⟩

def request : ForcedRequest Term where
  oldRoot := account.commitment termSha256
  newRoot := rest.commitment termSha256
  amount := 3
  recipient := owner
  deadline := 1000 + forcedWithdrawalDeadline

theorem proves_withdrawal (proof : List UInt8) :
    deployment.verifyWithdrawal proof request.oldRoot request.newRoot request.amount request.recipient = true :=
  (verifyWithdrawal_ofGuests termSha256_idealJournals).mpr
    ⟨⟨.atom 0, 5, .atom 1, [], [], 3, .atom 2, owner⟩, by decide⟩

def requested : World Term (Address → Nat) :=
  { world₀ with bridge := { world₀.bridge with
      forcedRequestCount := 1
      forcedRequests := Function.update world₀.bridge.forcedRequests 0 request } }

def withdrawn : World Term (Address → Nat) where
  timestamp := 1000
  bridge := { requested.bridge with stateRoot := request.newRoot, lastProofTimestamp := 1000 }
  token := moved world₀.token bridge owner 3

theorem request_step : Transition deployment world₀ (.call owner world₀.bridge (request.request [])) requested :=
  .call (by decide) (Call.run_eq_ok.mpr
    (.requestForcedWithdrawal rfl (by decide) (proves_withdrawal [])))

theorem withdraw_step :
    Transition deployment requested (.call owner requested.bridge (request.withdraw [])) withdrawn := by
  have paid : (ledger Address).transfer bridge owner 3 world₀.token = some (moved world₀.token bridge owner 3) :=
    rfl
  exact .call (by decide) (Call.run_eq_ok.mpr (.withdraw rfl (by decide) (proves_withdrawal []) paid))

/-- The same proof is used to withdraw. -/
def withdrawnSteps : List (Step Term) :=
  [.call owner requested.bridge (request.withdraw []), .call owner world₀.bridge (request.request [])]

theorem withdrawn_run : Run (Transition deployment) world₀ withdrawnSteps withdrawn :=
  .cons (.cons .nil request_step) withdraw_step

/-- After the withdrawal the owner deposits, and takes out the rest of the leaf once the bridge is frozen. -/
def escapeSteps : List (Step Term) :=
  .call owner (frozen (later (deposited withdrawn owner 2))).bridge (.escapeWithdraw 0 pubkey 2 (.atom 2) []) ::
    .call other (later (deposited withdrawn owner 2)).bridge .freeze :: .tick (1000 + 8 * 86400) ::
      .call owner withdrawn.bridge (.deposit 2 pubkey []) :: withdrawnSteps

theorem escape_run : Run (Transition deployment) world₀ escapeSteps
    (escaped (frozen (later (deposited withdrawn owner 2))) rest) :=
  .cons (.cons (.cons (.cons withdrawn_run (deposit_step (by decide) rfl (by decide) (.inl rfl) (by decide)))
    (tick_step _)) (freeze_step rfl (by decide)))
    (@escape_step (frozen (later (deposited withdrawn owner 2))) rest rfl rfl rfl
      (escapeAddress_deposited withdrawn owner 2) (by decide) (by decide))

end Sample

open Sample in
theorem bridge_solvent_sample : ∃ t : AccountTree Term, t.depth = 0 ∧
      t.root termSha256 = (escaped (frozen (later (deposited withdrawn owner 2))) rest).bridge.stateRoot ∧
      t.unclaimed (escaped (frozen (later (deposited withdrawn owner 2))) rest).bridge.claimed ≤
        (escaped (frozen (later (deposited withdrawn owner 2))) rest).balance deployment ∧
      ((escapes escapeSteps).map (·.1)).Nodup ∧
      (∀ e ∈ escapes escapeSteps, e.1 < 2 ^ 0 ∧ ∃ a, t.leaves e.1 = some a ∧ a.balance = e.2) ∧
      (processed escapeSteps).Nodup ∧ (withdrawnFrom escapeSteps).Nodup :=
  bridge_solvent termSha256_ideal (ledger_exact Address) (ofGuests_conserves termSha256_idealJournals 0) rfl
    deployed (by decide) escape_run

end Pocs.Validium
