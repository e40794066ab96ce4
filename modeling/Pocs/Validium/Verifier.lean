import Pocs.Validium.System
import Pocs.Validium.Transfer

/-! # A verifier of the guest programs

It accepts a journal for an image exactly where a run of that program has these public values. With the
lengths of honest vectors, the proofs it accepts move value as they say. -/

namespace Pocs.Validium

open Deployment

variable {W τ : Type} [DecidableEq W]

namespace Sha256
variable (S : Sha256 W)

/-- A run of `membership.rs` has these values. -/
def ProvesMembership (root pubkey : W) : Prop :=
  ∃ input : MembershipInput W, S.membershipMain input = .ok [.value root, .value pubkey]

def ProvesWithdrawal (oldRoot newRoot : W) (amount : UInt64) (recipient : Address) : Prop :=
  ∃ input : WithdrawalInput W, S.withdrawalRoots input = .ok (oldRoot, newRoot) ∧
    input.amount = amount ∧ input.recipient = recipient

/-- No index of the sender is without a sibling. -/
def ProvesTransfer (oldRoot newRoot : W) : Prop :=
  ∃ input : TransferInput W, S.transferRoots input = .ok (oldRoot, newRoot) ∧
    input.senderIndices.length ≤ input.senderPath.length

end Sha256

/-- Image identifiers that differ. -/
structure ImageIds (W : Type) where
  membership : W
  withdrawal : W
  transfer : W
  membership_ne_withdrawal : membership ≠ withdrawal
  membership_ne_transfer : membership ≠ transfer
  withdrawal_ne_transfer : withdrawal ≠ transfer

open Classical in
noncomputable def Deployment.ofGuests (S : Sha256 W) (address : Address) (token : Token Address τ)
    (allowlistRoot : W) (ids : ImageIds W) : Deployment W τ where
  sha256 := S
  address
  token
  allowlistRoot
  membershipImageId := ids.membership
  withdrawalImageId := ids.withdrawal
  transferImageId := ids.transfer
  verify _ imageId journalDigest :=
    (imageId = ids.membership ∧ ∃ root pubkey, S.ProvesMembership root pubkey ∧
      journalDigest = S.digest (depositJournal root pubkey)) ∨
    (imageId = ids.withdrawal ∧ ∃ oldRoot newRoot amount recipient,
      S.ProvesWithdrawal oldRoot newRoot amount recipient ∧
        journalDigest = S.digest (withdrawalJournal oldRoot newRoot amount recipient)) ∨
    (imageId = ids.transfer ∧ ∃ oldRoot newRoot, S.ProvesTransfer oldRoot newRoot ∧
      journalDigest = S.digest (transferJournal oldRoot newRoot))

/-- No two journals have the same digest. -/
structure Sha256.IdealJournals (S : Sha256 W) : Prop extends S.Ideal where
  withdrawal : ∀ {oldRoot newRoot amount recipient oldRoot' newRoot' amount' recipient'},
    S.digest (withdrawalJournal oldRoot newRoot amount recipient) =
      S.digest (withdrawalJournal oldRoot' newRoot' amount' recipient') →
    oldRoot = oldRoot' ∧ newRoot = newRoot' ∧ amount = amount' ∧ recipient = recipient'

section
variable {S : Sha256 W} {address : Address} {token : Token Address τ} {allowlistRoot : W} {ids : ImageIds W}

theorem verifyDeposit_ofGuests (H : S.Ideal) {membershipSeal : List UInt8} {pubkey : W} :
    (ofGuests S address token allowlistRoot ids).verifyDeposit membershipSeal pubkey = true ↔
      S.ProvesMembership allowlistRoot pubkey := by
  simp only [verifyDeposit, ofGuests, decide_eq_true_iff, true_and,
    ids.membership_ne_withdrawal, ids.membership_ne_transfer, false_and, or_false]
  constructor
  · rintro ⟨root, pubkey', hproves, hdigest⟩
    obtain ⟨rfl, rfl⟩ := H.pair hdigest
    exact hproves
  · exact fun h => ⟨_, _, h, rfl⟩

theorem verifyTransfer_ofGuests (H : S.Ideal) {proof : List UInt8} {oldRoot newRoot : W} :
    (ofGuests S address token allowlistRoot ids).verifyTransfer proof oldRoot newRoot = true ↔
      S.ProvesTransfer oldRoot newRoot := by
  simp only [verifyTransfer, ofGuests, decide_eq_true_iff, true_and,
    ids.membership_ne_transfer.symm, ids.withdrawal_ne_transfer.symm, false_and, false_or]
  constructor
  · rintro ⟨oldRoot', newRoot', hproves, hdigest⟩
    obtain ⟨rfl, rfl⟩ := H.pair hdigest
    exact hproves
  · exact fun h => ⟨_, _, h, rfl⟩

theorem verifyWithdrawal_ofGuests (H : S.IdealJournals) {proof : List UInt8} {oldRoot newRoot : W}
    {amount : UInt64} {recipient : Address} :
    (ofGuests S address token allowlistRoot ids).verifyWithdrawal proof oldRoot newRoot amount
        recipient = true ↔ S.ProvesWithdrawal oldRoot newRoot amount recipient := by
  simp only [verifyWithdrawal, ofGuests, decide_eq_true_iff, true_and,
    ids.membership_ne_withdrawal.symm, ids.withdrawal_ne_transfer, false_and, false_or, or_false]
  constructor
  · rintro ⟨oldRoot', newRoot', amount', recipient', hproves, hdigest⟩
    obtain ⟨rfl, rfl, rfl, rfl⟩ := H.withdrawal hdigest
    exact hproves
  · exact fun h => ⟨_, _, _, _, h, rfl⟩

omit [DecidableEq W] in
theorem withdrawalRoots_eq_ok {input : WithdrawalInput W} {oldRoot newRoot : W}
    (h : S.withdrawalRoots input = .ok (oldRoot, newRoot)) : 0 < input.amount ∧ input.amount ≤ input.balance ∧
      S.computeRoot (S.accountCommitment (S.sha256 input.secretKey) input.balance input.salt) input.path
        input.indices = oldRoot ∧
      S.computeRoot (S.accountCommitment (S.sha256 input.secretKey) (input.balance - input.amount)
        input.newSalt) input.path input.indices = newRoot := by
  simp only [Sha256.withdrawalRoots, bind_eq_ok, require_eq_ok, exists_const, pure_eq_ok, Prod.mk.injEq] at h
  exact h

omit [DecidableEq W] in
/-- A withdrawal lowers the balance of the leaf that its path is from. -/
theorem Sha256.ProvesWithdrawal.lowers (H : S.Ideal) {t : AccountTree W} {newRoot : W} {amount : UInt64}
    {recipient : Address} (h : S.ProvesWithdrawal (t.root S) newRoot amount recipient) :
    ∃ t' : AccountTree W, t'.depth = t.depth ∧ t'.root S = newRoot ∧
      ∃ i < 2 ^ t.depth, t'.balance i + amount.toNat = t.balance i ∧ ∀ j ≠ i, t'.balance j = t.balance j := by
  obtain ⟨input, hroots, rfl, rfl⟩ := h
  obtain ⟨-, hle, hold, rfl⟩ := withdrawalRoots_eq_ok hroots
  obtain ⟨-, hi, hleaf, hpath⟩ := H.mem_of_computeRoot (a := ⟨_, _, _⟩) hold
  have hsub : (input.balance - input.amount).toNat = input.balance.toNat - input.amount.toNat :=
    UInt64.toNat_sub_of_le _ _ hle
  have hle' : input.amount.toNat ≤ input.balance.toNat := UInt64.le_iff_toNat_le.mp hle
  refine ⟨t.set (position input.path input.indices)
    ⟨S.sha256 input.secretKey, input.balance - input.amount, input.newSalt⟩, rfl, ?_, _, hi, ?_, fun j hj => ?_⟩
  · rw [AccountTree.root_set hi, ← hpath, computeRoot_eq_foldPath]
    rfl
  · rw [AccountTree.balance_set, Function.update_self, AccountTree.balance_of_leaves hleaf]
    show (input.balance - input.amount).toNat + _ = input.balance.toNat
    omega
  · rw [AccountTree.balance_set, Function.update_of_ne hj]

theorem Sha256.ProvesTransfer.keeps_total (H : S.Ideal) {t : AccountTree W} {newRoot : W}
    (h : S.ProvesTransfer (t.root S) newRoot) :
    ∃ t' : AccountTree W, t'.depth = t.depth ∧ t'.root S = newRoot ∧ t'.total = t.total := by
  obtain ⟨input, hroots, hlen⟩ := h
  have hmain : S.transferMain input = .ok [.slice (.word (t.root S)), .slice (.word newRoot)] := by
    rw [Sha256.transferMain, hroots]
    rfl
  obtain ⟨t', hroot, htransferred⟩ := exists_transferred H hmain hlen
  exact ⟨t', htransferred.depth_eq, hroot, htransferred.total_eq⟩

/-- With this verifier every accepted proof does to the accounts what it says. -/
theorem ofGuests_conserves (H : S.IdealJournals) (depth : Nat) :
    (ofGuests S address token allowlistRoot ids).Conserves depth where
  transfer hdepth hverify := by
    obtain ⟨t', hdepth', hroot, htotal⟩ := ((verifyTransfer_ofGuests H.toIdeal).mp hverify).keeps_total H.toIdeal
    exact ⟨t', hdepth'.trans hdepth, hroot, htotal⟩
  withdrawal hdepth hverify := by
    obtain ⟨t', hdepth', hroot, hlowered⟩ := ((verifyWithdrawal_ofGuests H).mp hverify).lowers H.toIdeal
    exact ⟨t', hdepth'.trans hdepth, hroot, hdepth ▸ hlowered⟩

end

/-! ## A deployment -/

theorem addressBytes_inj {a b : Address} (h : addressBytes a = addressBytes b) : a = b := by
  have hnum := congrArg beToNat h
  have ha : a.toNat < 256 ^ 20 := a.isLt
  have hb : b.toNat < 256 ^ 20 := b.isLt
  rw [addressBytes, addressBytes, beToNat_beOfNat, beToNat_beOfNat, Nat.mod_eq_of_lt ha,
    Nat.mod_eq_of_lt hb] at hnum
  exact BitVec.toNat_inj.mp hnum

theorem termSha256_idealJournals : termSha256.IdealJournals where
  toIdeal := termSha256_ideal
  withdrawal h := by
    obtain ⟨hold, hnew, hamount, hrecipient⟩ := Term.withdrawal.inj h
    exact ⟨hold, hnew, toBeBytes_inj hamount, addressBytes_inj hrecipient⟩

namespace Sample

/-- The owner of the one account, somebody else, and the bridge. -/
def owner : Address := 1
def other : Address := 2
def bridge : Address := 3

def pubkey : Term := termSha256.sha256 (.atom 0)

def account : Account Term := ⟨pubkey, 5, .atom 1⟩

def tree : AccountTree Term := ⟨0, fun _ => some account⟩

def imageIds : ImageIds Term := ⟨.atom 10, .atom 11, .atom 12, by decide, by decide, by decide⟩

noncomputable def deployment : Deployment Term (Address → Nat) :=
  .ofGuests termSha256 bridge (ledger Address) pubkey imageIds

def world₀ : World Term (Address → Nat) where
  timestamp := 1000
  bridge := Bridge.new termSha256 1000 (tree.root termSha256)
  token a := if a = bridge then 5 else 7

theorem deployed : Deployed deployment (tree.root deployment.sha256) world₀ := .mk

theorem proves_membership (membershipSeal : List UInt8) :
    deployment.verifyDeposit membershipSeal pubkey = true :=
  (verifyDeposit_ofGuests termSha256_ideal).mpr ⟨⟨pubkey, [], [], pubkey, pubkey⟩, by decide⟩

def deposited (w : World Term (Address → Nat)) (sender : Address) (amount : Nat) :
    World Term (Address → Nat) where
  timestamp := w.timestamp
  bridge := { w.bridge with escapeAddress := Function.update w.bridge.escapeAddress pubkey sender }
  token := moved w.token sender bridge amount

theorem escapeAddress_deposited (w : World Term (Address → Nat)) (sender : Address) (amount : Nat) :
    (deposited w sender amount).bridge.escapeAddress pubkey = sender := by
  simp only [deposited, Function.update_self]

theorem deposit_step {w : World Term (Address → Nat)} {sender : Address} {amount : Nat} (hsender : sender ≠ 0)
    (live : w.bridge.frozen = false) (pos : amount ≠ 0)
    (free : w.bridge.escapeAddress pubkey = 0 ∨ w.bridge.escapeAddress pubkey = sender)
    (funded : amount ≤ w.token sender) :
    Transition deployment w (.call sender w.bridge (.deposit amount pubkey [])) (deposited w sender amount) :=
  .call hsender (Call.run_eq_ok.mpr (.deposit live pos (proves_membership []) free (if_pos funded)))

def later (w : World Term (Address → Nat)) : World Term (Address → Nat) :=
  { w with timestamp := w.timestamp + 8 * 86400 }

def frozen (w : World Term (Address → Nat)) : World Term (Address → Nat) :=
  { w with bridge := { w.bridge with frozen := true } }

theorem tick_step (w : World Term (Address → Nat)) :
    Transition deployment w (.tick (w.timestamp + 8 * 86400)) (later w) := .tick (Nat.le_add_right _ _)

theorem freeze_step {w : World Term (Address → Nat)} (live : w.bridge.frozen = false)
    (idle : w.bridge.lastProofTimestamp + escapeTimeout < w.timestamp) :
    Transition deployment w (.call other w.bridge .freeze) (frozen w) :=
  .call (by decide) (Call.run_eq_ok.mpr (.freeze live idle))

def escaped (w : World Term (Address → Nat)) (a : Account Term) : World Term (Address → Nat) where
  timestamp := w.timestamp
  bridge := { w.bridge with claimed := Function.update w.bridge.claimed 0 true }
  token := moved w.token bridge owner a.balance.toNat

theorem escape_step {w : World Term (Address → Nat)} {a : Account Term} (hfrozen : w.bridge.frozen = true)
    (hroot : w.bridge.stateRoot = (⟨0, fun _ => some a⟩ : AccountTree Term).root termSha256)
    (unclaimed : w.bridge.claimed 0 = false) (howner : w.bridge.escapeAddress a.pubkey = owner)
    (pos : a.balance ≠ 0) (funded : a.balance.toNat ≤ w.token bridge) : Transition deployment w
      (.call owner w.bridge (.escapeWithdraw 0 a.pubkey a.balance a.salt [])) (escaped w a) := by
  refine .call (by decide) (Call.run_eq_ok.mpr (.escapeWithdraw hfrozen unclaimed pos ?_ howner.symm
    (if_pos funded)))
  rw [hroot, bridgeCommitment_eq]
  exact verifyMerkleProof_of_leaf (t := ⟨0, fun _ => some a⟩) (a := a) Nat.one_pos rfl

end Sample

end Pocs.Validium
