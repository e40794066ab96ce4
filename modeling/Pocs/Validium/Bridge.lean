import Pocs.Lib.Method
import Pocs.Lib.Token
import Pocs.Validium.Journal

/-! # The bridge

`ValidiumBridge.sol`. A call is a function on the storage, the token and the clock, and a revert undoes all
of it. `Accepted` says once for each entry point what it has checked and what it writes. -/

namespace Pocs.Validium

/-- `ESCAPE_TIMEOUT` and `FORCED_WITHDRAWAL_DEADLINE`, in seconds. -/
def escapeTimeout : Nat := 7 * 86400
def forcedWithdrawalDeadline : Nat := 86400

structure ForcedRequest (W : Type) where
  oldRoot : W
  newRoot : W
  amount : UInt64
  recipient : Address
  deadline : Nat
  deriving DecidableEq

/-- The storage of the contract. -/
structure Bridge (W : Type) where
  stateRoot : W
  lastProofTimestamp : Nat
  frozen : Bool
  claimed : Nat → Bool
  escapeAddress : W → Address
  forcedRequestCount : Nat
  forcedRequests : Nat → ForcedRequest W

/-- What the constructor fixes. -/
structure Deployment (W τ : Type) where
  sha256 : Sha256 W
  address : Address
  token : Token Address τ
  /-- `verifier.verify(seal, imageId, journalDigest)` does not revert. -/
  verify : List UInt8 → W → W → Bool
  allowlistRoot : W
  membershipImageId : W
  withdrawalImageId : W
  transferImageId : W

/-- The bridge, with the token and the time of the block. -/
structure World (W τ : Type) where
  /-- `block.timestamp`. -/
  timestamp : Nat
  bridge : Bridge W
  token : τ

inductive BridgeError (W : Type) where
  | staleState (expected provided : W)
  | invalidAmount
  | notFrozen
  | alreadyFrozen
  | timeoutNotReached
  | alreadyClaimed (leafIndex : Nat)
  | invalidMerkleProof
  | forcedRequestNotFound (requestId : Nat)
  | forcedRequestNotExpired (requestId : Nat)
  | notEscapeAddress
  | pubkeyAlreadyClaimed
  | verificationFailed
  | requireFailed (msg : String)
  deriving DecidableEq

/-- The calls of the bridge, with their arguments. -/
inductive Call (W : Type) where
  | deposit (amount : Nat) (pubkey : W) (membershipSeal : List UInt8)
  | withdraw (proof : List UInt8) (oldRoot newRoot : W) (amount : UInt64) (recipient : Address)
  | postTransferBatch (proof : List UInt8) (oldRoot newRoot : W)
  | freeze
  | requestForcedWithdrawal (proof : List UInt8) (oldRoot newRoot : W) (amount : UInt64) (recipient : Address)
  | processForcedWithdrawal (requestId : Nat)
  | freezeOnExpiredRequest (requestId : Nat)
  | escapeWithdraw (leafIndex : Nat) (pubkey : W) (balance : UInt64) (salt : W) (merkleProof : List W)

section
variable {W τ : Type}

/-! ## Helpers of the contract -/

/-- `_uint64ToLE`, as the number that `bytes8` is made of. -/
def uint64ToLE (value : UInt64) : UInt64 :=
  (value.toUInt8.toUInt64 <<< 56) ||| ((value >>> 8).toUInt8.toUInt64 <<< 48)
    ||| ((value >>> 16).toUInt8.toUInt64 <<< 40) ||| ((value >>> 24).toUInt8.toUInt64 <<< 32)
    ||| ((value >>> 32).toUInt8.toUInt64 <<< 24) ||| ((value >>> 40).toUInt8.toUInt64 <<< 16)
    ||| ((value >>> 48).toUInt8.toUInt64 <<< 8) ||| (value >>> 56).toUInt8.toUInt64

/-- `_accountCommitment`. -/
def Sha256.bridgeCommitment (S : Sha256 W) (pubkey : W) (balance : UInt64) (salt : W) : W :=
  S.digest [.word pubkey, .bytes (toBeBytes (uint64ToLE balance)), .word salt]

/-- The loop of `_verifyMerkleProof`: the node computed and what is left of the index. -/
def Sha256.climbProof (S : Sha256 W) (leaf : W) (index : Nat) (proof : List W) : W × Nat :=
  proof.foldl (fun st sibling =>
    (if st.2 % 2 = 0 then S.digest [.word st.1, .word sibling] else S.digest [.word sibling, .word st.1],
      st.2 / 2)) (leaf, index)

def Sha256.verifyMerkleProof [DecidableEq W] (S : Sha256 W) (leaf : W) (index : Nat) (proof : List W)
    (root : W) : Bool :=
  let st := S.climbProof leaf index proof
  decide (st.1 = root) && decide (st.2 = 0)

/-- A slot of `forcedRequests` that is not in use. -/
def ForcedRequest.deleted (S : Sha256 W) : ForcedRequest W := ⟨S.zero, S.zero, 0, 0, 0⟩

def Bridge.new (S : Sha256 W) (timestamp : Nat) (initialRoot : W) : Bridge W where
  stateRoot := initialRoot
  lastProofTimestamp := timestamp
  frozen := false
  claimed _ := false
  escapeAddress _ := 0
  forcedRequestCount := 0
  forcedRequests _ := .deleted S

/-! ## Entry points -/

section
variable [DecidableEq W] (D : Deployment W τ) (sender : Address) (w : World W τ)

def World.balance (w : World W τ) : Nat := D.token.balanceOf w.token D.address

/-- `require(token.transfer(recipient, amount), msg)`. -/
def Deployment.pay (recipient : Address) (amount : Nat) (msg : String) (token : τ) : Except (BridgeError W) τ :=
  okOr (D.token.transfer D.address recipient amount token) (.requireFailed msg)

def Deployment.verifyWithdrawal (proof : List UInt8) (oldRoot newRoot : W) (amount : UInt64)
    (recipient : Address) : Bool :=
  D.verify proof D.withdrawalImageId (D.sha256.digest (withdrawalJournal oldRoot newRoot amount recipient))

def Deployment.verifyTransfer (proof : List UInt8) (oldRoot newRoot : W) : Bool :=
  D.verify proof D.transferImageId (D.sha256.digest (transferJournal oldRoot newRoot))

def Deployment.verifyDeposit (membershipSeal : List UInt8) (pubkey : W) : Bool :=
  D.verify membershipSeal D.membershipImageId (D.sha256.digest (depositJournal D.allowlistRoot pubkey))

def deposit (amount : Nat) (pubkey : W) (membershipSeal : List UInt8) : Except (BridgeError W) (World W τ) := do
  failIf (w.bridge.frozen = true) .alreadyFrozen
  failIf (amount = 0) .invalidAmount
  failIf (D.verifyDeposit membershipSeal pubkey = false) .verificationFailed
  let existing := w.bridge.escapeAddress pubkey
  failIf (existing ≠ 0 ∧ existing ≠ sender) .pubkeyAlreadyClaimed
  let token ← okOr (D.token.transferFrom D.address sender D.address amount w.token)
    (.requireFailed "Deposit transfer failed")
  let escapeAddress := Function.update w.bridge.escapeAddress pubkey sender
  pure { w with bridge := { w.bridge with escapeAddress }, token }

def withdraw (proof : List UInt8) (oldRoot newRoot : W) (amount : UInt64) (recipient : Address) :
    Except (BridgeError W) (World W τ) := do
  failIf (w.bridge.frozen = true) .alreadyFrozen
  failIf (oldRoot ≠ w.bridge.stateRoot) (.staleState w.bridge.stateRoot oldRoot)
  failIf (amount = 0) .invalidAmount
  failIf (D.verifyWithdrawal proof oldRoot newRoot amount recipient = false) .verificationFailed
  let token ← D.pay recipient amount.toNat "Withdrawal transfer failed" w.token
  let bridge := { w.bridge with stateRoot := newRoot, lastProofTimestamp := w.timestamp }
  pure { w with bridge, token }

def postTransferBatch (proof : List UInt8) (oldRoot newRoot : W) : Except (BridgeError W) (World W τ) := do
  failIf (w.bridge.frozen = true) .alreadyFrozen
  failIf (oldRoot ≠ w.bridge.stateRoot) (.staleState w.bridge.stateRoot oldRoot)
  failIf (D.verifyTransfer proof oldRoot newRoot = false) .verificationFailed
  let bridge := { w.bridge with stateRoot := newRoot, lastProofTimestamp := w.timestamp }
  pure { w with bridge }

def freeze : Except (BridgeError W) (World W τ) := do
  failIf (w.bridge.frozen = true) .alreadyFrozen
  failIf (w.timestamp ≤ w.bridge.lastProofTimestamp + escapeTimeout) .timeoutNotReached
  pure { w with bridge := { w.bridge with frozen := true } }

def requestForcedWithdrawal (proof : List UInt8) (oldRoot newRoot : W) (amount : UInt64)
    (recipient : Address) : Except (BridgeError W) (World W τ) := do
  failIf (w.bridge.frozen = true) .alreadyFrozen
  failIf (oldRoot ≠ w.bridge.stateRoot) (.staleState w.bridge.stateRoot oldRoot)
  failIf (amount = 0) .invalidAmount
  failIf (D.verifyWithdrawal proof oldRoot newRoot amount recipient = false) .verificationFailed
  let requestId := w.bridge.forcedRequestCount
  let deadline := w.timestamp + forcedWithdrawalDeadline
  let forcedRequests := Function.update w.bridge.forcedRequests requestId
    ⟨oldRoot, newRoot, amount, recipient, deadline⟩
  pure { w with bridge := { w.bridge with forcedRequestCount := requestId + 1, forcedRequests } }

def processForcedWithdrawal (requestId : Nat) : Except (BridgeError W) (World W τ) := do
  failIf (w.bridge.frozen = true) .alreadyFrozen
  let req := w.bridge.forcedRequests requestId
  failIf (req.deadline = 0) (.forcedRequestNotFound requestId)
  failIf (w.bridge.stateRoot ≠ req.oldRoot) (.staleState req.oldRoot w.bridge.stateRoot)
  let token ← D.pay req.recipient req.amount.toNat "Forced withdrawal transfer failed" w.token
  let forcedRequests := Function.update w.bridge.forcedRequests requestId (.deleted D.sha256)
  let bridge :=
    { w.bridge with stateRoot := req.newRoot, lastProofTimestamp := w.timestamp, forcedRequests }
  pure { w with bridge, token }

def freezeOnExpiredRequest (requestId : Nat) : Except (BridgeError W) (World W τ) := do
  failIf (w.bridge.frozen = true) .alreadyFrozen
  let req := w.bridge.forcedRequests requestId
  failIf (req.deadline = 0) (.forcedRequestNotFound requestId)
  failIf (w.timestamp ≤ req.deadline) (.forcedRequestNotExpired requestId)
  pure { w with bridge := { w.bridge with frozen := true } }

def escapeWithdraw (leafIndex : Nat) (pubkey : W) (balance : UInt64) (salt : W) (merkleProof : List W) :
    Except (BridgeError W) (World W τ) := do
  failIf (w.bridge.frozen = false) .notFrozen
  failIf (w.bridge.claimed leafIndex = true) (.alreadyClaimed leafIndex)
  failIf (balance = 0) .invalidAmount
  let leaf := D.sha256.bridgeCommitment pubkey balance salt
  failIf (D.sha256.verifyMerkleProof leaf leafIndex merkleProof w.bridge.stateRoot = false) .invalidMerkleProof
  failIf (sender ≠ w.bridge.escapeAddress pubkey) .notEscapeAddress
  let token ← D.pay sender balance.toNat "Escape transfer failed" w.token
  let claimed := Function.update w.bridge.claimed leafIndex true
  pure { w with bridge := { w.bridge with claimed }, token }

def Call.run : Call W → Except (BridgeError W) (World W τ)
  | .deposit amount pubkey membershipSeal => Validium.deposit D sender w amount pubkey membershipSeal
  | .withdraw proof oldRoot newRoot amount recipient =>
    Validium.withdraw D w proof oldRoot newRoot amount recipient
  | .postTransferBatch proof oldRoot newRoot => Validium.postTransferBatch D w proof oldRoot newRoot
  | .freeze => Validium.freeze w
  | .requestForcedWithdrawal proof oldRoot newRoot amount recipient =>
    Validium.requestForcedWithdrawal D w proof oldRoot newRoot amount recipient
  | .processForcedWithdrawal requestId => Validium.processForcedWithdrawal D w requestId
  | .freezeOnExpiredRequest requestId => Validium.freezeOnExpiredRequest w requestId
  | .escapeWithdraw leafIndex pubkey balance salt merkleProof =>
    Validium.escapeWithdraw D sender w leafIndex pubkey balance salt merkleProof

inductive Accepted : Call W → World W τ → Prop where
  | deposit {amount pubkey membershipSeal token} (live : w.bridge.frozen = false) (pos : amount ≠ 0)
    (proof : D.verifyDeposit membershipSeal pubkey = true)
    (free : w.bridge.escapeAddress pubkey = 0 ∨ w.bridge.escapeAddress pubkey = sender)
    (paid : D.token.transferFrom D.address sender D.address amount w.token = some token) :
    Accepted (.deposit amount pubkey membershipSeal)
      ⟨w.timestamp, { w.bridge with escapeAddress := Function.update w.bridge.escapeAddress pubkey sender },
        token⟩
  | withdraw {proof newRoot amount recipient token} (live : w.bridge.frozen = false) (pos : amount ≠ 0)
    (verified : D.verifyWithdrawal proof w.bridge.stateRoot newRoot amount recipient = true)
    (paid : D.token.transfer D.address recipient amount.toNat w.token = some token) :
    Accepted (.withdraw proof w.bridge.stateRoot newRoot amount recipient)
      ⟨w.timestamp, { w.bridge with stateRoot := newRoot, lastProofTimestamp := w.timestamp }, token⟩
  | postTransferBatch {proof newRoot} (live : w.bridge.frozen = false)
    (verified : D.verifyTransfer proof w.bridge.stateRoot newRoot = true) :
    Accepted (.postTransferBatch proof w.bridge.stateRoot newRoot)
      ⟨w.timestamp, { w.bridge with stateRoot := newRoot, lastProofTimestamp := w.timestamp }, w.token⟩
  | freeze (live : w.bridge.frozen = false) (idle : w.bridge.lastProofTimestamp + escapeTimeout < w.timestamp) :
    Accepted .freeze ⟨w.timestamp, { w.bridge with frozen := true }, w.token⟩
  | requestForcedWithdrawal {proof newRoot amount recipient} (live : w.bridge.frozen = false) (pos : amount ≠ 0)
    (verified : D.verifyWithdrawal proof w.bridge.stateRoot newRoot amount recipient = true) :
    Accepted (.requestForcedWithdrawal proof w.bridge.stateRoot newRoot amount recipient)
      ⟨w.timestamp, { w.bridge with
        forcedRequestCount := w.bridge.forcedRequestCount + 1
        forcedRequests := Function.update w.bridge.forcedRequests w.bridge.forcedRequestCount
          ⟨w.bridge.stateRoot, newRoot, amount, recipient, w.timestamp + forcedWithdrawalDeadline⟩ },
        w.token⟩
  | processForcedWithdrawal {requestId req token} (live : w.bridge.frozen = false)
    (stored : w.bridge.forcedRequests requestId = req) (found : req.deadline ≠ 0)
    (fresh : w.bridge.stateRoot = req.oldRoot)
    (paid : D.token.transfer D.address req.recipient req.amount.toNat w.token = some token) :
    Accepted (.processForcedWithdrawal requestId) ⟨w.timestamp, { w.bridge with
        stateRoot := req.newRoot
        lastProofTimestamp := w.timestamp
        forcedRequests := Function.update w.bridge.forcedRequests requestId (.deleted D.sha256) }, token⟩
  | freezeOnExpiredRequest {requestId req} (live : w.bridge.frozen = false)
    (stored : w.bridge.forcedRequests requestId = req) (found : req.deadline ≠ 0)
    (expired : req.deadline < w.timestamp) :
    Accepted (.freezeOnExpiredRequest requestId) ⟨w.timestamp, { w.bridge with frozen := true }, w.token⟩
  | escapeWithdraw {leafIndex pubkey balance salt merkleProof token} (frozen : w.bridge.frozen = true)
    (unclaimed : w.bridge.claimed leafIndex = false) (pos : balance ≠ 0)
    (proof : D.sha256.verifyMerkleProof (D.sha256.bridgeCommitment pubkey balance salt) leafIndex merkleProof
      w.bridge.stateRoot = true)
    (owner : sender = w.bridge.escapeAddress pubkey)
    (paid : D.token.transfer D.address sender balance.toNat w.token = some token) :
    Accepted (.escapeWithdraw leafIndex pubkey balance salt merkleProof)
      ⟨w.timestamp, { w.bridge with claimed := Function.update w.bridge.claimed leafIndex true }, token⟩

variable {D sender w} {call : Call W} {w' : World W τ}

omit [DecidableEq W] in
theorem pay_eq_ok {recipient : Address} {amount : Nat} {msg : String} {token token' : τ} :
    D.pay recipient amount msg token = .ok token' ↔
      D.token.transfer D.address recipient amount token = some token' := okOr_eq_ok

theorem Call.run_eq_ok : call.run D sender w = .ok w' ↔ Accepted D sender w call w' := by
  constructor
  · intro h
    cases call with
    | deposit amount pubkey membershipSeal =>
      simp only [run, Validium.deposit, bind_eq_ok, failIf_eq_ok, okOr_eq_ok, pure_eq_ok, exists_const,
        Bool.not_eq_true, Bool.not_eq_false, not_and_or, not_not] at h
      obtain ⟨live, pos, proof, free, token, paid, rfl⟩ := h
      exact .deposit live pos proof free paid
    | withdraw proof oldRoot newRoot amount recipient =>
      simp only [run, Validium.withdraw, bind_eq_ok, failIf_eq_ok, pay_eq_ok, pure_eq_ok, exists_const,
        Bool.not_eq_true, Bool.not_eq_false, not_not] at h
      obtain ⟨live, rfl, pos, verified, token, paid, rfl⟩ := h
      exact .withdraw live pos verified paid
    | postTransferBatch proof oldRoot newRoot =>
      simp only [run, Validium.postTransferBatch, bind_eq_ok, failIf_eq_ok, pure_eq_ok, exists_const,
        Bool.not_eq_true, Bool.not_eq_false, not_not] at h
      obtain ⟨live, rfl, verified, rfl⟩ := h
      exact .postTransferBatch live verified
    | freeze =>
      simp only [run, Validium.freeze, bind_eq_ok, failIf_eq_ok, pure_eq_ok, exists_const,
        Bool.not_eq_true, Nat.not_le] at h
      obtain ⟨live, idle, rfl⟩ := h
      exact .freeze live idle
    | requestForcedWithdrawal proof oldRoot newRoot amount recipient =>
      simp only [run, Validium.requestForcedWithdrawal, bind_eq_ok, failIf_eq_ok, pure_eq_ok, exists_const,
        Bool.not_eq_true, Bool.not_eq_false, not_not] at h
      obtain ⟨live, rfl, pos, verified, rfl⟩ := h
      exact .requestForcedWithdrawal live pos verified
    | processForcedWithdrawal requestId =>
      simp only [run, Validium.processForcedWithdrawal, bind_eq_ok, failIf_eq_ok, pay_eq_ok, pure_eq_ok,
        exists_const, Bool.not_eq_true, not_not] at h
      obtain ⟨live, found, fresh, token, paid, rfl⟩ := h
      exact .processForcedWithdrawal live rfl found fresh paid
    | freezeOnExpiredRequest requestId =>
      simp only [run, Validium.freezeOnExpiredRequest, bind_eq_ok, failIf_eq_ok, pure_eq_ok, exists_const,
        Bool.not_eq_true, Nat.not_le] at h
      obtain ⟨live, found, expired, rfl⟩ := h
      exact .freezeOnExpiredRequest live rfl found expired
    | escapeWithdraw leafIndex pubkey balance salt merkleProof =>
      simp only [run, Validium.escapeWithdraw, bind_eq_ok, failIf_eq_ok, pay_eq_ok, pure_eq_ok, exists_const,
        Bool.not_eq_true, Bool.not_eq_false, not_not] at h
      obtain ⟨frozen, unclaimed, pos, proof, owner, token, paid, rfl⟩ := h
      exact .escapeWithdraw frozen unclaimed pos proof owner paid
  · intro h
    cases h with
    | deposit live pos proof free paid =>
      simp only [run, Validium.deposit, bind_eq_ok, failIf_eq_ok, okOr_eq_ok, pure_eq_ok, exists_const,
        Bool.not_eq_true, Bool.not_eq_false, not_and_or, not_not]
      exact ⟨live, pos, proof, free, _, paid, rfl⟩
    | withdraw live pos verified paid =>
      simp only [run, Validium.withdraw, bind_eq_ok, failIf_eq_ok, pay_eq_ok, pure_eq_ok, exists_const,
        Bool.not_eq_true, Bool.not_eq_false, not_not]
      exact ⟨live, trivial, pos, verified, _, paid, rfl⟩
    | postTransferBatch live verified =>
      simp only [run, Validium.postTransferBatch, bind_eq_ok, failIf_eq_ok, pure_eq_ok, exists_const,
        Bool.not_eq_true, Bool.not_eq_false, not_not]
      exact ⟨live, trivial, verified, trivial⟩
    | freeze live idle =>
      simp only [run, Validium.freeze, bind_eq_ok, failIf_eq_ok, pure_eq_ok, exists_const,
        Bool.not_eq_true, Nat.not_le]
      exact ⟨live, idle, trivial⟩
    | requestForcedWithdrawal live pos verified =>
      simp only [run, Validium.requestForcedWithdrawal, bind_eq_ok, failIf_eq_ok, pure_eq_ok, exists_const,
        Bool.not_eq_true, Bool.not_eq_false, not_not]
      exact ⟨live, trivial, pos, verified, trivial⟩
    | processForcedWithdrawal live stored found fresh paid =>
      subst stored
      simp only [run, Validium.processForcedWithdrawal, bind_eq_ok, failIf_eq_ok, pay_eq_ok, pure_eq_ok,
        exists_const, Bool.not_eq_true, not_not]
      exact ⟨live, found, fresh, _, paid, rfl⟩
    | freezeOnExpiredRequest live stored found expired =>
      subst stored
      simp only [run, Validium.freezeOnExpiredRequest, bind_eq_ok, failIf_eq_ok, pure_eq_ok, exists_const,
        Bool.not_eq_true, Nat.not_le]
      exact ⟨live, found, expired, trivial⟩
    | escapeWithdraw frozen unclaimed pos proof owner paid =>
      simp only [run, Validium.escapeWithdraw, bind_eq_ok, failIf_eq_ok, pay_eq_ok, pure_eq_ok, exists_const,
        Bool.not_eq_true, Bool.not_eq_false, not_not]
      exact ⟨frozen, unclaimed, pos, proof, owner, _, paid, rfl⟩

end

theorem byte_uint64ToLE (x : UInt64) {k : Nat} (hk : k < 8) :
    (uint64ToLE x).toNat / 256 ^ k % 256 = x.toNat / 256 ^ (7 - k) % 256 := by
  apply Nat.eq_of_testBit_eq
  intro i
  have hpow : ∀ j, 256 ^ j = 2 ^ (8 * j) := fun j => by rw [Nat.pow_mul]
  have hbyte : 256 = 2 ^ 8 := rfl
  rw [hpow, hpow, hbyte, Nat.testBit_mod_two_pow, Nat.testBit_mod_two_pow, Nat.testBit_div_two_pow,
    Nat.testBit_div_two_pow]
  simp only [uint64ToLE, UInt64.toNat_or, UInt64.toNat_shiftLeft, UInt64.toNat_shiftRight,
    UInt8.toNat_toUInt64, UInt64.toNat_toUInt8, Nat.testBit_or, Nat.testBit_mod_two_pow,
    Nat.testBit_shiftLeft, Nat.testBit_shiftRight]
  rcases Nat.lt_or_ge i 8 with hi | hi
  · -- bit `i` of byte `k` is set by one shift only
    interval_cases k <;> interval_cases i <;> simp
  · rw [decide_eq_false (Nat.not_lt.mpr hi), Bool.false_and, Bool.false_and]

theorem toBeBytes_uint64ToLE (x : UInt64) : toBeBytes (uint64ToLE x) = toLeBytes x := by
  have hbyte : ∀ k, k < 8 → UInt8.ofNat ((uint64ToLE x).toNat / 256 ^ k) =
      UInt8.ofNat (x.toNat / 256 ^ (7 - k)) := by
    intro k hk
    rw [← UInt8.toNat_inj, UInt8.toNat_ofNat', UInt8.toNat_ofNat']
    exact byte_uint64ToLE x hk
  have h7 := hbyte 7 (by decide)
  have h6 := hbyte 6 (by decide)
  have h5 := hbyte 5 (by decide)
  have h4 := hbyte 4 (by decide)
  have h3 := hbyte 3 (by decide)
  have h2 := hbyte 2 (by decide)
  have h1 := hbyte 1 (by decide)
  have h0 := hbyte 0 (by decide)
  simp only [toBeBytes, toLeBytes, beOfNat, h7, h6, h5, h4, h3, h2, h1, h0]
  rfl

/-- The contract commits to an account as the guest programs do. -/
theorem bridgeCommitment_eq (S : Sha256 W) (pubkey : W) (balance : UInt64) (salt : W) :
    S.bridgeCommitment pubkey balance salt = S.accountCommitment pubkey balance salt := by
  rw [Sha256.bridgeCommitment, toBeBytes_uint64ToLE]
  rfl

variable {S : Sha256 W}

theorem climbProof_eq (leaf : W) (index : Nat) (proof : List W) : S.climbProof leaf index proof =
      (Merkle.foldPath S.hashPair leaf (Merkle.indexPath index proof), index / 2 ^ proof.length) := by
  induction proof generalizing leaf index with
  | nil => rw [List.length_nil, Nat.pow_zero, Nat.div_one]; rfl
  | cons sibling proof ih =>
    have hstep : (if index % 2 = 0 then S.digest [.word leaf, .word sibling]
        else S.digest [.word sibling, .word leaf]) =
        Merkle.combine S.hashPair (decide (index % 2 = 1)) sibling leaf := by
      rcases Nat.mod_two_eq_zero_or_one index with h | h
      · rw [h]; rfl
      · rw [h]; rfl
    rw [Sha256.climbProof, List.foldl_cons, hstep, List.length_cons, Nat.pow_succ', ← Nat.div_div_eq_div_mul]
    exact ih _ _

/-- What an inclusion proof against the root of a tree shows, whatever the index and the length. -/
theorem Sha256.Ideal.of_verifyMerkleProof [DecidableEq W] (H : S.Ideal) {t : AccountTree W}
    {a : Account W} {index : Nat} {proof : List W}
    (h : S.verifyMerkleProof (a.commitment S) index proof (t.root S) = true) :
    index < 2 ^ t.depth ∧ t.leaves index = some a ∧
      proof = (Merkle.pathAt S.hashPair (t.leaf S) 0 t.depth index).map (·.2) := by
  simp only [verifyMerkleProof, climbProof_eq, Bool.and_eq_true, decide_eq_true_eq] at h
  obtain ⟨hroot, hindex⟩ := h
  obtain ⟨hlength, hleaf, hpath⟩ :=
    Merkle.foldPath_eq_root H.pair_inj (H.leaf_ne t) (H.commitment_ne a) hroot
  have hbits : Merkle.ofBits ((Merkle.indexPath index proof).map (·.1)) = index := by
    rw [Merkle.ofBits_indexPath]
    exact Nat.mod_eq_of_lt (Nat.lt_of_div_eq_zero (Nat.two_pow_pos _) hindex)
  have hlt := Merkle.ofBits_lt ((Merkle.indexPath index proof).map (·.1))
  rw [List.length_map, hlength, hbits] at hlt
  rw [hbits] at hleaf hpath
  have hsingle : (⟨0, fun _ => some a⟩ : AccountTree W).leaf S 0 = a.commitment S := rfl
  exact ⟨hlt, (H.leaf_inj (hsingle.trans hleaf)).symm, by rw [← hpath, Merkle.map_snd_indexPath]⟩

theorem Sha256.Ideal.leaf_of_verifyMerkleProof [DecidableEq W] (H : S.Ideal) {t : AccountTree W}
    {a : Account W} {index : Nat} {proof : List W}
    (h : S.verifyMerkleProof (a.commitment S) index proof (t.root S) = true) :
    index < 2 ^ t.depth ∧ t.leaves index = some a :=
  ⟨(H.of_verifyMerkleProof h).1, (H.of_verifyMerkleProof h).2.1⟩

theorem verifyMerkleProof_of_leaf [DecidableEq W] {t : AccountTree W} {a : Account W} {index : Nat}
    (hindex : index < 2 ^ t.depth) (ha : t.leaves index = some a) : S.verifyMerkleProof (a.commitment S) index
      ((Merkle.pathAt S.hashPair (t.leaf S) 0 t.depth index).map (·.2)) (t.root S) = true := by
  have hleaf : a.commitment S = Merkle.nodeAt S.hashPair (t.leaf S) 0 index := by
    rw [Merkle.nodeAt, AccountTree.leaf, ha]
    rfl
  simp only [Sha256.verifyMerkleProof, climbProof_eq, Bool.and_eq_true, decide_eq_true_eq]
  rw [Merkle.indexPath_pathAt, List.length_map, Merkle.length_pathAt, Nat.div_eq_of_lt hindex, hleaf,
    Merkle.foldPath_pathAt, Nat.zero_add, Nat.div_eq_of_lt hindex]
  exact ⟨rfl, rfl⟩

end

end Pocs.Validium
