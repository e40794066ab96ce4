import Pocs.Lib.LeanImt
import Pocs.Lib.RootRing
import Pocs.Lib.Token
import Pocs.Epochs.Chains

/-! # The pool with epochs

`ShieldedPoolExt.sol`. The verifiers at their addresses, the tokens and the immutables are fields of `Deployment`.
A call is a function on the storage of the pool and the states of the tokens, and a revert undoes all of it. -/

namespace Pocs.Epochs

open Compliance (BnField Word Address)

def maxHistoricalRoots : Nat := 100

structure ShieldedPoolExt (T : Type) extends EpochStorage where
  tree : T
  roots : RootRing
  supportedTokens : Address → Bool
  depositVerifier : Address
  transferVerifier : Address
  insertionVerifier : Address
  withdrawVerifier : Address
  withdrawInsertionVerifier : Address
  owner : Address
  activeNullifierRoot : Word
  activeLeafCount : UInt64

/-- What the contract is set up with, and what it calls. -/
structure Deployment (F T τ : Type) where
  hash : List F → F
  imt : LeanImt F T
  /-- `address(this)`. -/
  address : Address
  chainVkHash : Word
  emptyImtRoot : Word
  /-- The contract behind each `IERC20(token)`. -/
  token : Address → Token Address τ
  /-- `IVerifier(verifier).verify(proof, inputs)`. -/
  verify : (verifier : Address) → (proof : List UInt8) → (inputs : List Word) → Bool

structure Chain (T τ : Type) where
  pool : ShieldedPoolExt T
  tokens : Address → τ

structure DepositParams where
  proof : List UInt8
  commitment : Word
  token : Address
  amount : Nat
  encryptedNote : List UInt8

structure TransferParams where
  spendProof : List UInt8
  insertionProof : List UInt8
  nullifiers : Word × Word
  outputCommitments : Word × Word
  root : Word
  epochCreated : UInt64 × UInt64
  postActiveRoot : Word
  encryptedNotes : List UInt8

structure WithdrawParams where
  spendProof : List UInt8
  insertionProof : List UInt8
  nullifier : Word
  token : Address
  amount : Nat
  recipient : Address
  root : Word
  epochCreated : UInt64
  postActiveRoot : Word

inductive PoolEvent where
  | deposit (commitment : Word) (token : Address) (amount : Nat) (encryptedNote : List UInt8)
  | transfer (nullifier1 nullifier2 commitment1 commitment2 : Word) (encryptedNotes : List UInt8)
  | withdraw (nullifier : Word) (recipient token : Address) (amount : Nat)
  | epochRollover (epoch : UInt64) (root : Word)
  | tokenAdded (token : Address)
  | tokenRemoved (token : Address)
  | depositVerifierUpdated (oldVerifier newVerifier : Address)
  | ownershipTransferred (previousOwner newOwner : Address)

/-- The custom errors; `token` is a failed token call and `panic` a checked overflow. -/
inductive PoolRevert where
  | onlyOwner
  | unsupportedToken
  | zeroAmount
  | invalidProof
  | invalidRoot
  | zeroAddress
  | tokenAlreadySupported
  | tokenNotSupported
  | leafGreaterThanSnarkScalarField
  | leanImt (e : LeanImtError)
  | token
  | panic

section
variable {F T τ : Type} [BnField F] (D : Deployment F T τ) (c : Chain T τ)

/-! ## Internal functions -/

namespace ShieldedPoolExt
variable (pool : ShieldedPoolExt T)

def commitmentRoot : Word := Scalar.toNat (D.imt.root pool.tree)

def isKnownRoot (root : Word) : Bool := root = pool.commitmentRoot D || pool.roots.valid root

def insert (leaf : Word) : Except PoolRevert (ShieldedPoolExt T) := do
  failIf (BnField.canonical F leaf = false) .leafGreaterThanSnarkScalarField
  let tree ← mapErr .leanImt (D.imt.insert (Scalar.ofNat leaf) pool.tree)
  pure { pool with tree }

def recordRoot : ShieldedPoolExt T :=
  { pool with roots := pool.roots.record maxHistoricalRoots (pool.commitmentRoot D) }

/-- `insertionInputs` of `_verifyInsertionAndAdvance`. -/
def insertionInputs (nullifierList : List Word) (postActiveRoot : Word) : List Word :=
  [pool.activeNullifierRoot, postActiveRoot, pool.activeLeafCount.toNat] ++ nullifierList

def verifyInsertionAndAdvance (insVerifier : Address) (insertionProof : List UInt8) (nullifierList : List Word)
    (postActiveRoot : Word) : Except PoolRevert (ShieldedPoolExt T) := do
  failIf (D.verify insVerifier insertionProof (pool.insertionInputs nullifierList postActiveRoot) = false)
    .invalidProof
  failIf (2 ^ 64 ≤ pool.activeLeafCount.toNat + nullifierList.length) .panic
  pure { pool with
    activeNullifierRoot := postActiveRoot
    activeLeafCount := pool.activeLeafCount + .ofNat nullifierList.length }

def depositInputs (p : DepositParams) : List Word :=
  [p.commitment, p.token.toNat, p.amount, pool.currentEpoch.toNat]

/-- `spendInputs` of `transfer`. -/
def transferInputs (p : TransferParams) : List Word :=
  [p.nullifiers.1, p.nullifiers.2, p.outputCommitments.1, p.outputCommitments.2, p.root,
    pool.currentEpoch.toNat, D.chainVkHash, p.epochCreated.1.toNat, p.epochCreated.2.toNat,
    pool.expectedChainAccumulator D.hash p.epochCreated.1, pool.expectedChainAccumulator D.hash p.epochCreated.2]

/-- `spendInputs` of `withdraw`. -/
def withdrawInputs (p : WithdrawParams) : List Word :=
  [p.nullifier, p.token.toNat, p.amount, p.recipient.toNat, p.root, pool.currentEpoch.toNat, D.chainVkHash,
    p.epochCreated.toNat, pool.expectedChainAccumulator D.hash p.epochCreated]

end ShieldedPoolExt

/-! ## Entry points -/

def deposit (sender : Address) (p : DepositParams) : Except PoolRevert (Chain T τ × List PoolEvent) := do
  failIf (c.pool.supportedTokens p.token = false) .unsupportedToken
  failIf (p.amount = 0) .zeroAmount
  failIf (D.verify c.pool.depositVerifier p.proof (c.pool.depositInputs p) = false) .invalidProof
  let pool ← c.pool.insert D p.commitment
  let pool := pool.recordRoot D
  let token ← okOr ((D.token p.token).transferFrom D.address sender D.address p.amount (c.tokens p.token)) .token
  pure (⟨pool, Function.update c.tokens p.token token⟩, [.deposit p.commitment p.token p.amount p.encryptedNote])

def transfer (p : TransferParams) : Except PoolRevert (Chain T τ × List PoolEvent) := do
  failIf (c.pool.isKnownRoot D p.root = false) .invalidRoot
  failIf (D.verify c.pool.transferVerifier p.spendProof (c.pool.transferInputs D p) = false) .invalidProof
  let pool ← c.pool.verifyInsertionAndAdvance D c.pool.insertionVerifier p.insertionProof
    [p.nullifiers.1, p.nullifiers.2] p.postActiveRoot
  let pool ← pool.insert D p.outputCommitments.1
  let pool ← pool.insert D p.outputCommitments.2
  let pool := pool.recordRoot D
  pure (⟨pool, c.tokens⟩, [.transfer p.nullifiers.1 p.nullifiers.2 p.outputCommitments.1 p.outputCommitments.2
    p.encryptedNotes])

def withdraw (p : WithdrawParams) : Except PoolRevert (Chain T τ × List PoolEvent) := do
  failIf (c.pool.supportedTokens p.token = false) .unsupportedToken
  failIf (p.amount = 0) .zeroAmount
  failIf (p.recipient = 0) .zeroAddress
  failIf (c.pool.isKnownRoot D p.root = false) .invalidRoot
  failIf (D.verify c.pool.withdrawVerifier p.spendProof (c.pool.withdrawInputs D p) = false) .invalidProof
  let pool ← c.pool.verifyInsertionAndAdvance D c.pool.withdrawInsertionVerifier p.insertionProof [p.nullifier]
    p.postActiveRoot
  let token ← okOr ((D.token p.token).transfer D.address p.recipient p.amount (c.tokens p.token)) .token
  pure (⟨pool, Function.update c.tokens p.token token⟩, [.withdraw p.nullifier p.recipient p.token p.amount])

def onlyOwner (sender : Address) : Except PoolRevert Unit := failIf (sender ≠ c.pool.owner) .onlyOwner

def rolloverEpoch (sender : Address) : Except PoolRevert (Chain T τ × List PoolEvent) := do
  onlyOwner c sender
  let frozenEpoch := c.pool.currentEpoch
  let frozenRoot := c.pool.activeNullifierRoot
  failIf (2 ^ 64 ≤ frozenEpoch.toNat + 1) .panic
  pure ({ c with pool := { c.pool with
      frozenNullifierRoots := Function.update c.pool.frozenNullifierRoots frozenEpoch.toNat frozenRoot
      activeNullifierRoot := D.emptyImtRoot
      activeLeafCount := 1
      currentEpoch := frozenEpoch + 1 } },
    [.epochRollover frozenEpoch frozenRoot])

end

inductive AdminCall where
  | addSupportedToken (token : Address)
  | removeSupportedToken (token : Address)
  | setDepositVerifier (newVerifier : Address)
  | transferOwnership (newOwner : Address)

def AdminCall.run {T τ : Type} (c : Chain T τ) (sender : Address) :
    AdminCall → Except PoolRevert (Chain T τ × List PoolEvent)
  | .addSupportedToken token => do
    onlyOwner c sender
    failIf (token = 0) .zeroAddress
    failIf (c.pool.supportedTokens token = true) .tokenAlreadySupported
    pure ({ c with pool := { c.pool with supportedTokens := Function.update c.pool.supportedTokens token true } },
      [.tokenAdded token])
  | .removeSupportedToken token => do
    onlyOwner c sender
    failIf (c.pool.supportedTokens token = false) .tokenNotSupported
    pure ({ c with pool := { c.pool with supportedTokens := Function.update c.pool.supportedTokens token false } },
      [.tokenRemoved token])
  | .setDepositVerifier newVerifier => do
    onlyOwner c sender
    failIf (newVerifier = 0) .zeroAddress
    pure ({ c with pool := { c.pool with depositVerifier := newVerifier } },
      [.depositVerifierUpdated c.pool.depositVerifier newVerifier])
  | .transferOwnership newOwner => do
    onlyOwner c sender
    failIf (newOwner = 0) .zeroAddress
    pure ({ c with pool := { c.pool with owner := newOwner } }, [.ownershipTransferred c.pool.owner newOwner])

structure ConstructorParams where
  depositVerifier : Address
  transferVerifier : Address
  insertionVerifier : Address
  withdrawVerifier : Address
  withdrawInsertionVerifier : Address

def ShieldedPoolExt.new {F T τ : Type} (D : Deployment F T τ) (sender : Address) (p : ConstructorParams) :
    Except PoolRevert (ShieldedPoolExt T) := do
  failIf (p.depositVerifier = 0 ∨ p.transferVerifier = 0 ∨ p.insertionVerifier = 0 ∨ p.withdrawVerifier = 0 ∨
    p.withdrawInsertionVerifier = 0) .zeroAddress
  pure
    { currentEpoch := 0
      frozenNullifierRoots := fun _ => 0
      tree := D.imt.empty
      roots := .empty
      supportedTokens := fun _ => false
      depositVerifier := p.depositVerifier
      transferVerifier := p.transferVerifier
      insertionVerifier := p.insertionVerifier
      withdrawVerifier := p.withdrawVerifier
      withdrawInsertionVerifier := p.withdrawInsertionVerifier
      owner := sender
      activeNullifierRoot := D.emptyImtRoot
      activeLeafCount := 1 }

/-! ## What a successful call does -/

section
variable {F T τ : Type} [BnField F] {D : Deployment F T τ} {c c' : Chain T τ} {events : List PoolEvent}

namespace ShieldedPoolExt
variable {pool pool' : ShieldedPoolExt T}

theorem insert_eq_ok {leaf : Word} : pool.insert D leaf = .ok pool' ↔ BnField.canonical F leaf = true ∧
    ∃ tree, D.imt.insert (Scalar.ofNat leaf) pool.tree = .ok tree ∧ { pool with tree } = pool' := by
  simp only [insert, bind_eq_ok, failIf_eq_ok, mapErr_eq_ok, pure_eq_ok, exists_const, Bool.not_eq_false]

def advanced (pool : ShieldedPoolExt T) (postActiveRoot : Word) (k : Nat) : ShieldedPoolExt T :=
  { pool with activeNullifierRoot := postActiveRoot, activeLeafCount := pool.activeLeafCount + .ofNat k }

omit [BnField F] in
theorem verifyInsertionAndAdvance_ok {v : Address} {proof : List UInt8} {ns : List Word} {post : Word}
    (h : pool.verifyInsertionAndAdvance D v proof ns post = .ok pool') :
    pool.activeLeafCount.toNat + ns.length < 2 ^ 64 ∧ pool' = pool.advanced post ns.length := by
  simp only [verifyInsertionAndAdvance, bind_eq_ok, failIf_eq_ok, pure_eq_ok, exists_const, not_le] at h
  exact ⟨h.2.1, h.2.2.symm⟩

theorem toNat_advanced {post : Word} {k : Nat} (h : pool.activeLeafCount.toNat + k < 2 ^ 64) :
    (pool.advanced post k).activeLeafCount.toNat = pool.activeLeafCount.toNat + k := by
  rw [advanced, UInt64.toNat_add, UInt64.toNat_ofNat', Nat.add_mod_mod, Nat.mod_eq_of_lt h]

end ShieldedPoolExt

theorem deposit_ok {sender : Address} {p : DepositParams} (h : deposit D c sender p = .ok (c', events)) :
    ∃ tree token, D.imt.insert (Scalar.ofNat p.commitment) c.pool.tree = .ok tree ∧
      (D.token p.token).transferFrom D.address sender D.address p.amount (c.tokens p.token) = some token ∧
      c' = ⟨{ c.pool with tree }.recordRoot D, Function.update c.tokens p.token token⟩ ∧
      BnField.canonical F p.commitment = true ∧
      events = [.deposit p.commitment p.token p.amount p.encryptedNote] := by
  simp only [deposit, bind_eq_ok, failIf_eq_ok, ShieldedPoolExt.insert_eq_ok, okOr_eq_ok, pure_eq_ok,
    exists_const, Prod.mk.injEq] at h
  obtain ⟨-, -, -, _, ⟨hcanonical, tree, htree, rfl⟩, token, htoken, rfl, rfl⟩ := h
  exact ⟨tree, token, htree, htoken, rfl, hcanonical, rfl⟩

theorem transfer_ok {p : TransferParams} (h : transfer D c p = .ok (c', events)) :
    c.pool.isKnownRoot D p.root = true ∧ c.pool.activeLeafCount.toNat + 2 < 2 ^ 64 ∧
      ∃ tree, [p.outputCommitments.1, p.outputCommitments.2].foldlM
          (fun t x => D.imt.insert (Scalar.ofNat x) t) c.pool.tree = .ok tree ∧
        c' = ⟨{ c.pool.advanced p.postActiveRoot 2 with tree }.recordRoot D, c.tokens⟩ ∧
        (BnField.canonical F p.outputCommitments.1 = true ∧ BnField.canonical F p.outputCommitments.2 = true) ∧
        events = [.transfer p.nullifiers.1 p.nullifiers.2 p.outputCommitments.1 p.outputCommitments.2
          p.encryptedNotes] := by
  simp only [transfer, bind_eq_ok, failIf_eq_ok, ShieldedPoolExt.insert_eq_ok, pure_eq_ok, exists_const,
    Prod.mk.injEq, Bool.not_eq_false] at h
  obtain ⟨hroot, -, _, hadvance, _, ⟨hc1, tree1, htree1, rfl⟩, _, ⟨hc2, tree2, htree2, rfl⟩, rfl, rfl⟩ := h
  obtain ⟨hcount, rfl⟩ := ShieldedPoolExt.verifyInsertionAndAdvance_ok hadvance
  refine ⟨hroot, hcount, tree2, ?_, rfl, ⟨hc1, hc2⟩, rfl⟩
  rw [List.foldlM_cons, bind_eq_ok]
  refine ⟨tree1, htree1, ?_⟩
  rw [List.foldlM_cons, bind_eq_ok]
  exact ⟨tree2, htree2, rfl⟩

theorem withdraw_ok {p : WithdrawParams} (h : withdraw D c p = .ok (c', events)) :
    c.pool.isKnownRoot D p.root = true ∧ c.pool.activeLeafCount.toNat + 1 < 2 ^ 64 ∧
      ∃ token, (D.token p.token).transfer D.address p.recipient p.amount (c.tokens p.token) = some token ∧
        c' = ⟨c.pool.advanced p.postActiveRoot 1, Function.update c.tokens p.token token⟩ ∧
        events = [.withdraw p.nullifier p.recipient p.token p.amount] := by
  simp only [withdraw, bind_eq_ok, failIf_eq_ok, okOr_eq_ok, pure_eq_ok, exists_const, Prod.mk.injEq,
    Bool.not_eq_false] at h
  obtain ⟨-, -, -, hroot, -, _, hadvance, token, htoken, rfl, rfl⟩ := h
  obtain ⟨hcount, rfl⟩ := ShieldedPoolExt.verifyInsertionAndAdvance_ok hadvance
  exact ⟨hroot, hcount, token, htoken, rfl, rfl⟩

def ShieldedPoolExt.rolled (D : Deployment F T τ) (pool : ShieldedPoolExt T) : ShieldedPoolExt T :=
  { pool with
    frozenNullifierRoots := Function.update pool.frozenNullifierRoots pool.currentEpoch.toNat
      pool.activeNullifierRoot
    activeNullifierRoot := D.emptyImtRoot
    activeLeafCount := 1
    currentEpoch := pool.currentEpoch + 1 }

omit [BnField F] in
theorem rolloverEpoch_ok {sender : Address} (h : rolloverEpoch D c sender = .ok (c', events)) :
    c.pool.currentEpoch.toNat + 1 < 2 ^ 64 ∧ c' = { c with pool := c.pool.rolled D } ∧
      events = [.epochRollover c.pool.currentEpoch c.pool.activeNullifierRoot] := by
  simp only [rolloverEpoch, onlyOwner, bind_eq_ok, failIf_eq_ok, pure_eq_ok, exists_const, Prod.mk.injEq, not_le] at h
  obtain ⟨-, hepoch, rfl, rfl⟩ := h
  exact ⟨hepoch, rfl, rfl⟩

/-- The administration changes the supported tokens, a verifier or the owner. -/
theorem AdminCall.run_ok {T τ : Type} {c c' : Chain T τ} {sender : Address} {call : AdminCall}
    (h : call.run c sender = .ok (c', events)) : ∃ supportedTokens depositVerifier owner,
      c' = { c with pool := { c.pool with supportedTokens, depositVerifier, owner } } := by
  cases call with
  | addSupportedToken =>
    simp only [run, onlyOwner, bind_eq_ok, failIf_eq_ok, pure_eq_ok, exists_const, Prod.mk.injEq] at h
    exact ⟨_, _, _, h.2.2.2.1.symm⟩
  | removeSupportedToken | setDepositVerifier | transferOwnership =>
    simp only [run, onlyOwner, bind_eq_ok, failIf_eq_ok, pure_eq_ok, exists_const, Prod.mk.injEq] at h
    exact ⟨_, _, _, h.2.2.1.symm⟩

end

end Pocs.Epochs
