import Pocs.Lib.LeanImt
import Pocs.Lib.RootRing
import Pocs.Lib.Token
import Pocs.Rails.Header

/-! # The disbursement contracts

`Registry.sol`, `RoundFactory.sol`, `ClaimContract.sol` and `ShieldedPool.sol` on one chain: any number
of factories and claim contracts over one pool, by their addresses. A call is a function on the
storages; a revert undoes all of it. The wiring that is set once, the token, the verifiers at their
addresses and the Merkle tree are fields of `Deployment`. -/

namespace Pocs.Rails

open Compliance (Address Word BnField)

inductive RailsError where
  | abi
  | notFunderMultisig
  | cohortRootMismatch
  | cohortSizeMismatch
  | wrongChainId
  | wrongClaimContract
  | wrongCommitmentCount
  | wrongToken
  | roundIdCollision
  | zeroAddress
  | zeroAmount
  | notFactory
  | notMultisig
  | notGovernance
  | notOperator
  | notClaimContract
  | emptyRoot
  | emptySize
  | noPending
  | alreadyPending
  | timelockNotExpired
  | commitmentExists
  | leafGreaterThanSnarkScalarField
  | imt (e : LeanImtError)
  | unknownRoot
  | nullifierSpent
  | invalidProof
  | insufficientBalance
  | residualAlreadyPaid
  | roundNotRegistered
  | roundClosed
  | roundOpen
  | badHeaderBinding
  | badChainId
  | badRelaySubmitter
  | badPoolBinding
  | nullifierConsumed
  | invalidClaimProof
  | limbOutOfRange
  /-- A token call failed. -/
  | token
  /-- Arithmetic overflow or underflow. -/
  | panic
  deriving DecidableEq, Repr

/-! ## Storage -/

structure Registry where
  currentVersion : UInt64
  cohortRoot : UInt64 → Word
  cohortSize : UInt64 → Word
  operatorKey : Address
  pendingOperatorKey : Address
  pendingOperatorKeyActivation : Nat

structure ClaimContract where
  header : Word → RoundHeader
  firstPoolLeafIndex : Word → UInt64
  roundRegistered : Word → Bool
  nullifierConsumed : Word → Bool
  nullifiersConsumedCount : Word → Nat
  residualPaid : Word → Bool

/-- Mappings by claim contract, or by claim contract and round or commitment. -/
structure ShieldedPool (T : Type) where
  trees : Address → T
  commitmentCount : Address → Nat
  /-- `recentRoots`, `rootIndex` and `knownRoots`. -/
  roots : Address → RootRing
  spentClaimNullifiers : Word → Bool
  balance : Address → Nat
  roundDeposit : Address × Word → Nat
  roundClaimed : Address × Word → Nat
  roundResidualPaid : Address × Word → Bool
  commitmentIndex : Address × Word → Nat
  authorizedFactory : Address
  verifier : Address
  pendingFactory : Address
  pendingFactoryActivation : Nat
  pendingVerifier : Address
  pendingVerifierActivation : Nat

/-- The immutables of a `RoundFactory`; its registry, pool and token are those of the deployment. -/
structure FactoryConfig where
  claimContract : Address
  funderMultisig : Address

/-- What governance has set on a `ClaimContract`, whose pool and token are those of the deployment. -/
structure ClaimConfig where
  factory : Address
  verifier : Address
  funderMultisig : Address
  funderResidualDestination : Address

/-- What is fixed when the contracts are deployed. -/
structure Deployment (F T τ : Type) where
  imt : LeanImt F T
  /-- `block.chainid`. -/
  chainId : Word
  /-- The governance of the pool and of the registry. -/
  governance : Address
  poolAddress : Address
  tokenAddress : Address
  token : Erc20 Address τ
  factories : Address → FactoryConfig
  claims : Address → ClaimConfig
  /-- `verifier.verifyClaim(proof, publicInputs)`, by the address of the verifier. -/
  verifyClaim : Address → List UInt8 → List Word → Bool
  verifyPoolWithdraw : Address → List UInt8 → List Word → Bool

/-- The storage of all contracts, and the block. -/
structure World (T τ : Type) where
  /-- `block.number` and `block.timestamp`. -/
  blockNumber : Nat
  timestamp : Nat
  registry : Registry
  /-- `published`, by factory and round. -/
  published : Address × Word → Bool
  claims : Address → ClaimContract
  pool : ShieldedPool T
  token : τ

def recentRootsWindow : Nat := 100

/-- `CONFIG_TIMELOCK_BLOCKS` of the pool and `OPERATOR_KEY_TIMELOCK_BLOCKS` of the registry. -/
def timelockBlocks : Nat := 14400

def residualTimelockSeconds : Nat := 30 * 86400

section
variable {F T τ : Type} [BnField F] (D : Deployment F T τ) (w : World T τ)

/-! ## `ShieldedPool.sol` -/

def ShieldedPool.new (verifier : Address) : ShieldedPool T where
  trees _ := D.imt.empty
  commitmentCount _ := 0
  roots _ := .empty
  spentClaimNullifiers _ := false
  balance _ := 0
  roundDeposit _ := 0
  roundClaimed _ := 0
  roundResidualPaid _ := false
  commitmentIndex _ := 0
  authorizedFactory := 0
  verifier
  pendingFactory := 0
  pendingFactoryActivation := 0
  pendingVerifier := 0
  pendingVerifierActivation := 0

def leaves (claimContract : Address) : List F := D.imt.leaves (w.pool.trees claimContract)

/-- `_trees[claimContract].size`. -/
def subTreeSize (claimContract : Address) : Nat := (leaves D w claimContract).length

def isKnownRoot (claimContract : Address) (root : Word) : Bool := (w.pool.roots claimContract).valid root

def deposit (sender claimContract : Address) (commitment : Word) (amount : Nat) (roundId : Word) :
    Except RailsError (World T τ) := do
  failIf (sender ≠ w.pool.authorizedFactory) .notFactory
  failIf (claimContract = 0) .zeroAddress
  failIf (w.pool.commitmentIndex (claimContract, commitment) ≠ 0) .commitmentExists
  let token ← okOr (D.token.transferFrom D.poolAddress sender D.poolAddress amount w.token) .token
  let leafIndex := subTreeSize D w claimContract
  failIf (BnField.canonical F commitment = false) .leafGreaterThanSnarkScalarField
  let tree ← mapErr .imt (D.imt.insert (Scalar.ofNat commitment) (w.pool.trees claimContract))
  let newRoot : Word := Scalar.toNat (D.imt.root tree)
  let balance ← okOr (checkedAdd 256 (w.pool.balance claimContract) amount) .panic
  let roundDeposit ← okOr (checkedAdd 256 (w.pool.roundDeposit (claimContract, roundId)) amount) .panic
  let pool := { w.pool with
    trees := Function.update w.pool.trees claimContract tree
    commitmentIndex := Function.update w.pool.commitmentIndex (claimContract, commitment) (leafIndex + 1)
    commitmentCount := Function.update w.pool.commitmentCount claimContract (leafIndex + 1)
    roots := Function.update w.pool.roots claimContract
      ((w.pool.roots claimContract).record recentRootsWindow newRoot)
    balance := Function.update w.pool.balance claimContract balance
    roundDeposit := Function.update w.pool.roundDeposit (claimContract, roundId) roundDeposit }
  pure { w with pool, token }

structure PoolInputs where
  poolRoot : Word
  claimNullifier : Word
  token : Word
  amount : Word
  recipient : Word

def PoolInputs.toList (pi : PoolInputs) : List Word :=
  [pi.poolRoot, pi.claimNullifier, pi.token, pi.amount, pi.recipient]

def unshield (sender claimContract : Address) (withdrawProof : List UInt8)
    (subTreeRoot claimNullifier : Word) (tokenAddr : Address) (amount : Nat) (recipient : Address)
    (roundId : Word) : Except RailsError (World T τ) := do
  failIf (sender ≠ claimContract) .notClaimContract
  failIf (tokenAddr ≠ D.tokenAddress) .wrongToken
  failIf (w.pool.spentClaimNullifiers claimNullifier = true) .nullifierSpent
  failIf (isKnownRoot w claimContract subTreeRoot = false) .unknownRoot
  failIf (w.pool.balance claimContract < amount) .insufficientBalance
  let publicInputs : PoolInputs :=
    ⟨subTreeRoot, claimNullifier, tokenAddr.toNat, amount, recipient.toNat⟩
  failIf (D.verifyPoolWithdraw w.pool.verifier withdrawProof publicInputs.toList = false) .invalidProof
  let roundClaimed ← okOr (checkedAdd 256 (w.pool.roundClaimed (claimContract, roundId)) amount) .panic
  let pool := { w.pool with
    spentClaimNullifiers := Function.update w.pool.spentClaimNullifiers claimNullifier true
    balance := Function.update w.pool.balance claimContract (w.pool.balance claimContract - amount)
    roundClaimed := Function.update w.pool.roundClaimed (claimContract, roundId) roundClaimed }
  let token ← okOr (D.token.transfer D.poolAddress recipient amount w.token) .token
  pure { w with pool, token }

def recoverResidual (sender : Address) (roundId : Word) (amount : Nat) (recipient : Address) :
    Except RailsError (World T τ) := do
  failIf (recipient = 0) .zeroAddress
  failIf (w.pool.roundResidualPaid (sender, roundId) = true) .residualAlreadyPaid
  failIf (w.pool.balance sender < amount) .insufficientBalance
  let pool := { w.pool with
    roundResidualPaid := Function.update w.pool.roundResidualPaid (sender, roundId) true
    balance := Function.update w.pool.balance sender (w.pool.balance sender - amount) }
  let token ← okOr (D.token.transfer D.poolAddress recipient amount w.token) .token
  pure { w with pool, token }

/-! ## `ClaimContract.sol` -/

def ClaimContract.new : ClaimContract where
  header _ := .unset
  firstPoolLeafIndex _ := 0
  roundRegistered _ := false
  nullifierConsumed _ := false
  nullifiersConsumedCount _ := 0
  residualPaid _ := false

def registerHeader (sender claimContract : Address) (h : RoundHeader) (firstPoolLeafIndex : UInt64) :
    Except RailsError (World T τ) := do
  let cc := w.claims claimContract
  failIf (sender ≠ (D.claims claimContract).factory) .notFactory
  failIf (cc.roundRegistered h.roundId = true) .roundIdCollision
  let cc := { cc with
    roundRegistered := Function.update cc.roundRegistered h.roundId true
    header := Function.update cc.header h.roundId h
    firstPoolLeafIndex := Function.update cc.firstPoolLeafIndex h.roundId firstPoolLeafIndex }
  pure { w with claims := Function.update w.claims claimContract cc }

structure ClaimInputs where
  roundIdHi : Word
  roundIdLo : Word
  cohortRoot : Word
  chainIdHi : Word
  chainIdLo : Word
  destination : Word
  amount : Word
  nullifier : Word
  claimContractAddress : Word
  relaySubmitter : Word

def ClaimInputs.toList (pi : ClaimInputs) : List Word :=
  [pi.roundIdHi, pi.roundIdLo, pi.cohortRoot, pi.chainIdHi, pi.chainIdLo, pi.destination, pi.amount,
    pi.nullifier, pi.claimContractAddress, pi.relaySubmitter]

/-- The two proofs of a claim, with their inputs. -/
structure ClaimArgs where
  claimProof : List UInt8
  claimPublicInputs : ClaimInputs
  poolWithdrawProof : List UInt8
  poolPublicInputs : PoolInputs

def joinLimbs (hi lo : Word) : Except RailsError Word := do
  failIf (2 ^ 128 ≤ hi ∨ 2 ^ 128 ≤ lo) .limbOutOfRange
  pure (hi <<< 128 ||| lo)

def decodeRoundId (pi : ClaimInputs) : Except RailsError Word := joinLimbs pi.roundIdHi pi.roundIdLo

def assertChainId (pi : ClaimInputs) (headerChainId : Word) : Except RailsError Unit := do
  let chainId ← joinLimbs pi.chainIdHi pi.chainIdLo
  failIf (chainId ≠ D.chainId ∨ chainId ≠ headerChainId) .badChainId

def assertHeaderBindings (claimContract : Address) (pi : ClaimInputs) (h : RoundHeader) :
    Except RailsError Unit := do
  failIf (pi.cohortRoot ≠ h.cohortRoot) .badHeaderBinding
  failIf (pi.amount ≠ h.perRecipientAmount) .badHeaderBinding
  failIf (pi.claimContractAddress ≠ claimContract.toNat) .badHeaderBinding

def assertPoolBindings (claimContract : Address) (pi : PoolInputs) (nullifier : Word) (amount : Nat)
    (destination : Address) : Except RailsError Unit := do
  failIf (pi.claimNullifier ≠ nullifier) .badPoolBinding
  failIf (pi.amount ≠ amount) .badPoolBinding
  failIf (pi.token ≠ D.tokenAddress.toNat) .badPoolBinding
  failIf (pi.recipient ≠ destination.toNat) .badPoolBinding
  failIf (isKnownRoot w claimContract pi.poolRoot = false) .badPoolBinding

def claim (claimContract sender : Address) (args : ClaimArgs) : Except RailsError (World T τ) := do
  let pi := args.claimPublicInputs
  let roundId ← decodeRoundId pi
  let cc := w.claims claimContract
  failIf (cc.roundRegistered roundId = false) .roundNotRegistered
  let h := cc.header roundId
  failIf (h.closeTime.toNat ≤ w.timestamp) .roundClosed
  assertChainId D pi h.chainId
  assertHeaderBindings claimContract pi h
  failIf (pi.relaySubmitter ≠ sender.toNat) .badRelaySubmitter
  failIf (2 ^ 160 ≤ pi.destination) .limbOutOfRange
  let destination : Address := .ofNat 160 pi.destination
  assertPoolBindings D w claimContract args.poolPublicInputs pi.nullifier h.perRecipientAmount destination
  failIf (cc.nullifierConsumed pi.nullifier = true) .nullifierConsumed
  failIf (D.verifyClaim (D.claims claimContract).verifier args.claimProof pi.toList = false) .invalidClaimProof
  let count ← okOr (checkedAdd 256 (cc.nullifiersConsumedCount roundId) 1) .panic
  let cc := { cc with
    nullifierConsumed := Function.update cc.nullifierConsumed pi.nullifier true
    nullifiersConsumedCount := Function.update cc.nullifiersConsumedCount roundId count }
  let w := { w with claims := Function.update w.claims claimContract cc }
  unshield D w claimContract claimContract args.poolWithdrawProof args.poolPublicInputs.poolRoot
    pi.nullifier D.tokenAddress h.perRecipientAmount destination roundId

def funderUnshieldResidual (claimContract sender : Address) (roundId : Word) :
    Except RailsError (World T τ) := do
  let config := D.claims claimContract
  let cc := w.claims claimContract
  failIf (sender ≠ config.funderMultisig) .notMultisig
  failIf (cc.roundRegistered roundId = false) .roundNotRegistered
  let h := cc.header roundId
  failIf (w.timestamp < h.closeTime.toNat + residualTimelockSeconds) .roundOpen
  failIf (cc.residualPaid roundId = true) .residualAlreadyPaid
  failIf (h.cohortSize < cc.nullifiersConsumedCount roundId) .panic
  let unclaimed ← okOr (checkedMul 256 (h.cohortSize - cc.nullifiersConsumedCount roundId)
    h.perRecipientAmount) .panic
  let cc := { cc with residualPaid := Function.update cc.residualPaid roundId true }
  let w := { w with claims := Function.update w.claims claimContract cc }
  if 0 < unclaimed then recoverResidual D w claimContract roundId unclaimed config.funderResidualDestination
  else pure w

/-! ## `RoundFactory.sol` -/

def publishRound (factory sender : Address) (header : RoundHeader) (commitments : List Word) :
    Except RailsError (World T τ) := do
  -- the decoder of the calldata
  failIf (¬ header.Decoded) .abi
  failIf (2 ^ 64 ≤ commitments.length) .abi
  let config := D.factories factory
  failIf (sender ≠ config.funderMultisig) .notFunderMultisig
  failIf (w.registry.cohortRoot header.cohortVersion ≠ header.cohortRoot) .cohortRootMismatch
  failIf (w.registry.cohortSize header.cohortVersion ≠ header.cohortSize) .cohortSizeMismatch
  failIf (commitments.length ≠ header.cohortSize) .wrongCommitmentCount
  failIf (header.cohortSize = 0) .zeroAmount
  failIf (header.perRecipientAmount = 0) .zeroAmount
  failIf (header.chainId ≠ D.chainId) .wrongChainId
  failIf (header.token ≠ D.tokenAddress) .wrongToken
  failIf (header.claimContractAddress ≠ config.claimContract) .wrongClaimContract
  failIf (w.published (factory, header.roundId) = true) .roundIdCollision
  let published := Function.update w.published (factory, header.roundId) true
  let totalAmount ← okOr (checkedMul 256 header.perRecipientAmount header.cohortSize) .panic
  let token ← okOr (D.token.transferFrom factory sender factory totalAmount w.token) .token
  let token ← okOr (D.token.forceApprove factory D.poolAddress totalAmount token) .token
  let w := { w with published, token }
  let firstPoolLeafIndex : UInt64 := .ofNat (subTreeSize D w config.claimContract)
  let w ← commitments.foldlM (fun w commitment =>
    deposit D w factory config.claimContract commitment header.perRecipientAmount header.roundId) w
  registerHeader D w factory config.claimContract header firstPoolLeafIndex

inductive GovernanceCall where
  | proposeAuthorizedFactory (newFactory : Address)
  | finalizeAuthorizedFactory
  | initAuthorizedFactory (factory : Address)
  | proposeVerifier (newVerifier : Address)
  | finalizeVerifier

def GovernanceCall.run (sender : Address) (call : GovernanceCall) : Except RailsError (ShieldedPool T) := do
  let pool := w.pool
  failIf (sender ≠ D.governance) .notGovernance
  match call with
  | .proposeAuthorizedFactory newFactory => do
    failIf (newFactory = 0) .zeroAddress
    failIf (pool.pendingFactoryActivation ≠ 0) .alreadyPending
    let activation ← okOr (checkedAdd 256 w.blockNumber timelockBlocks) .panic
    pure { pool with pendingFactory := newFactory, pendingFactoryActivation := activation }
  | .finalizeAuthorizedFactory => do
    failIf (pool.pendingFactoryActivation = 0) .noPending
    failIf (w.blockNumber < pool.pendingFactoryActivation) .timelockNotExpired
    pure { pool with
      authorizedFactory := pool.pendingFactory
      pendingFactory := 0
      pendingFactoryActivation := 0 }
  | .initAuthorizedFactory factory => do
    failIf (pool.authorizedFactory ≠ 0) .alreadyPending
    failIf (factory = 0) .zeroAddress
    pure { pool with authorizedFactory := factory }
  | .proposeVerifier newVerifier => do
    failIf (newVerifier = 0) .zeroAddress
    failIf (pool.pendingVerifierActivation ≠ 0) .alreadyPending
    let activation ← okOr (checkedAdd 256 w.blockNumber timelockBlocks) .panic
    pure { pool with pendingVerifier := newVerifier, pendingVerifierActivation := activation }
  | .finalizeVerifier => do
    failIf (pool.pendingVerifierActivation = 0) .noPending
    failIf (w.blockNumber < pool.pendingVerifierActivation) .timelockNotExpired
    pure { pool with
      verifier := pool.pendingVerifier
      pendingVerifier := 0
      pendingVerifierActivation := 0 }

/-! ## `Registry.sol` -/

inductive RegistryCall where
  | publishCohort (root size : Word)
  | proposeOperatorKey (newKey : Address)
  | finalizeOperatorKey
  | cancelPendingOperatorKey

def RegistryCall.run (sender : Address) (call : RegistryCall) : Except RailsError Registry := do
  let reg := w.registry
  match call with
  | .publishCohort root size => do
    failIf (sender ≠ reg.operatorKey) .notOperator
    failIf (root = 0) .emptyRoot
    failIf (size = 0) .emptySize
    failIf (2 ^ 64 ≤ reg.currentVersion.toNat + 1) .panic
    let v := reg.currentVersion + 1
    pure { reg with
      currentVersion := v
      cohortRoot := Function.update reg.cohortRoot v root
      cohortSize := Function.update reg.cohortSize v size }
  | .proposeOperatorKey newKey => do
    failIf (sender ≠ D.governance) .notGovernance
    failIf (newKey = 0) .zeroAddress
    failIf (reg.pendingOperatorKeyActivation ≠ 0) .alreadyPending
    let activation ← okOr (checkedAdd 256 w.blockNumber timelockBlocks) .panic
    pure { reg with pendingOperatorKey := newKey, pendingOperatorKeyActivation := activation }
  | .finalizeOperatorKey => do
    failIf (sender ≠ D.governance) .notGovernance
    failIf (reg.pendingOperatorKeyActivation = 0) .noPending
    failIf (w.blockNumber < reg.pendingOperatorKeyActivation) .timelockNotExpired
    pure { reg with
      operatorKey := reg.pendingOperatorKey
      pendingOperatorKey := 0
      pendingOperatorKeyActivation := 0 }
  | .cancelPendingOperatorKey => do
    failIf (sender ≠ D.governance) .notGovernance
    failIf (reg.pendingOperatorKeyActivation = 0) .noPending
    pure { reg with pendingOperatorKey := 0, pendingOperatorKeyActivation := 0 }

inductive Call where
  | publishRound (factory : Address) (header : RoundHeader) (commitments : List Word)
  | claim (claimContract : Address) (args : ClaimArgs)
  | funderUnshieldResidual (claimContract : Address) (roundId : Word)
  | governance (call : GovernanceCall)
  | registry (call : RegistryCall)

def Call.run (sender : Address) : Call → Except RailsError (World T τ)
  | .publishRound factory header commitments => Rails.publishRound D w factory sender header commitments
  | .claim claimContract args => Rails.claim D w claimContract sender args
  | .funderUnshieldResidual claimContract roundId =>
    Rails.funderUnshieldResidual D w claimContract sender roundId
  | .governance call => do
    let pool ← call.run D w sender
    pure { w with pool }
  | .registry call => do
    let registry ← call.run D w sender
    pure { w with registry }

end

end Pocs.Rails
