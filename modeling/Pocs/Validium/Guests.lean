import Pocs.Validium.Crypto

/-! # Guest programs

`main` of the four programs under `guest/src` as a function of what it reads, its panics being errors. What
it commits is the journal. -/

namespace Pocs.Validium

/-- `env::commit_slice` of an item, or `env::commit` of 32 bytes. -/
inductive Commit (W : Type) where
  | slice (item : Packed W)
  | value (w : W)
  deriving DecidableEq

/-- `xs[i]`, which panics out of bounds. -/
def nth {α : Type} (xs : List α) (i : Nat) : Except String α := okOr xs[i]? "index out of bounds"

structure MembershipInput (W : Type) where
  leaf : W
  path : List W
  indices : List Bool
  expectedRoot : W
  pubkey : W

/-- The private inputs of a transfer. -/
structure TransferInput (W : Type) where
  senderSk : W
  senderBalance : UInt64
  senderSalt : W
  senderPath : List W
  senderIndices : List Bool
  amount : UInt64
  recipientPubkey : W
  recipientBalance : UInt64
  recipientSalt : W
  recipientPath : List W
  recipientIndices : List Bool
  newSenderSalt : W
  newRecipientSalt : W

structure WithdrawalInput (W : Type) where
  secretKey : W
  balance : UInt64
  salt : W
  path : List W
  indices : List Bool
  amount : UInt64
  newSalt : W
  recipient : Address

structure DisclosureInput (W : Type) where
  secretKey : W
  balance : UInt64
  salt : W
  path : List W
  indices : List Bool
  threshold : UInt64
  auditorPubkey : W

def addressBytes (a : Address) : List UInt8 := beOfNat 20 a.toNat

namespace Sha256
variable {W : Type} [DecidableEq W] (S : Sha256 W)

def membershipMain (input : MembershipInput W) : Except String (List (Commit W)) := do
  require (input.leaf = input.pubkey) "Leaf does not match pubkey"
  let computedRoot := S.computeRoot input.leaf input.path input.indices
  require (computedRoot = input.expectedRoot) "Merkle root mismatch"
  pure [.value input.expectedRoot, .value input.pubkey]

/-! ## transfer.rs -/

/-- `(0..depth).rev().find(|&i| sender_indices[i] != recipient_indices[i])`. -/
def divergence (senderIndices recipientIndices : List Bool) : Nat → Except String Nat
  | 0 => .error "Sender and recipient must differ (no self-transfers)"
  | i + 1 => do
    let senderIndex ← nth senderIndices i
    let recipientIndex ← nth recipientIndices i
    if senderIndex != recipientIndex then pure i else divergence senderIndices recipientIndices i

/-- A loop `for i in levels` that hashes upward. -/
def climb (indices : List Bool) (path : List W) (levels : List Nat) (hash : W) : Except String W :=
  levels.foldlM (fun hash i => do
    let isRight ← nth indices i
    let sibling ← nth path i
    pure (if isRight then S.hashPair sibling hash else S.hashPair hash sibling)) hash

def computeNewRoot (senderLeaf : W) (senderIndices : List Bool) (recipientLeaf : W)
    (recipientIndices : List Bool) (senderPath recipientPath : List W) : Except String W := do
  let depth := senderIndices.length
  let divergence ← divergence senderIndices recipientIndices depth
  let senderHash ← S.climb senderIndices senderPath (List.range' 0 divergence) senderLeaf
  let recipientHash ← S.climb recipientIndices recipientPath (List.range' 0 divergence) recipientLeaf
  let senderIsRight ← nth senderIndices divergence
  let current := if senderIsRight then S.hashPair recipientHash senderHash
    else S.hashPair senderHash recipientHash
  S.climb senderIndices senderPath (List.range' (divergence + 1) (depth - (divergence + 1))) current

/-- The roots that `transfer.rs` commits. -/
def transferRoots (input : TransferInput W) : Except String (W × W) := do
  let senderPubkey := S.sha256 input.senderSk
  require (senderPubkey ≠ input.recipientPubkey) "Self-transfer not allowed"
  require (0 < input.amount) "Transfer amount must be positive"
  require (input.amount ≤ input.senderBalance) "Insufficient balance"
  require (input.recipientBalance.toNat ≤ 2 ^ 64 - 1 - input.amount.toNat) "Recipient balance overflow"
  let senderOldLeaf := S.accountCommitment senderPubkey input.senderBalance input.senderSalt
  let oldRoot := S.computeRoot senderOldLeaf input.senderPath input.senderIndices
  let recipientOldLeaf :=
    S.accountCommitment input.recipientPubkey input.recipientBalance input.recipientSalt
  S.verifyMembership recipientOldLeaf input.recipientPath input.recipientIndices oldRoot
  let newSenderBalance := input.senderBalance - input.amount
  let newRecipientBalance := input.recipientBalance + input.amount
  let senderNewLeaf := S.accountCommitment senderPubkey newSenderBalance input.newSenderSalt
  let recipientNewLeaf :=
    S.accountCommitment input.recipientPubkey newRecipientBalance input.newRecipientSalt
  let newRoot ← S.computeNewRoot senderNewLeaf input.senderIndices recipientNewLeaf input.recipientIndices
    input.senderPath input.recipientPath
  pure (oldRoot, newRoot)

/-- `main` of the transfer guest. -/
def transferMain (input : TransferInput W) : Except String (List (Commit W)) := do
  let roots ← S.transferRoots input
  pure [.slice (.word roots.1), .slice (.word roots.2)]

/-- The roots that `withdrawal.rs` commits. -/
def withdrawalRoots (input : WithdrawalInput W) : Except String (W × W) := do
  let pubkey := S.sha256 input.secretKey
  let oldLeaf := S.accountCommitment pubkey input.balance input.salt
  let oldRoot := S.computeRoot oldLeaf input.path input.indices
  require (0 < input.amount) "Withdrawal amount must be positive"
  require (input.amount ≤ input.balance) "Insufficient balance"
  let newBalance := input.balance - input.amount
  let newLeaf := S.accountCommitment pubkey newBalance input.newSalt
  let newRoot := S.computeRoot newLeaf input.path input.indices
  pure (oldRoot, newRoot)

def withdrawalMain (input : WithdrawalInput W) : Except String (List (Commit W)) := do
  let roots ← S.withdrawalRoots input
  pure [.slice (.word roots.1), .slice (.word roots.2), .slice (.bytes (toBeBytes input.amount)),
    .slice (.bytes (addressBytes input.recipient))]

/-- `b"disclosure_v1"`. -/
def disclosureTag : List UInt8 :=
  [0x64, 0x69, 0x73, 0x63, 0x6c, 0x6f, 0x73, 0x75, 0x72, 0x65, 0x5f, 0x76, 0x31]

/-- The root and the key hash that `disclosure.rs` commits. -/
def disclosureValues (input : DisclosureInput W) : Except String (W × W) := do
  let pubkey := S.sha256 input.secretKey
  let leaf := S.accountCommitment pubkey input.balance input.salt
  let merkleRoot := S.computeRoot leaf input.path input.indices
  require (input.threshold ≤ input.balance) "Balance below threshold"
  let disclosureKeyHash := S.digest [.word pubkey, .word input.auditorPubkey, .bytes disclosureTag]
  pure (merkleRoot, disclosureKeyHash)

def disclosureMain (input : DisclosureInput W) : Except String (List (Commit W)) := do
  let values ← S.disclosureValues input
  pure [.slice (.word values.1), .slice (.bytes (toBeBytes input.threshold)), .slice (.word values.2)]

end Sha256

end Pocs.Validium
