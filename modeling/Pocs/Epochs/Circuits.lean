import Mathlib.Data.UInt
import Pocs.Compliance.Gadgets

/-! # The circuits of the pool with epochs

`insertion_core`, `chain_update`, `transfer`, `withdraw` and `deposit`. A recursive proof is the witness it was
made from, so that a chain of them is a tree of witnesses. -/

namespace Pocs.Epochs

open Compliance (BnField ofU64 merkleHash binaryMerkleRoot u64Add)

/-- What the circuits compute on epochs. -/
class EpochField (F : Type) extends BnField F where
  /-- `x + 1`. -/
  succ : F → F
  succ_inj : ∀ {a b}, succ a = succ b → a = b
  succ_ofNat : ∀ {n}, n + 1 < 2 ^ 64 → succ (ofNat n) = ofNat (n + 1)

instance : EpochField Civic.Fr where
  succ a := a + .reduce 1
  succ_inj {a b} h := by
    have ha := a.isLt
    have hb := b.isLt
    apply PrimeField.ext_val
    replace h : (a.val + 1) % Civic.bn254 = (b.val + 1) % Civic.bn254 := congrArg PrimeField.val h
    have hmod : a.val ≡ b.val [MOD Civic.bn254] := Nat.ModEq.add_right_cancel' 1 h
    exact hmod.eq_of_lt_of_lt ha hb
  succ_ofNat {n} h := PrimeField.reduce_add n 1

instance : EpochField Unbounded where
  succ a := ⟨a.val + 1⟩
  succ_inj h := congrArg Unbounded.mk (Nat.succ.inj (congrArg Unbounded.val h))
  succ_ofNat _ := rfl

variable {F : Type} [EpochField F]

def nullifierTreeDepth : Nat := 32
def maxCommitmentTreeDepth : Nat := 32

section
variable (hash : List F → F)

/-! ## `insertion_core` -/

def leafHash (value nextValue nextIndex : F) : F := hash [value, nextValue, nextIndex]

def rootFromPath (leaf : F) (bits : Fin nullifierTreeDepth → Bool) (siblings : Fin nullifierTreeDepth → F) :
    F :=
  (List.finRange nullifierTreeDepth).foldl (fun node i =>
    if bits i then merkleHash hash (siblings i) node else merkleHash hash node (siblings i)) leaf

def indexBits (index : Nat) (j : Fin nullifierTreeDepth) : Bool := (index >>> j.val) &&& 1 == 1

/-- A leaf of an indexed tree and its path. -/
structure LowLeaf (F : Type) where
  value : F
  nextValue : F
  nextIndex : F
  pathBits : Fin nullifierTreeDepth → Bool
  siblings : Fin nullifierTreeDepth → F

def LowLeaf.root (low : LowLeaf F) (leaf : F) : F := rootFromPath hash leaf low.pathBits low.siblings

/-- An insertion: its low leaf, and the path of the append slot. -/
structure Insertion (F : Type) where
  low : LowLeaf F
  newSiblings : Fin nullifierTreeDepth → F

/-- One round of `run_insertions`. -/
def insertOne (root nullifier : F) (newIndex : Nat) (ins : Insertion F) : Except String F := do
  require (newIndex < 2 ^ 32) "attempt to add with overflow"
  let newBits := indexBits newIndex
  let empty := leafHash hash 0 0 0
  let low := ins.low
  require (low.root hash (leafHash hash low.value low.nextValue low.nextIndex) = root)
    "insertion: predecessor membership"
  require (low.value < nullifier) "insertion: nullifier <= low_value"
  onlyIf (low.nextValue ≠ 0) (require (nullifier < low.nextValue) "insertion: nullifier >= low_next_value")
  let updatedLow := leafHash hash low.value nullifier (Scalar.ofNat newIndex)
  let rPrime := low.root hash updatedLow
  require (rootFromPath hash empty newBits ins.newSiblings = rPrime) "insertion: append slot not empty"
  let newLeaf := leafHash hash nullifier low.nextValue low.nextIndex
  pure (rootFromPath hash newLeaf newBits ins.newSiblings)

/-- The rounds of `run_insertions`, from the insertion with the given index on. -/
def insertFrom (root : F) : (newIndex : Nat) → List (F × Insertion F) → Except String F
  | _, [] => .ok root
  | newIndex, (nullifier, ins) :: rest => do
    let root ← insertOne hash root nullifier newIndex ins
    insertFrom root (newIndex + 1) rest

/-- Public inputs of `insertion` and `insertion_withdraw`. -/
structure InsertionPublic (F : Type) where
  preActiveRoot : F
  postActiveRoot : F
  preLeafCount : UInt32
  nullifiers : List F

def InsertionPublic.toFields (pub : InsertionPublic F) : List F :=
  [pub.preActiveRoot, pub.postActiveRoot, Scalar.ofNat pub.preLeafCount.toNat] ++ pub.nullifiers

def runInsertions (pub : InsertionPublic F) (wit : List (Insertion F)) : Except String Unit := do
  require (pub.nullifiers.length = wit.length) "array length"
  let root ← insertFrom hash pub.preActiveRoot pub.preLeafCount.toNat (pub.nullifiers.zip wit)
  require (root = pub.postActiveRoot) "insertion: post-root mismatch"

/-! ## `chain_update` -/

def assertNonMembership (nullifier root : F) (low : LowLeaf F) : Except String Unit := do
  require (low.value < nullifier) "non-membership: nullifier <= low_value"
  onlyIf (low.nextValue ≠ 0) (require (nullifier < low.nextValue) "non-membership: nullifier >= low_next_value")
  require (low.root hash (leafHash hash low.value low.nextValue low.nextIndex) = root)
    "non-membership: root mismatch"

structure ChainPublic (F : Type) where
  commitment : F
  epochCreated : F
  epochValidatedThrough : F
  accumulator : F
  fixedVkHash : F

/-- The witness of `chain_update`, with that of the prior proof which it verifies. -/
inductive ChainWitness (F : Type) where
  | base
  | step (priorPublicInputs : ChainPublic F) (priorProof : ChainWitness F)
    (frozenRootNext spendingKey token amount salt : F) (low : LowLeaf F)

def poseidon1 (a : F) : F := hash [a]

/-- `poseidon5(token, amount, owner_pubkey, salt, epoch_created)`. -/
structure Note (F : Type) where
  token : F
  amount : F
  ownerPubkey : F
  salt : F
  epochCreated : F

def Note.commitment (n : Note F) : F := hash [n.token, n.amount, n.ownerPubkey, n.salt, n.epochCreated]

/-- `poseidon3(commitment, spending_key, epoch)`. -/
def nullifierOf (commitment spendingKey epoch : F) : F := hash [commitment, spendingKey, epoch]

/-- `main`; a prior proof verifies under the hash of this circuit's own key. -/
def chainUpdateMain : ChainWitness F → ChainPublic F → Except String Unit
  | .base, pub => do
    require (pub.epochValidatedThrough = pub.epochCreated) "base: evt != epoch_created"
    require (pub.accumulator = 0) "base: accumulator != 0"
  | .step prior priorProof frozenRootNext spendingKey token amount salt low, pub => do
    chainUpdateMain priorProof prior
    let evtPrev := prior.epochValidatedThrough
    require (prior.commitment = pub.commitment) "step: commitment mismatch"
    require (prior.epochCreated = pub.epochCreated) "step: epoch_created mismatch"
    require (prior.fixedVkHash = pub.fixedVkHash) "step: vk_hash mismatch"
    require (pub.epochValidatedThrough = EpochField.succ evtPrev) "step: evt must advance by 1"
    require (pub.accumulator = merkleHash hash prior.accumulator frozenRootNext) "step: accumulator fold"
    let note : Note F := ⟨token, amount, poseidon1 hash spendingKey, salt, pub.epochCreated⟩
    require (pub.commitment = note.commitment hash) "step: commitment preimage mismatch"
    let nullifier := nullifierOf hash pub.commitment spendingKey evtPrev
    assertNonMembership hash nullifier frozenRootNext low

/-! ## `transfer` and `withdraw` -/

def verifyMembership (leaf root : F) (proofLength : Nat) (indices : Fin maxCommitmentTreeDepth → Bool)
    (path : Fin maxCommitmentTreeDepth → F) : Except String Unit :=
  require (binaryMerkleRoot (merkleHash hash) leaf proofLength indices path = root) "membership: root mismatch"

structure ChainInput (F : Type) where
  chainProof : ChainWitness F
  chainPub : ChainPublic F

def verifyInputChain (chain : ChainInput F) (chainVkHash commitmentIn epochCreatedIn currentEpoch
    chainAccumulatorIn : F) : Except String Unit := do
  chainUpdateMain hash chain.chainProof chain.chainPub
  require (chain.chainPub.commitment = commitmentIn) "chain: commitment mismatch"
  require (chain.chainPub.epochCreated = epochCreatedIn) "chain: epoch_created mismatch"
  require (chain.chainPub.epochValidatedThrough = currentEpoch) "chain: not caught up to current_epoch"
  require (chain.chainPub.accumulator = chainAccumulatorIn) "chain: accumulator mismatch"
  require (chain.chainPub.fixedVkHash = chainVkHash) "chain: vk_hash mismatch"

structure TransferPublic (F : Type) where
  nullifierActive0 : F
  nullifierActive1 : F
  commitmentOut0 : F
  commitmentOut1 : F
  commitmentRoot : F
  currentEpoch : F
  chainVkHash : F
  epochCreatedIn0 : F
  epochCreatedIn1 : F
  chainAccumulatorIn0 : F
  chainAccumulatorIn1 : F

def TransferPublic.toFields (pub : TransferPublic F) : List F :=
  [pub.nullifierActive0, pub.nullifierActive1, pub.commitmentOut0, pub.commitmentOut1, pub.commitmentRoot,
    pub.currentEpoch, pub.chainVkHash, pub.epochCreatedIn0, pub.epochCreatedIn1, pub.chainAccumulatorIn0,
    pub.chainAccumulatorIn1]

/-- A note that is spent, and its path and chain proof. -/
structure InputNote (F : Type) where
  token : F
  amount : UInt64
  salt : F
  path : Fin maxCommitmentTreeDepth → F
  indices : Fin maxCommitmentTreeDepth → Bool
  chain : ChainInput F

structure OutputNote (F : Type) where
  token : F
  amount : UInt64
  owner : F
  salt : F

structure TransferWitness (F : Type) where
  spendingKey : F
  in0 : InputNote F
  in1 : InputNote F
  out0 : OutputNote F
  out1 : OutputNote F
  proofLength : Nat

def InputNote.note (input : InputNote F) (ownerPubkey epochCreated : F) : Note F :=
  ⟨input.token, ofU64 input.amount, ownerPubkey, input.salt, epochCreated⟩

def OutputNote.note (out : OutputNote F) (currentEpoch : F) : Note F :=
  ⟨out.token, ofU64 out.amount, out.owner, out.salt, currentEpoch⟩

def transferMain (pub : TransferPublic F) (wit : TransferWitness F) : Except String Unit := do
  let ownerPubkey := poseidon1 hash wit.spendingKey
  let commitmentIn0 := (wit.in0.note ownerPubkey pub.epochCreatedIn0).commitment hash
  verifyMembership hash commitmentIn0 pub.commitmentRoot wit.proofLength wit.in0.indices wit.in0.path
  require (pub.nullifierActive0 = nullifierOf hash commitmentIn0 wit.spendingKey pub.currentEpoch)
    "nullifier_0 mismatch"
  verifyInputChain hash wit.in0.chain pub.chainVkHash commitmentIn0 pub.epochCreatedIn0 pub.currentEpoch
    pub.chainAccumulatorIn0
  let commitmentIn1 := (wit.in1.note ownerPubkey pub.epochCreatedIn1).commitment hash
  onlyIf (wit.in1.amount ≠ 0) do
    verifyMembership hash commitmentIn1 pub.commitmentRoot wit.proofLength wit.in1.indices wit.in1.path
    verifyInputChain hash wit.in1.chain pub.chainVkHash commitmentIn1 pub.epochCreatedIn1 pub.currentEpoch
      pub.chainAccumulatorIn1
  require (pub.nullifierActive1 = nullifierOf hash commitmentIn1 wit.spendingKey pub.currentEpoch)
    "nullifier_1 mismatch"
  require (pub.commitmentOut0 = (wit.out0.note pub.currentEpoch).commitment hash) "commitment_out_0 mismatch"
  require (pub.commitmentOut1 = (wit.out1.note pub.currentEpoch).commitment hash) "commitment_out_1 mismatch"
  let amountIn ← u64Add wit.in0.amount wit.in1.amount
  let amountOut ← u64Add wit.out0.amount wit.out1.amount
  require (amountIn = amountOut) "value not conserved"
  require (wit.in0.token = wit.in1.token) "input token mismatch"
  require (wit.in0.token = wit.out0.token) "output_0 token mismatch"
  require (wit.in0.token = wit.out1.token) "output_1 token mismatch"

structure WithdrawPublic (F : Type) where
  nullifierActive : F
  token : F
  amount : F
  recipient : F
  commitmentRoot : F
  currentEpoch : F
  chainVkHash : F
  epochCreatedIn : F
  chainAccumulatorIn : F

def WithdrawPublic.toFields (pub : WithdrawPublic F) : List F :=
  [pub.nullifierActive, pub.token, pub.amount, pub.recipient, pub.commitmentRoot, pub.currentEpoch,
    pub.chainVkHash, pub.epochCreatedIn, pub.chainAccumulatorIn]

structure WithdrawWitness (F : Type) where
  spendingKey : F
  salt : F
  proofLength : Nat
  path : Fin maxCommitmentTreeDepth → F
  indices : Fin maxCommitmentTreeDepth → Bool
  chain : ChainInput F

def WithdrawWitness.note (wit : WithdrawWitness F) (pub : WithdrawPublic F) : Note F :=
  ⟨pub.token, pub.amount, poseidon1 hash wit.spendingKey, wit.salt, pub.epochCreatedIn⟩

def withdrawMain (pub : WithdrawPublic F) (wit : WithdrawWitness F) : Except String Unit := do
  let commitmentIn := (wit.note hash pub).commitment hash
  verifyMembership hash commitmentIn pub.commitmentRoot wit.proofLength wit.indices wit.path
  require (pub.nullifierActive = nullifierOf hash commitmentIn wit.spendingKey pub.currentEpoch)
    "nullifier mismatch"
  verifyInputChain hash wit.chain pub.chainVkHash commitmentIn pub.epochCreatedIn pub.currentEpoch
    pub.chainAccumulatorIn

/-! ## `deposit` -/

structure DepositPublic (F : Type) where
  commitment : F
  token : F
  amount : F
  currentEpochAtDeposit : UInt64

def DepositPublic.toFields (pub : DepositPublic F) : List F :=
  [pub.commitment, pub.token, pub.amount, ofU64 pub.currentEpochAtDeposit]

structure DepositWitness (F : Type) where
  ownerPubkey : F
  salt : F

def DepositWitness.note (wit : DepositWitness F) (pub : DepositPublic F) : Note F :=
  ⟨pub.token, pub.amount, wit.ownerPubkey, wit.salt, ofU64 pub.currentEpochAtDeposit⟩

def depositMain (pub : DepositPublic F) (wit : DepositWitness F) : Except String Unit :=
  require (pub.commitment = (wit.note pub).commitment hash) "Failed assertion"

end

/-! ## What an accepted witness satisfies -/

section
variable {hash : List F → F}

section
variable {f : Nat → F} {leaf : F} {bits : Fin nullifierTreeDepth → Bool} {siblings : Fin nullifierTreeDepth → F}

omit [EpochField F]

theorem rootFromPath_eq_foldPath (leaf : F) (bits : Fin nullifierTreeDepth → Bool)
    (siblings : Fin nullifierTreeDepth → F) : rootFromPath hash leaf bits siblings =
      Merkle.foldPath (merkleHash hash) leaf (Merkle.arrayPath bits siblings) :=
  Merkle.foldl_eq_foldPath bits siblings leaf

/-- Along a tree's own path another leaf gives the root of the changed tree. -/
theorem rootFromPath_own {index : Nat} (hindex : index < 2 ^ nullifierTreeDepth)
    (h : Merkle.arrayPath bits siblings = Merkle.pathAt (merkleHash hash) f 0 nullifierTreeDepth index) (leaf : F) :
    rootFromPath hash leaf bits siblings =
      Merkle.nodeAt (merkleHash hash) (Function.update f index leaf) nullifierTreeDepth 0 := by
  rw [rootFromPath_eq_foldPath, h, Merkle.foldPath_pathAt_update, Nat.div_eq_of_lt hindex]

/-- With some siblings the bits are a tree's own path. -/
theorem exists_siblings (node : F → F → F) (f : Nat → F) (bits : Fin nullifierTreeDepth → Bool) :
    ∃ siblings, Merkle.arrayPath bits siblings =
      Merkle.pathAt node f 0 nullifierTreeDepth (Merkle.ofBits (List.ofFn bits)) := by
  refine ⟨fun j => Merkle.nodeAt node f j.val (Merkle.sibling (Merkle.ofBits (List.ofFn bits) >>> j.val)), ?_⟩
  rw [← Merkle.arrayPath_pathAt]
  congr 1
  funext j
  have hbit := @Merkle.ofBits_bit (List.ofFn bits) j.val (bits j) (by rw [List.getElem?_ofFn, dif_pos j.isLt])
  rw [Nat.and_one_is_mod, Nat.shiftRight_eq_div_pow, hbit]
  cases bits j with
  | false => rfl
  | true => rfl

end

theorem index_lt (bits : Fin nullifierTreeDepth → Bool) :
    Merkle.ofBits (List.ofFn bits) < 2 ^ nullifierTreeDepth := by
  have hlt := Merkle.ofBits_lt (List.ofFn bits)
  rwa [List.length_ofFn] at hlt

/-- A leaf folds to the root of a tree if it stands at the position of the bits and the path is its own. -/
theorem rootFromPath_eq_iff (H : Compliance.Ideal hash) {f : Nat → F} {leaf : F}
    {bits : Fin nullifierTreeDepth → Bool} {siblings : Fin nullifierTreeDepth → F} :
    rootFromPath hash leaf bits siblings = Merkle.nodeAt (merkleHash hash) f nullifierTreeDepth 0 ↔
      leaf = f (Merkle.ofBits (List.ofFn bits)) ∧ Merkle.arrayPath bits siblings =
        Merkle.pathAt (merkleHash hash) f 0 nullifierTreeDepth (Merkle.ofBits (List.ofFn bits)) := by
  constructor
  · intro h
    rw [rootFromPath_eq_foldPath] at h
    exact Merkle.arrayPath_sound H.node_inj h
  · intro h
    rw [rootFromPath_own (index_lt bits) h.2, h.1, Function.update_eq_self]

theorem assertNonMembership_eq_ok {nullifier root : F} {low : LowLeaf F} :
    assertNonMembership hash nullifier root low = .ok () ↔
      low.value < nullifier ∧ (low.nextValue ≠ 0 → nullifier < low.nextValue) ∧
        low.root hash (leafHash hash low.value low.nextValue low.nextIndex) = root := by
  simp only [assertNonMembership, bind_eq_ok, require_eq_ok, onlyIf_eq_ok, exists_const]

theorem insertOne_eq_ok {root nullifier root' : F} {newIndex : Nat} {ins : Insertion F} :
    insertOne hash root nullifier newIndex ins = .ok root' ↔
      newIndex < 2 ^ 32 ∧ ins.low.root hash (leafHash hash ins.low.value ins.low.nextValue ins.low.nextIndex) = root ∧
      ins.low.value < nullifier ∧ (ins.low.nextValue ≠ 0 → nullifier < ins.low.nextValue) ∧
      rootFromPath hash (leafHash hash 0 0 0) (indexBits newIndex) ins.newSiblings =
        ins.low.root hash (leafHash hash ins.low.value nullifier (Scalar.ofNat newIndex)) ∧
      rootFromPath hash (leafHash hash nullifier ins.low.nextValue ins.low.nextIndex) (indexBits newIndex)
        ins.newSiblings = root' := by
  simp only [insertOne, bind_eq_ok, require_eq_ok, onlyIf_eq_ok, exists_const, pure_eq_ok]

theorem verifyInputChain_eq_ok {chain : ChainInput F} {chainVkHash commitmentIn epochCreatedIn currentEpoch
    chainAccumulatorIn : F} :
    verifyInputChain hash chain chainVkHash commitmentIn epochCreatedIn currentEpoch chainAccumulatorIn =
      .ok () ↔ chainUpdateMain hash chain.chainProof
        ⟨commitmentIn, epochCreatedIn, currentEpoch, chainAccumulatorIn, chainVkHash⟩ = .ok () ∧
      chain.chainPub = ⟨commitmentIn, epochCreatedIn, currentEpoch, chainAccumulatorIn, chainVkHash⟩ := by
  simp only [verifyInputChain, bind_eq_ok, require_eq_ok, Unique.exists_iff, PUnit.default_eq_unit]
  constructor
  · rintro ⟨hmain, rfl, rfl, rfl, rfl, rfl⟩
    exact ⟨hmain, rfl⟩
  · rintro ⟨hmain, hpub⟩
    rw [hpub]
    exact ⟨hmain, rfl, rfl, rfl, rfl, rfl⟩

/-- The checks of `transfer`. -/
structure TransferChecks (hash : List F → F) (pub : TransferPublic F) (wit : TransferWitness F)
    (in0 in1 : Note F) : Prop where
  member0 : verifyMembership hash (in0.commitment hash) pub.commitmentRoot wit.proofLength wit.in0.indices
    wit.in0.path = .ok ()
  nullifier0 : pub.nullifierActive0 = nullifierOf hash (in0.commitment hash) wit.spendingKey pub.currentEpoch
  chain0 : verifyInputChain hash wit.in0.chain pub.chainVkHash (in0.commitment hash) pub.epochCreatedIn0
    pub.currentEpoch pub.chainAccumulatorIn0 = .ok ()
  member1 : wit.in1.amount ≠ 0 → verifyMembership hash (in1.commitment hash) pub.commitmentRoot
    wit.proofLength wit.in1.indices wit.in1.path = .ok ()
  chain1 : wit.in1.amount ≠ 0 → verifyInputChain hash wit.in1.chain pub.chainVkHash (in1.commitment hash)
    pub.epochCreatedIn1 pub.currentEpoch pub.chainAccumulatorIn1 = .ok ()
  nullifier1 : pub.nullifierActive1 = nullifierOf hash (in1.commitment hash) wit.spendingKey pub.currentEpoch
  out0 : pub.commitmentOut0 = (wit.out0.note pub.currentEpoch).commitment hash
  out1 : pub.commitmentOut1 = (wit.out1.note pub.currentEpoch).commitment hash
  amountIn_lt : wit.in0.amount.toNat + wit.in1.amount.toNat < 2 ^ 64
  conserved : wit.in0.amount.toNat + wit.in1.amount.toNat = wit.out0.amount.toNat + wit.out1.amount.toNat
  token1 : wit.in0.token = wit.in1.token
  tokenOut0 : wit.in0.token = wit.out0.token
  tokenOut1 : wit.in0.token = wit.out1.token

def TransferWitness.note0 (hash : List F → F) (wit : TransferWitness F) (pub : TransferPublic F) : Note F :=
  wit.in0.note (poseidon1 hash wit.spendingKey) pub.epochCreatedIn0

def TransferWitness.note1 (hash : List F → F) (wit : TransferWitness F) (pub : TransferPublic F) : Note F :=
  wit.in1.note (poseidon1 hash wit.spendingKey) pub.epochCreatedIn1

theorem transferMain_eq_ok {pub : TransferPublic F} {wit : TransferWitness F} :
    transferMain hash pub wit = .ok () ↔
      TransferChecks hash pub wit (wit.note0 hash pub) (wit.note1 hash pub) := by
  simp only [transferMain, bind_eq_ok, require_eq_ok, onlyIf_eq_ok, Compliance.u64Add_eq_ok,
    Unique.exists_iff, PUnit.default_eq_unit]
  constructor
  · rintro ⟨hmember0, hnullifier0, hchain0, hsecond, hnullifier1, hout0, hout1, _, ⟨hin, rfl⟩, _,
      ⟨hout, rfl⟩, hamount, htoken1, htokenOut0, htokenOut1⟩
    have hsum := congrArg UInt64.toNat hamount
    rw [UInt64.toNat_add, UInt64.toNat_add, Nat.mod_eq_of_lt hin, Nat.mod_eq_of_lt hout] at hsum
    exact ⟨hmember0, hnullifier0, hchain0, fun h => (hsecond h).1, fun h => (hsecond h).2, hnullifier1,
      hout0, hout1, hin, hsum, htoken1, htokenOut0, htokenOut1⟩
  · intro h
    refine ⟨h.member0, h.nullifier0, h.chain0, fun hne => ⟨h.member1 hne, h.chain1 hne⟩, h.nullifier1,
      h.out0, h.out1, _, ⟨h.amountIn_lt, rfl⟩, _, ⟨h.conserved ▸ h.amountIn_lt, rfl⟩, ?_, h.token1,
      h.tokenOut0, h.tokenOut1⟩
    apply UInt64.toNat_inj.mp
    rw [UInt64.toNat_add, UInt64.toNat_add, h.conserved]

/-- The checks of `withdraw`. -/
theorem withdrawMain_eq_ok {pub : WithdrawPublic F} {wit : WithdrawWitness F} :
    withdrawMain hash pub wit = .ok () ↔
      verifyMembership hash ((wit.note hash pub).commitment hash) pub.commitmentRoot wit.proofLength
        wit.indices wit.path = .ok () ∧ pub.nullifierActive =
        nullifierOf hash ((wit.note hash pub).commitment hash) wit.spendingKey pub.currentEpoch ∧
      verifyInputChain hash wit.chain pub.chainVkHash ((wit.note hash pub).commitment hash)
        pub.epochCreatedIn pub.currentEpoch pub.chainAccumulatorIn = .ok () := by
  simp only [withdrawMain, bind_eq_ok, require_eq_ok, Unique.exists_iff, PUnit.default_eq_unit]

end

end Pocs.Epochs
