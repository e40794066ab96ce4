import Pocs.Lib.Merkle
import Pocs.Compliance.Field

/-! # The gadgets of the gated circuits

`merkle.nr`, `policy.nr`, `state.nr`, `tx_facts.nr`, `compliance.nr` and `attestation.nr` as checks in
`Except String`. The hash and the generated file `policy_tag.nr` are parameters; `u64` arithmetic
fails on overflow, as Noir's does. -/

namespace Pocs.Compliance

variable {F : Type} [BnField F]

/-! ## `domain.nr` -/

def cnTag : F := Scalar.ofNat 1461501637330902918203684832716283019655932542977
def vnTag : F := Scalar.ofNat 1461501637330902918203684832716283019655932542978
def stateDomain : F := Scalar.ofNat 1461501637330902918203684832716283019655932542979
def noCounterparty : F := Scalar.ofNat 1461501637330902918203684832716283019655932542980
def noExit : F := Scalar.ofNat 1461501637330902918203684832716283019655932542981

def maxCommitmentTreeDepth : Nat := 32
def maxAttestationTreeDepth : Nat := 20
def attesterTreeDepth : Nat := 5
def noirEpochSeconds : UInt64 := 86400

/-! ## Machine integers -/

def u64Add (a b : UInt64) : Except String UInt64 := do
  require (a.toNat + b.toNat < 2 ^ 64) "attempt to add with overflow"
  pure (a + b)

def u64Mul (a b : UInt64) : Except String UInt64 := do
  require (a.toNat * b.toNat < 2 ^ 64) "attempt to multiply with overflow"
  pure (a * b)

theorem u64Add_eq_ok {a b c : UInt64} : u64Add a b = .ok c ↔ a.toNat + b.toNat < 2 ^ 64 ∧ a + b = c := by
  simp only [u64Add, bind_eq_ok, require_eq_ok, pure_eq_ok, exists_and_left, exists_const]

theorem u64Mul_eq_ok {a b c : UInt64} : u64Mul a b = .ok c ↔ a.toNat * b.toNat < 2 ^ 64 ∧ a * b = c := by
  simp only [u64Mul, bind_eq_ok, require_eq_ok, pure_eq_ok, exists_and_left, exists_const]

theorem toNat_of_u64Add {a b c : UInt64} (h : u64Add a b = .ok c) : c.toNat = a.toNat + b.toNat := by
  obtain ⟨hlt, rfl⟩ := u64Add_eq_ok.mp h
  rw [UInt64.toNat_add, Nat.mod_eq_of_lt hlt]

theorem toNat_of_u64Mul {a b c : UInt64} (h : u64Mul a b = .ok c) : c.toNat = a.toNat * b.toNat := by
  obtain ⟨hlt, rfl⟩ := u64Mul_eq_ok.mp h
  rw [UInt64.toNat_mul, Nat.mod_eq_of_lt hlt]

def assertMaxBitSize (bits : Nat) (x : F) : Except String Unit :=
  require (Scalar.toNat x < 2 ^ bits) "call to assert_max_bit_size"

/-! ## `merkle.nr` -/

/-- A path of at most `maxDepth` levels, with the length the prover chose. -/
structure MerklePath (F : Type) (maxDepth : Nat) where
  proofLength : Nat
  indices : Fin maxDepth → Bool
  path : Fin maxDepth → F

def binaryMerkleRoot {maxDepth : Nat} (hasher : F → F → F) (leaf : F) (depth : Nat)
    (indices : Fin maxDepth → Bool) (siblings : Fin maxDepth → F) : F :=
  (List.finRange maxDepth).foldl (fun node i =>
    if i.val < depth then
      let sibling := siblings i
      let (left, right) := if indices i then (sibling, node) else (node, sibling)
      hasher left right
    else node) leaf

/-- `hash_merkle_node`. -/
def merkleHash (hash : List F → F) (l r : F) : F := hash [l, r]

/-- `merkle::verify`. -/
def merkleVerify (hash : List F → F) {maxDepth : Nat} (leaf root : F) (p : MerklePath F maxDepth) :
    Except String Unit :=
  let computed := binaryMerkleRoot (merkleHash hash) leaf p.proofLength p.indices p.path
  require (computed = root) "merkle proof failed"

omit [BnField F] in
theorem binaryMerkleRoot_eq_foldPath {maxDepth : Nat} (hasher : F → F → F) (leaf : F) (depth : Nat)
    (indices : Fin maxDepth → Bool) (siblings : Fin maxDepth → F) :
    binaryMerkleRoot hasher leaf depth indices siblings = Merkle.foldPath hasher leaf
      (((List.finRange maxDepth).filter fun i => i.val < depth).map fun i => (indices i, siblings i)) := by
  rw [← Merkle.foldl_ite_eq_foldPath]
  unfold binaryMerkleRoot Merkle.combine
  congr 1
  funext node i
  cases indices i <;> rfl

/-- A leaf that verifies against the root of a tree over other hashes is a leaf of the tree. -/
theorem mem_of_merkleVerify {hash : List F → F} (H : Ideal hash) {leaves : List F}
    (hleaves : ∀ y ∈ leaves, ∀ l r, y ≠ merkleHash hash l r) {maxDepth : Nat} {leaf root : F}
    {p : MerklePath F maxDepth} (hverify : merkleVerify hash leaf root p = .ok ())
    (hroot : Merkle.Spans (merkleHash hash) leaves root) (hleaf : ∀ l r, leaf ≠ merkleHash hash l r) :
    leaf ∈ leaves := by
  rw [merkleVerify, require_eq_ok, binaryMerkleRoot_eq_foldPath] at hverify
  rw [← hverify] at hroot
  exact (hroot.of_foldPath H.node_inj hleaves).mem hleaf

/-- No hash verifies against the root of the empty tree. -/
theorem merkleVerify_zero {hash : List F → F} (H : Ideal hash) {maxDepth : Nat} {xs : List F}
    (hxs : xs ≠ []) (hlen : xs.length ≤ 5) {p : MerklePath F maxDepth} :
    merkleVerify hash (hash xs) 0 p ≠ .ok () := by
  have hfold : ∀ (q : List (Bool × F)) {ys : List F}, ys ≠ [] → ys.length ≤ 5 →
      Merkle.foldPath (merkleHash hash) (hash ys) q ≠ 0 := by
    intro q
    induction q with
    | nil => exact fun h h5 => H.ne_zero h h5
    | cons bs q ih =>
      intro ys _ _
      obtain ⟨b, s⟩ := bs
      cases b with
      | false | true => exact ih (List.cons_ne_nil _ _) (by simp)
  rw [merkleVerify, Ne, require_eq_ok, binaryMerkleRoot_eq_foldPath]
  exact hfold _ hxs hlen

def MerklePath.ofList {maxDepth : Nat} (l : List (Bool × F)) : MerklePath F maxDepth where
  proofLength := l.length
  indices i := (l.getD i.val (false, 0)).1
  path i := (l.getD i.val (false, 0)).2

theorem merkleVerify_ofList {hash : List F → F} {maxDepth : Nat} {leaf root : F}
    {l : List (Bool × F)} (hlen : l.length ≤ maxDepth) :
    merkleVerify hash leaf root (MerklePath.ofList l : MerklePath F maxDepth) = .ok () ↔
      Merkle.foldPath (merkleHash hash) leaf l = root := by
  have hactive : ((List.finRange maxDepth).filter fun i => i.val < l.length).map
      (fun i => l.getD i.val (false, 0)) = l := by
    obtain ⟨k, rfl⟩ := Nat.exists_eq_add_of_le hlen
    have hrange : (List.range (l.length + k)).filter (· < l.length) = List.range l.length := by
      rw [List.range_add, List.filter_append, List.filter_eq_self.mpr (by simp),
        List.filter_eq_nil_iff.mpr (by simp), List.append_nil]
    calc ((List.finRange (l.length + k)).filter fun i => i.val < l.length).map
          (fun i => l.getD i.val (false, 0))
        = (((List.finRange (l.length + k)).map Fin.val).filter (· < l.length)).map
            (fun i => l.getD i (false, 0)) := by
          rw [List.filter_map, List.map_map]
          rfl
      _ = l := by
          rw [List.map_coe_finRange_eq_range, hrange]
          exact List.ext_getElem (by simp) fun i _ hi => by
            simp [List.getElem?_eq_getElem hi]
  rw [merkleVerify, require_eq_ok, binaryMerkleRoot_eq_foldPath]
  exact Iff.of_eq (congrArg (fun p => Merkle.foldPath (merkleHash hash) leaf p = root) hactive)

/-! ## `tx_facts.nr` -/

structure TxFacts (F : Type) where
  epoch : UInt64
  seq : UInt64
  token : F
  subject : F
  counterparty : F × F
  valueIn : UInt64
  valueOut : UInt64
  exit : F

/-- Saturating, so a large transfer cannot make the gadget unsatisfiable. -/
def satAdd (a b : UInt64) : UInt64 :=
  let wide := a.toNat + b.toNat
  if wide > 0xffffffffffffffff then 0xffffffffffffffff else UInt64.ofNat wide

/-! ## `policy.nr` -/

namespace Policy

def k : Nat := 1

def flagSingleTx : UInt64 := 1
def flagAggregate : UInt64 := 2

def singleTxThreshold : UInt64 := 10000000000
def aggregateThreshold : UInt64 := 50000000000

/-- The slots a policy carries along a chain. -/
structure State where
  s : Fin k → UInt64
  deriving DecidableEq

/-- The slot `TOTAL`. -/
def State.total (st : State) : UInt64 := st.s ⟨0, Nat.one_pos⟩

def zero : State := ⟨fun _ => 0⟩

def advance (prev : State) (tx : TxFacts F) : Except String State := do
  let total ← u64Add prev.total tx.valueOut
  pure ⟨Function.update prev.s ⟨0, Nat.one_pos⟩ total⟩

def evaluate (tx : TxFacts F) (_prev next : State) : UInt64 :=
  let flags : UInt64 := 0
  let flags := if tx.valueOut > singleTxThreshold then flags ||| flagSingleTx else flags
  if next.total > aggregateThreshold then flags ||| flagAggregate else flags

end Policy

/-! ## `state.nr` -/

/-- The literals of the generated file `policy_tag.nr`. -/
structure PolicyTag (F : Type) where
  policySourceHash : F
  stateTag : F

def padded : Nat := 3 * ((Policy.k + 2) / 3)

def stateTag (hash : List F → F) (policySourceHash : F) : F :=
  hash [stateDomain, policySourceHash, Scalar.ofNat Policy.k]

def paddedSlot (st : Policy.State) (i : Nat) : F :=
  if h : i < Policy.k then ofU64 (st.s ⟨i, h⟩) else 0

/-- `state::commit`. -/
def stateCommit (hash : List F → F) (tag : F) (st : Policy.State) : F :=
  (List.range (padded / 3)).foldl (fun acc i =>
    hash [acc, paddedSlot st (3 * i), paddedSlot st (3 * i + 1), paddedSlot st (3 * i + 2)]) tag

theorem stateCommit_inj {hash : List F → F} (H : Ideal hash) {tag tag' : F} {st st' : Policy.State}
    (h : stateCommit hash tag st = stateCommit hash tag' st') : tag = tag' ∧ st = st' := by
  obtain ⟨htag, hslot, -⟩ := H.hash4_inj h
  refine ⟨htag, ?_⟩
  obtain ⟨s⟩ := st
  obtain ⟨s'⟩ := st'
  congr 1
  funext i
  obtain rfl : i = ⟨0, Nat.one_pos⟩ := Fin.fin_one_eq_zero i
  exact ofU64_inj hslot

/-! ## `compliance.nr` -/

structure ChainWitness (F : Type) where
  seq : UInt64
  epochIn : UInt64
  prev : Policy.State
  flagsIn : UInt64
  cpIn : F × F
  amtIn : UInt64 × UInt64
  exitIn : F
  saltIn : F
  saltOut : F
  cnPath : MerklePath F maxCommitmentTreeDepth

structure ComplianceInputs (F : Type) extends ChainWitness F where
  epoch : UInt64
  epochSeconds : UInt64
  policySourceHash : F
  commitmentRoot : F
  velocityNullifier : F
  complianceCommitmentOut : F
  spendingKey : F
  ownerPubkey : F

def factsHash (hash : List F → F) (counterparty : F × F) (amounts : UInt64 × UInt64) (exit : F) : F :=
  hash [counterparty.1, ofU64 amounts.1, counterparty.2, ofU64 amounts.2, exit]

def stateHash (hash : List F → F) (epoch seq : UInt64) (commitment : F) (flags : UInt64) (facts : F) :
    F :=
  hash [ofU64 epoch, ofU64 seq, commitment, ofU64 flags, facts]

def complianceNote (hash : List F → F) (ownerPubkey state salt : F) : F :=
  hash [cnTag, ownerPubkey, state, salt]

/-- `compliance::run`. -/
def complianceRun (hash : List F → F) (tag : PolicyTag F) (inp : ComplianceInputs F) (tx : TxFacts F)
    (amountOut0 amountOut1 : UInt64) : Except String Unit := do
  require (tag.stateTag = stateTag hash tag.policySourceHash) "stale STATE_TAG literal"
  require (inp.ownerPubkey = hash [inp.spendingKey]) "owner_pubkey must derive from spending_key"
  require (inp.epochIn = inp.epoch) "epoch_in must match epoch"
  require (inp.epochSeconds = noirEpochSeconds) "epoch_seconds mismatch"
  require (inp.policySourceHash = tag.policySourceHash) "policy_source_hash mismatch"
  require (tx.subject = inp.ownerPubkey) "tx.subject must be owner_pubkey"
  require (tx.epoch = inp.epoch) "tx.epoch must match epoch"
  require (tx.seq = inp.seq) "tx.seq must match seq"
  assertMaxBitSize 160 tx.token
  require (inp.cnPath.proofLength ≤ maxCommitmentTreeDepth) "Failed constraint"
  let factsIn := factsHash hash inp.cpIn inp.amtIn inp.exitIn
  let stateIn := stateHash hash inp.epochIn inp.seq (stateCommit hash tag.stateTag inp.prev) inp.flagsIn factsIn
  let cnIn := complianceNote hash inp.ownerPubkey stateIn inp.saltIn
  if inp.seq = 0 then
    require (inp.prev = Policy.zero) "seq 0 must start from policy::zero"
    require (inp.flagsIn = 0) "seq 0 must start with no flags"
  else
    merkleVerify hash cnIn inp.commitmentRoot inp.cnPath
  require (inp.velocityNullifier =
    hash [vnTag, inp.spendingKey, ofU64 inp.epoch, ofU64 inp.seq]) "velocity_nullifier mismatch"
  let next ← Policy.advance inp.prev tx
  let flagsOut := Policy.evaluate tx inp.prev next
  let factsOut := factsHash hash tx.counterparty (amountOut0, amountOut1) tx.exit
  let seqOut ← u64Add inp.seq 1
  let stateOut := stateHash hash inp.epoch seqOut (stateCommit hash tag.stateTag next) flagsOut factsOut
  require (inp.complianceCommitmentOut = complianceNote hash inp.ownerPubkey stateOut inp.saltOut)
    "compliance_commitment_out mismatch"

def ComplianceInputs.cnIn (hash : List F → F) (tag : PolicyTag F) (inp : ComplianceInputs F) : F :=
  complianceNote hash inp.ownerPubkey (stateHash hash inp.epochIn inp.seq
    (stateCommit hash tag.stateTag inp.prev) inp.flagsIn
    (factsHash hash inp.cpIn inp.amtIn inp.exitIn)) inp.saltIn

/-- The note of an owner at position `seq` of a chain. -/
def chainNote (hash : List F → F) (tag : PolicyTag F) (ownerPubkey : F) (epoch seq : UInt64)
    (st : Policy.State) (flags : UInt64) (tx : TxFacts F) (amounts : UInt64 × UInt64) (salt : F) : F :=
  complianceNote hash ownerPubkey (stateHash hash epoch seq (stateCommit hash tag.stateTag st) flags
    (factsHash hash tx.counterparty amounts tx.exit)) salt

/-- What `run` enforces of a chain step. -/
structure ChainStep (hash : List F → F) (tag : PolicyTag F) (inp : ComplianceInputs F)
    (tx : TxFacts F) (amounts : UInt64 × UInt64) : Prop where
  owner : inp.ownerPubkey = hash [inp.spendingKey]
  epochIn : inp.epochIn = inp.epoch
  epochSeconds : inp.epochSeconds = noirEpochSeconds
  txSeq : tx.seq = inp.seq
  origin : inp.seq = 0 → inp.prev = Policy.zero
  included : inp.seq ≠ 0 → merkleVerify hash (inp.cnIn hash tag) inp.commitmentRoot inp.cnPath = .ok ()
  nullifier : inp.velocityNullifier = hash [vnTag, inp.spendingKey, ofU64 inp.epoch, ofU64 inp.seq]
  noted : ∃ next seqOut, Policy.advance inp.prev tx = .ok next ∧ u64Add inp.seq 1 = .ok seqOut ∧
    inp.complianceCommitmentOut = chainNote hash tag inp.ownerPubkey inp.epoch seqOut next
      (Policy.evaluate tx inp.prev next) tx amounts inp.saltOut

theorem complianceRun_chainStep {hash : List F → F} {tag : PolicyTag F} {inp : ComplianceInputs F}
    {tx : TxFacts F} {a0 a1 : UInt64} (h : complianceRun hash tag inp tx a0 a1 = .ok ()) :
    ChainStep hash tag inp tx (a0, a1) := by
  simp only [complianceRun, assertMaxBitSize, bind_eq_ok, require_eq_ok, exists_const] at h
  obtain ⟨-, owner, epochIn, epochSeconds, -, -, -, txSeq, -, -, h⟩ := h
  split at h
  · next h0 =>
    simp only [bind_eq_ok, require_eq_ok, exists_const] at h
    obtain ⟨hprev, -, nullifier, next, hnext, seqOut, hseq, hout⟩ := h
    exact ⟨owner, epochIn, epochSeconds, txSeq, fun _ => hprev, fun hne => absurd h0 hne, nullifier,
      next, seqOut, hnext, hseq, hout⟩
  · next h0 =>
    simp only [bind_eq_ok, require_eq_ok, exists_const] at h
    obtain ⟨_, hverify, nullifier, next, hnext, seqOut, hseq, hout⟩ := h
    exact ⟨owner, epochIn, epochSeconds, txSeq, fun he => absurd he h0, fun _ => hverify, nullifier,
      next, seqOut, hnext, hseq, hout⟩

/-- `run` accepts a chain step whose facts agree with its inputs. -/
theorem ChainStep.complianceRun {hash : List F → F} {tag : PolicyTag F} {inp : ComplianceInputs F}
    {tx : TxFacts F} {a0 a1 : UInt64} (step : ChainStep hash tag inp tx (a0, a1))
    (htag : tag.stateTag = Compliance.stateTag hash tag.policySourceHash)
    (hpolicy : inp.policySourceHash = tag.policySourceHash) (hsubject : tx.subject = inp.ownerPubkey)
    (hepoch : tx.epoch = inp.epoch) (htoken : Scalar.toNat tx.token < 2 ^ 160)
    (hlen : inp.cnPath.proofLength ≤ maxCommitmentTreeDepth) (hflags : inp.seq = 0 → inp.flagsIn = 0) :
    complianceRun hash tag inp tx a0 a1 = .ok () := by
  obtain ⟨next, seqOut, hnext, hseq, hout⟩ := step.noted
  simp only [Compliance.complianceRun, assertMaxBitSize, bind_eq_ok, require_eq_ok, exists_const]
  refine ⟨htag, step.owner, step.epochIn, step.epochSeconds, hpolicy, hsubject, hepoch, step.txSeq,
    htoken, hlen, ?_⟩
  split
  · next h0 =>
    simp only [bind_eq_ok, require_eq_ok, exists_const]
    exact ⟨step.origin h0, hflags h0, step.nullifier, next, hnext, seqOut, hseq, hout⟩
  · next h0 =>
    simp only [bind_eq_ok, require_eq_ok, exists_const]
    exact ⟨(), step.included h0, step.nullifier, next, hnext, seqOut, hseq, hout⟩

/-! ## `attestation.nr` -/

structure AttestationWitness (F : Type) where
  attester : F
  generation : UInt64
  issuedAt : UInt64
  expiresAt : UInt64
  attPath : MerklePath F maxAttestationTreeDepth
  revokedAt : UInt64
  revIndices : Fin attesterTreeDepth → Bool
  revPath : Fin attesterTreeDepth → F

/-- The expiry test of `verify_instance` for an epoch length. -/
def expiryTest (epochSeconds epoch expiresAt : UInt64) : Except String Unit := do
  let epochEnd ← u64Add epoch 1
  let deadline ← u64Mul epochEnd epochSeconds
  require (deadline ≤ expiresAt) "attestation expired"

/-- `attestation::verify_instance`: membership, expiry, generation floor and attester
non-revocation of one key. -/
def verifyInstance (hash : List F → F) (pubkey : F) (w : AttestationWitness F)
    (epoch minAcceptedGeneration : UInt64) (attestationRoot attesterRevocationRoot : F) :
    Except String Unit := do
  require (w.attPath.proofLength ≤ maxAttestationTreeDepth) "Failed constraint"
  let leaf := hash [pubkey, w.attester, ofU64 w.generation, ofU64 w.issuedAt, ofU64 w.expiresAt]
  merkleVerify hash leaf attestationRoot w.attPath
  expiryTest noirEpochSeconds epoch w.expiresAt
  require (w.generation ≥ minAcceptedGeneration) "attestation generation retired"
  let rev := hash [w.attester, ofU64 w.revokedAt]
  merkleVerify hash rev attesterRevocationRoot ⟨attesterTreeDepth, w.revIndices, w.revPath⟩
  require (epoch < w.revokedAt) "attester revoked"

/-- The deadline cannot overflow below an expiry. -/
theorem expiryTest_eq_ok {epochSeconds epoch expiresAt : UInt64} (hs : 0 < epochSeconds.toNat) :
    expiryTest epochSeconds epoch expiresAt = .ok () ↔
      (epoch.toNat + 1) * epochSeconds.toNat ≤ expiresAt.toNat := by
  simp only [expiryTest, bind_eq_ok, require_eq_ok]
  constructor
  · rintro ⟨epochEnd, hend, deadline, hdeadline, expiry⟩
    rw [UInt64.le_iff_toNat_le, toNat_of_u64Mul hdeadline, toNat_of_u64Add hend] at expiry
    exact expiry
  · intro h
    have hlt := h.trans_lt expiresAt.toNat_lt
    have hend : u64Add epoch 1 = .ok (epoch + 1) :=
      u64Add_eq_ok.mpr ⟨(Nat.le_mul_of_pos_right _ hs).trans_lt hlt, rfl⟩
    have hdeadline : u64Mul (epoch + 1) epochSeconds = .ok ((epoch + 1) * epochSeconds) :=
      u64Mul_eq_ok.mpr ⟨by rw [toNat_of_u64Add hend]; exact hlt, rfl⟩
    refine ⟨_, hend, _, hdeadline, ?_⟩
    rw [UInt64.le_iff_toNat_le, toNat_of_u64Mul hdeadline, toNat_of_u64Add hend]
    exact h

/-- What the checks of `verify_instance` establish. -/
structure InstanceOk (hash : List F → F) (pubkey : F) (wit : AttestationWitness F)
    (epoch minAcceptedGeneration : UInt64) (attestationRoot attesterRevocationRoot : F) : Prop where
  included : merkleVerify hash (hash [pubkey, wit.attester, ofU64 wit.generation, ofU64 wit.issuedAt,
    ofU64 wit.expiresAt]) attestationRoot wit.attPath = .ok ()
  expiry : (epoch.toNat + 1) * noirEpochSeconds.toNat ≤ wit.expiresAt.toNat
  generation : minAcceptedGeneration ≤ wit.generation
  contained : merkleVerify hash (hash [wit.attester, ofU64 wit.revokedAt]) attesterRevocationRoot
    ⟨attesterTreeDepth, wit.revIndices, wit.revPath⟩ = .ok ()
  unrevoked : epoch < wit.revokedAt

theorem verifyInstance_ok {hash : List F → F} {pubkey : F} {wit : AttestationWitness F}
    {epoch minAcceptedGeneration : UInt64} {attestationRoot attesterRevocationRoot : F}
    (h : verifyInstance hash pubkey wit epoch minAcceptedGeneration attestationRoot
      attesterRevocationRoot = .ok ()) :
    InstanceOk hash pubkey wit epoch minAcceptedGeneration attestationRoot attesterRevocationRoot := by
  simp only [verifyInstance, bind_eq_ok, require_eq_ok, exists_const] at h
  obtain ⟨-, _, included, _, expiry, generation, _, contained, unrevoked⟩ := h
  exact ⟨included, (expiryTest_eq_ok (by decide)).mp expiry, generation, contained, unrevoked⟩

/-- The checks pass on what they establish. -/
theorem InstanceOk.verifyInstance {hash : List F → F} {pubkey : F} {wit : AttestationWitness F}
    {epoch minAcceptedGeneration : UInt64} {attestationRoot attesterRevocationRoot : F}
    (h : InstanceOk hash pubkey wit epoch minAcceptedGeneration attestationRoot
      attesterRevocationRoot) (hlen : wit.attPath.proofLength ≤ maxAttestationTreeDepth) :
    verifyInstance hash pubkey wit epoch minAcceptedGeneration attestationRoot
      attesterRevocationRoot = .ok () := by
  simp only [Compliance.verifyInstance, bind_eq_ok, require_eq_ok, exists_const]
  exact ⟨hlen, (), h.included, (), (expiryTest_eq_ok (by decide)).mpr h.expiry, h.generation, (),
    h.contained, h.unrevoked⟩

end Pocs.Compliance
