import Pocs.Epochs.Circuits
import Pocs.Epochs.Commitments

/-! # Two notes in one transfer

The transfer circuit reads the paths of both inputs up to one length. -/

namespace Pocs.Epochs

open Compliance (Ideal ofU64 merkleHash merkleVerify merkleVerify_ofList binaryMerkleRoot_eq_foldPath idealHash idealHash_ideal)

section
variable {F T : Type} [EpochField F] {hash : List F → F} {L : HashedLeanImt F T} {t : T}

/-! ## Membership -/

theorem commitment_ne_node (H : Ideal hash) (n : Note F) (l r : F) : n.commitment hash ≠ merkleHash hash l r :=
  H.ne_of_length (by simp) (List.cons_ne_nil _ _) (by simp) (List.cons_ne_nil _ _) (by simp)

omit [EpochField F] in
/-- The circuit reads as many levels as its arrays have. -/
theorem length_levels (n : Nat) (f : Fin maxCommitmentTreeDepth → Bool × F) :
    (((List.finRange maxCommitmentTreeDepth).filter fun i => i.val < n).map f).length =
      min n maxCommitmentTreeDepth := by
  have hrange : ((List.finRange maxCommitmentTreeDepth).filter fun i => i.val < n).map Fin.val =
      (List.range maxCommitmentTreeDepth).filter (· < n) := by
    rw [← List.map_coe_finRange_eq_range, List.filter_map]
    rfl
  have hlen := congrArg List.length hrange
  rw [List.length_map] at hlen ⊢
  rw [hlen]
  rcases Nat.le_total n maxCommitmentTreeDepth with h | h
  · obtain ⟨k, hk⟩ := Nat.exists_eq_add_of_le h
    rw [hk, List.range_add, List.filter_append, List.filter_eq_self.mpr (by simp),
      List.filter_eq_nil_iff.mpr (by simp), List.append_nil, List.length_range]
    omega
  · rw [List.filter_eq_self.mpr (fun i hi => decide_eq_true ((List.mem_range.mp hi).trans_le h)),
      List.length_range, Nat.min_eq_right h]

/-- A note that verifies against the root has a path as long as the circuit has read. -/
theorem length_of_verifyMembership (H : Ideal hash) (hL : L.Lawful (merkleHash hash))
    (hleaves : ∀ x ∈ L.leaves t, ∃ n : Note F, x = n.commitment hash) (hnodup : (L.leaves t).Nodup)
    {root : F} (hroot : L.root t = some root) {n : Note F} {i proofLength : Nat}
    (hleaf : (L.leaves t)[i]? = some (n.commitment hash))
    {indices : Fin maxCommitmentTreeDepth → Bool} {path : Fin maxCommitmentTreeDepth → F}
    (h : verifyMembership hash (n.commitment hash) root proofLength indices path = .ok ()) :
    (Merkle.promotedPath (merkleHash hash) (L.leaves t).length (L.leaves t) i).length =
      min proofLength maxCommitmentTreeDepth := by
  rw [verifyMembership, require_eq_ok, binaryMerkleRoot_eq_foldPath] at h
  rw [hL.root, Merkle.leanRoot, ← h] at hroot
  have hsound := Merkle.promotedPath_sound H.node_inj (fun y hy l r => by
    obtain ⟨m, rfl⟩ := hleaves y hy
    exact commitment_ne_node H m l r) (commitment_ne_node H n) hroot
  obtain ⟨j, hj, -, hp⟩ := hsound
  obtain ⟨hi', hgeti⟩ := List.getElem?_eq_some_iff.mp hleaf
  obtain ⟨hj', hgetj⟩ := List.getElem?_eq_some_iff.mp hj
  obtain rfl : i = j := hnodup.getElem_inj_iff.mp (hgeti.trans hgetj.symm)
  have hlen := length_levels proofLength fun i => (indices i, path i)
  rw [hp] at hlen
  exact hlen

omit [EpochField F] in
theorem HashedLeanImt.Lawful.proofLength_le (hL : L.Lawful (merkleHash hash)) {i : Nat}
    {p : CommitmentMerkleProof F} (hp : L.generateCommitmentProof t i = some p)
    (hdepth : (L.leaves t).length ≤ 2 ^ maxCommitmentTreeDepth) : p.proofLength ≤ maxCommitmentTreeDepth := by
  obtain ⟨hi, hsteps, hlen⟩ := hL.steps hp
  rw [hlen, hsteps]
  rcases Nat.le_total (L.leaves t).length maxCommitmentTreeDepth with h | h
  · exact Merkle.length_promotedPath.trans h
  · rw [Merkle.promotedPath_of_le hi hdepth h]
    exact Merkle.length_promotedPath

/-- The proof of a leaf verifies, read up to its own length. -/
theorem verifyMembership_toArrays (hL : L.Lawful (merkleHash hash)) {i : Nat}
    {p : CommitmentMerkleProof F} (hp : L.generateCommitmentProof t i = some p) {leaf root : F}
    (hleaf : (L.leaves t)[i]? = some leaf) (hroot : L.root t = some root)
    (hlen : p.proofLength ≤ maxCommitmentTreeDepth) :
    verifyMembership hash leaf root p.proofLength (p.toArrays maxCommitmentTreeDepth).indices
      (p.toArrays maxCommitmentTreeDepth).path = .ok () := by
  obtain ⟨-, -, hsteps⟩ := hL.steps hp
  have hfold := hL.reconstructRoot hp hleaf
  rw [hroot, p.reconstructRoot_eq] at hfold
  rw [hsteps] at hlen ⊢
  have hverify := (@merkleVerify_ofList _ _ hash maxCommitmentTreeDepth leaf root p.steps hlen).mpr
    (Option.some.inj hfold).symm
  rw [merkleVerify, require_eq_ok] at hverify
  rw [verifyMembership, require_eq_ok]
  exact hverify

/-! ## Owned notes -/

/-- A note of the sender, the accumulator of its epochs and its chain proof. -/
structure OwnedNote (F : Type) where
  token : F
  amount : UInt64
  salt : F
  epochCreated : F
  accumulator : F
  chain : ChainInput F

def OwnedNote.note (n : OwnedNote F) (ownerPubkey : F) : Note F :=
  ⟨n.token, ofU64 n.amount, ownerPubkey, n.salt, n.epochCreated⟩

def OwnedNote.input (n : OwnedNote F) (p : CommitmentMerkleProof F) : InputNote F where
  token := n.token
  amount := n.amount
  salt := n.salt
  path := (p.toArrays maxCommitmentTreeDepth).path
  indices := (p.toArrays maxCommitmentTreeDepth).indices
  chain := n.chain

def OwnedNote.CaughtUp (hash : List F → F) (n : OwnedNote F) (ownerPubkey currentEpoch chainVkHash : F) :
    Prop :=
  verifyInputChain hash n.chain chainVkHash ((n.note ownerPubkey).commitment hash) n.epochCreated
    currentEpoch n.accumulator = .ok ()

/-- Some transfer spends the two notes in this order. -/
def Spendable (hash : List F → F) (spendingKey root currentEpoch chainVkHash : F) (a b : OwnedNote F)
    (pa pb : CommitmentMerkleProof F) : Prop :=
  ∃ (pub : TransferPublic F) (out0 out1 : OutputNote F) (proofLength : Nat),
    pub.commitmentRoot = root ∧ pub.currentEpoch = currentEpoch ∧ pub.chainVkHash = chainVkHash ∧
    pub.epochCreatedIn0 = a.epochCreated ∧ pub.epochCreatedIn1 = b.epochCreated ∧
    pub.chainAccumulatorIn0 = a.accumulator ∧ pub.chainAccumulatorIn1 = b.accumulator ∧
    transferMain hash pub ⟨spendingKey, a.input pa, b.input pb, out0, out1, proofLength⟩ = .ok ()

variable {spendingKey root currentEpoch chainVkHash : F} {a b : OwnedNote F} {i j : Nat}
  {pa pb : CommitmentMerkleProof F}

/-- The circuit has read both paths to their ends. -/
theorem Spendable.proofLength_eq (h : Spendable hash spendingKey root currentEpoch chainVkHash a b pa pb)
    (H : Ideal hash) (hL : L.Lawful (merkleHash hash))
    (hleaves : ∀ x ∈ L.leaves t, ∃ n : Note F, x = n.commitment hash) (hnodup : (L.leaves t).Nodup)
    (hroot : L.root t = some root)
    (ha : (L.leaves t)[i]? = some ((a.note (poseidon1 hash spendingKey)).commitment hash))
    (hb : (L.leaves t)[j]? = some ((b.note (poseidon1 hash spendingKey)).commitment hash))
    (hpa : L.generateCommitmentProof t i = some pa) (hpb : L.generateCommitmentProof t j = some pb)
    (hne : b.amount ≠ 0) : pa.proofLength = pb.proofLength := by
  obtain ⟨pub, out0, out1, proofLength, rfl, rfl, rfl, hepoch0, hepoch1, -, -, hmain⟩ := h
  have hchecks := transferMain_eq_ok.mp hmain
  have hmember0 := hchecks.member0
  have hmember1 := hchecks.member1 hne
  simp only [TransferWitness.note0, TransferWitness.note1, hepoch0, hepoch1] at hmember0 hmember1
  have hlena := length_of_verifyMembership H hL hleaves hnodup hroot ha hmember0
  have hlenb := length_of_verifyMembership H hL hleaves hnodup hroot hb hmember1
  obtain ⟨-, hstepsa, hpa⟩ := hL.steps hpa
  obtain ⟨-, hstepsb, hpb⟩ := hL.steps hpb
  rw [hpa, hpb, hstepsa, hstepsb, hlena, hlenb]

/-- All value in the first output. -/
theorem spendable_of_proofLength_eq (hL : L.Lawful (merkleHash hash))
    (hdepth : (L.leaves t).length ≤ 2 ^ maxCommitmentTreeDepth) (hroot : L.root t = some root)
    (ha : (L.leaves t)[i]? = some ((a.note (poseidon1 hash spendingKey)).commitment hash))
    (hb : (L.leaves t)[j]? = some ((b.note (poseidon1 hash spendingKey)).commitment hash))
    (hpa : L.generateCommitmentProof t i = some pa) (hpb : L.generateCommitmentProof t j = some pb)
    (htoken : a.token = b.token) (hsum : a.amount.toNat + b.amount.toNat < 2 ^ 64)
    (hchaina : a.CaughtUp hash (poseidon1 hash spendingKey) currentEpoch chainVkHash)
    (hchainb : b.CaughtUp hash (poseidon1 hash spendingKey) currentEpoch chainVkHash)
    (hlen : pa.proofLength = pb.proofLength ∨ b.amount = 0) :
    Spendable hash spendingKey root currentEpoch chainVkHash a b pa pb := by
  let owner := poseidon1 hash spendingKey
  let out0 : OutputNote F := ⟨a.token, a.amount + b.amount, owner, 0⟩
  let out1 : OutputNote F := ⟨a.token, 0, owner, 0⟩
  let pub : TransferPublic F :=
    { nullifierActive0 := nullifierOf hash ((a.note owner).commitment hash) spendingKey currentEpoch
      nullifierActive1 := nullifierOf hash ((b.note owner).commitment hash) spendingKey currentEpoch
      commitmentOut0 := (out0.note currentEpoch).commitment hash
      commitmentOut1 := (out1.note currentEpoch).commitment hash
      commitmentRoot := root
      currentEpoch
      chainVkHash
      epochCreatedIn0 := a.epochCreated
      epochCreatedIn1 := b.epochCreated
      chainAccumulatorIn0 := a.accumulator
      chainAccumulatorIn1 := b.accumulator }
  refine ⟨pub, out0, out1, pa.proofLength, rfl, rfl, rfl, rfl, rfl, rfl, rfl, transferMain_eq_ok.mpr ?_⟩
  refine ⟨verifyMembership_toArrays hL hpa ha hroot (hL.proofLength_le hpa hdepth), rfl, hchaina,
    fun hne => ?_, fun _ => hchainb, rfl, rfl, rfl, hsum, ?_, htoken, rfl, rfl⟩
  · rw [hlen.resolve_right hne]
    exact verifyMembership_toArrays hL hpb hb hroot (hL.proofLength_le hpb hdepth)
  · show a.amount.toNat + b.amount.toNat = (a.amount + b.amount).toNat + (0 : UInt64).toNat
    rw [UInt64.toNat_add, Nat.mod_eq_of_lt hsum]
    rfl

section
variable (H : Ideal hash) (hL : L.Lawful (merkleHash hash))
  (hleaves : ∀ x ∈ L.leaves t, ∃ n : Note F, x = n.commitment hash) (hnodup : (L.leaves t).Nodup)
  (hdepth : (L.leaves t).length ≤ 2 ^ maxCommitmentTreeDepth) (hroot : L.root t = some root)
  (ha : (L.leaves t)[i]? = some ((a.note (poseidon1 hash spendingKey)).commitment hash))
  (hb : (L.leaves t)[j]? = some ((b.note (poseidon1 hash spendingKey)).commitment hash))
  (htoken : a.token = b.token) (hsum : a.amount.toNat + b.amount.toNat < 2 ^ 64)
  (hchaina : a.CaughtUp hash (poseidon1 hash spendingKey) currentEpoch chainVkHash)
  (hchainb : b.CaughtUp hash (poseidon1 hash spendingKey) currentEpoch chainVkHash)
include H hL hleaves hnodup hdepth hroot ha hb htoken hsum hchaina hchainb

/-- In this order. -/
theorem spendable_iff_of_proofs (hpa : L.generateCommitmentProof t i = some pa)
    (hpb : L.generateCommitmentProof t j = some pb) :
    Spendable hash spendingKey root currentEpoch chainVkHash a b pa pb ↔
      pa.proofLength = pb.proofLength ∨ b.amount = 0 := by
  refine ⟨fun h => ?_, spendable_of_proofLength_eq hL hdepth hroot ha hb hpa hpb htoken hsum hchaina hchainb⟩
  by_cases hzero : b.amount = 0
  · exact .inr hzero
  · exact .inl (h.proofLength_eq H hL hleaves hnodup hroot ha hb hpa hpb hzero)

/-- Two notes of one owner and token are spent together if and only if their paths have one length, where the
second has value; and in one of the two orders if and only if they have one length or one has no value. -/
theorem spendable_iff :
    ∃ pa pb, L.generateCommitmentProof t i = some pa ∧ L.generateCommitmentProof t j = some pb ∧
      (Spendable hash spendingKey root currentEpoch chainVkHash a b pa pb ↔
        pa.proofLength = pb.proofLength ∨ b.amount = 0) ∧
      (Spendable hash spendingKey root currentEpoch chainVkHash a b pa pb ∨
          Spendable hash spendingKey root currentEpoch chainVkHash b a pb pa ↔
        pa.proofLength = pb.proofLength ∨ a.amount = 0 ∨ b.amount = 0) := by
  obtain ⟨pa, hpa⟩ := hL.exists_proof (List.getElem?_eq_some_iff.mp ha).1
  obtain ⟨pb, hpb⟩ := hL.exists_proof (List.getElem?_eq_some_iff.mp hb).1
  have hab := spendable_iff_of_proofs H hL hleaves hnodup hdepth hroot ha hb htoken hsum hchaina hchainb hpa hpb
  have hba := spendable_iff_of_proofs H hL hleaves hnodup hdepth hroot hb ha htoken.symm
    (Nat.add_comm _ _ ▸ hsum) hchainb hchaina hpb hpa
  refine ⟨pa, pb, hpa, hpb, hab, ?_⟩
  rw [hab, hba, eq_comm (a := pb.proofLength)]
  tauto

end

end

/-! ## A tree with three notes -/

namespace Sample

/-- The owner's key is `7`, the verification key `99`. -/
def coin (salt : Nat) : OwnedNote Unbounded where
  token := Scalar.ofNat 1
  amount := 5
  salt := Scalar.ofNat salt
  epochCreated := 0
  accumulator := 0
  chain := ⟨.base, ⟨Note.commitment idealHash
    ⟨Scalar.ofNat 1, ofU64 5, poseidon1 idealHash (Scalar.ofNat 7), Scalar.ofNat salt, 0⟩, 0, 0, 0,
    Scalar.ofNat 99⟩⟩

def leaf (salt : Nat) : Unbounded :=
  ((coin salt).note (poseidon1 idealHash (Scalar.ofNat 7))).commitment idealHash

def leaves : List Unbounded := [leaf 0, leaf 1, leaf 2]

def tree : HashedLeanImt Unbounded (List Unbounded) := listLeanImt (merkleHash idealHash)

theorem coin_caughtUp (salt : Nat) :
    (coin salt).CaughtUp idealHash (poseidon1 idealHash (Scalar.ofNat 7)) 0 (Scalar.ofNat 99) :=
  verifyInputChain_eq_ok.mpr ⟨rfl, rfl⟩

theorem leaf_ne {salt salt' : Nat} (h : salt ≠ salt') : leaf salt ≠ leaf salt' := by
  intro he
  have hsalt := (idealHash_ideal.hash5_inj he).2.2.2.1
  exact h (Unbounded.mk.inj hsalt)

theorem leaves_nodup : leaves.Nodup := by
  simp [leaves, leaf_ne]

theorem leaves_are_commitments (x : Unbounded) (hx : x ∈ tree.leaves leaves) :
    ∃ n : Note Unbounded, x = n.commitment idealHash := by
  have hmem : x ∈ [leaf 0, leaf 1, leaf 2] := hx
  rcases List.mem_cons.mp hmem with rfl | hmem
  · exact ⟨_, rfl⟩
  rcases List.mem_cons.mp hmem with rfl | hmem
  · exact ⟨_, rfl⟩
  · obtain rfl := List.mem_singleton.mp hmem
    exact ⟨_, rfl⟩

end Sample

open Sample

/-- The first two notes are spent together. -/
theorem spendable_iff_sample : ∃ root pa pb, tree.root leaves = some root ∧
    tree.generateCommitmentProof leaves 0 = some pa ∧
    tree.generateCommitmentProof leaves 1 = some pb ∧
    Spendable idealHash (Scalar.ofNat 7) root 0 (Scalar.ofNat 99) (coin 0) (coin 1) pa pb := by
  obtain ⟨root, hroot⟩ := @Merkle.exists_leanRoot _ (merkleHash idealHash) _
    (show leaves ≠ [] from List.cons_ne_nil _ _)
  obtain ⟨pa, pb, hpa, hpb, hiff, -⟩ := spendable_iff idealHash_ideal listLeanImt_lawful
    leaves_are_commitments leaves_nodup (by decide) hroot
    (show leaves[0]? = some (leaf 0) from rfl)
    (show leaves[1]? = some (leaf 1) from rfl) rfl (by decide)
    (coin_caughtUp 0) (coin_caughtUp 1)
  obtain ⟨-, hstepsa, hlena⟩ := listLeanImt_lawful.steps hpa
  obtain ⟨-, hstepsb, hlenb⟩ := listLeanImt_lawful.steps hpb
  refine ⟨root, pa, pb, hroot, hpa, hpb, hiff.mpr (.inl ?_)⟩
  rw [hlena, hlenb, hstepsa, hstepsb]
  rfl

/-- No transfer spends the first and the third note: the third has the shorter path. -/
theorem pair_not_spendable : ∃ root pa pb, tree.root leaves = some root ∧
    leaves.Nodup ∧ leaves[0]? = some (leaf 0) ∧ leaves[2]? = some (leaf 2) ∧
    tree.generateCommitmentProof leaves 0 = some pa ∧
    tree.generateCommitmentProof leaves 2 = some pb ∧
    (coin 0).CaughtUp idealHash (poseidon1 idealHash (Scalar.ofNat 7)) 0 (Scalar.ofNat 99) ∧
    (coin 2).CaughtUp idealHash (poseidon1 idealHash (Scalar.ofNat 7)) 0 (Scalar.ofNat 99) ∧
    ¬ Spendable idealHash (Scalar.ofNat 7) root 0 (Scalar.ofNat 99) (coin 0) (coin 2) pa pb := by
  obtain ⟨root, hroot⟩ := @Merkle.exists_leanRoot _ (merkleHash idealHash) _
    (show leaves ≠ [] from List.cons_ne_nil _ _)
  have hL := @listLeanImt_lawful _ (merkleHash idealHash)
  obtain ⟨pa, hpa⟩ := hL.exists_proof (show 0 < leaves.length by decide)
  obtain ⟨pb, hpb⟩ := hL.exists_proof (show 2 < leaves.length by decide)
  refine ⟨root, pa, pb, hroot, leaves_nodup, rfl, rfl, hpa, hpb, coin_caughtUp 0, coin_caughtUp 2, fun h => ?_⟩
  have hsame := h.proofLength_eq idealHash_ideal hL leaves_are_commitments leaves_nodup hroot
    (show leaves[0]? = some (leaf 0) from rfl)
    (show leaves[2]? = some (leaf 2) from rfl) hpa hpb (by decide)
  obtain ⟨-, hstepsa, hlena⟩ := hL.steps hpa
  obtain ⟨-, hstepsb, hlenb⟩ := hL.steps hpb
  rw [hlena, hlenb, hstepsa, hstepsb] at hsame
  exact absurd hsame (show ¬ (2 = 1) by decide)

end Pocs.Epochs
