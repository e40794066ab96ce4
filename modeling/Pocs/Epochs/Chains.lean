import Pocs.Epochs.Circuits

/-! # Chain proofs

The accumulator of a chain proof against `expectedChainAccumulator` of `ShieldedPoolExt.sol` and the state that
`domain/chain_proof.rs` keeps. A chain proof folds one root after the other, each with the epoch before it is
counted; the accumulator determines the roots and their number (`foldl_inj`). -/

namespace Pocs

/-- Chains of a collision-free node that never gives the start back are determined by their end. -/
theorem foldl_inj {α β : Type} {f : α → β → α} (hinj : Function.Injective2 f) {z : α} (hz : ∀ a b, f a b ≠ z)
    {xs ys : List β} (h : xs.foldl f z = ys.foldl f z) : xs = ys := by
  induction xs using List.reverseRecOn generalizing ys with
  | nil =>
    cases ys using List.reverseRecOn with
    | nil => rfl
    | append_singleton ys y =>
      rw [List.foldl_concat] at h
      exact absurd h.symm (hz _ _)
  | append_singleton xs x ih =>
    cases ys using List.reverseRecOn with
    | nil =>
      rw [List.foldl_concat] at h
      exact absurd h (hz _ _)
    | append_singleton ys y =>
      rw [List.foldl_concat, List.foldl_concat] at h
      obtain ⟨hprior, rfl⟩ := hinj h
      rw [ih hprior]

namespace Epochs

open Compliance (BnField Word Ideal ofU64 ofU64_inj merkleHash)

/-! ## `ShieldedPoolExt.sol` -/

/-- The storage that `expectedChainAccumulator` reads. -/
structure EpochStorage where
  currentEpoch : UInt64
  frozenNullifierRoots : Nat → Word

section
variable {F : Type} [BnField F] (hash : List F → F)

/-- `PoseidonT3.hash`. -/
def poseidonT3 (a b : Word) : Word := Scalar.toNat (hash [Scalar.ofNat a, Scalar.ofNat b])

def EpochStorage.epochsFrom (s : EpochStorage) (epochCreated : UInt64) : List Nat :=
  List.range' epochCreated.toNat (s.currentEpoch.toNat - epochCreated.toNat)

def EpochStorage.expectedChainAccumulator (s : EpochStorage) (epochCreated : UInt64) : Word :=
  (s.epochsFrom epochCreated).foldl (fun acc e => poseidonT3 hash acc (s.frozenNullifierRoots e)) 0

/-! ## `domain/chain_proof.rs` -/

/-- What a chain proof says of a note. -/
structure ChainProof where
  commitment : Word
  epochCreated : UInt64
  epochValidatedThrough : UInt64
  accumulator : Word
  deriving DecidableEq

def ChainProof.genesis (commitment : Word) (epochCreated : UInt64) : ChainProof :=
  ⟨commitment, epochCreated, epochCreated, 0⟩

def ChainProof.extend (p : ChainProof) (frozenRoot : Word) : ChainProof where
  commitment := p.commitment
  epochCreated := p.epochCreated
  epochValidatedThrough := p.epochValidatedThrough + 1
  accumulator := poseidonT3 hash p.accumulator frozenRoot

end

/-! ## Folds -/

/-- A step of a chain proof: the epoch and the root that it folds, and the witness for its phantom nullifier. -/
structure Fold (F : Type) where
  epoch : F
  frozenRoot : F
  spendingKey : F
  token : F
  amount : F
  salt : F
  low : LowLeaf F

/-- The steps of a derivation, the first one first. -/
def ChainWitness.folds {F : Type} : ChainWitness F → List (Fold F)
  | .base => []
  | .step prior priorProof frozenRootNext spendingKey token amount salt low =>
    priorProof.folds ++ [⟨prior.epochValidatedThrough, frozenRootNext, spendingKey, token, amount, salt, low⟩]

section
variable {F : Type} [EpochField F] {hash : List F → F}

def Fold.nullifier (hash : List F → F) (fold : Fold F) (commitment : F) : F :=
  nullifierOf hash commitment fold.spendingKey fold.epoch

/-- What a step has checked: the key is that of the note, whose phantom nullifier is not in the tree. -/
structure Fold.Checked (hash : List F → F) (fold : Fold F) (commitment epochCreated : F) : Prop where
  note : commitment = Note.commitment hash
    ⟨fold.token, fold.amount, poseidon1 hash fold.spendingKey, fold.salt, epochCreated⟩
  absent : assertNonMembership hash (fold.nullifier hash commitment) fold.frozenRoot fold.low = .ok ()

/-- A derivation counts its folds from the epoch of the note, and its accumulator is that of their roots. -/
structure Derived (hash : List F → F) (folds : List (Fold F)) (pub : ChainPublic F) : Prop where
  counted : pub.epochValidatedThrough = EpochField.succ^[folds.length] pub.epochCreated
  folded : pub.accumulator = (folds.map (·.frozenRoot)).foldl (merkleHash hash) 0
  epochs : ∀ k fold, folds[k]? = some fold → fold.epoch = EpochField.succ^[k] pub.epochCreated
  checked : ∀ fold ∈ folds, fold.Checked hash pub.commitment pub.epochCreated

/-- By induction on the derivation. -/
theorem derived_of_main {proof : ChainWitness F} {pub : ChainPublic F}
    (h : chainUpdateMain hash proof pub = .ok ()) : Derived hash proof.folds pub := by
  induction proof generalizing pub with
  | base =>
    simp only [chainUpdateMain, bind_eq_ok, require_eq_ok, exists_const] at h
    refine ⟨h.1, h.2, ?_, ?_⟩
    · intro k fold hfold
      cases hfold
    · intro fold hfold
      cases hfold
  | step prior priorProof frozenRootNext spendingKey token amount salt low ih =>
    simp only [chainUpdateMain, bind_eq_ok, require_eq_ok, exists_const] at h
    obtain ⟨_, hprior, hcommitment, hcreated, -, hevt, hacc, hnote, habsent⟩ := h
    have hd := ih hprior
    rw [ChainWitness.folds]
    constructor
    · rw [hevt, hd.counted, hcreated, List.length_append, List.length_singleton, Function.iterate_succ_apply']
    · rw [hacc, hd.folded, List.map_append, List.map_singleton, List.foldl_concat]
    · intro k fold hfold
      rcases Nat.lt_or_ge k priorProof.folds.length with hk | hk
      · rw [List.getElem?_append_left hk] at hfold
        rw [← hcreated]
        exact hd.epochs k fold hfold
      · rw [List.getElem?_append_right hk, List.getElem?_singleton] at hfold
        split at hfold
        · next hzero =>
          cases hfold
          rw [Nat.le_antisymm (Nat.sub_eq_zero_iff_le.mp hzero) hk, ← hcreated]
          exact hd.counted
        · cases hfold
    · intro fold hfold
      rcases List.mem_append.mp hfold with hfold | hfold
      · rw [← hcommitment, ← hcreated]
        exact hd.checked fold hfold
      · rw [List.mem_singleton.mp hfold]
        exact ⟨hnote, habsent⟩

/-! ## Against the contract -/

theorem poseidonT3_scalar (a b : Word) :
    Scalar.ofNat (poseidonT3 hash a b) = merkleHash hash (Scalar.ofNat a) (Scalar.ofNat b) :=
  BnField.ofNat_toNat _

/-- A fold of words is the fold of their residues. -/
theorem foldl_scalar (acc : Word) (words : List Word) : (Scalar.ofNat (words.foldl (poseidonT3 hash) acc) : F) =
      (words.map Scalar.ofNat).foldl (merkleHash hash) (Scalar.ofNat acc) := by
  induction words generalizing acc with
  | nil => rfl
  | cons word words ih => rw [List.foldl_cons, ih, poseidonT3_scalar, List.map_cons, List.foldl_cons]

theorem expectedChainAccumulator_eq (s : EpochStorage) (epochCreated : UInt64) :
    s.expectedChainAccumulator hash epochCreated =
      ((s.epochsFrom epochCreated).map s.frozenNullifierRoots).foldl (poseidonT3 hash) 0 := by
  rw [EpochStorage.expectedChainAccumulator, List.foldl_map]

/-- Counting from an epoch. -/
theorem iterate_succ_ofNat {n : Nat} (k : Nat) (h : n + k < 2 ^ 64) :
    EpochField.succ^[k] (Scalar.ofNat n : F) = Scalar.ofNat (n + k) := by
  induction k with
  | zero => rfl
  | succ k ih =>
    rw [Function.iterate_succ_apply', ih (by omega)]
    exact EpochField.succ_ofNat h

/-- The state that the wallet keeps, after some roots. -/
theorem foldl_extend (p : ChainProof) (roots : List Word) :
    roots.foldl (ChainProof.extend hash) p = ⟨p.commitment, p.epochCreated,
      p.epochValidatedThrough + .ofNat roots.length, roots.foldl (poseidonT3 hash) p.accumulator⟩ := by
  induction roots generalizing p with
  | nil => simp
  | cons root roots ih =>
    have hcount : p.epochValidatedThrough + 1 + .ofNat roots.length =
        p.epochValidatedThrough + .ofNat (root :: roots).length := by
      rw [List.length_cons, Nat.add_comm roots.length, UInt64.ofNat_add, UInt64.add_assoc]
      rfl
    rw [List.foldl_cons, ih, List.foldl_cons, ← hcount]
    rfl

/-- The steps are those of one owner. -/
theorem exists_key (H : Ideal hash) {folds : List (Fold F)} {commitment epochCreated : F}
    (h : ∀ fold ∈ folds, fold.Checked hash commitment epochCreated) :
    ∃ spendingKey, ∀ fold ∈ folds, fold.spendingKey = spendingKey := by
  cases folds with
  | nil => exact ⟨0, fun fold hfold => by cases hfold⟩
  | cons first folds =>
    refine ⟨first.spendingKey, fun fold hfold => ?_⟩
    have hnote := (h fold hfold).note.symm.trans (h first List.mem_cons_self).note
    obtain ⟨-, -, howner, -, -⟩ := H.hash5_inj hnote
    exact H.hash1_inj howner

/-- A chain proof that matches the contract has folded the roots of the epochs from the note's on, each with the
phantom nullifier of its epoch. -/
theorem chain_binds (H : Ideal hash) {proof : ChainWitness F} {pub : ChainPublic F}
    (h : chainUpdateMain hash proof pub = .ok ()) :
    pub.epochValidatedThrough = EpochField.succ^[proof.folds.length] pub.epochCreated ∧
    ∀ (s : EpochStorage) (epochCreated : UInt64), pub.epochCreated = ofU64 epochCreated →
      pub.epochValidatedThrough = ofU64 s.currentEpoch →
      pub.accumulator = Scalar.ofNat (s.expectedChainAccumulator hash epochCreated) →
      epochCreated.toNat + proof.folds.length = s.currentEpoch.toNat ∧
      (∀ fold ∈ proof.folds, fold.Checked hash pub.commitment pub.epochCreated) ∧
      (∃ spendingKey, (∀ fold ∈ proof.folds, fold.spendingKey = spendingKey) ∧
        proof.folds.map (fun fold => (fold.frozenRoot, fold.nullifier hash pub.commitment)) =
          (s.epochsFrom epochCreated).map fun e => (Scalar.ofNat (s.frozenNullifierRoots e),
            nullifierOf hash pub.commitment spendingKey (Scalar.ofNat e))) ∧ ∀ commitment : Word,
        ((s.epochsFrom epochCreated).map s.frozenNullifierRoots).foldl (ChainProof.extend hash)
            (.genesis commitment epochCreated) =
          ⟨commitment, epochCreated, s.currentEpoch, s.expectedChainAccumulator hash epochCreated⟩ := by
  have hd := derived_of_main h
  refine ⟨hd.counted, fun s epochCreated hcreated hevt hacc => ?_⟩
  have hcounted := hd.counted
  have hepochs := hd.epochs
  rw [hcreated] at hcounted hepochs
  -- the accumulator has folded as many roots as the contract
  have hroots : proof.folds.map (·.frozenRoot) =
      ((s.epochsFrom epochCreated).map s.frozenNullifierRoots).map Scalar.ofNat := by
    rw [hd.folded, expectedChainAccumulator_eq, foldl_scalar] at hacc
    exact foldl_inj H.node_inj (fun a b => H.ne_zero (List.cons_ne_nil _ _) (by simp)) hacc
  have hlen : proof.folds.length = s.currentEpoch.toNat - epochCreated.toNat := by
    have hlen := congrArg List.length hroots
    rwa [List.length_map, List.length_map, List.length_map, EpochStorage.epochsFrom, List.length_range'] at hlen
  have hsum : epochCreated.toNat + proof.folds.length = s.currentEpoch.toNat := by
    rcases Nat.le_total epochCreated.toNat s.currentEpoch.toNat with hle | hle
    · rw [hlen, Nat.add_sub_cancel' hle]
    · -- no root is folded, so that the epochs are the same
      rw [Nat.sub_eq_zero_of_le hle] at hlen
      rw [hlen, hevt] at hcounted
      rw [hlen, ofU64_inj hcounted, Nat.add_zero]
  refine ⟨hsum, hd.checked, ?_, fun commitment => ?_⟩
  · obtain ⟨spendingKey, hkey⟩ := exists_key H hd.checked
    refine ⟨spendingKey, hkey, List.ext_getElem? fun k => ?_⟩
    have hroot := congrArg (·[k]?) hroots
    simp only [List.getElem?_map] at hroot
    rw [List.getElem?_map, List.getElem?_map]
    cases hfold : proof.folds[k]? with
    | none =>
      have hk := List.getElem?_eq_none_iff.mp hfold
      rw [EpochStorage.epochsFrom, List.getElem?_eq_none (by rw [List.length_range', ← hlen]; exact hk)]
      rfl
    | some fold =>
      have hk := (List.getElem?_eq_some_iff.mp hfold).1
      have he : (s.epochsFrom epochCreated)[k]? = some (epochCreated.toNat + k) := by
        rw [EpochStorage.epochsFrom, List.getElem?_range' (hlen ▸ hk), Nat.one_mul]
      have hcurrent := s.currentEpoch.toNat_lt
      rw [hfold, he, Option.map_some, Option.map_some, Option.map_some, Option.some.injEq] at hroot
      rw [he, Option.map_some, Option.map_some, Fold.nullifier, hkey fold (List.mem_of_getElem? hfold), hroot,
        hepochs k fold hfold, ofU64, iterate_succ_ofNat k (by omega)]
  · have hcurrent : epochCreated + .ofNat (s.currentEpoch.toNat - epochCreated.toNat) = s.currentEpoch := by
      apply UInt64.toNat_inj.mp
      have hlt := s.currentEpoch.toNat_lt
      rw [UInt64.toNat_add, UInt64.toNat_ofNat', ← hlen]
      omega
    rw [foldl_extend, expectedChainAccumulator_eq, List.length_map, EpochStorage.epochsFrom, List.length_range']
    exact ChainProof.mk.injEq .. ▸ ⟨rfl, rfl, hcurrent, rfl⟩

end

/-! ## A chain of one fold -/

namespace ChainSample

variable (hash : List Unbounded → Unbounded)

def low : LowLeaf Unbounded := ⟨0, 0, 0, fun _ => false, fun _ => 0⟩

/-- The root of an epoch without nullifiers. -/
def root : Unbounded := low.root hash (leafHash hash 0 0 0)

def spendingKey : Unbounded := Scalar.ofNat 7

def note : Note Unbounded :=
  ⟨Scalar.ofNat 5, Scalar.ofNat 10, poseidon1 hash spendingKey, Scalar.ofNat 9, ofU64 3⟩

def genesis : ChainPublic Unbounded := ⟨(note hash).commitment hash, ofU64 3, ofU64 3, 0, Scalar.ofNat 99⟩

def pub : ChainPublic Unbounded :=
  ⟨(note hash).commitment hash, ofU64 3, ofU64 4, merkleHash hash 0 (root hash), Scalar.ofNat 99⟩

def proof : ChainWitness Unbounded :=
  .step (genesis hash) .base (root hash) spendingKey (Scalar.ofNat 5) (Scalar.ofNat 10) (Scalar.ofNat 9) low

def storage : EpochStorage := ⟨4, fun _ => Scalar.toNat (root hash)⟩

variable {hash}

theorem accepted (H : Ideal hash) : chainUpdateMain hash (proof hash) (pub hash) = .ok () := by
  have habsent : assertNonMembership hash
      (nullifierOf hash ((note hash).commitment hash) spendingKey (ofU64 3)) (root hash) low = .ok () := by
    rw [assertNonMembership_eq_ok]
    refine ⟨?_, fun hne => absurd rfl hne, rfl⟩
    exact Scalar.pos_iff.mpr (H.ne_zero (List.cons_ne_nil _ _) (by simp))
  simp only [proof, chainUpdateMain, bind_eq_ok, require_eq_ok, exists_const]
  exact ⟨⟨rfl, rfl⟩, rfl, rfl, rfl, rfl, rfl, rfl, habsent⟩

theorem accumulator_storage :
    (pub hash).accumulator = Scalar.ofNat ((storage hash).expectedChainAccumulator hash 3) := by
  have hepochs : (storage hash).epochsFrom 3 = [3] := rfl
  rw [EpochStorage.expectedChainAccumulator, hepochs, List.foldl_cons, List.foldl_nil, poseidonT3_scalar]
  rfl

end ChainSample

open Compliance (idealHash idealHash_ideal) in
open ChainSample in
/-- A note of epoch 3 in epoch 4. -/
theorem chain_binds_sample : chainUpdateMain idealHash (proof idealHash) (pub idealHash) = .ok () ∧
    (3 : UInt64).toNat + (proof idealHash).folds.length = (storage idealHash).currentEpoch.toNat ∧
    (((storage idealHash).epochsFrom 3).map (storage idealHash).frozenNullifierRoots).foldl
        (ChainProof.extend idealHash) (.genesis 0 3) =
      ⟨0, 3, 4, (storage idealHash).expectedChainAccumulator idealHash 3⟩ := by
  obtain ⟨-, hbinds⟩ := chain_binds idealHash_ideal (accepted idealHash_ideal)
  obtain ⟨hsum, -, -, hextend⟩ := hbinds (storage idealHash) 3 rfl rfl accumulator_storage
  exact ⟨accepted idealHash_ideal, hsum, hextend 0⟩

end Epochs

end Pocs
