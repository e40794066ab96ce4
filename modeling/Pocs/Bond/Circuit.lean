import Pocs.Swap.Circuit

/-! # The JoinSplit circuit of the bond

`circuits/src/main.nr`: two notes of one owner are spent for two new ones. The arrays of two are pairs, and Poseidon is
a parameter on lists, the number of arguments picking the permutation. -/

namespace Pocs.Bond

open Compliance (BnField ofU64 u64Add u64Add_eq_ok)
open Swap (noirAssert noirAssert_eq_ok)

variable {F : Type} [BnField F]

def treeHeight : Nat := 3

/-- Hashes of one to five arguments are collision free with disjoint ranges. -/
structure Separated (hash : List F → F) : Prop where
  inj : ∀ {xs ys : List F}, xs ≠ [] → xs.length ≤ 5 → ys ≠ [] → ys.length ≤ 5 → hash xs = hash ys → xs = ys

/-! ## Notes -/

structure Note (F : Type) where
  value : UInt64
  salt : F
  owner : F
  assetId : F
  maturityDate : F

section
variable (hash : List F → F)

def noteCommit (value salt owner assetId maturityDate : F) : F := hash [value, salt, owner, assetId, maturityDate]

def noteNullifier (salt privateKey : F) : F := hash [salt, privateKey]

def Note.commitment (note : Note F) : F :=
  noteCommit hash (ofU64 note.value) note.salt note.owner note.assetId note.maturityDate

def node (left right : F) : F := hash [left, right]

def verifyMerkleProof (leaf root : F) (pathIndices : Fin treeHeight → Bool) (pathElements : Fin treeHeight → F) :
    Except String Unit := do
  let current := (List.finRange treeHeight).foldl
    (fun current i => if pathIndices i then hash [pathElements i, current] else hash [current, pathElements i]) leaf
  noirAssert (current = root)

/-! ## `main` -/

structure MainPublic (F : Type) where
  root : F
  nullifiers : F × F
  commitmentsOut : F × F
  inputMaturityDate : F
  outputMaturityDate : F

structure MainWitness (F : Type) where
  inputValues : UInt64 × UInt64
  inputSalts : F × F
  inputOwner : F
  inputAssetId : F
  pathIndices : (Fin treeHeight → Bool) × (Fin treeHeight → Bool)
  pathElements : (Fin treeHeight → F) × (Fin treeHeight → F)
  outputValues : UInt64 × UInt64
  outputSalts : F × F
  outputOwners : F × F
  outputAssetIds : F × F
  privateKey : F

/-- A round of the loop over the inputs, on the total so far. -/
def assertInput (root privateKey : F) (note : Note F) (pathIndices : Fin treeHeight → Bool)
    (pathElements : Fin treeHeight → F) (nullifier : F) (totalInputValue : UInt64) : Except String UInt64 := do
  verifyMerkleProof hash (note.commitment hash) root pathIndices pathElements
  noirAssert (noteNullifier hash note.salt privateKey = nullifier)
  u64Add totalInputValue note.value

def assertOutput (inputAssetId : F) (note : Note F) (commitmentOut : F) (totalOutputValue : UInt64) :
    Except String UInt64 := do
  noirAssert (note.commitment hash = commitmentOut)
  let totalOutputValue ← u64Add totalOutputValue note.value
  noirAssert (note.assetId = inputAssetId)
  pure totalOutputValue

end

section
variable {F : Type} (maturityDate : F) (wit : MainWitness F)

def input₀ : Note F :=
  ⟨wit.inputValues.1, wit.inputSalts.1, wit.inputOwner, wit.inputAssetId, maturityDate⟩
def input₁ : Note F :=
  ⟨wit.inputValues.2, wit.inputSalts.2, wit.inputOwner, wit.inputAssetId, maturityDate⟩
def output₀ : Note F :=
  ⟨wit.outputValues.1, wit.outputSalts.1, wit.outputOwners.1, wit.outputAssetIds.1, maturityDate⟩
def output₁ : Note F :=
  ⟨wit.outputValues.2, wit.outputSalts.2, wit.outputOwners.2, wit.outputAssetIds.2, maturityDate⟩

end

/-- The result says whether the outputs have no value. -/
def main (hash : List F → F) (pub : MainPublic F) (wit : MainWitness F) : Except String Bool := do
  let total ← assertInput hash pub.root wit.privateKey (input₀ pub.inputMaturityDate wit) wit.pathIndices.1 wit.pathElements.1
    pub.nullifiers.1 0
  let totalInputValue ← assertInput hash pub.root wit.privateKey (input₁ pub.inputMaturityDate wit) wit.pathIndices.2
    wit.pathElements.2 pub.nullifiers.2 total
  let total ← assertOutput hash wit.inputAssetId (output₀ pub.outputMaturityDate wit) pub.commitmentsOut.1 0
  let totalOutputValue ← assertOutput hash wit.inputAssetId (output₁ pub.outputMaturityDate wit) pub.commitmentsOut.2 total
  noirAssert (totalInputValue = totalOutputValue)
  noirAssert (pub.inputMaturityDate = pub.outputMaturityDate)
  noirAssert (wit.inputOwner = hash [wit.privateKey])
  pure (totalOutputValue = 0)

/-! ## What the circuit says -/

structure Satisfied (hash : List F → F) (pub : MainPublic F) (wit : MainWitness F) (isRedeem : Bool) : Prop where
  included₀ : Merkle.foldPath (node hash) ((input₀ pub.inputMaturityDate wit).commitment hash)
    (Merkle.arrayPath wit.pathIndices.1 wit.pathElements.1) = pub.root
  included₁ : Merkle.foldPath (node hash) ((input₁ pub.inputMaturityDate wit).commitment hash)
    (Merkle.arrayPath wit.pathIndices.2 wit.pathElements.2) = pub.root
  nullifier₀ : noteNullifier hash wit.inputSalts.1 wit.privateKey = pub.nullifiers.1
  nullifier₁ : noteNullifier hash wit.inputSalts.2 wit.privateKey = pub.nullifiers.2
  inputFits : wit.inputValues.1.toNat + wit.inputValues.2.toNat < 2 ^ 64
  created₀ : (output₀ pub.outputMaturityDate wit).commitment hash = pub.commitmentsOut.1
  created₁ : (output₁ pub.outputMaturityDate wit).commitment hash = pub.commitmentsOut.2
  asset₀ : wit.outputAssetIds.1 = wit.inputAssetId
  asset₁ : wit.outputAssetIds.2 = wit.inputAssetId
  balance : wit.inputValues.1.toNat + wit.inputValues.2.toNat =
    wit.outputValues.1.toNat + wit.outputValues.2.toNat
  maturity : pub.inputMaturityDate = pub.outputMaturityDate
  owner : wit.inputOwner = hash [wit.privateKey]
  isRedeem : isRedeem = decide (wit.outputValues.1 = 0 ∧ wit.outputValues.2 = 0)

variable {hash : List F → F} {pub : MainPublic F} {wit : MainWitness F} {isRedeem : Bool}

theorem verifyMerkleProof_eq_ok {leaf root : F} {pathIndices : Fin treeHeight → Bool}
    {pathElements : Fin treeHeight → F} {u : Unit} :
    verifyMerkleProof hash leaf root pathIndices pathElements = .ok u ↔
      Merkle.foldPath (node hash) leaf (Merkle.arrayPath pathIndices pathElements) = root := by
  rw [← Merkle.foldl_eq_foldPath]
  exact noirAssert_eq_ok

theorem assertInput_eq_ok {root privateKey nullifier : F} {note : Note F} {pathIndices : Fin treeHeight → Bool}
    {pathElements : Fin treeHeight → F} {total total' : UInt64} :
    assertInput hash root privateKey note pathIndices pathElements nullifier total = .ok total' ↔
      Merkle.foldPath (node hash) (note.commitment hash) (Merkle.arrayPath pathIndices pathElements) = root ∧
        noteNullifier hash note.salt privateKey = nullifier ∧ total.toNat + note.value.toNat < 2 ^ 64 ∧
        total + note.value = total' := by
  simp only [assertInput, bind_eq_ok, verifyMerkleProof_eq_ok, noirAssert_eq_ok, u64Add_eq_ok, exists_and_left,
    exists_const]

theorem assertOutput_eq_ok {inputAssetId commitmentOut : F} {note : Note F} {total total' : UInt64} :
    assertOutput hash inputAssetId note commitmentOut total = .ok total' ↔
      note.commitment hash = commitmentOut ∧ total.toNat + note.value.toNat < 2 ^ 64 ∧
        note.assetId = inputAssetId ∧ total + note.value = total' := by
  simp only [assertOutput, bind_eq_ok, noirAssert_eq_ok, u64Add_eq_ok, pure_eq_ok, exists_and_left, exists_const]
  constructor
  · rintro ⟨hcommitment, sum, ⟨hfits, rfl⟩, hasset, rfl⟩
    exact ⟨hcommitment, hfits, hasset, rfl⟩
  · rintro ⟨hcommitment, hfits, hasset, rfl⟩
    exact ⟨hcommitment, _, ⟨hfits, rfl⟩, hasset, rfl⟩

/-- A sum that fits has no value only if the summands have none. -/
theorem add_eq_zero_iff {a b : UInt64} (hfits : a.toNat + b.toNat < 2 ^ 64) : a + b = 0 ↔ a = 0 ∧ b = 0 := by
  rw [← UInt64.toNat_inj, ← UInt64.toNat_inj, ← UInt64.toNat_inj, UInt64.toNat_add, Nat.mod_eq_of_lt hfits,
    UInt64.toNat_zero]
  exact Nat.add_eq_zero_iff

theorem add_eq_add_iff {a b c d : UInt64} (hab : a.toNat + b.toNat < 2 ^ 64) (hcd : c.toNat + d.toNat < 2 ^ 64) :
    a + b = c + d ↔ a.toNat + b.toNat = c.toNat + d.toNat := by
  rw [← UInt64.toNat_inj, UInt64.toNat_add, UInt64.toNat_add, Nat.mod_eq_of_lt hab, Nat.mod_eq_of_lt hcd]

theorem main_eq_ok : main hash pub wit = .ok isRedeem ↔ Satisfied hash pub wit isRedeem := by
  simp only [main, bind_eq_ok, noirAssert_eq_ok, assertInput_eq_ok, assertOutput_eq_ok, pure_eq_ok, exists_and_left,
    exists_const]
  constructor
  · rintro ⟨total, ⟨hincluded₀, hnullifier₀, -, rfl⟩, total, ⟨hincluded₁, hnullifier₁, hinput, rfl⟩, total,
      ⟨hcreated₀, -, hasset₀, rfl⟩, total, ⟨hcreated₁, houtput, hasset₁, rfl⟩, hbalance, hmaturity, howner, rfl⟩
    rw [UInt64.zero_add] at hinput houtput hbalance
    rw [UInt64.zero_add] at hbalance
    refine ⟨hincluded₀, hincluded₁, hnullifier₀, hnullifier₁, hinput, hcreated₀, hcreated₁, hasset₀, hasset₁,
      (add_eq_add_iff hinput houtput).mp hbalance, hmaturity, howner, ?_⟩
    rw [UInt64.zero_add]
    exact decide_eq_decide.mpr (add_eq_zero_iff houtput)
  · intro h
    have houtput : (0 + wit.outputValues.1).toNat + wit.outputValues.2.toNat < 2 ^ 64 := by
      rw [UInt64.zero_add, ← h.balance]
      exact h.inputFits
    have hfits : ∀ a : UInt64, (0 : UInt64).toNat + a.toNat < 2 ^ 64 := fun a => by
      rw [UInt64.toNat_zero, Nat.zero_add]
      exact a.toNat_lt
    refine ⟨_, ⟨h.included₀, h.nullifier₀, hfits _, rfl⟩, _, ⟨h.included₁, h.nullifier₁, ?_, rfl⟩, _,
      ⟨h.created₀, hfits _, h.asset₀, rfl⟩, _, ⟨h.created₁, houtput, h.asset₁, rfl⟩, ?_, h.maturity, h.owner, ?_⟩
    · rw [UInt64.zero_add]
      exact h.inputFits
    · rw [UInt64.zero_add] at houtput ⊢
      rw [UInt64.zero_add]
      exact (add_eq_add_iff h.inputFits houtput).mpr h.balance
    · rw [UInt64.zero_add] at houtput ⊢
      rw [h.isRedeem]
      exact decide_eq_decide.mpr (add_eq_zero_iff houtput)

/-! ## What identifies a note -/

theorem commitment_inj (H : Separated hash) {note note' : Note F}
    (h : note.commitment hash = note'.commitment hash) : note = note' := by
  have hfields := H.inj (by simp) (by simp) (by simp) (by simp) h
  simp only [List.cons.injEq, and_true] at hfields
  obtain ⟨hvalue, hsalt, howner, hasset, hmaturity⟩ := hfields
  cases note
  cases note'
  cases Compliance.ofU64_inj hvalue
  cases hsalt
  cases howner
  cases hasset
  cases hmaturity
  rfl

theorem commitment_ne_node (H : Separated hash) (note : Note F) (l r : F) :
    note.commitment hash ≠ node hash l r := fun h =>
  absurd (congrArg List.length (H.inj (by simp) (by simp) (by simp) (by simp) h)) (by simp)

omit [BnField F] in
theorem node_inj (H : Separated hash) : Function.Injective2 (node hash) := by
  intro l r l' r' h
  have hfields := H.inj (by simp) (by simp) (by simp) (by simp) h
  simp only [List.cons.injEq, and_true] at hfields
  exact hfields

def Note.hasNullifier (hash : List F → F) (note : Note F) (nullifier : F) : Prop :=
  ∃ privateKey, note.owner = hash [privateKey] ∧ noteNullifier hash note.salt privateKey = nullifier

omit [BnField F] in
theorem nullifier_unique (H : Separated hash) {note : Note F} {nullifier nullifier' : F}
    (h : note.hasNullifier hash nullifier) (h' : note.hasNullifier hash nullifier') : nullifier = nullifier' := by
  obtain ⟨privateKey, howner, rfl⟩ := h
  obtain ⟨privateKey', howner', rfl⟩ := h'
  have hkey := H.inj (by simp) (by simp) (by simp) (by simp) (howner.symm.trans howner')
  simp only [List.cons.injEq, and_true] at hkey
  rw [hkey]

theorem Satisfied.hasNullifier₀ (h : Satisfied hash pub wit isRedeem) :
    (input₀ pub.inputMaturityDate wit).hasNullifier hash pub.nullifiers.1 := ⟨_, h.owner, h.nullifier₀⟩

theorem Satisfied.hasNullifier₁ (h : Satisfied hash pub wit isRedeem) :
    (input₁ pub.inputMaturityDate wit).hasNullifier hash pub.nullifiers.2 := ⟨_, h.owner, h.nullifier₁⟩

end Pocs.Bond
