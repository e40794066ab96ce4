import Mathlib.Data.List.TakeWhile
import Pocs.Lib.Hex
import Pocs.Bond.Ledger

/-! # The wallet of the bond

`wallet/src`: the fixed-height tree, the keys and commitments as strings, and the commands that spend a note. A string
is a list of characters, and the decimal string of a number is read back as its residue. A panic and an early return
are both `none`: the command makes no call. -/

namespace Pocs.Bond

open Compliance (BnField Word ofU64)

variable {F : Type} [BnField F]

/-! ## Strings -/

/-- `format!` of a scalar, `hex::decode` and `Fr::from_str`. -/
structure Text (F : Type) where
  display : F → List Char
  decode : List Char → Option (List UInt8)
  fromStr : List Char → Option F

/-- A scalar that fits the four limbs is printed as all its digits, and digits of either case are read. -/
structure Text.Lawful (text : Text F) : Prop where
  display : ∀ x : F, Scalar.toNat x < 2 ^ 256 →
    text.display x = ['F', 'r', '(', '0', 'x'] ++ encodeHex (beOfNat 32 (Scalar.toNat x)) ++ [')']
  decode : ∀ s, text.decode s = decodeHex nibble s

/-- `trim_start_matches` of a pattern that is not empty. -/
def trimStartMatches (pattern s : List Char) : List Char :=
  if _h : pattern ≠ [] ∧ pattern.isPrefixOf s then trimStartMatches pattern (s.drop pattern.length) else s
termination_by s.length
decreasing_by
  have hlength := (List.isPrefixOf_iff_prefix.mp _h.2).length_le
  have hpos := List.length_pos_iff.mpr _h.1
  rw [List.length_drop]
  omega

/-- `trim_end_matches` of a character. -/
def trimEndMatches (c : Char) (s : List Char) : List Char := (s.reverse.dropWhile (· = c)).reverse

/-- What is left of a string that `Fr` is printed as. -/
def clean (s : List Char) : List Char :=
  trimEndMatches ')'
    (trimStartMatches ['0', 'x'] (trimStartMatches ['F', 'r', '('] (trimStartMatches ['F', 'r', '(', '0', 'x'] s)))

section
variable (text : Text F)

def parseCommitment (s : List Char) : Option F :=
  match text.decode (clean s) with
  | some (b :: bytes) =>
    -- the last 32 bytes
    some (Scalar.ofNat (beToNat ((b :: bytes).drop ((b :: bytes).length - 32))))
  | _ => text.fromStr (clean s)

def parseFrHex (s : List Char) : F :=
  match text.decode (clean s) with
  | some (b :: bytes) => Scalar.ofNat (beToNat (b :: bytes))
  | _ => (text.fromStr (clean s)).getD 0

end

/-! ## Keys -/

structure ShieldedKeys where
  privateSpendingKeyHex : List Char
  publicSpendingKeyHex : List Char

/-- `ShieldedKeys::from_seed`, from the number that the seed is hashed to. -/
def ShieldedKeys.fromSeed (text : Text F) (hash : List F → F) (num : UInt64) : ShieldedKeys where
  privateSpendingKeyHex := text.display (ofU64 num)
  publicSpendingKeyHex := text.display (hash [ofU64 num])

section
variable (text : Text F) (hash : List F → F) (keys : ShieldedKeys)

def ShieldedKeys.getPrivateSpendingKey : F := parseFrHex text keys.privateSpendingKeyHex

def ShieldedKeys.publicSpendingKey : F := parseFrHex text keys.publicSpendingKeyHex

def ShieldedKeys.signNullifier (salt : UInt64) : F := hash [ofU64 salt, keys.getPrivateSpendingKey text]

end

/-! ## The tree -/

structure CircuitMerklePath (F : Type) where
  indices : Fin treeHeight → Bool
  elements : Fin treeHeight → F

structure FixedMerkleTree (F : Type) where
  /-- The entries of each level, from the leaves up. -/
  levels : Nat → Nat → F
  leafCount : Nat

def maxLeaves : Nat := 2 ^ treeHeight

section
variable (hash : List F → F)

def emptyLevels : Nat → Nat → F
  | 0, _ => 0
  | level + 1, i => node hash (emptyLevels level (2 * i)) (emptyLevels level (2 * i + 1))

def FixedMerkleTree.new : FixedMerkleTree F where
  levels := emptyLevels hash
  leafCount := 0

/-- A round of the loop of `update_path`, at the current index. -/
def updateLevel (state : (Nat → Nat → F) × Nat) (level : Nat) : (Nat → Nat → F) × Nat :=
  let leftIdx := state.2 - state.2 % 2
  let rightIdx := leftIdx + 1
  let parentIdx := state.2 / 2
  (Function.update state.1 (level + 1) (Function.update (state.1 (level + 1)) parentIdx
    (node hash (state.1 level leftIdx) (state.1 level rightIdx))), parentIdx)

def updatePath (levels : Nat → Nat → F) (leafIndex : Nat) : Nat → Nat → F :=
  ((List.range treeHeight).foldl (updateLevel hash) (levels, leafIndex)).1

def FixedMerkleTree.insert (tree : FixedMerkleTree F) (leaf : F) : Option (FixedMerkleTree F) :=
  if maxLeaves ≤ tree.leafCount then none
  else
    some {
      levels := updatePath hash
        (Function.update tree.levels 0 (Function.update (tree.levels 0) tree.leafCount leaf)) tree.leafCount
      leafCount := tree.leafCount + 1 }

end

def FixedMerkleTree.root (tree : FixedMerkleTree F) : F := tree.levels treeHeight 0

/-- The loop's current index at a level is the leaf's over the width below it. -/
def FixedMerkleTree.generateProof (tree : FixedMerkleTree F) (leafIndex : Nat) : Option (CircuitMerklePath F) :=
  if tree.leafCount ≤ leafIndex ∧ maxLeaves ≤ leafIndex then none
  else
    some {
      indices := fun level => leafIndex / 2 ^ level.val % 2 = 1
      elements := fun level =>
        if leafIndex / 2 ^ level.val % 2 = 1 then tree.levels level.val (leafIndex / 2 ^ level.val - 1)
        else tree.levels level.val (leafIndex / 2 ^ level.val + 1) }

/-! ## The list of commitments -/

structure TreeState where
  commitments : List (List Char)

section
variable (text : Text F) (hash : List F → F)

def TreeState.addCommitment (treeState : TreeState) (commitmentFr : F) : TreeState where
  commitments := treeState.commitments ++ [text.display commitmentFr]

def TreeState.findCommitment (treeState : TreeState) (commitmentStr : List Char) : Option Nat :=
  treeState.commitments.findIdx? (· = commitmentStr)

/-- A string that is no commitment is passed over. -/
def insertParsed (tree : FixedMerkleTree F) (commStr : List Char) : Option (FixedMerkleTree F) :=
  match parseCommitment text commStr with
  | some fr => tree.insert hash fr
  | none => some tree

def TreeState.buildTree (treeState : TreeState) : Option (FixedMerkleTree F) :=
  treeState.commitments.foldlM (insertParsed text hash) (FixedMerkleTree.new hash)

end

/-! ## The witness -/

structure CircuitNote (F : Type) where
  value : UInt64
  salt : UInt64
  owner : F
  assetId : UInt64
  maturityDate : UInt64

def CircuitNote.toNote (note : CircuitNote F) : Note F :=
  ⟨note.value, ofU64 note.salt, note.owner, ofU64 note.assetId, ofU64 note.maturityDate⟩

def CircuitNote.commitment (hash : List F → F) (note : CircuitNote F) : F :=
  hash [ofU64 note.value, ofU64 note.salt, note.owner, ofU64 note.assetId, ofU64 note.maturityDate]

structure WitnessBuilder (F : Type) where
  root : F
  nullifiers : F × F
  commitmentsOut : F × F
  inputNotes : CircuitNote F × CircuitNote F
  merklePaths : CircuitMerklePath F × CircuitMerklePath F
  outputNotes : CircuitNote F × CircuitNote F
  privateKey : F

section
variable (hash : List F → F)

def buildJoinsplitWitness (root : F) (inputNote : CircuitNote F) (inputMerklePath : CircuitMerklePath F)
    (inputNullifier : F) (dummyInput : CircuitNote F) (dummyMerklePath : CircuitMerklePath F)
    (outputNotes : CircuitNote F × CircuitNote F) (outputCommitments : F × F) (privateKey : F) : WitnessBuilder F where
  root
  nullifiers := (inputNullifier, hash [Scalar.ofNat 0, privateKey])
  commitmentsOut := outputCommitments
  inputNotes := (inputNote, dummyInput)
  merklePaths := (inputMerklePath, dummyMerklePath)
  outputNotes
  privateKey

/-- The public entries of `Prover.toml`. -/
def WitnessBuilder.toPublic (witness : WitnessBuilder F) : MainPublic F where
  root := witness.root
  nullifiers := witness.nullifiers
  commitmentsOut := witness.commitmentsOut
  inputMaturityDate := ofU64 witness.inputNotes.1.maturityDate
  outputMaturityDate := ofU64 witness.outputNotes.1.maturityDate

def WitnessBuilder.toWitness (witness : WitnessBuilder F) : MainWitness F where
  inputValues := (witness.inputNotes.1.value, witness.inputNotes.2.value)
  inputSalts := (ofU64 witness.inputNotes.1.salt, ofU64 witness.inputNotes.2.salt)
  inputOwner := witness.inputNotes.1.owner
  inputAssetId := ofU64 witness.inputNotes.1.assetId
  pathIndices := (witness.merklePaths.1.indices, witness.merklePaths.2.indices)
  pathElements := (witness.merklePaths.1.elements, witness.merklePaths.2.elements)
  outputValues := (witness.outputNotes.1.value, witness.outputNotes.2.value)
  outputSalts := (ofU64 witness.outputNotes.1.salt, ofU64 witness.outputNotes.2.salt)
  outputOwners := (witness.outputNotes.1.owner, witness.outputNotes.2.owner)
  outputAssetIds := (ofU64 witness.outputNotes.1.assetId, ofU64 witness.outputNotes.2.assetId)
  privateKey := witness.privateKey

/-- `generate_proof`: no proof unless the circuit runs through. -/
def WitnessBuilder.generateProof (witness : WitnessBuilder F) : Option (Proof F) :=
  match main hash witness.toPublic witness.toWitness with
  | .ok isRedeem => some ⟨ofU64 witness.inputNotes.1.maturityDate, ofU64 witness.outputNotes.1.maturityDate, isRedeem,
      witness.toWitness⟩
  | .error _ => none

end

/-! ## The commands -/

/-- What the commands read of a bond's file. -/
structure BondFile where
  commitment : List Char
  value : UInt64
  salt : UInt64
  owner : List Char
  assetId : UInt64
  maturityDate : UInt64

inductive Call (F : Type) where
  | transfer (args : SpendArgs F)
  | burn (args : SpendArgs F) (inputMaturityDate isRedeem : Word)

def Call.args {F : Type} : Call F → SpendArgs F
  | .transfer args => args
  | .burn args _ _ => args

def Call.run (hash : List F → F) (timestamp : Nat) (bond : PrivateBond) : Call F → Except BondError PrivateBond
  | .transfer args => bond.transfer hash args
  | .burn args inputMaturityDate isRedeem => bond.burn hash timestamp args inputMaturityDate isRedeem

section
variable (text : Text F) (hash : List F → F)

/-- `buy`, with the two random salts. -/
def buy (buyerWallet : ShieldedKeys) (buyValue : UInt64) (sourceBond : BondFile) (issuerWallet : ShieldedKeys)
    (buyerSalt changeSalt : UInt64) (treeState : TreeState) : Option (Call F) := do
  guard (buyValue < sourceBond.value)
  let issuerOwnerFr := issuerWallet.publicSpendingKey text
  let inputNote : CircuitNote F :=
    ⟨sourceBond.value, sourceBond.salt, issuerOwnerFr, sourceBond.assetId, sourceBond.maturityDate⟩
  let inputNullifierFr := issuerWallet.signNullifier text hash sourceBond.salt
  let dummyNullifierFr := issuerWallet.signNullifier text hash 0
  let buyerNote : CircuitNote F :=
    ⟨buyValue, buyerSalt, buyerWallet.publicSpendingKey text, sourceBond.assetId, sourceBond.maturityDate⟩
  let changeNote : CircuitNote F :=
    ⟨sourceBond.value - buyValue, changeSalt, issuerOwnerFr, sourceBond.assetId, sourceBond.maturityDate⟩
  let buyerCommitmentFr := buyerNote.commitment hash
  let changeCommitmentFr := changeNote.commitment hash
  let realNoteIndex ← treeState.findCommitment sourceBond.commitment
  let dummyNote : CircuitNote F := ⟨0, 0, issuerOwnerFr, sourceBond.assetId, sourceBond.maturityDate⟩
  let dummyNoteIndex ← treeState.findCommitment (text.display (dummyNote.commitment hash))
  let tree ← treeState.buildTree text hash
  let merkleRoot := tree.root
  let realNotePath ← tree.generateProof realNoteIndex
  let dummyNotePath ← tree.generateProof dummyNoteIndex
  let witness := buildJoinsplitWitness hash merkleRoot inputNote realNotePath inputNullifierFr dummyNote dummyNotePath
    (buyerNote, changeNote) (buyerCommitmentFr, changeCommitmentFr) (issuerWallet.getPrivateSpendingKey text)
  let proof ← witness.generateProof hash
  some (.transfer ⟨proof, Scalar.toNat merkleRoot, (Scalar.toNat inputNullifierFr, Scalar.toNat dummyNullifierFr),
    (Scalar.toNat buyerCommitmentFr, Scalar.toNat changeCommitmentFr)⟩)

/-- The owner that `redeem` takes from the string of the public key: eight bytes of `hex::decode` of all of it. -/
def redeemOwner (keys : ShieldedKeys) : F :=
  let ownerBytes := (text.decode keys.publicSpendingKeyHex).getD []
  Scalar.ofNat (beToNat (if 8 ≤ ownerBytes.length then ownerBytes.take 8 else List.replicate 8 0))

/-- `redeem`, at the wallet's time and with the two random salts. -/
def redeem (wallet : ShieldedKeys) (bond : BondFile) (now : Nat) (outputSalt₀ outputSalt₁ : UInt64)
    (treeState : TreeState) : Option (Call F) := do
  guard (bond.maturityDate.toNat ≤ now)
  guard (bond.owner = wallet.publicSpendingKeyHex)
  let tree ← treeState.buildTree text hash
  let merkleRoot := tree.root
  let bondIndex ← treeState.findCommitment bond.commitment
  let ownerFr := redeemOwner text wallet
  let inputNote : CircuitNote F := ⟨bond.value, bond.salt, ownerFr, bond.assetId, bond.maturityDate⟩
  let dummyNote : CircuitNote F := ⟨0, 0, ownerFr, bond.assetId, bond.maturityDate⟩
  let dummyIndex ← treeState.findCommitment (text.display (dummyNote.commitment hash))
  let bondPathProof ← tree.generateProof bondIndex
  let dummyPathProof ← tree.generateProof dummyIndex
  let nullifier := wallet.signNullifier text hash bond.salt
  let dummyNullifier := wallet.signNullifier text hash 0
  let outputNote₀ : CircuitNote F := ⟨0, outputSalt₀, ownerFr, bond.assetId, bond.maturityDate⟩
  let outputNote₁ : CircuitNote F := ⟨0, outputSalt₁, ownerFr, bond.assetId, bond.maturityDate⟩
  let commitmentOut₀ := outputNote₀.commitment hash
  let commitmentOut₁ := outputNote₁.commitment hash
  let witness := buildJoinsplitWitness hash merkleRoot inputNote bondPathProof nullifier dummyNote dummyPathProof
    (outputNote₀, outputNote₁) (commitmentOut₀, commitmentOut₁) (wallet.getPrivateSpendingKey text)
  let proof ← witness.generateProof hash
  some (.burn ⟨proof, Scalar.toNat merkleRoot, (Scalar.toNat nullifier, Scalar.toNat dummyNullifier),
    (Scalar.toNat commitmentOut₀, Scalar.toNat commitmentOut₁)⟩ bond.maturityDate.toNat 1)

end

/-! ## Strings of scalars -/

theorem trimStartMatches_append {pattern : List Char} (hne : pattern ≠ []) (s : List Char) :
    trimStartMatches pattern (pattern ++ s) = trimStartMatches pattern s := by
  rw [trimStartMatches.eq_def, dif_pos ⟨hne, List.isPrefixOf_iff_prefix.mpr (List.prefix_append _ _)⟩,
    List.drop_left]

theorem trimStartMatches_of_not {pattern s : List Char} (h : ¬ pattern <+: s) : trimStartMatches pattern s = s := by
  rw [trimStartMatches, dif_neg fun hc => h (List.isPrefixOf_iff_prefix.mp hc.2)]

theorem hexDigit_notMem {d : Nat} (hd : d < 16) : hexDigit d ∉ [')', 'F', 'x'] := by
  have hall : ∀ d < 16, hexDigit d ∉ [')', 'F', 'x'] := by decide
  exact hall d hd

/-- Neither a digit nor the bracket begins or continues a prefix. -/
theorem mem_digits {bs : List UInt8} {c : Char} (h : c ∈ encodeHex bs ++ [')']) : c ≠ 'F' ∧ c ≠ 'x' := by
  rcases List.mem_append.mp h with h | h
  · obtain ⟨d, hd, rfl⟩ := mem_encodeHex h
    have hnot := hexDigit_notMem hd
    simp only [List.mem_cons, List.not_mem_nil, or_false, not_or] at hnot
    exact hnot.2
  · rw [List.mem_singleton.mp h]
    decide

theorem clean_digits (bs : List UInt8) :
    clean (['F', 'r', '(', '0', 'x'] ++ encodeHex bs ++ [')']) = encodeHex bs := by
  have hF : ∀ rest, ¬ 'F' :: rest <+: encodeHex bs ++ [')'] := fun rest h =>
    (mem_digits (h.mem List.mem_cons_self)).1 rfl
  have hx : ¬ ['0', 'x'] <+: encodeHex bs ++ [')'] := fun h =>
    (mem_digits (h.mem (List.mem_cons_of_mem _ List.mem_cons_self))).2 rfl
  have hend : ((encodeHex bs).reverse.dropWhile (decide <| · = ')')) = (encodeHex bs).reverse := by
    refine List.dropWhile_eq_self_iff.mpr fun hl => ?_
    obtain ⟨d, hd, heq⟩ := mem_encodeHex (List.mem_reverse.mp (List.getElem_mem hl))
    rw [heq, decide_eq_true_iff]
    intro hbracket
    exact hexDigit_notMem hd (hbracket ▸ List.mem_cons_self)
  rw [clean, List.append_assoc, trimStartMatches_append (by simp), trimStartMatches_of_not (hF _),
    trimStartMatches_of_not (hF _), trimStartMatches_of_not hx, trimEndMatches, List.reverse_append,
    List.reverse_singleton, List.singleton_append, List.dropWhile_cons_of_pos (by simp), hend, List.reverse_reverse]

section
variable {text : Text F} {x : F}

theorem decode_display (hlaw : text.Lawful) (hfits : Scalar.toNat x < 2 ^ 256) :
    text.decode (clean (text.display x)) = some (beOfNat 32 (Scalar.toNat x)) := by
  rw [hlaw.decode, hlaw.display x hfits, clean_digits, decodeHex_encodeHex (@nibble_hexDigit)]

theorem beToNat_display (hfits : Scalar.toNat x < 2 ^ 256) : beToNat (beOfNat 32 (Scalar.toNat x)) = Scalar.toNat x := by
  rw [beToNat_beOfNat]
  exact Nat.mod_eq_of_lt hfits

theorem parseCommitment_display (hlaw : text.Lawful) (hfits : Scalar.toNat x < 2 ^ 256) :
    parseCommitment text (text.display x) = some x := by
  have hdecode := decode_display hlaw hfits
  have hbytes := beToNat_display hfits
  have hlength := length_beOfNat 32 (Scalar.toNat x)
  rw [parseCommitment, hdecode]
  generalize beOfNat 32 (Scalar.toNat x) = bytes at hbytes hlength
  cases bytes with
  | nil => exact absurd hlength (by decide)
  | cons b bytes =>
    show some (Scalar.ofNat (beToNat ((b :: bytes).drop ((b :: bytes).length - 32)))) = some x
    rw [hlength, Nat.sub_self, List.drop_zero, hbytes, BnField.ofNat_toNat]

theorem parseFrHex_display (hlaw : text.Lawful) (hfits : Scalar.toNat x < 2 ^ 256) :
    parseFrHex text (text.display x) = x := by
  have hdecode := decode_display hlaw hfits
  have hbytes := beToNat_display hfits
  have hlength := length_beOfNat 32 (Scalar.toNat x)
  rw [parseFrHex, hdecode]
  generalize beOfNat 32 (Scalar.toNat x) = bytes at hbytes hlength
  cases bytes with
  | nil => exact absurd hlength (by decide)
  | cons b bytes =>
    show Scalar.ofNat (beToNat (b :: bytes)) = x
    rw [hbytes, BnField.ofNat_toNat]

/-- The string of a public key is no hexadecimal string: `redeem` takes the owner to be zero. -/
theorem redeemOwner_display (hlaw : text.Lawful) (hfits : Scalar.toNat x < 2 ^ 256) {keys : ShieldedKeys}
    (hkeys : keys.publicSpendingKeyHex = text.display x) : redeemOwner text keys = 0 := by
  have hdecode : text.decode keys.publicSpendingKeyHex = none := by
    rw [hlaw.decode, hkeys, hlaw.display x hfits]
    have hr : nibble 'r' = none := by decide
    simp [decodeHex, hr]
  rw [redeemOwner, hdecode]
  show Scalar.ofNat (beToNat (List.replicate 8 0)) = (0 : F)
  rw [beToNat_replicate_zero]
  rfl

end

/-! ## The tree over its leaves -/

section
variable {hash : List F → F}

/-- The levels are those of the tree over the leaves and zeros. -/
structure FixedMerkleTree.Holds (hash : List F → F) (tree : FixedMerkleTree F) (leaves : List F) : Prop where
  levels : ∀ k ≤ treeHeight, ∀ j, tree.levels k j = Merkle.nodeAt (node hash) (leaves.getD · 0) k j
  leafCount : tree.leafCount = leaves.length

/-- Up to level `n` the levels have the new leaf under them. -/
structure Updated (hash : List F → F) (f f' : Nat → F) (leafIndex n : Nat) (state : (Nat → Nat → F) × Nat) :
    Prop where
  below : ∀ k ≤ n, ∀ j, state.1 k j = Merkle.nodeAt (node hash) f' k j
  above : ∀ k, n < k → k ≤ treeHeight → ∀ j, state.1 k j = Merkle.nodeAt (node hash) f k j
  currentIndex : state.2 = leafIndex / 2 ^ n

omit [BnField F] in
theorem Updated.updateLevel {f : Nat → F} {leaf : F} {leafIndex n : Nat} {state : (Nat → Nat → F) × Nat}
    (h : Updated hash f (Function.update f leafIndex leaf) leafIndex n state) (hn : n < treeHeight) :
    Updated hash f (Function.update f leafIndex leaf) leafIndex (n + 1) (updateLevel hash state n) := by
  have hindex : state.2 / 2 = leafIndex / 2 ^ (n + 1) := by
    rw [h.currentIndex, Nat.div_div_eq_div_mul, Nat.pow_succ]
  refine ⟨fun k hk j => ?_, fun k hk hheight j => ?_, hindex⟩
  · rcases Nat.lt_or_eq_of_le hk with hlt | rfl
    · show Function.update state.1 (n + 1) _ k j = _
      rw [Function.update_of_ne (Nat.ne_of_lt hlt)]
      exact h.below k (Nat.le_of_lt_succ hlt) j
    · show Function.update state.1 (n + 1) _ (n + 1) j = _
      rw [Function.update_self]
      rcases eq_or_ne j (state.2 / 2) with rfl | hne
      · have hleft : state.2 - state.2 % 2 = 2 * (state.2 / 2) := by omega
        rw [Function.update_self, hleft, h.below n (Nat.le_refl n), h.below n (Nat.le_refl n)]
        rfl
      · rw [Function.update_of_ne hne, h.above (n + 1) (Nat.lt_succ_self n) hn, Merkle.nodeAt_update_of_ne]
        rw [← hindex]
        exact hne.symm
  · show Function.update state.1 (n + 1) _ k j = _
    rw [Function.update_of_ne (Nat.ne_of_gt hk)]
    exact h.above k (Nat.lt_of_succ_lt hk) hheight j

omit [BnField F] in
theorem updatePath_spec {levels : Nat → Nat → F} {f : Nat → F}
    (h : ∀ k ≤ treeHeight, ∀ j, levels k j = Merkle.nodeAt (node hash) f k j) (leafIndex : Nat) (leaf : F) :
    ∀ k ≤ treeHeight, ∀ j, updatePath hash (Function.update levels 0 (Function.update (levels 0) leafIndex leaf))
      leafIndex k j = Merkle.nodeAt (node hash) (Function.update f leafIndex leaf) k j := by
  have hleaves : levels 0 = f := funext (h 0 (Nat.zero_le _))
  have hloop : ∀ n ≤ treeHeight, Updated hash f (Function.update f leafIndex leaf) leafIndex n
      ((List.range n).foldl (updateLevel hash)
        (Function.update levels 0 (Function.update (levels 0) leafIndex leaf), leafIndex)) := by
    intro n
    induction n with
    | zero =>
      intro _
      refine ⟨fun k hk j => ?_, fun k hk hheight j => ?_, (Nat.div_one _).symm⟩
      · obtain rfl := Nat.le_zero.mp hk
        show Function.update levels 0 _ 0 j = _
        rw [Function.update_self, hleaves]
        rfl
      · show Function.update levels 0 _ k j = _
        rw [Function.update_of_ne (Nat.ne_of_gt hk)]
        exact h k hheight j
    | succ n ih =>
      intro hn
      rw [List.range_succ, List.foldl_append]
      exact (ih (Nat.le_of_succ_le hn)).updateLevel hn
  exact (hloop treeHeight (Nat.le_refl _)).below

namespace FixedMerkleTree

theorem holds_new : (FixedMerkleTree.new hash).Holds hash [] := by
  refine ⟨fun k _ j => ?_, rfl⟩
  show emptyLevels hash k j = _
  induction k generalizing j with
  | zero => rfl
  | succ k ih =>
    rw [emptyLevels, ih (by omega), ih (by omega)]
    rfl

variable {tree : FixedMerkleTree F} {leaves : List F}

theorem Holds.insert (h : tree.Holds hash leaves) (hroom : leaves.length < maxLeaves) (leaf : F) :
    ∃ tree', tree.insert hash leaf = some tree' ∧ tree'.Holds hash (leaves ++ [leaf]) := by
  refine ⟨_, if_neg (by rw [h.leafCount]; exact not_le.mpr hroom), fun k hk j => ?_, ?_⟩
  · show updatePath hash _ tree.leafCount k j = _
    rw [updatePath_spec h.levels _ _ k hk, h.leafCount, Merkle.getD_concat]
  · show tree.leafCount + 1 = _
    rw [h.leafCount, List.length_append, List.length_singleton]

theorem Holds.root_eq (h : tree.Holds hash leaves) :
    tree.root = Merkle.nodeAt (node hash) (leaves.getD · 0) treeHeight 0 := h.levels treeHeight (Nat.le_refl _) 0

/-- The path of a leaf folds to the root. -/
theorem Holds.generateProof (h : tree.Holds hash leaves) {leafIndex : Nat} (hindex : leafIndex < leaves.length)
    (hroom : leaves.length ≤ maxLeaves) : ∃ path, tree.generateProof leafIndex = some path ∧
      Merkle.foldPath (node hash) (leaves.getD leafIndex 0) (Merkle.arrayPath path.indices path.elements) =
        tree.root := by
  refine ⟨_, if_neg fun hc => by rw [h.leafCount] at hc; omega, ?_⟩
  have hpath : Merkle.arrayPath (fun level : Fin treeHeight => decide (leafIndex / 2 ^ level.val % 2 = 1))
      (fun level : Fin treeHeight =>
        if leafIndex / 2 ^ level.val % 2 = 1 then tree.levels level.val (leafIndex / 2 ^ level.val - 1)
        else tree.levels level.val (leafIndex / 2 ^ level.val + 1)) =
      Merkle.pathAt (node hash) (leaves.getD · 0) 0 treeHeight leafIndex := by
    rw [← Merkle.arrayPath_pathAt]
    refine congr (congrArg _ (funext fun level => ?_)) (funext fun level => ?_)
    · rw [Nat.shiftRight_eq_div_pow, Nat.and_one_is_mod]
      exact (Bool.beq_eq_decide_eq _ _).symm
    · rw [Nat.shiftRight_eq_div_pow, Merkle.sibling, h.levels _ level.isLt.le, h.levels _ level.isLt.le]
      rcases Nat.mod_two_eq_zero_or_one (leafIndex / 2 ^ level.val) with heven | hodd
      · rw [if_neg (by omega), if_pos heven]
      · rw [if_pos hodd, if_neg (by omega)]
  rw [hpath, h.root_eq]
  have hfold := @Merkle.foldPath_pathAt _ (node hash) (leaves.getD · 0) 0 treeHeight leafIndex
  have hzero : leafIndex / 2 ^ treeHeight = 0 := Nat.div_eq_of_lt (hindex.trans_le hroom)
  rw [Nat.zero_add, hzero] at hfold
  exact hfold

end FixedMerkleTree

variable {text : Text F}

/-- The tree is built over the commitments whose strings are listed. -/
theorem buildTree_of_display (hlaw : text.Lawful) {treeState : TreeState} {leaves : List F}
    (hstrings : treeState.commitments = leaves.map text.display) (hfits : ∀ leaf ∈ leaves, Scalar.toNat leaf < 2 ^ 256)
    (hroom : leaves.length ≤ maxLeaves) :
    ∃ tree, treeState.buildTree text hash = some tree ∧ tree.Holds hash leaves := by
  have hloop : ∀ (rest : List F) (tree : FixedMerkleTree F) (before : List F), tree.Holds hash before →
      (∀ leaf ∈ rest, Scalar.toNat leaf < 2 ^ 256) → (before ++ rest).length ≤ maxLeaves →
      ∃ tree', (rest.map text.display).foldlM (insertParsed text hash) tree = some tree' ∧
        tree'.Holds hash (before ++ rest) := by
    intro rest
    induction rest with
    | nil =>
      intro tree before h _ _
      rw [List.append_nil]
      exact ⟨tree, rfl, h⟩
    | cons leaf rest ih =>
      intro tree before h hfits hroom
      obtain ⟨hleaf, hrest⟩ := List.forall_mem_cons.mp hfits
      rw [List.append_cons] at hroom ⊢
      have hbefore : before.length < maxLeaves := by
        rw [List.length_append, List.length_append, List.length_singleton] at hroom
        omega
      obtain ⟨tree', hinsert, h'⟩ := h.insert hbefore leaf
      obtain ⟨tree'', hfold, h''⟩ := ih tree' (before ++ [leaf]) h' hrest hroom
      refine ⟨tree'', ?_, h''⟩
      rw [List.map_cons, List.foldlM_cons, insertParsed, parseCommitment_display hlaw hleaf]
      show (tree.insert hash leaf >>= _) = _
      rw [hinsert]
      exact hfold
  rw [TreeState.buildTree, hstrings]
  exact hloop leaves (FixedMerkleTree.new hash) [] FixedMerkleTree.holds_new hfits hroom

/-- A string of the list is found at the index of its leaf. -/
theorem exists_findCommitment {treeState : TreeState} {leaves : List F}
    (hstrings : treeState.commitments = leaves.map text.display) (hlaw : text.Lawful)
    (hfits : ∀ leaf ∈ leaves, Scalar.toNat leaf < 2 ^ 256) {leaf : F} (hleaf : leaf ∈ leaves) :
    ∃ i, treeState.findCommitment (text.display leaf) = some i ∧ i < leaves.length ∧ leaves.getD i 0 = leaf := by
  have hmem : text.display leaf ∈ treeState.commitments := by
    rw [hstrings]
    exact List.mem_map_of_mem hleaf
  have hsome : (treeState.findCommitment (text.display leaf)).isSome = true := by
    rw [TreeState.findCommitment, List.findIdx?_isSome]
    exact List.any_eq_true.mpr ⟨_, hmem, decide_eq_true rfl⟩
  obtain ⟨i, hi⟩ := Option.isSome_iff_exists.mp hsome
  obtain ⟨hlt, heq, -⟩ := List.findIdx?_eq_some_iff_getElem.mp hi
  have hlt' : i < leaves.length := by
    rw [hstrings, List.length_map] at hlt
    exact hlt
  refine ⟨i, hi, hlt', ?_⟩
  rw [List.getD_eq_getElem _ _ hlt']
  have hsame : text.display leaves[i] = text.display leaf := by
    simpa [hstrings] using heq
  -- what is printed alike is read alike
  have hparsed := parseCommitment_display hlaw (hfits _ (List.getElem_mem hlt'))
  rw [hsame, parseCommitment_display hlaw (hfits _ hleaf)] at hparsed
  exact (Option.some.inj hparsed).symm

end

end Pocs.Bond
