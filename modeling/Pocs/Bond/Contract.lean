import Pocs.Lib.Method
import Pocs.Bond.Circuit

/-! # The bond contract

`PrivateBond.sol`. A call is a function on the storage; a revert undoes all of it. The contract keeps and compares
words, of which the verifier and `PoseidonT3` take the residues. -/

namespace Pocs.Bond

open Compliance (BnField Word Address)

variable {F : Type} [BnField F]

structure PrivateBond where
  commitments : List Word
  knownRoots : Word → Bool
  nullifiers : Word → Bool
  owner : Address

inductive BondError where
  | revert (reason : String)
  | ownableUnauthorizedAccount (account : Address)
  /-- An index out of bounds. -/
  | panic
deriving DecidableEq, Repr

/-! ## The verifier -/

/-- A proof, by the public values that the contract does not send and the witness it was made from. -/
structure Proof (F : Type) where
  inputMaturityDate : F
  outputMaturityDate : F
  isRedeem : Bool
  witness : MainWitness F

def Proof.toPublic (proof : Proof F) (root n₀ n₁ c₀ c₁ : Word) : MainPublic F where
  root := Scalar.ofNat root
  nullifiers := (Scalar.ofNat n₀, Scalar.ofNat n₁)
  commitmentsOut := (Scalar.ofNat c₀, Scalar.ofNat c₁)
  inputMaturityDate := proof.inputMaturityDate
  outputMaturityDate := proof.outputMaturityDate

def Proof.Proves (hash : List F → F) (proof : Proof F) (root n₀ n₁ c₀ c₁ : Word) : Prop :=
  main hash (proof.toPublic root n₀ n₁ c₀ c₁) proof.witness = .ok proof.isRedeem

instance (hash : List F → F) (proof : Proof F) (root n₀ n₁ c₀ c₁ : Word) :
    Decidable (proof.Proves hash root n₀ n₁ c₀ c₁) := inferInstanceAs (Decidable (main _ _ _ = _))

/-- `verifier.verify` on five words. -/
def verify (hash : List F → F) (proof : Proof F) : List Word → Bool
  | [root, n₀, n₁, c₀, c₁] => proof.Proves hash root n₀ n₁ c₀ c₁
  | _ => false

/-! ## The tree -/

section
variable (hash : List F → F)

def poseidonHash (left right : Word) : Word := Scalar.toNat (hash [Scalar.ofNat left, Scalar.ofNat right])

/-- The nodes above a level; the last one of an odd number is its own sibling. -/
def nextLevel : List Word → List Word
  | left :: right :: rest => poseidonHash hash left right :: nextLevel rest
  | [left] => [poseidonHash hash left left]
  | [] => []

theorem length_nextLevel : ∀ level : List Word, (nextLevel hash level).length = (level.length + 1) / 2
  | left :: right :: rest => by
    rw [nextLevel, List.length_cons, length_nextLevel rest, List.length_cons, List.length_cons]
    omega
  | [left] => by simp [nextLevel]
  | [] => by simp [nextLevel]

/-- The loop over the levels, down to a level of one node. -/
def rootOfLevel : List Word → Word
  | left :: right :: rest => rootOfLevel (nextLevel hash (left :: right :: rest))
  | [root] => root
  | [] => 0
termination_by level => level.length
decreasing_by
  rw [length_nextLevel, List.length_cons, List.length_cons]
  omega

def buildMerkleRoot (commitments : List Word) : Except BondError Word := do
  failIf (commitments.length = 0) (.revert "No commitments provided")
  pure (rootOfLevel hash commitments)

/-! ## The calls -/

variable (bond : PrivateBond)

def PrivateBond.new (initialOwner : Address) : PrivateBond where
  commitments := []
  knownRoots _ := false
  nullifiers _ := false
  owner := initialOwner

/-- `commitments.push` for each, and the new root. -/
def PrivateBond.push (commitments : List Word) : Except BondError PrivateBond := do
  let commitments := bond.commitments ++ commitments
  let newRoot ← buildMerkleRoot hash commitments
  pure { bond with commitments, knownRoots := Function.update bond.knownRoots newRoot true }

/-- `nullifiers[...] = true` for both. -/
def PrivateBond.spend (nullifiersIn : Word × Word) : PrivateBond where
  commitments := bond.commitments
  knownRoots := bond.knownRoots
  nullifiers := Function.update (Function.update bond.nullifiers nullifiersIn.1 true) nullifiersIn.2 true
  owner := bond.owner

def PrivateBond.onlyOwner (sender : Address) : Except BondError Unit :=
  failIf (sender ≠ bond.owner) (.ownableUnauthorizedAccount sender)

def PrivateBond.mint (sender : Address) (commitment : Word) : Except BondError PrivateBond := do
  bond.onlyOwner sender
  bond.push hash [commitment]

def PrivateBond.mintBatch (sender : Address) (commitments : List Word) : Except BondError PrivateBond := do
  bond.onlyOwner sender
  bond.push hash commitments

structure SpendArgs (F : Type) where
  proof : Proof F
  root : Word
  nullifiersIn : Word × Word
  commitmentsOut : Word × Word

def SpendArgs.publicInputs {F : Type} (args : SpendArgs F) : List Word :=
  [args.root, args.nullifiersIn.1, args.nullifiersIn.2, args.commitmentsOut.1, args.commitmentsOut.2]

/-- The first checks of `transfer` and of `burn`. -/
def PrivateBond.checkInputs (args : SpendArgs F) : Except BondError Unit := do
  failIf (bond.knownRoots args.root = false) (.revert "Invalid Merkle Root")
  failIf (bond.nullifiers args.nullifiersIn.1 = true) (.revert "Note 0 already spent")
  failIf (bond.nullifiers args.nullifiersIn.2 = true) (.revert "Note 1 already spent")
  failIf (args.nullifiersIn.1 = args.nullifiersIn.2) (.revert "Identical nullifiers")

def PrivateBond.transfer (args : SpendArgs F) : Except BondError PrivateBond := do
  bond.checkInputs args
  failIf (verify hash args.proof args.publicInputs = false) (.revert "Invalid Transfer Proof")
  (bond.spend args.nullifiersIn).push hash [args.commitmentsOut.1, args.commitmentsOut.2]

def PrivateBond.burn (timestamp : Nat) (args : SpendArgs F) (inputMaturityDate isRedeem : Word) :
    Except BondError PrivateBond := do
  bond.checkInputs args
  failIf (timestamp < inputMaturityDate) (.revert "Bond not at maturity yet")
  failIf (isRedeem ≠ 1) (.revert "Output notes must have 0 value for redemption")
  failIf (verify hash args.proof args.publicInputs = false) (.revert "Invalid Burn Proof")
  (bond.spend args.nullifiersIn).push hash [args.commitmentsOut.1, args.commitmentsOut.2]

def word (publicInputs : List Word) (i : Nat) : Except BondError Word := okOr publicInputs[i]? .panic

def PrivateBond.atomicSwap (timestamp : Nat) (sender : Address) (proofA : Proof F) (publicInputsA : List Word)
    (proofB : Proof F) (publicInputsB : List Word) : Except BondError PrivateBond := do
  bond.onlyOwner sender
  let maturityA ← word publicInputsA 3
  failIf (maturityA ≤ timestamp) (.revert "Bond A already matured")
  let maturityB ← word publicInputsB 3
  failIf (maturityB ≤ timestamp) (.revert "Bond B already matured")
  failIf (verify hash proofA publicInputsA = false) (.revert "Invalid Transfer Proof A")
  failIf (verify hash proofB publicInputsB = false) (.revert "Invalid Transfer Proof B")
  let rootA ← word publicInputsA 0
  failIf (bond.knownRoots rootA = false) (.revert "Invalid Merkle Root A")
  let rootB ← word publicInputsB 0
  failIf (bond.knownRoots rootB = false) (.revert "Invalid Merkle Root B")
  let nullifierA ← word publicInputsA 1
  let nullifierB ← word publicInputsB 1
  failIf (bond.nullifiers nullifierA = true) (.revert "Note A already spent")
  failIf (bond.nullifiers nullifierB = true) (.revert "Note B already spent")
  failIf (nullifierA = nullifierB) (.revert "Identical nullifiers")
  let commitmentA ← word publicInputsA 2
  let commitmentB ← word publicInputsB 2
  (bond.spend (nullifierA, nullifierB)).push hash [commitmentA, commitmentB]

end

/-! ## What a successful call does -/

/-- The commitments are pushed, and the root over all of them is known. -/
structure Pushed (hash : List F → F) (bond : PrivateBond) (commitments : List Word) (bond' : PrivateBond) : Prop where
  commitments : bond'.commitments = bond.commitments ++ commitments
  nonempty : bond'.commitments ≠ []
  knownRoots : bond'.knownRoots = Function.update bond.knownRoots (rootOfLevel hash bond'.commitments) true
  nullifiers : bond'.nullifiers = bond.nullifiers
  owner : bond'.owner = bond.owner

structure Spent (hash : List F → F) (bond : PrivateBond) (args : SpendArgs F) (bond' : PrivateBond) : Prop where
  root : bond.knownRoots args.root = true
  fresh₀ : bond.nullifiers args.nullifiersIn.1 = false
  fresh₁ : bond.nullifiers args.nullifiersIn.2 = false
  distinct : args.nullifiersIn.1 ≠ args.nullifiersIn.2
  proves : args.proof.Proves hash args.root args.nullifiersIn.1 args.nullifiersIn.2 args.commitmentsOut.1
    args.commitmentsOut.2
  pushed : Pushed hash (bond.spend args.nullifiersIn) [args.commitmentsOut.1, args.commitmentsOut.2] bond'

/-- One side of a swap, by the five words of its array. -/
structure SwapSide (hash : List F → F) (bond : PrivateBond) (timestamp : Nat) (proof : Proof F)
    (publicInputs : List Word) (nullifier commitment : Word) : Prop where
  words : ∃ root c₀ c₁, publicInputs = [root, nullifier, commitment, c₀, c₁] ∧ timestamp < c₀ ∧
    bond.knownRoots root = true ∧ proof.Proves hash root nullifier commitment c₀ c₁
  fresh : bond.nullifiers nullifier = false

structure Swapped (hash : List F → F) (bond : PrivateBond) (timestamp : Nat) (proofA : Proof F)
    (publicInputsA : List Word) (proofB : Proof F) (publicInputsB : List Word) (bond' : PrivateBond) : Prop where
  sides : ∃ nullifierA commitmentA nullifierB commitmentB,
    SwapSide hash bond timestamp proofA publicInputsA nullifierA commitmentA ∧
      SwapSide hash bond timestamp proofB publicInputsB nullifierB commitmentB ∧ nullifierA ≠ nullifierB ∧
      Pushed hash (bond.spend (nullifierA, nullifierB)) [commitmentA, commitmentB] bond'

variable {hash : List F → F} {bond bond' : PrivateBond} {args : SpendArgs F} {sender : Address} {timestamp : Nat}

theorem push_eq_ok {commitments : List Word} :
    bond.push hash commitments = .ok bond' ↔ Pushed hash bond commitments bond' := by
  simp only [PrivateBond.push, buildMerkleRoot, bind_eq_ok, failIf_eq_ok, pure_eq_ok, exists_const]
  constructor
  · rintro ⟨root, ⟨hnonempty, rfl⟩, rfl⟩
    exact ⟨rfl, fun hnil => hnonempty (congrArg List.length hnil), rfl, rfl, rfl⟩
  · intro h
    obtain ⟨hcommitments, hnonempty, hroots, hnullifiers, howner⟩ := h
    rw [hcommitments] at hnonempty hroots
    refine ⟨_, ⟨fun hlength => hnonempty (List.length_eq_zero_iff.mp hlength), rfl⟩, ?_⟩
    cases bond'
    cases hcommitments
    cases hroots
    cases hnullifiers
    cases howner
    rfl

theorem exists_pushed {commitments : List Word} (hne : commitments ≠ []) :
    ∃ bond', Pushed hash bond commitments bond' :=
  ⟨{ bond with
      commitments := bond.commitments ++ commitments
      knownRoots := Function.update bond.knownRoots (rootOfLevel hash (bond.commitments ++ commitments)) true },
    rfl, List.append_ne_nil_of_right_ne_nil _ hne, rfl, rfl, rfl⟩

theorem mint_eq_ok {commitment : Word} :
    bond.mint hash sender commitment = .ok bond' ↔ sender = bond.owner ∧ Pushed hash bond [commitment] bond' := by
  simp only [PrivateBond.mint, PrivateBond.onlyOwner, bind_eq_ok, failIf_eq_ok, push_eq_ok, exists_const, not_not,
    ne_eq]

theorem mintBatch_eq_ok {commitments : List Word} : bond.mintBatch hash sender commitments = .ok bond' ↔
    sender = bond.owner ∧ Pushed hash bond commitments bond' := by
  simp only [PrivateBond.mintBatch, PrivateBond.onlyOwner, bind_eq_ok, failIf_eq_ok, push_eq_ok, exists_const, not_not,
    ne_eq]

theorem verify_eq_true {proof : Proof F} {root n₀ n₁ c₀ c₁ : Word} :
    verify hash proof [root, n₀, n₁, c₀, c₁] = true ↔ proof.Proves hash root n₀ n₁ c₀ c₁ := decide_eq_true_iff

theorem verify_publicInputs : verify hash args.proof args.publicInputs = true ↔
    args.proof.Proves hash args.root args.nullifiersIn.1 args.nullifiersIn.2 args.commitmentsOut.1
      args.commitmentsOut.2 := verify_eq_true

omit [BnField F] in
theorem checkInputs_eq_ok {u : Unit} : bond.checkInputs args = .ok u ↔ bond.knownRoots args.root = true ∧
    bond.nullifiers args.nullifiersIn.1 = false ∧ bond.nullifiers args.nullifiersIn.2 = false ∧
    args.nullifiersIn.1 ≠ args.nullifiersIn.2 := by
  simp only [PrivateBond.checkInputs, bind_eq_ok, failIf_eq_ok, exists_const, Bool.not_eq_false, Bool.not_eq_true, ne_eq]

theorem transfer_eq_ok : bond.transfer hash args = .ok bond' ↔ Spent hash bond args bond' := by
  simp only [PrivateBond.transfer, bind_eq_ok, checkInputs_eq_ok, failIf_eq_ok, push_eq_ok, exists_const,
    Bool.not_eq_false, verify_publicInputs]
  constructor
  · rintro ⟨⟨hroot, hfresh₀, hfresh₁, hdistinct⟩, hproves, hpushed⟩
    exact ⟨hroot, hfresh₀, hfresh₁, hdistinct, hproves, hpushed⟩
  · intro h
    exact ⟨⟨h.root, h.fresh₀, h.fresh₁, h.distinct⟩, h.proves, h.pushed⟩

theorem burn_eq_ok {inputMaturityDate isRedeem : Word} :
    bond.burn hash timestamp args inputMaturityDate isRedeem = .ok bond' ↔
      inputMaturityDate ≤ timestamp ∧ isRedeem = 1 ∧ Spent hash bond args bond' := by
  simp only [PrivateBond.burn, bind_eq_ok, checkInputs_eq_ok, failIf_eq_ok, push_eq_ok, exists_const,
    Bool.not_eq_false, verify_publicInputs, not_lt, ne_eq, not_not]
  constructor
  · rintro ⟨⟨hroot, hfresh₀, hfresh₁, hdistinct⟩, htime, hredeem, hproves, hpushed⟩
    exact ⟨htime, hredeem, hroot, hfresh₀, hfresh₁, hdistinct, hproves, hpushed⟩
  · rintro ⟨htime, hredeem, h⟩
    exact ⟨⟨h.root, h.fresh₀, h.fresh₁, h.distinct⟩, htime, hredeem, h.proves, h.pushed⟩

theorem verify_words {proof : Proof F} {publicInputs : List Word} (h : verify hash proof publicInputs = true) :
    ∃ root n₀ n₁ c₀ c₁, publicInputs = [root, n₀, n₁, c₀, c₁] ∧ proof.Proves hash root n₀ n₁ c₀ c₁ := by
  unfold verify at h
  split at h
  · next root n₀ n₁ c₀ c₁ => exact ⟨root, n₀, n₁, c₀, c₁, rfl, of_decide_eq_true h⟩
  · exact absurd h Bool.false_ne_true

/-- A swap reads its arrays of five words at the positions of a root, a nullifier, a commitment and a maturity
date. -/
theorem atomicSwap_ok {proofA proofB : Proof F} {publicInputsA publicInputsB : List Word}
    (h : bond.atomicSwap hash timestamp sender proofA publicInputsA proofB publicInputsB = .ok bond') :
    Swapped hash bond timestamp proofA publicInputsA proofB publicInputsB bond' := by
  simp only [PrivateBond.atomicSwap, PrivateBond.onlyOwner, bind_eq_ok, failIf_eq_ok, push_eq_ok, exists_const,
    Bool.not_eq_false, Bool.not_eq_true, word, okOr_eq_ok, not_le, ne_eq, not_not] at h
  obtain ⟨-, maturityA, hmaturityA, htimeA, maturityB, hmaturityB, htimeB, hproofA, hproofB, rootA, hrootA, hknownA,
    rootB, hrootB, hknownB, nullifierA, hnullifierA, nullifierB, hnullifierB, hfreshA, hfreshB, hdistinct,
    commitmentA, hcommitmentA, commitmentB, hcommitmentB, hpushed⟩ := h
  obtain ⟨_, _, _, _, _, rfl, hprovesA⟩ := verify_words hproofA
  obtain ⟨_, _, _, _, _, rfl, hprovesB⟩ := verify_words hproofB
  cases hmaturityA
  cases hmaturityB
  cases hrootA
  cases hrootB
  cases hnullifierA
  cases hnullifierB
  cases hcommitmentA
  cases hcommitmentB
  exact ⟨_, _, _, _, ⟨⟨_, _, _, rfl, htimeA, hknownA, hprovesA⟩, hfreshA⟩,
    ⟨⟨_, _, _, rfl, htimeB, hknownB, hprovesB⟩, hfreshB⟩, hdistinct, hpushed⟩

def PrivateBond.leaves (F : Type) [BnField F] (bond : PrivateBond) : List F := bond.commitments.map Scalar.ofNat

theorem spans_nextLevel {leaves : List F} {level : List Word}
    (h : ∀ x ∈ level, Merkle.Spans (node hash) leaves (Scalar.ofNat x)) :
    ∀ x ∈ nextLevel hash level, Merkle.Spans (node hash) leaves (Scalar.ofNat x) := by
  induction level using nextLevel.induct with
  | case1 left right rest ih =>
    obtain ⟨hleft, hright, hrest⟩ := List.forall_mem_cons.mp h |>.imp_right List.forall_mem_cons.mp
    rw [nextLevel]
    refine List.forall_mem_cons.mpr ⟨?_, ih hrest⟩
    rw [poseidonHash, BnField.ofNat_toNat]
    exact .node hleft hright
  | case2 left =>
    have hleft := h left List.mem_cons_self
    rw [nextLevel]
    intro x hx
    rw [List.mem_singleton.mp hx, poseidonHash, BnField.ofNat_toNat]
    exact .node hleft hleft
  | case3 => exact fun x hx => absurd hx (by rw [nextLevel]; exact List.not_mem_nil)

theorem spans_rootOfLevel {leaves : List F} {level : List Word} (hne : level ≠ [])
    (h : ∀ x ∈ level, Merkle.Spans (node hash) leaves (Scalar.ofNat x)) :
    Merkle.Spans (node hash) leaves (Scalar.ofNat (rootOfLevel hash level)) := by
  induction level using rootOfLevel.induct hash with
  | case1 left right rest ih =>
    rw [rootOfLevel]
    refine ih (List.ne_nil_of_length_pos ?_) (spans_nextLevel h)
    rw [length_nextLevel, List.length_cons, List.length_cons]
    omega
  | case2 root =>
    rw [rootOfLevel]
    exact h root List.mem_cons_self
  | case3 => exact absurd rfl hne

/-- The root is the root of a tree over the leaves. -/
theorem Pushed.spans {commitments : List Word} (h : Pushed hash bond commitments bond') :
    Merkle.Spans (node hash) (bond'.leaves F) (Scalar.ofNat (rootOfLevel hash bond'.commitments)) :=
  spans_rootOfLevel h.nonempty fun _ hx => .leaf (List.mem_map_of_mem hx)

end Pocs.Bond
