import Pocs.Bond.Wallet

/-! # What an honest holder can spend

Runs in which the contract and the wallet list the same commitments. The wallet pads its tree with zeros up to eight
leaves, the contract repeats the last node of an odd level and stops at one node: the roots are the same with eight
leaves only. The companion of every note of an owner has one nullifier. -/

namespace Pocs.Bond

open Compliance (BnField Word Ideal ofU64)

variable {F : Type} [BnField F] {hash : List F → F} {text : Text F}

/-! ## The two roots -/

theorem separated_of_ideal (H : Ideal hash) : Separated hash := ⟨H.inj⟩

theorem mem_nextLevel {level : List Word} {x : Word} (h : x ∈ nextLevel hash level) :
    ∃ l ∈ level, ∃ r ∈ level, x = poseidonHash hash l r := by
  induction level using nextLevel.induct with
  | case1 left right rest ih =>
    rw [nextLevel] at h
    rcases List.mem_cons.mp h with rfl | h
    · exact ⟨left, List.mem_cons_self, right, List.mem_cons_of_mem _ List.mem_cons_self, rfl⟩
    · obtain ⟨l, hl, r, hr, hx⟩ := ih h
      exact ⟨l, List.mem_cons_of_mem _ (List.mem_cons_of_mem _ hl), r,
        List.mem_cons_of_mem _ (List.mem_cons_of_mem _ hr), hx⟩
  | case2 left =>
    rw [nextLevel] at h
    exact ⟨left, List.mem_cons_self, left, List.mem_cons_self, List.mem_singleton.mp h⟩
  | case3 =>
    rw [nextLevel] at h
    exact absurd h List.not_mem_nil

theorem nextLevel_getD {level : List Word} {j : Nat} (h : 2 * j + 1 < level.length) :
    (nextLevel hash level).getD j 0 = poseidonHash hash (level.getD (2 * j) 0) (level.getD (2 * j + 1) 0) := by
  induction level using nextLevel.induct generalizing j with
  | case1 left right rest ih =>
    rw [nextLevel]
    cases j with
    | zero => rfl
    | succ j =>
      rw [List.length_cons, List.length_cons] at h
      rw [List.getD_cons_succ, ih (by omega)]
      rfl
  | case2 left =>
    rw [List.length_singleton] at h
    omega
  | case3 => exact absurd h (Nat.not_lt_zero _)

theorem rootOfLevel_full {k : Nat} {level : List Word} (h : level.length = 2 ^ k) :
    (Scalar.ofNat (rootOfLevel hash level) : F) =
      Merkle.nodeAt (node hash) (fun j => Scalar.ofNat (level.getD j 0)) k 0 := by
  induction k generalizing level with
  | zero =>
    obtain ⟨x, rfl⟩ := List.length_eq_one_iff.mp h
    rw [rootOfLevel]
    rfl
  | succ k ih =>
    have hpow : 2 ^ (k + 1) = 2 * 2 ^ k := Nat.pow_succ'
    have hpos : 0 < 2 ^ k := Nat.two_pow_pos k
    obtain _ | ⟨left, _ | ⟨right, rest⟩⟩ := level
    · rw [List.length_nil] at h
      omega
    · rw [List.length_singleton] at h
      omega
    rw [rootOfLevel, ih (by rw [length_nextLevel]; omega), ← Merkle.nodeAt_pairs]
    refine Merkle.nodeAt_congr fun j hj => ?_
    have hlt : j < 2 ^ k := (Nat.div_eq_zero_iff.mp hj).resolve_left (Nat.ne_of_gt hpos)
    rw [nextLevel_getD (by omega), poseidonHash, BnField.ofNat_toNat]
    rfl

/-- The contract's root is that of a tree over leaves of the level, each used as often as needed. -/
theorem exists_nodeAt {level : List Word} (hne : level ≠ []) : ∃ (e : Nat) (g : Nat → F),
    (∀ j, g j ∈ level.map Scalar.ofNat) ∧
      (Scalar.ofNat (rootOfLevel hash level) : F) = Merkle.nodeAt (node hash) g e 0 := by
  induction level using rootOfLevel.induct hash with
  | case1 left right rest ih =>
    have hnext : nextLevel hash (left :: right :: rest) ≠ [] := by
      rw [nextLevel]
      exact List.cons_ne_nil _ _
    obtain ⟨e, g, hg, hroot⟩ := ih hnext
    -- each node of the next level has its children in this one
    have hchildren : ∀ j, ∃ c : F × F, c.1 ∈ (left :: right :: rest).map (Scalar.ofNat : Word → F) ∧
        c.2 ∈ (left :: right :: rest).map (Scalar.ofNat : Word → F) ∧ g j = node hash c.1 c.2 := by
      intro j
      obtain ⟨x, hx, hxg⟩ := List.mem_map.mp (hg j)
      obtain ⟨l, hl, r, hr, rfl⟩ := mem_nextLevel hx
      rw [poseidonHash, BnField.ofNat_toNat] at hxg
      exact ⟨(Scalar.ofNat l, Scalar.ofNat r), List.mem_map_of_mem hl, List.mem_map_of_mem hr, hxg.symm⟩
    choose c hleft hright hnode using hchildren
    refine ⟨e + 1, fun j => if j % 2 = 0 then (c (j / 2)).1 else (c (j / 2)).2, fun j => ?_, ?_⟩
    · show (if j % 2 = 0 then _ else _) ∈ _
      split
      · exact hleft _
      · exact hright _
    · rw [rootOfLevel, hroot, ← Merkle.nodeAt_pairs]
      refine Merkle.nodeAt_congr fun j _ => ?_
      have heven : 2 * j % 2 = 0 ∧ 2 * j / 2 = j := by omega
      have hodd : (2 * j + 1) % 2 ≠ 0 ∧ (2 * j + 1) / 2 = j := by omega
      rw [if_pos heven.1, if_neg hodd.1, heven.2, hodd.2]
      exact hnode j
  | case2 root =>
    rw [rootOfLevel]
    exact ⟨0, fun _ => Scalar.ofNat root, fun _ => List.mem_cons_self, rfl⟩
  | case3 => exact absurd rfl hne

theorem rootOfLevel_canonical {level : List Word} (hne : level ≠ [])
    (h : ∀ x ∈ level, BnField.canonical F x = true) : BnField.canonical F (rootOfLevel hash level) = true := by
  induction level using rootOfLevel.induct hash with
  | case1 left right rest ih =>
    rw [rootOfLevel]
    refine ih (by rw [nextLevel]; exact List.cons_ne_nil _ _) fun x hx => ?_
    obtain ⟨l, -, r, -, rfl⟩ := mem_nextLevel hx
    exact BnField.canonical_toNat _
  | case2 root =>
    rw [rootOfLevel]
    exact h root List.mem_cons_self
  | case3 => exact absurd rfl hne

/-- With leaves that are neither zero nor nodes, the wallet's root is one of the contract's only over eight leaves. -/
theorem length_eq_maxLeaves (H : Separated hash) {leaves : List F} {level : List Word} (hne : level ≠ [])
    (hleaf : ∀ leaf ∈ leaves, leaf ≠ 0 ∧ ∀ l r, leaf ≠ node hash l r) (hzero : ∀ l r, node hash l r ≠ 0)
    (hsub : level.map Scalar.ofNat ⊆ leaves) (hroom : leaves.length ≤ maxLeaves)
    (hroot : Merkle.nodeAt (node hash) (leaves.getD · 0) treeHeight 0 = Scalar.ofNat (rootOfLevel hash level)) :
    leaves.length = maxLeaves := by
  obtain ⟨e, g, hg, hcontract⟩ := @exists_nodeAt _ _ hash level hne
  rw [hcontract] at hroot
  have hpadded : ∀ i l r, leaves.getD i 0 ≠ node hash l r := by
    intro i l r
    rcases Nat.lt_or_ge i leaves.length with hlt | hge
    · rw [List.getD_eq_getElem _ _ hlt]
      exact (hleaf _ (List.getElem_mem hlt)).2 l r
    · rw [List.getD_eq_default _ _ hge]
      exact (hzero l r).symm
  obtain rfl := Merkle.level_eq_of_nodeAt (node_inj H) hpadded (fun i l r => (hleaf _ (hsub (hg i))).2 l r) hroot
  -- the last leaf is not zero
  have hlast : leaves.getD 7 0 = g 7 := Merkle.nodeAt_inj (node_inj H) hroot (by decide)
  by_contra hshort
  have hlt : leaves.length ≤ 7 := Nat.le_of_lt_succ (Nat.lt_of_le_of_ne hroom hshort)
  rw [List.getD_eq_default _ _ hlt] at hlast
  exact (hleaf _ (hsub (hg 7))).1 hlast.symm

/-! ## Runs -/

structure Ledgers where
  world : World
  treeState : TreeState

/-- A step after which both lists have the commitments of the same notes at their ends. -/
structure Completed (hash : List F → F) (text : Text F) (s : Ledgers) (st : Step F) (s' : Ledgers) : Prop where
  step : Transition hash s.world st s'.world
  lists : ∃ notes : List (Note F),
    s'.world.bond.commitments = s.world.bond.commitments ++ notes.map (fun note => Scalar.toNat (note.commitment hash)) ∧
      s'.treeState = (notes.map (·.commitment hash)).foldl (TreeState.addCommitment text) s.treeState ∧
      ∀ note ∈ notes, Scalar.toNat (note.commitment hash) < 2 ^ 256

structure Holding where
  /-- What the seed of the wallet is hashed to. -/
  num : UInt64
  value : UInt64
  salt : UInt64
  assetId : UInt64
  maturityDate : UInt64

namespace Holding
variable (h : Holding) (text : Text F) (hash : List F → F)

def note : CircuitNote F := ⟨h.value, h.salt, hash [ofU64 h.num], h.assetId, h.maturityDate⟩

def dummy : CircuitNote F := ⟨0, 0, hash [ofU64 h.num], h.assetId, h.maturityDate⟩

def nullifier (salt : UInt64) : F := noteNullifier hash (ofU64 salt) (ofU64 h.num)

def keys : ShieldedKeys := .fromSeed text hash h.num

def file : BondFile :=
  ⟨text.display ((h.note hash).commitment hash), h.value, h.salt, (h.keys text hash).publicSpendingKeyHex, h.assetId,
    h.maturityDate⟩

end Holding

/-- The note is listed with its companion and not spent. -/
structure Holding.Unspent (h : Holding) (hash : List F → F) (bond : PrivateBond) : Prop where
  listed : Scalar.toNat ((h.note hash).commitment hash) ∈ bond.commitments
  companion : Scalar.toNat ((h.dummy hash).commitment hash) ∈ bond.commitments
  fresh : bond.nullifiers (Scalar.toNat (h.nullifier hash h.salt)) = false
  keyFits : Scalar.toNat (hash [ofU64 h.num]) < 2 ^ 256

/-- What the wallet is told to do with a holding. -/
inductive Command where
  | buy (buyerWallet : ShieldedKeys) (buyValue buyerSalt changeSalt : UInt64)
  | redeem (now : Nat) (outputSalt₀ outputSalt₁ : UInt64)

def Command.call (text : Text F) (hash : List F → F) (h : Holding) (treeState : TreeState) : Command → Option (Call F)
  | .buy buyerWallet buyValue buyerSalt changeSalt =>
    Bond.buy text hash buyerWallet buyValue (h.file text hash) (h.keys text hash) buyerSalt changeSalt treeState
  | .redeem now outputSalt₀ outputSalt₁ =>
    Bond.redeem text hash (h.keys text hash) (h.file text hash) now outputSalt₀ outputSalt₁ treeState

/-- Less than the note is bought, or it is redeemed at maturity. -/
def Command.Meets (h : Holding) (timestamp : Nat) : Command → Prop
  | .buy _ buyValue _ _ => buyValue < h.value
  | .redeem now _ _ => h.maturityDate.toNat ≤ now ∧ h.maturityDate.toNat ≤ timestamp

/-- The proof is one of `main`, against a known root and with nullifiers not used, and the call goes through. -/
structure Accepted (hash : List F → F) (w : World) (call : Call F) : Prop where
  proves : call.args.proof.Proves hash call.args.root call.args.nullifiersIn.1 call.args.nullifiersIn.2
    call.args.commitmentsOut.1 call.args.commitmentsOut.2
  root : w.bond.knownRoots call.args.root = true
  fresh₀ : w.bond.nullifiers call.args.nullifiersIn.1 = false
  fresh₁ : w.bond.nullifiers call.args.nullifiersIn.2 = false
  ok : ∃ bond, call.run hash w.timestamp w.bond = .ok bond

/-- `buy`, over eight leaves, of a note with a salt, by an owner whose companion was never an input. -/
def Command.Works (hash : List F → F) (h : Holding) (bond : PrivateBond) : Command → Prop
  | .buy .. => bond.commitments.length = maxLeaves ∧ h.salt ≠ 0 ∧
    bond.nullifiers (Scalar.toNat (h.nullifier hash 0)) = false
  | .redeem .. => False

/-! ## What the runs keep -/

structure Synced (hash : List F → F) (text : Text F) (leaves : List F) (s : Ledgers) : Prop where
  words : s.world.bond.commitments = leaves.map Scalar.toNat
  strings : s.treeState.commitments = leaves.map text.display
  commitments : ∀ leaf ∈ leaves, ∃ note : Note F, note.commitment hash = leaf
  fits : ∀ leaf ∈ leaves, Scalar.toNat leaf < 2 ^ 256
  known : ∀ r, s.world.bond.knownRoots r = true →
    ∃ level, level ≠ [] ∧ level ⊆ s.world.bond.commitments ∧ r = rootOfLevel hash level
  current : s.world.bond.commitments ≠ [] →
    s.world.bond.knownRoots (rootOfLevel hash s.world.bond.commitments) = true

variable {w w' w₀ : World} {s : Ledgers} {st : Step F} {tr : List (Step F)} {h : Holding}

/-- A step pushes or leaves the list and its roots alone. -/
theorem Transition.pushed (h : Transition hash w st w') :
    (w'.bond.commitments = w.bond.commitments ∧ w'.bond.knownRoots = w.bond.knownRoots) ∨
      ∃ bond commitments, bond.commitments = w.bond.commitments ∧ bond.knownRoots = w.bond.knownRoots ∧
        Pushed hash bond commitments w'.bond := by
  cases h with
  | mint ok => exact .inr ⟨_, _, rfl, rfl, (mint_eq_ok.mp ok).2⟩
  | mintBatch ok => exact .inr ⟨_, _, rfl, rfl, (mintBatch_eq_ok.mp ok).2⟩
  | transfer ok => exact .inr ⟨w.bond.spend _, _, rfl, rfl, (transfer_eq_ok.mp ok).pushed⟩
  | burn ok => exact .inr ⟨w.bond.spend _, _, rfl, rfl, (burn_eq_ok.mp ok).2.2.pushed⟩
  | atomicSwap ok =>
    obtain ⟨_, _, _, _, -, -, -, hpushed⟩ := (atomicSwap_ok ok).sides
    exact .inr ⟨w.bond.spend _, _, rfl, rfl, hpushed⟩
  | reverted | tick => exact .inl ⟨rfl, rfl⟩

/-- Every known root was the root over a list, and the root over the present one is known. -/
theorem Transition.roots (h : Transition hash w st w') (hknown : ∀ r, w.bond.knownRoots r = true →
      ∃ level, level ≠ [] ∧ level ⊆ w.bond.commitments ∧ r = rootOfLevel hash level)
    (hcurrent : w.bond.commitments ≠ [] → w.bond.knownRoots (rootOfLevel hash w.bond.commitments) = true) :
    (∀ r, w'.bond.knownRoots r = true →
      ∃ level, level ≠ [] ∧ level ⊆ w'.bond.commitments ∧ r = rootOfLevel hash level) ∧
    (w'.bond.commitments ≠ [] → w'.bond.knownRoots (rootOfLevel hash w'.bond.commitments) = true) := by
  rcases h.pushed with ⟨hcommitments, hroots⟩ | ⟨bond, commitments, hbefore, hroots, hpushed⟩
  · rw [hcommitments, hroots]
    exact ⟨hknown, hcurrent⟩
  · rw [hpushed.knownRoots, hroots]
    refine ⟨fun r hr => ?_, fun _ => Function.update_self _ _ _⟩
    rcases eq_or_ne r (rootOfLevel hash w'.bond.commitments) with rfl | hne
    · exact ⟨_, hpushed.nonempty, List.Subset.refl _, rfl⟩
    · rw [Function.update_of_ne hne] at hr
      obtain ⟨level, hlevel, hsub, rfl⟩ := hknown r hr
      refine ⟨level, hlevel, fun x hx => ?_, rfl⟩
      rw [hpushed.commitments, hbefore]
      exact List.mem_append_left _ (hsub hx)

omit [BnField F] in
theorem foldl_addCommitment (leaves : List F) (treeState : TreeState) :
    (leaves.foldl (TreeState.addCommitment text) treeState).commitments =
      treeState.commitments ++ leaves.map text.display := by
  induction leaves generalizing treeState with
  | nil => exact (List.append_nil _).symm
  | cons leaf leaves ih =>
    rw [List.foldl_cons, ih, List.map_cons, List.append_cons]
    rfl

theorem Synced.step {leaves : List F} {s' : Ledgers} (inv : Synced hash text leaves s)
    (h : Completed hash text s st s') : ∃ leaves', Synced hash text leaves' s' := by
  obtain ⟨notes, hwords, hstrings, hfits⟩ := h.lists
  obtain ⟨hknown, hcurrent⟩ := h.step.roots inv.known inv.current
  refine ⟨leaves ++ notes.map (·.commitment hash), ?_, ?_, ?_, ?_, hknown, hcurrent⟩
  · rw [hwords, inv.words, List.map_append, List.map_map]
    rfl
  · rw [hstrings, foldl_addCommitment, inv.strings, List.map_append]
  · intro leaf hleaf
    rcases List.mem_append.mp hleaf with hold | hnew
    · exact inv.commitments leaf hold
    · obtain ⟨note, -, rfl⟩ := List.mem_map.mp hnew
      exact ⟨note, rfl⟩
  · intro leaf hleaf
    rcases List.mem_append.mp hleaf with hold | hnew
    · exact inv.fits leaf hold
    · obtain ⟨note, hnote, rfl⟩ := List.mem_map.mp hnew
      exact hfits note hnote

theorem synced_of_run (h₀ : Deployed w₀) (hrun : Run (Completed hash text) ⟨w₀, ⟨[]⟩⟩ tr s) :
    ∃ leaves, Synced hash text leaves s := by
  refine hrun.invariant (I := fun _ s => ∃ leaves, Synced hash text leaves s) ?_ ?_
  · cases h₀ with
    | mk =>
      exact ⟨[], rfl, rfl, fun leaf hleaf => absurd hleaf List.not_mem_nil,
        fun leaf hleaf => absurd hleaf List.not_mem_nil, fun r hr => absurd hr Bool.false_ne_true,
        fun hne => absurd rfl hne⟩
  · intro tr s st s' _ hstep hsynced
    obtain ⟨leaves, inv⟩ := hsynced
    exact inv.step hstep

/-- The owner mints any notes at once. -/
theorem exists_completed {notes : List (Note F)} (hne : notes ≠ [])
    (hfits : ∀ note ∈ notes, Scalar.toNat (note.commitment hash) < 2 ^ 256) : ∃ w₀ st s, Deployed w₀ ∧
    Run (Completed hash text) ⟨w₀, ⟨[]⟩⟩ [st] s ∧ s.treeState.commitments.length = notes.length ∧
    s.world.bond.commitments = notes.map (fun note => Scalar.toNat (note.commitment hash)) ∧
    ∀ word, s.world.bond.nullifiers word = false := by
  obtain ⟨bond, hpushed⟩ := @exists_pushed _ _ hash (PrivateBond.new 0)
    (notes.map fun note => Scalar.toNat (note.commitment hash)) (List.map_eq_nil_iff.not.mpr hne)
  have hcommitments : bond.commitments = notes.map (fun note => Scalar.toNat (note.commitment hash)) :=
    hpushed.commitments
  refine ⟨⟨0, PrivateBond.new 0⟩, _,
    ⟨⟨0, bond⟩, (notes.map (·.commitment hash)).foldl (TreeState.addCommitment text) ⟨[]⟩⟩, .mk,
    .cons .nil ⟨.mintBatch (mintBatch_eq_ok.mpr ⟨rfl, hpushed⟩), notes, hcommitments, rfl, hfits⟩, ?_, hcommitments,
    fun word => congrFun hpushed.nullifiers word⟩
  rw [foldl_addCommitment, List.nil_append, List.length_map, List.length_map]

/-! ## The witness -/

structure Prepared (hash : List F → F) (text : Text F) (h : Holding) (treeState : TreeState) (tree : FixedMerkleTree F)
    (realIndex dummyIndex : Nat) (realPath dummyPath : CircuitMerklePath F) : Prop where
  built : treeState.buildTree text hash = some tree
  real : treeState.findCommitment (text.display ((h.note hash).commitment hash)) = some realIndex
  dummy : treeState.findCommitment (text.display ((h.dummy hash).commitment hash)) = some dummyIndex
  provesReal : tree.generateProof realIndex = some realPath
  provesDummy : tree.generateProof dummyIndex = some dummyPath
  realIncluded : Merkle.foldPath (node hash) ((h.note hash).commitment hash)
    (Merkle.arrayPath realPath.indices realPath.elements) = tree.root
  dummyIncluded : Merkle.foldPath (node hash) ((h.dummy hash).commitment hash)
    (Merkle.arrayPath dummyPath.indices dummyPath.elements) = tree.root

theorem Synced.prepared {leaves : List F} (inv : Synced hash text leaves s) (hlaw : text.Lawful)
    (hroom : leaves.length ≤ maxLeaves) (hheld : h.Unspent hash s.world.bond) :
    ∃ tree realIndex dummyIndex realPath dummyPath, tree.Holds hash leaves ∧
      Prepared hash text h s.treeState tree realIndex dummyIndex realPath dummyPath := by
  have hleaf : ∀ {x : F}, Scalar.toNat x ∈ s.world.bond.commitments → x ∈ leaves := by
    intro x hx
    rw [inv.words] at hx
    obtain ⟨leaf, hleaf, heq⟩ := List.mem_map.mp hx
    rwa [← Scalar.toNat_inj heq]
  obtain ⟨tree, hbuilt, hholds⟩ := @buildTree_of_display _ _ hash text hlaw _ _ inv.strings inv.fits hroom
  obtain ⟨i, hi, hilt, hreal⟩ := exists_findCommitment inv.strings hlaw inv.fits (hleaf hheld.listed)
  obtain ⟨j, hj, hjlt, hdummy⟩ := exists_findCommitment inv.strings hlaw inv.fits (hleaf hheld.companion)
  obtain ⟨realPath, hrealPath, hrealIncluded⟩ := hholds.generateProof hilt hroom
  obtain ⟨dummyPath, hdummyPath, hdummyIncluded⟩ := hholds.generateProof hjlt hroom
  rw [hreal] at hrealIncluded
  rw [hdummy] at hdummyIncluded
  exact ⟨tree, i, j, realPath, dummyPath, hholds, hbuilt, hi, hj, hrealPath, hdummyPath, hrealIncluded, hdummyIncluded⟩

theorem generateProof_eq_some {witness : WitnessBuilder F} {proof : Proof F} :
    witness.generateProof hash = some proof ↔ ∃ isRedeem, Satisfied hash witness.toPublic witness.toWitness isRedeem ∧
      proof = ⟨witness.toPublic.inputMaturityDate, witness.toPublic.outputMaturityDate, isRedeem, witness.toWitness⟩ := by
  simp only [← main_eq_ok]
  rw [WitnessBuilder.generateProof]
  cases main hash witness.toPublic witness.toWitness with
  | error e => simp
  | ok isRedeem =>
    constructor
    · intro h
      exact ⟨isRedeem, rfl, (Option.some.inj h).symm⟩
    · rintro ⟨_, hok, rfl⟩
      cases hok
      rfl

def WitnessBuilder.args (witness : WitnessBuilder F) (proof : Proof F) : SpendArgs F :=
  ⟨proof, Scalar.toNat witness.root, (Scalar.toNat witness.nullifiers.1, Scalar.toNat witness.nullifiers.2),
    (Scalar.toNat witness.commitmentsOut.1, Scalar.toNat witness.commitmentsOut.2)⟩

theorem WitnessBuilder.proves {witness : WitnessBuilder F} {proof : Proof F}
    (h : witness.generateProof hash = some proof) :
    proof.Proves hash (witness.args proof).root (witness.args proof).nullifiersIn.1 (witness.args proof).nullifiersIn.2
      (witness.args proof).commitmentsOut.1 (witness.args proof).commitmentsOut.2 := by
  obtain ⟨isRedeem, hsatisfied, rfl⟩ := generateProof_eq_some.mp h
  have hmain := main_eq_ok.mpr hsatisfied
  unfold Proof.Proves Proof.toPublic WitnessBuilder.args
  simp only [BnField.ofNat_toNat]
  exact hmain

section
variable (hlaw : text.Lawful)
include hlaw

theorem Holding.publicSpendingKey_keys (hfits : Scalar.toNat (hash [ofU64 h.num]) < 2 ^ 256) :
    (h.keys text hash).publicSpendingKey text = hash [ofU64 h.num] := parseFrHex_display hlaw hfits

theorem Holding.getPrivateSpendingKey_keys : (h.keys text hash).getPrivateSpendingKey text = ofU64 h.num := by
  refine parseFrHex_display hlaw ?_
  rw [ofU64, Scalar.toNat_ofNat h.num.toNat_lt]
  exact h.num.toNat_lt.trans (by decide)

/-- No proof is made with the owner that `redeem` takes. -/
theorem redeem_eq_none (H : Ideal hash) (hfits : Scalar.toNat (hash [ofU64 h.num]) < 2 ^ 256) {now : Nat}
    {outputSalt₀ outputSalt₁ : UInt64} {treeState : TreeState} :
    redeem text hash (h.keys text hash) (h.file text hash) now outputSalt₀ outputSalt₁ treeState = none := by
  have howner : redeemOwner text (h.keys text hash) = 0 := redeemOwner_display hlaw hfits rfl
  refine Option.eq_none_iff_forall_not_mem.mpr fun call hcall => ?_
  simp only [redeem, Option.mem_def, Option.bind_eq_bind, Option.bind_eq_some_iff, guard_eq_some, exists_const,
    howner] at hcall
  obtain ⟨-, -, tree, -, i, -, j, -, path, -, path', -, proof, hproof, -⟩ := hcall
  obtain ⟨_, hsatisfied, -⟩ := generateProof_eq_some.mp hproof
  exact H.ne_zero (by simp) (by simp) hsatisfied.owner.symm

end

/-- The witness of `buy`, by the owner of the first output. -/
def Holding.buyWitness (h : Holding) (hash : List F → F) (buyerOwner : F) (buyValue buyerSalt changeSalt : UInt64)
    (root : F) (realPath dummyPath : CircuitMerklePath F) : WitnessBuilder F :=
  let buyerNote : CircuitNote F := ⟨buyValue, buyerSalt, buyerOwner, h.assetId, h.maturityDate⟩
  let changeNote : CircuitNote F := ⟨h.value - buyValue, changeSalt, hash [ofU64 h.num], h.assetId, h.maturityDate⟩
  buildJoinsplitWitness hash root (h.note hash) realPath (h.nullifier hash h.salt) (h.dummy hash) dummyPath
    (buyerNote, changeNote) (buyerNote.commitment hash, changeNote.commitment hash) (ofU64 h.num)

section
variable {treeState : TreeState} {tree : FixedMerkleTree F} {i j : Nat} {realPath dummyPath : CircuitMerklePath F}
  {buyValue buyerSalt changeSalt : UInt64}

theorem Prepared.satisfied (hprepared : Prepared hash text h treeState tree i j realPath dummyPath) (buyerOwner : F)
    (hbuy : buyValue < h.value) : ∃ isRedeem, Satisfied hash
      (h.buyWitness hash buyerOwner buyValue buyerSalt changeSalt tree.root realPath dummyPath).toPublic
      (h.buyWitness hash buyerOwner buyValue buyerSalt changeSalt tree.root realPath dummyPath).toWitness isRedeem := by
  have hsplit : h.value.toNat + (0 : UInt64).toNat = buyValue.toNat + (h.value - buyValue).toNat := by
    rw [UInt64.toNat_sub_of_le _ _ (UInt64.le_of_lt hbuy), UInt64.toNat_zero, Nat.add_zero]
    exact (Nat.add_sub_cancel' (Nat.le_of_lt (UInt64.lt_iff_toNat_lt.mp hbuy))).symm
  exact ⟨_, hprepared.realIncluded, hprepared.dummyIncluded, rfl, rfl, h.value.toNat_lt, rfl, rfl, rfl, rfl, hsplit, rfl,
    rfl, rfl⟩

/-- The call that `buy` makes. -/
theorem Prepared.buy_eq (hprepared : Prepared hash text h treeState tree i j realPath dummyPath) (hlaw : text.Lawful)
    (hfits : Scalar.toNat (hash [ofU64 h.num]) < 2 ^ 256) (buyerWallet : ShieldedKeys) (hbuy : buyValue < h.value)
    {proof : Proof F} (hproof : (h.buyWitness hash (buyerWallet.publicSpendingKey text) buyValue buyerSalt changeSalt
      tree.root realPath dummyPath).generateProof hash = some proof) :
    buy text hash buyerWallet buyValue (h.file text hash) (h.keys text hash) buyerSalt changeSalt treeState =
      some (.transfer ((h.buyWitness hash (buyerWallet.publicSpendingKey text) buyValue buyerSalt changeSalt tree.root
        realPath dummyPath).args proof)) := by
  have hguard : (guard (buyValue < (h.file text hash).value) : Option Unit) = some () := guard_eq_some.mpr hbuy
  have hreal : treeState.findCommitment (h.file text hash).commitment = some i := hprepared.real
  have hdummy : treeState.findCommitment (text.display (CircuitNote.commitment hash
      ⟨0, 0, hash [ofU64 h.num], (h.file text hash).assetId, (h.file text hash).maturityDate⟩)) = some j :=
    hprepared.dummy
  simp only [buy, ShieldedKeys.signNullifier, Holding.publicSpendingKey_keys hlaw hfits,
    Holding.getPrivateSpendingKey_keys hlaw, hguard, hreal, hdummy, hprepared.built, hprepared.provesReal,
    hprepared.provesDummy, Option.bind_eq_bind, Option.bind_some]
  exact congrArg (Option.bind · _) hproof

end

/-- The wallet's root is known to the contract exactly over eight leaves. -/
theorem Synced.knownRoots_iff {leaves : List F} (inv : Synced hash text leaves s) (H : Ideal hash)
    (hroom : leaves.length ≤ maxLeaves) {tree : FixedMerkleTree F} (hholds : tree.Holds hash leaves) :
    s.world.bond.knownRoots (Scalar.toNat tree.root) = true ↔ leaves.length = maxLeaves := by
  have hleaves : ∀ L : List F, (L.map Scalar.toNat).map Scalar.ofNat = L := fun L => by
    rw [List.map_map]
    exact (List.map_congr_left fun x _ => BnField.ofNat_toNat x).trans (List.map_id L)
  constructor
  · intro hknown
    obtain ⟨level, hne, hsub, hroot⟩ := inv.known _ hknown
    refine length_eq_maxLeaves (separated_of_ideal H) hne ?_ (fun l r => H.ne_zero (by simp) (by simp)) ?_ hroom ?_
    · intro leaf hleaf
      obtain ⟨note, rfl⟩ := inv.commitments leaf hleaf
      exact ⟨H.ne_zero (by simp) (by simp), commitment_ne_node (separated_of_ideal H) note⟩
    · rw [← hleaves leaves, ← inv.words]
      exact List.map_subset _ hsub
    · rw [← hholds.root_eq, ← hroot, BnField.ofNat_toNat]
  · intro hlength
    have hwords : s.world.bond.commitments.length = 2 ^ treeHeight := by
      rw [inv.words, List.length_map]
      exact hlength
    have hne : s.world.bond.commitments ≠ [] := List.ne_nil_of_length_pos (by rw [hwords]; decide)
    have hcanonical : BnField.canonical F (rootOfLevel hash s.world.bond.commitments) = true := by
      refine rootOfLevel_canonical hne fun x hx => ?_
      rw [inv.words] at hx
      obtain ⟨leaf, -, rfl⟩ := List.mem_map.mp hx
      exact BnField.canonical_toNat leaf
    have hroot : Scalar.ofNat (rootOfLevel hash s.world.bond.commitments) = tree.root := by
      rw [rootOfLevel_full hwords, hholds.root_eq, inv.words]
      refine congrArg (Merkle.nodeAt (node hash) · treeHeight 0) (funext fun j => ?_)
      rw [List.getD_eq_getElem?_getD, List.getD_eq_getElem?_getD, List.getElem?_map]
      cases leaves[j]? with
      | none => rfl
      | some leaf => exact BnField.ofNat_toNat leaf
    rw [← BnField.eq_toNat hcanonical hroot]
    exact inv.current hne

theorem Synced.buy_iff {leaves : List F} (inv : Synced hash text leaves s) (H : Ideal hash) (hlaw : text.Lawful)
    (hroom : leaves.length ≤ maxLeaves) (hheld : h.Unspent hash s.world.bond) {buyerWallet : ShieldedKeys}
    {buyValue buyerSalt changeSalt : UInt64} (hbuy : buyValue < h.value) :
    (∃ call, buy text hash buyerWallet buyValue (h.file text hash) (h.keys text hash) buyerSalt changeSalt s.treeState =
      some call ∧ Accepted hash s.world call) ↔ leaves.length = maxLeaves ∧ h.salt ≠ 0 ∧
        s.world.bond.nullifiers (Scalar.toNat (h.nullifier hash 0)) = false := by
  obtain ⟨tree, i, j, realPath, dummyPath, hholds, hprepared⟩ := inv.prepared hlaw hroom hheld
  obtain ⟨isRedeem, hsatisfied⟩ := @Prepared.satisfied _ _ _ _ _ _ _ _ _ _ _ _ buyerSalt changeSalt hprepared
    (buyerWallet.publicSpendingKey text) hbuy
  have hproof := generateProof_eq_some.mpr ⟨isRedeem, hsatisfied, rfl⟩
  have hcall := hprepared.buy_eq hlaw hheld.keyFits buyerWallet hbuy hproof
  have hsalt : h.nullifier hash h.salt = h.nullifier hash 0 ↔ h.salt = 0 := by
    refine ⟨fun heq => ?_, fun heq => by rw [heq]⟩
    exact Compliance.ofU64_inj (H.hash2_inj heq).1
  rw [hcall, ← inv.knownRoots_iff H hroom hholds]
  constructor
  · rintro ⟨call, hsome, haccepted⟩
    obtain rfl := Option.some.inj hsome
    obtain ⟨bond, hok⟩ := haccepted.ok
    refine ⟨haccepted.root, fun heq => ?_, haccepted.fresh₁⟩
    exact (transfer_eq_ok.mp hok).distinct (congrArg Scalar.toNat (hsalt.mpr heq))
  · rintro ⟨hknown, hne, hfresh⟩
    obtain ⟨bond, hpushed⟩ := @exists_pushed _ _ hash (s.world.bond.spend _) [_, _] (List.cons_ne_nil _ _)
    have hproves := WitnessBuilder.proves hproof
    exact ⟨_, rfl, hproves, hknown, hheld.fresh, hfresh, bond, transfer_eq_ok.mpr ⟨hknown, hheld.fresh, hfresh,
      fun heq => hne (hsalt.mp (Scalar.toNat_inj heq)), hproves, hpushed⟩⟩

/-- In every run the command of an owner is accepted exactly if it is `buy`, there are eight leaves, the note has a salt
and the companion's nullifier is not used. -/
theorem honest_spend_iff (H : Ideal hash) (hlaw : text.Lawful) (h₀ : Deployed w₀)
    (hrun : Run (Completed hash text) ⟨w₀, ⟨[]⟩⟩ tr s) (hroom : s.treeState.commitments.length ≤ maxLeaves)
    (hheld : h.Unspent hash s.world.bond) {command : Command} (hmeets : command.Meets h s.world.timestamp) :
    (∃ call, command.call text hash h s.treeState = some call ∧ Accepted hash s.world call) ↔
      command.Works hash h s.world.bond := by
  obtain ⟨leaves, inv⟩ := synced_of_run h₀ hrun
  rw [inv.strings, List.length_map] at hroom
  cases command with
  | buy buyerWallet buyValue buyerSalt changeSalt =>
    show _ ↔ s.world.bond.commitments.length = maxLeaves ∧ _
    rw [inv.words, List.length_map]
    exact inv.buy_iff H hlaw hroom hheld hmeets
  | redeem now outputSalt₀ outputSalt₁ =>
    refine iff_of_false ?_ id
    rintro ⟨call, hcall, -⟩
    rw [Command.call, redeem_eq_none hlaw H hheld.keyFits] at hcall
    exact absurd hcall (Option.some_ne_none call).symm

/-! ## Sample -/

namespace Sample

open Compliance (idealHash)

def printed : Text Unbounded where
  display x := ['F', 'r', '(', '0', 'x'] ++ encodeHex (beOfNat 32 (Scalar.toNat x)) ++ [')']
  decode := decodeHex nibble
  fromStr s := if s ≠ [] ∧ s.all Char.isDigit then some (Scalar.ofNat (Nat.ofDigitChars 10 s 0)) else none

theorem printed_lawful : printed.Lawful := ⟨fun _ _ => rfl, fun _ => rfl⟩

def held : Holding := ⟨1, 2, 1, 0, 0⟩

def listed (n : Nat) : List (Note Unbounded) :=
  (held.note idealHash).toNote :: List.replicate n (held.dummy idealHash).toNote

def bought : Command := .buy (held.keys printed idealHash) 1 2 3

theorem held_fits : Scalar.toNat ((held.note idealHash).commitment idealHash) < 2 ^ 256 ∧
    Scalar.toNat ((held.dummy idealHash).commitment idealHash) < 2 ^ 256 ∧
    Scalar.toNat (idealHash [ofU64 held.num]) < 2 ^ 256 := by
  decide +kernel

theorem listed_fits (n : Nat) : ∀ note ∈ listed n, Scalar.toNat (note.commitment idealHash) < 2 ^ 256 := by
  intro note hnote
  rcases List.mem_cons.mp hnote with rfl | hnote
  · exact held_fits.1
  · rw [List.eq_of_mem_replicate hnote]
    exact held_fits.2.1

theorem unspent {n : Nat} {bond : PrivateBond} (hcommitments : bond.commitments =
      (listed (n + 1)).map (fun note => Scalar.toNat (note.commitment idealHash)))
    (hfresh : ∀ word, bond.nullifiers word = false) : held.Unspent idealHash bond := by
  refine ⟨?_, ?_, hfresh _, held_fits.2.2⟩
  · rw [hcommitments]
    exact List.mem_cons_self
  · rw [hcommitments]
    exact List.mem_cons_of_mem _ List.mem_cons_self

theorem bought_meets (timestamp : Nat) : bought.Meets held timestamp := by
  show (1 : UInt64) < 2
  decide

end Sample

open Sample

/-- Over a note and seven companions the note can be split. -/
theorem honest_spend_sample : ∃ w₀ tr s call, Deployed w₀ ∧
    Run (Completed Compliance.idealHash printed) ⟨w₀, ⟨[]⟩⟩ tr s ∧
    bought.call printed Compliance.idealHash held s.treeState = some call ∧
    Accepted Compliance.idealHash s.world call := by
  obtain ⟨w₀, st, s, hdeployed, hrun, hlength, hcommitments, hfresh⟩ := @exists_completed _ _
    Compliance.idealHash printed (listed 7) (List.cons_ne_nil _ _) (listed_fits 7)
  have hworks : bought.Works Compliance.idealHash held s.world.bond := by
    refine ⟨?_, by decide, hfresh _⟩
    rw [hcommitments, List.length_map]
    rfl
  obtain ⟨call, hcall, haccepted⟩ := (honest_spend_iff Compliance.idealHash_ideal printed_lawful hdeployed hrun
    (Nat.le_of_eq hlength) (Sample.unspent hcommitments hfresh) (bought_meets _)).mpr hworks
  exact ⟨w₀, _, s, call, hdeployed, hrun, hcall, haccepted⟩

/-- Over a note and its companion alone the contract does not know the wallet's root. -/
theorem honest_spend_rejected : ∃ w₀ tr s, Deployed w₀ ∧
    Run (Completed Compliance.idealHash printed) ⟨w₀, ⟨[]⟩⟩ tr s ∧
    s.treeState.commitments.length ≤ maxLeaves ∧ held.Unspent Compliance.idealHash s.world.bond ∧
    bought.Meets held s.world.timestamp ∧
    ¬ ∃ call, bought.call printed Compliance.idealHash held s.treeState = some call ∧
      Accepted Compliance.idealHash s.world call := by
  obtain ⟨w₀, st, s, hdeployed, hrun, hlength, hcommitments, hfresh⟩ := @exists_completed _ _
    Compliance.idealHash printed (listed 1) (List.cons_ne_nil _ _) (listed_fits 1)
  have hroom : s.treeState.commitments.length ≤ maxLeaves := hlength.trans_le (by decide)
  have hheld : held.Unspent Compliance.idealHash s.world.bond := Sample.unspent hcommitments hfresh
  refine ⟨w₀, _, s, hdeployed, hrun, hroom, hheld, bought_meets _, fun hcall => ?_⟩
  obtain ⟨leaves, inv⟩ := synced_of_run hdeployed hrun
  rw [inv.strings, List.length_map] at hlength hroom
  have hmax := ((inv.buy_iff Compliance.idealHash_ideal printed_lawful hroom hheld (bought_meets 0)).mp hcall).1
  rw [hlength] at hmax
  exact absurd hmax (by decide)

end Pocs.Bond
