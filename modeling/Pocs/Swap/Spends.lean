import Pocs.Swap.System
import Mathlib.Data.Multiset.UnionInter

/-! # Spending once, and conservation

A transfer moves the value of one note to another (`Moves`). In a run whose nullifier words are
canonical and whose funded words are no nodes of a tree, a note is moved once, and a transfer replaces
one unspent note by another of the same chain, asset and value (`spent_once_and_conserved`).

The contract keeps the nullifier as it is sent while the circuit sees its residue, so a second word of
the residue spends the note again (`spent_twice`). -/

namespace Pocs.Swap

open Compliance (BnField Word merkleHash binaryMerkleRoot_eq_foldPath)
open PrivateUtxo

variable {F P T : Type} [BnField F] [AddCommGroup P] {D : Deployment F P T} {w w' w₀ : World T}
  {tr : List Step} {st : Step} {args : TransferArgs} {a b note : Note F} {utxo utxo' : PrivateUtxo T}

/-! ## Notes that a transfer moves -/

/-- A proof for the words opens `a` and creates `b`. -/
def Moves (D : Deployment F P T) (args : TransferArgs) (a b : Note F) : Prop :=
  ∃ wit, Proves D args wit ∧ wit.input = a ∧ wit.output = b

/-- What a transfer conserves. -/
def Note.funds (note : Note F) : F × F × UInt64 := (note.chainId, note.assetId, note.value)

theorem Moves.nullifier (h : Moves D args a b) : (Scalar.ofNat args.nullifier : F) = a.nullifier D.hash := by
  obtain ⟨wit, hmain, rfl, rfl⟩ := h
  exact (main_ok hmain).nullifier

theorem Moves.created (h : Moves D args a b) :
    (Scalar.ofNat args.newCommitment : F) = computeCommitment D.hash b := by
  obtain ⟨wit, hmain, rfl, rfl⟩ := h
  exact (main_ok hmain).created

theorem Moves.funds (h : Moves D args a b) : a.funds = b.funds := by
  obtain ⟨wit, hmain, rfl, rfl⟩ := h
  have hok := main_ok hmain
  simp only [Note.funds, hok.chainId, hok.assetId, hok.value]

/-- An opened note is a leaf, if no leaf is a node. -/
theorem Moves.mem (h : Moves D args a b) (H : IdealHash D.hash) {leaves : List F}
    (hspans : Merkle.Spans (merkleHash D.hash) leaves (Scalar.ofNat args.root : F))
    (hleaves : ∀ leaf ∈ leaves, ∀ l r, leaf ≠ merkleHash D.hash l r) : computeCommitment D.hash a ∈ leaves := by
  obtain ⟨wit, hmain, rfl, rfl⟩ := h
  have hincluded := (main_ok hmain).included
  rw [binaryMerkleRoot_eq_foldPath] at hincluded
  replace hincluded : _ = (Scalar.ofNat args.root : F) := hincluded
  rw [← hincluded] at hspans
  exact (hspans.of_foldPath H.ideal.node_inj hleaves).mem fun l r =>
    computeCommitment_ne_merkleHash H wit.input l r

/-! ## Unspent notes -/

open Classical in
noncomputable def noteAt (hash : List F → F) (leaf : F) : Option (Note F) :=
  if h : ∃ note, computeCommitment hash note = leaf then some h.choose else none

/-- A word of its nullifier is marked. -/
def PrivateUtxo.Spent (D : Deployment F P T) (utxo : PrivateUtxo T) (note : Note F) : Prop :=
  ∃ n, utxo.nullifiers n = true ∧ (Scalar.ofNat n : F) = note.nullifier D.hash

open Classical in
/-- The notes of the tree that are not spent. -/
noncomputable def PrivateUtxo.unspent (D : Deployment F P T) (utxo : PrivateUtxo T) : Multiset (Note F) :=
  ((utxo.leaves D).filterMap (noteAt D.hash)).filter fun note => ¬ utxo.Spent D note

theorem noteAt_eq_some {hash : List F → F} (H : IdealHash hash) {leaf : F} {note : Note F} :
    noteAt hash leaf = some note ↔ computeCommitment hash note = leaf := by
  unfold noteAt
  split
  · next h =>
    have hchoose := h.choose_spec
    constructor
    · intro heq
      rw [← Option.some.inj heq]
      exact hchoose
    · intro heq
      exact congrArg some (computeCommitment_inj H (hchoose.trans heq.symm))
  · next h => exact iff_of_false (Option.some_ne_none note).symm fun heq => h ⟨note, heq⟩

omit [AddCommGroup P] in
theorem PrivateUtxo.mem_unspent (H : IdealHash D.hash) : note ∈ utxo.unspent D ↔
    computeCommitment D.hash note ∈ utxo.leaves D ∧ ¬ utxo.Spent D note := by
  classical
  rw [unspent, Multiset.mem_coe, List.mem_filter, List.mem_filterMap, decide_eq_true_iff]
  refine and_congr_left fun _ => ?_
  simp only [noteAt_eq_some H, exists_eq_right']

omit [AddCommGroup P] in
theorem PrivateUtxo.unspent_nodup (H : IdealHash D.hash) (hnodup : (utxo.leaves D).Nodup) :
    (utxo.unspent D).Nodup := by
  refine Multiset.coe_nodup.mpr (List.Nodup.filter _ (hnodup.filterMap ?_))
  intro leaf leaf' note h h'
  rw [← (noteAt_eq_some H).mp h, ← (noteAt_eq_some H).mp h']

/-! ## Runs that spend once -/

/-- A canonical nullifier word, and funding with anything but a node of a tree. -/
def Step.Plain (D : Deployment F P T) : Step → Prop
  | .fund _ commitment _ => ∀ l r, (Scalar.ofNat commitment : F) ≠ merkleHash D.hash l r
  | .transfer _ args _ => BnField.canonical F args.nullifier = true
  | _ => True

structure SpendInv (D : Deployment F P T) (tr : List Step) (w : World T) : Prop where
  leaves : ∀ leaf ∈ w.utxo.leaves D, ∀ l r, leaf ≠ merkleHash D.hash l r
  canonical : ∀ n ∈ marked tr, BnField.canonical F n = true
  spent : ∀ note, w.utxo.Spent D note → computeCommitment D.hash note ∈ w.utxo.leaves D

theorem Transferred.moves (hV : D.Verifies) {timestamp : Nat} {events : List Event}
    (h : PrivateUtxo.Transferred D utxo timestamp args utxo' events) : ∃ a b, Moves D args a b := by
  obtain ⟨wit, hmain⟩ := (hV args).mp ⟨_, h.proof⟩
  exact ⟨_, _, wit, hmain, rfl, rfl⟩

omit [AddCommGroup P] in
/-- After a transfer, the note of its nullifier is spent too. -/
theorem Transferred.spent_iff {timestamp : Nat} {events : List Event}
    (h : PrivateUtxo.Transferred D utxo timestamp args utxo' events) : utxo'.Spent D note ↔
      (Scalar.ofNat args.nullifier : F) = note.nullifier D.hash ∨ utxo.Spent D note := by
  unfold PrivateUtxo.Spent
  rw [h.nullifiers]
  constructor
  · rintro ⟨n, hn, hword⟩
    rcases eq_or_ne n args.nullifier with rfl | hne
    · exact .inl hword
    · exact .inr ⟨n, by rwa [Function.update_of_ne hne] at hn, hword⟩
  · rintro (hword | ⟨n, hn, hword⟩)
    · exact ⟨_, Function.update_self .., hword⟩
    · refine ⟨n, ?_, hword⟩
      rcases eq_or_ne n args.nullifier with rfl | hne
      · exact Function.update_self ..
      · rwa [Function.update_of_ne hne]

/-- The note that a plain transfer opens is in the tree and not spent. -/
theorem SpendInv.opened (spends : SpendInv D tr w) (inv : UtxoInv D tr w) (H : IdealHash D.hash)
    {timestamp : Nat} {events : List Event} (h : PrivateUtxo.Transferred D w.utxo timestamp args utxo' events)
    (hcanonical : BnField.canonical F args.nullifier = true) (hmoves : Moves D args a b) :
    a ∈ w.utxo.unspent D := by
  refine (mem_unspent H).mpr ⟨hmoves.mem H (inv.spans _ h.root) spends.leaves, ?_⟩
  rintro ⟨n, hn, hword⟩
  have hmarked := (inv.marked n).mp hn
  have hsame : n = args.nullifier := by
    rw [BnField.eq_toNat (spends.canonical n hmarked) hword, BnField.eq_toNat hcanonical hmoves.nullifier]
  have hfresh := h.fresh
  rw [← hsame, hn] at hfresh
  cases hfresh

theorem SpendInv.step (spends : SpendInv D tr w) (inv : UtxoInv D tr w) (hV : D.Verifies)
    (H : IdealHash D.hash) (hL : D.imt.Lawful (merkleHash D.hash)) (hplain : st.Plain D)
    (h : Transition D w st w') : SpendInv D (st :: tr) w' := by
  cases h with
  | @fund sender commitment utxo events ok =>
    obtain ⟨-, hins⟩ := fund_ok ok
    obtain ⟨-, -, hleaves⟩ := hins.leaves hL
    refine ⟨fun leaf hleaf => ?_, spends.canonical, fun note hspent => ?_⟩
    · rcases List.mem_append.mp (hleaves ▸ hleaf) with hold | hnew
      · exact spends.leaves leaf hold
      · rw [List.mem_singleton.mp hnew]
        exact hplain
    · obtain ⟨n, hn, hword⟩ := hspent
      have hold := spends.spent note ⟨n, hins.nullifiers ▸ hn, hword⟩
      show _ ∈ utxo.leaves D
      rw [hleaves]
      exact List.mem_append_left _ hold
  | @transfer args utxo events ok =>
    have htransfer := transfer_ok ok
    obtain ⟨a, b, hmoves⟩ := Transferred.moves hV htransfer
    obtain ⟨-, hleaves⟩ := htransfer.leaves hL
    refine ⟨fun leaf hleaf => ?_, fun n hn => ?_, fun note hspent => ?_⟩
    · rcases List.mem_append.mp (hleaves ▸ hleaf) with hold | hnew
      · exact spends.leaves leaf hold
      · rw [List.mem_singleton.mp hnew, hmoves.created]
        exact computeCommitment_ne_merkleHash H b
    · rcases List.mem_cons.mp hn with rfl | hold
      · exact hplain
      · exact spends.canonical n hold
    · show _ ∈ utxo.leaves D
      rw [hleaves]
      apply List.mem_append_left
      rcases (Transferred.spent_iff htransfer).mp hspent with hword | hold
      · rw [← Note.nullifier_inj H (hmoves.nullifier.symm.trans hword)]
        exact hmoves.mem H (inv.spans _ htransfer.root) spends.leaves
      · exact spends.spent note hold
  | fundReverted | transferReverted | tick => exact ⟨spends.leaves, spends.canonical, spends.spent⟩

theorem Run.spendInv (hV : D.Verifies) (H : IdealHash D.hash) (hL : D.imt.Lawful (merkleHash D.hash))
    (h₀ : Deployed D w₀) (hrun : Run (Transition D) w₀ tr w) (hplain : ∀ st ∈ tr, st.Plain D) :
    SpendInv D tr w := by
  induction hrun with
  | nil =>
    cases h₀ with
    | @mk timestamp sender =>
      have hleaves : (PrivateUtxo.new D sender).leaves D = [] := hL.leaves_empty
      refine ⟨fun leaf hleaf => ?_, fun n hn => absurd hn List.not_mem_nil, fun note hspent => ?_⟩
      · rw [hleaves] at hleaf
        exact absurd hleaf List.not_mem_nil
      · obtain ⟨n, hn, -⟩ := hspent
        exact absurd hn Bool.noConfusion
  | cons hrun hstep ih =>
    obtain ⟨hst, htr⟩ := List.forall_mem_cons.mp hplain
    exact (ih htr).step (Run.utxoInv hL h₀ hrun) hV H hL hst hstep

/-- A fund may add a note. A transfer replaces the note it opens by one of the same funds, and nothing
else changes the unspent notes. -/
def Conserves (D : Deployment F P T) (utxo utxo' : PrivateUtxo T) : Step → Prop
  | .fund _ commitment _ => utxo.unspent D ≤ utxo'.unspent D ∧ ∀ note ∈ utxo'.unspent D, note ∈ utxo.unspent D ∨
      computeCommitment D.hash note = Scalar.ofNat commitment
  | .transfer _ args _ => ∃ a b rest, Moves D args a b ∧ a.funds = b.funds ∧
    utxo.unspent D = a ::ₘ rest ∧ utxo'.unspent D = b ::ₘ rest ∧
    (utxo'.unspent D).map Note.funds = (utxo.unspent D).map Note.funds
  | _ => utxo' = utxo

/-- What the words of a run conserve. -/
structure Conserved (D : Deployment F P T) (tr : List Step) (w : World T) : Prop where
  /-- A note is the input of at most one transfer. -/
  once : ∀ {i j timestamp timestamp' : Nat} {args args' : TransferArgs} {events events' : List Event}
    {a b b' : Note F}, tr[i]? = some (.transfer timestamp args events) →
    tr[j]? = some (.transfer timestamp' args' events') → Moves D args a b → Moves D args' a b' → i = j
  step : ∀ {st w'}, Transition D w st w' → st.Plain D → Conserves D w.utxo w'.utxo st

theorem SpendInv.conserves (spends : SpendInv D tr w) (inv : UtxoInv D tr w) (hV : D.Verifies)
    (H : IdealHash D.hash) (hL : D.imt.Lawful (merkleHash D.hash)) (hplain : st.Plain D)
    (h : Transition D w st w') : Conserves D w.utxo w'.utxo st := by
  cases h with
  | @fund sender commitment utxo events ok =>
    obtain ⟨-, hins⟩ := fund_ok ok
    obtain ⟨-, -, hleaves⟩ := hins.leaves hL
    have hspent : ∀ note, utxo.Spent D note ↔ w.utxo.Spent D note := by
      intro note
      unfold PrivateUtxo.Spent
      rw [hins.nullifiers]
    constructor
    · refine (Multiset.le_iff_subset (unspent_nodup H inv.leaves_nodup)).mpr ?_
      intro note hnote
      rw [mem_unspent H] at hnote ⊢
      refine ⟨?_, fun h => hnote.2 ((hspent note).mp h)⟩
      show _ ∈ utxo.leaves D
      rw [hleaves]
      exact List.mem_append_left _ hnote.1
    · intro note hnote
      rw [mem_unspent H] at hnote
      rcases List.mem_append.mp (hleaves ▸ hnote.1) with hold | hnew
      · exact .inl ((mem_unspent H).mpr ⟨hold, fun h => hnote.2 ((hspent note).mpr h)⟩)
      · exact .inr (List.mem_singleton.mp hnew)
  | @transfer args utxo events ok =>
    have htransfer := transfer_ok ok
    obtain ⟨a, b, hmoves⟩ := Transferred.moves hV htransfer
    obtain ⟨hfresh, hleaves⟩ := htransfer.leaves hL
    replace hfresh : computeCommitment D.hash b ∉ w.utxo.leaves D := hmoves.created ▸ hfresh
    have hopened := spends.opened inv H htransfer hplain hmoves
    have hleaf := ((mem_unspent H).mp hopened).1
    have hne : b ≠ a := fun heq => hfresh (heq ▸ hleaf)
    obtain ⟨rest, hrest⟩ := Multiset.exists_cons_of_mem hopened
    have hnodup := unspent_nodup H inv.leaves_nodup
    have hbnew : b ∉ w.utxo.unspent D := fun hmem => hfresh ((mem_unspent H).mp hmem).1
    rw [hrest, Multiset.nodup_cons] at hnodup
    rw [hrest, Multiset.mem_cons, not_or] at hbnew
    have hunspent : utxo.unspent D = b ::ₘ rest := by
      refine (Multiset.Nodup.ext (unspent_nodup H (htransfer.inserted.nodup hL
        inv.leaves_nodup)) (Multiset.nodup_cons.mpr ⟨hbnew.2, hnodup.2⟩)).mpr fun note => ?_
      have hold : note ∈ rest ↔ note ≠ a ∧ note ∈ w.utxo.unspent D := by
        rw [hrest, Multiset.mem_cons]
        constructor
        · exact fun hmem => ⟨fun heq => hnodup.1 (heq ▸ hmem), .inr hmem⟩
        · exact fun h => h.2.resolve_left h.1
      -- only the nullifier of the opened note has been marked
      have hword : (Scalar.ofNat args.nullifier : F) = note.nullifier D.hash ↔ note = a := by
        rw [hmoves.nullifier]
        exact ⟨fun h => (Note.nullifier_inj H h).symm, fun h => h ▸ rfl⟩
      rw [Multiset.mem_cons, hold, mem_unspent H, mem_unspent H, hleaves,
        List.mem_append, List.mem_singleton, Transferred.spent_iff htransfer, hword, hmoves.created]
      constructor
      · rintro ⟨hmem | hnew, hspent⟩
        · exact .inr ⟨fun h => hspent (.inl h), hmem, fun h => hspent (.inr h)⟩
        · exact .inl (computeCommitment_inj H hnew)
      · rintro (rfl | ⟨hother, hmem, hspent⟩)
        · exact ⟨.inr rfl, fun h => h.elim hne fun h => hfresh (spends.spent _ h)⟩
        · exact ⟨.inl hmem, fun h => h.elim hother hspent⟩
    refine ⟨a, b, rest, hmoves, hmoves.funds, hrest, hunspent, ?_⟩
    rw [hunspent, hrest, Multiset.map_cons, Multiset.map_cons, hmoves.funds]
  | fundReverted | transferReverted | tick => exact rfl

theorem spent_once_and_conserved (hV : D.Verifies) (H : IdealHash D.hash)
    (hL : D.imt.Lawful (merkleHash D.hash)) (h₀ : Deployed D w₀) (hrun : Run (Transition D) w₀ tr w)
    (hplain : ∀ st ∈ tr, st.Plain D) : Conserved D tr w := by
  have inv := Run.utxoInv hL h₀ hrun
  have spends := Run.spendInv hV H hL h₀ hrun hplain
  constructor
  · intro i j timestamp timestamp' args args' events events' a b b' hi hj hmoves hmoves'
    have hcanonical := hplain _ (List.mem_of_getElem? hi)
    have hcanonical' := hplain _ (List.mem_of_getElem? hj)
    have hsame : args.nullifier = args'.nullifier := by
      rw [BnField.eq_toNat hcanonical hmoves.nullifier, BnField.eq_toNat hcanonical' hmoves'.nullifier]
    exact index_eq_of_mem inv.marked_nodup hi hj (List.mem_singleton.mpr rfl) (List.mem_singleton.mpr hsame)
  · intro st w' hstep hst
    exact spends.conserves inv hV H hL hst hstep

/-! ## A nullifier with two words -/

namespace Sample

noncomputable def deployment (hash : List Doubled → Doubled) :
    Deployment Doubled (ZMod 7) (LeanImtTree (merkleHash hash)) :=
  .ofCircuit hash (cyclicCurve Doubled) (leanImt _)

/-- A standard note of the key `1`. -/
def coin (timeout salt : Nat) : Note Doubled where
  chainId := Scalar.ofNat 1
  value := 100
  assetId := Scalar.ofNat 2
  owner := Scalar.ofNat 1
  fallbackOwner := Scalar.ofNat 2
  timeout := Scalar.ofNat timeout
  salt := Scalar.ofNat salt

def word (hash : List Doubled → Doubled) (note : Note Doubled) : Word :=
  Scalar.toNat (computeCommitment hash note)

def spendArgs (hash : List Doubled → Doubled) (nullifier : Word) (a b : Note Doubled) : TransferArgs where
  proof := []
  nullifier
  root := word hash a
  newCommitment := word hash b
  timeout := 0
  pkStealth := 0
  hSwap := 0
  hR := 0
  hMeta := 0
  hEnc := 0

def spendWitness (a b : Note Doubled) : TransferWitness Doubled where
  skLo := Scalar.ofNat 1
  skHi := 0
  input := a
  path := ⟨0, fun _ => false, fun _ => 0⟩
  output := b
  extras := .zero

variable (hash : List Doubled → Doubled)

theorem spendWitness_key (a b : Note Doubled) :
    (spendWitness a b).key (cyclicCurve Doubled) = Scalar.ofNat 1 := by
  have hlo : Scalar.toNat (Scalar.ofNat 1 : Doubled) = 1 := Scalar.toNat_ofNat (by decide)
  have hvalue : (EmbeddedCurveScalar.mk (Scalar.ofNat 1 : Doubled) 0).value = 1 := by
    rw [EmbeddedCurveScalar.value, hlo, Scalar.toNat_zero, Nat.mul_zero]
  rw [TransferWitness.key, derivePublicKey, EmbeddedCurve.fixedBaseScalarMul, spendWitness, hvalue, one_smul]
  rfl

theorem spend_moves {nullifier : Word} {salt timeout salt' : Nat}
    (hn : (Scalar.ofNat nullifier : Doubled) = (coin 0 salt).nullifier hash) :
    Moves (deployment hash) (spendArgs hash nullifier (coin 0 salt) (coin timeout salt')) (coin 0 salt)
      (coin timeout salt') := by
  refine ⟨spendWitness (coin 0 salt) (coin timeout salt'), main_eq_ok.mpr
    ⟨?_, hn, BnField.ofNat_toNat _, rfl, rfl, rfl, ?_, fun h => absurd rfl h⟩, rfl, rfl⟩
  · exact (binaryMerkleRoot_zero _ _ _ _).trans (BnField.ofNat_toNat _).symm
  · exact assertMode_transfer ⟨rfl, rfl, rfl, rfl, rfl⟩ rfl rfl (spendWitness_key _ _) rfl

variable {hash} (H : IdealHash hash)
include H

theorem exists_transfer {utxo : PrivateUtxo (LeanImtTree (merkleHash hash))} {args : TransferArgs}
    {timestamp : Nat} {a b : Note Doubled} (hmoves : Moves (deployment hash) args a b)
    (hroot : utxo.isKnownRoot (deployment hash) args.root = true)
    (hfresh : utxo.nullifiers args.nullifier = false) (htime : PrivateUtxo.checkTimeout timestamp args = .ok ())
    (hword : args.newCommitment = word hash b)
    (hnew : computeCommitment hash b ∉ utxo.leaves (deployment hash)) :
    ∃ utxo' events, utxo.transfer (deployment hash) timestamp args = .ok (utxo', events) := by
  have hcreated : (Scalar.ofNat args.newCommitment : Doubled) = computeCommitment hash b :=
    hmoves.created
  obtain ⟨wit, hmain, -⟩ := hmoves
  have hproof := @Deployment.verify_ofCircuit _ _ _ _ _ hash (cyclicCurve Doubled)
    (leanImt (merkleHash hash)) args args.proof
  refine PrivateUtxo.exists_transfer leanImt_inserts hroot hfresh (hproof.mpr ⟨wit, hmain⟩) htime ?_ ?_ ?_
  · rw [hword]
    exact BnField.canonical_toNat _
  · rw [hcreated]
    exact H.ne_zero (List.cons_ne_nil _ _) (Nat.le_of_ble_eq_true rfl)
  · rw [hcreated]
    exact hnew

theorem word_ne_zero (note : Note Doubled) : word hash note ≠ 0 := by
  intro h
  have hzero : computeCommitment hash note = 0 := Scalar.toNat_inj (h.trans Scalar.toNat_zero.symm)
  exact H.ne_zero (List.cons_ne_nil _ _) (Nat.le_of_ble_eq_true rfl) hzero

/-- The contract funded with one note. -/
theorem exists_funded (note : Note Doubled) (timestamp : Nat) : ∃ w₀ w events,
    Deployed (deployment hash) w₀ ∧ w.timestamp = timestamp ∧
    Transition (deployment hash) w₀ (.fund 0 (word hash note) events) w ∧
    w.utxo.commitmentRoot (deployment hash) = word hash note ∧
    w.utxo.leaves (deployment hash) = [computeCommitment hash note] ∧ w.utxo.nullifiers = fun _ => false := by
  have hcommitment : (Scalar.ofNat (word hash note) : Doubled) = computeCommitment hash note :=
    BnField.ofNat_toNat _
  have hzero : computeCommitment hash note ≠ 0 :=
    H.ne_zero (List.cons_ne_nil _ _) (Nat.le_of_ble_eq_true rfl)
  obtain ⟨utxo, events, hfund⟩ := @PrivateUtxo.exists_fund _ _ _ _ (deployment hash)
    (.new (deployment hash) 0) leanImt_inserts (word hash note) (BnField.canonical_toNat _)
    (hcommitment ▸ hzero) List.not_mem_nil
  obtain ⟨-, hins⟩ := fund_ok hfund
  have htree := hins.tree
  rw [hcommitment] at htree
  refine ⟨⟨timestamp, .new (deployment hash) 0⟩, ⟨timestamp, utxo⟩, events, .mk, rfl, .fund hfund, ?_,
    (leanImt_lawful.insert htree).2.2, hins.nullifiers⟩
  exact congrArg Scalar.toNat (leanImt_root_first hzero htree)

omit H in
theorem coin_ne {timeout timeout' salt salt' : Nat} (hsalt : salt < 2 ^ 64) (hsalt' : salt' < 2 ^ 64)
    (hne : salt ≠ salt') : coin timeout salt ≠ coin timeout' salt' :=
  fun h => hne (Scalar.ofNat_inj hsalt hsalt' (congrArg Note.salt h))

/-- The note of a fund is transferred. -/
theorem exists_moved {args : TransferArgs} {a b : Note Doubled} {timestamp : Nat}
    (hmoves : Moves (deployment hash) args a b) (hroot : args.root = word hash a)
    (hword : args.newCommitment = word hash b) (hne : b ≠ a) (htime : checkTimeout timestamp args = .ok ()) :
    ∃ w₀ w e₁ e₂, Deployed (deployment hash) w₀ ∧ Run (Transition (deployment hash)) w₀
      [.transfer timestamp args e₂, .fund 0 (word hash a) e₁] w ∧
      computeCommitment hash b ∈ w.utxo.leaves (deployment hash) := by
  obtain ⟨w₀, w₁, e₁, hdeployed, rfl, hfund, hroot₁, hleaves, hnone⟩ := exists_funded H a timestamp
  obtain ⟨utxo, e₂, htransfer⟩ := @exists_transfer hash H w₁.utxo _ w₁.timestamp _ _ hmoves
    (isKnownRoot_iff.mpr ⟨hroot ▸ word_ne_zero H a, .inl (hroot.trans hroot₁.symm)⟩) (by rw [hnone]) htime
    hword (by
      rw [hleaves, List.mem_singleton]
      exact fun h => hne (computeCommitment_inj H h))
  refine ⟨w₀, ⟨w₁.timestamp, utxo⟩, e₁, e₂, hdeployed, .cons (.cons .nil hfund) (.transfer htransfer), ?_⟩
  show _ ∈ utxo.leaves _
  rw [((transfer_ok htransfer).leaves leanImt_lawful).2, hmoves.created]
  exact List.mem_append_right _ List.mem_cons_self

/-- Both words of its nullifier spend the note. -/
theorem exists_twice : ∃ w₀ w₁ w₂ w₃ e₁ e₂ e₃, Deployed (deployment hash) w₀ ∧
    Transition (deployment hash) w₀ (.fund 0 (word hash (coin 0 0)) e₁) w₁ ∧
    Transition (deployment hash) w₁ (.transfer 100 (spendArgs hash
      (Scalar.toNat ((coin 0 0).nullifier hash)) (coin 0 0) (coin 0 1)) e₂) w₂ ∧
    Transition (deployment hash) w₂ (.transfer 100 (spendArgs hash
      (Scalar.toNat ((coin 0 0).nullifier hash) + Civic.bn254) (coin 0 0) (coin 0 2)) e₃) w₃ := by
  obtain ⟨w₀, w₁, e₁, hdeployed, hclock, hfund, hroot, hleaves, hnone⟩ := exists_funded H (coin 0 0) 100
  have hword := word_ne_zero H (coin 0 0)
  have hnew : ∀ {salt salt'}, salt < 2 ^ 64 → salt' < 2 ^ 64 → salt ≠ salt' →
      computeCommitment hash (coin 0 salt) ≠ computeCommitment hash (coin 0 salt') :=
    fun hs hs' hne h => coin_ne hs hs' hne (computeCommitment_inj H h)
  obtain ⟨utxo₂, e₂, h₂⟩ := @exists_transfer hash H w₁.utxo _ w₁.timestamp _ _
    (@spend_moves hash _ 0 0 1 (BnField.ofNat_toNat _))
    (PrivateUtxo.isKnownRoot_iff.mpr ⟨hword, .inl hroot.symm⟩) (by rw [hnone]) rfl rfl (by
      rw [hleaves, List.mem_singleton]
      exact hnew (by decide) (by decide) (by decide))
  have htransferred := transfer_ok h₂
  -- the root of the first transfer is still known
  have hknown : utxo₂.roots.valid (word hash (coin 0 0)) = true := by
    rw [← hroot]
    exact htransferred.remembers (hroot ▸ hword)
  have hleaves₂ : utxo₂.leaves (deployment hash) =
      [computeCommitment hash (coin 0 0), computeCommitment hash (coin 0 1)] := by
    refine (htransferred.leaves leanImt_lawful).2.trans ?_
    rw [hleaves]
    exact congrArg (fun c => [computeCommitment hash (coin 0 0), c])
      (BnField.ofNat_toNat (computeCommitment hash (coin 0 1)))
  have hfresh : utxo₂.nullifiers (Scalar.toNat ((coin 0 0).nullifier hash) + Civic.bn254) = false := by
    rw [htransferred.nullifiers, hnone, Function.update_of_ne]
    exact Nat.ne_of_gt (Nat.lt_add_of_pos_right (by decide))
  obtain ⟨utxo₃, e₃, h₃⟩ := @exists_transfer hash H utxo₂ _ w₁.timestamp _ _
    (@spend_moves hash _ 0 0 2 (Doubled.reduce_add ((coin 0 0).nullifier hash)))
    (PrivateUtxo.isKnownRoot_iff.mpr ⟨hword, .inr hknown⟩) hfresh rfl rfl (by
      rw [hleaves₂, List.mem_cons, List.mem_singleton, not_or]
      exact ⟨hnew (by decide) (by decide) (by decide), hnew (by decide) (by decide) (by decide)⟩)
  rw [← hclock]
  exact ⟨w₀, w₁, ⟨w₁.timestamp, utxo₂⟩, ⟨w₁.timestamp, utxo₃⟩, e₁, e₂, e₃, hdeployed, hfund, .transfer h₂,
    .transfer (w := ⟨w₁.timestamp, utxo₂⟩) h₃⟩

end Sample

open Sample

/-- A run of one fund and one transfer. -/
theorem spent_once_and_conserved_sample : ∃ w₀ w tr, Deployed (deployment doubledHash) w₀ ∧
    Run (Transition (deployment doubledHash)) w₀ tr w ∧ tr.length = 2 ∧
    Conserved (deployment doubledHash) tr w := by
  obtain ⟨w₀, w₁, w₂, w₃, e₁, e₂, e₃, hdeployed, hfund, htransfer, -⟩ :=
    exists_twice doubledHash_ideal
  have hrun := Run.cons (Run.cons .nil hfund) htransfer
  refine ⟨w₀, w₂, _, hdeployed, hrun, rfl, spent_once_and_conserved (Deployment.ofCircuit_verifies _ _ _)
    doubledHash_ideal leanImt_lawful hdeployed hrun ?_⟩
  refine List.forall_mem_cons.mpr ⟨BnField.canonical_toNat _, List.forall_mem_cons.mpr ⟨?_,
    fun _ hmem => absurd hmem List.not_mem_nil⟩⟩
  intro l r
  rw [word, BnField.ofNat_toNat]
  exact computeCommitment_ne_merkleHash doubledHash_ideal _ l r

/-- With the nullifiers `n` and `n + bn254`, two transfers spend one note. -/
theorem spent_twice : ∃ w₀ w tr timestamp timestamp' args args' events events' a b b',
    Deployed (deployment doubledHash) w₀ ∧ Run (Transition (deployment doubledHash)) w₀ tr w ∧
    tr[1]? = some (.transfer timestamp args events) ∧ tr[0]? = some (.transfer timestamp' args' events') ∧
    Moves (deployment doubledHash) args a b ∧ Moves (deployment doubledHash) args' a b' ∧
    args'.nullifier = args.nullifier + Civic.bn254 := by
  obtain ⟨w₀, w₁, w₂, w₃, e₁, e₂, e₃, hdeployed, hfund, htransfer, hagain⟩ :=
    exists_twice doubledHash_ideal
  exact ⟨w₀, w₃, _, _, _, _, _, _, _, _, _, _, hdeployed, .cons (.cons (.cons .nil hfund) htransfer) hagain,
    rfl, rfl, spend_moves doubledHash (BnField.ofNat_toNat _),
    spend_moves doubledHash (Doubled.reduce_add _), rfl⟩

end Pocs.Swap
