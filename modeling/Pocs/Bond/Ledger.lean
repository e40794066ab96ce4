import Pocs.Lib.Notes
import Pocs.Bond.Contract

/-! # Runs of the bond contract, and the value of its notes

Calls by anyone in any order, and the clock. In a run of `Admitted` steps a note is spent by one call, and the value
of the notes that are listed and not spent is raised by minting and lowered by burning only. -/

namespace Pocs.Bond

open Compliance (BnField Word Address)
open PrivateBond

variable {F : Type} [BnField F]

/-- The contract and the time of the block. -/
structure World where
  /-- `block.timestamp`. -/
  timestamp : Nat
  bond : PrivateBond

/-- A call with its arguments, a revert, or time that passes. -/
inductive Step (F : Type) where
  | mint (sender : Address) (commitment : Word)
  | mintBatch (sender : Address) (commitments : List Word)
  | transfer (args : SpendArgs F)
  | burn (timestamp : Nat) (args : SpendArgs F) (inputMaturityDate isRedeem : Word)
  | atomicSwap (timestamp : Nat) (sender : Address) (proofA : Proof F) (publicInputsA : List Word) (proofB : Proof F)
    (publicInputsB : List Word)
  /-- A call that reverts. -/
  | reverted
  | tick (timestamp : Nat)

inductive Transition (hash : List F → F) (w : World) : Step F → World → Prop where
  | mint {sender commitment bond} (ok : w.bond.mint hash sender commitment = .ok bond) :
    Transition hash w (.mint sender commitment) { w with bond }
  | mintBatch {sender commitments bond} (ok : w.bond.mintBatch hash sender commitments = .ok bond) :
    Transition hash w (.mintBatch sender commitments) { w with bond }
  | transfer {args bond} (ok : w.bond.transfer hash args = .ok bond) :
    Transition hash w (.transfer args) { w with bond }
  | burn {args inputMaturityDate isRedeem bond}
    (ok : w.bond.burn hash w.timestamp args inputMaturityDate isRedeem = .ok bond) :
    Transition hash w (.burn w.timestamp args inputMaturityDate isRedeem) { w with bond }
  | atomicSwap {sender proofA publicInputsA proofB publicInputsB bond}
    (ok : w.bond.atomicSwap hash w.timestamp sender proofA publicInputsA proofB publicInputsB = .ok bond) :
    Transition hash w (.atomicSwap w.timestamp sender proofA publicInputsA proofB publicInputsB) { w with bond }
  | reverted : Transition hash w .reverted w
  | tick {timestamp} (le : w.timestamp ≤ timestamp) : Transition hash w (.tick timestamp) { w with timestamp }

/-- The contract as its owner deployed it. -/
inductive Deployed : World → Prop where
  | mk {timestamp owner} : Deployed ⟨timestamp, PrivateBond.new owner⟩

/-! ## The notes of a call -/

def Proof.inputs (proof : Proof F) : List (Note F) :=
  [input₀ proof.inputMaturityDate proof.witness, input₁ proof.inputMaturityDate proof.witness]

def Proof.outputs (proof : Proof F) : List (Note F) :=
  [output₀ proof.outputMaturityDate proof.witness, output₁ proof.outputMaturityDate proof.witness]

def Step.inputs : Step F → List (Note F)
  | .transfer args => args.proof.inputs
  | .burn _ args _ _ => args.proof.inputs
  | .atomicSwap _ _ proofA _ proofB _ => proofA.inputs ++ proofB.inputs
  | _ => []

def spentNotes (tr : List (Step F)) : List (Note F) := tr.flatMap Step.inputs

def Step.minted : Step F → List Word
  | .mint _ commitment => [commitment]
  | .mintBatch _ commitments => commitments
  | _ => []

open Classical in
noncomputable def noteAt (hash : List F → F) (leaf : F) : Option (Note F) :=
  if h : ∃ note : Note F, note.commitment hash = leaf then some h.choose else none

noncomputable def PrivateBond.notes (hash : List F → F) (bond : PrivateBond) : List (Note F) :=
  (bond.leaves F).dedup.filterMap (noteAt hash)

/-- The value of the notes of the list that the calls of the trace have not spent. -/
noncomputable def unspentValue (hash : List F → F) (tr : List (Step F)) (bond : PrivateBond) : Nat :=
  unspent (fun note : Note F => note.value.toNat) (· ∈ spentNotes tr) (bond.notes hash)

/-! ## The steps of a run -/

def Step.MintsNotes (hash : List F → F) (st : Step F) : Prop :=
  ∀ commitment ∈ st.minted, ∃ note : Note F, note.commitment hash = Scalar.ofNat commitment

/-- A list of output notes in which none of positive value is listed twice or is in the commitments already. -/
def FreshOutputs (hash : List F → F) (bond : PrivateBond) (outputs : List (Note F)) : Prop :=
  (outputs.filter fun note => note.value.toNat ≠ 0).Nodup ∧
    ∀ note ∈ outputs, note.value.toNat ≠ 0 → note.commitment hash ∉ bond.leaves F

def SpendArgs.canonical (args : SpendArgs F) : Prop :=
  BnField.canonical F args.nullifiersIn.1 = true ∧ BnField.canonical F args.nullifiersIn.2 = true

/-- Nullifier words below the modulus, outputs that are new, and no swap. -/
def Step.Guarded (hash : List F → F) (bond : PrivateBond) : Step F → Prop
  | .transfer args => args.canonical ∧ FreshOutputs hash bond args.proof.outputs
  | .burn _ args _ _ => args.canonical
  | .atomicSwap .. => False
  | _ => True

/-- A call that meets the condition. -/
structure Admitted (hash : List F → F) (w : World) (st : Step F) (w' : World) : Prop where
  step : Transition hash w st w'
  mints : st.MintsNotes hash
  guarded : st.Guarded hash w.bond

/-- A call of the list does to the unspent value what it may. -/
def Conserves (hash : List F → F) (tr : List (Step F)) (bond bond' : PrivateBond) (st : Step F) : Prop :=
  match st with
  | .mint .. | .mintBatch .. => unspentValue hash tr bond ≤ unspentValue hash (st :: tr) bond'
  | .burn .. => unspentValue hash (st :: tr) bond' ≤ unspentValue hash tr bond
  | _ => unspentValue hash (st :: tr) bond' = unspentValue hash tr bond

section
variable {hash : List F → F} {bond bond' : PrivateBond} {proof : Proof F} {root n₀ n₁ c₀ c₁ : Word} {note : Note F}
  {tr : List (Step F)} {st : Step F} {w w' w₀ : World} {args : SpendArgs F}

/-! ## What a proof says of its notes -/

namespace Proof.Proves

variable (h : proof.Proves hash root n₀ n₁ c₀ c₁)
include h

theorem satisfied : Satisfied hash (proof.toPublic root n₀ n₁ c₀ c₁) proof.witness proof.isRedeem :=
  main_eq_ok.mp h

/-- The inputs are leaves, if no leaf is a node. -/
theorem mem (H : Separated hash) {leaves : List F}
    (hspans : Merkle.Spans (node hash) leaves (Scalar.ofNat root : F))
    (hleaves : ∀ leaf ∈ leaves, ∀ l r, leaf ≠ node hash l r) : ∀ note ∈ proof.inputs, note.commitment hash ∈ leaves := by
  have hmem : ∀ {note : Note F} {path : List (Bool × F)},
      Merkle.foldPath (node hash) (note.commitment hash) path = Scalar.ofNat root → note.commitment hash ∈ leaves := by
    intro note path hpath
    rw [← hpath] at hspans
    exact (hspans.of_foldPath (node_inj H) hleaves).mem fun l r => commitment_ne_node H note l r
  have hsatisfied := h.satisfied
  intro note hnote
  rcases List.mem_cons.mp hnote with rfl | hnote
  · exact hmem hsatisfied.included₀
  · rw [List.mem_singleton.mp hnote]
    exact hmem hsatisfied.included₁

theorem created : proof.outputs.map (·.commitment hash) = [c₀, c₁].map Scalar.ofNat := by
  have hsatisfied := h.satisfied
  exact congr (congrArg List.cons hsatisfied.created₀) (congrArg (fun c => [c]) hsatisfied.created₁)

theorem balance : (proof.inputs.map fun note => note.value.toNat).sum =
    (proof.outputs.map fun note => note.value.toNat).sum := by
  have hbalance := h.satisfied.balance
  simpa [Proof.inputs, Proof.outputs, input₀, input₁, output₀, output₁] using hbalance

theorem nullifier : ∀ note ∈ proof.inputs, ∃ n ∈ [n₀, n₁], note.hasNullifier hash (Scalar.ofNat n) := by
  have hsatisfied := h.satisfied
  intro note hnote
  rcases List.mem_cons.mp hnote with rfl | hnote
  · exact ⟨n₀, by simp, hsatisfied.hasNullifier₀⟩
  · rw [List.mem_singleton.mp hnote]
    exact ⟨n₁, by simp, hsatisfied.hasNullifier₁⟩

/-- Under two canonical nullifiers there are two notes. -/
theorem inputs_nodup (H : Separated hash)
    (hn₀ : BnField.canonical F n₀ = true) (hn₁ : BnField.canonical F n₁ = true) (hne : n₀ ≠ n₁) :
    proof.inputs.Nodup := by
  have hsatisfied := h.satisfied
  refine List.nodup_cons.mpr ⟨fun hmem => hne ?_, List.nodup_singleton _⟩
  have hnullifier₀ := hsatisfied.hasNullifier₀
  replace hnullifier₀ : (input₀ proof.inputMaturityDate proof.witness).hasNullifier hash (Scalar.ofNat n₀) := hnullifier₀
  rw [List.mem_singleton.mp hmem] at hnullifier₀
  exact BnField.eq_of_canonical hn₀ hn₁ (nullifier_unique H hnullifier₀ hsatisfied.hasNullifier₁)

end Proof.Proves

theorem noteAt_eq_some (H : Separated hash) {leaf : F} : noteAt hash leaf = some note ↔ note.commitment hash = leaf := by
  unfold noteAt
  split
  · next h =>
    have hchoose := h.choose_spec
    constructor
    · intro heq
      rw [← Option.some.inj heq]
      exact hchoose
    · intro heq
      exact congrArg some (commitment_inj H (hchoose.trans heq.symm))
  · next h => exact iff_of_false (Option.some_ne_none note).symm fun heq => h ⟨note, heq⟩

theorem PrivateBond.mem_notes (H : Separated hash) :
    note ∈ bond.notes hash ↔ note.commitment hash ∈ bond.leaves F := by
  rw [notes, List.mem_filterMap]
  simp only [noteAt_eq_some H, List.mem_dedup, exists_eq_right']

theorem PrivateBond.notes_nodup (H : Separated hash) : (bond.notes hash).Nodup := by
  refine (List.nodup_dedup _).filterMap ?_
  intro leaf leaf' note h h'
  rw [← (noteAt_eq_some H).mp h, ← (noteAt_eq_some H).mp h']

theorem Pushed.leaves {commitments : List Word} (h : Pushed hash bond commitments bond') :
    bond'.leaves F = bond.leaves F ++ commitments.map Scalar.ofNat := by
  rw [PrivateBond.leaves, h.commitments, List.map_append]
  rfl

/-! ## Invariants -/

structure LedgerInv (hash : List F → F) (tr : List (Step F)) (w : World) : Prop where
  /-- The leaves are commitments. -/
  leaves : ∀ leaf ∈ w.bond.leaves F, ∃ note : Note F, note.commitment hash = leaf
  /-- Every known root is the root of a tree over some of them. -/
  spans : ∀ r, w.bond.knownRoots r = true → Merkle.Spans (node hash) (w.bond.leaves F) (Scalar.ofNat r)
  /-- The nullifier of a spent note is marked, by its canonical word. -/
  marked : ∀ note ∈ spentNotes tr, ∃ n, w.bond.nullifiers n = true ∧ BnField.canonical F n = true ∧
    note.hasNullifier hash (Scalar.ofNat n)
  /-- A spent note is listed. -/
  listed : ∀ note ∈ spentNotes tr, note.commitment hash ∈ w.bond.leaves F
  /-- Two calls spend different notes. -/
  once : tr.Pairwise fun st st' => List.Disjoint st.inputs st'.inputs

namespace LedgerInv

theorem leaf_ne_node (inv : LedgerInv hash tr w) (H : Separated hash) :
    ∀ leaf ∈ w.bond.leaves F, ∀ l r, leaf ≠ node hash l r := by
  intro leaf hleaf l r
  obtain ⟨note, rfl⟩ := inv.leaves leaf hleaf
  exact commitment_ne_node H note l r

/-- The inputs of a canonical call are listed and not spent. -/
theorem inputs (inv : LedgerInv hash tr w) (H : Separated hash) (h : Spent hash w.bond args bond')
    (hcanonical : args.canonical) :
    ∀ note ∈ args.proof.inputs, note.commitment hash ∈ w.bond.leaves F ∧ note ∉ spentNotes tr := by
  intro note hnote
  refine ⟨h.proves.mem H (inv.spans _ h.root) (inv.leaf_ne_node H) note hnote, fun hspent => ?_⟩
  obtain ⟨n, hmarked, hn, hnullifier⟩ := inv.marked note hspent
  obtain ⟨n', hmem, hnullifier'⟩ := h.proves.nullifier note hnote
  have hfresh : BnField.canonical F n' = true ∧ w.bond.nullifiers n' = false := by
    rcases List.mem_cons.mp hmem with rfl | hmem
    · exact ⟨hcanonical.1, h.fresh₀⟩
    · rw [List.mem_singleton.mp hmem]
      exact ⟨hcanonical.2, h.fresh₁⟩
  have hsame := BnField.eq_of_canonical hn hfresh.1 (nullifier_unique H hnullifier hnullifier')
  rw [hsame, hfresh.2] at hmarked
  exact Bool.false_ne_true hmarked

section
variable (inv : LedgerInv hash tr w) {commitments : List Word} (h : Pushed hash w.bond commitments bond')
  (hnotes : ∀ c ∈ commitments, ∃ note : Note F, note.commitment hash = Scalar.ofNat c)
include inv h hnotes

/-- Pushing commitments of notes. -/
theorem push : (∀ leaf ∈ bond'.leaves F, ∃ note : Note F, note.commitment hash = leaf) ∧
      ∀ r, bond'.knownRoots r = true → Merkle.Spans (node hash) (bond'.leaves F) (Scalar.ofNat r) := by
  constructor
  · intro leaf hleaf
    rw [h.leaves] at hleaf
    rcases List.mem_append.mp hleaf with hold | hnew
    · exact inv.leaves leaf hold
    · obtain ⟨c, hc, rfl⟩ := List.mem_map.mp hnew
      exact hnotes c hc
  · intro r hr
    rw [h.knownRoots] at hr
    rcases eq_or_ne r (rootOfLevel hash bond'.commitments) with rfl | hne
    · exact h.spans
    · rw [Function.update_of_ne hne] at hr
      refine (inv.spans r hr).mono ?_
      rw [h.leaves]
      exact List.subset_append_left _ _

/-- A call that spends nothing. -/
theorem of_push (hst : st.inputs = []) :
    LedgerInv hash (st :: tr) { w with bond := bond' } := by
  have hspent : spentNotes (st :: tr) = spentNotes tr := by
    rw [spentNotes, List.flatMap_cons, hst, List.nil_append]
    rfl
  obtain ⟨hleaves, hspans⟩ := inv.push h hnotes
  refine ⟨hleaves, hspans, ?_, ?_, List.pairwise_cons.mpr ⟨fun st' _ => ?_, inv.once⟩⟩
  · rw [hspent]
    intro note hnote
    obtain ⟨n, hmarked, hn⟩ := inv.marked note hnote
    exact ⟨n, (congrFun h.nullifiers n).trans hmarked, hn⟩
  · rw [hspent]
    intro note hnote
    show note.commitment hash ∈ bond'.leaves F
    rw [h.leaves]
    exact List.mem_append_left _ (inv.listed note hnote)
  · rw [hst]
    exact List.disjoint_nil_left _

end

/-- A transfer or a burn with canonical nullifiers. -/
theorem of_spent (inv : LedgerInv hash tr w) (H : Separated hash) (h : Spent hash w.bond args bond')
    (hcanonical : args.canonical) (hst : st.inputs = args.proof.inputs) :
    LedgerInv hash (st :: tr) { w with bond := bond' } := by
  have hinputs := inv.inputs H h hcanonical
  have hpushed := h.pushed
  have hspent : ∀ note, note ∈ spentNotes (st :: tr) → note ∈ args.proof.inputs ∨ note ∈ spentNotes tr := by
    intro note hnote
    rw [spentNotes, List.flatMap_cons, hst] at hnote
    exact List.mem_append.mp hnote
  have hleaves : bond'.leaves F = w.bond.leaves F ++ [args.commitmentsOut.1, args.commitmentsOut.2].map Scalar.ofNat :=
    hpushed.leaves
  have hcreated : ∀ c ∈ [args.commitmentsOut.1, args.commitmentsOut.2],
      ∃ note : Note F, note.commitment hash = Scalar.ofNat c := by
    intro c hc
    have hmem : (Scalar.ofNat c : F) ∈ args.proof.outputs.map (·.commitment hash) := by
      rw [h.proves.created]
      exact List.mem_map_of_mem hc
    obtain ⟨note, -, hnote⟩ := List.mem_map.mp hmem
    exact ⟨note, hnote⟩
  have hbefore : LedgerInv hash tr { w with bond := w.bond.spend args.nullifiersIn } := by
    refine ⟨inv.leaves, inv.spans, fun note hnote => ?_, inv.listed, inv.once⟩
    obtain ⟨n, hmarked, hn⟩ := inv.marked note hnote
    refine ⟨n, ?_, hn⟩
    show Function.update (Function.update w.bond.nullifiers _ true) _ true n = true
    simp only [Function.update_apply, hmarked, ite_self]
  obtain ⟨hopened, hspans⟩ := hbefore.push hpushed hcreated
  refine ⟨hopened, hspans, fun note hnote => ?_, fun note hnote => ?_,
    List.pairwise_cons.mpr ⟨fun st' hst' => ?_, inv.once⟩⟩
  · rcases hspent note hnote with hnew | hold
    · obtain ⟨n, hmem, hnullifier⟩ := h.proves.nullifier note hnew
      refine ⟨n, ?_, ?_, hnullifier⟩
      · show bond'.nullifiers n = true
        rw [hpushed.nullifiers]
        show Function.update (Function.update w.bond.nullifiers _ true) _ true n = true
        rcases List.mem_cons.mp hmem with rfl | hmem
        · simp only [Function.update_apply, if_true, ite_self]
        · rw [List.mem_singleton.mp hmem, Function.update_self]
      · rcases List.mem_cons.mp hmem with rfl | hmem
        · exact hcanonical.1
        · rw [List.mem_singleton.mp hmem]
          exact hcanonical.2
    · obtain ⟨n, hmarked, hn⟩ := hbefore.marked note hold
      exact ⟨n, (congrFun hpushed.nullifiers n).trans hmarked, hn⟩
  · show note.commitment hash ∈ bond'.leaves F
    rw [hleaves]
    refine List.mem_append_left _ ?_
    rcases hspent note hnote with hnew | hold
    · exact (hinputs note hnew).1
    · exact inv.listed note hold
  · rw [hst]
    intro note hnote hother
    exact (hinputs note hnote).2 (List.mem_flatMap.mpr ⟨st', hst', hother⟩)

theorem step (inv : LedgerInv hash tr w) (H : Separated hash) (h : Admitted hash w st w') :
    LedgerInv hash (st :: tr) w' := by
  obtain ⟨hstep, hmints, hguarded⟩ := h
  cases hstep with
  | mint ok => exact inv.of_push (mint_eq_ok.mp ok).2 hmints rfl
  | mintBatch ok => exact inv.of_push (mintBatch_eq_ok.mp ok).2 hmints rfl
  | transfer ok => exact inv.of_spent H (transfer_eq_ok.mp ok) hguarded.1 rfl
  | burn ok => exact inv.of_spent H (burn_eq_ok.mp ok).2.2 hguarded rfl
  | atomicSwap ok => exact hguarded.elim
  | reverted | tick =>
    exact ⟨inv.leaves, inv.spans, inv.marked, inv.listed,
      List.pairwise_cons.mpr ⟨fun _ _ => List.disjoint_nil_left _, inv.once⟩⟩

end LedgerInv

theorem Run.ledgerInv (H : Separated hash) (h₀ : Deployed w₀) (hrun : Run (Admitted hash) w₀ tr w) :
    LedgerInv hash tr w := by
  refine hrun.invariant ?_ fun tr w st w' _ hstep inv => inv.step H hstep
  cases h₀ with
  | mk =>
    exact ⟨fun leaf hleaf => absurd hleaf List.not_mem_nil, fun r hr => absurd hr Bool.false_ne_true,
      fun note hnote => absurd hnote List.not_mem_nil, fun note hnote => absurd hnote List.not_mem_nil, .nil⟩

/-! ## Conservation -/

omit [BnField F] in
theorem mem_spentNotes_cons : note ∈ spentNotes (st :: tr) ↔ note ∈ spentNotes tr ∨ note ∈ st.inputs := by
  rw [spentNotes, List.flatMap_cons, List.mem_append, or_comm]
  rfl

namespace LedgerInv

/-- The value of the inputs is taken out, and at most that of the outputs comes in; all of it, if they are new. -/
theorem spend_value (inv : LedgerInv hash tr w) (H : Separated hash) (h : Spent hash w.bond args bond')
    (hcanonical : args.canonical) (hst : st.inputs = args.proof.inputs) :
    unspentValue hash (st :: tr) bond' ≤ unspentValue hash tr w.bond ∧
      (FreshOutputs hash w.bond args.proof.outputs →
        unspentValue hash (st :: tr) bond' = unspentValue hash tr w.bond) := by
  have hinputs := inv.inputs H h hcanonical
  have hbalance := h.proves.balance
  have hmem' : ∀ note : Note F, note ∈ bond'.notes hash ↔ note ∈ w.bond.notes hash ∨ note ∈ args.proof.outputs := by
    intro note
    have hleaves : bond'.leaves F = w.bond.leaves F ++ args.proof.outputs.map (·.commitment hash) := by
      rw [h.proves.created]
      exact h.pushed.leaves
    rw [mem_notes H, mem_notes H, hleaves, List.mem_append, List.mem_map]
    refine or_congr_right ⟨?_, fun hmem => ⟨note, hmem, rfl⟩⟩
    rintro ⟨note', hmem, heq⟩
    exact commitment_inj H heq ▸ hmem
  have hspend : unspent (fun note : Note F => note.value.toNat) (· ∈ spentNotes (st :: tr)) (w.bond.notes hash) +
      (args.proof.inputs.map fun note => note.value.toNat).sum = unspentValue hash tr w.bond := by
    refine unspent_spendAll (notes_nodup H)
      (h.proves.inputs_nodup H hcanonical.1 hcanonical.2 h.distinct) (fun note hnote _ => ?_) fun note _ => ?_
    · exact ⟨(mem_notes H).mpr (hinputs note hnote).1, (hinputs note hnote).2⟩
    · rw [mem_spentNotes_cons, hst]
  have hle : unspentValue hash (st :: tr) bond' ≤ unspentValue hash tr w.bond := by
    have hsub : bond'.notes hash ⊆ w.bond.notes hash ++ args.proof.outputs := fun note hnote =>
      List.mem_append.mpr ((hmem' note).mp hnote)
    have hmono := @unspent_mono _ (fun note : Note F => note.value.toNat) (· ∈ spentNotes (st :: tr)) _ _
      (notes_nodup H) hsub
    rw [unspent_append] at hmono
    have houtputs := @unspent_le_sum _ (fun note : Note F => note.value.toNat) (· ∈ spentNotes (st :: tr))
      args.proof.outputs
    rw [unspentValue]
    omega
  refine ⟨hle, fun hfresh => hle.antisymm ?_⟩
  have hnew : unspent (fun note : Note F => note.value.toNat) (· ∈ spentNotes (st :: tr)) args.proof.outputs =
      (args.proof.outputs.map fun note => note.value.toNat).sum := by
    refine unspent_of_fresh fun note hnote hvalue hspent => hfresh.2 note hnote hvalue ?_
    rcases mem_spentNotes_cons.mp hspent with hold | hinput
    · exact inv.listed note hold
    · exact (hinputs note (hst ▸ hinput)).1
  have hnodup : (w.bond.notes hash ++ args.proof.outputs.filter fun note => note.value.toNat ≠ 0).Nodup := by
    refine List.nodup_append'.mpr ⟨notes_nodup H, hfresh.1, fun note hold houtput => ?_⟩
    obtain ⟨hmem, hvalue⟩ := List.mem_filter.mp houtput
    exact hfresh.2 note hmem (of_decide_eq_true hvalue) ((mem_notes H).mp hold)
  have hsub : (w.bond.notes hash ++ args.proof.outputs.filter fun note => note.value.toNat ≠ 0) ⊆ bond'.notes hash :=
    fun note hnote => (hmem' note).mpr
      ((List.mem_append.mp hnote).imp_right fun houtput => (List.mem_filter.mp houtput).1)
  have hmono := @unspent_mono _ (fun note : Note F => note.value.toNat) (· ∈ spentNotes (st :: tr)) _ _ hnodup hsub
  rw [unspent_append, unspent_filter_value, hnew] at hmono
  show _ ≤ unspent _ _ (bond'.notes hash)
  omega

/-- What a call mints only adds. -/
theorem mint_value (H : Separated hash) {commitments : List Word} (h : Pushed hash bond commitments bond')
    (hst : st.inputs = []) : unspentValue hash tr bond ≤ unspentValue hash (st :: tr) bond' := by
  have hspent : spentNotes (st :: tr) = spentNotes tr := by
    rw [spentNotes, List.flatMap_cons, hst, List.nil_append]
    rfl
  rw [unspentValue, unspentValue, hspent]
  refine unspent_mono (notes_nodup H) fun note hnote => ?_
  rw [mem_notes H] at hnote ⊢
  rw [h.leaves]
  exact List.mem_append_left _ hnote

theorem conserves (inv : LedgerInv hash tr w) (H : Separated hash) (h : Admitted hash w st w') :
    Conserves hash tr w.bond w'.bond st := by
  obtain ⟨hstep, hmints, hguarded⟩ := h
  cases hstep with
  | mint ok => exact mint_value H (mint_eq_ok.mp ok).2 rfl
  | mintBatch ok => exact mint_value H (mintBatch_eq_ok.mp ok).2 rfl
  | transfer ok => exact (inv.spend_value H (transfer_eq_ok.mp ok) hguarded.1 rfl).2 hguarded.2
  | burn ok => exact (inv.spend_value H (burn_eq_ok.mp ok).2.2 hguarded rfl).1
  | atomicSwap ok => exact hguarded.elim
  | reverted | tick => rfl

end LedgerInv

/-- What holds after a run of admitted calls. -/
structure Conserved (hash : List F → F) (tr : List (Step F)) (w : World) : Prop where
  /-- A note is the input of at most one call. -/
  once : ∀ {i j : Nat} {st st' : Step F} {note : Note F}, tr[i]? = some st → tr[j]? = some st' → note ∈ st.inputs →
    note ∈ st'.inputs → i = j
  step : ∀ {st w'}, Admitted hash w st w' → Conserves hash tr w.bond w'.bond st

theorem notes_conserved (H : Separated hash) (h₀ : Deployed w₀) (hrun : Run (Admitted hash) w₀ tr w) :
    Conserved hash tr w := by
  have inv := Run.ledgerInv H h₀ hrun
  refine ⟨fun {i j st st' note} hi hj hnote hnote' => ?_, fun hstep => inv.conserves H hstep⟩
  obtain ⟨hi, hst⟩ := List.getElem?_eq_some_iff.mp hi
  obtain ⟨hj, hst'⟩ := List.getElem?_eq_some_iff.mp hj
  have honce := List.pairwise_iff_getElem.mp inv.once
  rcases Nat.lt_trichotomy i j with hlt | heq | hlt
  · exact absurd (hst' ▸ hnote') (honce i j hi hj hlt (hst ▸ hnote))
  · exact heq
  · exact absurd (hst ▸ hnote) (honce j i hj hi hlt (hst' ▸ hnote'))

end

/-! ## Sample -/

namespace Sample

open Swap (Doubled doubledHash)

variable (hash : List Doubled → Doubled)

def coin (value : UInt64) (salt : Nat) : Note Doubled where
  value := value
  salt := Scalar.ofNat salt
  owner := hash [Scalar.ofNat 1]
  assetId := Scalar.ofNat 1
  maturityDate := Scalar.ofNat 5

def leaf (value : UInt64) (salt : Nat) : Doubled := (coin hash value salt).commitment hash

def minted (value : UInt64) : List Word := [0, 1, 2, 3, 4].map fun salt => Scalar.toNat (leaf hash value salt)

def upper (value : UInt64) : List Doubled :=
  [node hash (leaf hash value 2) (leaf hash value 3), node hash (node hash (leaf hash value 4) (leaf hash value 4))
    (node hash (leaf hash value 4) (leaf hash value 4))]

def root (value : UInt64) : Doubled :=
  node hash (node hash (node hash (leaf hash value 0) (leaf hash value 1)) (node hash (leaf hash value 2) (leaf hash value 3)))
    (node hash (node hash (leaf hash value 4) (leaf hash value 4)) (node hash (leaf hash value 4) (leaf hash value 4)))

def spendProof (value : UInt64) (salt : Nat) : Proof Doubled where
  inputMaturityDate := Scalar.ofNat 5
  outputMaturityDate := Scalar.ofNat 5
  isRedeem := decide (value = 0)
  witness :=
    { inputValues := (value, value)
      inputSalts := (Scalar.ofNat 0, Scalar.ofNat salt)
      inputOwner := hash [Scalar.ofNat 1]
      inputAssetId := Scalar.ofNat 1
      pathIndices := (fun _ => false, fun i => decide (i.val = 0 ∧ salt = 1))
      pathElements := (fun i => (leaf hash value 1 :: upper hash value).getD i.val 0,
        fun i => (leaf hash value (1 - salt) :: upper hash value).getD i.val 0)
      outputValues := (value + value, 0)
      outputSalts := (Scalar.ofNat 8, Scalar.ofNat 9)
      outputOwners := (hash [Scalar.ofNat 1], hash [Scalar.ofNat 1])
      outputAssetIds := (Scalar.ofNat 1, Scalar.ofNat 1)
      privateKey := Scalar.ofNat 1 }

def nullifier (salt : Nat) : Doubled := noteNullifier hash (Scalar.ofNat salt) (Scalar.ofNat 1)

def spendArgs (value : UInt64) (salt : Nat) (n₁ : Word) : SpendArgs Doubled where
  proof := spendProof hash value salt
  root := Scalar.toNat (root hash value)
  nullifiersIn := (Scalar.toNat (nullifier hash 0), n₁)
  commitmentsOut := (Scalar.toNat ((coin hash (value + value) 8).commitment hash),
    Scalar.toNat ((coin hash 0 9).commitment hash))

theorem rootOfLevel_minted (value : UInt64) :
    rootOfLevel hash (minted hash value) = Scalar.toNat (root hash value) := by
  simp [minted, rootOfLevel, nextLevel, poseidonHash, BnField.ofNat_toNat, root, node]

theorem spend_proves {value : UInt64} {salt : Nat} {n₁ : Word} (hvalue : value = 0 ∨ value = 1)
    (hsalt : salt = 0 ∨ salt = 1) (hn₁ : Scalar.ofNat n₁ = nullifier hash salt) :
    (spendArgs hash value salt n₁).proof.Proves hash (spendArgs hash value salt n₁).root (spendArgs hash value salt n₁).nullifiersIn.1
      (spendArgs hash value salt n₁).nullifiersIn.2 (spendArgs hash value salt n₁).commitmentsOut.1
      (spendArgs hash value salt n₁).commitmentsOut.2 := by
  have hsum : value.toNat + value.toNat < 2 ^ 64 ∧ value.toNat + value.toNat = (value + value).toNat + 0 ∧
      decide (value = 0) = decide (value + value = 0 ∧ (0 : UInt64) = 0) := by
    rcases hvalue with rfl | rfl
    · decide
    · decide
  refine main_eq_ok.mpr ⟨?_, ?_, (BnField.ofNat_toNat _).symm, hn₁.symm, hsum.1, (BnField.ofNat_toNat _).symm,
    (BnField.ofNat_toNat _).symm, rfl, rfl, hsum.2.1, rfl, rfl, hsum.2.2⟩
  · refine Eq.trans ?_ (BnField.ofNat_toNat (root hash value)).symm
    simp [spendArgs, spendProof, Proof.toPublic, Merkle.arrayPath, treeHeight, List.ofFn_succ, Merkle.foldPath,
      Merkle.combine, upper, root, leaf, coin, input₀]
  · refine Eq.trans ?_ (BnField.ofNat_toNat (root hash value)).symm
    rcases hsalt with rfl | rfl
    · simp [spendArgs, spendProof, Proof.toPublic, Merkle.arrayPath, treeHeight, List.ofFn_succ, Merkle.foldPath,
        Merkle.combine, upper, root, leaf, coin, input₁]
    · simp [spendArgs, spendProof, Proof.toPublic, Merkle.arrayPath, treeHeight, List.ofFn_succ, Merkle.foldPath,
        Merkle.combine, upper, root, leaf, coin, input₁]

structure Minted (value : UInt64) (w : World) : Prop where
  commitments : w.bond.commitments = minted hash value
  knownRoots : w.bond.knownRoots (Scalar.toNat (root hash value)) = true
  nullifiers : ∀ n, w.bond.nullifiers n = false

variable {hash} {value : UInt64}

theorem exists_minted (value : UInt64) (timestamp : Nat) : ∃ w₀ w₁, Deployed w₀ ∧ w₁.timestamp = timestamp ∧
    Admitted hash w₀ (.mintBatch 0 (minted hash value)) w₁ ∧ Minted hash value w₁ := by
  obtain ⟨bond, hpushed⟩ := @exists_pushed _ _ hash (PrivateBond.new 0) (minted hash value) (List.cons_ne_nil _ _)
  have hcommitments : bond.commitments = minted hash value := hpushed.commitments
  refine ⟨⟨timestamp, PrivateBond.new 0⟩, ⟨timestamp, bond⟩, .mk, rfl,
    ⟨.mintBatch (mintBatch_eq_ok.mpr ⟨rfl, hpushed⟩), ?_, trivial⟩, hcommitments, ?_, fun n => congrFun hpushed.nullifiers n⟩
  · intro c hc
    obtain ⟨salt, -, rfl⟩ := List.mem_map.mp hc
    exact ⟨coin hash value salt, (BnField.ofNat_toNat _).symm⟩
  · show bond.knownRoots _ = true
    rw [hpushed.knownRoots, hcommitments, rootOfLevel_minted, Function.update_self]

theorem exists_spent {w : World} (h : Minted hash value w) (hvalue : value = 0 ∨ value = 1) {salt : Nat} {n₁ : Word}
    (hsalt : salt = 0 ∨ salt = 1) (hn₁ : Scalar.ofNat n₁ = nullifier hash salt)
    (hne : Scalar.toNat (nullifier hash 0) ≠ n₁) :
    ∃ bond, Spent hash w.bond (spendArgs hash value salt n₁) bond := by
  obtain ⟨bond, hpushed⟩ := @exists_pushed _ _ hash (w.bond.spend (spendArgs hash value salt n₁).nullifiersIn)
    [(spendArgs hash value salt n₁).commitmentsOut.1, (spendArgs hash value salt n₁).commitmentsOut.2]
    (List.cons_ne_nil _ _)
  exact ⟨bond, h.knownRoots, h.nullifiers _, h.nullifiers _, hne, spend_proves hash hvalue hsalt hn₁, hpushed⟩

theorem exists_spend {w : World} (h : Minted hash value w) (hvalue : value = 0 ∨ value = 1) {salt : Nat} {n₁ : Word}
    (hsalt : salt = 0 ∨ salt = 1) (hn₁ : Scalar.ofNat n₁ = nullifier hash salt)
    (hne : Scalar.toNat (nullifier hash 0) ≠ n₁) :
    ∃ w', Transition hash w (.transfer (spendArgs hash value salt n₁)) w' := by
  obtain ⟨bond, hspent⟩ := exists_spent h hvalue hsalt hn₁ hne
  exact ⟨_, .transfer (transfer_eq_ok.mpr hspent)⟩

theorem separated : Separated doubledHash := ⟨fun _ _ _ _ h => Swap.doubledHash_injective h⟩

/-- The first two notes have different nullifiers. -/
theorem nullifier_ne : Scalar.toNat (nullifier doubledHash 0) ≠ Scalar.toNat (nullifier doubledHash 1) := by
  intro heq
  have hfields := separated.inj (by simp) (by simp) (by simp) (by simp) (Scalar.toNat_inj heq)
  simp only [List.cons.injEq] at hfields
  exact absurd (Scalar.ofNat_inj (by decide) (by decide) hfields.1) Nat.zero_ne_one

/-- The output of value two is not among the minted notes. -/
theorem output_notMem (H : Separated hash) {w : World} (h : Minted hash 1 w) :
    (coin hash 2 8).commitment hash ∉ w.bond.leaves Doubled := by
  intro hmem
  rw [PrivateBond.leaves, h.commitments, minted, List.map_map] at hmem
  obtain ⟨salt, -, heq⟩ := List.mem_map.mp hmem
  replace heq : Scalar.ofNat (Scalar.toNat (leaf hash 1 salt)) = (coin hash 2 8).commitment hash := heq
  rw [BnField.ofNat_toNat] at heq
  have hvalue := congrArg Note.value (commitment_inj H heq)
  exact absurd hvalue (by decide : (1 : UInt64) ≠ 2)

/-- Spending the first note twice in one call is worth a note of double its value. -/
theorem doubled_value (H : Separated hash) {w w' : World} {tr : List (Step Doubled)} {n₁ : Word}
    (inv : LedgerInv hash tr w) (h : Minted hash 1 w) (hfresh : coin hash 1 0 ∉ spentNotes tr)
    (hstep : Transition hash w (.transfer (spendArgs hash 1 0 n₁)) w') :
    unspentValue hash tr w.bond < unspentValue hash (.transfer (spendArgs hash 1 0 n₁) :: tr) w'.bond := by
  cases hstep with
  | @transfer args bond ok =>
    have hspent := transfer_eq_ok.mp ok
    have hinputs : (spendArgs hash 1 0 n₁).proof.inputs = [coin hash 1 0, coin hash 1 0] := rfl
    have hlisted : coin hash 1 0 ∈ w.bond.notes hash := by
      rw [mem_notes H, PrivateBond.leaves, h.commitments]
      exact List.mem_cons.mpr (.inl (BnField.ofNat_toNat _).symm)
    have hspend : unspent (fun note : Note Doubled => note.value.toNat)
        (· ∈ spentNotes (.transfer (spendArgs hash 1 0 n₁) :: tr)) (w.bond.notes hash) +
        (coin hash 1 0).value.toNat = unspentValue hash tr w.bond := by
      refine unspent_spend (notes_nodup H) (fun _ => ⟨hlisted, hfresh⟩) fun note _ => ?_
      rw [mem_spentNotes_cons, Step.inputs, hinputs, List.mem_cons, List.mem_singleton, or_self]
    -- the new note
    have hnew : coin hash 2 8 ∉ spentNotes (.transfer (spendArgs hash 1 0 n₁) :: tr) := by
      intro hmem
      rcases mem_spentNotes_cons.mp hmem with hold | hinput
      · exact output_notMem H h (inv.listed _ hold)
      · rw [Step.inputs, hinputs, List.mem_cons, List.mem_singleton, or_self] at hinput
        exact absurd (congrArg Note.value hinput) (by decide : (2 : UInt64) ≠ 1)
    have hnodup : (coin hash 2 8 :: w.bond.notes hash).Nodup := List.nodup_cons.mpr
      ⟨fun hmem => output_notMem H h ((mem_notes H).mp hmem), notes_nodup H⟩
    have hsub : coin hash 2 8 :: w.bond.notes hash ⊆ bond.notes hash := by
      have hleaves := hspent.pushed.leaves
      refine List.cons_subset.mpr ⟨?_, fun note hnote => ?_⟩
      · rw [mem_notes H, hleaves]
        exact List.mem_append_right _ (List.mem_cons.mpr (.inl (BnField.ofNat_toNat _).symm))
      · rw [mem_notes H] at hnote ⊢
        rw [hleaves]
        exact List.mem_append_left _ hnote
    have hmono : (coin hash 2 8).value.toNat + unspent (fun note : Note Doubled => note.value.toNat)
        (· ∈ spentNotes (.transfer (spendArgs hash 1 0 n₁) :: tr)) (w.bond.notes hash) ≤
        unspentValue hash (.transfer (spendArgs hash 1 0 n₁) :: tr) bond :=
      (@unspent_cons_of_not _ (fun note : Note Doubled => note.value.toNat) _ _ _ hnew).symm.trans_le
        (unspent_mono hnodup hsub)
    have hone : (coin hash 1 0).value.toNat = 1 := rfl
    have htwo : (coin hash 2 8).value.toNat = 2 := rfl
    show _ < unspentValue hash _ bond
    omega

end Sample

open Sample

/-- Two of the five notes are spent for one of their value. -/
theorem notes_conserved_sample : ∃ w₀ w tr, Deployed w₀ ∧ Run (Admitted Swap.doubledHash) w₀ tr w ∧ tr.length = 2 ∧
    Conserved Swap.doubledHash tr w := by
  have H := separated
  obtain ⟨w₀, w₁, hdeployed, -, hmint, hminted⟩ := @exists_minted Swap.doubledHash 1 0
  obtain ⟨w₂, htransfer⟩ := exists_spend hminted (.inr rfl) (.inr rfl) (BnField.ofNat_toNat _) nullifier_ne
  have hadmitted : Admitted Swap.doubledHash w₁
      (.transfer (spendArgs Swap.doubledHash 1 1 (Scalar.toNat (nullifier Swap.doubledHash 1)))) w₂ := by
    refine ⟨htransfer, fun c hc => absurd hc List.not_mem_nil, ⟨BnField.canonical_toNat _, BnField.canonical_toNat _⟩,
      List.nodup_singleton (coin Swap.doubledHash 2 8), fun note hnote hvalue => ?_⟩
    rcases List.mem_cons.mp hnote with rfl | hnote
    · exact output_notMem H hminted
    · rw [List.mem_singleton.mp hnote] at hvalue
      exact absurd rfl hvalue
  have hrun := Run.cons (Run.cons .nil hmint) hadmitted
  exact ⟨w₀, w₂, _, hdeployed, hrun, rfl, notes_conserved H hdeployed hrun⟩

/-- With the nullifiers `n` and `n + bn254`, a transfer spends one note twice, for a note of double its value. -/
theorem note_doubled : ∃ w₀ w₁ w₂ st args, Deployed w₀ ∧ Run (Admitted Swap.doubledHash) w₀ [st] w₁ ∧
    (st.minted.Pairwise fun c c' => ∀ note note' : Note Swap.Doubled, note.commitment Swap.doubledHash = Scalar.ofNat c →
      note'.commitment Swap.doubledHash = Scalar.ofNat c' → (note.salt, note.owner) ≠ (note'.salt, note'.owner)) ∧
    Transition Swap.doubledHash w₁ (.transfer args) w₂ ∧
    args.nullifiersIn.2 = args.nullifiersIn.1 + Civic.bn254 ∧
    unspentValue Swap.doubledHash [st] w₁.bond < unspentValue Swap.doubledHash [.transfer args, st] w₂.bond := by
  have H := separated
  obtain ⟨w₀, w₁, hdeployed, -, hmint, hminted⟩ := @exists_minted Swap.doubledHash 1 0
  have hrun := Run.cons .nil hmint
  obtain ⟨w₂, htransfer⟩ := @exists_spend Swap.doubledHash 1 w₁ hminted (.inr rfl) 0
    (Scalar.toNat (nullifier Swap.doubledHash 0) + Civic.bn254) (.inl rfl) (Swap.Doubled.reduce_add _)
    (Nat.ne_of_lt (Nat.lt_add_of_pos_right (by decide)))
  refine ⟨w₀, w₁, w₂, _, _, hdeployed, hrun, ?_, htransfer, rfl,
    doubled_value H (Run.ledgerInv H hdeployed hrun) hminted List.not_mem_nil htransfer⟩
  show (minted Swap.doubledHash 1).Pairwise _
  rw [minted, List.pairwise_map]
  refine List.Pairwise.imp_of_mem ?_ (by decide : [0, 1, 2, 3, 4].Pairwise (· ≠ ·))
  intro salt salt' hsalt hsalt' hne note note' hnote hnote' heq
  have hbound : ∀ n ∈ [0, 1, 2, 3, 4], n < 2 ^ 64 := by decide
  rw [BnField.ofNat_toNat] at hnote hnote'
  rw [commitment_inj H hnote, commitment_inj H hnote'] at heq
  exact hne (Scalar.ofNat_inj (hbound _ hsalt) (hbound _ hsalt') (congrArg Prod.fst heq))

end Pocs.Bond
