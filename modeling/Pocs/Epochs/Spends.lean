import Pocs.Epochs.Chains
import Pocs.Epochs.LowLeaves
import Pocs.Epochs.Pairs

/-! # What the proofs of a spend show

The nullifiers of an epoch in the order of their insertion, as scalars. An insertion whose low leaf is a written
one shows that its nullifier is new (`insertFrom_new`), and a chain proof whose low leaves are written shows that
the phantom nullifiers of the earlier epochs are not in the frozen trees (`chain_absent`). -/

namespace Pocs.Epochs

open Compliance (BnField Ideal ofU64 merkleHash merkleVerify mem_of_merkleVerify merkleVerify_zero MerklePath)
open Offchain (OrderedWords IndexedMerkleTree Holds inserts exists_holds length_inserts canonical_zero
  runInsertions_one runInsertions_sound_iff assertNonMembership_sound_iff)
open Offchain

variable {F : Type} [EpochField F] {hash : List F → F}

theorem Note.commitment_inj (H : Ideal hash) {n n' : Note F} (h : n.commitment hash = n'.commitment hash) :
    n = n' := by
  obtain ⟨htoken, hamount, howner, hsalt, hcreated⟩ := H.hash5_inj h
  cases n
  cases n'
  simp_all only

/-- A note that verifies against a root of the commitments is among the notes. -/
theorem mem_of_verifyMembership (H : Ideal hash) {notes : List (Note F)} {root : F}
    (hroot : root = 0 ∨ Merkle.Spans (merkleHash hash) (notes.map (Note.commitment hash)) root) {n : Note F}
    {proofLength : Nat} {indices : Fin maxCommitmentTreeDepth → Bool} {path : Fin maxCommitmentTreeDepth → F}
    (h : verifyMembership hash (n.commitment hash) root proofLength indices path = .ok ()) : n ∈ notes := by
  have hverify : merkleVerify hash (n.commitment hash) root
      (⟨proofLength, indices, path⟩ : MerklePath F maxCommitmentTreeDepth) = .ok () :=
    require_eq_ok.mpr (require_eq_ok.mp h)
  rcases hroot with rfl | hspans
  · exact absurd hverify (merkleVerify_zero H (List.cons_ne_nil _ _) (by simp))
  · have hmem := mem_of_merkleVerify H (fun y hy l r => by
      obtain ⟨m, -, rfl⟩ := List.mem_map.mp hy
      exact commitment_ne_node H m l r) hverify hspans (commitment_ne_node H n)
    obtain ⟨m, hm, hcommitment⟩ := List.mem_map.mp hmem
    exact Note.commitment_inj H hcommitment ▸ hm

/-! ## Nullifiers of an epoch -/

def LowLeaf.position (low : LowLeaf F) : Nat := Merkle.ofBits (List.ofFn low.pathBits)

def treeOf (hash : List F → F) (ns : List F) : IndexedMerkleTree := inserts hash (ns.map Scalar.toNat)

def rootOf (hash : List F → F) (ns : List F) : F := Scalar.ofNat ((treeOf hash ns).root hash)

/-- Nullifiers that take a leaf each. -/
structure Distinct (ns : List F) : Prop where
  nodup : ns.Nodup
  zero : 0 ∉ ns
  room : ns.length < 2 ^ nullifierTreeDepth

section
variable [OrderedWords F] {ns : List F}

omit [OrderedWords F] in
theorem Distinct.concat (h : Distinct ns) {v : F} (hne : v ≠ 0) (hv : v ∉ ns)
    (hroom : ns.length + 1 < 2 ^ nullifierTreeDepth) : Distinct (ns ++ [v]) where
  nodup := by
    rw [List.nodup_append]
    refine ⟨h.nodup, List.nodup_singleton v, fun a ha b hb => ?_⟩
    rw [List.mem_singleton.mp hb]
    exact fun hab => hv (hab ▸ ha)
  zero := by
    rw [List.mem_append, List.mem_singleton, not_or]
    exact ⟨h.zero, hne.symm⟩
  room := by
    rw [List.length_append]
    exact hroom

omit [OrderedWords F] in
theorem Distinct.of_append {vs : List F} (h : Distinct (ns ++ vs)) : Distinct ns where
  nodup := (List.nodup_append.mp h.nodup).1
  zero hz := h.zero (List.mem_append_left _ hz)
  room := (List.sublist_append_left ns vs).length_le.trans_lt h.room

omit [OrderedWords F] in
theorem Distinct.length_treeOf (h : Distinct ns) : (treeOf hash ns).leaves.length = ns.length + 1 := by
  have hzero : 0 ∉ ns.map Scalar.toNat := by
    intro h0
    obtain ⟨a, ha, hz⟩ := List.mem_map.mp h0
    exact h.zero (Scalar.toNat_inj (hz.trans Scalar.toNat_zero.symm) ▸ ha)
  rw [treeOf, length_inserts hzero (h.nodup.map Scalar.toNat_injective), List.length_map]

omit [OrderedWords F] in
theorem exists_cells (hash : List F → F) (ns : List F) : ∃ cells, Holds hash (treeOf hash ns) cells ∧
    (∀ u ∈ IndexedList.values cells, BnField.canonical F u = true) ∧
    ∀ v : F, (treeOf hash ns).contains (Scalar.toNat v) = true ↔ v = 0 ∨ v ∈ ns := by
  obtain ⟨cells, h, hmem⟩ := exists_holds hash (ns.map Scalar.toNat)
  refine ⟨cells, h, fun u hu => ?_, fun v => ?_⟩
  · rcases (hmem u).mp hu with rfl | hu
    · exact canonical_zero
    · obtain ⟨a, -, rfl⟩ := List.mem_map.mp hu
      exact BnField.canonical_toNat a
  · rw [treeOf, h.contains, hmem, List.mem_map_of_injective Scalar.toNat_injective]
    refine or_congr_left ⟨fun hz => ?_, fun hz => hz ▸ Scalar.toNat_zero⟩
    exact Scalar.toNat_inj (hz.trans Scalar.toNat_zero.symm)

/-- A low leaf that is written covers no stored nullifier. -/
theorem absent_of_written (H : Ideal hash) (hns : Distinct ns) {v : F} {low : LowLeaf F}
    (hwritten : low.position < ns.length + 1)
    (h : assertNonMembership hash v (rootOf hash ns) low = .ok ()) : v ∉ ns := by
  obtain ⟨cells, hholds, hcanonical, hcontains⟩ := exists_cells hash ns
  have hsound := (assertNonMembership_sound_iff H hholds hcanonical low.value low.nextValue low.nextIndex
    (show Merkle.ofBits (List.ofFn low.pathBits) = low.position from rfl)).mpr (fun _ => .inl (hns.length_treeOf ▸ hwritten)) low.siblings v h
  intro hv
  rw [(hcontains v).mpr (.inr hv)] at hsound
  cases hsound

/-- An insertion behind a written leaf. -/
theorem insertOne_new (H : Ideal hash) (hns : Distinct ns) {v post : F} {ins : Insertion F}
    (hwritten : ins.low.position < ns.length + 1)
    (h : insertOne hash (rootOf hash ns) v (ns.length + 1) ins = .ok post) :
    Distinct (ns ++ [v]) ∧ v ∉ ns ∧ post = rootOf hash (ns ++ [v]) := by
  obtain ⟨cells, hholds, hcanonical, hcontains⟩ := exists_cells hash ns
  have hlen : (treeOf hash ns).leaves.length = ns.length + 1 := hns.length_treeOf
  have hcount : (UInt32.ofNat (ns.length + 1)).toNat = ns.length + 1 :=
    Nat.mod_eq_of_lt (insertOne_eq_ok.mp h).1
  obtain ⟨hnew, w, t, hinsert, hroot⟩ := (runInsertions_sound_iff H hholds hcanonical ins.low.value
    ins.low.nextValue ins.low.nextIndex (show Merkle.ofBits (List.ofFn ins.low.pathBits) = ins.low.position from
      rfl)).mpr (fun _ => hlen ▸ hwritten.le) ins.low.siblings ins.newSiblings v post
      (.ofNat (ns.length + 1)) (hcount.trans hlen.symm) (runInsertions_one.mpr (hcount.symm ▸ h))
  have hv : ¬ (v = 0 ∨ v ∈ ns) := fun hv => by
    rw [(hcontains v).mpr hv] at hnew
    cases hnew
  rw [not_or] at hv
  refine ⟨hns.concat hv.1 hv.2 (insertOne_eq_ok.mp h).1, hv.2, ?_⟩
  have htree : treeOf hash (ns ++ [v]) = t := by
    rw [treeOf, List.map_append, List.map_singleton, inserts, List.foldl_concat]
    exact congrArg Prod.snd hinsert
  rw [rootOf, htree, hroot, BnField.ofNat_toNat]

/-- A new nullifier is inserted behind a written leaf. -/
theorem exists_insertOne (H : Ideal hash) (hns : Distinct ns) {v : F} (hnew : Distinct (ns ++ [v])) :
    ∃ ins : Insertion F, insertOne hash (rootOf hash ns) v (ns.length + 1) ins = .ok (rootOf hash (ns ++ [v])) ∧
      ins.low.position < ns.length + 1 := by
  obtain ⟨cells, hholds, hcanonical, hcontains⟩ := exists_cells hash ns
  have hlen : cells.length = ns.length + 1 := hholds.length.symm.trans hns.length_treeOf
  have hroom : ns.length + 1 < 2 ^ nullifierTreeDepth := by
    have hroom := hnew.room
    rwa [List.length_append] at hroom
  have habsent : Scalar.toNat v ∉ IndexedList.values cells := fun hv => by
    rcases (hcontains v).mp (hholds.contains.mpr hv) with rfl | hold
    · exact hnew.zero (List.mem_append_right _ List.mem_cons_self)
    · exact (List.nodup_append.mp hnew.nodup).2.2 v hold v List.mem_cons_self rfl
  have hpos : 0 < Scalar.toNat v := Nat.pos_of_ne_zero fun hz => habsent (hz.symm ▸ hholds.zero_mem)
  obtain ⟨c, hc, hlow⟩ := hholds.linked.exists_low hpos habsent
  obtain ⟨s, hs⟩ := List.mem_iff_getElem?.mp hc
  have hlt : s < ns.length + 1 := hlen ▸ (List.getElem?_eq_some_iff.mp hs).1
  have hbits := ofBits_indexBits (hlt.trans hroom)
  have hnext : BnField.canonical F c.nextValue = true := by
    by_cases hzero : c.nextValue = 0
    · rw [hzero]
      exact canonical_zero
    · exact hcanonical _ (hholds.exists_next hc hzero).1
  have hslot : leafHash hash (Scalar.ofNat c.value) (Scalar.ofNat c.nextValue)
      (Scalar.ofNat (UInt64.ofNat c.nextIndex).toNat) = slot hash (treeOf hash ns) s :=
    (hholds.slot_of_getElem? hs).symm
  have hcovers : (lowGiven (Scalar.ofNat c.value : F) (Scalar.ofNat c.nextValue)
      (Scalar.ofNat (UInt64.ofNat c.nextIndex).toNat)).Covers (Scalar.toNat v) := by
    rw [lowGiven, BnField.toNat_ofNat_of_canonical (hcanonical c.value (List.mem_map_of_mem hc)),
      BnField.toNat_ofNat_of_canonical hnext]
    exact covers_eq.mp (covers_leafOf.mpr hlow)
  have hempty : leafHash hash 0 0 0 = Function.update (slot hash (treeOf hash ns)) s
      (leafHash hash (Scalar.ofNat c.value) v (Scalar.ofNat (ns.length + 1))) (ns.length + 1) := by
    rw [Function.update_of_ne hlt.ne', hholds.slot_of_le hlen.le]
    rfl
  obtain ⟨siblings, hown⟩ := exists_siblings (merkleHash hash) (slot hash (treeOf hash ns)) (indexBits s)
  obtain ⟨newSiblings, hown'⟩ := exists_siblings (merkleHash hash) (Function.update
    (slot hash (treeOf hash ns)) s (leafHash hash (Scalar.ofNat c.value) v (Scalar.ofNat (ns.length + 1))))
    (indexBits (ns.length + 1))
  rw [hbits] at hown
  rw [ofBits_indexBits hroom] at hown'
  obtain ⟨ins, post, hposition, hins⟩ : ∃ ins post, ins.low.position = s ∧
      insertOne hash (rootOf hash ns) v (ns.length + 1) ins = .ok post :=
    ⟨⟨⟨_, _, _, indexBits s, siblings⟩, newSiblings⟩, _, hbits, (insertOne_iff H hholds hbits hroom).mpr
      ⟨⟨hslot, hown⟩, hcovers, ⟨hempty, hown'⟩, rfl⟩⟩
  have hwritten := hposition.trans_lt hlt
  obtain ⟨-, -, rfl⟩ := insertOne_new H hns hwritten hins
  exact ⟨ins, hins, hwritten⟩

/-- Each low leaf is written when it is used. -/
def Written : Nat → List (Insertion F) → Prop
  | _, [] => True
  | count, ins :: rest => ins.low.position < count ∧ Written (count + 1) rest

/-- By induction on the insertions. -/
theorem insertFrom_new (H : Ideal hash) (hns : Distinct ns) {vs : List F} {wit : List (Insertion F)} {post : F}
    (hlen : vs.length = wit.length) (hwritten : Written (ns.length + 1) wit)
    (h : insertFrom hash (rootOf hash ns) (ns.length + 1) (vs.zip wit) = .ok post) :
    Distinct (ns ++ vs) ∧ post = rootOf hash (ns ++ vs) := by
  induction vs generalizing ns wit with
  | nil =>
    cases h
    rw [List.append_nil]
    exact ⟨hns, rfl⟩
  | cons v vs ih =>
    cases wit with
    | nil => cases hlen
    | cons ins wit =>
      rw [List.zip_cons_cons, insertFrom, bind_eq_ok] at h
      obtain ⟨root, hone, hrest⟩ := h
      obtain ⟨hns', -, rfl⟩ := insertOne_new H hns hwritten.1 hone
      have hcount : (ns ++ [v]).length = ns.length + 1 := List.length_append
      have hrest' := ih hns' (Nat.succ.inj hlen) (hcount ▸ hwritten.2) (hcount ▸ hrest)
      rwa [List.append_assoc] at hrest'

theorem runInsertions_new (H : Ideal hash) (hns : Distinct ns) {pub : InsertionPublic F} {wit : List (Insertion F)}
    (hroot : pub.preActiveRoot = rootOf hash ns) (hcount : pub.preLeafCount.toNat = ns.length + 1)
    (hwritten : Written (ns.length + 1) wit) (h : runInsertions hash pub wit = .ok ()) :
    Distinct (ns ++ pub.nullifiers) ∧ pub.postActiveRoot = rootOf hash (ns ++ pub.nullifiers) := by
  simp only [runInsertions, bind_eq_ok, require_eq_ok, exists_const] at h
  obtain ⟨hlen, root, hinsert, rfl⟩ := h
  rw [hroot, hcount] at hinsert
  exact insertFrom_new H hns hlen hwritten hinsert

end

/-- A chain proof that matches the contract has folded the root of every epoch since the note's. -/
theorem Derived.exists_fold (H : Ideal hash) {folds : List (Fold F)} {pub : ChainPublic F} (hd : Derived hash folds pub)
    {s : EpochStorage} {epochCreated : UInt64} (hcreated : pub.epochCreated = ofU64 epochCreated)
    (hevt : pub.epochValidatedThrough = ofU64 s.currentEpoch)
    (hacc : pub.accumulator = Scalar.ofNat (s.expectedChainAccumulator hash epochCreated)) :
    epochCreated ≤ s.currentEpoch ∧ ∀ e, epochCreated.toNat ≤ e → e < s.currentEpoch.toNat →
      ∃ fold, folds[e - epochCreated.toNat]? = some fold ∧ fold.epoch = Scalar.ofNat e ∧
        fold.frozenRoot = Scalar.ofNat (s.frozenNullifierRoots e) := by
  have hroots : folds.map (·.frozenRoot) =
      ((s.epochsFrom epochCreated).map s.frozenNullifierRoots).map Scalar.ofNat := by
    rw [hd.folded, expectedChainAccumulator_eq, foldl_scalar] at hacc
    exact foldl_inj H.node_inj (fun a b => H.ne_zero (List.cons_ne_nil _ _) (by simp)) hacc
  have hlen : folds.length = s.currentEpoch.toNat - epochCreated.toNat := by
    have hlen := congrArg List.length hroots
    rwa [List.length_map, List.length_map, List.length_map, EpochStorage.epochsFrom, List.length_range'] at hlen
  constructor
  · rw [UInt64.le_iff_toNat_le]
    by_contra hlater
    have hcounted := hd.counted
    rw [hlen, Nat.sub_eq_zero_of_le (not_le.mp hlater).le, hevt, hcreated] at hcounted
    exact hlater (congrArg UInt64.toNat (Compliance.ofU64_inj hcounted)).ge
  · intro e hle hlt
    have hk : e - epochCreated.toNat < folds.length := by omega
    have hcurrent := s.currentEpoch.toNat_lt
    have hroot := congrArg (·[e - epochCreated.toNat]?) hroots
    have he : (s.epochsFrom epochCreated)[e - epochCreated.toNat]? = some e := by
      rw [EpochStorage.epochsFrom, List.getElem?_range' (hlen ▸ hk), Nat.one_mul, Nat.add_sub_cancel' hle]
    simp only [List.getElem?_map, he, List.getElem?_eq_getElem hk, Option.map_some, Option.some.injEq] at hroot
    refine ⟨folds[e - epochCreated.toNat], List.getElem?_eq_getElem hk, ?_, hroot⟩
    rw [hd.epochs _ _ (List.getElem?_eq_getElem hk), hcreated, ofU64, iterate_succ_ofNat _ (by omega),
      Nat.add_sub_cancel' hle]

end Pocs.Epochs
