import Pocs.Epochs.IndexedTree

/-! # Insertions into an indexed tree

A tree that starts empty stores the cells of a sorted linked list (`Holds`): an insertion splits the gap that the
value falls in. `insert` does not look at the depth of the tree: its witness leads from root to root as long as
the new leaf has a slot. -/

namespace Pocs.Epochs.Offchain

open Compliance (BnField Word Ideal)
open IndexedList (Cell Linked values splice Visits mem_values values_splice)
open Compliance (idealHash idealHash_ideal)

def leafOf (c : Cell Word) : IndexedLeaf := ⟨c.value, c.nextValue, .ofNat c.nextIndex⟩

theorem covers_eq {low : IndexedLeaf} {v : Word} :
    covers low v = true ↔ low.value < v ∧ (low.nextValue = 0 ∨ v < low.nextValue) := by
  simp only [covers, Bool.and_eq_true, Bool.or_eq_true, decide_eq_true_eq]

theorem covers_leafOf {c : Cell Word} {v : Word} : covers (leafOf c) v = true ↔ c.Low 0 v := by
  rw [covers_eq, or_comm]
  rfl

section
variable {F : Type} [BnField F] {hash : List F → F}

structure Holds (hash : List F → F) (t : IndexedMerkleTree) (cells : List (Cell Word)) : Prop where
  leaves : t.leaves = cells.map leafOf
  zeroHashes : t.zeroHashes = zeroHashesFrom hash (emptyLeafHash hash) nullifierTreeDepth
  linked : Linked 0 cells

theorem holds_new : Holds hash (.new hash) [⟨0, 0, 0⟩] where
  leaves := rfl
  zeroHashes := rfl
  linked := Linked.singleton Nat.zero_le

/-! ## One insertion -/

theorem getD_set {α : Type} (ls : List α) {i : Nat} (h : i < ls.length) (x d : α) :
    (fun j => (ls.set i x).getD j d) = Function.update (fun j => ls.getD j d) i x := by
  funext j
  rcases eq_or_ne j i with rfl | hne
  · rw [Function.update_self, List.getD_eq_getElem?_getD, List.getElem?_set_self h, Option.getD_some]
  · rw [Function.update_of_ne hne, List.getD_eq_getElem?_getD, List.getElem?_set_ne hne.symm,
      List.getD_eq_getElem?_getD]

/-- A leaf that is rewritten. -/
theorem slot_set (t : IndexedMerkleTree) {i : Nat} (h : i < t.leaves.length) (leaf : IndexedLeaf) :
    slot hash { t with leaves := t.leaves.set i leaf } =
      Function.update (slot hash t) i (leafScalar hash leaf) := by
  have hslot : slot hash t = fun j => (t.leaves.map (leafScalar hash)).getD j (leafScalar hash .empty) :=
    funext (slot_eq t)
  rw [hslot, ← getD_set _ (by rwa [List.length_map]), ← List.map_set]
  funext j
  exact slot_eq _ j

/-- A leaf that is appended. -/
theorem slot_concat (t : IndexedMerkleTree) (leaf : IndexedLeaf) :
    slot hash { t with leaves := t.leaves ++ [leaf] } =
      Function.update (slot hash t) t.leaves.length (leafScalar hash leaf) := by
  have hslot : slot hash t = fun j => (t.leaves.map (leafScalar hash)).getD j (leafScalar hash .empty) :=
    funext (slot_eq t)
  have hlen : t.leaves.length = (t.leaves.map (leafScalar hash)).length := by rw [List.length_map]
  rw [hslot, hlen, ← Merkle.getD_concat]
  funext j
  rw [slot_eq, List.map_append, List.map_singleton]

theorem toNat_ofNat_index {i : Nat} (h : i < 2 ^ nullifierTreeDepth) :
    (UInt64.ofNat i).toNat % 2 ^ nullifierTreeDepth = i := by
  have hdepth : 2 ^ nullifierTreeDepth ≤ 2 ^ 64 := Nat.pow_le_pow_right (by decide) (by decide)
  rw [UInt64.toNat_ofNat', Nat.mod_eq_of_lt (h.trans_le hdepth), Nat.mod_eq_of_lt h]

/-- `merkle_path` is the path of the slot. -/
theorem ownPath_merklePath {t : IndexedMerkleTree}
    (hzero : t.zeroHashes = zeroHashesFrom hash (emptyLeafHash hash) nullifierTreeDepth) {i : Nat}
    (hi : i < 2 ^ nullifierTreeDepth) : OwnPath hash (slot hash t) (.ofNat i) (t.merklePath hash i) := by
  rw [OwnPath, merklePath_eq hzero, toNat_ofNat_index hi]
  exact Merkle.map_snd_pathAt ofNat_poseidon2 0 nullifierTreeDepth i

namespace Holds
variable {t : IndexedMerkleTree} {cells : List (Cell Word)} {c : Cell Word} {i : Nat} {v : Word}

section
variable (h : Holds hash t cells)
include h

theorem length : t.leaves.length = cells.length := by
  rw [h.leaves, List.length_map]

theorem pos : 0 < cells.length := by
  obtain ⟨c, hc, -⟩ := h.linked.sentinel
  exact (List.getElem?_eq_some_iff.mp hc).1

theorem root : t.root hash = rootOf hash (slot hash t) :=
  root_eq_rootOf h.zeroHashes (List.ne_nil_of_length_pos (h.length ▸ h.pos))

theorem zero_mem : 0 ∈ values cells := by
  obtain ⟨c, hc, hz⟩ := h.linked.sentinel
  exact hz ▸ mem_values (List.mem_of_getElem? hc)

theorem contains : t.contains v = true ↔ v ∈ values cells := by
  rw [IndexedMerkleTree.contains, List.any_eq_true, h.leaves, values, List.mem_map]
  simp only [List.mem_map, exists_exists_and_eq_and, decide_eq_true_eq]
  rfl

theorem getElem? (i : Nat) : t.leaves[i]? = cells[i]?.map leafOf := by
  rw [h.leaves, List.getElem?_map]

/-- The low leaf of a value is the cell in whose gap it falls. -/
theorem lowLeafIndex_eq_some : t.lowLeafIndex v = some i ↔ ∃ c, cells[i]? = some c ∧ c.Low 0 v := by
  have hfound : ∀ {j}, t.lowLeafIndex v = some j → ∃ c, cells[j]? = some c ∧ c.Low 0 v := by
    intro j hj
    obtain ⟨hlt, hcovers, -⟩ := List.findIdx?_eq_some_iff_getElem.mp hj
    have hleaf := h.getElem? j
    rw [List.getElem?_eq_getElem hlt, eq_comm, Option.map_eq_some_iff] at hleaf
    obtain ⟨c, hc, hleaf⟩ := hleaf
    exact ⟨c, hc, covers_leafOf.mp (hleaf ▸ hcovers)⟩
  constructor
  · exact hfound
  · rintro ⟨c, hc, hlow⟩
    have hsome : ∃ j, t.lowLeafIndex v = some j := by
      rw [← Option.isSome_iff_exists, IndexedMerkleTree.lowLeafIndex, List.findIdx?_isSome, List.any_eq_true]
      exact ⟨leafOf c, h.leaves ▸ List.mem_map_of_mem (List.mem_of_getElem? hc), covers_leafOf.mpr hlow⟩
    obtain ⟨j, hj⟩ := hsome
    obtain ⟨d, hd, hlow'⟩ := hfound hj
    rw [hj, h.linked.low_unique hd hc hlow' hlow]

theorem lowLeafIndex_eq_none : t.lowLeafIndex v = none ↔ v ∈ values cells := by
  rw [Option.eq_none_iff_forall_ne_some]
  constructor
  · intro hnone
    by_contra hv
    have hpos : 0 < v := Nat.pos_of_ne_zero fun hz => hv (hz ▸ h.zero_mem)
    obtain ⟨c, hc, hlow⟩ := h.linked.exists_low hpos hv
    obtain ⟨i, hi⟩ := List.mem_iff_getElem?.mp hc
    exact hnone i (h.lowLeafIndex_eq_some.mpr ⟨c, hi, hlow⟩)
  · intro hv i hi
    obtain ⟨c, hc, hlow⟩ := h.lowLeafIndex_eq_some.mp hi
    exact h.linked.not_mem_of_low (List.mem_of_getElem? hc) hlow hv

/-- Zero and what is stored are refused. -/
theorem insert_of_mem (hv : v ∈ values cells) :
    t.insert hash v = (.error (if v = 0 then .reservedZeroValue else .duplicateValue), t) := by
  rw [IndexedMerkleTree.insert, h.lowLeafIndex_eq_none.mpr hv]
  split
  · rfl
  · rfl

theorem insert_of_low (hc : cells[i]? = some c) (hlow : c.Low 0 v) :
    t.insert hash v = (.ok (t.insertAfter hash v i).1, (t.insertAfter hash v i).2) := by
  have hne : v ≠ 0 := (Nat.zero_le _).trans_lt hlow.1 |>.ne'
  rw [IndexedMerkleTree.insert, if_neg hne, h.lowLeafIndex_eq_some.mpr ⟨c, hc, hlow⟩]

/-- An insertion splits the gap. -/
theorem insertAfter (hc : cells[i]? = some c) (hlow : c.Low 0 v) :
    Holds hash (t.insertAfter hash v i).2 (splice cells i c v) := by
  have hleaf : t.leaves.getD i .empty = leafOf c := by
    rw [List.getD_eq_getElem?_getD, h.getElem?, hc, Option.map_some, Option.getD_some]
  constructor
  · simp only [IndexedMerkleTree.insertAfter, hleaf]
    rw [h.leaves, splice, List.map_append, List.map_set, List.map_singleton, List.length_map]
    rfl
  · exact h.zeroHashes
  · exact h.linked.splice hc hlow

theorem slot_insertAfter (hc : cells[i]? = some c) (v : Word) :
    slot hash (t.insertAfter hash v i).2 =
      Function.update (Function.update (slot hash t) i (leafScalar hash ⟨c.value, v, .ofNat cells.length⟩))
        cells.length (leafScalar hash ⟨v, c.nextValue, .ofNat c.nextIndex⟩) := by
  have hleaf : t.leaves.getD i .empty = leafOf c := by
    rw [List.getD_eq_getElem?_getD, h.getElem?, hc, Option.map_some, Option.getD_some]
  have hi : i < t.leaves.length := h.length ▸ (List.getElem?_eq_some_iff.mp hc).1
  rw [← h.length, ← slot_set t hi]
  have hconcat := @slot_concat _ _ hash
    { t with leaves := t.leaves.set i ⟨c.value, v, .ofNat t.leaves.length⟩ } ⟨v, c.nextValue, .ofNat c.nextIndex⟩
  rw [List.length_set] at hconcat
  rw [← hconcat, IndexedMerkleTree.insertAfter, hleaf]
  rfl

theorem slot_of_getElem? (hc : cells[i]? = some c) :
    slot hash t i = leafScalar hash (leafOf c) := by
  rw [slot_eq, List.getD_eq_getElem?_getD, List.getElem?_map, h.getElem?, hc]
  rfl

theorem slot_of_le (hi : cells.length ≤ i) :
    slot hash t i = leafScalar hash .empty := by
  rw [slot_eq, List.getD_eq_default]
  rwa [List.length_map, h.length]

end

/-- The leaves of a tree with more than one are not empty. -/
theorem slot_ne_empty (H : Ideal hash) (h : Holds hash t cells)
    (hcanonical : ∀ u ∈ values cells, BnField.canonical F u = true) (hmore : 1 < cells.length)
    (hi : i < cells.length) : slot hash t i ≠ leafScalar hash .empty := by
  intro hempty
  have hc := List.getElem?_eq_getElem hi
  have hmem := List.mem_of_getElem? hc
  rw [h.slot_of_getElem? hc] at hempty
  obtain ⟨hvalue, hnext, -⟩ := H.hash3_inj hempty
  have hzero : BnField.canonical F 0 = true := hcanonical 0 h.zero_mem
  have hv : cells[i].value = 0 := BnField.eq_of_canonical (hcanonical _ (mem_values hmem)) hzero hvalue
  rcases h.linked.next _ hmem with ⟨-, -, hmax⟩ | ⟨-, ⟨d, hd, hdv⟩, hlt, -⟩
  · -- the last cell holds zero, so that every value is zero
    have hall : ∀ u ∈ values cells, u = 0 := fun u hu => Nat.le_zero.mp (hv ▸ hmax u hu)
    have hnodup := h.linked.nodup
    rw [List.eq_replicate_of_mem hall, List.nodup_replicate, values, List.length_map] at hnodup
    omega
  · have hn : cells[i].nextValue = 0 := BnField.eq_of_canonical
      (hcanonical _ (hdv ▸ mem_values (List.mem_of_getElem? hd))) hzero hnext
    rw [hn] at hlt
    exact absurd hlt (Nat.not_lt_zero _)

/-- The witness of an insertion leads from root to root just where the new leaf has a slot. -/
theorem verifyAndApply_iff (H : Ideal hash) (h : Holds hash t cells)
    (hcanonical : ∀ u ∈ values cells, BnField.canonical F u = true) (hv : BnField.canonical F v = true)
    (hc : cells[i]? = some c) (hlow : c.Low 0 v) :
    (t.insertAfter hash v i).1.verifyAndApply hash (t.root hash) v =
        some ((t.insertAfter hash v i).2.root hash) ↔ cells.length < 2 ^ nullifierTreeDepth := by
  have hi : i < cells.length := (List.getElem?_eq_some_iff.mp hc).1
  have hleaf : t.leaves.getD i .empty = leafOf c := by
    rw [List.getD_eq_getElem?_getD, h.getElem?, hc, Option.map_some, Option.getD_some]
  -- the tree between the two writes
  obtain ⟨r, hr⟩ : ∃ r : IndexedMerkleTree,
    r = { t with leaves := t.leaves.set i ⟨c.value, v, .ofNat cells.length⟩ } := ⟨_, rfl⟩
  have hzero : r.zeroHashes = zeroHashesFrom hash (emptyLeafHash hash) nullifierTreeDepth := by
    rw [hr]
    exact h.zeroHashes
  have hslot : slot hash r =
      Function.update (slot hash t) i (leafScalar hash ⟨c.value, v, .ofNat cells.length⟩) := by
    rw [hr]
    exact slot_set t (h.length ▸ hi) _
  have hwitness : (t.insertAfter hash v i).1 =
      ⟨leafOf c, .ofNat i, t.merklePath hash i, .ofNat cells.length, r.merklePath hash cells.length⟩ := by
    simp only [IndexedMerkleTree.insertAfter, hleaf, h.length, hr]
    rfl
  rw [h.root, (h.insertAfter hc hlow).root, h.slot_insertAfter hc, hwitness,
    verifyAndApply_eq_some H (length_merklePath h.zeroHashes i) (length_merklePath hzero _) rfl rfl]
  constructor
  · -- without a slot the new leaf would stand on one that is taken
    rintro ⟨-, -, -, hempty, -⟩
    by_contra hfull
    rw [not_lt] at hfull
    have hmore : 1 < cells.length := lt_of_lt_of_le (by decide) hfull
    rcases eq_or_ne ((UInt64.ofNat cells.length).toNat % 2 ^ nullifierTreeDepth)
      ((UInt64.ofNat i).toNat % 2 ^ nullifierTreeDepth) with heq | hne
    · rw [heq, Function.update_self] at hempty
      obtain ⟨-, hvalue, -⟩ := H.hash3_inj hempty
      have hv0 : 0 = v := BnField.eq_of_canonical (hcanonical 0 h.zero_mem) hv hvalue
      exact absurd hlow.1 (hv0 ▸ Nat.not_lt_zero _)
    · rw [Function.update_of_ne hne] at hempty
      exact h.slot_ne_empty H hcanonical hmore ((Nat.mod_lt _ (Nat.two_pow_pos _)).trans_le hfull) hempty.symm
  · intro hroom
    have hslot_i := toNat_ofNat_index (hi.trans hroom)
    have hslot_n := toNat_ofNat_index hroom
    rw [hslot_i, hslot_n]
    refine ⟨(h.slot_of_getElem? hc).symm, ownPath_merklePath h.zeroHashes (hi.trans hroom), covers_leafOf.mpr hlow,
      ?_, ?_, rfl⟩
    · rw [Function.update_of_ne (Nat.ne_of_gt hi), h.slot_of_le (Nat.le_refl _)]
    · have hown := ownPath_merklePath hzero hroom
      rw [hslot] at hown
      exact hown

end Holds

/-! ## Any number of insertions -/

/-- The tree after some calls of `insert`. -/
def inserts (hash : List F → F) (vs : List Word) : IndexedMerkleTree :=
  vs.foldl (fun t v => (t.insert hash v).2) (.new hash)

/-- A call keeps a tree of cells, with the value among them. -/
theorem Holds.insert {t : IndexedMerkleTree} {cells : List (Cell Word)} (h : Holds hash t cells) (v : Word) :
    ∃ cells', Holds hash (t.insert hash v).2 cells' ∧ ∀ u, u ∈ values cells' ↔ u ∈ values cells ∨ u = v := by
  by_cases hv : v ∈ values cells
  · rw [h.insert_of_mem hv]
    refine ⟨cells, h, fun u => ⟨.inl, ?_⟩⟩
    rintro (hu | rfl)
    · exact hu
    · exact hv
  · have hpos : 0 < v := Nat.pos_of_ne_zero fun hz => hv (hz ▸ h.zero_mem)
    obtain ⟨c, hc, hlow⟩ := h.linked.exists_low hpos hv
    obtain ⟨i, hi⟩ := List.mem_iff_getElem?.mp hc
    rw [h.insert_of_low hi hlow]
    refine ⟨_, h.insertAfter hi hlow, fun u => ?_⟩
    rw [values_splice v hi, List.mem_append, List.mem_singleton]

theorem exists_holds (hash : List F → F) (vs : List Word) :
    ∃ cells, Holds hash (inserts hash vs) cells ∧ ∀ u, u ∈ values cells ↔ u = 0 ∨ u ∈ vs := by
  induction vs using List.reverseRecOn with
  | nil => exact ⟨_, holds_new, fun u => by simp [values]⟩
  | append_singleton vs v ih =>
    obtain ⟨cells, h, hmem⟩ := ih
    obtain ⟨cells', h', hmem'⟩ := h.insert v
    refine ⟨cells', ?_, fun u => ?_⟩
    · rw [inserts, List.foldl_concat]
      exact h'
    · rw [hmem', hmem, List.mem_append, List.mem_singleton, or_assoc]

/-- The values that are met when `next_index` is followed from a leaf to one with `next_value` zero. -/
inductive Walks (leaves : List IndexedLeaf) : IndexedLeaf → List Word → Prop where
  | last {leaf : IndexedLeaf} (stop : leaf.nextValue = 0) : Walks leaves leaf []
  | next {leaf leaf' : IndexedLeaf} {vs : List Word} (go : leaf.nextValue ≠ 0)
    (link : leaves[leaf.nextIndex.toNat]? = some leaf') (rest : Walks leaves leaf' vs) :
    Walks leaves leaf (leaf'.value :: vs)

theorem walks_of_visits {cells : List (Cell Word)} (hlen : cells.length ≤ 2 ^ 64) {c : Cell Word} {vs : List Word}
    (h : Visits 0 cells c vs) : Walks (cells.map leafOf) (leafOf c) vs := by
  induction h with
  | last stop => exact .last stop
  | next go link value _ ih =>
    rw [← value]
    refine .next go ?_ ih
    have hlt := (List.getElem?_eq_some_iff.mp link).1.trans_le hlen
    rw [leafOf, UInt64.toNat_ofNat', Nat.mod_eq_of_lt hlt, List.getElem?_map, link]
    rfl

namespace Holds
variable {t : IndexedMerkleTree} {cells : List (Cell Word)} {v : Word}

/-- From the first leaf every other value is met, in ascending order. -/
theorem exists_walk (h : Holds hash t cells) (hlen : cells.length ≤ 2 ^ 64) :
    ∃ leaf order, t.leaves[0]? = some leaf ∧ Walks t.leaves leaf order ∧ order.Pairwise (· < ·) ∧
      ∀ u, u ∈ order ↔ u ∈ values cells ∧ u ≠ 0 := by
  obtain ⟨c, hc, hz⟩ := h.linked.sentinel
  obtain ⟨order, hvisits, hsorted, hmem⟩ := h.linked.exists_visits (List.mem_of_getElem? hc)
  refine ⟨leafOf c, order, by rw [h.getElem?, hc, Option.map_some], h.leaves ▸ walks_of_visits hlen hvisits,
    hsorted, fun u => ?_⟩
  rw [hmem, hz]
  exact and_congr_right fun _ => Nat.pos_iff_ne_zero

/-- A value that is not stored is covered by one leaf. -/
theorem covered_once (h : Holds hash t cells) (hv : v ∉ values cells) :
    ∃! i : Nat, ∃ leaf, t.leaves[i]? = some leaf ∧ covers leaf v = true := by
  have hpos : 0 < v := Nat.pos_of_ne_zero fun hz => hv (hz ▸ h.zero_mem)
  obtain ⟨c, hc, hlow⟩ := h.linked.exists_low hpos hv
  obtain ⟨i, hi⟩ := List.mem_iff_getElem?.mp hc
  refine ⟨i, ⟨leafOf c, by rw [h.getElem?, hi, Option.map_some], covers_leafOf.mpr hlow⟩, ?_⟩
  rintro j ⟨leaf, hleaf, hcovers⟩
  rw [h.getElem?, Option.map_eq_some_iff] at hleaf
  obtain ⟨d, hd, rfl⟩ := hleaf
  exact h.linked.low_unique hd hi (covers_leafOf.mp hcovers) hlow

theorem not_covered (h : Holds hash t cells) (hv : v ∈ values cells) {leaf : IndexedLeaf}
    (hleaf : leaf ∈ t.leaves) : covers leaf v = false := by
  rw [h.leaves, List.mem_map] at hleaf
  obtain ⟨c, hc, rfl⟩ := hleaf
  rw [Bool.eq_false_iff]
  exact fun hcovers => h.linked.not_mem_of_low hc (covers_leafOf.mp hcovers) hv

theorem nonMembershipWitness_eq_none (h : Holds hash t cells) (hv : v ∈ values cells) :
    t.nonMembershipWitness hash v = none := by
  rw [IndexedMerkleTree.nonMembershipWitness, h.lowLeafIndex_eq_none.mpr hv]
  rfl

/-- A witness exists for the values that are not stored, and verifies. -/
theorem nonMembershipWitness_verifies (h : Holds hash t cells) (hlen : cells.length ≤ 2 ^ nullifierTreeDepth)
    (hv : v ∉ values cells) :
    ∃ w, t.nonMembershipWitness hash v = some w ∧ w.verify hash (t.root hash) v = true := by
  have hpos : 0 < v := Nat.pos_of_ne_zero fun hz => hv (hz ▸ h.zero_mem)
  obtain ⟨c, hc, hlow⟩ := h.linked.exists_low hpos hv
  obtain ⟨i, hi⟩ := List.mem_iff_getElem?.mp hc
  have hlt : i < 2 ^ nullifierTreeDepth := (List.getElem?_eq_some_iff.mp hi).1.trans_le hlen
  refine ⟨⟨leafOf c, .ofNat i, t.merklePath hash i⟩, ?_, ?_⟩
  · rw [IndexedMerkleTree.nonMembershipWitness, h.lowLeafIndex_eq_some.mpr ⟨c, hi, hlow⟩]
    show (t.leaves[i]?.bind fun lowLeaf => some _) = _
    rw [h.getElem?, hi]
    rfl
  · rw [NonMembershipWitness.verify, covers_leafOf.mpr hlow, Bool.and_true, verifyInclusion, decide_eq_true_eq,
      (ownPath_merklePath h.zeroHashes hlt).rootFromPath, toNat_ofNat_index hlt, ofNat_hash,
      ← h.slot_of_getElem? hi, Function.update_eq_self, h.root]

/-- A value that is not stored is inserted. -/
theorem insert_of_not_mem (H : Ideal hash) (h : Holds hash t cells)
    (hcanonical : ∀ u ∈ values cells, BnField.canonical F u = true) (hv : BnField.canonical F v = true)
    (hnew : v ∉ values cells) : ∃ w t', t.insert hash v = (.ok w, t') ∧
      (w.verifyAndApply hash (t.root hash) v = some (t'.root hash) ↔
        t.leaves.length < 2 ^ nullifierTreeDepth) := by
  have hpos : 0 < v := Nat.pos_of_ne_zero fun hz => hnew (hz ▸ h.zero_mem)
  obtain ⟨c, hc, hlow⟩ := h.linked.exists_low hpos hnew
  obtain ⟨i, hi⟩ := List.mem_iff_getElem?.mp hc
  refine ⟨_, _, h.insert_of_low hi hlow, ?_⟩
  rw [h.length]
  exact h.verifyAndApply_iff H hcanonical hv hi hlow

end Holds

/-- What the calls keep, in trees with no more leaves than there are slots. The witness of the next insertion
verifies just where there is one slot more. -/
theorem inserts_kept (H : Ideal hash) {vs : List Word} (hvs : ∀ v ∈ vs, BnField.canonical F v = true)
    {t : IndexedMerkleTree} (ht : inserts hash vs = t) (hroom : t.leaves.length ≤ 2 ^ nullifierTreeDepth) :
    (∃ leaf order, t.leaves[0]? = some leaf ∧ Walks t.leaves leaf order ∧ order.Pairwise (· < ·) ∧
      ∀ v, v ∈ order ↔ v ∈ vs ∧ v ≠ 0) ∧
    (∀ v, v ≠ 0 → v ∉ vs → ∃! i : Nat, ∃ leaf, t.leaves[i]? = some leaf ∧ covers leaf v = true) ∧
    (∀ v ∈ vs, ∀ leaf ∈ t.leaves, covers leaf v = false) ∧
    (∀ v, v = 0 ∨ v ∈ vs → ∃ e, t.insert hash v = (.error e, t)) ∧
    (∀ v, v ≠ 0 → v ∉ vs → BnField.canonical F v = true → ∃ w t', t.insert hash v = (.ok w, t') ∧
      (w.verifyAndApply hash (t.root hash) v = some (t'.root hash) ↔
        t.leaves.length < 2 ^ nullifierTreeDepth)) ∧
    (∀ v, v = 0 ∨ v ∈ vs → t.nonMembershipWitness hash v = none) ∧ (∀ v, v ≠ 0 → v ∉ vs →
      ∃ w, t.nonMembershipWitness hash v = some w ∧ w.verify hash (t.root hash) v = true) ∧
    t.root hash = Merkle.nodeAt (poseidon2 hash)
      (fun j => (t.leaves.map (·.hash hash)).getD j (emptyLeafHash hash)) nullifierTreeDepth 0 := by
  subst ht
  obtain ⟨cells, h, hmem⟩ := exists_holds hash vs
  rw [h.length] at hroom
  have hcanonical : ∀ u ∈ values cells, BnField.canonical F u = true := by
    intro u hu
    rcases (hmem u).mp hu with rfl | hu
    · exact BnField.canonical_of_lt (by decide)
    · exact hvs u hu
  have hnew : ∀ {v}, v ≠ 0 → v ∉ vs → v ∉ values cells := by
    intro v hne hv hin
    exact ((hmem v).mp hin).elim hne hv
  refine ⟨?_, ?_, ?_, ?_, ?_, ?_, ?_, root_eq h.zeroHashes (List.ne_nil_of_length_pos (h.length ▸ h.pos))⟩
  · obtain ⟨leaf, order, hleaf, hwalks, hsorted, horder⟩ :=
      h.exists_walk (hroom.trans (Nat.pow_le_pow_right (by decide) (by decide)))
    refine ⟨leaf, order, hleaf, hwalks, hsorted, fun v => ?_⟩
    rw [horder, hmem]
    constructor
    · exact fun hv => ⟨hv.1.resolve_left hv.2, hv.2⟩
    · exact fun hv => ⟨.inr hv.1, hv.2⟩
  · exact fun v hne hv => h.covered_once (hnew hne hv)
  · exact fun v hv leaf hleaf => h.not_covered ((hmem v).mpr (.inr hv)) hleaf
  · exact fun v hv => ⟨_, h.insert_of_mem ((hmem v).mpr hv)⟩
  · exact fun v hne hv hc => h.insert_of_not_mem H hcanonical hc (hnew hne hv)
  · exact fun v hv => h.nonMembershipWitness_eq_none ((hmem v).mpr hv)
  · exact fun v hne hv => h.nonMembershipWitness_verifies hroom (hnew hne hv)

end

/-- Every value that is new takes a leaf. -/
theorem length_inserts {F : Type} [BnField F] {hash : List F → F} {vs : List Word} (hzero : 0 ∉ vs)
    (hnodup : vs.Nodup) : (inserts hash vs).leaves.length = vs.length + 1 := by
  obtain ⟨cells, h, hmem⟩ := exists_holds hash vs
  have hperm : (values cells).Perm (0 :: vs) :=
    (List.perm_ext_iff_of_nodup h.linked.nodup (List.nodup_cons.mpr ⟨hzero, hnodup⟩)).mpr fun u => by
      rw [hmem, List.mem_cons]
  rw [h.length, ← List.length_cons, ← hperm.length_eq, values, List.length_map]

/-- Four values, out of order. -/
theorem inserts_kept_sample : ∃ leaf order, (inserts idealHash [50, 10, 90, 30]).leaves[0]? = some leaf ∧
    Walks (inserts idealHash [50, 10, 90, 30]).leaves leaf order ∧ order.Pairwise (· < ·) ∧
    ∀ v, v ∈ order ↔ v ∈ [50, 10, 90, 30] ∧ v ≠ 0 :=
  (inserts_kept idealHash_ideal (fun _ _ => rfl) rfl (by rw [length_inserts (by decide) (by decide)]; decide)).1

/-- With all slots taken a value is still inserted, by a witness that does not lead to the new root. -/
theorem insert_without_slot : ∃ vs : List Word, (inserts idealHash vs).leaves.length = 2 ^ nullifierTreeDepth ∧
    ∃ w t', (inserts idealHash vs).insert idealHash (2 ^ nullifierTreeDepth) = (.ok w, t') ∧
      w.verifyAndApply idealHash ((inserts idealHash vs).root idealHash)
        (2 ^ nullifierTreeDepth) ≠ some (t'.root idealHash) := by
  have hmem : ∀ v, v ∈ List.range' 1 (2 ^ nullifierTreeDepth - 1) ↔ 1 ≤ v ∧ v < 2 ^ nullifierTreeDepth := by
    intro v
    have hpos := Nat.two_pow_pos nullifierTreeDepth
    rw [List.mem_range'_1]
    omega
  have hlen : (inserts idealHash (List.range' 1 (2 ^ nullifierTreeDepth - 1))).leaves.length =
      2 ^ nullifierTreeDepth := by
    rw [length_inserts (fun h => absurd ((hmem 0).mp h).1 (by decide)) List.nodup_range', List.length_range']
    exact Nat.sub_add_cancel (Nat.two_pow_pos _)
  obtain ⟨cells, h, hvalues⟩ := exists_holds idealHash (List.range' 1 (2 ^ nullifierTreeDepth - 1))
  have hnew : 2 ^ nullifierTreeDepth ∉ values cells := by
    rw [hvalues, hmem]
    rintro (hz | hlt)
    · exact absurd hz (Nat.two_pow_pos _).ne'
    · exact absurd hlt.2 (Nat.lt_irrefl _)
  obtain ⟨w, t', hinsert, hverify⟩ :=
    h.insert_of_not_mem idealHash_ideal (fun _ _ => rfl) rfl hnew
  exact ⟨_, hlen, w, t', hinsert, fun hroot => (hverify.mp hroot).ne hlen⟩

end Pocs.Epochs.Offchain
