import Pocs.Epochs.Circuits
import Pocs.Epochs.Insertions

/-! # Low leaves that are given to a verifier

A verifier takes a leaf for the one at an index if it hashes to what the slot holds. The empty slots hold the hash
of the genesis leaf, which covers every value, and a word above the modulus hashes as its residue: `absent_iff`
and `applied_iff` tell for which leaves an accepted witness is right about the tree. -/

namespace Pocs.Epochs.Offchain

open Compliance (BnField Word Ideal merkleHash idealHash idealHash_ideal)
open IndexedList (Cell values mem_values)
open Compliance.BnField (canonical canonical_toNat eq_of_canonical ofNat_toNat)
open Merkle (arrayPath nodeAt ofBits pathAt)

/-- The words below the modulus. -/
class OrderedWords (F : Type) [BnField F] : Prop where
  canonical_of_le : ∀ {m n : Word}, m ≤ n → canonical F n = true → canonical F m = true

instance : OrderedWords Civic.Fr where
  canonical_of_le hmn hn := decide_eq_true (hmn.trans_lt (of_decide_eq_true hn))

instance : OrderedWords Unbounded where
  canonical_of_le _ _ := rfl

/-- A leaf as a verifier reads it. -/
structure Given (F : Type) where
  value : Word
  nextValue : Word
  nextIndex : F

section
variable {F : Type} [BnField F] (hash : List F → F)

def Given.scalar (g : Given F) : F := hash [Scalar.ofNat g.value, Scalar.ofNat g.nextValue, g.nextIndex]

def Given.Covers (g : Given F) (v : Word) : Prop := g.value < v ∧ (g.nextValue = 0 ∨ v < g.nextValue)

/-- The slots after an insertion of `v` behind the leaf at `s`. -/
def Given.applied (g : Given F) (t : IndexedMerkleTree) (s n : Nat) (v : Word) : Nat → F :=
  Function.update (Function.update (slot hash t) s (hash [Scalar.ofNat g.value, Scalar.ofNat v, Scalar.ofNat n])) n
    (hash [Scalar.ofNat v, Scalar.ofNat g.nextValue, g.nextIndex])

/-- The cell that a slot stands for. -/
def cellAt (cells : List (Cell Word)) (s : Nat) : Cell Word := cells.getD s ⟨0, 0, 0⟩

end

section
variable {F : Type} [BnField F] [OrderedWords F] {hash : List F → F} {t : IndexedMerkleTree}
  {cells : List (Cell Word)} {g : Given F} {s : Nat}

theorem lt_of_canonical {m n : Word} (hm : canonical F m = true) (hn : ¬ canonical F n = true) : m < n :=
  lt_of_not_ge fun hle => hn (OrderedWords.canonical_of_le hle hm)

omit [OrderedWords F]

theorem canonical_zero : canonical F 0 = true := BnField.canonical_of_lt (by decide)

theorem cellAt_of_lt (hs : s < cells.length) : cells[s]? = some (cellAt cells s) := by
  rw [cellAt, List.getD_eq_getElem _ _ hs, List.getElem?_eq_getElem hs]

theorem cellAt_of_le (hs : cells.length ≤ s) : cellAt cells s = ⟨0, 0, 0⟩ := List.getD_eq_default _ _ hs

/-- What is given for a slot agrees with the cell on the residues. -/
theorem Given.eq_slot (H : Ideal hash) (h : Holds hash t cells) (hg : g.scalar hash = slot hash t s) :
    (Scalar.ofNat g.value : F) = Scalar.ofNat (cellAt cells s).value ∧
      (Scalar.ofNat g.nextValue : F) = Scalar.ofNat (cellAt cells s).nextValue ∧
      g.nextIndex = Scalar.ofNat (UInt64.ofNat (cellAt cells s).nextIndex).toNat := by
  have hslot : slot hash t s = leafScalar hash (leafOf (cellAt cells s)) := by
    rcases Nat.lt_or_ge s cells.length with hs | hs
    · exact h.slot_of_getElem? (cellAt_of_lt hs)
    · rw [h.slot_of_le hs, cellAt_of_le hs]
      rfl
  exact H.hash3_inj (hg.trans hslot)

theorem Holds.exists_next (h : Holds hash t cells) {c : Cell Word} (hc : c ∈ cells) (hne : c.nextValue ≠ 0) :
    c.nextValue ∈ values cells ∧ c.value < c.nextValue := by
  rcases h.linked.next c hc with ⟨-, hz, -⟩ | ⟨-, ⟨d, hd, hdv⟩, hlt, -⟩
  · exact absurd hz hne
  · exact ⟨hdv ▸ mem_values (List.mem_of_getElem? hd), hlt⟩

/-- A tree of more than one leaf stores a value other than zero. -/
theorem Holds.exists_value (h : Holds hash t cells) (hmore : cells.length ≠ 1) : ∃ v ∈ values cells, v ≠ 0 := by
  by_contra hnone
  simp only [not_exists, not_and, not_not] at hnone
  have hnodup := h.linked.nodup
  rw [List.eq_replicate_of_mem hnone, List.nodup_replicate, values, List.length_map] at hnodup
  have hpos := h.pos
  omega

theorem Holds.eq_zero (h : Holds hash t cells) (hone : cells.length = 1) {v : Word} (hv : v ∈ values cells) :
    v = 0 := by
  have hlen : (values cells).length = 1 := by rw [values, List.length_map, hone]
  obtain ⟨u, hu⟩ := List.length_eq_one_iff.mp hlen
  have hzero := h.zero_mem
  rw [hu, List.mem_singleton] at hv hzero
  rw [hv, ← hzero]

/-- A value that is not stored is inserted at the cell in whose gap it falls. -/
theorem Holds.slot_insert (h : Holds hash t cells) {v : Word} (hv : v ∉ values cells) :
    ∃ i c w t', cells[i]? = some c ∧ c.Low 0 v ∧ t.insert hash v = (.ok w, t') ∧ slot hash t' =
        Function.update (Function.update (slot hash t) i (leafScalar hash ⟨c.value, v, .ofNat cells.length⟩))
          cells.length (leafScalar hash ⟨v, c.nextValue, .ofNat c.nextIndex⟩) := by
  have hpos : 0 < v := Nat.pos_of_ne_zero fun hz => hv (hz ▸ h.zero_mem)
  obtain ⟨c, hc, hlow⟩ := h.linked.exists_low hpos hv
  obtain ⟨i, hi⟩ := List.mem_iff_getElem?.mp hc
  exact ⟨i, c, _, _, hi, hlow, h.insert_of_low hi hlow, h.slot_insertAfter hi v⟩

end

section
variable {F : Type} [BnField F] [OrderedWords F] {hash : List F → F} {t : IndexedMerkleTree}
  {cells : List (Cell Word)} {g : Given F} {s : Nat} {V : Word → Prop}

/-- The leaves that cover no stored value. -/
theorem absent_iff (H : Ideal hash) (h : Holds hash t cells)
    (hcanonical : ∀ u ∈ values cells, canonical F u = true) (hV : ∀ u ∈ values cells, V u)
    (hg : g.scalar hash = slot hash t s) : (∀ v, V v → g.Covers v → v ∉ values cells) ↔
      (canonical F g.value = true →
        (s < cells.length → canonical F g.nextValue = true ∨ (Scalar.ofNat g.nextValue : F) = 0) ∧
        (cells.length ≤ s → cells.length = 1)) := by
  obtain ⟨hvalue, hnext, -⟩ := g.eq_slot H h hg
  constructor
  · intro habsent hgv
    constructor
    · intro hs
      have hc := List.mem_of_getElem? (cellAt_of_lt hs)
      have hv := eq_of_canonical hgv (hcanonical _ (mem_values hc)) hvalue
      by_contra hbad
      rw [not_or] at hbad
      have hne : (cellAt cells s).nextValue ≠ 0 := fun hz => hbad.2 (by rw [hnext, hz]; rfl)
      obtain ⟨hmem, hlt⟩ := h.exists_next hc hne
      exact habsent _ (hV _ hmem) ⟨hv ▸ hlt, .inr (lt_of_canonical (hcanonical _ hmem) hbad.1)⟩ hmem
    · intro hs
      by_contra hmore
      rw [cellAt_of_le hs] at hvalue hnext
      have hv := eq_of_canonical hgv canonical_zero hvalue
      obtain ⟨u, hmem, hu⟩ := h.exists_value hmore
      refine habsent u (hV _ hmem) ⟨hv ▸ Nat.pos_of_ne_zero hu, ?_⟩ hmem
      by_cases hgn : canonical F g.nextValue = true
      · exact .inl (eq_of_canonical hgn canonical_zero hnext)
      · exact .inr (lt_of_canonical (hcanonical _ hmem) hgn)
  · intro hcond v _ hcovers hmem
    have hgv := OrderedWords.canonical_of_le hcovers.1.le (hcanonical v hmem)
    have hcond := hcond hgv
    rcases Nat.lt_or_ge s cells.length with hs | hs
    · have hc := List.mem_of_getElem? (cellAt_of_lt hs)
      have hv := eq_of_canonical hgv (hcanonical _ (mem_values hc)) hvalue
      apply h.linked.not_mem_of_low hc _ hmem
      rw [Cell.Low, ← hv]
      refine ⟨hcovers.1, ?_⟩
      by_cases hne : (cellAt cells s).nextValue = 0
      · exact .inr hne
      · have hcn := hcanonical _ (h.exists_next hc hne).1
        rcases hcond.1 hs with hgn | hzero
        · have hn := eq_of_canonical hgn hcn hnext
          rw [← hn] at hne ⊢
          exact .inl (hcovers.2.resolve_left hne)
        · exact absurd (eq_of_canonical hcn canonical_zero (hnext.symm.trans hzero)) hne
    · rw [h.eq_zero (hcond.2 hs) hmem] at hcovers
      exact absurd hcovers.1 (Nat.not_lt_zero _)

/-- The value is new, and the slots are those of the tree after its insertion. -/
def Given.Right (g : Given F) (hash : List F → F) (t : IndexedMerkleTree) (s : Nat) (v : Word) : Prop :=
  t.contains v = false ∧ ∃ w t', t.insert hash v = (.ok w, t') ∧
    ∀ j < 2 ^ nullifierTreeDepth, slot hash t' j = g.applied hash t s t.leaves.length v j

omit [OrderedWords F] in
/-- A leaf with the links of the low leaf gives the right slots. -/
theorem Given.right_of_low (H : Ideal hash) (h : Holds hash t cells) (hg : g.scalar hash = slot hash t s)
    (hroom : cells.length < 2 ^ nullifierTreeDepth) (hs : s < cells.length) {v : Word}
    (hlow : (cellAt cells s).Low 0 v) : g.Right hash t s v := by
  obtain ⟨hvalue, hnext, hindex⟩ := g.eq_slot H h hg
  have hc := cellAt_of_lt hs
  have hnew := h.linked.not_mem_of_low (List.mem_of_getElem? hc) hlow
  refine ⟨?_, _, _, h.insert_of_low hc hlow, fun j _ => ?_⟩
  · rw [Bool.eq_false_iff, Ne, h.contains]
    exact hnew
  · have hlen : (UInt64.ofNat cells.length).toNat = cells.length :=
      Nat.mod_eq_of_lt (hroom.trans_le (Nat.pow_le_pow_right (by decide) (by decide)))
    rw [h.slot_insertAfter hc, applied, h.length]
    simp only [leafScalar, hlen, hvalue, hnext, hindex]

/-- The leaves whose insertions are all right. -/
theorem applied_iff (H : Ideal hash) (h : Holds hash t cells)
    (hcanonical : ∀ u ∈ values cells, canonical F u = true) (hV : ∀ u ∈ values cells, V u)
    (hg : g.scalar hash = slot hash t s) (hroom : cells.length < 2 ^ nullifierTreeDepth)
    (hs : s < 2 ^ nullifierTreeDepth) (hne : s ≠ cells.length) : (∀ v, V v → g.Covers v → g.Right hash t s v) ↔
      (∀ v, V v → ¬ g.Covers v) ∨ s < cells.length ∧ ((Scalar.ofNat g.nextValue : F) = 0 ∨
          canonical F g.value = true ∧ canonical F g.nextValue = true) := by
  obtain ⟨hvalue, hnext, -⟩ := g.eq_slot H h hg
  constructor
  · intro hright
    by_contra hbad
    simp only [not_or, not_and, not_forall, not_not] at hbad
    obtain ⟨⟨v, hVv, hcovers⟩, hbad⟩ := hbad
    obtain ⟨habsent, w, t', hinsert, hslots⟩ := hright v hVv hcovers
    have hnew : v ∉ values cells := by
      rw [Bool.eq_false_iff, Ne, h.contains] at habsent
      exact habsent
    obtain ⟨i, c, w', t'', hc, hlow, hinsert', hslot⟩ := h.slot_insert hnew
    rw [hinsert, Prod.mk.injEq] at hinsert'
    obtain ⟨-, rfl⟩ := hinsert'
    have hi := (List.getElem?_eq_some_iff.mp hc).1
    have hslot_s := hslots s hs
    rw [hslot, Given.applied, h.length, Function.update_of_ne hne, Function.update_of_ne hne, Function.update_self]
      at hslot_s
    -- a slot other than that of the low leaf keeps its link
    have hlink : s ≠ i → (Scalar.ofNat (UInt64.ofNat (cellAt cells s).nextIndex).toNat : F) =
        Scalar.ofNat cells.length := by
      intro hsi
      rw [Function.update_of_ne hsi, ← hg] at hslot_s
      obtain ⟨-, -, hlast⟩ := H.hash3_inj hslot_s
      exact (g.eq_slot H h hg).2.2.symm.trans hlast
    have hlt64 : cells.length < 2 ^ 64 := hroom.trans_le (Nat.pow_le_pow_right (by decide) (by decide))
    rcases Nat.lt_or_ge s cells.length with hsn | hsn
    · have hmem := List.mem_of_getElem? (cellAt_of_lt hsn)
      have hbad := hbad hsn
      have hcne : (cellAt cells s).nextValue ≠ 0 := fun hz => hbad.1 (by rw [hnext, hz]; rfl)
      obtain ⟨hnmem, hnlt⟩ := h.exists_next hmem hcne
      by_cases hgv : canonical F g.value = true
      · -- the next value is stored, and covered
        have hv := eq_of_canonical hgv (hcanonical _ (mem_values hmem)) hvalue
        have hgn := hbad.2 hgv
        obtain ⟨hcontains, -⟩ := hright _ (hV _ hnmem)
          ⟨hv ▸ hnlt, .inr (lt_of_canonical (hcanonical _ hnmem) hgn)⟩
        rw [h.contains.mpr hnmem] at hcontains
        cases hcontains
      · by_cases hsi : s = i
        · -- the low leaf covers only values below the modulus
          subst hsi
          rw [cellAt_of_lt hsn, Option.some.injEq] at hc
          rw [← hc] at hlow
          have hvn := hlow.2.resolve_right hcne
          exact hgv (OrderedWords.canonical_of_le hcovers.1.le
            (OrderedWords.canonical_of_le hvn.le (hcanonical _ hnmem)))
        · have hidx := h.linked.nextIndex_lt hmem
          have heq := Scalar.ofNat_inj (UInt64.toNat_lt _) hlt64 (hlink hsi)
          rw [UInt64.toNat_ofNat', Nat.mod_eq_of_lt (hidx.trans hlt64)] at heq
          exact absurd heq hidx.ne
    · have heq := Scalar.ofNat_inj (UInt64.toNat_lt _) hlt64 (hlink (Nat.ne_of_gt (hi.trans_le hsn)))
      rw [cellAt_of_le hsn] at heq
      exact absurd heq h.pos.ne
  · intro hcond v hVv hcovers
    rcases hcond with hnone | ⟨hsn, hcond⟩
    · exact absurd hcovers (hnone v hVv)
    apply Given.right_of_low H h hg hroom hsn
    have hmem := List.mem_of_getElem? (cellAt_of_lt hsn)
    have hcv := hcanonical _ (mem_values hmem)
    rcases hcond with hzero | ⟨hgv, hgn⟩
    · -- the last cell
      have hcne : (cellAt cells s).nextValue = 0 := by
        by_contra hcne
        exact hcne (eq_of_canonical (hcanonical _ (h.exists_next hmem hcne).1) canonical_zero
          (hnext.symm.trans hzero))
      refine ⟨lt_of_le_of_lt ?_ hcovers.1, .inr hcne⟩
      by_cases hgv : canonical F g.value = true
      · exact (eq_of_canonical hgv hcv hvalue).ge
      · exact (lt_of_canonical hcv hgv).le
    · have hv := eq_of_canonical hgv hcv hvalue
      have hcn : canonical F (cellAt cells s).nextValue = true := by
        by_cases hcne : (cellAt cells s).nextValue = 0
        · rw [hcne]
          exact canonical_zero
        · exact hcanonical _ (h.exists_next hmem hcne).1
      have hn := eq_of_canonical hgn hcn hnext
      rw [Cell.Low, ← hv, ← hn]
      exact ⟨hcovers.1, hcovers.2.symm⟩

end

/-! ## The verifiers -/

def IndexedLeaf.given (F : Type) [BnField F] (low : IndexedLeaf) : Given F :=
  ⟨low.value, low.nextValue, Scalar.ofNat low.nextIndex.toNat⟩

/-- A leaf of a circuit. -/
def lowGiven {F : Type} [BnField F] (value nextValue nextIndex : F) : Given F :=
  ⟨Scalar.toNat value, Scalar.toNat nextValue, nextIndex⟩

section
variable {F : Type} [BnField F] {hash : List F → F} {t : IndexedMerkleTree} {cells : List (Cell Word)}

theorem exists_ownPath (hash : List F → F) (f : Nat → F) (index : UInt64) :
    ∃ siblings, siblings.length = nullifierTreeDepth ∧ OwnPath hash f index siblings := by
  refine ⟨((pathAt (merkleHash hash) f 0 nullifierTreeDepth (index.toNat % 2 ^ nullifierTreeDepth)).map
    (·.2)).map Scalar.toNat, ?_, ?_⟩
  · rw [List.length_map, List.length_map, Merkle.length_pathAt]
  · have hid : (Scalar.ofNat ∘ Scalar.toNat : F → F) = id := funext ofNat_toNat
    rw [OwnPath, List.map_map, hid, List.map_id]

/-- Trees have the same root if their slots are the same. -/
theorem rootOf_eq_iff (H : Ideal hash) {f g : Nat → F} :
    rootOf hash f = rootOf hash g ↔ ∀ j < 2 ^ nullifierTreeDepth, f j = g j := by
  rw [rootOf, rootOf]
  constructor
  · intro h j hj
    exact Merkle.nodeAt_inj H.node_inj (Scalar.toNat_inj h) (Nat.div_eq_of_lt hj)
  · intro h
    exact congrArg Scalar.toNat (Merkle.nodeAt_congr fun j hj =>
      h j (Nat.lt_of_div_eq_zero (Nat.two_pow_pos _) hj))

theorem Holds.contains_eq_false (h : Holds hash t cells) {v : Word} : t.contains v = false ↔ v ∉ values cells := by
  rw [Bool.eq_false_iff, Ne, h.contains]

/-- What is right about the root of the tree after the insertion. -/
theorem Given.right_iff (H : Ideal hash) (h : Holds hash t cells) {g : Given F} {s : Nat} {v : Word} :
    g.Right hash t s v ↔ t.contains v = false ∧ ∃ w t', t.insert hash v = (.ok w, t') ∧
      t'.root hash = rootOf hash (g.applied hash t s t.leaves.length v) := by
  obtain ⟨cells', h', -⟩ := h.insert v
  refine and_congr_right fun _ => exists_congr fun w => exists_congr fun t' => and_congr_right fun hinsert => ?_
  rw [hinsert] at h'
  rw [h'.root, rootOf_eq_iff H]

/-- A leaf that is read as the last one of the tree does not leave its slot empty. -/
theorem applied_ne_empty (H : Ideal hash) (h : Holds hash t cells)
    (hcanonical : ∀ u ∈ values cells, canonical F u = true) {g : Given F} {s : Nat} {v : Word}
    {newIndex : UInt64} (hnew : newIndex.toNat = cells.length)
    (hslot : s = newIndex.toNat % 2 ^ nullifierTreeDepth ∨ 2 ^ nullifierTreeDepth ≤ cells.length) :
    leafScalar hash .empty ≠ Function.update (slot hash t) s
      (hash [Scalar.ofNat g.value, Scalar.ofNat v, Scalar.ofNat newIndex.toNat])
      (newIndex.toNat % 2 ^ nullifierTreeDepth) := by
  intro hempty
  by_cases heq : newIndex.toNat % 2 ^ nullifierTreeDepth = s
  · rw [heq, Function.update_self] at hempty
    obtain ⟨-, -, hlast⟩ := H.hash3_inj hempty
    have hzero := Scalar.ofNat_inj (by decide) newIndex.toNat_lt hlast
    rw [hnew] at hzero
    exact absurd hzero h.pos.ne
  · rw [Function.update_of_ne heq] at hempty
    have hfull := hslot.resolve_left (Ne.symm heq)
    exact h.slot_ne_empty H hcanonical (lt_of_lt_of_le (by decide) hfull)
      ((Nat.mod_lt _ (Nat.two_pow_pos _)).trans_le hfull) hempty.symm

end

section
variable {F : Type} [BnField F] {hash : List F → F} {t : IndexedMerkleTree} {cells : List (Cell Word)}

theorem covers_eq_given {low : IndexedLeaf} {v : Word} : covers low v = true ↔ (low.given F).Covers v := covers_eq

/-- What `verify` accepts for a leaf at an index. -/
theorem verify_forall_iff (H : Ideal hash) (h : Holds hash t cells) (low : IndexedLeaf) (index : UInt64)
    {P : Word → Prop} : (∀ siblings v, siblings.length = nullifierTreeDepth →
      (⟨low, index, siblings⟩ : NonMembershipWitness).verify hash (t.root hash) v = true → P v) ↔
      ((low.given F).scalar hash = slot hash t (index.toNat % 2 ^ nullifierTreeDepth) →
        ∀ v, (low.given F).Covers v → P v) := by
  constructor
  · intro hall hg v hcovers
    obtain ⟨siblings, hlen, hown⟩ := exists_ownPath hash (slot hash t) index
    apply hall siblings v hlen
    rw [NonMembershipWitness.verify, Bool.and_eq_true, h.root, verifyInclusion_iff H hlen, ofNat_hash]
    exact ⟨⟨hg, hown⟩, covers_eq.mpr hcovers⟩
  · intro hall siblings v hlen hverify
    rw [NonMembershipWitness.verify, Bool.and_eq_true, h.root, verifyInclusion_iff H hlen, ofNat_hash] at hverify
    exact hall hverify.1.1 v (covers_eq.mp hverify.2)

/-- What `verify_and_apply` accepts for a leaf at an index. -/
theorem verifyAndApply_forall_iff (H : Ideal hash) (h : Holds hash t cells)
    (hcanonical : ∀ u ∈ values cells, canonical F u = true) (low : IndexedLeaf) (index : UInt64)
    {P : Word → Word → Prop} :
    (∀ lowSiblings newIndex newSiblings v root, lowSiblings.length = nullifierTreeDepth →
      newSiblings.length = nullifierTreeDepth → newIndex.toNat = t.leaves.length →
      (⟨low, index, lowSiblings, newIndex, newSiblings⟩ : InsertionWitness).verifyAndApply hash (t.root hash) v =
        some root → P v root) ↔
      ((low.given F).scalar hash = slot hash t (index.toNat % 2 ^ nullifierTreeDepth) →
        index.toNat % 2 ^ nullifierTreeDepth ≠ t.leaves.length → t.leaves.length < 2 ^ nullifierTreeDepth →
        ∀ v, (low.given F).Covers v → P v (rootOf hash ((low.given F).applied hash t
          (index.toNat % 2 ^ nullifierTreeDepth) t.leaves.length v))) := by
  rw [h.root, h.length]
  constructor
  · intro hall hg hne hroom v hcovers
    have hnew : (UInt64.ofNat cells.length).toNat = cells.length :=
      Nat.mod_eq_of_lt (hroom.trans_le (Nat.pow_le_pow_right (by decide) (by decide)))
    have hslot : (UInt64.ofNat cells.length).toNat % 2 ^ nullifierTreeDepth = cells.length :=
      toNat_ofNat_index hroom
    obtain ⟨lowSiblings, hlow, hown⟩ := exists_ownPath hash (slot hash t) index
    obtain ⟨newSiblings, hlen, hown'⟩ := exists_ownPath hash (Function.update (slot hash t)
      (index.toNat % 2 ^ nullifierTreeDepth) (leafScalar hash ⟨low.value, v, .ofNat cells.length⟩))
      (.ofNat cells.length)
    apply hall lowSiblings _ newSiblings v _ hlow hlen hnew
    rw [verifyAndApply_eq_some H hlow hlen rfl hslot]
    refine ⟨hg, hown, covers_eq.mpr hcovers, ?_, hown', ?_⟩
    · rw [Function.update_of_ne hne.symm, h.slot_of_le (Nat.le_refl _)]
    · simp only [leafScalar, hnew]
      rfl
  · intro hall lowSiblings newIndex newSiblings v root hlow hlen hnew happly
    rw [verifyAndApply_eq_some H hlow hlen rfl rfl] at happly
    obtain ⟨hg, -, hcovers, hempty, -, rfl⟩ := happly
    have hslot := mt (@applied_ne_empty _ _ _ _ _ H h hcanonical (low.given F)
      (index.toNat % 2 ^ nullifierTreeDepth) v newIndex hnew) (not_not.mpr hempty)
    rw [not_or, not_le] at hslot
    have hmod : newIndex.toNat % 2 ^ nullifierTreeDepth = cells.length := by
      rw [hnew, Nat.mod_eq_of_lt hslot.2]
    have hright := hall hg (hmod ▸ hslot.1) hslot.2 v (covers_eq.mp hcovers)
    rw [Given.applied] at hright
    simp only [leafScalar, hmod]
    rw [← hnew] at hright ⊢
    exact hright

end

/-! ### In the circuits -/

section
variable {F : Type} [EpochField F] {hash : List F → F} {t : IndexedMerkleTree} {cells : List (Cell Word)}

theorem scalar_lowGiven (value nextValue nextIndex : F) :
    (lowGiven value nextValue nextIndex).scalar hash = leafHash hash value nextValue nextIndex := by
  rw [Given.scalar, lowGiven, ofNat_toNat, ofNat_toNat, leafHash]

theorem covers_lowGiven {value nextValue nextIndex v : F} :
    (lowGiven value nextValue nextIndex).Covers (Scalar.toNat v) ↔
      value < v ∧ (nextValue ≠ 0 → v < nextValue) := by
  have hzero : Scalar.toNat nextValue = 0 ↔ nextValue = 0 :=
    ⟨fun h => Scalar.toNat_inj (h.trans Scalar.toNat_zero.symm), fun h => h ▸ Scalar.toNat_zero⟩
  rw [Given.Covers, lowGiven, hzero, Scalar.lt_iff, Scalar.lt_iff, or_iff_not_imp_left]

theorem Holds.ofNat_root (h : Holds hash t cells) : (Scalar.ofNat (t.root hash) : F) =
    nodeAt (merkleHash hash) (slot hash t) Epochs.nullifierTreeDepth 0 := by
  rw [h.root, rootOf, ofNat_toNat]
  rfl

/-- What `assert_non_membership` accepts for a leaf at the position of some bits. -/
theorem assertNonMembership_forall_iff (H : Ideal hash) (h : Holds hash t cells) (value nextValue nextIndex : F)
    (bits : Fin Epochs.nullifierTreeDepth → Bool) {P : Word → Prop} :
    (∀ siblings v, assertNonMembership hash v (Scalar.ofNat (t.root hash))
      ⟨value, nextValue, nextIndex, bits, siblings⟩ = .ok () → P (Scalar.toNat v)) ↔
      (leafHash hash value nextValue nextIndex = slot hash t (ofBits (List.ofFn bits)) →
        ∀ v, canonical F v = true → (lowGiven value nextValue nextIndex).Covers v → P v) := by
  simp only [assertNonMembership_eq_ok, h.ofNat_root, LowLeaf.root, rootFromPath_eq_iff H]
  constructor
  · intro hall hg v hv hcovers
    obtain ⟨siblings, hown⟩ := exists_siblings (merkleHash hash) (slot hash t) bits
    rw [← BnField.toNat_ofNat_of_canonical hv] at hcovers ⊢
    obtain ⟨hlow, hnext⟩ := covers_lowGiven.mp hcovers
    exact hall siblings _ ⟨hlow, hnext, hg, hown⟩
  · intro hall siblings v hok
    obtain ⟨hlow, hnext, hg, -⟩ := hok
    exact hall hg _ (canonical_toNat v) (covers_lowGiven.mpr ⟨hlow, hnext⟩)

theorem runInsertions_one {pre post v : F} {count : UInt32} {ins : Insertion F} :
    runInsertions hash ⟨pre, post, count, [v]⟩ [ins] = .ok () ↔
      insertOne hash pre v count.toNat ins = .ok post := by
  simp only [runInsertions, bind_eq_ok, require_eq_ok, List.zip_cons_cons, List.zip_nil_right, insertFrom,
    List.length_singleton, true_and, exists_const, Except.ok.injEq]
  constructor
  · rintro ⟨root, ⟨root', hinsert, rfl⟩, rfl⟩
    exact hinsert
  · exact fun hinsert => ⟨post, ⟨post, hinsert, rfl⟩, rfl⟩

theorem applied_lowGiven (value nextValue nextIndex v : F) (s n : Nat) :
    (lowGiven value nextValue nextIndex).applied hash t s n (Scalar.toNat v) =
      Function.update (Function.update (slot hash t) s (leafHash hash value v (Scalar.ofNat n))) n
        (leafHash hash v nextValue nextIndex) := by
  rw [Given.applied, lowGiven, ofNat_toNat, ofNat_toNat, ofNat_toNat, leafHash, leafHash]

theorem ofBits_indexBits {n : Nat} (hn : n < 2 ^ nullifierTreeDepth) : ofBits (List.ofFn (indexBits n)) = n :=
  (Merkle.ofBits_ofFn nullifierTreeDepth n).trans (Nat.mod_eq_of_lt hn)

/-- An insertion of the circuit, on the slots of a tree. -/
theorem insertOne_iff (H : Ideal hash) (h : Holds hash t cells) {value nextValue nextIndex v post : F}
    {bits : Fin Epochs.nullifierTreeDepth → Bool} {siblings newSiblings : Fin Epochs.nullifierTreeDepth → F}
    {n s : Nat} (hs : ofBits (List.ofFn bits) = s) (hn : n < 2 ^ nullifierTreeDepth) :
    insertOne hash (Scalar.ofNat (t.root hash)) v n
        ⟨⟨value, nextValue, nextIndex, bits, siblings⟩, newSiblings⟩ = .ok post ↔
      (leafHash hash value nextValue nextIndex = slot hash t s ∧ arrayPath bits siblings =
          pathAt (merkleHash hash) (slot hash t) 0 Epochs.nullifierTreeDepth s) ∧
      (lowGiven value nextValue nextIndex).Covers (Scalar.toNat v) ∧
      (leafHash hash 0 0 0 = Function.update (slot hash t) s (leafHash hash value v (Scalar.ofNat n)) n ∧
        arrayPath (indexBits n) newSiblings = pathAt (merkleHash hash)
          (Function.update (slot hash t) s (leafHash hash value v (Scalar.ofNat n))) 0 Epochs.nullifierTreeDepth n) ∧
      nodeAt (merkleHash hash) ((lowGiven value nextValue nextIndex).applied hash t s n (Scalar.toNat v))
        Epochs.nullifierTreeDepth 0 = post := by
  have hlt : s < 2 ^ Epochs.nullifierTreeDepth := hs ▸ index_lt bits
  rw [insertOne_eq_ok, h.ofNat_root, LowLeaf.root, rootFromPath_eq_iff H, hs, covers_lowGiven, applied_lowGiven]
  constructor
  · rintro ⟨-, hlow, hv, hnext, hempty, hpost⟩
    rw [LowLeaf.root, rootFromPath_own hlt hlow.2, rootFromPath_eq_iff H, ofBits_indexBits hn] at hempty
    rw [rootFromPath_own hn hempty.2] at hpost
    exact ⟨hlow, ⟨hv, hnext⟩, hempty, hpost⟩
  · rintro ⟨hlow, ⟨hv, hnext⟩, hempty, hpost⟩
    refine ⟨hn, hlow, hv, hnext, ?_, ?_⟩
    · rw [LowLeaf.root, rootFromPath_own hlt hlow.2, rootFromPath_eq_iff H, ofBits_indexBits hn]
      exact hempty
    · rw [rootFromPath_own hn hempty.2]
      exact hpost

/-- What `run_insertions` accepts of one insertion for a leaf at the position of some bits. -/
theorem runInsertions_forall_iff (H : Ideal hash) (h : Holds hash t cells) (value nextValue nextIndex : F)
    (bits : Fin Epochs.nullifierTreeDepth → Bool) {P : Word → Word → Prop} :
    (∀ siblings newSiblings v post (count : UInt32), count.toNat = t.leaves.length →
      runInsertions hash ⟨Scalar.ofNat (t.root hash), post, count, [v]⟩
        [⟨⟨value, nextValue, nextIndex, bits, siblings⟩, newSiblings⟩] = .ok () →
      P (Scalar.toNat v) (Scalar.toNat post)) ↔
      (leafHash hash value nextValue nextIndex = slot hash t (ofBits (List.ofFn bits)) →
        ofBits (List.ofFn bits) ≠ t.leaves.length → t.leaves.length < 2 ^ nullifierTreeDepth →
        ∀ v, canonical F v = true → (lowGiven value nextValue nextIndex).Covers v →
          P v (rootOf hash ((lowGiven value nextValue nextIndex).applied hash t
            (ofBits (List.ofFn bits)) t.leaves.length v))) := by
  simp only [runInsertions_one, h.length]
  generalize hs : ofBits (List.ofFn bits) = s
  constructor
  · intro hall hg hne hroom v hv hcovers
    obtain ⟨siblings, hown⟩ := exists_siblings (merkleHash hash) (slot hash t) bits
    obtain ⟨newSiblings, hown'⟩ := exists_siblings (merkleHash hash) (Function.update (slot hash t) s
      (leafHash hash value (Scalar.ofNat v) (Scalar.ofNat cells.length))) (indexBits cells.length)
    rw [hs] at hown
    rw [ofBits_indexBits hroom] at hown'
    have hcount : (UInt32.ofNat cells.length).toNat = cells.length := Nat.mod_eq_of_lt hroom
    rw [← BnField.toNat_ofNat_of_canonical hv] at hcovers ⊢
    refine hall siblings newSiblings (Scalar.ofNat v) _ _ hcount ?_
    rw [hcount, insertOne_iff H h hs hroom]
    refine ⟨⟨hg, hown⟩, hcovers, ⟨?_, hown'⟩, rfl⟩
    rw [Function.update_of_ne hne.symm, h.slot_of_le (Nat.le_refl _)]
    rfl
  · intro hall siblings newSiblings v post count hcount hok
    have hroom : cells.length < 2 ^ nullifierTreeDepth := hcount ▸ count.toNat_lt
    rw [hcount, insertOne_iff H h hs hroom] at hok
    obtain ⟨⟨hg, -⟩, hcovers, ⟨hempty, -⟩, rfl⟩ := hok
    refine hall hg ?_ hroom _ (canonical_toNat v) hcovers
    -- the circuit would read an index of zero
    rintro rfl
    rw [Function.update_self] at hempty
    obtain ⟨-, -, hlast⟩ := H.hash3_inj hempty
    have hzero := Scalar.ofNat_inj (by decide)
      (hroom.trans_le (Nat.pow_le_pow_right (by decide) (by decide))) hlast
    exact absurd hzero h.pos.ne

end

/-! ## Which accepted witnesses are right -/

section
variable {F : Type} [EpochField F] [OrderedWords F] {hash : List F → F} {t : IndexedMerkleTree}
  {cells : List (Cell Word)}

section
variable (H : Ideal hash) (h : Holds hash t cells) (hcanonical : ∀ u ∈ values cells, canonical F u = true)
include H h hcanonical

theorem verify_sound_iff (hword : ∀ u ∈ values cells, u < 2 ^ 256)
    (low : IndexedLeaf) {index : UInt64} {s : Nat} (hs : index.toNat % 2 ^ nullifierTreeDepth = s) :
    (∀ siblings v, siblings.length = nullifierTreeDepth →
      (⟨low, index, siblings⟩ : NonMembershipWitness).verify hash (t.root hash) v = true →
      v < 2 ^ 256 → t.contains v = false) ↔
    (leafScalar hash low = slot hash t s → canonical F low.value = true →
      (s < t.leaves.length → canonical F low.nextValue = true ∨ (Scalar.ofNat low.nextValue : F) = 0) ∧
      (t.leaves.length ≤ s → t.leaves.length = 1)) := by
  subst hs
  refine (verify_forall_iff (P := fun v => v < 2 ^ 256 → t.contains v = false) H h low index).trans ?_
  rw [h.length]
  refine forall_congr' fun hg => Iff.trans ?_ (absent_iff H h hcanonical hword hg)
  simp only [h.contains_eq_false]
  exact ⟨fun hall v hv hcovers => hall v hcovers hv, fun hall v hcovers hv => hall v hv hcovers⟩

theorem verifyAndApply_sound_iff (hword : ∀ u ∈ values cells, u < 2 ^ 256)
    (low : IndexedLeaf) {index : UInt64} {s : Nat} (hs : index.toNat % 2 ^ nullifierTreeDepth = s) :
    (∀ lowSiblings newIndex newSiblings v root, lowSiblings.length = nullifierTreeDepth →
      newSiblings.length = nullifierTreeDepth → newIndex.toNat = t.leaves.length →
      (⟨low, index, lowSiblings, newIndex, newSiblings⟩ : InsertionWitness).verifyAndApply hash (t.root hash) v =
        some root → v < 2 ^ 256 → t.contains v = false ∧
      ∃ w t', t.insert hash v = (.ok w, t') ∧ t'.root hash = root) ↔
    (leafScalar hash low = slot hash t s → s ≠ t.leaves.length → t.leaves.length < 2 ^ nullifierTreeDepth →
      (∀ v < 2 ^ 256, covers low v = false) ∨ s < t.leaves.length ∧ ((Scalar.ofNat low.nextValue : F) = 0 ∨
        canonical F low.value = true ∧ canonical F low.nextValue = true)) := by
  subst hs
  refine (verifyAndApply_forall_iff (P := fun v root => v < 2 ^ 256 → t.contains v = false ∧
    ∃ w t', t.insert hash v = (.ok w, t') ∧ t'.root hash = root) H h hcanonical low index).trans ?_
  simp only [← Given.right_iff H h]
  refine forall_congr' fun hg => forall_congr' fun hne => forall_congr' fun hroom => ?_
  rw [h.length] at hne hroom ⊢
  have hcovers : (∀ v < 2 ^ 256, covers low v = false) ↔ ∀ v < 2 ^ 256, ¬ (low.given F).Covers v :=
    forall₂_congr fun v _ => by rw [← Bool.not_eq_true, covers_eq_given (F := F)]
  rw [hcovers]
  refine Iff.trans ?_ (applied_iff H h hcanonical hword hg hroom (Nat.mod_lt _ (Nat.two_pow_pos _)) hne)
  exact ⟨fun hall v hv hcovers => hall v hcovers hv, fun hall v hcovers hv => hall v hv hcovers⟩

theorem assertNonMembership_sound_iff (value nextValue nextIndex : F)
    {bits : Fin Epochs.nullifierTreeDepth → Bool} {s : Nat} (hs : ofBits (List.ofFn bits) = s) :
    (∀ siblings v, assertNonMembership hash v (Scalar.ofNat (t.root hash))
      ⟨value, nextValue, nextIndex, bits, siblings⟩ = .ok () → t.contains (Scalar.toNat v) = false) ↔
    (leafHash hash value nextValue nextIndex = slot hash t s → s < t.leaves.length ∨ t.leaves.length = 1) := by
  subst hs
  refine (assertNonMembership_forall_iff (P := fun v => t.contains v = false) H h value nextValue nextIndex
    bits).trans ?_
  rw [h.length, ← scalar_lowGiven]
  refine forall_congr' fun hg => ?_
  simp only [h.contains_eq_false]
  rw [absent_iff H h hcanonical hcanonical hg]
  constructor
  · intro hcond
    obtain ⟨-, hempty⟩ := hcond (canonical_toNat value)
    exact (Nat.lt_or_ge _ _).imp_right hempty
  · intro hcond _
    exact ⟨fun _ => .inl (canonical_toNat nextValue), fun hle => hcond.resolve_left (not_lt.mpr hle)⟩

theorem runInsertions_sound_iff (value nextValue nextIndex : F)
    {bits : Fin Epochs.nullifierTreeDepth → Bool} {s : Nat} (hs : ofBits (List.ofFn bits) = s) :
    (∀ siblings newSiblings v post (count : UInt32), count.toNat = t.leaves.length →
      runInsertions hash ⟨Scalar.ofNat (t.root hash), post, count, [v]⟩
        [⟨⟨value, nextValue, nextIndex, bits, siblings⟩, newSiblings⟩] = .ok () →
      t.contains (Scalar.toNat v) = false ∧
      ∃ w t', t.insert hash (Scalar.toNat v) = (.ok w, t') ∧ t'.root hash = Scalar.toNat post) ↔
    (leafHash hash value nextValue nextIndex = slot hash t s → s ≤ t.leaves.length) := by
  refine (runInsertions_forall_iff (P := fun v post => t.contains v = false ∧
    ∃ w t', t.insert hash v = (.ok w, t') ∧ t'.root hash = post) H h value nextValue nextIndex bits).trans ?_
  simp only [← Given.right_iff H h]
  rw [h.length, ← scalar_lowGiven, hs]
  refine forall_congr' fun hg => ?_
  have hlt : s < 2 ^ nullifierTreeDepth := hs ▸ index_lt bits
  constructor
  · intro hall
    by_contra hbeyond
    rw [not_le] at hbeyond
    have hright := hall hbeyond.ne' (hbeyond.trans hlt)
    rcases (applied_iff H h hcanonical hcanonical hg (hbeyond.trans hlt) hlt hbeyond.ne').mp hright with
      hnone | hwritten
    · -- an empty slot covers one
      obtain ⟨hvalue, hnext, -⟩ := Given.eq_slot H h hg
      rw [cellAt_of_le hbeyond.le] at hvalue hnext
      have hv : Scalar.toNat value = 0 := eq_of_canonical (canonical_toNat value) canonical_zero hvalue
      have hn : Scalar.toNat nextValue = 0 :=
        eq_of_canonical (canonical_toNat nextValue) canonical_zero hnext
      exact hnone 1 (BnField.canonical_of_lt (by decide)) ⟨hv.trans_lt Nat.one_pos, .inl hn⟩
    · exact absurd hwritten.1 hbeyond.not_gt
  · intro hle hne hroom
    exact (applied_iff H h hcanonical hcanonical hg hroom hlt hne).mpr (.inr ⟨lt_of_le_of_ne hle hne,
      .inr ⟨canonical_toNat value, canonical_toNat nextValue⟩⟩)

end

end

/-- For every low leaf: all that is accepted with it at an index is right about the tree if and only if the leaf
is not the stored one, or the slot is written and the words of the leaf are reduced. -/
theorem low_leaves_sound_iff {F : Type} [EpochField F] [OrderedWords F] {hash : List F → F} (H : Ideal hash)
    {vs : List Word} (hvs : ∀ v ∈ vs, canonical F v = true ∧ v < 2 ^ 256) {t : IndexedMerkleTree}
    (ht : inserts hash vs = t) :
    (∀ (low : IndexedLeaf) (index : UInt64) (s : Nat), index.toNat % 2 ^ nullifierTreeDepth = s →
      ((∀ siblings v, siblings.length = nullifierTreeDepth →
          (⟨low, index, siblings⟩ : NonMembershipWitness).verify hash (t.root hash) v = true →
          v < 2 ^ 256 → t.contains v = false) ↔
        (leafScalar hash low = slot hash t s → canonical F low.value = true → (s < t.leaves.length →
            canonical F low.nextValue = true ∨ (Scalar.ofNat low.nextValue : F) = 0) ∧
          (t.leaves.length ≤ s → t.leaves.length = 1)))) ∧
    (∀ (low : IndexedLeaf) (index : UInt64) (s : Nat), index.toNat % 2 ^ nullifierTreeDepth = s →
      ((∀ lowSiblings newIndex newSiblings v root, lowSiblings.length = nullifierTreeDepth →
          newSiblings.length = nullifierTreeDepth → newIndex.toNat = t.leaves.length →
          (⟨low, index, lowSiblings, newIndex, newSiblings⟩ : InsertionWitness).verifyAndApply hash
            (t.root hash) v = some root → v < 2 ^ 256 → t.contains v = false ∧
          ∃ w t', t.insert hash v = (.ok w, t') ∧ t'.root hash = root) ↔
        (leafScalar hash low = slot hash t s → s ≠ t.leaves.length → t.leaves.length < 2 ^ nullifierTreeDepth →
          (∀ v < 2 ^ 256, covers low v = false) ∨ s < t.leaves.length ∧ ((Scalar.ofNat low.nextValue : F) = 0 ∨
            canonical F low.value = true ∧ canonical F low.nextValue = true)))) ∧
    (∀ (value nextValue nextIndex : F) (bits : Fin Epochs.nullifierTreeDepth → Bool) (s : Nat),
      ofBits (List.ofFn bits) = s →
      ((∀ siblings v, assertNonMembership hash v (Scalar.ofNat (t.root hash))
          ⟨value, nextValue, nextIndex, bits, siblings⟩ = .ok () → t.contains (Scalar.toNat v) = false) ↔
        (leafHash hash value nextValue nextIndex = slot hash t s →
          s < t.leaves.length ∨ t.leaves.length = 1))) ∧
    (∀ (value nextValue nextIndex : F) (bits : Fin Epochs.nullifierTreeDepth → Bool) (s : Nat),
      ofBits (List.ofFn bits) = s →
      ((∀ siblings newSiblings v post (count : UInt32), count.toNat = t.leaves.length →
          runInsertions hash ⟨Scalar.ofNat (t.root hash), post, count, [v]⟩
            [⟨⟨value, nextValue, nextIndex, bits, siblings⟩, newSiblings⟩] = .ok () →
          t.contains (Scalar.toNat v) = false ∧
          ∃ w t', t.insert hash (Scalar.toNat v) = (.ok w, t') ∧ t'.root hash = Scalar.toNat post) ↔
        (leafHash hash value nextValue nextIndex = slot hash t s → s ≤ t.leaves.length))) := by
  subst ht
  obtain ⟨cells, h, hmem⟩ := exists_holds hash vs
  have hcanonical : ∀ u ∈ values cells, canonical F u = true := by
    intro u hu
    rcases (hmem u).mp hu with rfl | hu
    · exact canonical_zero
    · exact (hvs u hu).1
  have hword : ∀ u ∈ values cells, u < 2 ^ 256 := by
    intro u hu
    rcases (hmem u).mp hu with rfl | hu
    · exact Nat.two_pow_pos 256
    · exact (hvs u hu).2
  refine ⟨?_, ?_, ?_, ?_⟩
  · exact fun low index s hs => verify_sound_iff H h hcanonical hword low hs
  · exact fun low index s hs => verifyAndApply_sound_iff H h hcanonical hword low hs
  · exact fun value nextValue nextIndex bits s hs =>
      assertNonMembership_sound_iff H h hcanonical value nextValue nextIndex hs
  · exact fun value nextValue nextIndex bits s hs =>
      runInsertions_sound_iff H h hcanonical value nextValue nextIndex hs

/-! ## A tree of one value -/

namespace LowLeafSample

def tree : IndexedMerkleTree := inserts idealHash [10]

theorem length_tree : tree.leaves.length = 2 := length_inserts (by decide) (List.nodup_singleton 10)

theorem slot_tree : leafScalar idealHash .empty = slot idealHash tree 5 := by
  obtain ⟨cells, h, -⟩ := exists_holds idealHash [10]
  exact (h.slot_of_le (by rw [← h.length]; exact length_tree.trans_le (by decide))).symm

end LowLeafSample

open LowLeafSample in
/-- The genesis leaf is a good low leaf, an empty slot is not. -/
theorem low_leaves_sound_sample : (∀ siblings v, siblings.length = nullifierTreeDepth →
      (⟨⟨0, 10, 1⟩, 0, siblings⟩ : NonMembershipWitness).verify idealHash (tree.root idealHash) v = true →
      v < 2 ^ 256 → tree.contains v = false) ∧ ¬ ∀ siblings v, siblings.length = nullifierTreeDepth →
      (⟨.empty, 5, siblings⟩ : NonMembershipWitness).verify idealHash (tree.root idealHash) v = true →
      v < 2 ^ 256 → tree.contains v = false := by
  obtain ⟨hsound, -⟩ := @low_leaves_sound_iff _ _ _ _ idealHash_ideal [10]
    (fun v hv => ⟨rfl, by rw [List.mem_singleton.mp hv]; norm_num⟩) tree rfl
  constructor
  · apply (hsound ⟨0, 10, 1⟩ 0 0 rfl).mpr
    intro _ _
    exact ⟨fun _ => .inl rfl, fun hle => absurd (length_tree.symm.trans_le hle) (by decide)⟩
  · intro hall
    obtain ⟨-, hempty⟩ := (hsound .empty 5 5 rfl).mp hall slot_tree rfl
    exact absurd (length_tree.symm.trans (hempty (length_tree.trans_le (by decide)))) (by decide)

open LowLeafSample in
/-- A never-written slot shows that a stored value is absent. -/
theorem empty_slot_covers_stored : tree.contains 10 = true ∧ ∃ siblings, siblings.length = nullifierTreeDepth ∧
      (⟨.empty, 5, siblings⟩ : NonMembershipWitness).verify idealHash (tree.root idealHash) 10 = true := by
  obtain ⟨cells, h, hmem⟩ := exists_holds idealHash [10]
  obtain ⟨siblings, hlen, hown⟩ := exists_ownPath idealHash (slot idealHash tree) 5
  refine ⟨h.contains.mpr ((hmem 10).mpr (.inr (List.mem_singleton_self 10))), siblings, hlen, ?_⟩
  have hroot : tree.root idealHash = rootOf idealHash (slot idealHash tree) := h.root
  rw [NonMembershipWitness.verify, Bool.and_eq_true, hroot, verifyInclusion_iff idealHash_ideal hlen, ofNat_hash]
  exact ⟨⟨slot_tree, hown⟩, rfl⟩

end Pocs.Epochs.Offchain
