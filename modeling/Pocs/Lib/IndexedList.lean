import Mathlib.Tactic

/-! # Sorted linked lists stored in an array

An indexed list keeps its elements in insertion order and links every cell to the cell holding the
next larger value. Cell `0` is a sentinel holding the least value `z`; the last cell in value order
has `nextIndex = 0` and `nextValue = z`.

`Linked` is the representation invariant. A value falls in the gap after at most one cell
(`Linked.low_unique`), such a value is not stored (`Linked.not_mem_of_low`), every other value has a
gap (`Linked.exists_low`), and splitting the gap keeps the invariant (`Linked.splice`). Followed from
the sentinel, the links visit every cell once in increasing order (`Linked.threaded`). -/

namespace Pocs.IndexedList

structure Cell (α : Type _) where
  value : α
  nextIndex : Nat
  nextValue : α
  deriving DecidableEq, Repr

variable {α : Type _}

def values (cells : List (Cell α)) : List α := cells.map (·.value)

theorem mem_values {cells : List (Cell α)} {c : Cell α} (h : c ∈ cells) : c.value ∈ values cells :=
  List.mem_map.mpr ⟨c, h, rfl⟩

/-- Insert `v` after cell `i`: the new cell inherits the link of cell `i`, which is redirected. -/
def splice (cells : List (Cell α)) (i : Nat) (low : Cell α) (v : α) : List (Cell α) :=
  cells.set i ⟨low.value, cells.length, v⟩ ++ [⟨v, low.nextIndex, low.nextValue⟩]

@[simp] theorem length_splice (cells : List (Cell α)) (i : Nat) (low : Cell α) (v : α) :
    (splice cells i low v).length = cells.length + 1 := by
  simp [splice]

theorem values_set {cells : List (Cell α)} {i : Nat} {low new : Cell α}
    (hlow : cells[i]? = some low) (hv : new.value = low.value) : values (cells.set i new) = values cells := by
  have hi : (values cells)[i]? = some new.value := by simp [values, hlow, hv]
  simp only [values, List.map_set] at hi ⊢
  obtain ⟨hlt, he⟩ := List.getElem?_eq_some_iff.mp hi
  rw [← he, List.set_getElem_self]

theorem values_splice {cells : List (Cell α)} {i : Nat} {low : Cell α} (v : α)
    (hlow : cells[i]? = some low) : values (splice cells i low v) = values cells ++ [v] := by
  have h : values (cells.set i ⟨low.value, cells.length, v⟩) = values cells := values_set hlow rfl
  rw [← h]
  simp [splice, values]

theorem splice_getElem?_value {cells : List (Cell α)} {i j : Nat} {low d : Cell α} {v : α}
    (hlow : cells[i]? = some low) (hd : cells[j]? = some d) :
    ∃ e, (splice cells i low v)[j]? = some e ∧ e.value = d.value := by
  have h : (values (splice cells i low v))[j]? = some d.value := by
    rw [values_splice v hlow, List.getElem?_append_left]
    · simp [values, hd]
    · simpa [values] using (List.getElem?_eq_some_iff.mp hd).1
  simpa [values] using h

variable [LinearOrder α]

/-- `v` falls in the gap after the cell `c`. -/
def Cell.Low (z : α) (c : Cell α) (v : α) : Prop :=
  c.value < v ∧ (v < c.nextValue ∨ c.nextValue = z)

instance (z : α) (c : Cell α) (v : α) : Decidable (c.Low z v) :=
  inferInstanceAs (Decidable (_ ∧ _))

/-- The link of a cell: it is the last one, or it names the cell of the next larger value. -/
def Cell.Next (z : α) (cells : List (Cell α)) (c : Cell α) : Prop :=
  (c.nextIndex = 0 ∧ c.nextValue = z ∧ ∀ v ∈ values cells, v ≤ c.value) ∨
  (0 < c.nextIndex ∧ (∃ d, cells[c.nextIndex]? = some d ∧ d.value = c.nextValue) ∧
    c.value < c.nextValue ∧ ∀ v ∈ values cells, v ≤ c.value ∨ c.nextValue ≤ v)

/-- The representation invariant of an indexed list with sentinel value `z`. -/
structure Linked (z : α) (cells : List (Cell α)) : Prop where
  least : ∀ a : α, z ≤ a
  sentinel : ∃ c, cells[0]? = some c ∧ c.value = z
  nodup : (values cells).Nodup
  next : ∀ c ∈ cells, c.Next z cells

namespace Linked
variable {z : α} {cells : List (Cell α)}

theorem singleton (h : ∀ a : α, z ≤ a) : Linked z [⟨z, 0, z⟩] where
  least := h
  sentinel := ⟨_, rfl, rfl⟩
  nodup := by simp [values]
  next c hc := by
    obtain rfl := List.mem_singleton.mp hc
    exact .inl ⟨rfl, rfl, by simp [values]⟩

section
variable (H : Linked z cells)
include H

/-- A cell with `nextIndex = 0` is a cell with the sentinel as next value. -/
theorem nextIndex_eq_zero {c : Cell α} (hc : c ∈ cells) :
    c.nextIndex = 0 ↔ c.nextValue = z := by
  rcases H.next c hc with ⟨h0, hz, -⟩ | ⟨hpos, -, hlt, -⟩
  · simp [h0, hz]
  · exact ⟨fun h => by omega, fun h => absurd (h ▸ hlt) (not_lt.mpr (H.least _))⟩

theorem nextIndex_lt {c : Cell α} (hc : c ∈ cells) : c.nextIndex < cells.length := by
  rcases H.next c hc with ⟨h0, -⟩ | ⟨-, ⟨d, hd, -⟩, -⟩
  · obtain ⟨s, hs, -⟩ := H.sentinel
    rw [h0]
    exact (List.getElem?_eq_some_iff.mp hs).1
  · exact (List.getElem?_eq_some_iff.mp hd).1

/-- The gap after a cell holds no stored value. -/
theorem gap {c : Cell α} {v w : α} (hc : c ∈ cells) (hlow : c.Low z v)
    (hw : w ∈ values cells) : w ≤ c.value ∨ v < w := by
  rcases H.next c hc with ⟨-, -, hmax⟩ | ⟨-, -, hlt, hgap⟩
  · exact .inl (hmax w hw)
  · rcases hgap w hw with h | h
    · exact .inl h
    rcases hlow.2 with hv | hz
    · exact .inr (hv.trans_le h)
    · exact absurd (hz ▸ hlt) (not_lt.mpr (H.least _))

theorem not_mem_of_low {c : Cell α} {v : α} (hc : c ∈ cells)
    (hlow : c.Low z v) : v ∉ values cells := fun hv =>
  (H.gap hc hlow hv).elim (fun h => absurd hlow.1 (not_lt.mpr h)) (lt_irrefl v)

theorem index_unique {i j : Nat} {c d : Cell α} (hc : cells[i]? = some c)
    (hd : cells[j]? = some d) (h : c.value = d.value) : i = j := by
  obtain ⟨hi, rfl⟩ := List.getElem?_eq_some_iff.mp hc
  obtain ⟨hj, rfl⟩ := List.getElem?_eq_some_iff.mp hd
  have hi' : i < (values cells).length := by simpa [values] using hi
  have hj' : j < (values cells).length := by simpa [values] using hj
  have hval : (values cells)[i] = (values cells)[j] := by simpa [values] using h
  exact H.nodup.getElem_inj_iff.mp hval

/-- A value falls in the gap of at most one cell. -/
theorem low_unique {i j : Nat} {c d : Cell α} {v : α}
    (hc : cells[i]? = some c) (hd : cells[j]? = some d) (hlc : c.Low z v) (hld : d.Low z v) : i = j := by
  refine H.index_unique hc hd (le_antisymm ?_ ?_)
  · rcases H.gap (List.mem_of_getElem? hd) hld (mem_values (List.mem_of_getElem? hc)) with h | h
    · exact h
    · exact absurd (h.trans hlc.1) (lt_irrefl v)
  · rcases H.gap (List.mem_of_getElem? hc) hlc (mem_values (List.mem_of_getElem? hd)) with h | h
    · exact h
    · exact absurd (h.trans hld.1) (lt_irrefl v)

/-- Every value above the sentinel that is not stored falls in the gap of some cell: the cell of
the largest stored value below it. -/
theorem exists_low {v : α} (hz : z < v) (hv : v ∉ values cells) :
    ∃ c ∈ cells, c.Low z v := by
  obtain ⟨s, hs, hsv⟩ := H.sentinel
  let below := (values cells).filter (· < v)
  have hmem : z ∈ below :=
    List.mem_filter.mpr ⟨hsv ▸ mem_values (List.mem_of_getElem? hs), by simpa using hz⟩
  obtain ⟨m, hm, hmax⟩ := below.toFinset.exists_max_image id ⟨z, List.mem_toFinset.mpr hmem⟩
  obtain ⟨hmv, hlt⟩ := List.mem_filter.mp (List.mem_toFinset.mp hm)
  obtain ⟨c, hc, rfl⟩ := List.mem_map.mp hmv
  refine ⟨c, hc, by simpa using hlt, ?_⟩
  rcases H.next c hc with ⟨-, hz, -⟩ | ⟨-, ⟨d, hd, hdv⟩, hcd, -⟩
  · exact .inr hz
  · refine .inl (lt_of_not_ge fun hge => ?_)
    have hdm : c.nextValue ∈ values cells := hdv ▸ mem_values (List.mem_of_getElem? hd)
    have hne : c.nextValue ≠ v := fun he => hv (he ▸ hdm)
    have hin : c.nextValue ∈ below :=
      List.mem_filter.mpr ⟨hdm, by simpa using lt_of_le_of_ne hge hne⟩
    exact absurd hcd (not_lt.mpr (hmax _ (List.mem_toFinset.mpr hin)))

/-- A cell other than the split one keeps its link. -/
private theorem next_splice {i j : Nat} {low c : Cell α} {v : α}
    (hlow : cells[i]? = some low) (hv : low.Low z v) (hc : cells[j]? = some c) (hij : j ≠ i) :
    c.Next z (splice cells i low v) := by
  have hnot : ¬ c.Low z v := fun h => hij (H.low_unique hc hlow h hv)
  rw [Cell.Next, values_splice v hlow]
  rcases H.next c (List.mem_of_getElem? hc) with ⟨h0, hz, hmax⟩ | ⟨hpos, ⟨d, hd, hdv⟩, hlt, hgap⟩
  · refine .inl ⟨h0, hz, fun w hw => ?_⟩
    rcases List.mem_append.mp hw with hw | hw
    · exact hmax w hw
    · obtain rfl := List.mem_singleton.mp hw
      exact le_of_not_gt fun h => hnot ⟨h, .inr hz⟩
  · obtain ⟨e, he, hev⟩ := splice_getElem?_value (v := v) hlow hd
    refine .inr ⟨hpos, ⟨e, he, hev.trans hdv⟩, hlt, fun w hw => ?_⟩
    rcases List.mem_append.mp hw with hw | hw
    · exact hgap w hw
    · obtain rfl := List.mem_singleton.mp hw
      rcases le_or_gt w c.value with h | h
      · exact .inl h
      · exact .inr (le_of_not_gt fun h' => hnot ⟨h, .inl h'⟩)

/-- Splitting the gap that `v` falls in keeps the invariant. -/
theorem splice {i : Nat} {low : Cell α} {v : α}
    (hlow : cells[i]? = some low) (hv : low.Low z v) : Linked z (splice cells i low v) where
  least := H.least
  sentinel := by
    obtain ⟨s, hs, hsz⟩ := H.sentinel
    obtain ⟨e, he, hev⟩ := splice_getElem?_value (v := v) hlow hs
    exact ⟨e, he, hev.trans hsz⟩
  nodup := by
    rw [values_splice v hlow, List.nodup_append]
    refine ⟨H.nodup, by simp, ?_⟩
    rintro a ha b hb rfl
    obtain rfl := List.mem_singleton.mp hb
    exact H.not_mem_of_low (List.mem_of_getElem? hlow) hv ha
  next c hc := by
    have hmem := List.mem_of_getElem? hlow
    obtain ⟨hi, -⟩ := List.getElem?_eq_some_iff.mp hlow
    rcases List.mem_append.mp hc with hc | hc
    · -- a cell of the old array: the split cell, or one that keeps its link
      obtain ⟨j, hj⟩ := List.mem_iff_getElem?.mp hc
      rcases eq_or_ne j i with rfl | hij
      · rw [List.getElem?_set_self hi, Option.some.injEq] at hj
        subst hj
        refine .inr ⟨by simp only; omega, ⟨⟨v, low.nextIndex, low.nextValue⟩, by simp [IndexedList.splice], rfl⟩, hv.1, fun w hw => ?_⟩
        rw [values_splice v hlow] at hw
        rcases List.mem_append.mp hw with hw | hw
        · exact (H.gap hmem hv hw).imp_right le_of_lt
        · exact .inr (List.mem_singleton.mp hw).ge
      · rw [List.getElem?_set_ne (Ne.symm hij)] at hj
        exact H.next_splice hlow hv hj hij
    · -- the new cell inherits the link of the split one
      obtain rfl := List.mem_singleton.mp hc
      rw [Cell.Next, values_splice v hlow]
      rcases H.next low hmem with ⟨h0, hz, hmax⟩ | ⟨hpos, ⟨d, hd, hdv⟩, hlt, hgap⟩
      · refine .inl ⟨h0, hz, fun w hw => ?_⟩
        rcases List.mem_append.mp hw with hw | hw
        · exact (hmax w hw).trans hv.1.le
        · exact (List.mem_singleton.mp hw).le
      · obtain ⟨e, he, hev⟩ := splice_getElem?_value (v := v) hlow hd
        have hvn : v < low.nextValue := hv.2.resolve_right fun hz =>
          absurd (hz ▸ hlt) (not_lt.mpr (H.least _))
        refine .inr ⟨hpos, ⟨e, he, hev.trans hdv⟩, hvn, fun w hw => ?_⟩
        rcases List.mem_append.mp hw with hw | hw
        · exact (hgap w hw).imp_left fun h => h.trans hv.1.le
        · exact .inl (List.mem_singleton.mp hw).le

end

end Linked

/-- The values that are met when the links are followed from a cell on. -/
inductive Visits (z : α) (cells : List (Cell α)) : Cell α → List α → Prop where
  | last {c : Cell α} (stop : c.nextValue = z) : Visits z cells c []
  | next {c d : Cell α} {vs : List α} (go : c.nextValue ≠ z) (link : cells[c.nextIndex]? = some d)
    (value : d.value = c.nextValue) (rest : Visits z cells d vs) : Visits z cells c (c.nextValue :: vs)

/-- From a cell on the greater values are met, in order. -/
theorem Linked.exists_visits {z : α} {cells : List (Cell α)} (H : Linked z cells) {c : Cell α}
    (hc : c ∈ cells) :
    ∃ vs, Visits z cells c vs ∧ vs.Pairwise (· < ·) ∧ ∀ v, v ∈ vs ↔ v ∈ values cells ∧ c.value < v := by
  -- by induction on the number of greater values
  generalize hn : ((values cells).filter (c.value < ·)).length = n
  induction n using Nat.strong_induction_on generalizing c with
  | _ n ih =>
    rcases H.next c hc with ⟨-, hz, hmax⟩ | ⟨-, ⟨d, hd, hdv⟩, hlt, hgap⟩
    · refine ⟨[], .last hz, List.Pairwise.nil, fun v => ?_⟩
      constructor
      · exact fun hv => absurd hv List.not_mem_nil
      · exact fun hv => absurd hv.2 (not_lt.mpr (hmax v hv.1))
    · have hdm := List.mem_of_getElem? hd
      have hmem : d.value ∈ values cells := mem_values hdm
      have hfewer : ((values cells).filter (d.value < ·)).length < n := by
        rw [← hn]
        have hsub : (values cells).filter (d.value < ·) =
            ((values cells).filter (c.value < ·)).filter (d.value < ·) := by
          rw [List.filter_filter]
          apply List.filter_congr
          intro v _
          rw [Bool.eq_iff_iff, Bool.and_eq_true, decide_eq_true_eq, decide_eq_true_eq, iff_self_and]
          exact fun h => (hdv ▸ hlt).trans h
        rw [hsub]
        apply List.length_filter_lt_length_iff_exists.mpr
        exact ⟨d.value, List.mem_filter.mpr ⟨hmem, decide_eq_true (hdv ▸ hlt)⟩, by simp⟩
      obtain ⟨vs, hvisits, hsorted, hvs⟩ := ih _ hfewer hdm rfl
      have hne : c.nextValue ≠ z := fun h => absurd (h ▸ hlt) (not_lt.mpr (H.least _))
      refine ⟨c.nextValue :: vs, .next hne hd hdv hvisits, ?_, fun v => ?_⟩
      · rw [List.pairwise_cons]
        exact ⟨fun v hv => hdv ▸ ((hvs v).mp hv).2, hsorted⟩
      · rw [List.mem_cons, hvs]
        constructor
        · rintro (rfl | ⟨hv, hdlt⟩)
          · exact ⟨hdv ▸ hmem, hlt⟩
          · exact ⟨hv, (hdv ▸ hlt).trans hdlt⟩
        · rintro ⟨hv, hcv⟩
          rcases hgap v hv with hle | hge
          · exact absurd hcv (not_lt.mpr hle)
          · rcases hge.eq_or_lt with heq | hlt'
            · exact .inl heq.symm
            · exact .inr ⟨hv, hdv ▸ hlt'⟩

/-! ## The walk along the links -/

/-- The position reached from the sentinel by following `k` links. -/
def walk (cells : List (Cell α)) : Nat → Nat
  | 0 => 0
  | k + 1 =>
    match cells[walk cells k]? with
    | some c => c.nextIndex
    | none => 0

/-- The links thread all cells, in increasing order. -/
structure Threaded (z : α) (cells : List (Cell α)) : Prop where
  visits : ((List.range cells.length).map (walk cells)).Perm (List.range cells.length)
  increasing : ∀ j k, j < k → k < cells.length → ∃ c d, cells[walk cells j]? = some c ∧
    cells[walk cells k]? = some d ∧ c.value < d.value
  last : ∀ i c, cells[i]? = some c → (c.nextValue = z ↔ i = walk cells (cells.length - 1))
  stop : ∀ c ∈ cells, c.nextIndex = 0 ↔ c.nextValue = z

namespace Linked
variable {z : α} {cells : List (Cell α)}

/-- The stored values up to `v`. -/
private def upTo (cells : List (Cell α)) (v : α) : Finset α :=
  (values cells).toFinset.filter (· ≤ v)

private theorem mem_upTo {v w : α} : w ∈ upTo cells v ↔ w ∈ values cells ∧ w ≤ v := by
  rw [upTo, Finset.mem_filter, List.mem_toFinset]

private theorem card_values (H : Linked z cells) : (values cells).toFinset.card = cells.length := by
  rw [List.toFinset_card_of_nodup H.nodup, values, List.length_map]

/-- The position after `k` links holds the value of rank `k`. -/
private theorem walk_rank (H : Linked z cells) {k : Nat} (hk : k < cells.length) :
    ∃ c, cells[walk cells k]? = some c ∧ (upTo cells c.value).card = k + 1 := by
  induction k with
  | zero =>
    obtain ⟨s, hs, hsz⟩ := H.sentinel
    refine ⟨s, hs, Finset.card_eq_one.mpr ⟨z, ?_⟩⟩
    ext w
    rw [mem_upTo, Finset.mem_singleton, hsz]
    constructor
    · exact fun hw => le_antisymm hw.2 (H.least w)
    · rintro rfl
      exact ⟨hsz ▸ mem_values (List.mem_of_getElem? hs), le_refl _⟩
  | succ k ih =>
    obtain ⟨c, hc, hrank⟩ := ih (by omega)
    have hwalk : walk cells (k + 1) = c.nextIndex := by rw [walk, hc]
    rcases H.next c (List.mem_of_getElem? hc) with ⟨-, -, hmax⟩ | ⟨-, ⟨d, hd, hdv⟩, hlt, hgap⟩
    · -- no value is left after the greatest one
      have hall : upTo cells c.value = (values cells).toFinset := by
        ext w
        rw [mem_upTo, List.mem_toFinset]
        exact ⟨And.left, fun hw => ⟨hw, hmax w hw⟩⟩
      rw [hall, H.card_values] at hrank
      omega
    · refine ⟨d, by rw [hwalk, hd], ?_⟩
      have hinsert : upTo cells d.value = insert d.value (upTo cells c.value) := by
        ext w
        rw [Finset.mem_insert, mem_upTo, mem_upTo, hdv]
        constructor
        · rintro ⟨hw, hle⟩
          rcases hgap w hw with h | h
          · exact .inr ⟨hw, h⟩
          · exact .inl (le_antisymm hle h)
        · rintro (rfl | ⟨hw, hle⟩)
          · exact ⟨hdv ▸ mem_values (List.mem_of_getElem? hd), le_refl _⟩
          · exact ⟨hw, hle.trans hlt.le⟩
      have hnot : d.value ∉ upTo cells c.value := fun h =>
        absurd (hdv ▸ hlt) (not_lt.mpr (mem_upTo.mp h).2)
      rw [hinsert, Finset.card_insert_of_notMem hnot, hrank]

private theorem walk_increasing (H : Linked z cells) {j k : Nat} (hjk : j < k) (hk : k < cells.length) :
    ∃ c d, cells[walk cells j]? = some c ∧ cells[walk cells k]? = some d ∧ c.value < d.value := by
  obtain ⟨c, hc, hcr⟩ := H.walk_rank (hjk.trans hk)
  obtain ⟨d, hd, hdr⟩ := H.walk_rank hk
  refine ⟨c, d, hc, hd, lt_of_not_ge fun hle => ?_⟩
  have hsub : upTo cells d.value ⊆ upTo cells c.value := fun w hw =>
    mem_upTo.mpr ⟨(mem_upTo.mp hw).1, (mem_upTo.mp hw).2.trans hle⟩
  have hcard := Finset.card_le_card hsub
  omega

private theorem walk_perm (H : Linked z cells) :
    ((List.range cells.length).map (walk cells)).Perm (List.range cells.length) := by
  have hnodup : ((List.range cells.length).map (walk cells)).Nodup := by
    rw [List.Nodup, List.pairwise_map]
    refine List.pairwise_lt_range.imp_of_mem fun {j k} _ hk hjk he => ?_
    obtain ⟨c, d, hc, hd, hlt⟩ := H.walk_increasing hjk (List.mem_range.mp hk)
    rw [he, hd] at hc
    exact absurd hlt (Option.some.inj hc ▸ lt_irrefl _)
  have hsub : (List.range cells.length).map (walk cells) ⊆ List.range cells.length := by
    intro i hi
    obtain ⟨k, hk, rfl⟩ := List.mem_map.mp hi
    obtain ⟨c, hc, -⟩ := H.walk_rank (List.mem_range.mp hk)
    exact List.mem_range.mpr (List.getElem?_eq_some_iff.mp hc).1
  exact (hnodup.subperm hsub).perm_of_length_le (by simp)

/-- The last position of the walk is the one without a successor. -/
private theorem walk_last (H : Linked z cells) {k : Nat} (hk : k < cells.length) {c : Cell α}
    (hc : cells[walk cells k]? = some c) : c.nextValue = z ↔ k + 1 = cells.length := by
  obtain ⟨c', hc', hrank⟩ := H.walk_rank hk
  obtain rfl := Option.some.inj (hc.symm.trans hc')
  constructor
  · intro hz
    have hall : (values cells).toFinset ⊆ upTo cells c.value := fun w hw => by
      rw [List.mem_toFinset] at hw
      rcases H.next c (List.mem_of_getElem? hc) with ⟨-, -, hmax⟩ | ⟨-, -, hlt, -⟩
      · exact mem_upTo.mpr ⟨hw, hmax w hw⟩
      · exact absurd (hz ▸ hlt) (not_lt.mpr (H.least _))
    have hcard := Finset.card_le_card hall
    rw [H.card_values] at hcard
    omega
  · intro hlen
    rcases H.next c (List.mem_of_getElem? hc) with ⟨-, hz, -⟩ | ⟨-, ⟨d, hd, hdv⟩, hlt, -⟩
    · exact hz
    · -- a successor would be of rank `k + 1`
      have hss : upTo cells c.value ⊂ (values cells).toFinset := by
        refine (Finset.ssubset_iff_of_subset fun w hw => ?_).mpr ⟨d.value, ?_, fun h => ?_⟩
        · exact List.mem_toFinset.mpr (mem_upTo.mp hw).1
        · exact List.mem_toFinset.mpr (mem_values (List.mem_of_getElem? hd))
        · exact absurd (hdv ▸ hlt) (not_lt.mpr (mem_upTo.mp h).2)
      have hcard := Finset.card_lt_card hss
      rw [H.card_values] at hcard
      omega

theorem threaded (H : Linked z cells) : Threaded z cells where
  visits := H.walk_perm
  increasing _ _ hjk hk := H.walk_increasing hjk hk
  last i c hc := by
    have hi : i ∈ List.range cells.length := List.mem_range.mpr (List.getElem?_eq_some_iff.mp hc).1
    obtain ⟨k, hk, rfl⟩ := List.mem_map.mp (H.walk_perm.mem_iff.mpr hi)
    rw [H.walk_last (List.mem_range.mp hk) hc]
    constructor
    · intro h
      rw [← h, Nat.add_sub_cancel]
    · intro h
      by_contra hne
      have hlt : k < cells.length - 1 := by
        have := List.mem_range.mp hk
        omega
      obtain ⟨a, b, ha, hb, hab⟩ := H.walk_increasing hlt (by omega)
      rw [h, hb] at ha
      exact absurd hab (Option.some.inj ha ▸ lt_irrefl _)
  stop _ hc := H.nextIndex_eq_zero hc

end Linked

end Pocs.IndexedList
