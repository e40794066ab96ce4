import Mathlib.Data.List.Dedup
import Mathlib.Data.List.Sort
import Mathlib.Order.Defs.Unbundled

/-! # Maps in key order

The entries of an ordered map, smallest key first. Reading is `List.lookup`, and the last entry is the
one of the greatest key. A set is the map of its members to nothing, and what is collected into a map
later replaces what came earlier. -/

namespace Pocs.SortedMap

variable {κ ν : Type} [LT κ] [DecidableLT κ] [DecidableEq κ]

def insert (k : κ) (v : ν) : List (κ × ν) → List (κ × ν)
  | [] => [(k, v)]
  | e :: es =>
    if k < e.1 then (k, v) :: e :: es
    else if k = e.1 then (k, v) :: es
    else e :: insert k v es

variable {k k' : κ} {v : ν} {es : List (κ × ν)}

theorem insert_ne_nil : insert k v es ≠ [] := by
  cases es with
  | nil => exact List.cons_ne_nil _ _
  | cons e es =>
    unfold insert
    split
    · exact List.cons_ne_nil _ _
    · split <;> exact List.cons_ne_nil _ _

theorem lookup_insert_self : (insert k v es).lookup k = some v := by
  induction es with
  | nil => simp [insert]
  | cons e es ih =>
    unfold insert
    split
    · simp
    · split
      · simp
      · next hne => rw [List.lookup_cons, beq_false_of_ne hne, ih]

theorem lookup_insert_of_ne (h : k' ≠ k) : (insert k v es).lookup k' = es.lookup k' := by
  induction es with
  | nil => rw [insert, List.lookup_cons, beq_false_of_ne h]
  | cons e es ih =>
    unfold insert
    split
    · rw [List.lookup_cons, beq_false_of_ne h]
    · split
      · next heq => rw [List.lookup_cons, beq_false_of_ne h, List.lookup_cons, beq_false_of_ne (heq ▸ h)]
      · rw [List.lookup_cons, List.lookup_cons, ih]

/-- A key above all others becomes the last. -/
theorem insert_of_last (hlt : ∀ e ∈ es, ¬ k < e.1) (hne : ∀ e ∈ es, k ≠ e.1) :
    insert k v es = es ++ [(k, v)] := by
  induction es with
  | nil => rfl
  | cons e es ih =>
    rw [insert, if_neg (hlt e List.mem_cons_self), if_neg (hne e List.mem_cons_self),
      ih (fun e' he' => hlt e' (List.mem_cons_of_mem _ he'))
        (fun e' he' => hne e' (List.mem_cons_of_mem _ he')), List.cons_append]

/-! ## Collected maps and sets -/

/-- The map of the entries, in which the last entry of a key stands. -/
def collect (es : List (κ × ν)) : List (κ × ν) := es.foldl (fun m e => insert e.1 e.2 m) []

/-- The members of the set, smallest first. -/
def collectKeys (ks : List κ) : List κ := (collect (ks.map fun k => (k, ()))).map Prod.fst

theorem mem_keys_insert : k' ∈ (insert k v es).map Prod.fst ↔ k' = k ∨ k' ∈ es.map Prod.fst := by
  induction es with
  | nil => simp [insert]
  | cons e es ih =>
    unfold insert
    split
    · rw [List.map_cons, List.mem_cons]
    split
    · next heq => rw [List.map_cons, List.mem_cons, List.map_cons, List.mem_cons, ← heq, or_self_left]
    · rw [List.map_cons, List.mem_cons, List.map_cons, List.mem_cons, ih, or_left_comm]

theorem sorted_insert [IsStrictTotalOrder κ (· < ·)] (h : (es.map Prod.fst).Pairwise (· < ·)) :
    ((insert k v es).map Prod.fst).Pairwise (· < ·) := by
  induction es with
  | nil => exact List.pairwise_singleton _ _
  | cons e es ih =>
    obtain ⟨hlt, hsorted⟩ := List.pairwise_cons.mp h
    unfold insert
    split
    · next hk => exact List.pairwise_cons.mpr ⟨List.forall_mem_cons.mpr ⟨hk, fun k' hk' =>
        Trans.trans hk (hlt k' hk')⟩, h⟩
    split
    · next heq => exact heq ▸ h
    · next hk hne =>
      refine List.pairwise_cons.mpr ⟨fun k' hk' => ?_, ih hsorted⟩
      rcases mem_keys_insert.mp hk' with rfl | hold
      · rcases trichotomous_of (· < ·) k' e.1 with hlt' | heq | hgt
        · exact absurd hlt' hk
        · exact absurd heq hne
        · exact hgt
      · exact hlt k' hold

section
variable {m : List (κ × ν)}

theorem sorted_foldl_insert [IsStrictTotalOrder κ (· < ·)] (h : (m.map Prod.fst).Pairwise (· < ·)) :
    ((es.foldl (fun m e => insert e.1 e.2 m) m).map Prod.fst).Pairwise (· < ·) := by
  induction es generalizing m with
  | nil => exact h
  | cons e es ih => exact ih (sorted_insert h)

theorem mem_keys_foldl_insert : k ∈ (es.foldl (fun m e => insert e.1 e.2 m) m).map Prod.fst ↔
    k ∈ m.map Prod.fst ∨ k ∈ es.map Prod.fst := by
  induction es generalizing m with
  | nil => simp
  | cons e es ih => rw [List.foldl_cons, ih, mem_keys_insert, List.map_cons, List.mem_cons]; tauto

theorem lookup_foldl_insert (h : (es.map Prod.fst).Nodup) :
    (es.foldl (fun m e => insert e.1 e.2 m) m).lookup k =
      if k ∈ es.map Prod.fst then es.lookup k else m.lookup k := by
  induction es generalizing m with
  | nil => rfl
  | cons e es ih =>
    obtain ⟨hfresh, hnodup⟩ := List.nodup_cons.mp h
    rw [List.foldl_cons, ih hnodup]
    by_cases heq : k = e.1
    · subst heq
      rw [if_neg hfresh, List.map_cons, if_pos List.mem_cons_self, lookup_insert_self, List.lookup_cons,
        beq_self_eq_true]
    · rw [lookup_insert_of_ne heq, List.lookup_cons, beq_false_of_ne heq, List.map_cons]
      simp only [List.mem_cons, heq, false_or]

end

theorem sorted_collect [IsStrictTotalOrder κ (· < ·)] (es : List (κ × ν)) :
    ((collect es).map Prod.fst).Pairwise (· < ·) :=
  sorted_foldl_insert List.Pairwise.nil

/-- What is read from the map of entries with distinct keys is one of them. -/
theorem lookup_collect (h : (es.map Prod.fst).Nodup) : (collect es).lookup k = es.lookup k := by
  rw [collect, lookup_foldl_insert h]
  split
  · rfl
  · next hk => exact (List.lookup_eq_none_iff.mpr fun e he => bne_iff_ne.mpr fun heq =>
      hk (List.mem_map.mpr ⟨e, he, heq.symm⟩)).symm

/-- An entry of a table with distinct keys. -/
theorem lookup_collect_map {α : Type} {key : α → κ} {value : α → ν} {xs : List α}
    (h : (xs.map key).Nodup) : (collect (xs.map fun x => (key x, value x))).lookup k = some v ↔
      ∃ x ∈ xs, key x = k ∧ value x = v := by
  have hkeys : (xs.map fun x => (key x, value x)).map Prod.fst = xs.map key := by
    rw [List.map_map]
    rfl
  rw [lookup_collect (hkeys.symm ▸ h)]
  clear hkeys
  induction xs with
  | nil => simp
  | cons x xs ih =>
    obtain ⟨hfresh, hnodup⟩ := List.nodup_cons.mp h
    have hlater : ∀ y ∈ xs, key y ≠ key x := fun y hy heq => hfresh (List.mem_map.mpr ⟨y, hy, heq⟩)
    rw [List.map_cons, List.lookup_cons, List.exists_mem_cons_iff]
    by_cases heq : k = key x
    · subst heq
      rw [beq_self_eq_true]
      constructor
      · intro hv
        exact .inl ⟨rfl, Option.some.inj hv⟩
      · rintro (⟨-, rfl⟩ | ⟨y, hy, hkey, -⟩)
        · rfl
        · exact absurd hkey (hlater y hy)
    · rw [beq_false_of_ne heq]
      refine (ih hnodup).trans ⟨.inr, ?_⟩
      rintro (⟨hkey, -⟩ | hy)
      · exact absurd hkey.symm heq
      · exact hy

theorem mem_collectKeys {ks : List κ} : k ∈ collectKeys ks ↔ k ∈ ks := by
  rw [collectKeys, collect, mem_keys_foldl_insert, List.map_map]
  simp

theorem sorted_collectKeys [IsStrictTotalOrder κ (· < ·)] (ks : List κ) : (collectKeys ks).Pairwise (· < ·) :=
  sorted_collect _

omit [DecidableLT κ] [DecidableEq κ] in
theorem nodup_of_sorted [IsStrictTotalOrder κ (· < ·)] {ks : List κ} (h : ks.Pairwise (· < ·)) : ks.Nodup :=
  List.Pairwise.imp (fun hlt => ne_of_irrefl hlt) h

omit [DecidableLT κ] [DecidableEq κ] in
/-- Two increasing lists are equal once they have the same members. -/
theorem eq_iff_of_sorted [IsStrictTotalOrder κ (· < ·)] {ks ks' : List κ} (h : ks.Pairwise (· < ·))
    (h' : ks'.Pairwise (· < ·)) : ks = ks' ↔ ∀ k, k ∈ ks ↔ k ∈ ks' := by
  refine ⟨fun heq k => heq ▸ Iff.rfl, fun hmem => ?_⟩
  exact List.Perm.eq_of_pairwise (fun _ _ _ _ hlt hgt => absurd (Trans.trans hlt hgt) (irrefl_of (· < ·) _))
    h h' ((List.perm_ext_iff_of_nodup (nodup_of_sorted h) (nodup_of_sorted h')).mpr hmem)

/-- The set has as many members as the list if and only if none repeats. -/
theorem length_collectKeys_eq_iff [IsStrictTotalOrder κ (· < ·)] {ks : List κ} :
    (collectKeys ks).length = ks.length ↔ ks.Nodup := by
  have hperm : (collectKeys ks).Perm ks.dedup :=
    (List.perm_ext_iff_of_nodup (nodup_of_sorted (sorted_collectKeys ks)) ks.nodup_dedup).mpr fun k => by
      rw [mem_collectKeys, List.mem_dedup]
  rw [hperm.length_eq]
  constructor
  · intro hlen
    exact List.dedup_eq_self.mp ((List.dedup_sublist ks).eq_of_length hlen)
  · intro hnodup
    rw [List.dedup_eq_self.mpr hnodup]

end Pocs.SortedMap

namespace Pocs

instance UInt64.strictTotalOrder : IsStrictTotalOrder UInt64 (· < ·) where
  trichotomous _ _ hab hba := UInt64.le_antisymm (UInt64.not_lt.mp hba) (UInt64.not_lt.mp hab)
  irrefl := UInt64.lt_irrefl
  trans _ _ _ := UInt64.lt_trans

structure BTreeMap (κ ν : Type) [LT κ] where
  entries : List (κ × ν)
  sorted : (entries.map Prod.fst).Pairwise (· < ·)

namespace BTreeMap
variable {κ ν : Type} [LT κ]

def new : BTreeMap κ ν := ⟨[], .nil⟩

def keys (m : BTreeMap κ ν) : List κ := m.entries.map Prod.fst

theorem keys_eq_iff [IsStrictTotalOrder κ (· < ·)] {m : BTreeMap κ ν} {ks : List κ}
    (h : ks.Pairwise (· < ·)) : m.keys = ks ↔ ∀ k, k ∈ m.keys ↔ k ∈ ks :=
  SortedMap.eq_iff_of_sorted m.sorted h

end BTreeMap

end Pocs
