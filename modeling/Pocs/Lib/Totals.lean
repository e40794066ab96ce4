import Mathlib.Algebra.Order.BigOperators.Group.List
import Mathlib.Data.List.Induction
import Mathlib.Data.List.Perm.Subperm
import Mathlib.Data.UInt
import Pocs.Lib.SortedMap

/-! # Totals

Sums of 64-bit values, which wrap; the largest elements of a list, which no other choice of as many outweighs;
and tallies, maps that add up the values of each key and keep the total. -/

namespace Pocs

theorem toNat_sum_of_lt {xs : List UInt64} (h : (xs.map UInt64.toNat).sum < 2 ^ 64) :
    xs.sum.toNat = (xs.map UInt64.toNat).sum := by
  induction xs with
  | nil => rfl
  | cons x xs ih =>
    rw [List.map_cons, List.sum_cons] at h
    rw [List.sum_cons, UInt64.toNat_add, ih (by omega), List.map_cons, List.sum_cons, Nat.mod_eq_of_lt h]

/-- A sum is exact if and only if it does not wrap. -/
theorem toNat_sum_iff {xs : List UInt64} :
    xs.sum.toNat = (xs.map UInt64.toNat).sum ↔ (xs.map UInt64.toNat).sum < 2 ^ 64 :=
  ⟨fun h => h ▸ xs.sum.toNat_lt, toNat_sum_of_lt⟩

section
variable {α M : Type} [AddCommMonoid M] [LinearOrder M] [IsOrderedAddMonoid M] [CanonicallyOrderedAdd M]
  {f : α → M} {xs chosen : List α} {k : Nat}

theorem sum_take_le_cons {x : α} (hx : ∀ y ∈ xs, f y ≤ f x) :
    ((xs.take k).map f).sum ≤ (((x :: xs).take k).map f).sum := by
  cases k with
  | zero => rfl
  | succ k =>
    rw [List.take_succ_cons, List.map_cons, List.sum_cons, List.take_add_one, List.map_append,
      List.sum_append, add_comm]
    refine add_le_add_left ?_ _
    cases h : xs[k]? with
    | none => exact zero_le
    | some y => simpa using hx y (List.mem_of_getElem? h)

theorem sum_le_sum_take_of_sublist (h : chosen.Sublist xs) (hsorted : xs.Pairwise fun a b => f b ≤ f a)
    (hlen : chosen.length ≤ k) : (chosen.map f).sum ≤ ((xs.take k).map f).sum := by
  induction h generalizing k with
  | slnil => simp
  | cons x _ ih =>
    obtain ⟨hx, hsorted⟩ := List.pairwise_cons.mp hsorted
    exact (ih hsorted hlen).trans (sum_take_le_cons hx)
  | cons_cons x _ ih =>
    cases k with
    | zero => simp at hlen
    | succ k =>
      rw [List.take_succ_cons, List.map_cons, List.map_cons, List.sum_cons, List.sum_cons]
      exact add_le_add_right (ih (List.pairwise_cons.mp hsorted).2 (Nat.le_of_succ_le_succ hlen)) _

/-- No choice of `k` elements outweighs the first `k` of a list in descending order. -/
theorem sum_le_sum_take (h : chosen.Subperm xs) (hsorted : xs.Pairwise fun a b => f b ≤ f a)
    (hlen : chosen.length ≤ k) : (chosen.map f).sum ≤ ((xs.take k).map f).sum := by
  obtain ⟨ys, hperm, hsub⟩ := h
  rw [← (hperm.map f).sum_eq]
  exact sum_le_sum_take_of_sublist hsub hsorted (hperm.length_eq.trans_le hlen)

end

end Pocs

/-! ## Tallies -/

namespace Pocs.SortedMap

variable {κ ν : Type} [LT κ] [DecidableLT κ] [DecidableEq κ] {k : κ} {v : ν} {es : List (κ × ν)}

def valuesOf (k : κ) (es : List (κ × ν)) : List ν := (es.filter fun e => e.1 = k).map Prod.snd

/-- The values of each key added up. -/
def tally [Zero ν] [Add ν] (es : List (κ × ν)) : List (κ × ν) :=
  es.foldl (fun m e => insert e.1 ((m.lookup e.1).getD 0 + e.2) m) []

section
variable [AddCommMonoid ν]

omit [LT κ] [DecidableLT κ] in
theorem map_snd_eq (h : (es.map Prod.fst).Nodup) :
    es.map Prod.snd = (es.map Prod.fst).map fun k => (es.lookup k).getD 0 := by
  induction es with
  | nil => rfl
  | cons e es ih =>
    obtain ⟨hfresh, hnodup⟩ := List.nodup_cons.mp h
    rw [List.map_cons, List.map_cons, List.map_cons, List.lookup_cons, beq_self_eq_true, ih hnodup]
    congr 1
    refine List.map_congr_left fun k hk => ?_
    rw [List.lookup_cons, beq_false_of_ne fun heq : k = e.1 => hfresh (heq ▸ hk)]

theorem tally_concat (e : κ × ν) :
    tally (es ++ [e]) = insert e.1 (((tally es).lookup e.1).getD 0 + e.2) (tally es) := by
  rw [tally, List.foldl_append]
  rfl

theorem sorted_tally [IsStrictTotalOrder κ (· < ·)] (es : List (κ × ν)) :
    ((tally es).map Prod.fst).Pairwise (· < ·) := by
  induction es using List.reverseRecOn with
  | nil => exact List.Pairwise.nil
  | append_singleton es e ih => exact tally_concat e ▸ sorted_insert ih

theorem mem_keys_tally : k ∈ (tally es).map Prod.fst ↔ k ∈ es.map Prod.fst := by
  induction es using List.reverseRecOn with
  | nil => rfl
  | append_singleton es e ih =>
    rw [tally_concat, mem_keys_insert, ih, List.map_append, List.mem_append, or_comm, List.map_singleton,
      List.mem_singleton]

theorem lookup_tally : ((tally es).lookup k).getD 0 = (valuesOf k es).sum := by
  induction es using List.reverseRecOn with
  | nil => rfl
  | append_singleton es e ih =>
    rw [tally_concat, valuesOf, List.filter_append, List.map_append, List.sum_append, ← valuesOf, ← ih]
    by_cases heq : e.1 = k
    · subst heq
      simp [lookup_insert_self]
    · rw [lookup_insert_of_ne (Ne.symm heq)]
      simp [heq]

theorem sum_insert [IsStrictTotalOrder κ (· < ·)] (h : (es.map Prod.fst).Pairwise (· < ·)) :
    ((insert k ((es.lookup k).getD 0 + v) es).map Prod.snd).sum = (es.map Prod.snd).sum + v := by
  induction es with
  | nil => simp [insert]
  | cons e es ih =>
    obtain ⟨hlt, hsorted⟩ := List.pairwise_cons.mp h
    unfold insert
    split
    · next hk =>
      have hnone : (e :: es).lookup k = none := List.lookup_eq_none_iff.mpr fun e' he' => by
        rcases List.mem_cons.mp he' with rfl | hrest
        · exact bne_iff_ne.mpr (ne_of_irrefl hk)
        · exact bne_iff_ne.mpr (ne_of_irrefl (Trans.trans hk (hlt _ (List.mem_map_of_mem hrest))))
      rw [hnone, List.map_cons, List.sum_cons, Option.getD_none, zero_add, add_comm]
    split
    · next heq =>
      rw [heq, List.lookup_cons, beq_self_eq_true, Option.getD_some, List.map_cons, List.sum_cons,
        List.map_cons, List.sum_cons, add_right_comm]
    · next hne =>
      rw [List.lookup_cons, beq_false_of_ne hne, List.map_cons, List.sum_cons, ih hsorted, List.map_cons,
        List.sum_cons, add_assoc]

/-- A tally keeps the total. -/
theorem sum_tally [IsStrictTotalOrder κ (· < ·)] (es : List (κ × ν)) :
    ((tally es).map Prod.snd).sum = (es.map Prod.snd).sum := by
  induction es using List.reverseRecOn with
  | nil => rfl
  | append_singleton es e ih =>
    rw [tally_concat, sum_insert (sorted_tally es), ih, List.map_append, List.sum_append]
    simp

end

section
variable {es : List (κ × UInt64)}

theorem lookup_toNat_tally (h : ((valuesOf k es).map UInt64.toNat).sum < 2 ^ 64) :
    (((tally es).lookup k).getD 0).toNat = ((tally (es.map fun e => (e.1, e.2.toNat))).lookup k).getD 0 := by
  rw [lookup_tally, lookup_tally, toNat_sum_of_lt h, valuesOf, valuesOf, List.filter_map, List.map_map,
    List.map_map]
  rfl

/-- A tally of 64-bit values keeps the total as long as no key's values overflow. -/
theorem sum_toNat_tally [IsStrictTotalOrder κ (· < ·)]
    (h : ∀ k, ((valuesOf k es).map UInt64.toNat).sum < 2 ^ 64) :
    ((tally es).map fun e => e.2.toNat).sum = (es.map fun e => e.2.toNat).sum := by
  have hkeys : (tally es).map Prod.fst = (tally (es.map fun e => (e.1, e.2.toNat))).map Prod.fst := by
    refine (eq_iff_of_sorted (sorted_tally _) (sorted_tally _)).mpr fun k => ?_
    rw [mem_keys_tally, mem_keys_tally, List.map_map]
    rfl
  calc ((tally es).map fun e => e.2.toNat).sum
    _ = (((tally es).map Prod.snd).map UInt64.toNat).sum := by rw [List.map_map]; rfl
    _ = ((tally (es.map fun e => (e.1, e.2.toNat))).map Prod.snd).sum := by
      rw [map_snd_eq (nodup_of_sorted (sorted_tally _)), map_snd_eq (nodup_of_sorted (sorted_tally _)),
        List.map_map, hkeys]
      congr 1
      exact List.map_congr_left fun k _ => lookup_toNat_tally (h k)
    _ = (es.map fun e => e.2.toNat).sum := by rw [sum_tally, List.map_map]; rfl

end

end Pocs.SortedMap
