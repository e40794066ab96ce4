import Mathlib.Data.List.Nodup
import Mathlib.Logic.Function.Basic
import Mathlib.Tactic.Basic
import Pocs.Lib.Method

/-! # Rings of historical roots

A contract that accepts proofs against a bounded number of earlier roots keeps them in a ring of
slots and a map of the roots that are still in it. -/

namespace Pocs

structure RootRing where
  slots : Nat → Nat
  index : Nat
  valid : Nat → Bool

namespace RootRing

def empty : RootRing := ⟨fun _ => 0, 0, fun _ => false⟩

/-- Writes the root to the next of `size` slots and forgets the root it replaces. -/
def record (size root : Nat) (ring : RootRing) : RootRing :=
  let evicted := ring.slots ring.index
  let valid := if evicted ≠ 0 then Function.update ring.valid evicted false else ring.valid
  { slots := Function.update ring.slots ring.index root
    index := (ring.index + 1) % size
    valid := Function.update valid root true }

variable {size root r : Nat} {ring : RootRing}

theorem valid_empty : empty.valid r = false := rfl

theorem valid_record_self : (ring.record size root).valid root = true := Function.update_self ..

/-- A root that is valid now was valid before or has just been recorded. -/
theorem valid_of_record (h : (ring.record size root).valid r = true) : r = root ∨ ring.valid r = true := by
  simp only [record] at h
  rcases eq_or_ne r root with rfl | hne
  · exact .inl rfl
  rw [Function.update_of_ne hne] at h
  split at h
  · rcases eq_or_ne r (ring.slots ring.index) with rfl | hev
    · rw [Function.update_self] at h
      cases h
    · exact .inr (by rwa [Function.update_of_ne hev] at h)
  · exact .inr h

/-! ## The last roots -/

/-- The ring after the roots `rs` were recorded: the last of them are in their slots, the other slots are
empty, and just the last of them are valid. -/
structure Holds (size : Nat) (ring : RootRing) (rs : List Nat) : Prop where
  index : ring.index = rs.length % size
  slots : ∀ j x, rs[j]? = some x → rs.length ≤ j + size → ring.slots (j % size) = x
  unwritten : ∀ j, rs.length ≤ j → j < size → ring.slots j = 0
  valid : ∀ r, ring.valid r = true ↔ r ∈ rs.drop (rs.length - size)

theorem holds_empty : Holds size empty [] where
  index := (Nat.zero_mod size).symm
  slots := by simp
  unwritten _ _ _ := rfl
  valid := by simp [empty]

variable {rs : List Nat}

/-- Slots that are less than a round apart differ. -/
theorem mod_ne_of_lt {i j size : Nat} (hij : i < j) (hlt : j < i + size) : i % size ≠ j % size := by
  intro h
  have hdvd : size ∣ j - i := Nat.dvd_of_mod_eq_zero (Nat.sub_mod_eq_zero_of_mod_eq h.symm)
  have hle := Nat.le_of_dvd (by omega) hdvd
  omega

/-- The root that is forgotten is the oldest of the last ones, if there are as many as slots. -/
theorem Holds.valid_evicted (h : Holds size ring rs) (hzero : 0 ∉ rs) (hnodup : rs.Nodup)
    (hsize : 0 < size) (r : Nat) :
    (if ring.slots ring.index ≠ 0 then Function.update ring.valid (ring.slots ring.index) false
      else ring.valid) r = true ↔ r ∈ rs.drop (rs.length + 1 - size) := by
  rw [h.index]
  rcases Nat.lt_or_ge rs.length size with hlt | hge
  · rw [Nat.mod_eq_of_lt hlt, h.unwritten _ (Nat.le_refl _) hlt, if_neg (not_not.mpr rfl), h.valid,
      Nat.sub_eq_zero_of_le (Nat.le_of_lt hlt), Nat.sub_eq_zero_of_le hlt]
  · -- the slot of the oldest root comes next
    obtain ⟨oldest, holdest⟩ : ∃ x, rs[rs.length - size]? = some x :=
      ⟨_, List.getElem?_eq_getElem (by omega)⟩
    have hslot : ring.slots (rs.length % size) = oldest := by
      rw [← h.slots _ oldest holdest (by omega), ← Nat.mod_eq_sub_mod hge]
    have hdrop : rs.drop (rs.length - size) = oldest :: rs.drop (rs.length + 1 - size) := by
      rw [List.drop_eq_getElem?_toList_append, holdest, Nat.sub_add_comm hge]
      rfl
    have hne : oldest ≠ 0 := fun h0 => hzero (h0 ▸ List.mem_of_getElem? holdest)
    have hnodup' := hnodup.sublist (List.drop_sublist (rs.length - size) rs)
    rw [hdrop, List.nodup_cons] at hnodup'
    rw [hslot, if_pos hne]
    rcases eq_or_ne r oldest with rfl | hr
    · rw [Function.update_self]
      simp [hnodup'.1]
    · rw [Function.update_of_ne hr, h.valid, hdrop, List.mem_cons]
      simp [hr]

theorem Holds.record (h : Holds size ring rs) (hsize : 0 < size) (hzero : 0 ∉ rs) (hnodup : rs.Nodup) :
    Holds size (ring.record size root) (rs ++ [root]) where
  index := by
    show (ring.index + 1) % size = _
    rw [h.index, List.length_append, List.length_singleton, Nat.mod_add_mod]
  slots j x hx hle := by
    rw [List.length_append, List.length_singleton] at hle
    show Function.update ring.slots ring.index root (j % size) = x
    rw [h.index]
    rcases Nat.lt_trichotomy j rs.length with hlt | rfl | hgt
    · rw [List.getElem?_append_left hlt] at hx
      rw [Function.update_of_ne (mod_ne_of_lt hlt (by omega)), h.slots j x hx (by omega)]
    · rw [List.getElem?_concat_length] at hx
      rw [Function.update_self, Option.some.inj hx]
    · rw [List.getElem?_eq_none (by simp; omega)] at hx
      cases hx
  unwritten j hle hlt := by
    rw [List.length_append, List.length_singleton] at hle
    show Function.update ring.slots ring.index root j = 0
    rw [h.index, Nat.mod_eq_of_lt (by omega), Function.update_of_ne (by omega),
      h.unwritten j (by omega) hlt]
  valid r := by
    have hevicted := h.valid_evicted hzero hnodup hsize r
    have hdrop : (rs ++ [root]).drop ((rs ++ [root]).length - size) =
        rs.drop (rs.length + 1 - size) ++ [root] := by
      rw [List.length_append, List.length_singleton, List.drop_append_of_le_length (by omega)]
    rw [hdrop, List.mem_append, List.mem_singleton, ← hevicted]
    simp only [RootRing.record]
    rcases eq_or_ne r root with rfl | hne
    · simp
    · rw [Function.update_of_ne hne]
      simp [hne]

/-- A ring that records what the labels of a run say holds the last of it. -/
theorem holds_of_run {σ ℓ : Type _} {step : σ → ℓ → σ → Prop} {ring : σ → RootRing}
    {recorded : ℓ → Option Nat} {s₀ s : σ} {tr : List ℓ} (hrun : Run step s₀ tr s)
    (h₀ : ring s₀ = .empty) (hsize : 0 < size) (hstep : ∀ l ∈ tr, ∀ s s', step s l s' →
      ring s' = (recorded l).elim (ring s) fun r => (ring s).record size r)
    (hzero : 0 ∉ tr.filterMap recorded) (hnodup : (tr.filterMap recorded).Nodup) :
    Holds size (ring s) (tr.filterMap recorded).reverse := by
  induction hrun with
  | nil => rw [h₀]; exact holds_empty
  | @cons tr s s' l _ hs ih =>
    have hring := hstep l List.mem_cons_self s s' hs
    replace hstep : ∀ l ∈ tr, _ := fun l hl => hstep l (List.mem_cons_of_mem _ hl)
    cases hrec : recorded l with
    | none =>
      rw [List.filterMap_cons_none hrec] at hzero hnodup ⊢
      rw [hrec, Option.elim_none] at hring
      rw [hring]
      exact ih hstep hzero hnodup
    | some r =>
      rw [List.filterMap_cons_some hrec] at hzero hnodup ⊢
      rw [List.mem_cons, not_or] at hzero
      rw [List.nodup_cons] at hnodup
      rw [hrec, Option.elim_some] at hring
      rw [hring, List.reverse_cons]
      exact (ih hstep hzero.2 hnodup.2).record hsize (by rw [List.mem_reverse]; exact hzero.2)
        (List.nodup_reverse.mpr hnodup.2)

/-- The valid roots are the latest ones. -/
theorem Holds.valid_iff_take {latest : List Nat} (h : Holds size ring latest.reverse) (r : Nat) :
    ring.valid r = true ↔ r ∈ latest.take size := by
  rw [h.valid, List.length_reverse, List.drop_reverse, List.mem_reverse]
  rcases Nat.le_total size latest.length with hle | hle
  · rw [Nat.sub_sub_self hle]
  · rw [Nat.sub_eq_zero_of_le hle, Nat.sub_zero, List.take_length, List.take_of_length_le hle]

end RootRing

end Pocs
