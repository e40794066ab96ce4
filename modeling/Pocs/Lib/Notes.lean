import Mathlib.Algebra.BigOperators.Finprod
import Mathlib.Tactic

/-! # Notes and what is left of them

A pool of notes owes the value of the notes that are not spent (`unspent`) and what it has credited
to accounts (`total`). The lemmas say how minting, spending and crediting move these sums. -/

namespace Pocs

section
variable {α : Type _} {value : α → Nat} {spent spent' : α → Prop} {notes : List α}

open Classical in
noncomputable def unspent (value : α → Nat) (spent : α → Prop) (notes : List α) : Nat :=
  (notes.map fun c => if spent c then 0 else value c).sum

@[simp] theorem unspent_nil : unspent value spent [] = 0 := rfl

theorem unspent_append (minted : List α) :
    unspent value spent (notes ++ minted) = unspent value spent notes + unspent value spent minted := by
  simp [unspent]

theorem unspent_cons_of_not {c : α} (h : ¬ spent c) :
    unspent value spent (c :: notes) = value c + unspent value spent notes := by
  simp [unspent, h]

theorem unspent_cons_of_value {c : α} (h : value c = 0) :
    unspent value spent (c :: notes) = unspent value spent notes := by
  simp [unspent, h]

theorem unspent_congr (h : ∀ c ∈ notes, value c ≠ 0 → (spent' c ↔ spent c)) :
    unspent value spent' notes = unspent value spent notes := by
  classical
  unfold unspent
  congr 1
  refine List.map_congr_left fun c hc => ?_
  by_cases hv : value c = 0
  · rw [hv, ite_self, ite_self]
  · rw [if_congr (h c hc hv) rfl rfl]

/-- Spending a note takes its value out; a note without value may be spent without being there. -/
theorem unspent_spend (hnodup : notes.Nodup) {c : α} (hc : value c ≠ 0 → c ∈ notes ∧ ¬ spent c)
    (h : ∀ c', value c' ≠ 0 → (spent' c' ↔ spent c' ∨ c' = c)) :
    unspent value spent' notes + value c = unspent value spent notes := by
  by_cases hv : value c = 0
  · rw [hv, Nat.add_zero]
    refine unspent_congr fun c' _ hc' => ?_
    rw [h c' hc']
    exact or_iff_left fun he => hc' (he ▸ hv)
  obtain ⟨hmem, hfresh⟩ := hc hv
  obtain ⟨before, after, rfl⟩ := List.append_of_mem hmem
  have hspent : spent' c := (h c hv).mpr (.inr rfl)
  have hothers : ∀ ns : List α, c ∉ ns → unspent value spent' ns = unspent value spent ns :=
    fun ns hns => unspent_congr fun c' hc' hv' => by
      rw [h c' hv']
      exact or_iff_left fun he => hns (he ▸ hc')
  rw [List.nodup_middle, List.nodup_cons, List.mem_append, not_or] at hnodup
  have hcons : unspent value spent' (c :: after) = unspent value spent' after := by
    simp [unspent, hspent]
  rw [unspent_append, unspent_append, hcons, unspent_cons_of_not hfresh,
    hothers before hnodup.1.1, hothers after hnodup.1.2]
  omega

/-- Spending several notes takes their values out. -/
theorem unspent_spendAll (hnodup : notes.Nodup) {cs : List α} (hcs : cs.Nodup)
    (hc : ∀ c ∈ cs, value c ≠ 0 → c ∈ notes ∧ ¬ spent c)
    (h : ∀ c', value c' ≠ 0 → (spent' c' ↔ spent c' ∨ c' ∈ cs)) :
    unspent value spent' notes + (cs.map value).sum = unspent value spent notes := by
  induction cs generalizing spent with
  | nil => simpa using unspent_congr fun c _ hv => by simpa using h c hv
  | cons c cs ih =>
    obtain ⟨hnew, hcs⟩ := List.nodup_cons.mp hcs
    have hone := @unspent_spend _ value spent (fun c' => spent c' ∨ c' = c) notes hnodup c
      (hc c List.mem_cons_self) (fun _ _ => Iff.rfl)
    have hrest := @ih (fun c' => spent c' ∨ c' = c) hcs (fun c' hc' hv => by
        obtain ⟨hmem, hfresh⟩ := hc c' (List.mem_cons_of_mem _ hc') hv
        exact ⟨hmem, not_or.mpr ⟨hfresh, fun he => hnew (he ▸ hc')⟩⟩)
      (fun c' hv => by rw [h c' hv, List.mem_cons, or_assoc])
    rw [List.map_cons, List.sum_cons]
    omega

/-- Distinct unspent notes are worth at most what is left. -/
theorem sum_le_unspent (hnodup : notes.Nodup) {cs : List α} (hcs : cs.Nodup)
    (hc : ∀ c ∈ cs, c ∈ notes ∧ ¬ spent c) : (cs.map value).sum ≤ unspent value spent notes := by
  rw [← unspent_spendAll hnodup hcs (fun c hmem _ => hc c hmem) (fun _ _ => Iff.rfl)]
  exact Nat.le_add_left _ _

theorem unspent_perm {notes' : List α} (h : notes.Perm notes') :
    unspent value spent notes = unspent value spent notes' :=
  (h.map _).sum_eq

/-- Of the notes without repetition, more are worth more. -/
theorem unspent_mono {notes' : List α} (hnodup : notes.Nodup) (hsub : notes ⊆ notes') :
    unspent value spent notes ≤ unspent value spent notes' := by
  obtain ⟨some, hperm, hsublist⟩ := hnodup.subperm hsub
  rw [← unspent_perm hperm]
  exact (hsublist.map _).sum_le_sum fun _ _ => Nat.zero_le _

/-- Notes without value add nothing. -/
theorem unspent_filter_value :
    unspent value spent (notes.filter fun c => value c ≠ 0) = unspent value spent notes := by
  induction notes with
  | nil => rfl
  | cons c notes ih =>
    by_cases hv : value c = 0
    · rw [List.filter_cons_of_neg (by simpa using hv), ih, unspent_cons_of_value hv]
    · rw [List.filter_cons_of_pos (by simpa using hv), ← List.singleton_append, unspent_append, ih,
        ← unspent_append, List.singleton_append]

theorem unspent_le_sum : unspent value spent notes ≤ (notes.map value).sum := by
  classical
  unfold unspent
  refine List.sum_le_sum fun c _ => ?_
  split
  · exact Nat.zero_le _
  · exact le_rfl

/-- The sum over the entries of a book that are not flagged as spent. -/
theorem sum_unflagged {ε : Type _} {entries : List ε} {note : ε → α} {flag : ε → Bool}
    (h : ∀ e ∈ entries, flag e = true ↔ spent (note e)) :
    ((entries.filter fun e => !flag e).map fun e => value (note e)).sum =
      unspent value spent (entries.map note) := by
  classical
  induction entries with
  | nil => rfl
  | cons e entries ih =>
    have hrest := ih fun e' he' => h e' (List.mem_cons_of_mem _ he')
    have hflag := h e List.mem_cons_self
    rw [List.map_cons]
    by_cases hspent : spent (note e)
    · rw [List.filter_cons_of_neg (by simp [hflag.mpr hspent]), hrest]
      simp [unspent, hspent]
    · have hoff : flag e = false := Bool.eq_false_of_not_eq_true fun hon => hspent (hflag.mp hon)
      rw [List.filter_cons_of_pos (by simp [hoff]), List.map_cons, List.sum_cons, hrest,
        unspent_cons_of_not hspent]

/-- New notes are worth their values. -/
theorem unspent_of_fresh (h : ∀ c ∈ notes, value c ≠ 0 → ¬ spent c) :
    unspent value spent notes = (notes.map value).sum := by
  classical
  unfold unspent
  congr 1
  refine List.map_congr_left fun c hc => ?_
  by_cases hv : value c = 0
  · rw [hv, ite_self]
  · rw [if_neg (h c hc hv)]

end

theorem foldl_mark [DecidableEq α] {ns : List α} {m : α → Bool} {n : α} :
    ns.foldl (fun m n => Function.update m n true) m n = true ↔ n ∈ ns ∨ m n = true := by
  induction ns generalizing m with
  | nil => simp
  | cons n' ns ih =>
    rw [List.foldl_cons, ih, List.mem_cons]
    rcases eq_or_ne n n' with rfl | hne
    · simp
    · simp [hne]

section
variable {ι : Type _} {f : ι → Nat}

noncomputable def total (f : ι → Nat) : Nat := ∑ᶠ i, f i

theorem total_zero : total (fun _ : ι => 0) = 0 := finsum_zero

/-- Replacing one credit changes the sum by the difference. -/
theorem total_update [DecidableEq ι] (hf : f.support.Finite) (i : ι) (v : Nat) :
    total (Function.update f i v) + f i = total f + v := by
  classical
  have hsub : f.support ⊆ (insert i hf.toFinset : Finset ι) := fun j hj => by
    simp only [Finset.coe_insert, Set.Finite.coe_toFinset]
    exact .inr hj
  have hsub' : (Function.update f i v).support ⊆ (insert i hf.toFinset : Finset ι) := fun j hj => by
    simp only [Finset.coe_insert, Set.Finite.coe_toFinset]
    rcases eq_or_ne j i with rfl | hne
    · exact .inl rfl
    · rw [Function.mem_support, Function.update_of_ne hne] at hj
      exact .inr hj
  have hmem : i ∈ insert i hf.toFinset := Finset.mem_insert_self _ _
  rw [total, total, finsum_eq_sum_of_support_subset _ hsub', finsum_eq_sum_of_support_subset _ hsub,
    Finset.sum_update_of_mem hmem, ← Finset.add_sum_erase _ f hmem, Finset.sdiff_singleton_eq_erase]
  omega

end

end Pocs
