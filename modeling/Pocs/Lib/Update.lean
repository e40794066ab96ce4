import Mathlib.Logic.Function.Basic

/-! # Writes to a mapping

What a write to one entry says of all. -/

namespace Pocs

variable {α β γ : Type _} [DecidableEq α] {f : α → β} {a x : α}

/-- A write that keeps a field of the entry keeps the field of all. -/
theorem update_field (g : β → γ) {b : β} (h : g b = g (f a)) (x : α) : g (Function.update f a b x) = g (f x) := by
  rcases eq_or_ne x a with rfl | hne
  · rw [Function.update_self, h]
  · rw [Function.update_of_ne hne]

theorem update_ne_iff {b c : β} (h : b ≠ c) : Function.update f a b x ≠ c ↔ x = a ∨ f x ≠ c := by
  rcases eq_or_ne x a with rfl | hne
  · rw [Function.update_self]
    exact iff_of_true h (.inl rfl)
  · rw [Function.update_of_ne hne, or_iff_right hne]

theorem update_ne_self_iff {c : β} : Function.update f a c x ≠ c ↔ x ≠ a ∧ f x ≠ c := by
  rcases eq_or_ne x a with rfl | hne
  · rw [Function.update_self]
    exact iff_of_false (fun h => h rfl) fun h => h.1 rfl
  · rw [Function.update_of_ne hne, and_iff_right hne]

variable {f : α → Bool}

theorem update_true_eq_true : Function.update f a true x = true ↔ x = a ∨ f x = true := by
  simpa only [ne_eq, Bool.not_eq_false] using @update_ne_iff _ _ _ f a x _ _ Bool.false_ne_true.symm

theorem update_false_eq_true : Function.update f a false x = true ↔ x ≠ a ∧ f x = true := by
  simpa only [ne_eq, Bool.not_eq_false] using @update_ne_self_iff _ _ _ f a x false

end Pocs
