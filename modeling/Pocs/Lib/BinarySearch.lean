import Mathlib.Tactic

/-! # Binary search in a strictly increasing list -/

namespace Pocs

variable {α : Type _} [LinearOrder α]

/-- The position of `c` in `xs[lo..hi]`, by halving the interval. -/
def binarySearch (xs : List α) (c : α) (lo hi : Nat) : Option Nat :=
  if _h : lo < hi then
    match xs[(lo + hi) / 2]? with
    | none => none
    | some v =>
      if v = c then some ((lo + hi) / 2)
      else if v < c then binarySearch xs c ((lo + hi) / 2 + 1) hi
      else binarySearch xs c lo ((lo + hi) / 2)
  else none
termination_by hi - lo

private theorem getElem?_lt_of_sorted {xs : List α} (hs : xs.Pairwise (· < ·)) {i j : Nat} {a b : α}
    (hi : xs[i]? = some a) (hj : xs[j]? = some b) : i < j ↔ a < b := by
  obtain ⟨hil, rfl⟩ := List.getElem?_eq_some_iff.mp hi
  obtain ⟨hjl, rfl⟩ := List.getElem?_eq_some_iff.mp hj
  have hpw := List.pairwise_iff_getElem.mp hs
  refine ⟨fun h => hpw i j hil hjl h, fun h => ?_⟩
  rcases Nat.lt_trichotomy i j with h' | rfl | h'
  · exact h'
  · exact absurd h (lt_irrefl _)
  · exact absurd (hpw j i hjl hil h') (not_lt.mpr h.le)

/-- The search finds exactly the elements of the interval. -/
theorem binarySearch_eq_some {xs : List α} (hs : xs.Pairwise (· < ·)) {c : α} {lo hi i : Nat}
    (hhi : hi ≤ xs.length) : binarySearch xs c lo hi = some i ↔ lo ≤ i ∧ i < hi ∧ xs[i]? = some c := by
  fun_induction binarySearch xs c lo hi with
  | case1 lo hi h hnone =>
    have := List.getElem?_eq_none_iff.mp hnone
    omega
  | case2 lo hi h hget =>
    rw [Option.some.injEq]
    constructor
    · rintro rfl
      exact ⟨by omega, by omega, hget⟩
    · rintro ⟨-, -, hi⟩
      exact (List.getElem?_inj (List.getElem?_eq_some_iff.mp hget).1 (hs.imp ne_of_lt)).mp (hget.trans hi.symm)
  | case3 lo hi h v hget hne hlt ih =>
    rw [ih hhi]
    constructor
    · rintro ⟨h1, h2, h3⟩
      exact ⟨by omega, h2, h3⟩
    · rintro ⟨-, h2, h3⟩
      exact ⟨(getElem?_lt_of_sorted hs hget h3).mpr hlt, h2, h3⟩
  | case4 lo hi h v hget hne hnlt ih =>
    rw [ih (by omega)]
    constructor
    · rintro ⟨h1, h2, h3⟩
      exact ⟨h1, by omega, h3⟩
    · rintro ⟨h1, -, h3⟩
      have hcv : c < v := lt_of_le_of_ne (not_lt.mp hnlt) (Ne.symm hne)
      exact ⟨h1, (getElem?_lt_of_sorted hs h3 hget).mpr hcv, h3⟩
  | case5 lo hi h =>
    refine ⟨fun hf => absurd hf nofun, ?_⟩
    rintro ⟨h1, h2, -⟩
    omega

theorem binarySearch_all {xs : List α} (hs : xs.Pairwise (· < ·)) {c : α} {i : Nat} :
    binarySearch xs c 0 xs.length = some i ↔ xs[i]? = some c := by
  rw [binarySearch_eq_some hs (Nat.le_refl _)]
  exact ⟨fun h => h.2.2, fun h => ⟨Nat.zero_le i, (List.getElem?_eq_some_iff.mp h).1, h⟩⟩

theorem binarySearch_isSome {xs : List α} (hs : xs.Pairwise (· < ·)) {c : α} :
    (binarySearch xs c 0 xs.length).isSome = true ↔ c ∈ xs := by
  simp only [Option.isSome_iff_exists, binarySearch_all hs, List.mem_iff_getElem?]

end Pocs
