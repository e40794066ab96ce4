import Mathlib.Data.List.Defs

/-! # Chunks

A list cut into chunks is joined to itself again, and its chunks are of one length if that divides the list's. -/

namespace Pocs

variable {α : Type} {n : Nat} {xs : List α}

theorem flatten_toChunksGo {acc : Array α} {out : Array (List α)} :
    (List.toChunks.go n xs acc out).flatten = out.toList.flatten ++ acc.toList ++ xs := by
  induction xs generalizing acc out with
  | nil => simp [List.toChunks.go]
  | cons x xs ih =>
    unfold List.toChunks.go
    split
    · rw [ih]
      simp
    · rw [ih]
      simp

/-- Every chunk is full: the open one has at least one element and at most `n`, and what follows fills it. -/
theorem length_of_mem_toChunksGo {acc : Array α} {out : Array (List α)} (hpos : 0 < acc.size)
    (hle : acc.size ≤ n) (hdvd : n ∣ acc.size + xs.length) (hout : ∀ chunk ∈ out, chunk.length = n) :
    ∀ chunk ∈ List.toChunks.go n xs acc out, chunk.length = n := by
  induction xs generalizing acc out with
  | nil =>
    have hsize : acc.size = n := Nat.le_antisymm hle (Nat.le_of_dvd hpos hdvd)
    intro chunk hchunk
    rw [List.toChunks.go, Array.mem_toList_iff, Array.mem_push] at hchunk
    rcases hchunk with hold | rfl
    · exact hout chunk hold
    · exact hsize
  | cons x xs ih =>
    rw [List.length_cons] at hdvd
    unfold List.toChunks.go
    split
    · next hfull =>
      have hsize := beq_iff_eq.mp hfull
      refine ih (by simp) (by simpa using hsize ▸ hpos) ?_ fun chunk hchunk => ?_
      · rw [hsize] at hdvd
        have hrest := (Nat.dvd_add_right (Nat.dvd_refl n)).mp hdvd
        simpa [Nat.add_comm] using hrest
      · rcases Array.mem_push.mp hchunk with hold | rfl
        · exact hout chunk hold
        · exact hsize
    · next hopen =>
      have hne : acc.size ≠ n := fun heq => hopen (beq_iff_eq.mpr heq)
      refine ih (by simp) (by rw [Array.size_push]; omega) ?_ hout
      rwa [Array.size_push, Nat.add_assoc, Nat.add_comm 1]

theorem flatten_toChunks : (xs.toChunks n).flatten = xs := by
  cases xs with
  | nil => cases n <;> rfl
  | cons x xs =>
    cases n with
    | zero => simp [List.toChunks]
    | succ n => exact flatten_toChunksGo

theorem length_of_mem_toChunks (hpos : 0 < n) (hdvd : n ∣ xs.length) {chunk : List α}
    (h : chunk ∈ xs.toChunks n) : chunk.length = n := by
  cases xs with
  | nil => cases n <;> cases h
  | cons x xs =>
    cases n with
    | zero => cases hpos
    | succ n =>
      refine length_of_mem_toChunksGo (by simp) (by simp) ?_ (by simp) chunk h
      rwa [List.length_cons, Nat.add_comm xs.length] at hdvd

end Pocs
