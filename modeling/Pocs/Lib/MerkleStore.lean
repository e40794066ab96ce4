import Pocs.Lib.Merkle

/-! # Trees hashed level by level

The path of a leaf, in which the levels that promote a node without a sibling are absent. -/

namespace Pocs

namespace Merkle
variable {α : Type} (node : α → α → α)

/-- The next level; a last node without a sibling is promoted. -/
def level : List α → List α
  | a :: b :: rest => node a b :: level rest
  | rest => rest

/-- The path of node `i` through `d` levels. -/
def promotedPath : Nat → List α → Nat → List (Bool × α)
  | 0, _, _ => []
  | d + 1, ls, i =>
    (ls[sibling i]?.map fun s => (decide (i % 2 = 1), s)).toList ++ promotedPath d (level node ls) (i / 2)

variable {node}

/-- The parent of node `i`, which is the node itself where it has no sibling. -/
theorem getElem?_level {ls : List α} {i : Nat} {x : α} (h : ls[i]? = some x) :
    (level node ls)[i / 2]? = some (foldPath node x
      (ls[sibling i]?.map fun s => (decide (i % 2 = 1), s)).toList) := by
  induction ls using level.induct generalizing i with
  | case1 a b rest ih =>
    match i with
    | 0 =>
      cases h
      rfl
    | 1 =>
      cases h
      rfl
    | i + 2 =>
      have hdiv : (i + 2) / 2 = i / 2 + 1 := Nat.add_div_right i (by decide)
      have hmod : (i + 2) % 2 = i % 2 := Nat.add_mod_right i 2
      have hsib : sibling (i + 2) = sibling i + 2 := by
        unfold sibling
        split <;> split <;> omega
      rw [level, hdiv, List.getElem?_cons_succ, hmod, hsib]
      exact ih h
  | case2 rest hrest =>
    match rest with
    | [] => cases h
    | [a] =>
      match i with
      | 0 =>
        cases h
        rfl
      | i + 1 => cases h
    | a :: b :: rest => exact absurd rfl (hrest a b rest)

theorem length_promotedPath {d : Nat} {ls : List α} {i : Nat} : (promotedPath node d ls i).length ≤ d := by
  induction d generalizing ls i with
  | zero => exact Nat.le_refl _
  | succ d ih =>
    have hone : ((ls[sibling i]?.map fun s => (decide (i % 2 = 1), s)).toList).length ≤ 1 := by
      cases ls[sibling i]? <;> simp
    rw [promotedPath, List.length_append, Nat.add_comm d 1]
    exact Nat.add_le_add hone ih

theorem foldPath_promotedPath {d : Nat} {ls : List α} {i : Nat} {x : α} (h : ls[i]? = some x) :
    ((level node)^[d] ls)[i / 2 ^ d]? = some (foldPath node x (promotedPath node d ls i)) := by
  induction d generalizing ls i x with
  | zero => simpa [promotedPath, foldPath] using h
  | succ d ih =>
    rw [promotedPath, foldPath_append, Function.iterate_succ_apply, Nat.pow_succ', ← Nat.div_div_eq_div_mul]
    exact ih (getElem?_level h)

/-- A path goes on by the step at its upper end. -/
theorem promotedPath_succ (d : Nat) (ls : List α) (i : Nat) :
    promotedPath node (d + 1) ls i = promotedPath node d ls i ++
      (((level node)^[d] ls)[sibling (i / 2 ^ d)]?.map fun s => (decide (i / 2 ^ d % 2 = 1), s)).toList := by
  induction d generalizing ls i with
  | zero => simp [promotedPath]
  | succ d ih =>
    rw [promotedPath, ih, promotedPath, List.append_assoc, Nat.div_div_eq_div_mul, ← Nat.pow_succ',
      Function.iterate_succ_apply]

/-- The levels of a path, one after the other. -/
theorem promotedPath_eq_filterMap (d : Nat) (ls : List α) (i : Nat) :
    promotedPath node d ls i = (List.range d).filterMap fun k =>
      ((level node)^[k] ls)[sibling (i / 2 ^ k)]?.map fun s => (decide (i / 2 ^ k % 2 = 1), s) := by
  induction d with
  | zero => rfl
  | succ d ih =>
    rw [promotedPath_succ, ih, List.range_succ, List.filterMap_append, List.filterMap_cons, List.filterMap_nil]
    cases ((level node)^[d] ls)[sibling (i / 2 ^ d)]? <;> rfl

/-- A node of the next level has two children, or is the last one without a sibling. -/
theorem getElem?_level_cases {ls : List α} {m : Nat} {v : α} (h : (level node ls)[m]? = some v) :
    (∃ a b, ls[2 * m]? = some a ∧ ls[2 * m + 1]? = some b ∧ v = node a b) ∨
      (ls[2 * m]? = some v ∧ ls[2 * m + 1]? = none) := by
  induction ls using level.induct generalizing m with
  | case1 a b rest ih =>
    cases m with
    | zero =>
      cases h
      exact .inl ⟨a, b, rfl, rfl, rfl⟩
    | succ m => exact ih h
  | case2 rest hrest =>
    match rest with
    | [] => cases h
    | [a] =>
      cases m with
      | zero => exact .inr ⟨h, rfl⟩
      | succ m => cases h
    | a :: b :: rest => exact absurd rfl (hrest a b rest)

/-- Where leaves are no inner nodes, a path from such a value to a node is that of one of its leaves. -/
theorem promotedPath_sound (hinj : Function.Injective2 node) {ls : List α}
    (hleaf : ∀ y ∈ ls, ∀ l r, y ≠ node l r) {x : α} (hx : ∀ l r, x ≠ node l r) {d m : Nat}
    {p : List (Bool × α)} (h : ((level node)^[d] ls)[m]? = some (foldPath node x p)) :
    ∃ i, ls[i]? = some x ∧ i / 2 ^ d = m ∧ p = promotedPath node d ls i := by
  induction d generalizing m p with
  | zero =>
    replace h : ls[m]? = some (foldPath node x p) := h
    by_cases hp : p = []
    · subst hp
      exact ⟨m, h, Nat.div_one m, rfl⟩
    · obtain ⟨l, r, hnode⟩ := @exists_foldPath_eq _ node x p hp
      exact absurd hnode (hleaf _ (List.mem_of_getElem? h) l r)
  | succ d ih =>
    rw [Function.iterate_succ_apply'] at h
    rcases getElem?_level_cases h with ⟨a, b, ha, hb, hv⟩ | ⟨ha, hb⟩
    · -- the last step of the path ends in one of the children
      induction p using List.reverseRecOn with
      | nil => exact absurd hv (hx a b)
      | append_singleton p bs _ =>
        obtain ⟨bit, s⟩ := bs
        rw [foldPath_append] at hv
        cases bit with
        | false =>
          obtain ⟨rfl, rfl⟩ := hinj (show node (foldPath node x p) s = node a b from hv)
          obtain ⟨i, hi, hdiv, rfl⟩ := ih ha
          refine ⟨i, hi, by rw [Nat.pow_succ, ← Nat.div_div_eq_div_mul]; omega, ?_⟩
          have hsib : sibling (2 * m) = 2 * m + 1 := by simp [sibling]
          rw [promotedPath_succ, hdiv, hsib, hb]
          simp
        | true =>
          obtain ⟨rfl, rfl⟩ := hinj (show node s (foldPath node x p) = node a b from hv)
          obtain ⟨i, hi, hdiv, rfl⟩ := ih hb
          refine ⟨i, hi, by rw [Nat.pow_succ, ← Nat.div_div_eq_div_mul]; omega, ?_⟩
          have hsib : sibling (2 * m + 1) = 2 * m := by simp [sibling, Nat.add_mod]
          rw [promotedPath_succ, hdiv, hsib, ha]
          simp [Nat.add_mod]
    · obtain ⟨i, hi, hdiv, hp⟩ := ih ha
      refine ⟨i, hi, by rw [Nat.pow_succ, ← Nat.div_div_eq_div_mul]; omega, ?_⟩
      have hsib : sibling (2 * m) = 2 * m + 1 := by simp [sibling]
      rw [promotedPath_succ, hdiv, hsib, hb]
      simpa using hp

end Merkle

inductive ListStoreError where
  | indexOutOfRange
  | depthExceeded
  deriving DecidableEq, Repr

end Pocs
