import Mathlib.Data.Nat.Bitwise
import Mathlib.Tactic

/-! # Binary Merkle trees over an arbitrary node function

A tree is read from a function `f : Nat → α` giving its leaves; `nodeAt node f k i` is node `i` of
level `k`, so the root of a tree of depth `d` is `nodeAt node f d 0`. Authentication paths are lists
of `(bit, sibling)` pairs from the leaf up.

* `foldPath_pathAt`: the path read from the tree folds back to the tree's node (completeness);
* `foldPath_sound`: if `node` is injective, a path that folds to a node of the tree is the path read
  from the tree, and its leaf is the tree's leaf (soundness, for arbitrary siblings);
* `foldPath_pathAt_update`: folding another leaf along the same path gives the root of the updated
  tree.

`Spans` is a tree whose shape is not fixed; `Spans.of_foldPath` is soundness for paths of any
length. -/

namespace Pocs.Merkle

/-- The other child of the parent of node `i`. -/
def sibling (i : Nat) : Nat := if i % 2 = 0 then i + 1 else i - 1

theorem xor_one (i : Nat) : i ^^^ 1 = sibling i := by
  have hmod : (i ^^^ 1) % 2 = (i + 1) % 2 := Nat.xor_mod_two_eq
  have hdiv : (i ^^^ 1) / 2 = i / 2 := by rw [Nat.xor_div_two]; simp
  unfold sibling
  split <;> omega

theorem sibling_ne (i : Nat) : sibling i ≠ i := by
  unfold sibling
  split <;> omega

/-- The number with the given bits, least significant first. -/
def ofBits : List Bool → Nat
  | [] => 0
  | b :: bs => b.toNat + 2 * ofBits bs

section
variable {α : Type _} (node : α → α → α) (f : Nat → α)

/-- Node `i` of level `k` of the perfect binary tree with leaves `f`. -/
def nodeAt : Nat → Nat → α
  | 0, i => f i
  | k + 1, i => node (nodeAt k (2 * i)) (nodeAt k (2 * i + 1))

/-- One step up a path: the bit says whether the current node is the right child. -/
def combine (b : Bool) (s x : α) : α := if b then node s x else node x s

/-- Fold an authentication path from the leaf `x` up. -/
def foldPath : α → List (Bool × α) → α
  | x, [] => x
  | x, (b, s) :: p => foldPath (combine node b s x) p

/-- The path of length `n` above node `i` of level `k`. -/
def pathAt : Nat → Nat → Nat → List (Bool × α)
  | _, 0, _ => []
  | k, n + 1, i => (decide (i % 2 = 1), nodeAt node f k (sibling i)) :: pathAt (k + 1) n (i / 2)

end

variable {α : Type _} {node : α → α → α} {f g : Nat → α}

@[simp] theorem length_pathAt (k n i : Nat) : (pathAt node f k n i).length = n := by
  induction n generalizing k i with
  | zero => rfl
  | succ n ih => simp [pathAt, ih]

theorem combine_nodeAt (k i : Nat) :
    combine node (decide (i % 2 = 1)) (nodeAt node f k (sibling i)) (nodeAt node f k i) =
      nodeAt node f (k + 1) (i / 2) := by
  rcases Nat.mod_two_eq_zero_or_one i with h | h
  · have h2 : 2 * (i / 2) = i := by omega
    simp [combine, nodeAt, sibling, h, h2]
  · have h2 : 2 * (i / 2) = i - 1 := by omega
    have h3 : i - 1 + 1 = i := by omega
    simp [combine, nodeAt, sibling, h, h2, h3]

/-- Completeness: the path read from the tree folds to the tree's node. -/
theorem foldPath_pathAt (k n i : Nat) :
    foldPath node (nodeAt node f k i) (pathAt node f k n i) = nodeAt node f (k + n) (i / 2 ^ n) := by
  induction n generalizing k i with
  | zero => simp [pathAt, foldPath]
  | succ n ih =>
    simp only [pathAt, foldPath, combine_nodeAt, ih]
    rw [Nat.div_div_eq_div_mul, ← Nat.pow_succ', Nat.add_right_comm, Nat.add_assoc]

/-- Soundness: with an injective node function, only the tree's own path reaches the tree's node,
and only from the tree's own leaf. -/
theorem foldPath_sound (hinj : Function.Injective2 node) {p : List (Bool × α)} {x : α} {k i : Nat}
    (h : foldPath node x p = nodeAt node f (k + p.length) i) :
    x = nodeAt node f k (i * 2 ^ p.length + ofBits (p.map (·.1))) ∧
      p = pathAt node f k p.length (i * 2 ^ p.length + ofBits (p.map (·.1))) := by
  induction p generalizing x k with
  | nil => simpa [foldPath, ofBits, pathAt] using h
  | cons bs p ih =>
    obtain ⟨b, s⟩ := bs
    simp only [foldPath, List.length_cons] at h
    rw [← Nat.add_assoc, Nat.add_right_comm] at h
    obtain ⟨hx, hp⟩ := ih h
    simp only [List.map_cons, ofBits, List.length_cons]
    generalize hj : i * 2 ^ p.length + ofBits (p.map (·.1)) = j at hx hp
    have hidx : i * 2 ^ (p.length + 1) + (b.toNat + 2 * ofBits (p.map (·.1))) = 2 * j + b.toNat := by
      rw [← hj, Nat.pow_succ]; ring
    rw [hidx]
    cases b with
    | false =>
      obtain ⟨h1, h2⟩ := hinj (by simpa [combine, nodeAt] using hx)
      have hsib : sibling (2 * j) = 2 * j + 1 := by simp [sibling]
      have hdiv : 2 * j / 2 = j := by omega
      exact ⟨h1, by simpa [pathAt, hsib, hdiv, h2] using hp⟩
    | true =>
      obtain ⟨h1, h2⟩ := hinj (by simpa [combine, nodeAt] using hx)
      have hsib : sibling (2 * j + 1) = 2 * j := by simp [sibling, Nat.add_mod]
      have hdiv : (2 * j + 1) / 2 = j := by omega
      have hmod : (2 * j + 1) % 2 = 1 := by omega
      exact ⟨h2, by simpa [pathAt, hsib, hdiv, hmod, h1] using hp⟩

theorem nodeAt_congr {k i : Nat} (h : ∀ j, j / 2 ^ k = i → f j = g j) :
    nodeAt node f k i = nodeAt node g k i := by
  induction k generalizing i with
  | zero => exact h i (by simp)
  | succ k ih =>
    have hstep : ∀ c, c / 2 = i → ∀ j, j / 2 ^ k = c → f j = g j := fun c hc j hj =>
      h j (by rw [Nat.pow_succ, ← Nat.div_div_eq_div_mul, hj, hc])
    simp only [nodeAt, ih (hstep (2 * i) (by omega)), ih (hstep (2 * i + 1) (by omega))]

/-- Two trees with the same node agree on the leaves below it. -/
theorem nodeAt_inj (hinj : Function.Injective2 node) {k i : Nat}
    (h : nodeAt node f k i = nodeAt node g k i) {j : Nat} (hj : j / 2 ^ k = i) : f j = g j := by
  induction k generalizing i with
  | zero => simp only [Nat.pow_zero, Nat.div_one] at hj; subst hj; exact h
  | succ k ih =>
    obtain ⟨h0, h1⟩ := hinj h
    rw [Nat.pow_succ, ← Nat.div_div_eq_div_mul] at hj
    rcases Nat.mod_two_eq_zero_or_one (j / 2 ^ k) with hm | hm
    · exact ih h0 (by omega)
    · exact ih h1 (by omega)

/-- The first level of hashing can be done before the others. -/
theorem nodeAt_pairs (k i : Nat) :
    nodeAt node (fun j => node (f (2 * j)) (f (2 * j + 1))) k i = nodeAt node f (k + 1) i := by
  induction k generalizing i with
  | zero => rfl
  | succ k ih =>
    rw [nodeAt, ih, ih]
    rfl

theorem nodeAt_update_of_ne {k i j : Nat} {x : α} (h : j / 2 ^ k ≠ i) :
    nodeAt node (Function.update f j x) k i = nodeAt node f k i :=
  nodeAt_congr fun j' hj' => Function.update_of_ne (fun he => h (by rw [← he, hj'])) _ _

theorem pathAt_update {x : α} (k n i : Nat) :
    pathAt node (Function.update f i x) k n (i / 2 ^ k) = pathAt node f k n (i / 2 ^ k) := by
  induction n generalizing k with
  | zero => rfl
  | succ n ih =>
    have hnext : i / 2 ^ k / 2 = i / 2 ^ (k + 1) := by rw [Nat.div_div_eq_div_mul, Nat.pow_succ]
    simp only [pathAt, hnext, ih, nodeAt_update_of_ne (sibling_ne (i / 2 ^ k)).symm]

/-- Folding another leaf along the tree's path gives the node of the updated tree. -/
theorem foldPath_pathAt_update (n i : Nat) (x : α) : foldPath node x (pathAt node f 0 n i) =
      nodeAt node (Function.update f i x) n (i / 2 ^ n) := by
  have h := @foldPath_pathAt _ node (Function.update f i x) 0 n i
  have hp := @pathAt_update _ node f x 0 n i
  simp only [Nat.pow_zero, Nat.div_one] at hp
  simpa [hp, nodeAt] using h

/-! ## Paths in arrays -/

def arrayPath {n : Nat} (indices : Fin n → Bool) (siblings : Fin n → α) : List (Bool × α) :=
  List.ofFn fun i => (indices i, siblings i)

@[simp] theorem length_arrayPath {n : Nat} (indices : Fin n → Bool) (siblings : Fin n → α) :
    (arrayPath indices siblings).length = n :=
  List.length_ofFn

@[simp] theorem map_fst_arrayPath {n : Nat} (indices : Fin n → Bool) (siblings : Fin n → α) :
    (arrayPath indices siblings).map (·.1) = List.ofFn indices := by
  rw [arrayPath, List.map_ofFn]
  rfl

/-- The bits of an index spell it. -/
theorem ofBits_ofFn (n x : Nat) : ofBits (List.ofFn fun i : Fin n => (x >>> i.val) &&& 1 == 1) = x % 2 ^ n := by
  induction n generalizing x with
  | zero => simp [ofBits, Nat.mod_one]
  | succ n ih =>
    have hshift : ∀ i : Nat, x >>> (i + 1) = (x / 2) >>> i := by
      intro i
      rw [Nat.add_comm, Nat.shiftRight_add, Nat.shiftRight_one]
    have hbit : (x &&& 1 == 1).toNat = x % 2 := by
      rw [Nat.and_one_is_mod]
      rcases Nat.mod_two_eq_zero_or_one x with h | h <;> simp [h]
    simp only [List.ofFn_succ, ofBits, Fin.val_zero, Fin.val_succ, Nat.shiftRight_zero, hshift, ih, hbit,
      Nat.pow_succ', Nat.mod_mul]

/-- The arrays of the path that a tree holds above a leaf. -/
theorem arrayPath_pathAt (node : α → α → α) (f : Nat → α) (n i : Nat) :
    arrayPath (fun j : Fin n => (i >>> j.val) &&& 1 == 1)
      (fun j => nodeAt node f j.val (sibling (i >>> j.val))) = pathAt node f 0 n i := by
  have hpath : ∀ n k, (List.ofFn fun j : Fin n => (((i >>> k) >>> j.val) &&& 1 == 1,
      nodeAt node f (k + j.val) (sibling ((i >>> k) >>> j.val)))) = pathAt node f k n (i >>> k) := by
    intro n
    induction n with
    | zero => intro k; rfl
    | succ n ih =>
      intro k
      have hnext : i >>> k / 2 = i >>> (k + 1) := by
        rw [Nat.shiftRight_succ]
      have htail := ih (k + 1)
      simp only [pathAt, List.ofFn_succ, Fin.val_zero, Fin.val_succ, Nat.shiftRight_zero,
        Nat.add_zero, Nat.and_one_is_mod, hnext, ← htail]
      congr 2
      funext j
      have hk : k + (j.val + 1) = k + 1 + j.val := by omega
      have hsh : i >>> k >>> (j.val + 1) = i >>> (k + 1) >>> j.val := by
        rw [← Nat.shiftRight_add, ← Nat.shiftRight_add, hk]
      rw [hsh, hk]
  simpa [arrayPath] using hpath n 0

/-- Arrays that fold to the root of a tree are the tree's own path. -/
theorem arrayPath_sound (hinj : Function.Injective2 node) {n : Nat} {x : α} {indices : Fin n → Bool}
    {siblings : Fin n → α} (h : foldPath node x (arrayPath indices siblings) = nodeAt node f n 0) :
    x = f (ofBits (List.ofFn indices)) ∧
      arrayPath indices siblings = pathAt node f 0 n (ofBits (List.ofFn indices)) := by
  have hroot : foldPath node x (arrayPath indices siblings) =
      nodeAt node f (0 + (arrayPath indices siblings).length) 0 := by
    rw [length_arrayPath, Nat.zero_add]
    exact h
  obtain ⟨hx, hp⟩ := foldPath_sound hinj hroot
  simp only [Nat.zero_mul, Nat.zero_add, length_arrayPath, map_fst_arrayPath, nodeAt] at hx hp
  exact ⟨hx, hp⟩

theorem foldPath_append (x : α) (p q : List (Bool × α)) :
    foldPath node x (p ++ q) = foldPath node (foldPath node x p) q := by
  induction p generalizing x with
  | nil => rfl
  | cons bs p ih => exact ih _

/-- A path that is not empty ends in an inner node. -/
theorem exists_foldPath_eq (x : α) {p : List (Bool × α)} (hp : p ≠ []) :
    ∃ l r, foldPath node x p = node l r := by
  induction p using List.reverseRecOn with
  | nil => exact absurd rfl hp
  | append_singleton p bs _ =>
    obtain ⟨b, s⟩ := bs
    rw [foldPath_append]
    cases b with
    | false => exact ⟨_, _, rfl⟩
    | true => exact ⟨_, _, rfl⟩

theorem ofBits_lt (bs : List Bool) : ofBits bs < 2 ^ bs.length := by
  induction bs with
  | nil => exact Nat.one_pos
  | cons b bs ih =>
    have hb := b.toNat_le
    rw [ofBits, List.length_cons, Nat.pow_succ]
    omega

/-- The bits of a tree's own path spell the position. -/
theorem ofBits_pathAt (k n i : Nat) : ofBits ((pathAt node f k n i).map (·.1)) = i % 2 ^ n := by
  induction n generalizing k i with
  | zero => rw [Nat.pow_zero, Nat.mod_one, pathAt, List.map_nil, ofBits]
  | succ n ih =>
    rw [pathAt, List.map_cons, ofBits, ih, Nat.pow_succ', Nat.mod_mul]
    rcases Nat.mod_two_eq_zero_or_one i with h | h
    · simp [h]
    · simp [h]

/-! ## Paths by index -/

/-- The siblings with the bits of the index. -/
def indexPath : Nat → List α → List (Bool × α)
  | _, [] => []
  | index, sibling :: proof => (decide (index % 2 = 1), sibling) :: indexPath (index / 2) proof

theorem map_snd_indexPath (index : Nat) (proof : List α) : (indexPath index proof).map (·.2) = proof := by
  induction proof generalizing index with
  | nil => rfl
  | cons sibling proof ih => rw [indexPath, List.map_cons, ih]

@[simp] theorem length_indexPath (index : Nat) (proof : List α) :
    (indexPath index proof).length = proof.length := by
  have hlen := congrArg List.length (map_snd_indexPath index proof)
  rwa [List.length_map] at hlen

theorem ofBits_indexPath (index : Nat) (proof : List α) :
    ofBits ((indexPath index proof).map (·.1)) = index % 2 ^ proof.length := by
  induction proof generalizing index with
  | nil => rw [List.length_nil, Nat.pow_zero, Nat.mod_one, indexPath, List.map_nil, ofBits]
  | cons sibling proof ih =>
    rw [indexPath, List.map_cons, ofBits, ih, List.length_cons, Nat.pow_succ', Nat.mod_mul]
    rcases Nat.mod_two_eq_zero_or_one index with h | h
    · simp [h]
    · simp [h]

/-- The siblings of a tree's own path. -/
theorem indexPath_pathAt (k n i : Nat) :
    indexPath i ((pathAt node f k n i).map (·.2)) = pathAt node f k n i := by
  induction n generalizing k i with
  | zero => rfl
  | succ n ih => rw [pathAt, List.map_cons, indexPath, ih]

/-- Only the low bits of an index are read. -/
theorem indexPath_mod (index : Nat) {n : Nat} {proof : List α} (h : proof.length ≤ n) :
    indexPath (index % 2 ^ n) proof = indexPath index proof := by
  induction proof generalizing index n with
  | nil => rfl
  | cons sibling proof ih =>
    obtain ⟨n, rfl⟩ := Nat.exists_eq_add_of_le' (Nat.zero_lt_of_lt h)
    have hmod : index % 2 ^ (n + 1) % 2 = index % 2 := by
      rw [Nat.pow_succ, Nat.mod_mul_left_mod]
    have hdiv : index % 2 ^ (n + 1) / 2 = index / 2 % 2 ^ n := by
      rw [Nat.pow_succ', Nat.mod_mul_right_div_self]
    rw [indexPath, indexPath, hmod, hdiv, ih (index / 2) (Nat.le_of_succ_le_succ h)]

/-- Siblings that fold to the root of a tree are those of the tree's own path. -/
theorem indexPath_sound (hinj : Function.Injective2 node) {x : α} {index n : Nat} {proof : List α}
    (hlen : proof.length = n) (h : foldPath node x (indexPath index proof) = nodeAt node f n 0) :
    x = f (index % 2 ^ n) ∧ proof = (pathAt node f 0 n (index % 2 ^ n)).map (·.2) := by
  have hroot : foldPath node x (indexPath index proof) =
      nodeAt node f (0 + (indexPath index proof).length) 0 := by
    rw [length_indexPath, Nat.zero_add, hlen, h]
  obtain ⟨hx, hp⟩ := foldPath_sound hinj hroot
  rw [Nat.zero_mul, Nat.zero_add, ofBits_indexPath, hlen] at hx hp
  refine ⟨hx, ?_⟩
  rw [length_indexPath, hlen] at hp
  rw [← hp, map_snd_indexPath]

/-! ## Lists of leaves -/

/-- One more leaf of a list that is read with a default. -/
theorem getD_concat (leaves : List α) (leaf d : α) :
    (fun j => (leaves ++ [leaf]).getD j d) = Function.update (fun j => leaves.getD j d) leaves.length leaf := by
  funext j
  rcases Nat.lt_trichotomy j leaves.length with hlt | rfl | hgt
  · rw [Function.update_of_ne (Nat.ne_of_lt hlt), List.getD_append _ _ _ _ hlt]
  · rw [Function.update_self, List.getD_append_right _ _ _ _ (Nat.le_refl _), Nat.sub_self]
    rfl
  · rw [Function.update_of_ne (Nat.ne_of_gt hgt), List.getD_eq_default, List.getD_eq_default _ _ (Nat.le_of_lt hgt)]
    rw [List.length_append, List.length_singleton]
    omega

/-- With leaves that are no inner nodes, a path from such a value to the root has the length of the tree,
starts at a leaf and is the tree's own. -/
theorem foldPath_eq_root (hinj : Function.Injective2 node) (hleaf : ∀ i l r, f i ≠ node l r) {x : α}
    (hx : ∀ l r, x ≠ node l r) {p : List (Bool × α)} {d : Nat} (h : foldPath node x p = nodeAt node f d 0) :
    p.length = d ∧ x = f (ofBits (p.map (·.1))) ∧ p = pathAt node f 0 d (ofBits (p.map (·.1))) := by
  rcases Nat.lt_trichotomy p.length d with hlt | rfl | hgt
  · obtain ⟨k, rfl⟩ := Nat.exists_eq_add_of_lt hlt
    rw [Nat.add_assoc, Nat.add_comm] at h
    exact absurd (foldPath_sound hinj h).1 (hx _ _)
  · rw [← Nat.zero_add p.length] at h
    obtain ⟨hxf, hp⟩ := foldPath_sound hinj h
    rw [Nat.zero_mul, Nat.zero_add] at hxf hp
    exact ⟨rfl, hxf, hp⟩
  · -- the lower part of the path would end in a leaf
    have hsplit := List.take_append_drop (p.length - d) p
    have hlen : (p.drop (p.length - d)).length = 0 + d := by
      rw [List.length_drop]
      omega
    have hupper : foldPath node (foldPath node x (p.take (p.length - d))) (p.drop (p.length - d)) =
        nodeAt node f (0 + (p.drop (p.length - d)).length) 0 := by
      rw [hlen, Nat.zero_add, Nat.zero_add, ← foldPath_append, hsplit, h]
    obtain ⟨hbelow, -⟩ := foldPath_sound hinj hupper
    obtain ⟨l, r, hnode⟩ := @exists_foldPath_eq _ node x (p.take (p.length - d))
      (List.ne_nil_of_length_pos (by rw [List.length_take]; omega))
    exact absurd (hbelow.symm.trans hnode) (hleaf _ _ _)

/-- A node of a tree whose leaves are no inner nodes is on one level only. -/
theorem level_eq_of_nodeAt (hinj : Function.Injective2 node) (hf : ∀ i l r, f i ≠ node l r)
    (hg : ∀ i l r, g i ≠ node l r) {k m i j : Nat} (h : nodeAt node f k i = nodeAt node g m j) : k = m := by
  induction k generalizing m i j with
  | zero =>
    cases m with
    | zero => rfl
    | succ m => exact absurd h (hf _ _ _)
  | succ k ih =>
    cases m with
    | zero => exact absurd h.symm (hg _ _ _)
    | succ m =>
      obtain ⟨hleft, -⟩ := hinj h
      rw [ih hleft]

/-- The bits above level `k`. -/
theorem ofBits_div (bs : List Bool) (k : Nat) : ofBits bs / 2 ^ k = ofBits (bs.drop k) := by
  induction k generalizing bs with
  | zero => rw [Nat.pow_zero, Nat.div_one, List.drop_zero]
  | succ k ih =>
    cases bs with
    | nil => exact Nat.zero_div _
    | cons b bs =>
      have hhalf : ofBits (b :: bs) / 2 = ofBits bs := by
        have hb := b.toNat_le
        rw [ofBits]
        omega
      rw [Nat.pow_succ', ← Nat.div_div_eq_div_mul, hhalf, ih, List.drop_succ_cons]

/-- The bit of level `k`. -/
theorem ofBits_bit {bs : List Bool} {k : Nat} {b : Bool} (h : bs[k]? = some b) :
    ofBits bs / 2 ^ k % 2 = b.toNat := by
  have hb := b.toNat_le
  obtain ⟨hlt, rfl⟩ := List.getElem?_eq_some_iff.mp h
  rw [ofBits_div, List.drop_eq_getElem_cons hlt, ofBits]
  omega

/-- A path continues as the path of the node it has reached. -/
theorem pathAt_add (k m n i : Nat) :
    pathAt node f k (m + n) i = pathAt node f k m i ++ pathAt node f (k + m) n (i / 2 ^ m) := by
  induction m generalizing k i with
  | zero => rw [Nat.zero_add, Nat.pow_zero, Nat.div_one, pathAt, List.nil_append, Nat.add_zero]
  | succ m ih =>
    rw [Nat.succ_add, pathAt, pathAt, ih, Nat.div_div_eq_div_mul, ← Nat.pow_succ', List.cons_append,
      Nat.add_right_comm, Nat.add_assoc]

/-- Where the paths of two leaves meet, each is in the path of the other. -/
theorem combine_of_sibling {j s r : Nat} (hlow : s / 2 ^ j ≠ r / 2 ^ j)
    (hhigh : s / 2 ^ (j + 1) = r / 2 ^ (j + 1)) :
    combine node (decide (s / 2 ^ j % 2 = 1)) (nodeAt node f j (r / 2 ^ j)) (nodeAt node f j (s / 2 ^ j)) =
      nodeAt node f (j + 1) (s / 2 ^ (j + 1)) := by
  rw [Nat.pow_succ, ← Nat.div_div_eq_div_mul, ← Nat.div_div_eq_div_mul] at hhigh
  have hsibling : r / 2 ^ j = sibling (s / 2 ^ j) := by
    generalize s / 2 ^ j = a at *
    generalize r / 2 ^ j = b at *
    unfold sibling
    split
    · omega
    · omega
  rw [hsibling, combine_nodeAt, Nat.pow_succ, Nat.div_div_eq_div_mul]

/-- The root after two leaves changed, from the paths of both before: up to the level on which the paths
meet, then along one of them. -/
theorem foldPath_two_leaves {d j s r : Nat} (hj : j < d) (hlow : s / 2 ^ j ≠ r / 2 ^ j)
    (hhigh : s / 2 ^ (j + 1) = r / 2 ^ (j + 1)) (x y : α) : foldPath node
        (combine node (decide (s / 2 ^ j % 2 = 1)) (foldPath node y (pathAt node f 0 j r))
          (foldPath node x (pathAt node f 0 j s))) (pathAt node f (j + 1) (d - (j + 1)) (s / 2 ^ (j + 1))) =
      nodeAt node (Function.update (Function.update f s x) r y) d (s / 2 ^ d) := by
  have hx : foldPath node x (pathAt node f 0 j s) =
      nodeAt node (Function.update (Function.update f s x) r y) j (s / 2 ^ j) := by
    rw [foldPath_pathAt_update, nodeAt_update_of_ne hlow.symm]
  have hne : s ≠ r := fun h => hlow (h ▸ rfl)
  have hy : foldPath node y (pathAt node f 0 j r) =
      nodeAt node (Function.update (Function.update f s x) r y) j (r / 2 ^ j) := by
    rw [foldPath_pathAt_update, Function.update_comm hne, nodeAt_update_of_ne hlow]
  have hpath : pathAt node f (j + 1) (d - (j + 1)) (s / 2 ^ (j + 1)) =
      pathAt node (Function.update (Function.update f s x) r y) (j + 1) (d - (j + 1)) (s / 2 ^ (j + 1)) := by
    rw [hhigh, pathAt_update, ← hhigh, pathAt_update]
  rw [hx, hy, combine_of_sibling hlow hhigh, hpath, foldPath_pathAt, Nat.div_div_eq_div_mul, ← Nat.pow_add,
    Nat.add_sub_cancel' hj]

/-! ## Trees of any shape -/

/-- The nodes of the trees that can be built over some leaves. -/
inductive Spans (node : α → α → α) (leaves : List α) : α → Prop where
  | leaf {x : α} (mem : x ∈ leaves) : Spans node leaves x
  | node {l r : α} (left : Spans node leaves l) (right : Spans node leaves r) : Spans node leaves (node l r)

namespace Spans
variable {leaves leaves' : List α} {x : α}

theorem mono (h : Spans node leaves x) (hsub : leaves ⊆ leaves') : Spans node leaves' x := by
  induction h with
  | leaf mem => exact .leaf (hsub mem)
  | node _ _ ihl ihr => exact .node ihl ihr

/-- What is not an inner node is a leaf. -/
theorem mem (h : Spans node leaves x) (hx : ∀ l r, x ≠ node l r) : x ∈ leaves := by
  cases h with
  | leaf mem => exact mem
  | node _ _ => exact absurd rfl (hx _ _)

/-- A node over which a path folds to a node of a tree is in the tree too, however long the path:
no path continues below a leaf. -/
theorem of_foldPath (hinj : Function.Injective2 node) (hleaf : ∀ y ∈ leaves, ∀ l r, y ≠ node l r)
    {p : List (Bool × α)} (h : Spans node leaves (foldPath node x p)) : Spans node leaves x := by
  induction p generalizing x with
  | nil => exact h
  | cons bs p ih =>
    obtain ⟨b, s⟩ := bs
    have hparent := ih h
    generalize hy : combine node b s x = y at hparent
    cases hparent with
    | leaf mem =>
      cases b with
      | false => exact absurd hy.symm (hleaf y mem _ _)
      | true => exact absurd hy.symm (hleaf y mem _ _)
    | node left right =>
      cases b with
      | false =>
        obtain ⟨rfl, -⟩ := hinj hy
        exact left
      | true =>
        obtain ⟨-, rfl⟩ := hinj hy
        exact right

end Spans

/-- A loop over a fixed number of levels that stops hashing at a runtime depth folds a path. -/
theorem foldl_ite_eq_foldPath {n : Nat} (levels : List (Fin n)) (depth : Nat) (bits : Fin n → Bool)
    (siblings : Fin n → α) (x : α) :
    levels.foldl (fun y i => if i.val < depth then combine node (bits i) (siblings i) y else y) x =
      foldPath node x ((levels.filter fun i => i.val < depth).map fun i => (bits i, siblings i)) := by
  induction levels generalizing x with
  | nil => rfl
  | cons i levels ih =>
    by_cases h : i.val < depth
    · simp [h, ih, foldPath]
    · simp [h, ih]

/-- A loop over the levels of two arrays folds their path. -/
theorem foldl_eq_foldPath {n : Nat} (bits : Fin n → Bool) (siblings : Fin n → α) (x : α) :
    (List.finRange n).foldl (fun y i => combine node (bits i) (siblings i) y) x =
      foldPath node x (arrayPath bits siblings) := by
  have hlevels : ∀ (levels : List (Fin n)) (x : α),
      levels.foldl (fun y i => combine node (bits i) (siblings i) y) x =
        foldPath node x (levels.map fun i => (bits i, siblings i)) := by
    intro levels
    induction levels with
    | nil => exact fun _ => rfl
    | cons i levels ih => exact fun _ => ih _
  rw [hlevels, arrayPath, List.ofFn_eq_map]

/-- Root of the tree of height `k` whose leaves are all `e`. -/
def emptyNode (node : α → α → α) (e : α) : Nat → α
  | 0 => e
  | k + 1 => node (emptyNode node e k) (emptyNode node e k)

theorem nodeAt_const (e : α) (k i : Nat) : nodeAt node (fun _ => e) k i = emptyNode node e k := by
  induction k generalizing i with
  | zero => rfl
  | succ k ih => simp [nodeAt, emptyNode, ih]

/-! ## Levels of a padded list -/

/-- The level over a list of nodes, the last of which is hashed with `e` where it has no sibling. -/
def padLevel (node : α → α → α) (e : α) : List α → List α
  | [] => []
  | [x] => [node x e]
  | x :: y :: rest => node x y :: padLevel node e rest

/-- Level `k` over the leaves, each level padded with the root of an empty subtree. -/
def padLevels (node : α → α → α) (e : α) (leaves : List α) : Nat → List α
  | 0 => leaves
  | k + 1 => padLevel node (emptyNode node e k) (padLevels node e leaves k)

theorem padLevel_ne_nil {e : α} {ls : List α} (h : ls ≠ []) : padLevel node e ls ≠ [] := by
  cases ls using padLevel.fun_cases with
  | case1 => exact absurd rfl h
  | case2 x => exact List.cons_ne_nil _ _
  | case3 x y rest => exact List.cons_ne_nil _ _

theorem getD_padLevel (e : α) (ls : List α) (j : Nat) :
    (padLevel node e ls).getD j (node e e) = node (ls.getD (2 * j) e) (ls.getD (2 * j + 1) e) := by
  induction ls using padLevel.induct generalizing j with
  | case1 => rfl
  | case2 x =>
    cases j with
    | zero => rfl
    | succ j => rfl
  | case3 x y rest ih =>
    cases j with
    | zero => rfl
    | succ j => exact ih j

theorem getD_padLevels (e : α) (leaves : List α) (k j : Nat) :
    (padLevels node e leaves k).getD j (emptyNode node e k) = nodeAt node (fun i => leaves.getD i e) k j := by
  induction k generalizing j with
  | zero => rfl
  | succ k ih => rw [padLevels, emptyNode, getD_padLevel, ih, ih, nodeAt]

section
variable {β : Type _} {node' : β → β → β} {φ : α → β}

theorem nodeAt_map (hφ : ∀ a b, φ (node a b) = node' (φ a) (φ b)) (k i : Nat) :
    φ (nodeAt node f k i) = nodeAt node' (fun j => φ (f j)) k i := by
  induction k generalizing i with
  | zero => rfl
  | succ k ih => rw [nodeAt, nodeAt, hφ, ih, ih]

theorem map_snd_pathAt (hφ : ∀ a b, φ (node a b) = node' (φ a) (φ b)) (k n i : Nat) :
    ((pathAt node f k n i).map (·.2)).map φ = (pathAt node' (fun j => φ (f j)) k n i).map (·.2) := by
  induction n generalizing k i with
  | zero => rfl
  | succ n ih => rw [pathAt, List.map_cons, List.map_cons, ih, nodeAt_map hφ, pathAt, List.map_cons]

theorem foldPath_map (hφ : ∀ a b, φ (node a b) = node' (φ a) (φ b)) (x : α) (index : Nat) (proof : List α) :
    φ (foldPath node x (indexPath index proof)) = foldPath node' (φ x) (indexPath index (proof.map φ)) := by
  induction proof generalizing x index with
  | nil => rfl
  | cons sibling proof ih =>
    have hstep : φ (combine node (decide (index % 2 = 1)) sibling x) =
        combine node' (decide (index % 2 = 1)) (φ sibling) (φ x) := by
      unfold combine
      split
      · exact hφ _ _
      · exact hφ _ _
    rw [indexPath, List.map_cons, indexPath, foldPath, foldPath, ih, hstep]

end

end Pocs.Merkle
