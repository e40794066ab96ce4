import Pocs.Lib.Merkle
import Pocs.Lib.Checked

/-! # Append-only Merkle trees that grow in depth

A contract sees a lean incremental Merkle tree through three calls. `LeanImt.Lawful` says what they
do: leaves are appended, never zero and never twice, and the root is the root of some tree over the
leaves. `leanImt` keeps one node per level and the index of each leaf. -/

namespace Pocs

inductive LeanImtError where
  | leafCannotBeZero
  | leafAlreadyExists
  deriving DecidableEq, Repr

structure LeanImt (α T : Type) where
  empty : T
  insert : (leaf : α) → T → Except LeanImtError T
  root : T → α
  /-- The leaves in the order of their insertion. -/
  leaves : T → List α

structure LeanImt.Lawful {α T : Type} [Zero α] (L : LeanImt α T) (node : α → α → α) : Prop where
  leaves_empty : L.leaves L.empty = []
  insert : ∀ {leaf t t'}, L.insert leaf t = .ok t' →
    leaf ≠ 0 ∧ leaf ∉ L.leaves t ∧ L.leaves t' = L.leaves t ++ [leaf]
  root_nil : ∀ {t}, L.leaves t = [] → L.root t = 0
  root : ∀ {t}, L.leaves t ≠ [] → Merkle.Spans node (L.leaves t) (L.root t)

def LeanImt.Inserts {α T : Type} [Zero α] (L : LeanImt α T) : Prop :=
  ∀ {leaf t}, leaf ≠ 0 → leaf ∉ L.leaves t → ∃ t', L.insert leaf t = .ok t'

namespace LeanImt.Lawful
variable {α T : Type} [Zero α] {L : LeanImt α T} {node : α → α → α}

/-- The root of the empty tree, or one over its leaves. -/
theorem root_zero_or_spans (h : L.Lawful node) (t : T) :
    L.root t = 0 ∨ Merkle.Spans node (L.leaves t) (L.root t) := by
  by_cases hnil : L.leaves t = []
  · exact .inl (h.root_nil hnil)
  · exact .inr (h.root hnil)

/-- Insertions one after the other append their leaves. -/
theorem insertAll (h : L.Lawful node) {xs : List α} {t t' : T}
    (ht : xs.foldlM (fun t x => L.insert x t) t = .ok t') : L.leaves t' = L.leaves t ++ xs := by
  induction xs generalizing t with
  | nil =>
    obtain rfl : t = t' := by simpa [pure, Except.pure] using ht
    simp
  | cons x xs ih =>
    rw [List.foldlM_cons, bind_eq_ok] at ht
    obtain ⟨t₁, hx, hxs⟩ := ht
    rw [ih hxs, (h.insert hx).2.2, List.append_assoc, List.singleton_append]

/-- The leaves stay pairwise distinct. -/
theorem insertAll_nodup (h : L.Lawful node) {xs : List α} {t t' : T}
    (ht : xs.foldlM (fun t x => L.insert x t) t = .ok t') (hnodup : (L.leaves t).Nodup) :
    (L.leaves t').Nodup := by
  induction xs generalizing t with
  | nil =>
    obtain rfl : t = t' := by simpa [pure, Except.pure] using ht
    exact hnodup
  | cons x xs ih =>
    rw [List.foldlM_cons, bind_eq_ok] at ht
    obtain ⟨t₁, hx, hxs⟩ := ht
    obtain ⟨-, hnew, hleaves⟩ := h.insert hx
    apply ih hxs
    rw [hleaves, List.nodup_append]
    refine ⟨hnodup, List.nodup_singleton x, fun a ha b hb => ?_⟩
    obtain rfl := List.mem_singleton.mp hb
    exact fun hab => hnew (hab ▸ ha)

/-- The root of the tree is a root like the known ones. -/
theorem known {ω : Type} {leaf : ω → α} {word : α → ω} {valid : ω → Bool} (h : L.Lawful node)
    (hword : ∀ a, leaf (word a) = a) {t : T}
    (hvalid : ∀ r, valid r = true → Merkle.Spans node (L.leaves t) (leaf r)) {r : ω}
    (hr : r = word (L.root t) ∨ valid r = true) : leaf r = 0 ∨ Merkle.Spans node (L.leaves t) (leaf r) := by
  rcases hr with rfl | hr
  · rw [hword]
    exact h.root_zero_or_spans t
  · exact .inr (hvalid r hr)

end LeanImt.Lawful

/-! ## A tree of notes

The leaves are what the words that were inserted stand for, and nullifiers are marked as words. -/

structure LeanImt.NotesInv {α ω T : Type} (L : LeanImt α T) (node : α → α → α) (leaf : ω → α) (ok : ω → Bool)
    (marked inserted : List ω) (t : T) (valid spent : ω → Bool) : Prop where
  leaves : L.leaves t = inserted.map leaf
  nodup : (L.leaves t).Nodup
  roots : ∀ r, valid r = true → Merkle.Spans node (L.leaves t) (leaf r)
  nullifiers : ∀ n, spent n = true ↔ n ∈ marked
  marked_nodup : marked.Nodup
  canonical : ∀ n ∈ marked ++ inserted, ok n = true

/-- Fresh words are marked, new leaves inserted, and no root becomes known but the new one. -/
theorem LeanImt.NotesInv.step {α ω T : Type} [Zero α] {L : LeanImt α T} {node : α → α → α} {leaf : ω → α}
    {word : α → ω} {ok valid valid' spent spent' : ω → Bool} {marked inserted ns ls : List ω} {t t' : T}
    (inv : L.NotesInv node leaf ok marked inserted t valid spent) (hL : L.Lawful node)
    (hword : ∀ a, leaf (word a) = a) (canonical : ∀ n ∈ ns ++ ls, ok n = true) (nodup : ns.Nodup)
    (fresh : ∀ n ∈ ns, spent n = false) (marks : ∀ n, spent' n = true ↔ n ∈ ns ∨ spent n = true)
    (tree : (ls.map leaf).foldlM (fun t leaf => L.insert leaf t) t = .ok t')
    (roots : ∀ r, valid' r = true → valid r = true ∨ ls ≠ [] ∧ r = word (L.root t')) :
    L.NotesInv node leaf ok (ns ++ marked) (inserted ++ ls) t' valid' spent' := by
  have hleaves : L.leaves t' = L.leaves t ++ ls.map leaf := hL.insertAll tree
  exact
    { leaves := by rw [hleaves, inv.leaves, List.map_append]
      nodup := hL.insertAll_nodup tree inv.nodup
      roots := fun r hr => by
        rcases roots r hr with hold | ⟨hne, rfl⟩
        · exact (inv.roots r hold).mono (hleaves ▸ List.subset_append_left _ _)
        · rw [hword]
          exact hL.root (by simp [hleaves, hne])
      nullifiers := fun n => by rw [marks, inv.nullifiers, List.mem_append]
      marked_nodup := by
        rw [List.nodup_append]
        refine ⟨nodup, inv.marked_nodup, fun a ha b hb hab => ?_⟩
        have hfresh := fresh a ha
        have hmarked := (inv.nullifiers b).mpr hb
        simp [hab, hmarked] at hfresh
      canonical := fun n hn => by
        rw [List.mem_append, List.mem_append, List.mem_append] at hn
        rcases hn with (hn | hn) | hn | hn
        · exact canonical n (List.mem_append_left _ hn)
        · exact inv.canonical n (List.mem_append_left _ hn)
        · exact inv.canonical n (List.mem_append_right _ hn)
        · exact canonical n (List.mem_append_right _ hn) }

/-! ## One node per level -/

structure LeanImtData (α : Type) where
  size : Nat
  depth : Nat
  sideNodes : Nat → α
  leaves : α → Nat

namespace LeanImtData
variable {α : Type} [DecidableEq α] [Zero α]

def empty : LeanImtData α := ⟨0, 0, fun _ => 0, fun _ => 0⟩

/-- One level of the walk from the new leaf `index` to the root, on the current node and the side
nodes. -/
def climb (node : α → α → α) (index : Nat) (st : α × (Nat → α)) (level : Nat) : α × (Nat → α) :=
  if (index >>> level) &&& 1 = 1 then (node (st.2 level) st.1, st.2)
  else (st.1, Function.update st.2 level st.1)

def insert (node : α → α → α) (leaf : α) (self : LeanImtData α) : Except LeanImtError (LeanImtData α) := do
  failIf (leaf = 0) .leafCannotBeZero
  failIf (self.leaves leaf ≠ 0) .leafAlreadyExists
  let index := self.size
  -- an insertion increases the depth by at most one
  let treeDepth := if 2 ^ self.depth < index + 1 then self.depth + 1 else self.depth
  let (top, sideNodes) := (List.range treeDepth).foldl (climb node index) (leaf, self.sideNodes)
  pure
    { size := index + 1
      depth := treeDepth
      sideNodes := Function.update sideNodes treeDepth top
      leaves := Function.update self.leaves leaf (index + 1) }

def root (self : LeanImtData α) : α := self.sideNodes self.depth

/-- The data of the tree with the leaves `ls`. -/
structure Holds (node : α → α → α) (data : LeanImtData α) (ls : List α) : Prop where
  size : data.size = ls.length
  mem : ∀ x, data.leaves x ≠ 0 ↔ x ∈ ls
  nil : ls = [] → data.depth = 0 ∧ data.sideNodes 0 = 0
  sideNodes : ls ≠ [] → ∀ level ≤ data.depth, Merkle.Spans node ls (data.sideNodes level)

variable {node : α → α → α} {self self' : LeanImtData α} {ls : List α} {leaf : α}

omit [DecidableEq α] in
theorem holds_empty : Holds node (empty : LeanImtData α) [] where
  size := rfl
  mem := by simp [empty]
  nil _ := ⟨rfl, rfl⟩
  sideNodes h := absurd rfl h

omit [DecidableEq α] [Zero α] in
/-- The walk only combines nodes of the tree. -/
theorem climb_spans {index n : Nat} {st : α × (Nat → α)} (htop : Merkle.Spans node ls st.1)
    (hside : ∀ level < n, Merkle.Spans node ls (st.2 level)) :
    ∀ levels : List Nat, (∀ level ∈ levels, level < n) →
      Merkle.Spans node ls (levels.foldl (climb node index) st).1 ∧
        ∀ level < n, Merkle.Spans node ls ((levels.foldl (climb node index) st).2 level) := by
  intro levels
  induction levels generalizing st with
  | nil => exact fun _ => ⟨htop, hside⟩
  | cons level levels ih =>
    intro hlt
    have hlevel := hlt level List.mem_cons_self
    have hrest : ∀ l ∈ levels, l < n := fun l hl => hlt l (List.mem_cons_of_mem _ hl)
    rw [List.foldl_cons]
    unfold climb
    split
    · exact ih (.node (hside level hlevel) htop) hside hrest
    · refine ih htop (fun l hl => ?_) hrest
      rcases eq_or_ne l level with rfl | hne
      · simpa using htop
      · simpa [Function.update_of_ne hne] using hside l hl

theorem Holds.insert (h : Holds node self ls) (hins : self.insert node leaf = .ok self') :
    leaf ≠ 0 ∧ leaf ∉ ls ∧ Holds node self' (ls ++ [leaf]) := by
  simp only [LeanImtData.insert, bind_eq_ok, failIf_eq_ok, pure_eq_ok, not_not] at hins
  obtain ⟨_, hzero, _, hnew, rfl⟩ := hins
  refine ⟨hzero, fun hmem => (h.mem leaf).mpr hmem hnew, ?_⟩
  generalize hdepth : (if 2 ^ self.depth < self.size + 1 then self.depth + 1 else self.depth) = d
  have hd : d ≤ self.depth + 1 := by
    rw [← hdepth]
    split <;> omega
  -- the side nodes that the walk reads belong to the tree; over the empty tree it reads none
  have hside : ∀ level < d, Merkle.Spans node (ls ++ [leaf]) (self.sideNodes level) := by
    intro level hlevel
    refine (h.sideNodes ?_ level (by omega)).mono (List.subset_append_left _ _)
    rintro rfl
    simp [h.size, (h.nil rfl).1] at hdepth
    omega
  have hleaf : Merkle.Spans node (ls ++ [leaf]) leaf := .leaf (by simp)
  obtain ⟨htop, hlevels⟩ := @climb_spans _ node (ls ++ [leaf]) self.size d (leaf, self.sideNodes)
    hleaf hside (List.range d) (fun _ hl => List.mem_range.mp hl)
  exact
    { size := by simp [h.size]
      mem := fun x => by
        rcases eq_or_ne x leaf with rfl | hne
        · simp
        · simp [h.mem x, hne]
      nil := fun hnil => by simp at hnil
      sideNodes := fun _ level hlevel => by
        rcases eq_or_ne level d with rfl | hne
        · simpa using htop
        · simpa [Function.update_of_ne hne] using hlevels level (by
            have : level ≤ d := hlevel
            omega) }

end LeanImtData

/-- The data of a tree together with its leaves. -/
structure LeanImtTree {α : Type} [DecidableEq α] [Zero α] (node : α → α → α) where
  data : LeanImtData α
  leaves : List α
  holds : data.Holds node leaves

section
variable {α : Type} [DecidableEq α] [Zero α] (node : α → α → α)

def LeanImtTree.insert (leaf : α) (t : LeanImtTree node) : Except LeanImtError (LeanImtTree node) :=
  match h : t.data.insert node leaf with
  | .ok data => .ok ⟨data, t.leaves ++ [leaf], (t.holds.insert h).2.2⟩
  | .error e => .error e

/-- The tree of `LeanIMT.sol`. -/
def leanImt : LeanImt α (LeanImtTree node) where
  empty := ⟨.empty, [], LeanImtData.holds_empty⟩
  insert := LeanImtTree.insert node
  root t := t.data.root
  leaves := LeanImtTree.leaves

variable {node}

theorem LeanImtTree.insert_eq_ok {leaf : α} {t t' : LeanImtTree node} : t.insert node leaf = .ok t' ↔
      t.data.insert node leaf = .ok t'.data ∧ t'.leaves = t.leaves ++ [leaf] := by
  unfold LeanImtTree.insert
  split
  · next data h =>
    constructor
    · intro ht
      cases ht
      exact ⟨h, rfl⟩
    · rintro ⟨hdata, hleaves⟩
      cases t'
      cases h.symm.trans hdata
      cases hleaves
      rfl
  · next e h => simp [h]

theorem leanImt_lawful : (leanImt node).Lawful node where
  leaves_empty := rfl
  insert {leaf t t'} h := by
    obtain ⟨hdata, hleaves⟩ := LeanImtTree.insert_eq_ok.mp h
    obtain ⟨hzero, hnew, -⟩ := t.holds.insert hdata
    exact ⟨hzero, hnew, hleaves⟩
  root_nil {t} h := by
    obtain ⟨hdepth, hzero⟩ := t.holds.nil h
    show t.data.sideNodes t.data.depth = 0
    rw [hdepth, hzero]
  root {t} h := t.holds.sideNodes h _ (Nat.le_refl _)

theorem LeanImtTree.exists_insert {leaf : α} {t : LeanImtTree node} {data : LeanImtData α}
    (h : t.data.insert node leaf = .ok data) : ∃ t', t.insert node leaf = .ok t' ∧ t'.data = data :=
  ⟨⟨data, t.leaves ++ [leaf], (t.holds.insert h).2.2⟩, insert_eq_ok.mpr ⟨h, rfl⟩, rfl⟩

theorem LeanImtTree.exists_insert_of_new {leaf : α} {t : LeanImtTree node} (hzero : leaf ≠ 0)
    (hnew : leaf ∉ t.leaves) : ∃ t', t.insert node leaf = .ok t' := by
  have hindex : ¬ t.data.leaves leaf ≠ 0 := fun h => hnew ((t.holds.mem leaf).mp h)
  have hinsert : ∃ data, t.data.insert node leaf = .ok data := by
    simp only [LeanImtData.insert, failIf_neg hzero, failIf_neg hindex, ok_bind]
    exact ⟨_, rfl⟩
  obtain ⟨data, hdata⟩ := hinsert
  obtain ⟨t', ht', -⟩ := exists_insert hdata
  exact ⟨t', ht'⟩

theorem leanImt_inserts : (leanImt node).Inserts :=
  fun hzero hnew => LeanImtTree.exists_insert_of_new hzero hnew

/-- The first leaf is the root. -/
theorem leanImt_insert_first {a : α} (ha : a ≠ 0) :
    ∃ t, (leanImt node).insert a (leanImt node).empty = .ok t ∧ t.data =
      ⟨1, 0, Function.update (fun _ => 0) 0 a, Function.update (fun _ => 0) a 1⟩ := by
  refine LeanImtTree.exists_insert ?_
  simp only [leanImt, LeanImtData.insert, LeanImtData.empty, failIf_neg ha]
  rfl

/-- A tree of one leaf has it as its root. -/
theorem leanImt_root_first {a : α} (ha : a ≠ 0) {t : LeanImtTree node}
    (ht : (leanImt node).insert a (leanImt node).empty = .ok t) : (leanImt node).root t = a := by
  obtain ⟨t', ht', hdata⟩ := @leanImt_insert_first α _ _ node a ha
  obtain rfl : t = t' := Except.ok.inj (ht.symm.trans ht')
  show t.data.root = a
  rw [hdata]
  rfl

/-- The root of two leaves is their node. -/
theorem leanImt_insert_second {a b : α} (hb : b ≠ 0) (hab : b ≠ a) {t : LeanImtTree node}
    (ht : t.data = ⟨1, 0, Function.update (fun _ => 0) 0 a, Function.update (fun _ => 0) a 1⟩) :
    ∃ t', (leanImt node).insert b t = .ok t' ∧ (leanImt node).root t' = node a b := by
  have hnew : ¬ Function.update (fun _ => 0) a 1 b ≠ 0 := by simp [hab]
  have hinsert := @LeanImtTree.exists_insert _ _ _ node b t
    ⟨2, 1, Function.update (Function.update (fun _ => 0) 0 a) 1 (node a b),
      Function.update (Function.update (fun _ => 0) a 1) b 2⟩
    (by
      rw [ht]
      simp only [LeanImtData.insert, failIf_neg hb, failIf_neg hnew]
      rfl)
  obtain ⟨t', hins, hdata⟩ := hinsert
  refine ⟨t', hins, ?_⟩
  show t'.data.root = node a b
  rw [hdata]
  rfl

end

end Pocs
