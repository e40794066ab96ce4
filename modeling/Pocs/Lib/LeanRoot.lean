import Pocs.Lib.LeanImt
import Pocs.Lib.MerkleStore

/-! # The root of a lean incremental Merkle tree

`leanRoot` hashes the leaves level by level, as a tree without a fixed depth does. With a collision-free
node function that never folds back to where it started, lists of which one continues the other have
different roots (`leanRoot_append_ne`). `AppendStore` is the tree of an off-chain party and
`LeanImt.Rooted` that of a contract, both with this root. -/

namespace Pocs

namespace Merkle
variable {α : Type} (node : α → α → α)

def leanRoot (ls : List α) : Option α := ((level node)^[ls.length] ls)[0]?

variable {node} {ls : List α}

/-- The lists on which `level` stops. -/
theorem eq_nil_or_singleton (h : ∀ a b rest, ls = a :: b :: rest → False) : ls = [] ∨ ∃ a, ls = [a] := by
  cases ls with
  | nil => exact .inl rfl
  | cons a rest =>
    cases rest with
    | nil => exact .inr ⟨a, rfl⟩
    | cons b rest => exact (h a b rest rfl).elim

theorem length_level (ls : List α) : (level node ls).length = (ls.length + 1) / 2 := by
  induction ls using level.induct with
  | case1 a b rest ih =>
    rw [level, List.length_cons, ih, List.length_cons, List.length_cons]
    omega
  | case2 rest hrest =>
    rcases eq_nil_or_singleton hrest with rfl | ⟨a, rfl⟩
    · simp [level]
    · simp [level]

/-- The number of nodes of a level over `n` leaves. -/
def levelSize (n k : Nat) : Nat := (fun size => (size + 1) / 2)^[k] n

theorem levelSize_succ (n k : Nat) : levelSize n (k + 1) = levelSize ((n + 1) / 2) k := rfl

theorem length_iterate_level_eq (ls : List α) (k : Nat) :
    ((level node)^[k] ls).length = levelSize ls.length k := by
  induction k generalizing ls with
  | zero => rfl
  | succ k ih => rw [Function.iterate_succ_apply, ih, length_level, levelSize_succ]

theorem length_iterate_level {d : Nat} (hne : ls ≠ []) (hlen : ls.length ≤ 2 ^ d) :
    ((level node)^[d] ls).length = 1 := by
  induction d generalizing ls with
  | zero =>
    have hpos := List.length_pos_iff.mpr hne
    rw [Nat.pow_zero] at hlen
    show ls.length = 1
    omega
  | succ d ih =>
    have hpos := List.length_pos_iff.mpr hne
    rw [Nat.pow_succ] at hlen
    have hlevel := @length_level _ node ls
    rw [Function.iterate_succ_apply]
    apply ih
    · exact List.ne_nil_of_length_pos (by omega)
    · omega

/-- Levels above the last one add nothing to a path. -/
theorem promotedPath_of_le {d m i : Nat} (hi : i < ls.length) (hlen : ls.length ≤ 2 ^ d) (hdm : d ≤ m) :
    promotedPath node m ls i = promotedPath node d ls i := by
  induction m, hdm using Nat.le_induction with
  | base => rfl
  | succ m hdm ih =>
    have hpow : 2 ^ d ≤ 2 ^ m := Nat.pow_le_pow_right (by decide) hdm
    have htop := @length_iterate_level _ node ls m (List.ne_nil_of_length_pos (by omega)) (hlen.trans hpow)
    rw [promotedPath_succ, Nat.div_eq_of_lt (by omega), List.getElem?_eq_none (by rw [htop]; decide), ih]
    exact List.append_nil _

/-- Levels above the last one change nothing. -/
theorem iterate_level_singleton (d : Nat) (a : α) : (level node)^[d] [a] = [a] :=
  Function.iterate_fixed rfl d

/-- The levels of any sufficient number end in the root. -/
theorem iterate_level_eq {d : Nat} (hne : ls ≠ []) (hlen : ls.length ≤ 2 ^ d) {r : α} :
    (level node)^[d] ls = [r] ↔ leanRoot node ls = some r := by
  -- both numbers of levels are reached from the smaller one
  have hlast : ∀ {d d'}, d ≤ d' → ls.length ≤ 2 ^ d → (level node)^[d'] ls = (level node)^[d] ls := by
    intro d d' hle hlen
    obtain ⟨k, rfl⟩ := Nat.exists_eq_add_of_le hle
    obtain ⟨a, ha⟩ := List.length_eq_one_iff.mp (@length_iterate_level _ node _ _ hne hlen)
    rw [Nat.add_comm, Function.iterate_add_apply, ha, iterate_level_singleton]
  have hsame : (level node)^[d] ls = (level node)^[ls.length] ls := by
    rcases Nat.le_total d ls.length with hle | hle
    · exact (hlast hle hlen).symm
    · exact hlast hle Nat.lt_two_pow_self.le
  obtain ⟨a, ha⟩ := List.length_eq_one_iff.mp
    (@length_iterate_level _ node _ _ hne (Nat.lt_two_pow_self (n := ls.length)).le)
  rw [hsame, leanRoot, ha]
  simp

theorem exists_leanRoot (hne : ls ≠ []) : ∃ r, leanRoot node ls = some r := by
  obtain ⟨r, hr⟩ := List.length_eq_one_iff.mp
    (@length_iterate_level _ node _ _ hne (Nat.lt_two_pow_self (n := ls.length)).le)
  exact ⟨r, (iterate_level_eq hne Nat.lt_two_pow_self.le).mp hr⟩

/-- Full blocks of leaves are hashed apart from what follows. -/
theorem level_append {xs ys : List α} (h : xs.length % 2 = 0) :
    level node (xs ++ ys) = level node xs ++ level node ys := by
  induction xs using level.induct with
  | case1 a b rest ih =>
    rw [List.length_cons, List.length_cons] at h
    rw [List.cons_append, List.cons_append, level, level, List.cons_append, ih (by omega)]
  | case2 rest hrest =>
    rcases eq_nil_or_singleton hrest with rfl | ⟨a, rfl⟩
    · rfl
    · simp at h

theorem iterate_level_append {d : Nat} {xs ys : List α} (h : xs.length % 2 ^ d = 0) :
    (level node)^[d] (xs ++ ys) = (level node)^[d] xs ++ (level node)^[d] ys := by
  induction d generalizing xs ys with
  | zero => rfl
  | succ d ih =>
    rw [Nat.pow_succ] at h
    obtain ⟨k, hk⟩ := Nat.dvd_of_mod_eq_zero h
    rw [Function.iterate_succ_apply, level_append (by rw [hk, Nat.mul_assoc, Nat.mul_left_comm]; simp)]
    apply ih
    have hlevel := @length_level _ node xs
    have hhalf : (xs.length + 1) / 2 = 2 ^ d * k := by
      rw [hk, Nat.mul_assoc, Nat.mul_left_comm]
      omega
    rw [hlevel, hhalf, Nat.mul_mod_right]

/-- The root over more than `2 ^ d` leaves and at most twice as many. -/
theorem leanRoot_split {d : Nat} {xs ys : List α} (hxs : xs.length = 2 ^ d) (hne : ys ≠ [])
    (hys : ys.length ≤ 2 ^ d) {a b : α} (ha : leanRoot node xs = some a)
    (hb : leanRoot node ys = some b) : leanRoot node (xs ++ ys) = some (node a b) := by
  have hxs_ne : xs ≠ [] := List.ne_nil_of_length_pos (hxs ▸ Nat.two_pow_pos d)
  apply (@iterate_level_eq _ node (xs ++ ys) (d + 1) (List.append_ne_nil_of_left_ne_nil hxs_ne ys)
    (by rw [List.length_append, Nat.pow_succ]; omega)).mp
  rw [Function.iterate_succ_apply', iterate_level_append (by rw [hxs, Nat.mod_self]),
    (iterate_level_eq hxs_ne hxs.le).mpr ha, (iterate_level_eq hne hys).mpr hb]
  rfl

/-- What nodes keep holds of a level if it does of the one below. -/
theorem forall_mem_level {P : α → Prop} (hnode : ∀ a b, P a → P b → P (node a b))
    (h : ∀ x ∈ ls, P x) : ∀ x ∈ level node ls, P x := by
  induction ls using level.induct with
  | case1 a b rest ih =>
    simp only [List.forall_mem_cons] at h
    rw [level, List.forall_mem_cons]
    exact ⟨hnode a b h.1 h.2.1, ih h.2.2⟩
  | case2 rest hrest =>
    rcases eq_nil_or_singleton hrest with rfl | ⟨a, rfl⟩
    · simp [level]
    · simpa [level] using h

theorem Spans.of_leanRoot {r : α} (h : leanRoot node ls = some r) : Spans node ls r := by
  have hall : ∀ d, ∀ x ∈ (level node)^[d] ls, Spans node ls x := by
    intro d
    induction d with
    | zero => exact fun x hx => .leaf hx
    | succ d ih =>
      rw [Function.iterate_succ_apply']
      exact forall_mem_level (fun _ _ ha hb => .node ha hb) ih
  exact hall ls.length r (List.mem_of_getElem? h)

/-! ## Different roots -/

/-- Hashing upwards from a node, it is never met again. -/
def Acyclic (node : α → α → α) : Prop := ∀ (a : α) (ss : List α), ss ≠ [] → ss.foldl node a ≠ a

/-- Two walks up from one leaf to one node have the same length. -/
theorem length_eq_of_foldl (hinj : Function.Injective2 node) (hacyclic : Acyclic node) {a : α}
    {ss ss' : List α} (h : ss.foldl node a = ss'.foldl node a) : ss.length = ss'.length := by
  induction ss using List.reverseRecOn generalizing ss' with
  | nil =>
    by_contra hlen
    exact hacyclic a ss' (List.ne_nil_of_length_pos (by simp at hlen; omega)) h.symm
  | append_singleton ss s ih =>
    rcases List.eq_nil_or_concat ss' with rfl | ⟨ss', s', rfl⟩
    · exact absurd h (hacyclic a _ (by simp))
    · rw [List.concat_eq_append, List.foldl_append, List.foldl_append] at h
      obtain ⟨hfold, -⟩ := hinj h
      simp [ih hfold]

/-- The root is reached from the first leaf, one level at a time. -/
theorem exists_foldl_leanRoot {d : Nat} {a : α} {rest : List α} (hlen : (a :: rest).length ≤ 2 ^ d)
    {r : α} (hr : leanRoot node (a :: rest) = some r) : ∃ ss : List α, r = ss.foldl node a ∧ ss.length ≤ d ∧
      ∀ k, 2 ^ k < (a :: rest).length → k < ss.length := by
  replace hr := (iterate_level_eq (List.cons_ne_nil a rest) hlen).mpr hr
  induction d generalizing a rest with
  | zero =>
    rw [Nat.pow_zero, List.length_cons] at hlen
    obtain rfl : rest = [] := List.length_eq_zero_iff.mp (by omega)
    cases hr
    refine ⟨[], rfl, Nat.le_refl _, fun k hk => ?_⟩
    have hpos := Nat.two_pow_pos k
    simp at hk
  | succ d ih =>
    rw [Function.iterate_succ_apply] at hr
    have hlevel := @length_level _ node (a :: rest)
    rw [Nat.pow_succ] at hlen
    match rest with
    | [] =>
      obtain ⟨ss, hss, hle, hlong⟩ := ih (by have := Nat.two_pow_pos d; simp; omega) hr
      exact ⟨ss, hss, by omega, hlong⟩
    | b :: rest =>
      have hhalf : (node a b :: level node rest).length = ((a :: b :: rest).length + 1) / 2 := hlevel
      obtain ⟨ss, hss, hle, hlong⟩ := ih (by rw [hhalf]; omega) hr
      refine ⟨b :: ss, hss, by simp; omega, fun k hk => ?_⟩
      cases k with
      | zero => simp
      | succ k =>
        have hk' := hlong k (by
          rw [hhalf]
          rw [Nat.pow_succ] at hk
          omega)
        simp
        omega

/-- A list and a longer one that starts with it have different roots. -/
theorem leanRoot_append_ne (hinj : Function.Injective2 node) (hacyclic : Acyclic node) {ls more : List α}
    (hne : ls ≠ []) (hmore : more ≠ []) : leanRoot node ls ≠ leanRoot node (ls ++ more) := by
  -- by induction on the number of levels of the longer list
  suffices h : ∀ d (ls more : List α), ls ≠ [] → more ≠ [] → (ls ++ more).length ≤ 2 ^ d →
      leanRoot node ls ≠ leanRoot node (ls ++ more) from
    h (ls ++ more).length ls more hne hmore Nat.lt_two_pow_self.le
  intro d
  induction d with
  | zero =>
    intro ls more hne hmore hlen
    have hpos := List.length_pos_iff.mpr hne
    have hpos' := List.length_pos_iff.mpr hmore
    rw [List.length_append, Nat.pow_zero] at hlen
    omega
  | succ d ih =>
    intro ls more hne hmore hlen heq
    rcases Nat.lt_or_ge (2 ^ d) (ls ++ more).length with hlong | hshort
    · rcases Nat.lt_or_ge (2 ^ d) ls.length with hls | hls
      · -- both have the same full left half, and the right halves differ
        have hleft : (ls.take (2 ^ d)).length = 2 ^ d := by
          rw [List.length_take]
          omega
        have hright : ls.drop (2 ^ d) ≠ [] :=
          List.ne_nil_of_length_pos (by rw [List.length_drop]; omega)
        have hlast : (ls.drop (2 ^ d) ++ more).length ≤ 2 ^ d := by
          rw [List.length_append, Nat.pow_succ] at hlen
          rw [List.length_append, List.length_drop]
          omega
        have hrest : ls.drop (2 ^ d) ++ more ≠ [] := List.append_ne_nil_of_left_ne_nil hright more
        obtain ⟨a, ha⟩ := @exists_leanRoot _ node (ls.take (2 ^ d))
          (List.ne_nil_of_length_pos (by rw [hleft]; exact Nat.two_pow_pos d))
        obtain ⟨b, hb⟩ := @exists_leanRoot _ node _ hright
        obtain ⟨b', hb'⟩ := @exists_leanRoot _ node _ hrest
        have hshort := leanRoot_split hleft hright
          ((List.length_append ▸ Nat.le_add_right _ _).trans hlast) ha hb
        have hlonger := leanRoot_split hleft hrest hlast ha hb'
        rw [← List.append_assoc, List.take_append_drop] at hlonger
        rw [List.take_append_drop, heq, hlonger] at hshort
        obtain ⟨-, rfl⟩ := hinj (Option.some.inj hshort)
        exact ih _ more hright hmore hlast (hb.trans hb'.symm)
      · -- the longer list has a level more
        obtain ⟨a, rest, rfl⟩ := List.exists_cons_of_ne_nil hne
        obtain ⟨r, hr⟩ := @exists_leanRoot _ node (a :: rest) hne
        obtain ⟨ss, hss, hle, -⟩ := exists_foldl_leanRoot hls hr
        obtain ⟨ss', hss', -, hlong'⟩ := @exists_foldl_leanRoot _ node _ a (rest ++ more) hlen r (heq ▸ hr)
        have hlength := length_eq_of_foldl hinj hacyclic (hss.symm.trans hss')
        have hlonger := hlong' d hlong
        omega
    · exact ih ls more hne hmore hshort heq

/-- Initial segments of different lengths have different roots. -/
theorem leanRoot_take_ne (hinj : Function.Injective2 node) (hacyclic : Acyclic node) {i j : Nat}
    (hij : i < j) (hj : j ≤ ls.length) (hi : 0 < i) :
    leanRoot node (ls.take i) ≠ leanRoot node (ls.take j) := by
  have hsplit : ls.take j = ls.take i ++ (ls.take j).drop i := by
    have htake := List.take_append_drop i (ls.take j)
    rw [List.take_take, Nat.min_eq_left hij.le] at htake
    exact htake.symm
  rw [hsplit]
  refine leanRoot_append_ne hinj hacyclic (List.ne_nil_of_length_pos ?_) (List.ne_nil_of_length_pos ?_)
  · rw [List.length_take]
    omega
  · rw [List.length_drop, List.length_take]
    omega

/-! ## The roots after each leaf -/

section
variable [Zero α]

/-- The roots after the leaves were appended, one after the other. -/
def prefixRoots (node : α → α → α) (ls : List α) : List α :=
  (List.range ls.length).map fun k => (leanRoot node (ls.take (k + 1))).getD 0

theorem length_prefixRoots : (prefixRoots node ls).length = ls.length := by
  rw [prefixRoots, List.length_map, List.length_range]

theorem prefixRoots_concat {x r : α} (hr : leanRoot node (ls ++ [x]) = some r) :
    prefixRoots node (ls ++ [x]) = prefixRoots node ls ++ [r] := by
  have htake : (ls ++ [x]).take (ls.length + 1) = ls ++ [x] := List.take_of_length_le (by simp)
  rw [prefixRoots, List.length_append, List.length_singleton, List.range_succ, List.map_append,
    List.map_singleton, htake, hr]
  congr 1
  refine List.map_congr_left fun k hk => ?_
  have hle : k + 1 ≤ ls.length := List.mem_range.mp hk
  rw [List.take_append_of_le_length hle]

theorem prefixRoots_nodup (hinj : Function.Injective2 node) (hacyclic : Acyclic node) :
    (prefixRoots node ls).Nodup := by
  have hsome : ∀ k < ls.length, ∃ r, leanRoot node (ls.take (k + 1)) = some r := by
    intro k hk
    exact exists_leanRoot (List.ne_nil_of_length_pos (by rw [List.length_take]; omega))
  have hne : ∀ i j, i < j → j < ls.length →
      (leanRoot node (ls.take (i + 1))).getD 0 ≠ (leanRoot node (ls.take (j + 1))).getD 0 := by
    intro i j hij hj heq
    obtain ⟨r, hr⟩ := hsome i (by omega)
    obtain ⟨r', hr'⟩ := hsome j hj
    rw [hr, hr', Option.getD_some, Option.getD_some] at heq
    exact leanRoot_take_ne hinj hacyclic (Nat.succ_lt_succ hij) hj (Nat.succ_pos i) (hr.trans (heq ▸ hr'.symm))
  refine List.Nodup.map_on (fun i hi j hj heq => ?_) List.nodup_range
  rw [List.mem_range] at hi hj
  rcases Nat.lt_trichotomy i j with hlt | heq' | hgt
  · exact absurd heq (hne i j hlt hj)
  · exact heq'
  · exact absurd heq.symm (hne j i hgt hi)

theorem zero_notMem_prefixRoots (hnode : ∀ a b, node a b ≠ 0) (hls : ∀ x ∈ ls, x ≠ 0) :
    0 ∉ prefixRoots node ls := by
  intro h
  obtain ⟨k, hk, hroot⟩ := List.mem_map.mp h
  obtain ⟨r, hr⟩ := @exists_leanRoot _ node (ls.take (k + 1))
    (List.ne_nil_of_length_pos (by rw [List.length_take]; rw [List.mem_range] at hk; omega))
  rw [hr, Option.getD_some] at hroot
  have hspans := Spans.of_leanRoot hr
  cases hspans with
  | leaf hmem => exact hls r (List.mem_of_mem_take hmem) hroot
  | node _ _ => exact hnode _ _ hroot

end

end Merkle

open Merkle

/-! ## Trees with this root -/

/-- The root of a tree with leaves is the root of its leaves. -/
def LeanImt.Rooted {α T : Type} (L : LeanImt α T) (node : α → α → α) : Prop :=
  ∀ {t}, L.leaves t ≠ [] → leanRoot node (L.leaves t) = some (L.root t)

/-- The tree of a contract, by its leaves. -/
def listImt {α : Type} [DecidableEq α] [Zero α] (node : α → α → α) : LeanImt α (List α) where
  empty := []
  insert leaf ls := do
    failIf (leaf = 0) .leafCannotBeZero
    failIf (leaf ∈ ls) .leafAlreadyExists
    pure (ls ++ [leaf])
  root ls := (leanRoot node ls).getD 0
  leaves ls := ls

section
variable {α : Type} [DecidableEq α] [Zero α] {node : α → α → α}

theorem listImt_rooted : (listImt node).Rooted node := by
  intro ls hne
  obtain ⟨r, hr⟩ := @exists_leanRoot _ node ls hne
  show _ = some ((leanRoot node ls).getD 0)
  rw [hr]
  exact hr

theorem listImt_inserts : (listImt node).Inserts := by
  intro leaf ls hzero hnew
  exact ⟨ls ++ [leaf], by
    simp only [listImt, failIf_neg hzero, failIf_neg (show ¬ leaf ∈ ls from hnew)]
    rfl⟩

theorem listImt_lawful : (listImt node).Lawful node where
  leaves_empty := rfl
  insert {leaf ls ls'} h := by
    simp only [listImt, bind_eq_ok, failIf_eq_ok, pure_eq_ok, exists_const] at h
    obtain ⟨hzero, hnew, rfl⟩ := h
    exact ⟨hzero, hnew, rfl⟩
  root_nil {ls} h := by
    obtain rfl : ls = [] := h
    rfl
  root {ls} h := by
    exact .of_leanRoot (listImt_rooted h)

end

/-- The tree of an off-chain party: a leaf is appended at the next index, and each leaf has a path. -/
structure AppendStore (α T ε : Type) where
  root : T → Option α
  size : T → Nat
  getProof : T → Nat → Except ε (List (Bool × α))
  insert : T → α → Nat × T
  /-- The leaves in the order of their insertion. -/
  leaves : T → List α

structure AppendStore.Lawful {α T ε : Type} (S : AppendStore α T ε) (node : α → α → α) : Prop where
  root : ∀ t, S.root t = leanRoot node (S.leaves t)
  size : ∀ t, S.size t = (S.leaves t).length
  insert : ∀ t leaf, (S.insert t leaf).1 = (S.leaves t).length ∧
    S.leaves (S.insert t leaf).2 = S.leaves t ++ [leaf]
  getProof : ∀ {t i leaf d}, (S.leaves t)[i]? = some leaf → (S.leaves t).length ≤ 2 ^ d →
    ∃ p, S.getProof t i = .ok p ∧ p.length ≤ d ∧ leanRoot node (S.leaves t) = some (foldPath node leaf p)

/-- Insertions one after the other append their leaves. -/
theorem AppendStore.Lawful.leaves_foldl {α T ε : Type} {S : AppendStore α T ε} {node : α → α → α}
    (h : S.Lawful node) (xs : List α) (t : T) :
    S.leaves (xs.foldl (fun t x => (S.insert t x).2) t) = S.leaves t ++ xs := by
  induction xs generalizing t with
  | nil => simp
  | cons x xs ih => rw [List.foldl_cons, ih, (h.insert t x).2, List.append_assoc, List.singleton_append]

def listAppendStore {α : Type} (node : α → α → α) : AppendStore α (List α) ListStoreError where
  root := leanRoot node
  size := List.length
  getProof ls i :=
    if i < ls.length then .ok (promotedPath node (Nat.clog 2 ls.length) ls i)
    else .error .indexOutOfRange
  insert ls leaf := (ls.length, ls ++ [leaf])
  leaves ls := ls

theorem listAppendStore_lawful {α : Type} {node : α → α → α} : (listAppendStore node).Lawful node where
  root _ := rfl
  size _ := rfl
  insert _ _ := ⟨rfl, rfl⟩
  getProof {ls i leaf d} hleaf hlen := by
    obtain ⟨hi, -⟩ := List.getElem?_eq_some_iff.mp hleaf
    replace hi : i < ls.length := hi
    have hpow : ls.length ≤ 2 ^ Nat.clog 2 ls.length := Nat.le_pow_clog (by decide) _
    have hne : ls ≠ [] := List.ne_nil_of_length_pos (by omega)
    have hpath := @foldPath_promotedPath _ node (Nat.clog 2 ls.length) ls i leaf hleaf
    rw [Nat.div_eq_of_lt (hi.trans_le hpow)] at hpath
    obtain ⟨r, hr⟩ := @exists_leanRoot _ node ls hne
    rw [(iterate_level_eq hne hpow).mpr hr] at hpath
    refine ⟨_, if_pos hi, ?_, ?_⟩
    · exact length_promotedPath.trans (Nat.clog_le_of_le_pow hlen)
    · exact hr.trans hpath

end Pocs
