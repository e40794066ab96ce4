import Pocs.Lib.Method
import Pocs.Civic.Imt

/-! # Sequences of calls of the indexed tree

The calls of the port take 32-byte values, which are reduced to the field. `insertCall` is `insert` write
by write: an error leaves what was written before it. By `insertCall_ok` and `insertCall_error` it is
the function of `Imt.lean`, so that every sequence of calls ends in a tree with the invariant. -/

namespace Pocs.Civic

open IndexedList (values Threaded)

/-- A low leaf and its path. -/
structure ImtNonMembership (F : Type) where
  lowLeaf : InternalLeaf F
  lowLeafIndex : Nat
  lowLeafPath : ImtPath F

def ImtPath.rootFrom {F : Type} (P : Poseidon F) (leafHash : F) (path : ImtPath F) : F :=
  (path.siblings.zip path.indices).foldl (fun current s =>
    if s.2 = 0 then hashMerkleNode P current s.1 else hashMerkleNode P s.1 current) leafHash

namespace IndexedMerkleTree

section
variable {F : Type} [Scalar F]

/-- The loop body of `non_membership`: an equal value ends the call. -/
def scanNonMembership (v : F) (low : Option (Nat × InternalLeaf F)) (leaf : InternalLeaf F × Nat) :
    Option (Option (Nat × InternalLeaf F)) :=
  if leaf.1.value = v then none
  else if leaf.1.value < v ∧ (leaf.1.nextValue > v ∨ leaf.1.nextValue = 0) then
    some (some (leaf.2, leaf.1))
  else some low

/-- Non-membership witness; `none` if `v` is present. -/
def nonMembership (t : IndexedMerkleTree F) (v : F) : Option (ImtNonMembership F) := do
  let low ← t.leaves.zipIdx.foldlM (scanNonMembership v) none
  let (i, leaf) ← low
  pure ⟨leaf, i, t.pathFor i⟩

end

/-- `insert` on the mutable tree. -/
def insertCall (P : Poseidon Fr) (value : Bytes32) :
    Method (IndexedMerkleTree Fr) ImtError (ImtInsertWitness Fr) := do
  let v := frFromBeBytes value.1
  let cap := 1 <<< imtDepth
  let t ← Method.get
  Method.ofExcept (failIf (t.leaves.length ≥ cap) (.capacityExhausted imtDepth))
  let lowIdx ← Method.ofExcept (t.findLowLeafIndex v)
  let lowLeafBefore ← Method.orPanic t.leaves[lowIdx]?
  let newIndex := t.leaves.length
  let lowLeafPathBefore := t.pathFor lowIdx
  let lowLeafAfter : InternalLeaf Fr := ⟨lowLeafBefore.value, newIndex, v⟩
  let newLeaf : InternalLeaf Fr := ⟨v, lowLeafBefore.nextIndex, lowLeafBefore.nextValue⟩
  Method.set { t with leaves := t.leaves.set lowIdx lowLeafAfter }
  let t ← Method.get
  Method.set (t.setLeafHash P lowIdx (lowLeafAfter.hash P))
  let t ← Method.get
  Method.set { t with leaves := t.leaves ++ [newLeaf] }
  let t ← Method.get
  Method.set (t.setLeafHash P newIndex (newLeaf.hash P))
  let t ← Method.get
  pure ⟨lowLeafBefore, lowLeafAfter, lowIdx, lowLeafPathBefore, newLeaf, newIndex, t.pathFor newIndex, t.root⟩

/-- The tree after a sequence of `insert` calls, whatever they return; `none` is a panic. -/
def insertCalls (P : Poseidon Fr) (t : IndexedMerkleTree Fr) (calls : List Bytes32) :
    Option (IndexedMerkleTree Fr) :=
  calls.foldlM (fun t value => (insertCall P value t).map (·.2)) t

/-- The values stored after a sequence of calls on a tree that stores `vs`: a call adds its value at the
end if there is room and the value is new. -/
def storedValues (vs : List Fr) (calls : List Bytes32) : List Fr :=
  calls.foldl (fun vs value =>
    if vs.length < 2 ^ 24 ∧ frFromBeBytes value.1 ∉ vs then vs ++ [frFromBeBytes value.1] else vs) vs

/-! ## The two scans -/

section
variable {F : Type} [Scalar F] {P : Poseidon F} {t : IndexedMerkleTree F} {v : F}

/-- Both scans keep the same low leaf and stop at the same value. -/
private theorem scanLow_eq (leaves : List (InternalLeaf F)) (k : Nat) (low : Option (Nat × InternalLeaf F)) :
    (leaves.zipIdx k).foldlM (scanLow v) (low.map (·.1)) =
      (okOr ((leaves.zipIdx k).foldlM (scanNonMembership v) low) .duplicateInsertion).map
        (Option.map (·.1)) := by
  induction leaves generalizing k low with
  | nil => rfl
  | cons c cs ih =>
    simp only [List.zipIdx_cons, List.foldlM_cons]
    by_cases hc : c.value = v
    · simp only [scanLow, scanNonMembership, if_pos hc]
      rfl
    · by_cases hl : c.value < v ∧ (c.nextValue > v ∨ c.nextValue = 0)
      · simp only [scanLow, scanNonMembership, if_neg hc, if_pos hl]
        exact ih (k + 1) (some (k, c))
      · simp only [scanLow, scanNonMembership, if_neg hc, if_neg hl]
        exact ih (k + 1) low

/-- The leaf a scan keeps is the one at the index it keeps. -/
private theorem scanNonMembership_mem {leaves : List (InternalLeaf F)} {k i : Nat} {leaf : InternalLeaf F}
    {low : Option (Nat × InternalLeaf F)}
    (h : (leaves.zipIdx k).foldlM (scanNonMembership v) low = some (some (i, leaf))) :
    low = some (i, leaf) ∨ (leaf, i) ∈ leaves.zipIdx k := by
  induction leaves generalizing k low with
  | nil => exact .inl (Option.some.inj h)
  | cons c cs ih =>
    simp only [List.zipIdx_cons, List.foldlM_cons, Option.bind_eq_bind, Option.bind_eq_some_iff] at h
    obtain ⟨low', hstep, hrest⟩ := h
    rw [List.zipIdx_cons, List.mem_cons]
    rcases ih hrest with rfl | hmem
    · unfold scanNonMembership at hstep
      split at hstep
      · simp at hstep
      split at hstep
      · simp only [Option.some.injEq, Prod.mk.injEq] at hstep
        obtain ⟨rfl, rfl⟩ := hstep
        exact .inr (.inl rfl)
      · exact .inl (Option.some.inj hstep)
    · exact .inr (.inr hmem)

/-- `non_membership` returns the leaf whose gap holds the value. -/
theorem nonMembership_eq_some (H : t.Inv P) {nm : ImtNonMembership F} : t.nonMembership v = some nm ↔
      ∃ i low, t.leaves[i]? = some low ∧ low.Low 0 v ∧ nm = ⟨low, i, t.pathFor i⟩ := by
  have hscan := scanLow_eq (v := v) t.leaves 0 none
  have hfind : ∀ r, t.leaves.zipIdx.foldlM (scanNonMembership v) none = some r →
      t.findLowLeafIndex v = okOr (r.map (·.1)) (.lowLeafInvariant "no low leaf found") := by
    intro r hr
    rw [hr] at hscan
    exact congrArg (· >>= fun lowIdx => okOr lowIdx (.lowLeafInvariant "no low leaf found")) hscan
  simp only [nonMembership, Option.bind_eq_bind, Option.bind_eq_some_iff, Option.pure_def, Option.some.injEq]
  constructor
  · rintro ⟨r, hr, ⟨i, leaf⟩, rfl, rfl⟩
    obtain ⟨low, hlow, hgap⟩ := (findLowLeafIndex_eq_ok H).mp (hfind _ hr)
    have hmem := (scanNonMembership_mem hr).resolve_left (by simp)
    have hleaf : t.leaves[i]? = some leaf := List.mem_zipIdx_iff_getElem?.mp hmem
    obtain rfl := Option.some.inj (hleaf.symm.trans hlow)
    exact ⟨i, leaf, hleaf, hgap, rfl⟩
  · rintro ⟨i, low, hlow, hgap, rfl⟩
    have hok := (findLowLeafIndex_eq_ok H).mpr ⟨low, hlow, hgap⟩
    cases hr : t.leaves.zipIdx.foldlM (scanNonMembership v) none with
    | none =>
      have herr : t.findLowLeafIndex v = .error .duplicateInsertion := by
        rw [hr] at hscan
        exact congrArg (· >>= fun lowIdx => okOr lowIdx (.lowLeafInvariant "no low leaf found")) hscan
      rw [herr] at hok
      cases hok
    | some r =>
      rw [hfind r hr] at hok
      cases r with
      | none => cases hok
      | some p =>
        obtain ⟨j, leaf⟩ := p
        obtain rfl : j = i := Except.ok.inj hok
        have hmem := (scanNonMembership_mem hr).resolve_left (by simp)
        have hleaf : t.leaves[j]? = some leaf := List.mem_zipIdx_iff_getElem?.mp hmem
        obtain rfl := Option.some.inj (hleaf.symm.trans hlow)
        exact ⟨_, rfl, (j, leaf), rfl, rfl⟩

/-- A value is stored, or it falls in a gap. -/
theorem isSome_nonMembership (H : t.Inv P) : (t.nonMembership v).isSome ↔ v ∉ values t.leaves := by
  rw [Option.isSome_iff_exists]
  constructor
  · rintro ⟨nm, hnm⟩
    obtain ⟨i, low, hi, hlow, -⟩ := (nonMembership_eq_some H).mp hnm
    exact H.linked.not_mem_of_low (List.mem_of_getElem? hi) hlow
  · intro hv
    have hz : (0 : F) < v := Scalar.pos_iff.mpr fun h0 => hv (h0 ▸ H.zero_mem)
    obtain ⟨low, hmem, hlow⟩ := H.linked.exists_low hz hv
    obtain ⟨i, hi⟩ := List.mem_iff_getElem?.mp hmem
    exact ⟨_, (nonMembership_eq_some H).mpr ⟨i, low, hi, hlow, rfl⟩⟩

theorem isSome_membership (t : IndexedMerkleTree F) : (t.membership v).isSome ↔ v ∈ values t.leaves := by
  constructor
  · intro h
    unfold membership at h
    split at h
    · next leaf i hfind =>
      have hmem := List.mem_zipIdx_iff_getElem?.mp (List.mem_of_find?_eq_some hfind)
      have hval := List.find?_some hfind
      exact (of_decide_eq_true hval : leaf.value = v) ▸ IndexedList.mem_values (List.mem_of_getElem? hmem)
    · simp at h
  · intro h
    obtain ⟨i, c, -, -, hm⟩ := exists_membership h
    rw [hm]
    rfl

end

/-! ## Insertion on the mutable tree -/

section
variable {P : Poseidon Fr} {t t' : IndexedMerkleTree Fr} {value : Bytes32}

/-- A successful `insert` is the function of the same name. -/
theorem insertCall_ok (H : t.Inv P) {w : ImtInsertWitness Fr}
    (h : t.insert P (frFromBeBytes value.1) = .ok (w, t')) : insertCall P value t = some (.ok w, t') := by
  simp only [insert, bind_eq_ok, pure_eq_ok, Prod.mk.injEq] at h
  obtain ⟨_, hcap, i, hi, rfl, rfl⟩ := h
  obtain ⟨low, hlow, -⟩ := (findLowLeafIndex_eq_ok H).mp hi
  have hget : t.leaves.getD i .empty = low := by simp [hlow]
  simp only [insertCall, Method.get_bind, Method.ofExcept_ok_bind hcap, Method.ofExcept_ok_bind hi,
    Method.orPanic_bind hlow, Method.set_bind, Method.pure_apply, hget]

/-- An error comes before the first write. -/
theorem insertCall_error {e : ImtError} (h : t.insert P (frFromBeBytes value.1) = .error e) :
    insertCall P value t = some (.error e, t) := by
  rw [insertCall, Method.get_bind]
  rcases bind_eq_error.mp h with hcap | ⟨_, hcap, h⟩
  · exact Method.ofExcept_error_bind hcap _
  rw [Method.ofExcept_ok_bind hcap]
  rcases bind_eq_error.mp h with hfind | ⟨i, hfind, h⟩
  · exact Method.ofExcept_error_bind hfind _
  · cases h

/-- Every call keeps the invariant and does not panic; its value is stored at the end if it succeeds. -/
theorem exists_insertCall (H : t.Inv P) (value : Bytes32) :
    ∃ r t', insertCall P value t = some (r, t') ∧ t'.Inv P ∧
      ((∃ w, r = .ok w) ↔ ∃ w, t.insert P (frFromBeBytes value.1) = .ok w) ∧
      (∀ w, r = .ok w → values t'.leaves = values t.leaves ++ [frFromBeBytes value.1]) ∧
      ∀ e, r = .error e → t' = t := by
  cases h : t.insert P (frFromBeBytes value.1) with
  | error e => exact ⟨_, t, insertCall_error h, H, by simp, by simp, fun _ _ => rfl⟩
  | ok r =>
    obtain ⟨w, t'⟩ := r
    obtain ⟨-, i, low, hi, -, H', hsplice, -⟩ := insert_ok H h
    exact ⟨_, t', insertCall_ok H h, H', by simp,
      fun _ _ => hsplice ▸ IndexedList.values_splice _ hi, by simp⟩

/-- Every sequence of calls keeps the invariant, does not panic and stores the values of the calls that
succeed. -/
theorem exists_insertCalls (H : t.Inv P) (calls : List Bytes32) :
    ∃ t', insertCalls P t calls = some t' ∧ t'.Inv P ∧
      values t'.leaves = storedValues (values t.leaves) calls := by
  induction calls generalizing t with
  | nil => exact ⟨t, rfl, H, rfl⟩
  | cons value calls ih =>
    obtain ⟨r, t₁, h₁, H₁, hok, hstored, hkeeps⟩ := exists_insertCall H value
    obtain ⟨t', h', H', hvalues⟩ := ih H₁
    refine ⟨t', ?_, H', hvalues.trans ?_⟩
    · rw [insertCalls, List.foldlM_cons, h₁]
      exact h'
    have hlen : (values t.leaves).length = t.leaves.length := List.length_map ..
    have hroom : (∃ w, t.insert P (frFromBeBytes value.1) = .ok w) ↔
        t.leaves.length < 2 ^ 24 ∧ frFromBeBytes value.1 ∉ values t.leaves := exists_insert_iff H
    rw [storedValues, storedValues, List.foldl_cons, hlen]
    cases r with
    | ok w => rw [hstored w rfl, if_pos (hroom.mp (hok.mp ⟨w, rfl⟩))]
    | error e =>
      have hfull : ¬ ∃ w, t.insert P (frFromBeBytes value.1) = .ok w := fun h => by
        obtain ⟨w, hw⟩ := hok.mpr h
        cases hw
      rw [hkeeps e rfl, if_neg fun h => hfull (hroom.mpr h)]

/-- The tree after a sequence of calls on a new one. -/
theorem exists_insertCalls_new (P : Poseidon Fr) (calls : List Bytes32) :
    ∃ t, insertCalls P (new P) calls = some t ∧ t.Inv P ∧ values t.leaves = storedValues [0] calls := by
  obtain ⟨t, ht, H, hvalues⟩ := exists_insertCalls (new_inv (P := P)) calls
  exact ⟨t, ht, H, by rw [hvalues, new_leaves]; rfl⟩

/-- What an insertion needs: a value other than the sentinel's that is not stored, and room. -/
theorem exists_insert_value_iff (H : t.Inv P) {v : Fr} : (∃ w, t.insert P v = .ok w) ↔
      v ≠ 0 ∧ (∀ leaf ∈ t.leaves, leaf.value ≠ v) ∧ t.leaves.length < 2 ^ imtDepth := by
  rw [exists_insert_iff H]
  constructor
  · rintro ⟨hcap, hv⟩
    exact ⟨fun h0 => hv (h0 ▸ H.zero_mem), fun leaf hleaf he => hv (he ▸ IndexedList.mem_values hleaf), hcap⟩
  · rintro ⟨-, hv, hcap⟩
    refine ⟨hcap, fun hmem => ?_⟩
    obtain ⟨leaf, hleaf, he⟩ := List.mem_map.mp hmem
    exact hv leaf hleaf he

/-- After any sequence of `insert` calls the leaves hold zero and the values of the calls that succeeded,
in order, and the links thread them in increasing order; a further call succeeds exactly for a new
non-zero value while there is room, which it stores at the end, and changes nothing when it fails; and
every value is either stored or has a low leaf. -/
theorem insertCalls_structure (P : Poseidon Fr) (calls : List Bytes32) :
    ∃ t, insertCalls P (new P) calls = some t ∧
      t.leaves.map (·.value) = storedValues [0] calls ∧ Threaded 0 t.leaves ∧
      (∀ value : Bytes32, ∃ r t', insertCall P value t = some (r, t') ∧
        ((∃ w, r = .ok w) ↔ frFromBeBytes value.1 ≠ 0 ∧
          (∀ leaf ∈ t.leaves, leaf.value ≠ frFromBeBytes value.1) ∧ t.leaves.length < 2 ^ 24) ∧
        (∀ w, r = .ok w → t'.leaves.map (·.value) = t.leaves.map (·.value) ++ [frFromBeBytes value.1]) ∧
        ∀ e, r = .error e → t' = t) ∧ ∀ value : Bytes32, ((t.membership (frFromBeBytes value.1)).isSome ↔
          ¬ (t.nonMembership (frFromBeBytes value.1)).isSome) ∧
        ∀ nm, t.nonMembership (frFromBeBytes value.1) = some nm → t.leaves[nm.lowLeafIndex]? = some nm.lowLeaf ∧
          nm.lowLeaf.value < frFromBeBytes value.1 ∧
          (frFromBeBytes value.1 < nm.lowLeaf.nextValue ∨ nm.lowLeaf.nextValue = 0) := by
  obtain ⟨t, ht, H, hvalues⟩ := exists_insertCalls_new P calls
  refine ⟨t, ht, hvalues, H.linked.threaded, fun value => ?_, fun value => ⟨?_, fun nm hnm => ?_⟩⟩
  · obtain ⟨r, t', hr, -, hok, hstored, hkeeps⟩ := exists_insertCall H value
    exact ⟨r, t', hr, hok.trans (exists_insert_value_iff H), hstored, hkeeps⟩
  · rw [isSome_membership, isSome_nonMembership H, not_not]
  · obtain ⟨i, low, hi, hlow, rfl⟩ := (nonMembership_eq_some H).mp hnm
    exact ⟨hi, hlow⟩

/-- The path of a leaf leads from its hash to the root. -/
theorem Inv.rootFrom_pathFor (H : t.Inv P) {i : Nat} {leaf : InternalLeaf Fr} (hi : t.leaves[i]? = some leaf) :
    (t.pathFor i).rootFrom P (leaf.hash P) = t.root := by
  have hlt : i < 2 ^ imtDepth := (List.getElem?_eq_some_iff.mp hi).1.trans_le H.bound
  -- the loop of the verification folds the path of the perfect tree
  have hfold : ∀ (p : List (Bool × Fr)) (x : Fr), ((p.map fun s => (s.2, s.1.toNat)).foldl (fun current s =>
        if s.2 = 0 then hashMerkleNode P current s.1 else hashMerkleNode P s.1 current) x) =
        Merkle.foldPath (hashMerkleNode P) x p := by
    intro p
    induction p with
    | nil => exact fun _ => rfl
    | cons s p ih =>
      intro x
      obtain ⟨b, y⟩ := s
      rw [List.map_cons, List.foldl_cons, ih, Merkle.foldPath]
      cases b <;> rfl
  have hleaf : leaf.hash P = Merkle.nodeAt (hashMerkleNode P) (leafHash P t.leaves) 0 i := by
    rw [Merkle.nodeAt, leafHash, List.getD_eq_getElem?_getD, hi]
    rfl
  rw [ImtPath.rootFrom, pathFor]
  simp only [List.zip_map', Prod.mk.eta, List.map_id']
  rw [pathFrom_eq H.nodes (by omega), hfold, hleaf, Merkle.foldPath_pathAt, Nat.zero_add,
    Nat.div_eq_of_lt hlt, H.root_eq]

/-- After any sequence of `insert` calls the leaves hold zero and the values of the calls that succeeded,
the root is the root of the full tree over the hashes of the leaves, padded with the hash of the empty
leaf, and the paths of the stored leaves lead to it. -/
theorem insertCalls_levels (P : Poseidon Fr) (calls : List Bytes32) :
    ∃ t, insertCalls P (new P) calls = some t ∧ t.leaves.map (·.value) = storedValues [0] calls ∧
      t.root = Merkle.nodeAt (hashMerkleNode P)
        (fun i => (t.leaves.map (·.hash P)).getD i (imtEmptyLeafHash P)) 24 0 ∧
      (∀ i leaf, t.leaves[i]? = some leaf → (t.pathFor i).rootFrom P (leaf.hash P) = t.root) ∧
      ∀ value : Bytes32, ∀ nm, t.nonMembership (frFromBeBytes value.1) = some nm →
        nm.lowLeafPath.rootFrom P (nm.lowLeaf.hash P) = t.root := by
  obtain ⟨t, ht, H, hvalues⟩ := exists_insertCalls_new P calls
  refine ⟨t, ht, hvalues, ?_, fun i leaf hi => H.rootFrom_pathFor hi, fun value nm hnm => ?_⟩
  · have hpad : leafHash P t.leaves = fun i => (t.leaves.map (·.hash P)).getD i (imtEmptyLeafHash P) := by
      funext i
      rcases lt_or_ge i t.leaves.length with hi | hi
      · simp [leafHash, hi]
      · rw [leafHash_of_ge hi, List.getD_eq_getElem?_getD, List.getElem?_eq_none (by simpa using hi)]
        rfl
    rw [H.root_eq, hpad]
    rfl
  · obtain ⟨i, low, hi, -, rfl⟩ := (nonMembership_eq_some H).mp hnm
    exact H.rootFrom_pathFor hi

end

end IndexedMerkleTree

end Pocs.Civic
