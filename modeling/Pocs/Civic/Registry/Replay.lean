import Pocs.Civic.Registry.Steps

/-! # Replaying records into fresh trees

`replay` of `dispute` and the loop of `publish_batch` are the same insertions: the leaves into the
running tree and the identity tags into the other (`replay_eq_ok`, `insertRecords_ok`). A replay
that succeeds has pairwise distinct leaves and identity tags (`replay_spec`). -/

namespace Pocs.Civic

open IndexedMerkleTree (insertAll exists_insertAll_iff insertAll_ok insert_ok new_inv new_leaves)

section
variable {C : Primitives} {t t' : Trees} {records : List RecordEntry}

theorem replayFrom_eq_ok : records.foldlM (replayRecord C) t = .ok t' ↔
    t.running.insertAll C.poseidon (records.map (·.leaf C)) = .ok t'.running ∧
      t.identityTag.insertAll C.poseidon (records.map (·.tag)) = .ok t'.identityTag := by
  induction records generalizing t with
  | nil =>
    obtain ⟨r, i⟩ := t
    obtain ⟨r', i'⟩ := t'
    simp
  | cons r records ih =>
    simp only [List.foldlM_cons, bind_eq_ok, replayRecord, frFromBeBytes_frToBeBytes, pure_eq_ok,
      List.map_cons, IndexedMerkleTree.insertAll_cons_eq_ok, ih]
    constructor
    · rintro ⟨_, ⟨⟨w, running⟩, hr, ⟨w', tag⟩, ht, rfl⟩, hrs, hts⟩
      exact ⟨⟨w, running, hr, hrs⟩, ⟨w', tag, ht, hts⟩⟩
    · rintro ⟨⟨w, running, hr, hrs⟩, ⟨w', tag, ht, hts⟩⟩
      exact ⟨_, ⟨(w, running), hr, (w', tag), ht, rfl⟩, hrs, hts⟩

/-- The trees of a petition satisfy their representation invariant. -/
structure Trees.Inv (C : Primitives) (t : Trees) : Prop where
  running : t.running.Inv C.poseidon
  identityTag : t.identityTag.Inv C.poseidon

theorem Trees.Inv.replay (H : t.Inv C) (h : records.foldlM (replayRecord C) t = .ok t') : t'.Inv C := by
  obtain ⟨hr, ht⟩ := replayFrom_eq_ok.mp h
  exact ⟨(insertAll_ok H.running hr).1, (insertAll_ok H.identityTag ht).1⟩

theorem replay_append_eq_ok {before : List RecordEntry} : replay C (before ++ records) = .ok t' ↔
      ∃ t, replay C before = .ok t ∧ records.foldlM (replayRecord C) t = .ok t' := by
  simp only [replay, List.foldlM_append, bind_eq_ok]

structure Replayed (C : Primitives) (records : List RecordEntry) (t : Trees) : Prop where
  inv : t.Inv C
  leaves : IndexedList.values t.running.leaves = 0 :: records.map (·.leaf C)
  tags : IndexedList.values t.identityTag.leaves = 0 :: records.map (·.tag)
  leaves_nodup : (records.map (·.leaf C)).Nodup
  tags_nodup : (records.map (·.tag)).Nodup
  tag_ne_zero : ∀ r ∈ records, r.tag ≠ 0

theorem replay_spec (h : replay C records = .ok t) : Replayed C records t := by
  obtain ⟨hr, ht⟩ := replayFrom_eq_ok.mp h
  have Hnew := @new_inv Fr _ C.poseidon
  have hzero : IndexedList.values (IndexedMerkleTree.new C.poseidon).leaves = [0] := by
    rw [new_leaves]
    rfl
  obtain ⟨Hr, hvr⟩ := insertAll_ok Hnew hr
  obtain ⟨Ht, hvt⟩ := insertAll_ok Hnew ht
  obtain ⟨-, hndr, -⟩ := (exists_insertAll_iff Hnew).mp ⟨_, hr⟩
  obtain ⟨-, hndt, hnew⟩ := (exists_insertAll_iff Hnew).mp ⟨_, ht⟩
  refine ⟨⟨Hr, Ht⟩, ?_, ?_, hndr, hndt, fun r hr h0 => ?_⟩
  · exact hvr.trans (congrArg (· ++ _) hzero)
  · exact hvt.trans (congrArg (· ++ _) hzero)
  · apply hnew r.tag (List.mem_map_of_mem hr)
    show r.tag ∈ IndexedList.values (IndexedMerkleTree.new C.poseidon).leaves
    rw [hzero, h0]
    exact List.mem_singleton_self 0

theorem Replayed.size (h : Replayed C records t) :
    t.running.size = records.length + 1 ∧ t.identityTag.size = records.length + 1 := by
  have hr := congrArg List.length h.leaves
  have ht := congrArg List.length h.tags
  simp only [IndexedList.values, List.length_map, List.length_cons] at hr ht
  exact ⟨hr, ht⟩

/-- A tree has room for less than `2 ^ 24` records. -/
theorem Replayed.length_lt (h : Replayed C records t) : records.length < 2 ^ imtDepth := by
  have hbound := h.inv.running.bound
  have hsize : t.running.leaves.length = records.length + 1 := h.size.1
  omega

/-- Records whose leaves and tags are new and distinct replay, as long as there is room. -/
theorem exists_replay (hlen : records.length < 2 ^ imtDepth)
    (hleaves : (records.map (·.leaf C)).Nodup) (htags : (records.map (·.tag)).Nodup)
    (hl0 : ∀ r ∈ records, r.leaf C ≠ 0) (ht0 : ∀ r ∈ records, r.tag ≠ 0) : ∃ t, replay C records = .ok t := by
  have Hnew := @new_inv Fr _ C.poseidon
  have hall : ∀ f : RecordEntry → Fr, (records.map f).Nodup → (∀ r ∈ records, f r ≠ 0) →
      ∃ t', (IndexedMerkleTree.new C.poseidon).insertAll C.poseidon (records.map f) = .ok t' := by
    intro f hnd h0
    apply (exists_insertAll_iff Hnew).mpr
    refine ⟨?_, hnd, fun v hv hmem => ?_⟩
    · rw [new_leaves, List.length_singleton, List.length_map]
      omega
    · obtain ⟨r, hr, rfl⟩ := List.mem_map.mp hv
      rw [new_leaves] at hmem
      exact h0 r hr (List.mem_singleton.mp hmem)
  obtain ⟨running, hr⟩ := hall _ hleaves hl0
  obtain ⟨identityTag, ht⟩ := hall _ htags ht0
  exact ⟨⟨running, identityTag⟩, replayFrom_eq_ok.mpr ⟨hr, ht⟩⟩

end

/-! ## The loop of `publish_batch` -/

section
variable {C : Primitives} {classSet : List ClassTag} {records : List RecordEntry} {st st' : Scratch}

def Scratch.trees (st : Scratch) : Trees := ⟨st.runningImt, st.identityTagImt⟩

def Scratch.RootsOK (st : Scratch) : Prop :=
  st.lastRunningRoot = st.runningImt.rootBytes ∧ st.lastIdentityTagRoot = st.identityTagImt.rootBytes

private theorem insertRecord_ok {r : RecordEntry} {i : Nat}
    (h : insertRecord C classSet st (r, i) = .ok st') (H : st.trees.Inv C) :
    r.classTag ∈ classSet ∧ (∀ p ∈ st.prevLeaf, p < frToBeBytes (r.leaf C)) ∧
      st'.prevLeaf = some (frToBeBytes (r.leaf C)) ∧
      replayRecord C st.trees r = .ok st'.trees ∧ st'.RootsOK := by
  simp only [insertRecord, bind_eq_ok, failIf_eq_ok, mapErr_eq_ok, pure_eq_ok, not_not] at h
  obtain ⟨-, hclass, -, hprev, ⟨w, running⟩, hr, ⟨w', tag⟩, ht, rfl⟩ := h
  obtain ⟨-, _, _, _, _, _, _, hw⟩ := insert_ok H.running hr
  obtain ⟨-, _, _, _, _, _, _, hw'⟩ := insert_ok H.identityTag ht
  refine ⟨hclass, fun p hp => ?_, rfl, ?_, ?_⟩
  · rw [Option.mem_def.mp hp] at hprev
    simpa using hprev
  · simp only [replayRecord, bind_eq_ok, pure_eq_ok]
    exact ⟨_, hr, _, ht, rfl⟩
  · rw [hw, hw']
    exact ⟨rfl, rfl⟩

/-- The loop checks every record, in increasing order of leaves, and replays it. -/
theorem insertRecords_ok {k : Nat}
    (h : (records.zipIdx k).foldlM (insertRecord C classSet) st = .ok st') (H : st.trees.Inv C)
    (hroots : st.RootsOK) : (∀ r ∈ records, r.classTag ∈ classSet) ∧
      records.Pairwise (fun r r' => r.leaf C < r'.leaf C) ∧
      (∀ p ∈ st.prevLeaf, ∀ r ∈ records, p < frToBeBytes (r.leaf C)) ∧
      records.foldlM (replayRecord C) st.trees = .ok st'.trees ∧ st'.RootsOK := by
  induction records generalizing st k with
  | nil =>
    obtain rfl := Except.ok.inj h
    exact ⟨by simp, .nil, by simp, rfl, hroots⟩
  | cons r records ih =>
    simp only [List.zipIdx_cons, List.foldlM_cons, bind_eq_ok] at h
    obtain ⟨st₁, h₁, h⟩ := h
    obtain ⟨hclass, hprev, hleaf, hrep, hroots₁⟩ := insertRecord_ok h₁ H
    have H₁ : st₁.trees.Inv C := @Trees.Inv.replay _ _ _ [r] H (by simp [hrep])
    obtain ⟨hclasses, hord, habove, hreps, hroots'⟩ := ih h H₁ hroots₁
    have hnext : ∀ r' ∈ records, r.leaf C < r'.leaf C := fun r' hr' =>
      frToBeBytes_lt.mp (habove _ hleaf r' hr')
    refine ⟨List.forall_mem_cons.mpr ⟨hclass, hclasses⟩, .cons hnext hord, fun p hp r' hr' => ?_, ?_, hroots'⟩
    · obtain rfl | hr' := List.mem_cons.mp hr'
      · exact hprev p hp
      · have hlt := hprev p hp
        have hlt' := frToBeBytes_lt.mpr (hnext r' hr')
        rw [Bytes.lt_iff] at *
        omega
    · rw [List.foldlM_cons, hrep]
      exact hreps

end

end Pocs.Civic
