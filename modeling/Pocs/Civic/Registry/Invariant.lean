import Pocs.Civic.Registry.Replay

/-! # The representation invariant of the registry

A history determines which records were published to a petition (`published`). `EntryInv` relates
the entry of a petition to them: the active batches are the first `k`, and every root and count
stored for a batch or for the petition is that of the trees replayed up to there. `history_inv`
carries it through every history. -/

namespace Pocs.Civic

/-! ## Publications -/

/-- A batch accepted by `publish_batch`. -/
structure Publication where
  petitionId : PetitionId
  versionedHash : Bytes32
  records : List RecordEntry

def Step.publication (s : Step) : Option Publication :=
  match s.call, s.result with
  | .publishBatch petitionId _ sub, .ok (.published ev) =>
    some ⟨petitionId, ev.batchVersionedHash, sub.records⟩
  | _, _ => none

/-- The batches published to a petition, oldest first. -/
def published (tr : List Step) (pid : PetitionId) : List Publication :=
  (tr.reverse.filterMap Step.publication).filter (·.petitionId = pid)

/-- The records of the batches, in order. -/
def recordsOf (ps : List Publication) : List RecordEntry := ps.flatMap (·.records)

/-- The records of the batches that are still active. -/
def activeRecords (e : PetitionEntry) (ps : List Publication) : List RecordEntry :=
  recordsOf (((e.batches.zip ps).filter (·.1.state = .active)).map (·.2))

theorem published_cons_some {s : Step} {tr : List Step} {p : Publication}
    (h : s.publication = some p) : published (s :: tr) p.petitionId = published tr p.petitionId ++ [p] := by
  simp [published, h]

theorem published_cons_of_ne {s : Step} {tr : List Step} {pid : PetitionId}
    (h : ∀ p, s.publication = some p → p.petitionId ≠ pid) : published (s :: tr) pid = published tr pid := by
  cases hs : s.publication with
  | none => simp [published, hs]
  | some p => simp [published, hs, h p hs]

theorem mem_published {tr : List Step} {pid : PetitionId} {p : Publication} :
    p ∈ published tr pid ↔ (∃ s ∈ tr, s.publication = some p) ∧ p.petitionId = pid := by
  simp [published]

section
variable {C : Primitives} {env : Ports} {e : PetitionEntry} {st : PetitionState}
  {sub : BatchSubmission} {u : BatchUpdate}

structure BatchChecked (C : Primitives) (e : PetitionEntry) (st : PetitionState)
    (sub : BatchSubmission) (u : BatchUpdate) : Prop where
  signing : st = .signingOpen
  encoded : ∃ fes, encodeBlob sub.records = .ok fes ∧ computeBatchVersionedHash C fes = u.localVh
  pos : 0 < sub.records.length
  size : sub.records.length ≤ batchSizeMax
  priorRr : u.priorRr = e.record.runningRoot
  priorIdt : u.priorIdt = e.record.identityTagSetRoot
  priorLc : u.priorLc = e.record.leafCount
  newLc : u.newLc = e.record.leafCount + sub.records.length
  loop : ∃ s, sub.records.zipIdx.foldlM (insertRecord C e.record.classSet)
      ⟨e.runningImt, e.identityTagImt, none, e.record.runningRoot, e.record.identityTagSetRoot⟩ =
        .ok s ∧ u.newRr = s.lastRunningRoot ∧ u.newIdt = s.lastIdentityTagRoot ∧
      u.runningImt = s.runningImt ∧ u.identityTagImt = s.identityTagImt

theorem checkBatch_ok (h : checkBatch C env e st sub = .ok u) : BatchChecked C e st sub u := by
  simp only [checkBatch, bind_eq_ok, failIf_eq_ok, mapErr_eq_ok, okOr_eq_ok, pure_eq_ok,
    checkedAdd_eq_some, not_not, not_or, not_lt] at h
  obtain ⟨-, hsign, fes, hfes, -, -, -, -, -, -, -, -, size, -, -, ⟨hpos, hsize⟩, -, hlen, priorLc,
    -, -, ⟨hrr, hidt, hlc⟩, newLc, -, expected, ⟨-, rfl⟩, -, hnew, s, hs, -, hnrr, -, hnidt, rfl⟩ :=
    h
  subst hlen hlc hnew
  rw [hrr, hidt] at hs
  exact ⟨hsign, ⟨fes, hfes, rfl⟩, Nat.pos_of_ne_zero hpos, hsize, hrr, hidt, rfl, rfl, s, hs, hnrr,
    hnidt, rfl, rfl⟩

end

/-! ## The invariant of an entry -/

/-- The roots and the count of the trees over `records`. -/
structure Summary (C : Primitives) (records : List RecordEntry) (rr idt : Bytes32) (lc : Nat) : Prop where
  replays : ∃ t, replay C records = .ok t ∧ rr = t.running.rootBytes ∧ idt = t.identityTag.rootBytes
  count : lc = records.length

/-- A batch record stored for the publication `p` that came after `before`. -/
structure BatchOK (C : Primitives) (classSet : List ClassTag) (before : List RecordEntry)
    (b : BatchRecord) (p : Publication) : Prop where
  versionedHash : b.batchVersionedHash = p.versionedHash
  encoded : ∃ fes, encodeBlob p.records = .ok fes ∧ computeBatchVersionedHash C fes = p.versionedHash
  pos : 0 < p.records.length
  size : p.records.length ≤ batchSizeMax
  classTags : ∀ r ∈ p.records, r.classTag ∈ classSet
  ordered : p.records.Pairwise (fun r r' => r.leaf C < r'.leaf C)
  prior : Summary C before b.priorRunningRoot b.priorIdentityTagSetRoot b.priorLeafCount
  next : Summary C (before ++ p.records) b.newRunningRoot b.newIdentityTagSetRoot b.newLeafCount

/-- The entry of a petition with publications `ps`, of which the first `k` are active. -/
structure EntryInv (C : Primitives) (e : PetitionEntry) (ps : List Publication) (k : Nat) : Prop where
  length : e.batches.length = ps.length
  le : k ≤ ps.length
  active : ∀ i b, e.batches[i]? = some b → (b.state = .active ↔ i < k)
  batch : ∀ i b p, e.batches[i]? = some b → ps[i]? = some p →
    BatchOK C e.record.classSet (recordsOf (ps.take i)) b p
  /-- The roots are those of the active records, up to the tombstone. -/
  roots : ∃ t, replay C (recordsOf (ps.take k)) = .ok t ∧
    (e.record.state ≠ .unresolved → e.record.runningRoot = t.running.rootBytes) ∧
    e.record.identityTagSetRoot = t.identityTag.rootBytes
  leafCount : e.record.leafCount = (recordsOf (ps.take k)).length
  /-- While signing is open nothing has been repudiated and the trees are the replayed ones. -/
  signing : e.record.state.Open → k = ps.length ∧ replay C (recordsOf ps) = .ok ⟨e.runningImt, e.identityTagImt⟩
  bounty : ∃ amount, u256ToU128 e.record.bounty = .ok amount

section
variable {C : Primitives} {env : Ports} {e : PetitionEntry} {ps : List Publication} {k : Nat}
  {st : PetitionState} {sub : BatchSubmission} {u : BatchUpdate} {b c : Nat}

theorem Advance.open_of_open {s : PetitionState} (h : Advance b c s st) (hopen : st.Open) : s.Open := by
  cases h with
  | opened hs _ => exact hs
  | cooling | disputes => simp [PetitionState.Open] at hopen
  | stays => exact hopen

theorem Advance.eq_of_terminal {s : PetitionState} (h : Advance b c s st) (hs : s.Terminal) : st = s := by
  cases h with
  | opened hopen _ => obtain rfl | rfl := hopen <;> simp [PetitionState.Terminal] at hs
  | cooling h' _ | disputes h' _ => exact absurd hs h'.2
  | stays => rfl

theorem Advance.eq_of_terminal_right {s : PetitionState} (h : Advance b c s st)
    (hst : st.Terminal) : st = s := by
  cases h with
  | opened | cooling | disputes => simp [PetitionState.Terminal] at hst
  | stays => rfl

/-- `step_state` keeps the invariant. -/
theorem EntryInv.withState (H : EntryInv C e ps k) (h : Advance b c e.record.state st) :
    EntryInv C (e.withState st) ps k := by
  obtain ⟨t, ht, hrr, hidt⟩ := H.roots
  refine ⟨H.length, H.le, H.active, H.batch, ⟨t, ht, fun hst => hrr fun he => ?_, hidt⟩, H.leafCount,
    fun hopen => H.signing (h.open_of_open hopen), H.bounty⟩
  exact hst ((h.eq_of_terminal (.inr he)).trans he)

theorem recordsOf_append (ps qs : List Publication) :
    recordsOf (ps ++ qs) = recordsOf ps ++ recordsOf qs := List.flatMap_append

@[simp] theorem recordsOf_singleton (p : Publication) : recordsOf [p] = p.records := by
  simp [recordsOf]

/-- There are at most as many batches as records. -/
theorem EntryInv.length_le (H : EntryInv C e ps k) : ps.length ≤ (recordsOf ps).length := by
  have hpos : ∀ p ∈ ps, 1 ≤ p.records.length := by
    intro p hp
    obtain ⟨i, hi⟩ := List.mem_iff_getElem?.mp hp
    obtain ⟨hlt, -⟩ := List.getElem?_eq_some_iff.mp hi
    rw [← H.length] at hlt
    exact (H.batch i _ p (List.getElem?_eq_getElem hlt) hi).pos
  clear H
  induction ps with
  | nil => simp
  | cons p ps ih =>
    have hp := hpos p List.mem_cons_self
    have := ih fun q hq => hpos q (List.mem_cons_of_mem p hq)
    simp only [recordsOf, List.flatMap_cons, List.length_cons, List.length_append] at this ⊢
    omega

/-- While signing is open the batch index does not overflow. -/
theorem EntryInv.batches_lt (H : EntryInv C e ps k) (hopen : e.record.state.Open) :
    e.batches.length < 2 ^ 32 := by
  have hlt := (replay_spec (H.signing hopen).2).length_lt
  have hle := H.length_le
  rw [H.length]
  calc ps.length ≤ (recordsOf ps).length := hle
    _ < 2 ^ imtDepth := hlt
    _ ≤ 2 ^ 32 := by decide

private theorem getElem?_concat {α : Type} {l : List α} {a x : α} {i : Nat}
    (h : (l ++ [a])[i]? = some x) : l[i]? = some x ∨ (i = l.length ∧ x = a) := by
  rcases Nat.lt_trichotomy i l.length with hi | rfl | hi
  · rw [List.getElem?_append_left hi] at h
    exact .inl h
  · simp only [List.getElem?_concat_length, Option.some.injEq] at h
    exact .inr ⟨rfl, h.symm⟩
  · rw [List.getElem?_eq_none (by simp; omega)] at h
    cases h

theorem BatchChecked.replays (h : BatchChecked C e st sub u) {before : List RecordEntry}
    (hrep : replay C before = .ok ⟨e.runningImt, e.identityTagImt⟩)
    (hrr : e.record.runningRoot = e.runningImt.rootBytes)
    (hidt : e.record.identityTagSetRoot = e.identityTagImt.rootBytes) :
    (∀ r ∈ sub.records, r.classTag ∈ e.record.classSet) ∧
      sub.records.Pairwise (fun r r' => r.leaf C < r'.leaf C) ∧
      replay C (before ++ sub.records) = .ok ⟨u.runningImt, u.identityTagImt⟩ ∧
      u.newRr = u.runningImt.rootBytes ∧ u.newIdt = u.identityTagImt.rootBytes := by
  obtain ⟨s, hs, hnrr, hnidt, hrun, htag⟩ := h.loop
  obtain ⟨hclass, hord, -, hreps, hroots⟩ := insertRecords_ok hs (replay_spec hrep).inv ⟨hrr, hidt⟩
  rw [hrun, htag, hnrr, hnidt]
  exact ⟨hclass, hord, replay_append_eq_ok.mpr ⟨_, hrep, hreps⟩, hroots⟩

/-- `publish_batch` appends an active batch. -/
theorem EntryInv.publish (H : EntryInv C e ps k) (hu : BatchChecked C e st sub u)
    (hopen : e.record.state.Open) (pid : PetitionId) (relayer : Address) (block : Nat) :
    EntryInv C ((e.withTrees u).withBatch u (u.batch pid e.batches.length relayer block))
      (ps ++ [⟨pid, u.localVh, sub.records⟩]) (k + 1) := by
  obtain ⟨rfl, hrep⟩ := H.signing hopen
  obtain ⟨t, ht, hrr, hidt⟩ := H.roots
  rw [List.take_length] at ht
  obtain rfl := Except.ok.inj (hrep.symm.trans ht)
  have hrr := hrr fun he => by rw [he] at hopen; simp [PetitionState.Open] at hopen
  obtain ⟨hclass, hord, hrep', hnrr, hnidt⟩ := hu.replays hrep hrr hidt
  have hlc := H.leafCount
  rw [List.take_length] at hlc
  have hrecs : recordsOf (ps ++ [⟨pid, u.localVh, sub.records⟩]) = recordsOf ps ++ sub.records := by
    rw [recordsOf_append, recordsOf_singleton]
  have hnewLc : u.newLc = (recordsOf ps ++ sub.records).length := by
    rw [hu.newLc, hlc, List.length_append]
  have htake : ∀ p : Publication, (ps ++ [p]).take (ps.length + 1) = ps ++ [p] :=
    fun p => List.take_of_length_le (by simp)
  refine ⟨by simp [PetitionEntry.withBatch, PetitionEntry.withTrees, H.length], by simp, ?_, ?_, ?_,
    ?_, ?_, H.bounty⟩
  · intro i b hb
    obtain hb | ⟨rfl, rfl⟩ := getElem?_concat hb
    · have hi := (List.getElem?_eq_some_iff.mp hb).1
      have hact := (H.active i b hb).mpr (H.length ▸ hi)
      exact iff_of_true hact (Nat.lt_succ_of_lt (H.length ▸ hi))
    · exact iff_of_true rfl (H.length ▸ Nat.lt_succ_self _)
  · intro i b p hb hp
    obtain hb | ⟨rfl, rfl⟩ := getElem?_concat hb
    · have hi : i < ps.length := H.length ▸ (List.getElem?_eq_some_iff.mp hb).1
      rw [List.getElem?_append_left hi] at hp
      rw [List.take_append_of_le_length hi.le]
      exact H.batch i b p hb hp
    · have hlen : (e.withTrees u).batches.length = ps.length := H.length
      rw [hlen] at hp ⊢
      rw [List.getElem?_concat_length, Option.some.injEq] at hp
      subst hp
      rw [List.take_left]
      exact ⟨rfl, hu.encoded, hu.pos, hu.size, hclass, hord,
        ⟨⟨_, hrep, hu.priorRr.trans hrr, hu.priorIdt.trans hidt⟩, hu.priorLc.trans hlc⟩,
        ⟨⟨_, hrep', hnrr, hnidt⟩, hnewLc⟩⟩
  · rw [htake, hrecs]
    exact ⟨_, hrep', fun _ => hnrr, hnidt⟩
  · rw [htake, hrecs]
    exact hnewLc
  · intro _
    rw [hrecs]
    exact ⟨by simp, hrep'⟩

/-! ## Disputes -/

structure DisputeChecked (env : Ports) (e : PetitionEntry) (st : PetitionState) (d : Dispute)
    (b : BatchRecord) : Prop where
  window : st = .disputeWindow
  close_lt : e.record.closeAtBlock + resolutionDeadlineBlocks < 2 ^ 64
  now_lt : env.now < e.record.closeAtBlock + resolutionDeadlineBlocks
  batch : e.batches[d.batchIndex]? = some b
  active : b.state = .active
  openings : ∀ o ∈ d.openings, env.verify b.batchVersionedHash o = .ok ()

theorem checkDispute_eq_ok {d : Dispute} {b : BatchRecord} :
    checkDispute env e st d = .ok b ↔ DisputeChecked env e st d b := by
  have hstate : b.state ≠ .repudiated ↔ b.state = .active := by cases b.state <;> simp
  simp only [checkDispute, bind_eq_ok, failIf_eq_ok, okOr_eq_ok, pure_eq_ok, checkedAdd_eq_some,
    forM_eq_ok, mapErr_eq_ok, not_not, not_le]
  constructor
  · rintro ⟨-, hst, _, ⟨hlt, rfl⟩, -, hnow, b', hb, -, hne, -, hopen, rfl⟩
    exact ⟨hst, hlt, hnow, hb, hstate.mp hne, hopen⟩
  · rintro ⟨hst, hlt, hnow, hb, hact, hopen⟩
    exact ⟨(), hst, _, ⟨hlt, rfl⟩, (), hnow, b, hb, (), hstate.mpr hact, (), hopen, rfl⟩

theorem recordsOf_take_succ {i : Nat} {p : Publication} (h : ps[i]? = some p) :
    recordsOf (ps.take (i + 1)) = recordsOf (ps.take i) ++ p.records := by
  rw [List.take_add_one, h, Option.toList_some, recordsOf_append, recordsOf_singleton]

/-- The predecessor's roots and count are those of the records before the disputed batch. -/
theorem EntryInv.rollBack (H : EntryInv C e ps k) {j : Nat} (hj : j < k) {rr idt : Bytes32}
    {lc : Nat} (h : rollBackToPredecessor e.batches j (Trees.new C).running.rootBytes =
      (rr, idt, lc)) : Summary C (recordsOf (ps.take j)) rr idt lc := by
  cases j with
  | zero =>
    simp only [rollBackToPredecessor, List.take_zero, List.reverse_nil, List.find?_nil, Prod.mk.injEq] at h
    obtain ⟨rfl, rfl, rfl⟩ := h
    exact ⟨⟨Trees.new C, rfl, rfl, rfl⟩, rfl⟩
  | succ i =>
    have hi : i < e.batches.length := by
      rw [H.length]
      exact (Nat.lt_of_succ_lt hj).trans_le H.le
    have hb := List.getElem?_eq_getElem hi
    have hp := List.getElem?_eq_getElem (H.length ▸ hi : i < ps.length)
    have hact := (H.active i _ hb).mpr (Nat.lt_of_succ_lt hj)
    rw [rollBackToPredecessor, List.take_add_one, hb, Option.toList_some, List.reverse_append,
      List.reverse_singleton, List.singleton_append, List.find?_cons_of_pos (by simpa using hact)]
      at h
    simp only [Prod.mk.injEq] at h
    obtain ⟨rfl, rfl, rfl⟩ := h
    rw [recordsOf_take_succ hp]
    exact (H.batch i _ _ hb hp).next

theorem BatchOK.repudiate {classSet : List ClassTag} {before : List RecordEntry} {b : BatchRecord}
    {p : Publication} (h : BatchOK C classSet before b p) :
    BatchOK C classSet before { b with state := .repudiated } p :=
  ⟨h.versionedHash, h.encoded, h.pos, h.size, h.classTags, h.ordered, h.prior, h.next⟩

private theorem rolledBack_getElem? {j i : Nat} {b : BatchRecord} {rr idt : Bytes32} {lc : Nat}
    {t : Trees} (h : (e.rolledBack j rr idt lc t).batches[i]? = some b) : (i < j ∧ e.batches[i]? = some b) ∨
      (j ≤ i ∧ ∃ b₀, e.batches[i]? = some b₀ ∧ b = { b₀ with state := .repudiated }) := by
  simp only [PetitionEntry.rolledBack, List.getElem?_append, List.length_take, lt_inf_iff] at h
  split at h
  next hi =>
    rw [List.getElem?_take_of_lt hi.1] at h
    exact .inl ⟨hi.1, h⟩
  next hi =>
    rw [List.getElem?_map, List.getElem?_drop, Option.map_eq_some_iff] at h
    obtain ⟨b₀, hb₀, rfl⟩ := h
    by_cases hlen : j ≤ e.batches.length
    · have hji : j ≤ i := by
        by_contra hlt
        exact hi ⟨by omega, by omega⟩
      rw [Nat.min_eq_left hlen, Nat.add_sub_cancel' hji] at hb₀
      exact .inr ⟨hji, b₀, hb₀, rfl⟩
    · rw [List.getElem?_eq_none (by omega)] at hb₀
      cases hb₀

theorem EntryInv.dispute (H : EntryInv C e ps k) (hst : e.record.state = .disputeWindow) {j : Nat}
    (hj : j < k) {rr idt : Bytes32} {lc : Nat}
    (h : rollBackToPredecessor e.batches j (Trees.new C).running.rootBytes = (rr, idt, lc))
    (t : Trees) : EntryInv C (e.rolledBack j rr idt lc t) ps j := by
  obtain ⟨⟨t', ht', hrr, hidt⟩, hlc⟩ := H.rollBack hj h
  have hle : j ≤ e.batches.length := by
    rw [H.length]
    exact hj.le.trans H.le
  refine ⟨?_, hj.le.trans H.le, fun i b hb => ?_, fun i b p hb hp => ?_,
    ⟨t', ht', fun _ => hrr, hidt⟩, hlc, fun hopen => ?_, H.bounty⟩
  · simp only [PetitionEntry.rolledBack, List.length_append, List.length_take, List.length_map,
      List.length_drop, ← H.length]
    omega
  · obtain ⟨hi, hb⟩ | ⟨hi, b₀, -, rfl⟩ := rolledBack_getElem? hb
    · exact iff_of_true ((H.active i b hb).mpr (hi.trans hj)) hi
    · exact iff_of_false (by simp) (by omega)
  · obtain ⟨-, hb'⟩ | ⟨-, b₀, hb', rfl⟩ := rolledBack_getElem? hb
    · exact H.batch i b p hb' hp
    · exact (H.batch i b₀ p hb' hp).repudiate
  · have hopen : e.record.state.Open := hopen
    rw [hst] at hopen
    simp [PetitionState.Open] at hopen

/-! ## Histories -/

variable {pid : PetitionId} {reg reg' : PetitionRegistry} {tr : List Step} {s : Step}

theorem EntryInv.new {draft : PetitionDraft} {d : DraftBindings}
    (hroot : reg.emptyImtRoot = (Trees.new C).running.rootBytes)
    (hd : DraftChecked env reg draft d) : EntryInv C (newEntry C env reg draft d) [] 0 :=
  ⟨rfl, Nat.le_refl 0, by simp [newEntry], by simp [newEntry], ⟨Trees.new C, rfl, fun _ => hroot, hroot⟩,
    rfl, fun _ => ⟨rfl, rfl⟩, ⟨_, hd.bounty⟩⟩

/-- A terminal transition writes the outcome or the tombstone. -/
theorem EntryInv.withOutcome (H : EntryInv C e ps k) (hst : e.record.state ≠ .unresolved)
    (b : Bool) (bs : List Bool) (proof : List UInt8) : EntryInv C (e.withOutcome b bs proof) ps k := by
  obtain ⟨t, ht, hrr, hidt⟩ := H.roots
  exact ⟨H.length, H.le, H.active, H.batch, ⟨t, ht, fun _ => hrr hst, hidt⟩, H.leafCount,
    fun hopen => by simp [PetitionEntry.withOutcome, PetitionState.Open] at hopen, H.bounty⟩

theorem EntryInv.tombstoned (H : EntryInv C e ps k) : EntryInv C e.tombstoned ps k := by
  obtain ⟨t, ht, -, hidt⟩ := H.roots
  exact ⟨H.length, H.le, H.active, H.batch, ⟨t, ht, fun h => absurd rfl h, hidt⟩, H.leafCount,
    fun hopen => by simp [PetitionEntry.tombstoned, PetitionState.Open] at hopen, H.bounty⟩

theorem Step.publication_target {p : Publication} (h : s.publication = some p) :
    s.call.target = some p.petitionId := by
  obtain ⟨env, call, result⟩ := s
  unfold Step.publication at h
  split at h
  next hcall _ =>
    obtain rfl : call = _ := hcall
    cases h
    rfl
  next => cases h

theorem EntryInv.step {e' : PetitionEntry} (H : EntryInv C e (published tr pid) k)
    (h : EntryStep C s.env (Trees.new C).running.rootBytes pid e s.call s.result e') :
    ∃ k', EntryInv C e' (published (s :: tr) pid) k' := by
  obtain ⟨env, call, result⟩ := s
  have hother : Step.publication ⟨env, call, result⟩ = none →
      published (⟨env, call, result⟩ :: tr) pid = published tr pid :=
    fun hnone => published_cons_of_ne fun p hp => by rw [hnone] at hp; cases hp
  cases h with
  | untouched hc =>
    rw [published_cons_of_ne fun p hp heq => hc ((Step.publication_target hp).trans (congrArg some heq))]
    exact ⟨k, H⟩
  | failed _ hst =>
    rw [hother (by unfold Step.publication; split <;> simp_all)]
    exact ⟨k, H.withState (stepState_advance hst)⟩
  | @published relayer sub st u hst hu _ =>
    have hchk := checkBatch_ok hu
    have hadv := stepState_advance hst
    rw [published_cons_some (p := ⟨pid, u.localVh, sub.records⟩) rfl]
    exact ⟨k + 1, (H.withState hadv).publish hchk (hchk.signing ▸ .inr rfl) pid relayer _⟩
  | indexOverflow hst hu hlen =>
    have hopen := (stepState_advance hst).open_of_open (.inr (checkBatch_ok hu).signing)
    exact absurd (H.batches_lt hopen) (not_lt.mpr hlen)
  | @disputed d st b _ t _ _ _ _ hst hb _ _ _ hroll =>
    have hchk := checkDispute_eq_ok.mp hb
    rw [hother rfl]
    have H' := H.withState (stepState_advance hst)
    exact ⟨d.batchIndex, H'.dispute hchk.window ((H'.active _ b hchk.batch).mp hchk.active) hroll t⟩
  | resolved hst hc _ _ _ =>
    rw [hother rfl]
    refine ⟨k, (H.withState (stepState_advance hst)).withOutcome ?_ _ _ _⟩
    simp only [checkResolution, bind_eq_ok, failIf_eq_ok, not_not] at hc
    obtain ⟨-, rfl, -⟩ := hc
    simp [PetitionEntry.withState]
  | bountyOverflow _ ha =>
    obtain ⟨amount, hamount⟩ := H.bounty
    rw [hamount] at ha
    cases ha
  | unresolved hst _ =>
    rw [hother rfl]
    exact ⟨k, (H.withState (stepState_advance hst)).tombstoned⟩

structure RegistryInv (C : Primitives) (tr : List Step) (reg : PetitionRegistry) : Prop where
  emptyImtRoot : reg.emptyImtRoot = (Trees.new C).running.rootBytes
  absent : ∀ pid, reg.petitions pid = none → published tr pid = []
  entry : ∀ pid e, reg.petitions pid = some e → ∃ k, EntryInv C e (published tr pid) k

theorem RegistryInv.step (H : RegistryInv C tr reg) (h : Transition C reg s reg') :
    RegistryInv C (s :: tr) reg' := by
  have hpid := transition_entry h
  -- a call on a petition that does not exist publishes nothing
  have hnew : ∀ pid, reg.petitions pid = none → published (s :: tr) pid = [] := by
    intro pid hnone
    rw [published_cons_of_ne, H.absent pid hnone]
    rintro p hp rfl
    have hres := (hpid p.petitionId).absent hnone (Step.publication_target hp)
    unfold Step.publication at hp
    rw [hres] at hp
    split at hp <;> simp_all
  refine ⟨(hpid (Bytes.zero 32)).emptyImtRoot.trans H.emptyImtRoot, fun pid hnone => ?_, fun pid e' he' => ?_⟩
  · cases he : reg.petitions pid with
    | none => exact hnew pid he
    | some e =>
      obtain ⟨e', he', -⟩ := (hpid pid).entry e he
      rw [hnone] at he'
      cases he'
  · cases he : reg.petitions pid with
    | none =>
      obtain ⟨draft, d, st, p, ev, -, hd, -, -, hst, rfl, -⟩ := (hpid pid).created he e' he'
      rw [hnew pid he]
      exact ⟨0, (EntryInv.new H.emptyImtRoot (checkDraft_ok hd)).withState (stepState_advance hst)⟩
    | some e =>
      obtain ⟨e₁, he₁, hstep⟩ := (hpid pid).entry e he
      obtain rfl := Option.some.inj (he'.symm.trans he₁)
      obtain ⟨k, Hk⟩ := H.entry pid e he
      rw [H.emptyImtRoot] at hstep
      exact Hk.step hstep

/-- The invariant holds along every history. -/
theorem history_inv {address : Address} {global : GlobalState}
    (h : History C address global tr reg) : RegistryInv C tr reg :=
  h.invariant ⟨rfl, fun _ _ => rfl, fun _ _ he => by cases he⟩ fun _ _ _ _ _ hstep H => H.step hstep

end

end Pocs.Civic
