import Pocs.Civic.Registry.Progress

/-! # What a dispute can repudiate

Openings that verify determine the record at a blob position (`deriveEvidence_eq`): a published one,
or the zero record of the padding. The checks of `publish_batch` rule out a violation among the
published records, so that a dispute succeeds only against the padding (`dispute_ok_iff`). -/

namespace Pocs.Civic

open InMemoryBlobCarrier

/-! ## Evidence -/

section
variable {fes : List Bytes32} {base : Nat} {l l' : List (Option KzgOpening)} {o : KzgOpening}

private structure Placed (fes : List Bytes32) (base : Nat) (l : List (Option KzgOpening)) : Prop where
  length : l.length = 4
  values : ∀ off o, l[off]? = some (some o) → fes[base + off]? = some o.claimedValue

private theorem Placed.place (H : Placed fes base l) (ho : fes[o.fieldElementIndex]? = some o.claimedValue)
    (h : placeOpening base l o = some l') : Placed fes base l' := by
  simp only [placeOpening] at h
  split at h
  · next hoff =>
    split at h
    · cases h
    · obtain rfl := Option.some.inj h
      refine ⟨by rw [List.length_set, H.length], fun off o' ho' => ?_⟩
      rw [List.getElem?_set] at ho'
      split at ho'
      · next heq =>
        subst heq
        rw [H.length, if_pos hoff.2] at ho'
        obtain rfl := Option.some.inj (Option.some.inj ho')
        rwa [Nat.add_sub_cancel' hoff.1]
      · exact H.values off o' ho'
  · obtain rfl := Option.some.inj h
    exact H

private theorem Placed.placeAll (H : Placed fes base l) {os : List KzgOpening}
    (hos : ∀ o ∈ os, fes[o.fieldElementIndex]? = some o.claimedValue)
    (h : os.foldlM (placeOpening base) l = some l') : Placed fes base l' := by
  induction os generalizing l with
  | nil => exact Option.some.inj h ▸ H
  | cons o os ih =>
    obtain ⟨l₁, hl₁, h⟩ := Option.bind_eq_some_iff.mp h
    exact ih (H.place (hos o List.mem_cons_self) hl₁) (fun o' ho' => hos o' (List.mem_cons_of_mem o ho')) h

private theorem eq_map_some_of_mapM {α : Type} {xs : List (Option α)} {ys : List α}
    (h : xs.mapM id = some ys) : xs = ys.map some := by
  induction xs generalizing ys with
  | nil =>
    obtain rfl := Option.some.inj h
    rfl
  | cons x xs ih =>
    rw [List.mapM_cons] at h
    obtain ⟨y, hy, h⟩ := Option.bind_eq_some_iff.mp h
    obtain ⟨ys', hys, h⟩ := Option.bind_eq_some_iff.mp h
    obtain rfl := Option.some.inj h
    rw [List.map_cons, ← ih hys]
    exact congrArg (· :: xs) hy

/-- Evidence derived from openings of the blob of `records` is the record at its position. -/
theorem deriveEvidence_eq {records : List RecordEntry} {d : Dispute} {position : Nat}
    {evidence : RecordEntry} (hfes : encodeBlob records = .ok fes)
    (hopen : ∀ o ∈ d.openings, fes[o.fieldElementIndex]? = some o.claimedValue)
    (h : deriveEvidence d position = some evidence) :
    position < recordsPerBlob ∧ evidence = recordAt records position := by
  simp only [deriveEvidence, Option.bind_eq_bind, Option.bind_eq_some_iff, checkedMul_eq_some,
    checkedAdd_eq_some, guard_eq_some] at h
  obtain ⟨base, ⟨-, rfl⟩, last, ⟨-, rfl⟩, -, hlast, l, hl, openings, hopenings, hev⟩ := h
  have hposition : position < recordsPerBlob := by
    simp only [recordsPerBlob, fePerRecord] at hlast ⊢
    omega
  have hnew : Placed fes (position * 4) (List.replicate 4 none) := by
    refine ⟨rfl, fun off o ho => ?_⟩
    have := (List.mem_replicate.mp (List.mem_of_getElem? ho)).2
    cases this
  have H := hnew.placeAll hopen hl
  rw [eq_map_some_of_mapM hopenings] at H
  have hlen : openings.length = fePerRecord := by
    rw [← List.length_map (f := some), H.length]
    rfl
  have hvalues : openings.map (·.claimedValue) =
      (List.range fePerRecord).map (fieldElement (recordBytesAt records position)) := by
    apply List.ext_getElem?
    intro j
    rw [List.getElem?_map, List.getElem?_map]
    cases ho : openings[j]? with
    | none =>
      rw [List.getElem?_eq_none (by simpa [hlen] using ho)]
      rfl
    | some o =>
      have hj : j < fePerRecord := hlen ▸ (List.getElem?_eq_some_iff.mp ho).1
      have hvalue := H.values j o (by rw [List.getElem?_map, ho, Option.map_some])
      rw [List.getElem?_range hj]
      exact hvalue.symm.trans (encodeBlob_getElem? hfes hposition hj)
  refine ⟨hposition, ?_⟩
  have hrecord := assembleRecord_fieldElements
    ⟨recordBytesAt records position, recordBytesAt_length records position⟩
  rw [← Option.some.inj hev, hvalues, hrecord, decodeRecord_recordBytesAt]

end

/-! ## Violations in a published batch -/

section
variable {C : Primitives} {classSet : List ClassTag} {records : List RecordEntry} {i j : Nat}

/-- What `publish_batch` has made sure of the records of a batch. -/
structure HonestRecords (C : Primitives) (classSet : List ClassTag) (records : List RecordEntry) : Prop where
  pos : 0 < records.length
  classTags : ∀ r ∈ records, r.classTag ∈ classSet
  ordered : records.Pairwise (fun r r' => r.leaf C < r'.leaf C)
  tags_nodup : (records.map (·.tag)).Nodup
  tag_ne_zero : ∀ r ∈ records, r.tag ≠ 0

theorem BatchOK.honestRecords {before : List RecordEntry} {b : BatchRecord} {p : Publication}
    (h : BatchOK C classSet before b p) : HonestRecords C classSet p.records := by
  obtain ⟨t, ht, -, -⟩ := h.next.replays
  have hspec := replay_spec ht
  have hnd := hspec.tags_nodup
  rw [List.map_append] at hnd
  exact ⟨h.pos, h.classTags, h.ordered, (List.nodup_append.mp hnd).2.1,
    fun r hr => hspec.tag_ne_zero r (List.mem_append_right before hr)⟩

theorem recordAt_of_lt (h : i < records.length) : recordAt records i = records[i] := by
  rw [recordAt, List.getD_eq_getElem?_getD, List.getElem?_eq_getElem h, Option.getD_some]

theorem recordAt_of_le (h : records.length ≤ i) : recordAt records i = .zero := by
  rw [recordAt, List.getD_eq_getElem?_getD, List.getElem?_eq_none h, Option.getD_none]

theorem HonestRecords.classTag_notMem_iff (H : HonestRecords C classSet records) :
    (recordAt records i).classTag ∉ classSet ↔ records.length ≤ i ∧ 0 ∉ classSet := by
  rcases Nat.lt_or_ge i records.length with hi | hi
  · rw [recordAt_of_lt hi]
    exact iff_of_false (not_not.mpr (H.classTags _ (List.getElem_mem hi))) fun h => absurd h.1 (not_le.mpr hi)
  · rw [recordAt_of_le hi]
    exact (and_iff_right hi).symm

/-- A published record and a padding position have different identity tags. -/
theorem HonestRecords.identityTag_ne_zero (H : HonestRecords C classSet records)
    (hi : i < records.length) : (recordAt records i).identityTag ≠ RecordEntry.zero.identityTag := by
  intro heq
  rw [recordAt_of_lt hi] at heq
  apply H.tag_ne_zero _ (List.getElem_mem hi)
  rw [RecordEntry.tag, heq]
  decide

theorem HonestRecords.identityTag_eq_iff (H : HonestRecords C classSet records) (hij : j ≠ i) :
    (recordAt records i).identityTag = (recordAt records j).identityTag ↔
      records.length ≤ i ∧ records.length ≤ j := by
  rcases Nat.lt_or_ge i records.length with hi | hi
  · refine iff_of_false (fun heq => ?_) fun h => absurd h.1 (not_le.mpr hi)
    rcases Nat.lt_or_ge j records.length with hj | hj
    · have htag : (records.map (·.tag))[i]? = (records.map (·.tag))[j]? := by
        rw [recordAt_of_lt hi, recordAt_of_lt hj] at heq
        simp [RecordEntry.tag, heq, hi, hj]
      exact hij ((List.getElem?_inj (by simpa using hi) H.tags_nodup).mp htag).symm
    · exact H.identityTag_ne_zero hi (recordAt_of_le hj ▸ heq)
  · rcases Nat.lt_or_ge j records.length with hj | hj
    · refine iff_of_false (fun heq => ?_) fun h => absurd h.2 (not_le.mpr hj)
      exact H.identityTag_ne_zero hj (recordAt_of_le hi ▸ heq.symm)
    · rw [recordAt_of_le hi, recordAt_of_le hj]
      exact iff_of_true rfl ⟨hi, hj⟩

theorem leafOrderingViolated_iff {a b : Fr} : leafOrderingViolated a b = true ↔ b ≤ a := by
  simp [leafOrderingViolated, frToBeBytes_lt]

theorem HonestRecords.leafOrdering_iff (H : HonestRecords C classSet records) :
    leafOrderingViolated ((recordAt records i).leaf C) ((recordAt records (i + 1)).leaf C) = true ↔
      records.length ≤ i ∨ i + 1 = records.length ∧ RecordEntry.zero.leaf C ≤ (recordAt records i).leaf C := by
  rw [leafOrderingViolated_iff]
  rcases Nat.lt_trichotomy (i + 1) records.length with hi | hi | hi
  · have hlt : i < records.length := Nat.lt_of_succ_lt hi
    have hord := List.pairwise_iff_getElem.mp H.ordered i (i + 1) hlt hi (Nat.lt_succ_self i)
    rw [recordAt_of_lt hlt, recordAt_of_lt hi]
    refine iff_of_false (not_le.mpr hord) fun h => ?_
    omega
  · rw [recordAt_of_le hi.ge]
    have : ¬ records.length ≤ i := by omega
    simp [this, hi]
  · have hle : records.length ≤ i := Nat.le_of_lt_succ hi
    rw [recordAt_of_le hle, recordAt_of_le (Nat.le_succ_of_le hle)]
    exact iff_of_true le_rfl (.inl hle)

/-- The violation predicate of a dispute is met by the padding behind the records of a batch. -/
def PaddingViolation (C : Primitives) (classSet : List ClassTag) (records : List RecordEntry)
    (d : Dispute) : Prop :=
  match d.violationType with
  | .classTagOutOfSet => records.length ≤ d.positionI ∧ 0 ∉ classSet
  | .intraBatchDuplicateIdentityTag => ∃ j, d.positionJ = some j ∧ j ≠ d.positionI ∧
      records.length ≤ d.positionI ∧ records.length ≤ j
  | .leafOrderingViolation => d.positionJ = some (d.positionI + 1) ∧
      (records.length ≤ d.positionI ∨ d.positionI + 1 = records.length ∧
        RecordEntry.zero.leaf C ≤ (recordAt records d.positionI).leaf C)

/-- The openings cover the positions a dispute refers to. -/
def Dispute.Evidenced (d : Dispute) : Prop :=
  (deriveEvidence d d.positionI).isSome ∧
    (d.violationType ≠ .classTagOutOfSet → ∀ j ∈ d.positionJ, (deriveEvidence d j).isSome)

/-- A batch that passed `publish_batch` is only in violation by its padding. -/
theorem checkViolation_eq_ok (H : HonestRecords C classSet records) {fes : List Bytes32}
    {d : Dispute} (hfes : encodeBlob records = .ok fes)
    (hopen : ∀ o ∈ d.openings, fes[o.fieldElementIndex]? = some o.claimedValue) :
    checkViolation C classSet d = .ok () ↔ d.Evidenced ∧ PaddingViolation C classSet records d := by
  have hspec : ∀ {p r}, deriveEvidence d p = some r → p < recordsPerBlob ∧ r = recordAt records p :=
    deriveEvidence_eq hfes hopen
  unfold PaddingViolation Dispute.Evidenced
  simp only [checkViolation, bind_eq_ok, okOr_eq_ok, Option.isSome_iff_exists]
  cases hv : d.violationType with
  | classTagOutOfSet =>
    simp only [failIf_eq_ok]
    constructor
    · rintro ⟨r, hr, hclass⟩
      rw [(hspec hr).2] at hclass
      exact ⟨⟨⟨r, hr⟩, fun h => absurd rfl h⟩, H.classTag_notMem_iff.mp hclass⟩
    · rintro ⟨⟨⟨r, hr⟩, -⟩, hclass⟩
      refine ⟨r, hr, ?_⟩
      rw [(hspec hr).2]
      exact H.classTag_notMem_iff.mpr hclass
  | intraBatchDuplicateIdentityTag =>
    simp only [bind_eq_ok, okOr_eq_ok, failIf_eq_ok, not_not]
    constructor
    · rintro ⟨r, hr, j, hj, -, hne, r', hr', htag⟩
      rw [(hspec hr).2, (hspec hr').2, H.identityTag_eq_iff hne] at htag
      refine ⟨⟨⟨r, hr⟩, fun _ j' hj' => ?_⟩, j, hj, hne, htag⟩
      obtain rfl := Option.some.inj (hj.symm.trans hj')
      exact ⟨r', hr'⟩
    · rintro ⟨⟨⟨r, hr⟩, hev⟩, j, hj, hne, hpad⟩
      obtain ⟨r', hr'⟩ := hev (by decide) j hj
      refine ⟨r, hr, j, hj, (), hne, r', hr', ?_⟩
      rw [(hspec hr).2, (hspec hr').2]
      exact (H.identityTag_eq_iff hne).mpr hpad
  | leafOrderingViolation =>
    simp only [bind_eq_ok, okOr_eq_ok, failIf_eq_ok, not_not, Bool.not_eq_true', checkedAdd_eq_some,
      Bool.not_eq_false]
    constructor
    · rintro ⟨r, hr, j, hj, _, ⟨-, rfl⟩, -, rfl, r', hr', hord⟩
      rw [(hspec hr).2, (hspec hr').2, H.leafOrdering_iff] at hord
      refine ⟨⟨⟨r, hr⟩, fun _ j' hj' => ?_⟩, hj, hord⟩
      obtain rfl := Option.some.inj (hj.symm.trans hj')
      exact ⟨r', hr'⟩
    · rintro ⟨⟨⟨r, hr⟩, hev⟩, hj, hpad⟩
      obtain ⟨r', hr'⟩ := hev (by decide) _ hj
      have hlt : d.positionI + 1 < 2 ^ 32 := (hspec hr').1.trans (by decide)
      refine ⟨r, hr, _, hj, _, ⟨hlt, rfl⟩, (), rfl, r', hr', ?_⟩
      rw [(hspec hr).2, (hspec hr').2]
      exact H.leafOrdering_iff.mpr hpad

end

/-! ## Disputes in a reachable state -/

/-- An opening is accepted only for the field element of the published blob. -/
def Ports.VerifiesPublished (env : Ports) (tr : List Step) : Prop :=
  ∀ s ∈ tr, ∀ p, s.publication = some p → ∀ o, env.verify p.versionedHash o = .ok () →
    ∀ fes, encodeBlob p.records = .ok fes → fes[o.fieldElementIndex]? = some o.claimedValue

/-- A dispute with nothing to object to but its violation predicate. -/
structure Admissible (C : Primitives) (env : Ports) (e : PetitionEntry) (d : Dispute) : Prop where
  /-- The petition is in its dispute window, the batch is active and every opening verifies. -/
  checked : ∃ st b, stepState env.now e.record.closeAtBlock e.record.state = some st ∧
    DisputeChecked env (e.withState st) st d b
  evidenced : d.Evidenced
  /-- The carrier gives back the batches before the disputed one, and they replay. -/
  replays : ∃ records t, fetchReplay env e.batches d.batchIndex = .ok records ∧ replay C records = .ok t

section
variable {C : Primitives} {env : Ports} {e : PetitionEntry} {d : Dispute} {address : Address}
  {global : GlobalState} {tr : List Step} {reg : PetitionRegistry}

theorem disputeEntry_ok_iff {emptyImtRoot : Bytes32} :
    (∃ ev e', disputeEntry C env emptyImtRoot d e = some (.ok ev, e')) ↔
      ∃ st b records t, stepState env.now e.record.closeAtBlock e.record.state = some st ∧
        DisputeChecked env (e.withState st) st d b ∧ checkViolation C e.record.classSet d = .ok () ∧
        fetchReplay env e.batches d.batchIndex = .ok records ∧ replay C records = .ok t := by
  constructor
  · rintro ⟨ev, e', h⟩
    obtain ⟨st, e₁, hstep, h⟩ := Method.bind_eq_ok.mp h
    obtain ⟨st', hst, hr, rfl⟩ := stepEntry_eq_some.mp hstep
    obtain rfl := Except.ok.inj hr
    rw [Method.get_bind] at h
    obtain ⟨b, hb, h⟩ := Method.ofExcept_bind_eq_ok.mp h
    obtain ⟨u, hv, h⟩ := Method.ofExcept_bind_eq_ok.mp h
    obtain ⟨records, hr, h⟩ := Method.ofExcept_bind_eq_ok.mp h
    obtain ⟨t, ht, -⟩ := Method.ofExcept_bind_eq_ok.mp h
    exact ⟨st, b, records, t, hst, checkDispute_eq_ok.mp hb, hv, hr, mapErr_eq_ok.mp ht⟩
  · rintro ⟨st, b, records, t, hst, hb, hv, hr, ht⟩
    obtain ⟨⟨rr, idt, lc⟩, hroll⟩ : ∃ x, rollBackToPredecessor (e.withState st).batches d.batchIndex
      emptyImtRoot = x := ⟨_, rfl⟩
    refine ⟨⟨d.petitionId, d.batchIndex, rr, idt, lc⟩, (e.withState st).rolledBack d.batchIndex rr idt lc t, ?_⟩
    refine Method.bind_eq_ok.mpr ⟨st, e.withState st, ?_, ?_⟩
    · exact stepEntry_eq_some.mpr ⟨st, hst, rfl, rfl⟩
    · rw [Method.get_bind]
      refine Method.ofExcept_bind_eq_ok.mpr ⟨b, checkDispute_eq_ok.mpr hb, ?_⟩
      refine Method.ofExcept_bind_eq_ok.mpr ⟨(), hv, ?_⟩
      refine Method.ofExcept_bind_eq_ok.mpr ⟨records, hr, ?_⟩
      refine Method.ofExcept_bind_eq_ok.mpr ⟨t, mapErr_eq_ok.mpr ht, ?_⟩
      rw [hroll]
      rfl

/-- In a reachable state a dispute succeeds exactly when it is admissible and the padding of the
published batch meets its violation predicate. -/
theorem dispute_ok_iff (hrun : History C address global tr reg) (henv : env.VerifiesPublished tr) :
    (∃ ev reg', dispute C env d reg = some (.ok ev, reg')) ↔ ∃ e p, reg.petitions d.petitionId = some e ∧
        (published tr d.petitionId)[d.batchIndex]? = some p ∧ Admissible C env e d ∧
        PaddingViolation C e.record.classSet p.records d := by
  have hviolation : ∀ {e b p}, reg.petitions d.petitionId = some e →
      e.batches[d.batchIndex]? = some b → (published tr d.petitionId)[d.batchIndex]? = some p →
      (∀ o ∈ d.openings, env.verify b.batchVersionedHash o = .ok ()) →
      (checkViolation C e.record.classSet d = .ok () ↔
        d.Evidenced ∧ PaddingViolation C e.record.classSet p.records d) := by
    intro e b p he hb hp hopen
    obtain ⟨k, H⟩ := (history_inv hrun).entry _ e he
    have hok := H.batch _ b p hb hp
    obtain ⟨fes, hfes, -⟩ := hok.encoded
    obtain ⟨⟨s, hs, hpub⟩, -⟩ := mem_published.mp (List.mem_of_getElem? hp)
    refine checkViolation_eq_ok hok.honestRecords hfes fun o ho => ?_
    exact henv s hs p hpub o (hok.versionedHash ▸ hopen o ho) fes hfes
  have hcall : (∃ ev reg', dispute C env d reg = some (.ok ev, reg')) ↔
      ∃ e, reg.petitions d.petitionId = some e ∧
        ∃ ev e', disputeEntry C env reg.emptyImtRoot d e = some (.ok ev, e') := by
    rw [dispute, Method.get_bind]
    constructor
    · rintro ⟨ev, reg', h⟩
      obtain ⟨-, hr, -⟩ | ⟨e, e', he, hm, -⟩ := onPetition_eq_some.mp h
      · cases hr
      · exact ⟨e, he, ev, e', hm⟩
    · rintro ⟨e, he, ev, e', hm⟩
      exact ⟨ev, _, onPetition_eq_some.mpr (.inr ⟨e, e', he, hm, rfl⟩)⟩
  rw [hcall]
  constructor
  · rintro ⟨e, he, hok⟩
    obtain ⟨st, b, records, t, hst, hb, hv, hr, ht⟩ := disputeEntry_ok_iff.mp hok
    obtain ⟨k, H⟩ := (history_inv hrun).entry _ e he
    have hlt := H.length ▸ (List.getElem?_eq_some_iff.mp hb.batch).1
    have hp := List.getElem?_eq_getElem hlt
    obtain ⟨hev, hpad⟩ := (hviolation he hb.batch hp hb.openings).mp hv
    exact ⟨e, _, he, hp, ⟨⟨st, b, hst, hb⟩, hev, records, t, hr, ht⟩, hpad⟩
  · rintro ⟨e, p, he, hp, ⟨⟨st, b, hst, hb⟩, hev, records, t, hr, ht⟩, hpad⟩
    have hv := (hviolation he hb.batch hp hb.openings).mpr ⟨hev, hpad⟩
    exact ⟨e, he, disputeEntry_ok_iff.mpr ⟨st, b, records, t, hst, hb, hv, hr, ht⟩⟩

/-- `dispute` returns unless `step_state` panics. -/
theorem dispute_returns_iff : (∃ r, dispute C env d reg = some r) ↔ ∀ e, reg.petitions d.petitionId = some e →
      ¬ CooldownOverflows env.now e.record.closeAtBlock e.record.state := by
  rw [dispute, Method.get_bind]
  simp only [← stepState_eq_none]
  constructor
  · rintro ⟨⟨r, reg'⟩, h⟩ e he hst
    obtain ⟨hnone, -⟩ | ⟨e₁, e', he₁, hm, -⟩ := onPetition_eq_some.mp h
    · rw [he] at hnone
      cases hnone
    · obtain rfl := Option.some.inj (he.symm.trans he₁)
      obtain ⟨st, e₁, hstep, -⟩ | ⟨err, hstep, -⟩ := Method.bind_eq_some.mp hm
      · obtain ⟨st, hst', -⟩ := stepEntry_eq_some.mp hstep
        cases hst.symm.trans hst'
      · obtain ⟨st, hst', -⟩ := stepEntry_eq_some.mp hstep
        cases hst.symm.trans hst'
  · intro h
    cases he : reg.petitions d.petitionId with
    | none => exact ⟨_, onPetition_eq_some.mpr (.inl ⟨he, rfl, rfl⟩)⟩
    | some e =>
      obtain ⟨st, hst⟩ := Option.ne_none_iff_exists'.mp (h e he)
      have htotal : ∃ r, disputeEntry C env reg.emptyImtRoot d e = some r := by
        rw [disputeEntry, Method.bind_of_ok (stepEntry_eq_some.mpr ⟨st, hst, rfl, rfl⟩), Method.get_bind]
        refine Method.exists_ofExcept_bind fun b _ => ?_
        refine Method.exists_ofExcept_bind fun _ _ => ?_
        refine Method.exists_ofExcept_bind fun records _ => ?_
        exact Method.exists_ofExcept_bind fun t _ => ⟨_, rfl⟩
      obtain ⟨⟨r, e'⟩, hm⟩ := htotal
      exact ⟨_, onPetition_eq_some.mpr (.inr ⟨e, e', he, hm, rfl⟩)⟩

/-- A dispute of a batch that `publish_batch` accepted is refused, unless it points into the padding
or the clock has passed the end of the block numbers. -/
theorem dispute_error_iff (hrun : History C address global tr reg)
    (henv : env.VerifiesPublished tr) (d : Dispute) :
    (∃ err reg', dispute C env d reg = some (.error err, reg')) ↔ ∀ e, reg.petitions d.petitionId = some e →
        ¬ CooldownOverflows env.now e.record.closeAtBlock e.record.state ∧
        ∀ p, (published tr d.petitionId)[d.batchIndex]? = some p →
          ¬ (Admissible C env e d ∧ PaddingViolation C e.record.classSet p.records d) := by
  constructor
  · rintro ⟨err, reg', h⟩ e he
    refine ⟨dispute_returns_iff.mp ⟨_, h⟩ e he, fun p hp hpad => ?_⟩
    obtain ⟨ev, reg'', hok⟩ := (dispute_ok_iff hrun henv).mpr ⟨e, p, he, hp, hpad⟩
    cases h.symm.trans hok
  · intro h
    obtain ⟨⟨r, reg'⟩, hr⟩ := dispute_returns_iff.mpr fun e he => (h e he).1
    cases r with
    | error err => exact ⟨err, reg', hr⟩
    | ok ev =>
      obtain ⟨e, p, he, hp, hpad⟩ := (dispute_ok_iff hrun henv).mp ⟨ev, reg', hr⟩
      exact absurd hpad ((h e he).2 p hp)

/-- A carrier that opens the blobs of the batches of a run only to their field elements. -/
theorem PublishingRun.verifiesPublished {draft : PetitionDraft} {pid : PetitionId}
    {batches : List (List RecordEntry)} {env' : Ports}
    (h : PublishingRun C address global env draft pid batches tr reg e) (henv : ∀ batch ∈ batches, ∀ o,
      env'.verify (computeBatchVersionedHash C (blobElements batch)) o = .ok () →
        (blobElements batch)[o.fieldElementIndex]? = some o.claimedValue) : env'.VerifiesPublished tr := by
  intro s hs p hp o ho fes hfes
  have hmem := h.only s hs p hp
  obtain ⟨i, hi⟩ := List.mem_iff_getElem?.mp hmem
  have hbatch : batches[i]? = some p.records := by
    rw [← h.records, List.getElem?_map, hi, Option.map_some]
  obtain ⟨k, H⟩ := (history_inv h.run).entry pid e h.entry
  obtain ⟨b, p', hb, hp', -, -, hvh⟩ := h.batch hbatch
  obtain rfl := Option.some.inj (hi.symm.trans hp')
  obtain ⟨-, rfl⟩ := encodeBlob_eq_ok.mp hfes
  rw [← (H.batch i b p hb hi).versionedHash, hvh] at ho
  exact henv p.records (List.mem_of_getElem? hbatch) o ho

end

namespace Sample

def classTagDispute (pid : PetitionId) (position : Nat) : Dispute where
  petitionId := pid
  batchIndex := 0
  violationType := .classTagOutOfSet
  positionI := position
  positionJ := none
  openings := (List.range 4).map fun j =>
    let index := position * 4 + j
    let value := fieldElement (recordBytesAt batch position) j
    ⟨index, value, openingProofBytes primitives batchHash index value⟩

theorem verify_batch (o : KzgOpening) (h : (carrier [batch]).verify primitives batchHash o = .ok ()) :
    (blobElements batch)[o.fieldElementIndex]? = some o.claimedValue :=
  ((verify_of_blobs (blobs_publish batch_published)).mp h).1

theorem openings_verify (pid : PetitionId) {position : Nat} (h : position < recordsPerBlob) :
    ∀ o ∈ (classTagDispute pid position).openings,
      (carrier [batch]).verify primitives batchHash o = .ok () := by
  intro o ho
  obtain ⟨j, hj, rfl⟩ := List.mem_map.mp ho
  have hencode : encodeBlob batch = .ok (blobElements batch) := encodeBlob_eq_ok.mpr ⟨by decide, rfl⟩
  apply (verify_of_blobs (blobs_publish batch_published)).mpr
  exact ⟨encodeBlob_getElem? hencode h (List.mem_range.mp hj), rfl⟩

def disputePorts : Ports := ports (carrier [batch]) 301600

end Sample

open Sample

/-- The padding behind a batch of one record repudiates it: its class tag is zero. -/
theorem dispute_padding_accepted : ∃ pid tr reg e p, PublishingRun primitives (.zero 20) (global 1)
      (ports (carrier [batch]) 300000) (draft 1000) pid [batch] tr
      reg e ∧ disputePorts.VerifiesPublished tr ∧
    (published tr pid)[(classTagDispute pid 1).batchIndex]? = some p ∧ p.records = batch ∧
    ∃ ev reg', dispute primitives disputePorts (classTagDispute pid 1) reg = some (.ok ev, reg') := by
  obtain ⟨pid, tr, reg, e, hrun⟩ := exists_run (carrier [batch])
    (List.forall_mem_singleton.mpr batch_wellFormed)
    (List.flatten_singleton ▸ batch_replays)
  have henv : disputePorts.VerifiesPublished tr :=
    hrun.verifiesPublished (List.forall_mem_singleton.mpr verify_batch)
  have hfirst : [batch][0]? = some batch := rfl
  obtain ⟨b, p, hb, hp, hrecords, hactive, hvh⟩ := hrun.batch hfirst
  refine ⟨pid, tr, reg, e, p, hrun, henv, hp, hrecords, (dispute_ok_iff hrun.run henv).mpr
    ⟨e, p, hrun.entry, hp, ⟨⟨.disputeWindow, b, ?_, ?_⟩, ?_, [], Trees.new _, ?_, rfl⟩, ?_⟩⟩
  · rw [hrun.signing, hrun.registered.closeAtBlock]
    decide
  · have hclose : e.record.closeAtBlock = 301000 := hrun.registered.closeAtBlock
    have hopen := openings_verify pid (show 1 < recordsPerBlob by decide)
    refine ⟨rfl, ?_, ?_, hb, hactive, fun o ho => ?_⟩
    · exact hclose ▸ (by decide : 301000 + resolutionDeadlineBlocks < 2 ^ 64)
    · exact hclose ▸ (by decide : 301600 < 301000 + resolutionDeadlineBlocks)
    · rw [hvh]
      exact hopen o ho
  · have hev : (deriveEvidence (classTagDispute (.zero 32) 1) 1).isSome := by decide +kernel
    exact ⟨hev, fun h => absurd rfl h⟩
  · rfl
  · have hclass : e.record.classSet = [100] := hrun.registered.classSet
    refine ⟨?_, ?_⟩
    · rw [hrecords]
      exact le_refl 1
    · rw [hclass]
      decide

/-- The same dispute against the published record is refused. -/
theorem dispute_error_record : ∃ pid tr reg e, PublishingRun primitives (.zero 20) (global 1)
      (ports (carrier [batch]) 300000) (draft 1000) pid [batch] tr
      reg e ∧ disputePorts.VerifiesPublished tr ∧
    ∃ err reg', dispute primitives disputePorts (classTagDispute pid 0) reg = some (.error err, reg') := by
  obtain ⟨pid, tr, reg, e, hrun⟩ := exists_run (carrier [batch])
    (List.forall_mem_singleton.mpr batch_wellFormed)
    (List.flatten_singleton ▸ batch_replays)
  have henv : disputePorts.VerifiesPublished tr :=
    hrun.verifiesPublished (List.forall_mem_singleton.mpr verify_batch)
  refine ⟨pid, tr, reg, e, hrun, henv, (dispute_error_iff hrun.run henv _).mpr fun e' he' => ?_⟩
  obtain rfl := Option.some.inj (hrun.entry.symm.trans he')
  refine ⟨fun h => ?_, fun p hp hpad => ?_⟩
  · have hclose := h.1
    rw [hrun.registered.closeAtBlock] at hclose
    exact absurd hclose (by decide)
  · have hfirst : [batch][0]? = some batch := rfl
    obtain ⟨b, p', -, hp', hrecords, -⟩ := hrun.batch hfirst
    obtain rfl := Option.some.inj (hp.symm.trans hp')
    have hle : p.records.length ≤ 0 := hpad.2.1
    rw [hrecords] at hle
    exact absurd hle (by decide)

end Pocs.Civic
