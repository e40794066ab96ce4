import Pocs.Civic.Registry.Progress

/-! # What a reachable petition stores

The records of the active batches have distinct leaves and identity tags and are the ones counted
(`activeRecords_spec`). When the blob carrier gives back what was published, the trees are the
replay of these records and the stored roots and counts chain from the empty tree to the current
ones (`Representation`). -/

namespace Pocs.Civic

section
variable {C : Primitives} {e e' : PetitionEntry} {ps : List Publication} {k : Nat}

private theorem map_filter_zip {α β : Type} {P : α → Bool} {as : List α} {bs : List β} {k : Nat}
    (hlen : as.length = bs.length) (h : ∀ i a, as[i]? = some a → (P a = true ↔ i < k)) :
    ((as.zip bs).filter (fun x => P x.1)).map (·.2) = bs.take k := by
  induction as generalizing bs k with
  | nil =>
    obtain rfl := List.length_eq_zero_iff.mp hlen.symm
    simp
  | cons a as ih =>
    obtain _ | ⟨b, bs⟩ := bs
    · simp at hlen
    simp only [List.length_cons, Nat.add_right_cancel_iff] at hlen
    have ha := h 0 a rfl
    cases k with
    | zero =>
      have := ih (k := 0) hlen fun i a' hi => by simpa using h (i + 1) a' hi
      simpa [ha] using this
    | succ k =>
      have := ih (k := k) hlen fun i a' hi => by simpa using h (i + 1) a' hi
      simpa [ha] using this

/-- The publications whose batches are active. -/
def activeBatches (e : PetitionEntry) (ps : List Publication) : List Publication :=
  ((e.batches.zip ps).filter (·.1.state = .active)).map (·.2)

/-- They are the first `k` publications. -/
theorem EntryInv.activeBatches_eq (H : EntryInv C e ps k) : activeBatches e ps = ps.take k :=
  @map_filter_zip _ _ (fun b : BatchRecord => decide (b.state = .active)) e.batches ps k H.length
    fun i b hb => by simpa using H.active i b hb

theorem EntryInv.activeRecords_eq (H : EntryInv C e ps k) : activeRecords e ps = recordsOf (ps.take k) :=
  congrArg recordsOf H.activeBatches_eq

theorem EntryInv.batch_of_mem (H : EntryInv C e ps k) {p : Publication} (hp : p ∈ ps) :
    ∃ i b, e.batches[i]? = some b ∧ ps[i]? = some p ∧
      BatchOK C e.record.classSet (recordsOf (ps.take i)) b p := by
  obtain ⟨i, hi⟩ := List.mem_iff_getElem?.mp hp
  obtain ⟨hlt, -⟩ := List.getElem?_eq_some_iff.mp hi
  rw [← H.length] at hlt
  have hb := List.getElem?_eq_getElem hlt
  exact ⟨i, _, hb, hi, H.batch i _ p hb hi⟩

theorem EntryInv.classTags (H : EntryInv C e ps k) :
    ∀ r ∈ recordsOf (ps.take k), r.classTag ∈ e.record.classSet := by
  intro r hr
  obtain ⟨p, hp, hr⟩ := List.mem_flatMap.mp hr
  obtain ⟨i, b, -, -, hok⟩ := H.batch_of_mem (List.mem_of_mem_take hp)
  exact hok.classTags r hr

/-- The stored hashes are the published ones, in order. -/
theorem EntryInv.versionedHashes (H : EntryInv C e ps k) :
    e.batches.map (·.batchVersionedHash) = ps.map (·.versionedHash) := by
  apply List.ext_getElem?
  intro i
  rw [List.getElem?_map, List.getElem?_map]
  cases hb : e.batches[i]? with
  | none =>
    rw [List.getElem?_eq_none (H.length ▸ List.getElem?_eq_none_iff.mp hb)]
    rfl
  | some b =>
    have hi := H.length ▸ (List.getElem?_eq_some_iff.mp hb).1
    have hp := List.getElem?_eq_getElem hi
    rw [hp]
    exact congrArg some (H.batch i b _ hb hp).versionedHash

/-- One signature per identity tag, whatever was published and repudiated before. -/
theorem activeRecords_spec {address : Address} {global : GlobalState} {tr : List Step}
    {reg : PetitionRegistry} (hrun : History C address global tr reg) {pid : PetitionId}
    (he : reg.petitions pid = some e) :
    e.batches.map (·.batchVersionedHash) = (published tr pid).map (·.versionedHash) ∧
      ((activeRecords e (published tr pid)).map (·.tag)).Nodup ∧
      ((activeRecords e (published tr pid)).map (·.leaf C)).Nodup ∧
      (∀ r ∈ activeRecords e (published tr pid), r.classTag ∈ e.record.classSet) ∧
      e.record.leafCount = (activeRecords e (published tr pid)).length := by
  obtain ⟨k, H⟩ := (history_inv hrun).entry pid e he
  obtain ⟨t, ht, -, -⟩ := H.roots
  have hspec := replay_spec ht
  rw [H.activeRecords_eq]
  exact ⟨H.versionedHashes, hspec.tags_nodup, hspec.leaves_nodup, H.classTags, H.leafCount⟩

theorem EntryInv.activeBatches_open (H : EntryInv C e ps k) (hopen : e.record.state.Open) :
    activeBatches e ps = ps := by
  rw [H.activeBatches_eq, (H.signing hopen).1, List.take_length]

section
variable {address : Address} {global : GlobalState} {env : Ports} {draft : PetitionDraft}
  {pid : PetitionId} {batches : List (List RecordEntry)} {tr : List Step} {reg : PetitionRegistry}

section
variable (h : PublishingRun C address global env draft pid batches tr reg e)
include h

theorem PublishingRun.activeBatches_eq : (activeBatches e (published tr pid)).map (·.records) = batches := by
  obtain ⟨k, H⟩ := (history_inv h.run).entry pid e h.entry
  rw [H.activeBatches_open (.inr h.signing), h.records]

theorem PublishingRun.activeRecords_eq : activeRecords e (published tr pid) = batches.flatten := by
  rw [← h.activeBatches_eq, ← List.flatMap_def]
  rfl

theorem PublishingRun.leafCount_eq : e.record.leafCount = batches.flatten.length := by
  obtain ⟨k, H⟩ := (history_inv h.run).entry pid e h.entry
  rw [← h.activeRecords_eq, H.activeRecords_eq, H.leafCount]

end

end

open Sample

theorem activeRecords_spec_sample : ∃ pid tr reg e, PublishingRun primitives (.zero 20)
    (Sample.global 1) (ports (carrier [Sample.batch, laterBatch]) 300000)
    (Sample.draft 1000) pid [Sample.batch, laterBatch] tr reg e ∧
    activeRecords e (published tr pid) = Sample.batch ++ laterBatch ∧ e.record.leafCount = 2 := by
  obtain ⟨pid, tr, reg, e, hrun⟩ := exists_later_run
  have hactive : activeRecords e (published tr pid) = Sample.batch ++ laterBatch := hrun.activeRecords_eq
  obtain ⟨-, -, -, -, hcount⟩ := activeRecords_spec hrun.run hrun.entry
  rw [hactive] at hcount
  exact ⟨pid, tr, reg, e, hrun, hactive, hcount⟩

/-! ## The trees -/

/-- Whatever the carrier returns for a published hash are the records published under it. -/
def Ports.FetchesPublished (env : Ports) (tr : List Step) : Prop :=
  ∀ s ∈ tr, ∀ p, s.publication = some p →
    ∀ records, env.fetchRecords p.versionedHash = .ok records → records = p.records

/-- The carrier does so at every call of a history. -/
def FetchesPublished : List Step → Prop
  | [] => True
  | s :: tr => s.env.FetchesPublished tr ∧ FetchesPublished tr

/-- The replay list of a dispute is the list of records before the disputed batch. -/
theorem EntryInv.fetchReplay_eq {tr : List Step} {pid : PetitionId} {env : Ports}
    (H : EntryInv C e (published tr pid) k) (henv : env.FetchesPublished tr) {j : Nat} (hj : j ≤ k)
    {records : List RecordEntry} (h : fetchReplay env e.batches j = .ok records) :
    records = recordsOf ((published tr pid).take j) := by
  have hlen : j ≤ e.batches.length := H.length ▸ hj.trans H.le
  have hactive : (e.batches.take j).filter (fun b => decide (b.state = .active)) = e.batches.take j := by
    apply List.filter_eq_self.mpr
    intro b hb
    obtain ⟨i, hi⟩ := List.mem_iff_getElem?.mp hb
    have hij : i < j := by
      have := (List.getElem?_eq_some_iff.mp hi).1
      simp only [List.length_take] at this
      omega
    rw [List.getElem?_take_of_lt hij] at hi
    exact decide_eq_true ((H.active i b hi).mpr (hij.trans_le hj))
  simp only [fetchReplay, hactive, bind_eq_ok, pure_eq_ok, mapM_eq_ok, mapErr_eq_ok,
    List.forall₂_map_left_iff] at h
  obtain ⟨rss, hrss, rfl⟩ := h
  rw [recordsOf, List.flatMap_def]
  congr 1
  apply List.ext_getElem?
  intro i
  have hl := hrss.length_eq
  rw [List.length_take, Nat.min_eq_left hlen] at hl
  rcases Nat.lt_or_ge i j with hi | hi
  · have hib : i < e.batches.length := hi.trans_le hlen
    have hip : i < (published tr pid).length := H.length ▸ hib
    have hir : i < rss.length := hl ▸ hi
    have hget := hrss.get (by simpa using ⟨hi, hib⟩) hir
    simp only [List.get_eq_getElem, List.getElem_take] at hget
    have hok := H.batch i _ _ (List.getElem?_eq_getElem hib) (List.getElem?_eq_getElem hip)
    obtain ⟨⟨s, hs, hpub⟩, -⟩ := mem_published.mp (List.getElem_mem hip)
    rw [hok.versionedHash] at hget
    rw [List.getElem?_map, List.getElem?_take_of_lt hi, List.getElem?_eq_getElem hip,
      List.getElem?_eq_getElem hir, henv s hs _ hpub _ hget, Option.map_some]
  · rw [List.getElem?_eq_none (by omega), List.getElem?_eq_none (by simp; omega)]

/-- The trees of the entry are the replay of the active records. -/
def TreesOK (C : Primitives) (e : PetitionEntry) (ps : List Publication) : Prop :=
  replay C (activeRecords e ps) = .ok ⟨e.runningImt, e.identityTagImt⟩

theorem TreesOK.step {tr : List Step} {pid : PetitionId} {s : Step}
    (H : EntryInv C e (published tr pid) k) (ht : TreesOK C e (published tr pid))
    (henv : s.env.FetchesPublished tr)
    (h : EntryStep C s.env (Trees.new C).running.rootBytes pid e s.call s.result e') :
    TreesOK C e' (published (s :: tr) pid) := by
  obtain ⟨k', H'⟩ := H.step h
  obtain ⟨env, call, result⟩ := s
  cases h with
  | untouched hc =>
    rw [published_cons_of_ne fun p hp heq => hc ((Step.publication_target hp).trans (congrArg some heq))]
    exact ht
  | failed _ hst =>
    rw [published_cons_of_ne fun p hp => by unfold Step.publication at hp; split at hp <;> simp_all]
    exact ht
  | @published _ _ st u _ hu _ =>
    -- signing is open, where the invariant already says so
    have hopen : st.Open := .inr (checkBatch_ok hu).signing
    obtain ⟨hk, hrep⟩ := H'.signing hopen
    rw [TreesOK, H'.activeRecords_eq, hk, List.take_length]
    exact hrep
  | indexOverflow hst hu hlen =>
    have hopen := (stepState_advance hst).open_of_open (.inr (checkBatch_ok hu).signing)
    exact absurd (H.batches_lt hopen) (not_lt.mpr hlen)
  | @disputed d st b records t rr idt lc _ hst hb _ hr hrep hroll =>
    have hchk := checkDispute_eq_ok.mp hb
    have Hst := H.withState (stepState_advance hst)
    have hj := (Hst.active _ b hchk.batch).mp hchk.active
    have Hd := Hst.dispute hchk.window hj hroll t
    have hrecords := H.fetchReplay_eq henv hj.le hr
    rw [published_cons_of_ne fun p hp => (by cases hp), TreesOK, Hd.activeRecords_eq, ← hrecords]
    exact hrep
  | resolved | unresolved =>
    rw [published_cons_of_ne fun p hp => by cases hp]
    exact ht
  | bountyOverflow _ ha =>
    obtain ⟨amount, hamount⟩ := H.bounty
    rw [hamount] at ha
    cases ha

/-- The trees are the replayed ones along every history with such a carrier. -/
theorem history_treesOK {address : Address} {global : GlobalState} {tr : List Step}
    {reg : PetitionRegistry} (hrun : History C address global tr reg) (hfetch : FetchesPublished tr)
    {pid : PetitionId} (he : reg.petitions pid = some e) : TreesOK C e (published tr pid) := by
  induction hrun generalizing e with
  | nil => cases he
  | @cons tr reg reg' s run hstep ih =>
    have hreg := history_inv run
    have hpid := transition_entry hstep pid
    cases he₀ : reg.petitions pid with
    | none =>
      obtain ⟨draft, d, st, p, ev, -, hd, -, hres, hst, rfl, -⟩ := hpid.created he₀ e he
      obtain ⟨k, H⟩ := (history_inv (run.cons hstep)).entry pid _ he
      have hclose := (checkDraft_ok hd).closes
      rw [stepState_eq] at hst
      obtain rfl := Option.some.inj ((if_neg (not_le.mpr hclose)).symm.trans hst)
      obtain ⟨hk, hrep⟩ := H.signing (.inr rfl)
      rw [TreesOK, H.activeRecords_eq, hk, List.take_length]
      exact hrep
    | some e₀ =>
      obtain ⟨e₁, he₁, hentry⟩ := hpid.entry e₀ he₀
      obtain rfl := Option.some.inj (he.symm.trans he₁)
      obtain ⟨k, H⟩ := hreg.entry pid e₀ he₀
      rw [hreg.emptyImtRoot] at hentry
      exact TreesOK.step H (ih hfetch.2 he₀) hfetch.1 hentry

/-! ## The chain of batches -/

/-- The prior and new values of the batches chain from the first triple to the last. -/
def Chained (rr idt : Bytes32) (lc : Nat) : List BatchRecord → Bytes32 → Bytes32 → Nat → Prop
  | [], rr', idt', lc' => rr = rr' ∧ idt = idt' ∧ lc = lc'
  | b :: bs, rr', idt', lc' =>
    (b.priorRunningRoot = rr ∧ b.priorIdentityTagSetRoot = idt ∧ b.priorLeafCount = lc) ∧
      Chained b.newRunningRoot b.newIdentityTagSetRoot b.newLeafCount bs rr' idt' lc'

theorem Summary.unique {records : List RecordEntry} {rr idt rr' idt' : Bytes32} {lc lc' : Nat}
    (h : Summary C records rr idt lc) (h' : Summary C records rr' idt' lc') :
    rr = rr' ∧ idt = idt' ∧ lc = lc' := by
  obtain ⟨⟨t, ht, rfl, rfl⟩, rfl⟩ := h
  obtain ⟨⟨t', ht', rfl, rfl⟩, rfl⟩ := h'
  obtain rfl := Except.ok.inj (ht.symm.trans ht')
  exact ⟨rfl, rfl, rfl⟩

/-- Batches whose values are those of the replays before and after them chain. -/
private theorem chained_of_summaries {bs : List BatchRecord} {ps : List Publication}
    {before : List RecordEntry} {rr idt rr' idt' : Bytes32} {lc lc' : Nat} (hlen : bs.length = ps.length)
    (h : ∀ i b p, bs[i]? = some b → ps[i]? = some p →
      Summary C (before ++ recordsOf (ps.take i)) b.priorRunningRoot b.priorIdentityTagSetRoot
        b.priorLeafCount ∧ Summary C (before ++ recordsOf (ps.take i) ++ p.records) b.newRunningRoot
        b.newIdentityTagSetRoot b.newLeafCount)
    (hfirst : Summary C before rr idt lc) (hlast : Summary C (before ++ recordsOf ps) rr' idt' lc') :
    Chained rr idt lc bs rr' idt' lc' := by
  induction bs generalizing ps before rr idt lc with
  | nil =>
    obtain rfl := List.length_eq_zero_iff.mp hlen.symm
    rw [recordsOf, List.flatMap_nil, List.append_nil] at hlast
    exact hfirst.unique hlast
  | cons b bs ih =>
    obtain _ | ⟨p, ps⟩ := ps
    · simp at hlen
    have h₀ := h 0 b p rfl rfl
    simp only [List.take_zero, recordsOf, List.flatMap_nil, List.append_nil] at h₀
    refine ⟨h₀.1.unique hfirst, ih (by simpa using hlen) (fun i b' p' hb hp => ?_) h₀.2 ?_⟩
    · have := h (i + 1) b' p' hb hp
      simpa [recordsOf, List.append_assoc] using this
    · simpa [recordsOf, List.append_assoc] using hlast

/-- The entry stands for the records, by replay of its active batches. -/
structure Representation (C : Primitives) (e : PetitionEntry) (records : List RecordEntry) : Prop where
  runningRoot : e.record.runningRoot = e.runningImt.rootBytes
  identityTagSetRoot : e.record.identityTagSetRoot = e.identityTagImt.rootBytes
  runningSize : e.record.leafCount = e.runningImt.size - 1
  identityTagSize : e.record.leafCount = e.identityTagImt.size - 1
  /-- The active batches are a prefix, and chain from the empty root to the current values. -/
  chain : ∃ k, (∀ i b, e.batches[i]? = some b → (b.state = .active ↔ i < k)) ∧
    Chained (IndexedMerkleTree.new C.poseidon).rootBytes (IndexedMerkleTree.new C.poseidon).rootBytes
      0 (e.batches.take k) e.record.runningRoot e.record.identityTagSetRoot e.record.leafCount
  /-- Replaying the active records reproduces both trees. -/
  replays : replay C records = .ok ⟨e.runningImt, e.identityTagImt⟩

theorem EntryInv.chained (H : EntryInv C e ps k) (hst : e.record.state ≠ .unresolved) :
    Chained (IndexedMerkleTree.new C.poseidon).rootBytes
      (IndexedMerkleTree.new C.poseidon).rootBytes 0 (e.batches.take k) e.record.runningRoot
      e.record.identityTagSetRoot e.record.leafCount := by
  obtain ⟨t, ht, hrr, hidt⟩ := H.roots
  have hlen : (e.batches.take k).length = (ps.take k).length := by simp [H.length]
  refine @chained_of_summaries C _ _ [] _ _ _ _ _ _ hlen (fun i b p hb hp => ?_)
    ⟨⟨Trees.new C, rfl, rfl, rfl⟩, rfl⟩ ⟨⟨t, ht, hrr hst, hidt⟩, H.leafCount⟩
  have hi : i < k := by
    have := (List.getElem?_eq_some_iff.mp hb).1
    simp only [List.length_take] at this
    omega
  rw [List.getElem?_take_of_lt hi] at hb hp
  have hok := H.batch i b p hb hp
  rw [List.take_take, Nat.min_eq_left hi.le]
  exact ⟨hok.prior, hok.next⟩

/-- The representation invariant of the registry. -/
theorem representation {address : Address} {global : GlobalState} {tr : List Step}
    {reg : PetitionRegistry} (hrun : History C address global tr reg) (hfetch : FetchesPublished tr)
    {pid : PetitionId} (he : reg.petitions pid = some e) (hst : e.record.state ≠ .unresolved) :
    Representation C e (activeRecords e (published tr pid)) := by
  obtain ⟨k, H⟩ := (history_inv hrun).entry pid e he
  obtain ⟨t, ht, hrr, hidt⟩ := H.roots
  have hrep := history_treesOK hrun hfetch he
  have hspec := replay_spec hrep
  have hcount : e.record.leafCount = (activeRecords e (published tr pid)).length := by
    rw [H.activeRecords_eq, H.leafCount]
  have hsame : t = ⟨e.runningImt, e.identityTagImt⟩ := by
    rw [TreesOK, H.activeRecords_eq] at hrep
    exact Except.ok.inj (ht.symm.trans hrep)
  subst hsame
  refine ⟨hrr hst, hidt, ?_, ?_, ⟨k, H.active, H.chained hst⟩, hrep⟩
  · have hsize : e.runningImt.size = _ := hspec.size.1
    rw [hsize, hcount, Nat.add_sub_cancel]
  · have hsize : e.identityTagImt.size = _ := hspec.size.2
    rw [hsize, hcount, Nat.add_sub_cancel]

/-- A run over a carrier that holds the blobs of its batches, each under its own hash. -/
theorem PublishingRun.fetchesPublished {address : Address} {global : GlobalState} {env : Ports}
    {draft : PetitionDraft} {pid : PetitionId} {batches : List (List RecordEntry)} {tr : List Step}
    {reg : PetitionRegistry} (h : PublishingRun C address global env draft pid batches tr reg e)
    (henv : ∀ batch ∈ batches, ∀ records, env.fetchRecords (computeBatchVersionedHash C
      (blobElements batch)) = .ok records → records = batch) : FetchesPublished tr := by
  obtain ⟨k, H⟩ := (history_inv h.run).entry pid e h.entry
  have hfetch : env.FetchesPublished tr := by
    intro s hs p hp records hrecords
    have hmem := h.only s hs p hp
    obtain ⟨i, b, -, -, hok⟩ := H.batch_of_mem hmem
    obtain ⟨fes, hfes, hvh⟩ := hok.encoded
    obtain ⟨-, rfl⟩ := encodeBlob_eq_ok.mp hfes
    rw [← hvh] at hrecords
    exact henv _ (h.records ▸ List.mem_map_of_mem hmem) _ hrecords
  have hsuffix : ∀ tr', tr' <:+ tr → FetchesPublished tr' := by
    intro tr' hsub
    induction tr' with
    | nil => trivial
    | cons s tr' ih =>
      have htail : tr' <:+ tr := (List.suffix_cons s tr').trans hsub
      refine ⟨?_, ih htail⟩
      rw [h.env_eq s (hsub.mem List.mem_cons_self)]
      exact fun s' hs' => hfetch s' (htail.mem hs')
  exact hsuffix tr List.suffix_rfl

theorem representation_sample : ∃ pid tr reg e, PublishingRun primitives (.zero 20)
    (Sample.global 1) (ports (carrier [Sample.batch, laterBatch]) 300000)
    (Sample.draft 1000) pid [Sample.batch, laterBatch] tr reg e ∧ FetchesPublished tr ∧
    Representation primitives e (activeRecords e (published tr pid)) := by
  obtain ⟨pid, tr, reg, e, hrun⟩ := exists_later_run
  have hfetch : FetchesPublished tr := by
    apply hrun.fetchesPublished
    intro batch hbatch records hrecords
    replace hrecords := (@fetchRecords_concat [Sample.batch] laterBatch (by decide) _).symm.trans hrecords
    rcases List.mem_pair.mp hbatch with rfl | rfl
    · rw [if_neg (by decide +kernel)] at hrecords
      exact fetchRecords_batch _ _ hrecords
    · rw [if_pos rfl] at hrecords
      exact (Except.ok.inj hrecords).symm
  have hst : e.record.state ≠ .unresolved := by
    rw [hrun.signing]
    decide
  exact ⟨pid, tr, reg, e, hrun, hfetch, representation hrun.run hfetch hrun.entry hst⟩

end

end Pocs.Civic
