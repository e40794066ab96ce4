import Pocs.Civic.InMemoryBlob
import Pocs.Civic.Registry.Invariant

/-! # Honest batches are accepted

The converse of the invariant: while signing is open, `publish_batch` accepts a batch whose public
inputs are those of the registry's own trees (`publishBatch_honest`), so that every sequence of
well-formed batches that replays is the publication history of some run (`exists_history`). -/

namespace Pocs.Civic

open InMemoryBlobCarrier

/-- A string of 32 bytes with a zero high byte is below the modulus. -/
private theorem beToNat_set_zero_lt {bs : List UInt8} (h : bs.length = 32) : beToNat (bs.set 0 0) < bn254 := by
  obtain _ | ⟨b, bs⟩ := bs
  · simp at h
  have hlt := beToNat_lt bs
  have hlen : bs.length = 31 := by simpa using h
  rw [hlen] at hlt
  calc beToNat (0 :: bs) = beToNat bs := by simp [beToNat]
    _ < 256 ^ 31 := hlt
    _ ≤ bn254 := by decide

theorem computeBatchVersionedHash_lt (C : Primitives) (fes : List Bytes32) :
    (computeBatchVersionedHash C fes).toNat < bn254 :=
  beToNat_set_zero_lt (C.sha256 (fes.flatMap (·.1))).2

theorem frToU64_ofNat {n : Nat} (h : n < 2 ^ 64) : frToU64 (Scalar.ofNat n) = .ok n := by
  have hval : (Scalar.ofNat n : Fr).val = n := Scalar.toNat_ofNat (F := Fr) h
  have hbytes : (frToBeBytes (Scalar.ofNat n)).1 = List.replicate 24 0 ++ beOfNat 8 n := by
    unfold frToBeBytes Bytes.ofNat
    rw [hval]
    exact beOfNat_add 24 8 h
  simp only [frToU64, hbytes, bind_eq_ok, failIf_eq_ok, pure_eq_ok]
  refine ⟨(), by simp, ?_⟩
  rw [List.drop_left' (by simp), beToNat_beOfNat]
  exact Nat.mod_eq_of_lt h

/-! ## The honest submission -/

section
variable {C : Primitives} {env : Ports} {e : PetitionEntry} {ps : List Publication} {k : Nat}
  {records : List RecordEntry} {t : Trees}

/-- The batch a relayer in step with the registry submits: its public inputs are the petition's and
those of the trees before and after. The field elements and the verification key are read by the
proof backend only. -/
def honestBatch (C : Primitives) (e : PetitionEntry) (records : List RecordEntry) (t : Trees) :
    BatchSubmission where
  publicInputs := {
    petitionId := frFromBeBytes e.record.petitionId.1
    rRoot := frFromBeBytes e.record.rRoot.1
    predicateHash := frFromBeBytes e.record.predicateHash.1
    classIndex := Scalar.ofNat e.record.classIndex.toNat
    slot := Scalar.ofNat e.record.slot
    batchSize := Scalar.ofNat records.length
    priorRunningRoot := e.runningImt.root
    newRunningRoot := t.running.root
    priorIdentityTagSetRoot := e.identityTagImt.root
    newIdentityTagSetRoot := t.identityTag.root
    priorLeafCount := Scalar.ofNat e.record.leafCount
    newLeafCount := Scalar.ofNat (e.record.leafCount + records.length)
    batchVersionedHash := frFromBeBytes (computeBatchVersionedHash C (blobElements records)).1
    blsFields := []
    signerVkHash := 0 }
  records := records
  proofBytes := []

/-- The public inputs of a batch over `records` that leads from the entry `e` to the trees `t`. -/
structure HonestInputs (C : Primitives) (e : PetitionEntry) (records : List RecordEntry) (t : Trees)
    (pub : BatchPublicInputs) : Prop where
  petitionId : pub.petitionId = frFromBeBytes e.record.petitionId.1
  rRoot : pub.rRoot = frFromBeBytes e.record.rRoot.1
  predicateHash : pub.predicateHash = frFromBeBytes e.record.predicateHash.1
  classIndex : pub.classIndex = Scalar.ofNat e.record.classIndex.toNat
  slot : pub.slot = Scalar.ofNat e.record.slot
  batchSize : pub.batchSize = Scalar.ofNat records.length
  priorRunningRoot : pub.priorRunningRoot = e.runningImt.root
  newRunningRoot : pub.newRunningRoot = t.running.root
  priorIdentityTagSetRoot : pub.priorIdentityTagSetRoot = e.identityTagImt.root
  newIdentityTagSetRoot : pub.newIdentityTagSetRoot = t.identityTag.root
  priorLeafCount : pub.priorLeafCount = Scalar.ofNat e.record.leafCount
  newLeafCount : pub.newLeafCount = Scalar.ofNat (e.record.leafCount + records.length)
  batchVersionedHash : pub.batchVersionedHash =
    frFromBeBytes (computeBatchVersionedHash C (blobElements records)).1

theorem honestBatch_inputs : HonestInputs C e records t (honestBatch C e records t).publicInputs :=
  ⟨rfl, rfl, rfl, rfl, rfl, rfl, rfl, rfl, rfl, rfl, rfl, rfl, rfl⟩

/-- A batch that `publish_batch` has no reason to refuse. -/
structure WellFormedBatch (C : Primitives) (classSet : List ClassTag) (records : List RecordEntry) : Prop where
  pos : 0 < records.length
  size : records.length ≤ batchSizeMax
  classTags : ∀ r ∈ records, r.classTag ∈ classSet
  ordered : records.Pairwise (fun r r' => r.leaf C < r'.leaf C)

/-- The loop accepts records in order that replay. -/
theorem insertRecords_complete {classSet : List ClassTag} {st : Scratch} {i : Nat}
    (hclass : ∀ r ∈ records, r.classTag ∈ classSet) (hord : records.Pairwise (fun r r' => r.leaf C < r'.leaf C))
    (hprev : ∀ p ∈ st.prevLeaf, ∀ r ∈ records, p < frToBeBytes (r.leaf C))
    (hrep : records.foldlM (replayRecord C) st.trees = .ok t) :
    ∃ st', (records.zipIdx i).foldlM (insertRecord C classSet) st = .ok st' ∧ st'.trees = t := by
  induction records generalizing st i with
  | nil =>
    obtain rfl := Except.ok.inj hrep
    exact ⟨st, rfl, rfl⟩
  | cons r records ih =>
    simp only [List.foldlM_cons, bind_eq_ok, replayRecord, pure_eq_ok] at hrep
    obtain ⟨_, ⟨⟨w, running⟩, hr, ⟨w', tag⟩, ht, rfl⟩, hreps⟩ := hrep
    obtain ⟨hnext, hord⟩ := List.pairwise_cons.mp hord
    have hstep : insertRecord C classSet st (r, i) = .ok ⟨running, tag,
        some (frToBeBytes (r.leaf C)), frToBeBytes w.newRoot, frToBeBytes w'.newRoot⟩ := by
      simp only [insertRecord, bind_eq_ok, failIf_eq_ok, mapErr_eq_ok, pure_eq_ok, not_not]
      refine ⟨(), hclass r List.mem_cons_self, (), ?_, (w, running), hr, (w', tag), ht, rfl⟩
      cases hp : st.prevLeaf with
      | none => simp
      | some p => simpa using hprev p hp r List.mem_cons_self
    set st₁ : Scratch := ⟨running, tag, some (frToBeBytes (r.leaf C)), frToBeBytes w.newRoot,
      frToBeBytes w'.newRoot⟩
    have hprev₁ : ∀ p ∈ st₁.prevLeaf, ∀ r' ∈ records, p < frToBeBytes (r'.leaf C) := by
      intro p hp r' hr'
      obtain rfl := Option.some.inj hp
      exact frToBeBytes_lt.mpr (hnext r' hr')
    obtain ⟨st', hst', htrees⟩ := @ih st₁ (i + 1)
      (fun r' hr' => hclass r' (List.mem_cons_of_mem r hr')) hord hprev₁ hreps
    refine ⟨st', ?_, htrees⟩
    rw [List.zipIdx_cons, List.foldlM_cons, hstep]
    exact hst'

def honestUpdate (C : Primitives) (e : PetitionEntry) (records : List RecordEntry) (t : Trees) :
    BatchUpdate where
  localVh := computeBatchVersionedHash C (blobElements records)
  priorRr := e.record.runningRoot
  priorIdt := e.record.identityTagSetRoot
  priorLc := e.record.leafCount
  newRr := t.running.rootBytes
  newIdt := t.identityTag.rootBytes
  newLc := e.record.leafCount + records.length
  runningImt := t.running
  identityTagImt := t.identityTag

/-- The checks of `publish_batch`, one by one. -/
private theorem checkBatch_of {sub : BatchSubmission} {fes : List Bytes32} {s : Scratch}
    (hfes : encodeBlob sub.records = .ok fes)
    (hvh : computeBatchVersionedHash C fes = frToBeBytes sub.publicInputs.batchVersionedHash)
    (hproof : env.verifyBatchProof sub.proofBytes sub.publicInputs = .ok ())
    (hpid : sub.publicInputs.petitionId = frFromBeBytes e.record.petitionId.1)
    (hroot : sub.publicInputs.rRoot = frFromBeBytes e.record.rRoot.1)
    (hpred : sub.publicInputs.predicateHash = frFromBeBytes e.record.predicateHash.1)
    (hclass : sub.publicInputs.classIndex = Scalar.ofNat e.record.classIndex.toNat)
    (hslot : sub.publicInputs.slot = Scalar.ofNat e.record.slot)
    (hsize : frToU64 sub.publicInputs.batchSize = .ok sub.records.length)
    (hpos : sub.records.length ≠ 0) (hmax : sub.records.length ≤ batchSizeMax)
    (hrr : frToBeBytes sub.publicInputs.priorRunningRoot = e.record.runningRoot)
    (hidt : frToBeBytes sub.publicInputs.priorIdentityTagSetRoot = e.record.identityTagSetRoot)
    (hlc : frToU64 sub.publicInputs.priorLeafCount = .ok e.record.leafCount)
    (hnew : frToU64 sub.publicInputs.newLeafCount = .ok (e.record.leafCount + sub.records.length))
    (hlt : e.record.leafCount + sub.records.length < 2 ^ 64)
    (hs : sub.records.zipIdx.foldlM (insertRecord C e.record.classSet)
      ⟨e.runningImt, e.identityTagImt, none, e.record.runningRoot, e.record.identityTagSetRoot⟩ = .ok s)
    (hnrr : frToBeBytes sub.publicInputs.newRunningRoot = s.lastRunningRoot)
    (hnidt : frToBeBytes sub.publicInputs.newIdentityTagSetRoot = s.lastIdentityTagRoot) :
    checkBatch C env e .signingOpen sub = .ok ⟨computeBatchVersionedHash C fes,
      e.record.runningRoot, e.record.identityTagSetRoot, e.record.leafCount, s.lastRunningRoot,
      s.lastIdentityTagRoot, e.record.leafCount + sub.records.length, s.runningImt, s.identityTagImt⟩ := by
  simp only [checkBatch, hfes, hproof, hsize, hlc, hnew, hrr, hidt, hnrr, hnidt, mapErr, ok_bind]
  rw [failIf_neg (by simp), ok_bind, failIf_neg (by simp [hvh]), ok_bind,
    failIf_neg (by simp [hpid, hroot, hpred, hclass]), ok_bind, failIf_neg (by simp [hslot]), ok_bind,
    failIf_neg (by simp [hpos, hmax]), ok_bind, failIf_neg (by simp), ok_bind,
    failIf_neg (by simp), ok_bind, checkedAdd, if_pos hlt]
  simp only [okOr, ok_bind, hs]
  rw [failIf_neg (by simp), ok_bind, failIf_neg (by simp), ok_bind, failIf_neg (by simp), ok_bind]
  rfl

/-- The checks of `publish_batch` accept an honest batch. -/
theorem checkBatch_honest (H : EntryInv C e ps k) (hst : e.record.state = .signingOpen)
    {sub : BatchSubmission} (hpub : HonestInputs C e sub.records t sub.publicInputs)
    (hproof : env.verifyBatchProof sub.proofBytes sub.publicInputs = .ok ())
    (hwf : WellFormedBatch C e.record.classSet sub.records)
    (hrep : replay C (recordsOf ps ++ sub.records) = .ok t) :
    checkBatch C env e .signingOpen sub = .ok (honestUpdate C e sub.records t) := by
  have hopen : e.record.state.Open := .inr hst
  obtain ⟨rfl, hrep₀⟩ := H.signing hopen
  obtain ⟨t₀, ht₀, hrr, hidt⟩ := H.roots
  rw [List.take_length] at ht₀
  obtain rfl := Except.ok.inj (hrep₀.symm.trans ht₀)
  have hrr := hrr (by rw [hst]; simp)
  have hcount := H.leafCount
  rw [List.take_length] at hcount
  obtain ⟨t₁, ht₁, hreps⟩ := replay_append_eq_ok.mp hrep
  obtain rfl := Except.ok.inj (hrep₀.symm.trans ht₁)
  -- the loop runs through and ends in the roots of the new trees
  obtain ⟨s, hs, htrees⟩ := @insertRecords_complete C sub.records t e.record.classSet
    ⟨e.runningImt, e.identityTagImt, none, e.record.runningRoot, e.record.identityTagSetRoot⟩ 0
    hwf.classTags hwf.ordered (by simp) hreps
  obtain ⟨-, -, -, -, hroots⟩ := insertRecords_ok hs (replay_spec hrep₀).inv ⟨hrr, hidt⟩
  subst htrees
  have hlt := (replay_spec hrep).length_lt
  rw [List.length_append, ← hcount] at hlt
  have h64 : e.record.leafCount + sub.records.length < 2 ^ 64 := hlt.trans (by decide)
  have hblob : sub.records.length ≤ recordsPerBlob := hwf.size.trans (by decide)
  have hvh : computeBatchVersionedHash C (blobElements sub.records) =
      frToBeBytes sub.publicInputs.batchVersionedHash := by
    rw [hpub.batchVersionedHash, frToBeBytes_frFromBeBytes (computeBatchVersionedHash_lt C _)]
  have hcheck := checkBatch_of (encodeBlob_eq_ok.mpr ⟨hblob, rfl⟩) hvh hproof hpub.petitionId
    hpub.rRoot hpub.predicateHash hpub.classIndex hpub.slot
    (by rw [hpub.batchSize, frToU64_ofNat (by omega)]) hwf.pos.ne' hwf.size
    (by rw [hpub.priorRunningRoot, hrr]; rfl) (by rw [hpub.priorIdentityTagSetRoot, hidt]; rfl)
    (by rw [hpub.priorLeafCount, frToU64_ofNat (by omega)])
    (by rw [hpub.newLeafCount, frToU64_ofNat h64]) h64 hs
    (by rw [hpub.newRunningRoot, hroots.1]; rfl) (by rw [hpub.newIdentityTagSetRoot, hroots.2]; rfl)
  rw [hcheck, hroots.1, hroots.2]
  rfl

/-- `publish_batch` accepts an honest batch and appends it. -/
theorem publishBatch_honest {reg : PetitionRegistry} {pid : PetitionId}
    (he : reg.petitions pid = some e) (H : EntryInv C e ps k)
    (hopen : stepState env.now e.record.closeAtBlock e.record.state = some .signingOpen)
    {sub : BatchSubmission} (hpub : HonestInputs C e sub.records t sub.publicInputs)
    (hproof : env.verifyBatchProof sub.proofBytes sub.publicInputs = .ok ())
    (hwf : WellFormedBatch C e.record.classSet sub.records)
    (hrep : replay C (recordsOf ps ++ sub.records) = .ok t) (relayer : Address) :
    let u := honestUpdate C e sub.records t
    publishBatch C env pid relayer sub reg =
      some (.ok ⟨pid, e.batches.length, u.localVh, u.newRr, u.newIdt, u.newLc⟩, { reg with
          petitions := Function.update reg.petitions pid
            (some (((e.withState .signingOpen).withTrees u).withBatch u
              (u.batch pid e.batches.length relayer env.now))) }) := by
  have H' := H.withState (stepState_advance hopen)
  have hstep : stepEntry env e = some (.ok .signingOpen, e.withState .signingOpen) :=
    stepEntry_eq_some.mpr ⟨.signingOpen, hopen, rfl, rfl⟩
  have hpub' : HonestInputs C (e.withState .signingOpen) sub.records t sub.publicInputs :=
    ⟨hpub.1, hpub.2, hpub.3, hpub.4, hpub.5, hpub.6, hpub.7, hpub.8, hpub.9, hpub.10, hpub.11, hpub.12, hpub.13⟩
  have hcheck := checkBatch_honest H' rfl hpub' hproof hwf hrep
  have hlen : ¬ 2 ^ 32 ≤ (e.withState .signingOpen).batches.length :=
    not_le.mpr (H'.batches_lt (.inr rfl))
  apply onPetition_eq_some.mpr
  refine .inr ⟨e, _, he, ?_, rfl⟩
  apply Method.bind_eq_some.mpr
  refine .inl ⟨_, e.withState .signingOpen, hstep, ?_⟩
  rw [Method.get_bind, Method.ofExcept_ok_bind hcheck, Method.set_bind,
    Method.ofExcept_ok_bind (failIf_neg hlen _)]
  rfl

/-! ## Histories of honest batches -/

variable {address : Address} {global : GlobalState} {reg : PetitionRegistry} {draft : PetitionDraft}
  {d : DraftBindings}

/-- `register` inserts the entry of an accepted draft, open for signing. -/
theorem register_ok (hd : checkDraft C env reg draft = .ok d) :
    ∃ p ev reg', register C env draft reg = some (.ok (p, ev), reg') ∧ ev.bounty = d.bounty ∧
      reg'.petitions d.petitionId = some ((newEntry C env reg draft d).withState .signingOpen) := by
  have hchk := checkDraft_ok hd
  have hs : checkedAdd 32 reg.global.s 1 = some (reg.global.s + 1) :=
    if_pos (Nat.lt_of_le_of_lt hchk.slot (by decide))
  set reg₁ : PetitionRegistry := { reg with
    global := { reg.global with s := reg.global.s + 1 }
    petitions := Function.update reg.petitions d.petitionId (some (newEntry C env reg draft d)) }
  have hstep : stepEntry env (newEntry C env reg draft d) =
      some (.ok .signingOpen, (newEntry C env reg draft d).withState .signingOpen) := by
    refine stepEntry_eq_some.mpr ⟨.signingOpen, ?_, rfl, rfl⟩
    rw [stepState_eq]
    exact if_neg (not_le.mpr hchk.closes)
  set reg₂ : PetitionRegistry := { reg₁ with
    petitions := Function.update reg₁.petitions d.petitionId
      (some ((newEntry C env reg draft d).withState .signingOpen)) }
  have hon : onPetition d.petitionId (stepEntry env) reg₁ = some (.ok .signingOpen, reg₂) :=
    onPetition_eq_some.mpr (.inr ⟨_, _, Function.update_self .., hstep, rfl⟩)
  refine ⟨⟨d.petitionId, reg.global.s, d.predicateHash, env.now⟩,
    ⟨d.petitionId, reg.global.s, draft.rRoot, d.predicateHash, draft.classSet,
      draft.classThresholds, draft.classIndex, draft.closeAtBlock, d.bounty⟩, reg₂, ?_, rfl,
    Function.update_self ..⟩
  rw [register, Method.get_bind, Method.ofExcept_ok_bind hd, hs, okOr, Method.ofExcept_ok_bind rfl,
    Method.set_bind]
  exact Method.bind_eq_ok.mpr ⟨_, _, hon, rfl⟩

structure Registered (draft : PetitionDraft) (e : PetitionEntry) : Prop where
  classSet : e.record.classSet = draft.classSet
  classThresholds : e.record.classThresholds = draft.classThresholds
  closeAtBlock : e.record.closeAtBlock = draft.closeAtBlock
  bounty : e.record.bounty = draft.bounty

/-- A run that registers a petition and publishes batches to it, under the same ports. -/
structure PublishingRun (C : Primitives) (address : Address) (global : GlobalState) (env : Ports)
    (draft : PetitionDraft) (pid : PetitionId) (batches : List (List RecordEntry)) (tr : List Step)
    (reg : PetitionRegistry) (e : PetitionEntry) : Prop where
  run : History C address global tr reg
  env_eq : ∀ s ∈ tr, s.env = env
  entry : reg.petitions pid = some e
  signing : e.record.state = .signingOpen
  registered : Registered draft e
  records : (published tr pid).map (·.records) = batches
  only : ∀ s ∈ tr, ∀ p, s.publication = some p → p ∈ published tr pid

theorem PublishingRun.recordsOf_eq {pid : PetitionId} {batches : List (List RecordEntry)}
    {tr : List Step} (h : PublishingRun C address global env draft pid batches tr reg e) :
    recordsOf (published tr pid) = batches.flatten := by
  rw [← h.records, recordsOf, List.flatMap_def]

/-- The published batches are stored in order, all active. -/
theorem PublishingRun.batch {pid : PetitionId} {batches : List (List RecordEntry)} {tr : List Step}
    (h : PublishingRun C address global env draft pid batches tr reg e) {i : Nat}
    {records : List RecordEntry} (hi : batches[i]? = some records) :
    ∃ b p, e.batches[i]? = some b ∧ (published tr pid)[i]? = some p ∧ p.records = records ∧
      b.state = .active ∧ b.batchVersionedHash = computeBatchVersionedHash C (blobElements records) := by
  obtain ⟨k, H⟩ := (history_inv h.run).entry pid e h.entry
  rw [← h.records, List.getElem?_map, Option.map_eq_some_iff] at hi
  obtain ⟨p, hp, rfl⟩ := hi
  have hlt := (List.getElem?_eq_some_iff.mp hp).1
  have hb := List.getElem?_eq_getElem (H.length.symm ▸ hlt)
  have hok := H.batch i _ p hb hp
  obtain ⟨fes, hfes, hvh⟩ := hok.encoded
  obtain ⟨-, rfl⟩ := encodeBlob_eq_ok.mp hfes
  refine ⟨_, p, hb, hp, rfl, (H.active i _ hb).mpr ?_, hok.versionedHash.trans hvh.symm⟩
  exact (H.signing (.inr h.signing)).1 ▸ hlt

/-- Every sequence of well-formed batches that replays can be published. -/
theorem exists_history (hd : checkDraft C env (PetitionRegistry.new C address global) draft = .ok d)
    (hproof : ∀ proof pub, env.verifyBatchProof proof pub = .ok ())
    {batches : List (List RecordEntry)} (hwf : ∀ b ∈ batches, WellFormedBatch C draft.classSet b)
    (hrep : ∃ t, replay C batches.flatten = .ok t) :
    ∃ tr reg e, PublishingRun C address global env draft d.petitionId batches tr reg e := by
  induction batches using List.reverseRecOn with
  | nil =>
    obtain ⟨p, ev, reg', hreg, -, he⟩ := register_ok hd
    refine ⟨[⟨env, .register draft, .ok (.registered p ev)⟩], reg', _, ?_, by simp, he, rfl,
      ⟨rfl, rfl, rfl, rfl⟩, rfl, ?_⟩
    · exact .cons .nil (Method.mapOk_eq_some.mpr ⟨_, hreg, rfl⟩)
    · intro s hs p hp
      obtain rfl := List.mem_singleton.mp hs
      cases hp
  | append_singleton batches records ih =>
    obtain ⟨t, ht⟩ := hrep
    rw [List.flatten_append, List.flatten_singleton] at ht
    obtain ⟨t₀, ht₀, -⟩ := replay_append_eq_ok.mp ht
    obtain ⟨tr, reg, e, hrun⟩ := ih (fun b hb => hwf b (List.mem_append_left _ hb)) ⟨t₀, ht₀⟩
    obtain ⟨k, H⟩ := (history_inv hrun.run).entry _ e hrun.entry
    have hnow : env.now < e.record.closeAtBlock :=
      hrun.registered.closeAtBlock ▸ (checkDraft_ok hd).closes
    have hwf' := hwf records (by simp)
    rw [← hrun.registered.classSet] at hwf'
    have hopen : stepState env.now e.record.closeAtBlock e.record.state = some .signingOpen := by
      rw [hrun.signing, stepState_eq]
      exact if_neg (not_le.mpr hnow)
    have hrep' : replay C (recordsOf (published tr d.petitionId) ++ records) = .ok t :=
      hrun.recordsOf_eq ▸ ht
    have hpub := @publishBatch_honest C env e _ k t reg d.petitionId hrun.entry H hopen
      (honestBatch C e records t) honestBatch_inputs (hproof _ _) hwf' hrep' (Bytes.zero 20)
    set u := honestUpdate C e records t
    set s : Step := ⟨env, .publishBatch d.petitionId (Bytes.zero 20) (honestBatch C e records t),
      .ok (.published ⟨d.petitionId, e.batches.length, u.localVh, u.newRr, u.newIdt, u.newLc⟩)⟩
    have hps : published (s :: tr) d.petitionId =
        published tr d.petitionId ++ [⟨d.petitionId, u.localVh, records⟩] :=
      @published_cons_some s tr ⟨d.petitionId, u.localVh, records⟩ rfl
    refine ⟨s :: tr, _, _, hrun.run.cons (Method.mapOk_eq_some.mpr ⟨_, hpub, rfl⟩),
      List.forall_mem_cons.mpr ⟨rfl, hrun.env_eq⟩, Function.update_self .., rfl,
      ⟨hrun.registered.1, hrun.registered.2, hrun.registered.3, hrun.registered.4⟩, ?_, ?_⟩
    · rw [hps, List.map_append, hrun.records]
      rfl
    · intro s' hs' p hp
      rw [hps, List.mem_append]
      obtain rfl | hs' := List.mem_cons.mp hs'
      · obtain rfl := Option.some.inj hp
        exact .inr (List.mem_singleton_self _)
      · exact .inl (hrun.only s' hs' p hp)

end

/-! ## A petition with one class -/

namespace Sample

/-- Affine hash functions, increasing in the nullifier of a leaf as long as nothing wraps. -/
def poseidon : Poseidon Fr where
  hash2 a b := .reduce (a.val + 2 * b.val + 1)
  hash3 a b c := .reduce (a.val + 5 * b.val + 7 * c.val)
  hash4 a b c d := .reduce (a.val + 2 * b.val + 3 * c.val + 4 * d.val + 5)
  hash5 a b c d e := .reduce (a.val + b.val + c.val + d.val + e.val)
  hash6 a b c d e f := .reduce (a.val + b.val + c.val + d.val + e.val + f.val)
  permute s := s

def primitives : Primitives where
  poseidon := poseidon
  sha256 bs := .resize 32 ((bs.drop 32).take 32)
  keccak256 _ := .zero 32

def global (alpha : Nat) : GlobalState := ⟨0, alpha, 0, 10, .zero 32, 1, 4⟩

def ports (carrier : InMemoryBlobCarrier) (now : Nat) : Ports where
  now := now
  verifyBatchProof _ _ := .ok ()
  verifyResolutionProof _ _ := .ok ()
  rootFirstSeen _ := some 0
  verify := carrier.verify primitives
  fetchRecords := carrier.fetchRecords

/-- `attr[0] == 100`, one class, open for 1000 blocks from block 300000. -/
def draft (bounty : Nat) : PetitionDraft where
  organizer := .zero 20
  rRoot := .zero 32
  predicateDef := ⟨[⟨0, .ofNat 32 100, .int64, .eq⟩], [⟨.pushTuple, 0⟩]⟩
  salt := .zero 32
  classSet := [100]
  classThresholds := [1]
  classIndex := 0
  closeAtBlock := 301000
  bounty := .ofNat 32 bounty

def registry (alpha : Nat) : PetitionRegistry := .new primitives (.zero 20) (global alpha)

def record (nullifier tag : Nat) : RecordEntry := ⟨.ofNat 32 nullifier, .ofNat 32 tag, 100⟩

theorem exists_draft {alpha bounty : Nat} (carrier : InMemoryBlobCarrier)
    (hok : (checkDraft primitives (ports .new 300000) (registry alpha) (draft bounty)).toBool = true) :
    ∃ d, checkDraft primitives (ports carrier 300000) (registry alpha) (draft bounty) = .ok d := by
  -- registration does not read the carrier
  have heq : checkDraft primitives (ports carrier 300000) (registry alpha) (draft bounty) =
    checkDraft primitives (ports .new 300000) (registry alpha) (draft bounty) := rfl
  rw [heq]
  cases h : checkDraft primitives (ports .new 300000) (registry alpha) (draft bounty) with
  | error err => rw [h] at hok; cases hok
  | ok d => exact ⟨d, rfl⟩

/-- The carrier after the blobs of `batches` were published to it. -/
def carrier (batches : List (List RecordEntry)) : InMemoryBlobCarrier :=
  batches.foldl (fun c records =>
    match c.publish primitives records with
    | .ok (_, c') => c'
    | .error _ => c) .new

/-- The carrier holds the batch published last under its hash. -/
theorem fetchRecords_concat {batches : List (List RecordEntry)} {records : List RecordEntry}
    (h : records.length ≤ recordsPerBlob) (vh : Bytes32) : (carrier (batches ++ [records])).fetchRecords vh =
      if vh = computeBatchVersionedHash primitives (blobElements records) then .ok records
      else (carrier batches).fetchRecords vh := by
  have hpub : ∃ c', (carrier batches).publish primitives records =
      .ok (computeBatchVersionedHash primitives (blobElements records), c') :=
    ⟨_, publish_eq_ok.mpr ⟨_, encodeBlob_eq_ok.mpr ⟨h, rfl⟩, rfl, rfl⟩⟩
  obtain ⟨c', hpub⟩ := hpub
  have hcarrier : carrier (batches ++ [records]) = c' := by
    rw [carrier, List.foldl_append, List.foldl_cons, List.foldl_nil, ← carrier, hpub]
  rw [hcarrier, fetchRecords_publish hpub]

/-- A run that publishes given batches to the sample petition. -/
theorem exists_run (carrier : InMemoryBlobCarrier) {batches : List (List RecordEntry)}
    (hwf : ∀ b ∈ batches, WellFormedBatch primitives [100] b)
    (hrep : ∃ t, replay primitives batches.flatten = .ok t) :
    ∃ pid tr reg e, PublishingRun primitives (.zero 20) (global 1) (ports carrier 300000)
      (draft 1000) pid batches tr reg e := by
  obtain ⟨d, hd⟩ := @exists_draft 1 1000 carrier (by decide +kernel)
  exact ⟨d.petitionId, exists_history hd (fun _ _ => rfl) hwf hrep⟩

def batch : List RecordEntry := [record 5 6]

theorem batch_wellFormed : WellFormedBatch primitives [100] batch where
  pos := by decide
  size := by decide
  classTags := by decide
  ordered := List.pairwise_singleton _ _

theorem batch_replays : ∃ t, replay primitives batch = .ok t :=
  exists_replay (by decide) (List.nodup_singleton _) (List.nodup_singleton _) (by decide +kernel)
    (by decide +kernel)

def batchHash : Bytes32 := computeBatchVersionedHash primitives (blobElements batch)

theorem batch_published : InMemoryBlobCarrier.new.publish primitives batch = .ok (batchHash, carrier [batch]) :=
  publish_eq_ok.mpr ⟨_, encodeBlob_eq_ok.mpr ⟨by decide, rfl⟩, rfl, rfl⟩

theorem fetchRecords_batch (vh : Bytes32) (records : List RecordEntry)
    (h : (carrier [batch]).fetchRecords vh = .ok records) : records = batch := by
  rw [fetchRecords_publish batch_published] at h
  split at h
  · exact (Except.ok.inj h).symm
  · cases h

/-- A batch whose leaf lies above that of `batch`. -/
def laterBatch : List RecordEntry := [record 9 10]

theorem laterBatch_wellFormed : WellFormedBatch primitives [100] laterBatch where
  pos := by decide
  size := by decide
  classTags := by decide
  ordered := List.pairwise_singleton _ _

/-- A run that publishes two batches. -/
theorem exists_later_run : ∃ pid tr reg e, PublishingRun primitives (.zero 20) (global 1)
    (ports (carrier [batch, laterBatch]) 300000) (draft 1000) pid [batch, laterBatch] tr reg e := by
  refine exists_run _ ?_ (exists_replay (by decide) (by decide +kernel) (by decide +kernel)
    (by decide +kernel) (by decide +kernel))
  exact List.forall_mem_cons.mpr ⟨batch_wellFormed, List.forall_mem_singleton.mpr laterBatch_wellFormed⟩

end Sample

end Pocs.Civic
