import Pocs.Civic.Relayer

/-! # The relayer and the registry agree

The relayer and the registry keep trees of their own for a petition. As long as both were built by
the batches published so far, a batch that `build_batch` returns is accepted by `publish_batch`, and
afterwards both have the same roots and the same count, again built by the batches published so far
(`publishBatch_of_buildBatch`). -/

namespace Pocs.Civic

/-- The coordinates the registry supplies for a petition. The hash of the signer key is pinned at
deployment. -/
def PetitionEntry.view (e : PetitionEntry) (signerVkHash : Bytes32) : PetitionView where
  petitionId := e.record.petitionId
  rRoot := e.record.rRoot
  predicateHash := e.record.predicateHash
  classIndex := e.record.classIndex
  classSet := e.record.classSet
  slot := e.record.slot
  runningRoot := e.record.runningRoot
  identityTagSetRoot := e.record.identityTagSetRoot
  leafCount := e.record.leafCount
  signerVkHash := signerVkHash

/-- Replicas into which the leaves and the identity tags of `records` were inserted. -/
structure RelayerPetitionState.BuiltFrom (C : Primitives) (records : List RecordEntry)
    (st : RelayerPetitionState) : Prop where
  running : (IndexedMerkleTree.new C.poseidon).insertAll C.poseidon (records.map (·.leaf C)) = .ok st.runningImt
  idtag : (IndexedMerkleTree.new C.poseidon).insertAll C.poseidon (records.map (·.tag)) = .ok st.identityTagImt
  leafCount : st.leafCount = records.length

def RelayerPetitionState.trees (st : RelayerPetitionState) : Trees := ⟨st.runningImt, st.identityTagImt⟩

namespace Relayer
open RelayerPetitionState (BuiltFrom)

section
variable {β : Type} {C : Primitives}
  {publish : β → List RecordEntry → Except BlobError (Bytes32 × β)} {petition : PetitionView}
  {submissions : List SignerSubmission} {st st' : RelayerPetitionState} {vs : List Verified}
  {positions : List BatchPosition} {records : List RecordEntry}

theorem builtFrom_new : BuiltFrom C [] (.new C) := ⟨rfl, rfl, rfl⟩

theorem builtFrom_iff : BuiltFrom C records st ↔
    replay C records = .ok st.trees ∧ st.leafCount = records.length := by
  rw [replay, replayFrom_eq_ok]
  exact ⟨fun h => ⟨⟨h.1, h.2⟩, h.3⟩, fun h => ⟨h.1.1, h.1.2, h.2⟩⟩

/-- The insertion loop replays the records of the submissions. -/
theorem Inserted.replay (h : Inserted C st vs positions st') (hvs : ∀ v ∈ vs, v = verifiedOf C v.submission) :
    (positions.map fun p => recordOf p.submission).foldlM (replayRecord C) st.trees = .ok st'.trees := by
  induction h with
  | nil => rfl
  | @cons s s' v vs ps wr wt T U running idtag rest ih =>
    obtain ⟨hv, hvs⟩ := List.forall_mem_cons.mp hvs
    have hleaf : (recordOf v.submission).leaf C = v.leaf := (congrArg Verified.leaf hv).symm
    have hstep : replayRecord C s.trees (recordOf v.submission) = .ok ⟨T, U⟩ := by
      simp only [replayRecord, frFromBeBytes_frToBeBytes, hleaf, bind_eq_ok, pure_eq_ok]
      exact ⟨_, running, _, idtag, rfl⟩
    rw [List.map_cons, List.foldlM_cons, hstep, ok_bind]
    exact ih hvs

variable {relayer relayer' : Relayer β} {batch : BatchSubmission} {vh : Bytes32}

/-- The relayer's replicas after a batch are those of all records so far. -/
theorem Built.builtFrom (B : Built C publish petition submissions relayer relayer' st st' batch positions vs vh)
    (hst : BuiltFrom C records st) : BuiltFrom C (records ++ batch.records) st' := by
  obtain ⟨hverified, -, -⟩ := B.positions_eq
  obtain ⟨hrep, hcount⟩ := builtFrom_iff.mp hst
  have hins := B.inserted.replay fun v hv => (hverified v hv).1
  refine builtFrom_iff.mpr ⟨?_, ?_⟩
  · rw [replay_append_eq_ok]
    exact ⟨st.trees, hrep, B.records ▸ hins⟩
  · rw [B.leafCount, hcount, List.length_append, B.records, List.length_map]

/-- The registry has no reason to refuse the records of a batch. -/
theorem Built.wellFormed
    (B : Built C publish petition submissions relayer relayer' st st' batch positions vs vh)
    (hst : BuiltFrom C records st) : WellFormedBatch C petition.classSet batch.records := by
  obtain ⟨hverified, hlen, hmem⟩ := B.positions_eq
  have hreclen : batch.records.length = submissions.length := by rw [B.records, List.length_map, hlen]
  have hnodup : (batch.records.map (·.leaf C)).Nodup := by
    obtain ⟨hrep, -⟩ := builtFrom_iff.mp (B.builtFrom hst)
    have hall := (replay_spec hrep).leaves_nodup
    rw [List.map_append] at hall
    exact hall.of_append_right
  have hleaves : batch.records.map (·.leaf C) = vs.map (·.leaf) := by
    have hmap := congrArg (List.map fun s => (recordOf s).leaf C) B.inserted.map_submission
    rw [List.map_map, List.map_map] at hmap
    rw [B.records, List.map_map]
    apply hmap.trans
    apply List.map_congr_left
    intro v hv
    exact (congrArg Verified.leaf (hverified v hv).1).symm
  refine ⟨?_, ?_, fun r hr => ?_, ?_⟩
  · rw [hreclen, List.length_pos_iff]
    exact B.checked.pos
  · rw [hreclen]
    exact B.checked.size
  · rw [B.records] at hr
    obtain ⟨p, hp, rfl⟩ := List.mem_map.mp hr
    exact B.checked.classTag _ ((hmem _).mp (List.mem_map_of_mem hp))
  · -- sorted by the relayer, and distinct because the insertions went through
    have hsorted : (batch.records.map (·.leaf C)).Pairwise (· ≤ ·) := by
      rw [hleaves, List.pairwise_map]
      exact B.checked.sorted
    have hstrict : (batch.records.map (·.leaf C)).Pairwise (· < ·) :=
      (hsorted.and hnodup).imp fun h => lt_of_le_of_ne h.1 h.2
    exact List.pairwise_map.mp hstrict

end

/-! ## Publishing what was built -/

section
variable {C : Primitives} {address : Address} {global : GlobalState} {tr : List Step}
  {reg : PetitionRegistry} {pid : PetitionId} {e : PetitionEntry} {env : Ports}
  {relayer relayer' : Relayer InMemoryBlobCarrier} {st st' : RelayerPetitionState}
  {submissions : List SignerSubmission} {batch : BatchSubmission} {positions : List BatchPosition}

/-- The public inputs the relayer computes are those of the registry's own trees. -/
theorem Built.honestInputs {signerVkHash vh : Bytes32} {vs : List Verified}
    (B : Built C (fun c => c.publish C) (e.view signerVkHash) submissions relayer relayer' st st'
      batch positions vs vh) (htrees : st.trees = ⟨e.runningImt, e.identityTagImt⟩)
    (hcount : st.leafCount = e.record.leafCount) :
    HonestInputs C e batch.records st'.trees batch.publicInputs := by
  have hvh : vh = computeBatchVersionedHash C (blobElements batch.records) := by
    obtain ⟨fes, hfes, hvh, -⟩ := InMemoryBlobCarrier.publish_eq_ok.mp B.published
    obtain ⟨-, rfl⟩ := encodeBlob_eq_ok.mp hfes
    exact hvh
  have hnew : st'.leafCount = e.record.leafCount + batch.records.length := by
    rw [B.leafCount, hcount, B.records, List.length_map]
  obtain ⟨hrunning, hidtag⟩ := Trees.mk.inj htrees
  rw [B.publicInputs, hvh]
  exact
    { petitionId := rfl
      rRoot := rfl
      predicateHash := rfl
      classIndex := rfl
      slot := rfl
      batchSize := rfl
      priorRunningRoot := by rw [← hrunning]; exact frFromBeBytes_frToBeBytes _
      newRunningRoot := frFromBeBytes_frToBeBytes _
      priorIdentityTagSetRoot := by rw [← hidtag]; exact frFromBeBytes_frToBeBytes _
      newIdentityTagSetRoot := frFromBeBytes_frToBeBytes _
      priorLeafCount := congrArg Scalar.ofNat hcount
      newLeafCount := congrArg Scalar.ofNat hnew
      batchVersionedHash := rfl }

/-- A batch the relayer built from replicas in step with the registry is published, and the two are
in step again. -/
theorem publishBatch_of_buildBatch (hist : History C address global tr reg) (he : reg.petitions pid = some e)
    (hopen : stepState env.now e.record.closeAtBlock e.record.state = some .signingOpen)
    (hst : BuiltFrom C (recordsOf (published tr pid)) st)
    (hbackend : env.verifyBatchProof = relayer.proofBackend.verifyBatchProof)
    (hcomplete : relayer.proofBackend.Complete) (signerVkHash : Bytes32)
    (h : buildBatch C (fun c => c.publish C) (e.view signerVkHash) submissions (relayer, st) =
      some (.ok (batch, positions), (relayer', st'))) (sender : Address) :
    ∃ ev reg' e', publishBatch C env pid sender batch reg = some (.ok ev, reg') ∧ reg'.petitions pid = some e' ∧
      e'.record.runningRoot = frToBeBytes st'.runningImt.root ∧
      e'.record.identityTagSetRoot = frToBeBytes st'.identityTagImt.root ∧ e'.record.leafCount = st'.leafCount ∧
      BuiltFrom C (recordsOf (published
        (⟨env, .publishBatch pid sender batch, .ok (.published ev)⟩ :: tr) pid)) st' := by
  obtain ⟨vs, vh, B⟩ := buildBatch_ok h
  obtain ⟨k, H⟩ := (history_inv hist).entry pid e he
  obtain ⟨hrep, hcount⟩ := builtFrom_iff.mp hst
  have hopened : e.record.state.Open := (stepState_advance hopen).open_of_open (.inr rfl)
  obtain ⟨rfl, hreg⟩ := H.signing hopened
  have htrees : st.trees = ⟨e.runningImt, e.identityTagImt⟩ := Except.ok.inj (hrep.symm.trans hreg)
  have hlc := H.leafCount
  rw [List.take_length] at hlc
  have hnew := B.builtFrom hst
  obtain ⟨hrep', hcount'⟩ := builtFrom_iff.mp hnew
  have hproof : env.verifyBatchProof batch.proofBytes batch.publicInputs = .ok () := by
    rw [hbackend]
    exact hcomplete _ _ _ B.proved
  have hpub := publishBatch_honest he H hopen (B.honestInputs htrees (hcount.trans hlc.symm)) hproof
    (B.wellFormed hst) hrep' sender
  set u := honestUpdate C e batch.records st'.trees
  set s : Step := ⟨env, .publishBatch pid sender batch,
    .ok (.published ⟨pid, e.batches.length, u.localVh, u.newRr, u.newIdt, u.newLc⟩)⟩
  have hps : published (s :: tr) pid = published tr pid ++ [⟨pid, u.localVh, batch.records⟩] :=
    @published_cons_some s tr ⟨pid, u.localVh, batch.records⟩ rfl
  refine ⟨_, _, _, hpub, Function.update_self .., rfl, rfl, ?_, ?_⟩
  · rw [hcount', List.length_append, ← hlc]
    rfl
  · rw [hps, recordsOf_append, recordsOf_singleton]
    exact hnew

end

namespace Sample
open Civic.Sample (poseidon primitives)

def signature (e : PetitionEntry) : SignerSubmission := proved
  ⟨e.record.petitionId, .zero 32, .zero 32, 0, 0, .ofNat 32 5, .ofNat 32 6, 100, []⟩

theorem signature_buildable {e : PetitionEntry} (hclass : e.record.classSet = [100]) :
    Buildable primitives (e.view (.zero 32)) [signature e] where
  pos := List.cons_ne_nil _ _
  size := Nat.succ_le_succ (Nat.zero_le 5)
  petitionId := List.forall_mem_singleton.mpr rfl
  classTag := List.forall_mem_singleton.mpr (by
    show (100 : ClassTag) ∈ e.record.classSet
    rw [hclass]
    exact List.mem_singleton_self _)
  nullifiers := List.nodup_singleton _
  identityTags := List.nodup_singleton _
  leaves := List.nodup_singleton _
  tags := List.nodup_singleton _
  leaf_ne_zero := List.forall_mem_singleton.mpr (by
    show hashLeaf poseidon (frFromBeBytes (Bytes.ofNat 32 5).1) (Scalar.ofNat 100) ≠ 0
    decide +kernel)
  tag_ne_zero := List.forall_mem_singleton.mpr (by
    show (frFromBeBytes (Bytes.ofNat 32 6).1 : Fr) ≠ 0
    decide +kernel)

def mockPorts : Ports :=
  { Civic.Sample.ports .new 300000 with
    verifyBatchProof := MockProofBackend.verifyBatchProof primitives }

end Sample

theorem publishBatch_of_buildBatch_sample : ∃ pid tr reg e batch positions relayer' st',
    History Civic.Sample.primitives (.zero 20) (Civic.Sample.global 1) tr reg ∧ reg.petitions pid = some e ∧
    buildBatch Civic.Sample.primitives (fun c => c.publish Civic.Sample.primitives)
      (e.view (.zero 32)) [Sample.signature e] (Sample.relayer, .new Civic.Sample.primitives) =
        some (.ok (batch, positions), (relayer', st')) ∧
    ∃ ev reg' e', publishBatch Civic.Sample.primitives Sample.mockPorts pid (.zero 20) batch reg =
        some (.ok ev, reg') ∧ reg'.petitions pid = some e' ∧
      e'.record.runningRoot = frToBeBytes st'.runningImt.root ∧ e'.record.leafCount = st'.leafCount := by
  obtain ⟨pid, tr, reg, e, hrun⟩ := @Civic.Sample.exists_run .new [] (by simp) ⟨_, rfl⟩
  obtain ⟨k, H⟩ := (history_inv hrun.run).entry pid e hrun.entry
  have hnone : published tr pid = [] := List.map_eq_nil_iff.mp hrun.records
  rw [hnone] at H
  obtain ⟨t, ht, hrr, hidt⟩ := H.roots
  rw [List.take_nil] at ht
  obtain rfl : Trees.new Civic.Sample.primitives = t := Except.ok.inj ht
  have hopen : stepState Sample.mockPorts.now e.record.closeAtBlock e.record.state = some .signingOpen := by
    rw [hrun.signing, stepState_eq, hrun.registered.closeAtBlock]
    rfl
  have hbackend : Sample.relayer.proofBackend = MockProofBackend.backend _ := rfl
  obtain ⟨batch, positions, relayer', st', hbuild⟩ := exists_buildBatch_mock hbackend
    (hrr (by rw [hrun.signing]; decide)) hidt
    (List.forall_mem_singleton.mpr (Sample.startsWith_proved _))
    (Sample.signature_buildable hrun.registered.classSet)
  obtain ⟨ev, reg', e', hpub, he', hroot, -, hcount, -⟩ := publishBatch_of_buildBatch hrun.run
    hrun.entry hopen (hnone ▸ builtFrom_new) rfl
    MockProofBackend.backend_complete _ hbuild (.zero 20)
  exact ⟨pid, tr, reg, e, batch, positions, relayer', st', hrun.run, hrun.entry, hbuild, ev, reg', e',
    hpub, he', hroot, hcount⟩

end Relayer

end Pocs.Civic
