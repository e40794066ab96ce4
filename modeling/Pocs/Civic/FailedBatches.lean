import Pocs.Civic.Relayer

/-! # Batches that fail

`build_batch` checks the submissions and then inserts them into the replicas one by one, where the registry
works on copies. A call that fails behind its first insertion keeps what it inserted: the replicas are
usable after a failed call exactly where a check refused the submissions or the running tree the first of
their leaves (`buildBatch_failed_iff`). -/

namespace Pocs.Civic.Relayer

section
variable {β : Type} {C : Primitives} {publish : β → List RecordEntry → Except BlobError (Bytes32 × β)}
  {backend : ProofBackend} {petition : PetitionView} {submissions : List SignerSubmission}
  {st st' : RelayerPetitionState} {relayer relayer' : Relayer β} {e : RelayerError}

/-! ## The checks -/

theorem InSync.synced (h : InSync C petition st) : Synced C petition st := by
  obtain ⟨us, hus, hlen⟩ := h.running
  exact ⟨(replica_of_insertAll hus hlen).inv, h.runningRoot, h.identityTagSetRoot⟩

private theorem of_update_eq_none {κ ν : Type} [DecidableEq κ] {f : κ → Option ν} {a b : κ} {v : ν}
    (h : Function.update f a (some v) b = none) : b ≠ a ∧ f b = none := by
  rcases eq_or_ne b a with rfl | hne
  · rw [Function.update_self] at h
    cases h
  · exact ⟨hne, by rwa [Function.update_of_ne hne] at h⟩

/-- The search passes over the submissions only if their nullifiers and tags are distinct and new. -/
theorem markSeen_nodup {vs : List Verified} {k : Nat} {seen seen' : Seen}
    (h : (vs.zipIdx k).foldlM markSeen seen = .ok seen') :
    (vs.map (·.submission.nullifier)).Nodup ∧ (vs.map (·.submission.identityTag)).Nodup ∧
      ∀ v ∈ vs, seen.nullifiers v.submission.nullifier = none ∧ seen.ids v.submission.identityTag = none := by
  induction vs generalizing k seen with
  | nil => exact ⟨List.nodup_nil, List.nodup_nil, by simp⟩
  | cons v vs ih =>
    rw [List.zipIdx_cons, List.foldlM_cons, bind_eq_ok] at h
    obtain ⟨next, hv, h⟩ := h
    simp only [markSeen] at hv
    split at hv
    · cases hv
    rename_i hn
    split at hv
    · cases hv
    rename_i hid
    obtain rfl := pure_eq_ok.mp hv
    obtain ⟨hnodup, hnodup', hnew⟩ := ih h
    refine ⟨?_, ?_, List.forall_mem_cons.mpr ⟨⟨hn, hid⟩, fun u hu => ?_⟩⟩
    · rw [List.map_cons, List.nodup_cons]
      refine ⟨fun hmem => ?_, hnodup⟩
      obtain ⟨u, hu, he⟩ := List.mem_map.mp hmem
      exact (of_update_eq_none (hnew u hu).1).1 he
    · rw [List.map_cons, List.nodup_cons]
      refine ⟨fun hmem => ?_, hnodup'⟩
      obtain ⟨u, hu, he⟩ := List.mem_map.mp hmem
      exact (of_update_eq_none (hnew u hu).2).1 he
    · exact ⟨(of_update_eq_none (hnew u hu).1).2, (of_update_eq_none (hnew u hu).2).2⟩

theorem verifySubmissions_proved {k : Nat} {verified : List Verified}
    (h : List.Forall₂ (fun entry v => verifySubmission C backend petition entry = .ok v)
      (submissions.zipIdx k) verified) :
    ∀ s ∈ submissions, backend.verifySignerProof s.proofBytes (signerPublic s) = .ok () := by
  induction submissions generalizing k verified with
  | nil => exact fun _ hs => absurd hs List.not_mem_nil
  | cons s submissions ih =>
    rw [List.zipIdx_cons] at h
    cases h with
    | cons hv hvs =>
      simp only [verifySubmission, bind_eq_ok, mapErr_eq_ok] at hv
      obtain ⟨_, -, _, -, _, hproof, -⟩ := hv
      exact List.forall_mem_cons.mpr ⟨hproof, ih hvs⟩

theorem accepts_of_verifyAll {vs : List Verified}
    (h : verifyAll C backend petition st submissions = .ok vs) : Accepts backend petition submissions := by
  have hchecked := verifyAll_ok h
  simp only [verifyAll, bind_eq_ok, mapM_eq_ok] at h
  obtain ⟨_, -, _, -, _, -, verified, hverified, seen, hseen, -⟩ := h
  obtain ⟨hmap, -⟩ := verifySubmissions_eq_ok hverified
  obtain ⟨hnullifiers, htags, -⟩ := markSeen_nodup hseen
  rw [hmap, List.map_map] at hnullifiers htags
  exact
    { pos := hchecked.pos
      size := hchecked.size
      verified := fun s hs =>
        ⟨hchecked.petitionId s hs, hchecked.classTag s hs, verifySubmissions_proved hverified s hs⟩
      nullifiers := hnullifiers
      identityTags := htags }

/-- Only roots that differ are reported as diverged. -/
theorem verifyAll_not_diverged (hsync : Synced C petition st) :
    verifyAll C backend petition st submissions ≠ .error .stateDiverged := by
  intro h
  simp only [verifyAll, bind_eq_error, failIf_eq_error, reduceCtorEq, and_false, false_or] at h
  obtain ⟨_, -, _, -, ⟨hroots, -⟩ | ⟨_, -, h | ⟨_, -, h | ⟨_, -, h⟩⟩⟩⟩ := h
  · exact hroots.elim (· hsync.runningRoot) (· hsync.identityTagSetRoot)
  · obtain ⟨entry, -, hentry⟩ := exists_of_mapM_eq_error h
    simp [verifySubmission, bind_eq_error, failIf_eq_error, mapErr_eq_error, pure, Except.pure] at hentry
  · obtain ⟨entry, -, seen, hentry⟩ := exists_of_foldlM_eq_error h
    simp only [markSeen] at hentry
    split at hentry
    · cases hentry
    split at hentry <;> cases hentry
  · cases h

theorem insert_length {t t' : IndexedMerkleTree Fr} {v : Fr} {w : ImtInsertWitness Fr}
    (h : t.insert C.poseidon v = .ok (w, t')) : t'.leaves.length = t.leaves.length + 1 := by
  simp only [IndexedMerkleTree.insert, bind_eq_ok, pure_eq_ok, Prod.mk.injEq] at h
  obtain ⟨_, -, i, -, -, rfl⟩ := h
  simp only [IndexedMerkleTree.setLeafHash_leaves, List.length_append, List.length_set, List.length_singleton]

/-- A round of the loop that fails has either refused the leaf or inserted it. -/
theorem insertOne_eq_some {v : Verified} {r : Except RelayerError BatchPosition}
    (h : insertOne C v st = some (r, st')) :
    (∃ e, st.runningImt.insert C.poseidon v.leaf = .error e ∧ r = .error (.imt e) ∧ st' = st) ∨
      ∃ w, st.runningImt.insert C.poseidon v.leaf = .ok (w, st'.runningImt) ∧ r ≠ .error .stateDiverged := by
  simp only [insertOne, Method.get_bind, frFromBeBytes_frToBeBytes] at h
  cases hr : st.runningImt.insert C.poseidon v.leaf with
  | error e =>
    rw [hr, mapErr, Method.ofExcept_error_bind rfl] at h
    cases h
    exact .inl ⟨e, rfl, rfl, rfl⟩
  | ok p =>
    rw [hr, mapErr, Method.ofExcept_ok_bind rfl] at h
    refine .inr ⟨p.1, ?_⟩
    simp only [Method.set_bind, Method.get_bind] at h
    cases ht : st.identityTagImt.insert C.poseidon (frFromBeBytes v.submission.identityTag.1) with
    | error e =>
      rw [ht, mapErr, Method.ofExcept_error_bind rfl] at h
      cases h
      exact ⟨rfl, by simp⟩
    | ok q =>
      rw [ht, mapErr, Method.ofExcept_ok_bind rfl] at h
      cases h
      exact ⟨rfl, by simp⟩

theorem insertVerified_length {vs : List Verified} {r : Except RelayerError (List BatchPosition)}
    (h : insertVerified C vs st = some (r, st')) :
    st.runningImt.leaves.length ≤ st'.runningImt.leaves.length ∧ r ≠ .error .stateDiverged := by
  induction vs generalizing st r with
  | nil =>
    cases h
    exact ⟨Nat.le_refl _, by simp⟩
  | cons v vs ih =>
    have hone : ∀ {r : Except RelayerError BatchPosition} {s : RelayerPetitionState},
        insertOne C v st = some (r, s) → st.runningImt.leaves.length ≤ s.runningImt.leaves.length ∧
          r ≠ .error .stateDiverged := by
      intro r s hv
      rcases insertOne_eq_some hv with ⟨e, -, rfl, rfl⟩ | ⟨w, hins, hr⟩
      · exact ⟨Nat.le_refl _, by simp⟩
      · exact ⟨by rw [insert_length hins]; exact Nat.le_succ _, hr⟩
    rcases Method.bind_eq_some.mp h with ⟨p, s, hv, h⟩ | ⟨e, hv, rfl⟩
    · have hle := (hone hv).1
      rcases Method.bind_eq_some.mp h with ⟨ps, s', hvs, h⟩ | ⟨e, hvs, rfl⟩
      · cases h
        exact ⟨hle.trans (ih hvs).1, by simp⟩
      · obtain ⟨hle', he⟩ := ih hvs
        exact ⟨hle.trans hle', fun h => he (by cases h; rfl)⟩
    · obtain ⟨hle, he⟩ := hone hv
      exact ⟨hle, fun h => he (by cases h; rfl)⟩

/-- The loop has left the replicas alone exactly where it refused the first leaf. -/
theorem insertVerified_unchanged_iff {v : Verified} {vs : List Verified}
    {r : Except RelayerError (List BatchPosition)} (h : insertVerified C (v :: vs) st = some (r, st')) :
    (∃ e, st.runningImt.insert C.poseidon v.leaf = .error e) ∧ st' = st ∧ (∃ e, r = .error e) ∨
      (∃ p, st.runningImt.insert C.poseidon v.leaf = .ok p) ∧
        st.runningImt.leaves.length < st'.runningImt.leaves.length := by
  rcases Method.bind_eq_some.mp h with ⟨p, s, hv, h⟩ | ⟨e, hv, rfl⟩
  · rcases insertOne_eq_some hv with ⟨e, -, hr, -⟩ | ⟨w, hins, -⟩
    · cases hr
    · refine .inr ⟨⟨_, hins⟩, ?_⟩
      rw [← Nat.succ_le_iff, Nat.succ_eq_add_one, ← insert_length hins]
      rcases Method.bind_eq_some.mp h with ⟨ps, s', hvs, h⟩ | ⟨e, hvs, -⟩
      · cases h
        exact (insertVerified_length hvs).1
      · exact (insertVerified_length hvs).1
  · rcases insertOne_eq_some hv with ⟨e', herr, -, rfl⟩ | ⟨w, hins, -⟩
    · exact .inl ⟨⟨e', herr⟩, rfl, e, rfl⟩
    · refine .inr ⟨⟨_, hins⟩, ?_⟩
      rw [insert_length hins]
      exact Nat.lt_succ_self _

/-! ## A call that fails -/

/-- Where a call fails, and the replicas it leaves. -/
inductive Failure (C : Primitives) (relayer : Relayer β) (petition : PetitionView)
    (st : RelayerPetitionState) (submissions : List SignerSubmission) :
    RelayerError → RelayerPetitionState → Prop where
  | check {e : RelayerError} (h : verifyAll C relayer.proofBackend petition st submissions = .error e) :
    Failure C relayer petition st submissions e st
  | insertion {e : RelayerError} {vs : List Verified} {st' : RelayerPetitionState}
    (verified : verifyAll C relayer.proofBackend petition st submissions = .ok vs)
    (h : insertVerified C vs st = some (.error e, st')) : Failure C relayer petition st submissions e st'
  | later {e : RelayerError} {vs : List Verified} {positions : List BatchPosition}
    {mid st' : RelayerPetitionState}
    (verified : verifyAll C relayer.proofBackend petition st submissions = .ok vs)
    (inserted : insertVerified C vs st = some (.ok positions, mid))
    (running : st'.runningImt = mid.runningImt) (late : e ≠ .stateDiverged) :
    Failure C relayer petition st submissions e st'

theorem buildBatch_failure (h : buildBatch C publish petition submissions (relayer, st) =
    some (.error e, (relayer', st'))) : Failure C relayer petition st submissions e st' := by
  simp only [buildBatch, Method.get_bind] at h
  cases hvs : verifyAll C relayer.proofBackend petition st submissions with
  | error e =>
    rw [Method.ofExcept_error_bind hvs] at h
    cases h
    exact .check hvs
  | ok vs =>
  rw [Method.ofExcept_ok_bind hvs] at h
  rcases Method.bind_eq_some.mp h with ⟨positions, ⟨r, mid⟩, hins, h⟩ | ⟨e, hins, he⟩
  · obtain ⟨hloop, rfl⟩ := Method.onSnd_eq_some.mp hins
    rw [Method.get_bind] at h
    rcases Method.bind_eq_some.mp h with ⟨leafCount, _, hcount, h⟩ | ⟨e, hcount, he⟩
    · obtain ⟨-, rfl⟩ := Method.ofExcept_eq_some.mp hcount
      rw [Method.set_bind] at h
      rcases Method.bind_eq_some.mp h with ⟨p, _, hpublish, h⟩ | ⟨e, hpublish, he⟩
      · obtain ⟨-, rfl⟩ := Method.ofExcept_eq_some.mp hpublish
        rw [Method.set_bind] at h
        rcases Method.bind_eq_some.mp h with ⟨proof, _, hproof, h⟩ | ⟨e, hproof, he⟩
        · cases h
        · obtain ⟨herr, hst⟩ := Method.ofExcept_eq_some.mp hproof
          obtain ⟨e', -, rfl⟩ := mapErr_eq_error.mp herr
          cases he
          cases hst
          exact .later hvs hloop rfl (by simp)
      · obtain ⟨herr, hst⟩ := Method.ofExcept_eq_some.mp hpublish
        obtain ⟨e', -, rfl⟩ := mapErr_eq_error.mp herr
        cases he
        cases hst
        exact .later hvs hloop rfl (by simp)
    · obtain ⟨herr, hst⟩ := Method.ofExcept_eq_some.mp hcount
      obtain ⟨-, rfl⟩ := okOr_eq_error.mp herr
      cases he
      cases hst
      exact .later hvs hloop rfl (by simp)
  · cases he
    exact .insertion hvs (Method.onSnd_eq_some.mp hins).1

theorem Failure.not_diverged (h : Failure C relayer petition st submissions e st')
    (hsync : Synced C petition st) : e ≠ .stateDiverged := by
  rintro rfl
  cases h with
  | check h => exact verifyAll_not_diverged hsync h
  | insertion _ h => exact (insertVerified_length h).2 rfl
  | later _ _ _ late => exact late rfl

/-- The replicas are those before the call, and no later call finds that they diverge from the view. -/
structure Usable (C : Primitives) (publish : β → List RecordEntry → Except BlobError (Bytes32 × β))
    (petition : PetitionView) (st st' : RelayerPetitionState) : Prop where
  unchanged : st' = st
  retry : ∀ relayer submissions r s,
    buildBatch C publish petition submissions (relayer, st') = some (r, s) → r ≠ .error .stateDiverged

/-- A check refuses the submissions, or the running tree the least of their leaves. -/
def RefusedFirst (C : Primitives) (backend : ProofBackend) (petition : PetitionView)
    (st : RelayerPetitionState) (submissions : List SignerSubmission) : Prop :=
  ¬ Accepts backend petition submissions ∨
    ∃ s ∈ submissions, (∀ s' ∈ submissions, (verifiedOf C s).leaf ≤ (verifiedOf C s').leaf) ∧
      (2 ^ imtDepth ≤ st.runningImt.leaves.length ∨
        (verifiedOf C s).leaf ∈ IndexedList.values st.runningImt.leaves)

/-- The first of the checked submissions has the least leaf. -/
theorem Checked.head {vs : List Verified} (h : Checked C petition st submissions vs) :
    ∃ v rest, vs = v :: rest ∧ (∃ s ∈ submissions, (verifiedOf C s).leaf = v.leaf) ∧
      ∀ s ∈ submissions, v.leaf ≤ (verifiedOf C s).leaf := by
  cases vs with
  | nil => exact absurd (List.map_eq_nil_iff.mp (List.nil_perm.mp h.perm)) h.pos
  | cons v rest =>
    obtain ⟨hle, -⟩ := List.pairwise_cons.mp h.sorted
    obtain ⟨s, hs, hv⟩ := List.mem_map.mp (h.perm.subset List.mem_cons_self)
    refine ⟨v, rest, rfl, ⟨s, hs, congrArg Verified.leaf hv⟩, fun s hs => ?_⟩
    rcases List.mem_cons.mp (h.perm.symm.subset (List.mem_map_of_mem hs)) with heq | hmem
    · rw [heq]
    · exact hle _ hmem

theorem refusedFirst_iff {v : Verified} {rest : List Verified} (hsync : Synced C petition st)
    (h : verifyAll C backend petition st submissions = .ok (v :: rest)) :
    RefusedFirst C backend petition st submissions ↔ ¬ ∃ p, st.runningImt.insert C.poseidon v.leaf = .ok p := by
  obtain ⟨_, _, hcons, ⟨s, hs, hleaf⟩, hle⟩ := (verifyAll_ok h).head
  cases hcons
  rw [IndexedMerkleTree.exists_insert_iff hsync.inv, not_and_or, not_lt, not_not]
  constructor
  · rintro (hnot | ⟨s', hs', hmin, hfull⟩)
    · exact absurd (accepts_of_verifyAll h) hnot
    · rwa [← hleaf, le_antisymm (hleaf ▸ hle s' hs') (hmin s hs)]
  · intro hfull
    exact .inr ⟨s, hs, fun s' hs' => hleaf ▸ hle s' hs', hleaf ▸ hfull⟩

/-- After a call that fails, the replicas are usable exactly where a check refused the submissions or the
running tree the first leaf. -/
theorem buildBatch_failed_iff (hsync : Synced C petition st)
    (h : buildBatch C publish petition submissions (relayer, st) = some (.error e, (relayer', st'))) :
    Usable C publish petition st st' ↔ RefusedFirst C relayer.proofBackend petition st submissions := by
  have husable : Usable C publish petition st st' ↔ st' = st := by
    refine ⟨Usable.unchanged, fun heq => ⟨heq, fun relayer submissions r s hr herr => ?_⟩⟩
    subst heq herr
    exact (buildBatch_failure hr).not_diverged hsync rfl
  rw [husable]
  cases buildBatch_failure h with
  | check hcheck =>
    refine iff_of_true rfl (.inl fun haccepts => ?_)
    rw [verifyAll_of_accepts hsync haccepts] at hcheck
    cases hcheck
  | insertion verified hloop =>
    obtain ⟨v, rest, rfl, -⟩ := (verifyAll_ok verified).head
    rw [refusedFirst_iff hsync verified]
    rcases insertVerified_unchanged_iff hloop with ⟨⟨e, herr⟩, rfl, -⟩ | ⟨hok, hlt⟩
    · refine iff_of_true rfl ?_
      simp [herr]
    · exact iff_of_false (fun heq => (heq ▸ hlt).ne rfl) (not_not.mpr hok)
  | later verified inserted running =>
    obtain ⟨v, rest, rfl, -⟩ := (verifyAll_ok verified).head
    rw [refusedFirst_iff hsync verified]
    rcases insertVerified_unchanged_iff inserted with ⟨-, -, _, hr⟩ | ⟨hok, hlt⟩
    · cases hr
    · rw [← running] at hlt
      exact iff_of_false (fun heq => (heq ▸ hlt).ne rfl) (not_not.mpr hok)

theorem insertVerified_stored {v : Verified} (hinv : st.runningImt.Inv C.poseidon)
    (hstored : v.leaf ∈ IndexedList.values st.runningImt.leaves) (vs : List Verified) :
    ∃ e, insertVerified C (v :: vs) st = some (.error (.imt e), st) := by
  obtain ⟨e, herr⟩ : ∃ e, st.runningImt.insert C.poseidon v.leaf = .error e := by
    cases hins : st.runningImt.insert C.poseidon v.leaf with
    | error e => exact ⟨e, rfl⟩
    | ok p => exact absurd hstored ((IndexedMerkleTree.exists_insert_iff hinv).mp ⟨p, hins⟩).2
  refine ⟨e, Method.bind_eq_some.mpr (.inr ⟨.imt e, ?_, rfl⟩)⟩
  simp only [insertOne, Method.get_bind, frFromBeBytes_frToBeBytes, herr, mapErr]
  rfl

/-- A call whose second leaf is the first once more keeps the first. -/
theorem exists_insertVerified_pair {v₁ v₂ : Verified} (hinv : st.runningImt.Inv C.poseidon)
    (hr : ∃ p, st.runningImt.insert C.poseidon v₁.leaf = .ok p)
    (ht : ∃ p, st.identityTagImt.insert C.poseidon (frFromBeBytes v₁.submission.identityTag.1) = .ok p)
    (heq : v₂.leaf = v₁.leaf) : ∃ e w st', insertVerified C [v₁, v₂] st = some (.error (.imt e), st') ∧
      st.runningImt.insert C.poseidon v₁.leaf = .ok (w, st'.runningImt) ∧ st'.runningImt.Inv C.poseidon ∧
      v₁.leaf ∈ IndexedList.values st'.runningImt.leaves := by
  obtain ⟨⟨w, T⟩, hr⟩ := hr
  obtain ⟨⟨wt, U⟩, ht⟩ := ht
  have hfirst : insertOne C v₁ st = some (.ok ⟨v₁.submission, w, wt⟩,
      { st with runningImt := T, identityTagImt := U }) :=
    insertOne_eq_ok.mpr ⟨w, T, wt, U, hr, ht, rfl, rfl⟩
  obtain ⟨-, i, low, hi, -, hT, hleaves, -⟩ := IndexedMerkleTree.insert_ok hinv hr
  have hstored : v₁.leaf ∈ IndexedList.values T.leaves := by
    rw [hleaves, IndexedList.values_splice _ hi]
    exact List.mem_append_right _ (List.mem_singleton_self _)
  obtain ⟨e, hsecond⟩ := @insertVerified_stored C { st with runningImt := T, identityTagImt := U } v₂ hT
    (heq ▸ hstored) []
  refine ⟨e, w, { st with runningImt := T, identityTagImt := U }, ?_, hr, hT, hstored⟩
  rw [insertVerified, Method.bind_of_ok hfirst]
  exact Method.bind_eq_some.mpr (.inr ⟨_, hsecond, rfl⟩)

theorem buildBatch_of_insertVerified {vs : List Verified}
    (hvs : verifyAll C relayer.proofBackend petition st submissions = .ok vs)
    (hloop : insertVerified C vs st = some (.error e, st')) :
    buildBatch C publish petition submissions (relayer, st) = some (.error e, (relayer, st')) := by
  rw [buildBatch, Method.get_bind]
  refine (Method.ofExcept_ok_bind hvs _).trans ?_
  exact Method.bind_eq_some.mpr (.inr ⟨_, Method.onSnd_eq_some.mpr ⟨hloop, rfl⟩, rfl⟩)

end

/-! ### A submission twice, in two encodings -/

namespace Sample
open Civic.Sample (poseidon primitives)

def replay : List SignerSubmission := [0, bn254].map fun k => proved
  ⟨.zero 32, .zero 32, .zero 32, 0, 7, .ofNat 32 (1 + k), .ofNat 32 (11 + k), 100, []⟩

theorem replay_accepts : Accepts relayer.proofBackend petition replay where
  pos := List.cons_ne_nil _ _
  size := by
    show 2 ≤ 6
    decide
  verified s hs := by
    obtain ⟨k, -, rfl⟩ := List.mem_map.mp hs
    exact ⟨rfl, List.mem_singleton_self _, failIf_neg (not_not.mpr (startsWith_proved _)) _⟩
  nullifiers := by
    show ([0, bn254].map fun k => Bytes.ofNat 32 (1 + k)).Nodup
    decide +kernel
  identityTags := by
    show ([0, bn254].map fun k => Bytes.ofNat 32 (11 + k)).Nodup
    decide +kernel

def leaf : Fr := hashLeaf poseidon (Scalar.ofNat 1) (Scalar.ofNat 100)

theorem leaf_ne_zero : leaf ≠ 0 := by
  show hashLeaf poseidon (Scalar.ofNat 1) (Scalar.ofNat 100) ≠ 0
  decide +kernel

theorem replay_leaf : ∀ s ∈ replay, (verifiedOf primitives s).leaf = leaf := by
  have hleaf : ∀ k ∈ [0, bn254], hashLeaf poseidon (frFromBeBytes (Bytes.ofNat 32 (1 + k)).1)
      (Scalar.ofNat 100) = hashLeaf poseidon (Scalar.ofNat 1) (Scalar.ofNat 100) := by decide +kernel
  exact List.forall_mem_map.mpr hleaf

theorem root_moves {w : ImtInsertWitness Fr} {T : IndexedMerkleTree Fr}
    (h : (IndexedMerkleTree.new poseidon).insert poseidon leaf = .ok (w, T)) :
    T.root ≠ (IndexedMerkleTree.new poseidon).root := by
  have hmoves : ((IndexedMerkleTree.new poseidon).insert poseidon
      (hashLeaf poseidon (Scalar.ofNat 1) (Scalar.ofNat 100))).toOption.map (·.2.root) ≠
        some (IndexedMerkleTree.new poseidon).root := by decide +kernel
  intro heq
  rw [leaf] at h
  rw [h, Except.toOption, Option.map_some, heq] at hmoves
  exact hmoves rfl

theorem replay_verified {view : PetitionView} {st : RelayerPetitionState} (hsync : Synced primitives view st)
    (haccepts : Accepts relayer.proofBackend view replay) : ∃ s₁ ∈ replay, ∃ s₂ ∈ replay,
      verifyAll primitives relayer.proofBackend view st replay =
        .ok [verifiedOf primitives s₁, verifiedOf primitives s₂] := by
  obtain ⟨s₁, s₂, hreplay⟩ : ∃ s₁ s₂, replay = [s₁, s₂] := ⟨_, _, rfl⟩
  refine ⟨s₁, by simp [hreplay], s₂, by simp [hreplay], (verifyAll_of_accepts hsync haccepts).trans ?_⟩
  rw [hreplay]
  refine congrArg _ (List.Pairwise.insertionSort_eq (List.pairwise_pair.mpr ?_))
  rw [Verified.keyLe_iff, replay_leaf s₁ (by simp [hreplay]), replay_leaf s₂ (by simp [hreplay])]

/-- The second submission is refused by the running tree, after the first was inserted. -/
theorem exists_failed : ∃ e st', buildBatch primitives (fun c => c.publish primitives) petition replay
    (relayer, .new primitives) = some (.error (.imt e), (relayer, st')) ∧
      st'.runningImt.root ≠ (IndexedMerkleTree.new poseidon).root ∧ st'.runningImt.Inv poseidon ∧
      leaf ∈ IndexedList.values st'.runningImt.leaves := by
  have htag : ∀ s ∈ replay, (frFromBeBytes s.identityTag.1 : Fr) ≠ 0 := by
    have htag : ∀ k ∈ [0, bn254], (frFromBeBytes (Bytes.ofNat 32 (11 + k)).1 : Fr) ≠ 0 := by
      decide +kernel
    exact List.forall_mem_map.mpr htag
  have hfits : ∀ {v : Fr}, v ≠ 0 → ∃ p, (IndexedMerkleTree.new poseidon).insert poseidon v = .ok p := by
    intro v hv
    rw [IndexedMerkleTree.exists_insert_iff IndexedMerkleTree.new_inv, IndexedMerkleTree.new_leaves]
    exact ⟨by decide, fun hmem => hv (List.mem_singleton.mp hmem)⟩
  obtain ⟨s₁, hs₁, s₂, hs₂, hvs⟩ := replay_verified inSync.synced replay_accepts
  have hleaf₁ := replay_leaf s₁ hs₁
  obtain ⟨e, w, st', hloop, hins, hinv, hstored⟩ := @exists_insertVerified_pair primitives (.new primitives)
    (verifiedOf primitives s₁) (verifiedOf primitives s₂) IndexedMerkleTree.new_inv
    (hfits (hleaf₁ ▸ leaf_ne_zero)) (hfits (htag s₁ hs₁)) ((replay_leaf s₂ hs₂).trans hleaf₁.symm)
  exact ⟨e, st', buildBatch_of_insertVerified hvs hloop, root_moves (hleaf₁ ▸ hins), hinv, hleaf₁ ▸ hstored⟩

end Sample

open Civic.Sample (primitives)

/-- The petition's own valid submissions are not accepted after the failed call. -/
theorem buildBatch_replay : ∃ e st', InSync primitives Sample.petition (.new primitives) ∧
    buildBatch primitives (fun c => c.publish primitives) Sample.petition
      Sample.replay (Sample.relayer, .new primitives) = some (.error e, (Sample.relayer, st')) ∧
    st' ≠ .new primitives ∧ (∃ batch relayer' st'', buildBatch primitives
      (fun c => c.publish primitives) Sample.petition (Sample.submissions 7)
      (Sample.relayer, .new primitives) = some (.ok batch, (relayer', st''))) ∧
    buildBatch primitives (fun c => c.publish primitives) Sample.petition
      (Sample.submissions 7) (Sample.relayer, st') = some (.error .stateDiverged, (Sample.relayer, st')) := by
  obtain ⟨e, st', hfailed, hroot, -⟩ := Sample.exists_failed
  obtain ⟨batch, positions, relayer', st'', hbuilt⟩ := Sample.exists_batch 7
  refine ⟨.imt e, st', Sample.inSync, hfailed, fun heq => hroot (congrArg (·.runningImt.root) heq),
    ⟨_, relayer', st'', hbuilt⟩, ?_⟩
  have hdiverged : verifyAll primitives Sample.relayer.proofBackend Sample.petition st'
      (Sample.submissions 7) = .error .stateDiverged := by
    have hne : frToBeBytes st'.runningImt.root ≠ Sample.petition.runningRoot := fun heq => hroot (by
      have hinj := congrArg (fun bs : Bytes32 => (frFromBeBytes bs.1 : Fr)) heq
      simp only [Sample.petition, frFromBeBytes_frToBeBytes] at hinj
      exact hinj)
    simp only [verifyAll]
    rw [failIf_neg (Sample.buildable 7).pos, ok_bind, failIf_neg (not_lt.mpr (Sample.buildable 7).size),
      ok_bind, failIf_pos (.inl hne), error_bind]
  rw [buildBatch, Method.get_bind]
  exact Method.ofExcept_error_bind hdiverged _

/-- With the first leaf in the tree, the two submissions leave the replicas usable. -/
theorem buildBatch_failed_iff_stored : ∃ view st e, Sample.leaf ∈ IndexedList.values st.runningImt.leaves ∧
    buildBatch primitives (fun c => c.publish primitives) view Sample.replay
      (Sample.relayer, st) = some (.error e, (Sample.relayer, st)) ∧
    Usable primitives (fun (c : InMemoryBlobCarrier) => c.publish primitives) view st st := by
  obtain ⟨-, st, -, -, hinv, hstored⟩ := Sample.exists_failed
  let view : PetitionView :=
    { Sample.petition with
      runningRoot := frToBeBytes st.runningImt.root
      identityTagSetRoot := frToBeBytes st.identityTagImt.root }
  have hsync : Synced primitives view st := ⟨hinv, rfl, rfl⟩
  obtain ⟨hpos, hsize, hverified, hnullifiers, htags⟩ := Sample.replay_accepts
  obtain ⟨s₁, hs₁, s₂, -, hvs⟩ := Sample.replay_verified hsync ⟨hpos, hsize, hverified, hnullifiers, htags⟩
  have hleaf := Sample.replay_leaf s₁ hs₁
  obtain ⟨e, hloop⟩ := insertVerified_stored hsync.inv (hleaf ▸ hstored) [verifiedOf primitives s₂]
  refine ⟨view, st, _, hstored, buildBatch_of_insertVerified hvs hloop, (buildBatch_failed_iff hsync
    (buildBatch_of_insertVerified hvs hloop)).mpr (.inr ⟨s₁, hs₁, fun s hs => ?_, .inr (hleaf ▸ hstored)⟩)⟩
  rw [hleaf, Sample.replay_leaf s hs]

end Pocs.Civic.Relayer
