import Pocs.Civic.Resolver
import Pocs.Civic.Registry.Representation

/-! # Resolving a petition

What the resolver rebuilds from the blobs of a petition is the registry's running tree, and the
witness it builds satisfies every constraint of the resolution circuit but the order of the leaves:
the entries come in batch order, which is the leaf order only when the batches were published in
that order (`history_resolverProves_iff`). -/

namespace Pocs.Civic

open IndexedMerkleTree (insertAll)
open IndexedMerkleTree

/-! ## `reconstruct` -/

def RecordEntry.pair (record : RecordEntry) : Fr × Fr :=
  (frFromBeBytes record.nullifier.1, Scalar.ofNat record.classTag.toNat)

section
variable {C : Primitives} {fetchRecords : Bytes32 → Except BlobError (List RecordEntry)}
  {records : List RecordEntry} {t t' : IndexedMerkleTree Fr} {es es' : List (Fr × Fr × Fr)}

def RecordEntry.entry (C : Primitives) (record : RecordEntry) : Fr × Fr × Fr :=
  pairEntry C.poseidon record.pair

theorem reconstructRecords_eq_ok : records.foldlM (reconstructRecord C) (t, es) = .ok (t', es') ↔
    t.insertAll C.poseidon (records.map (·.leaf C)) = .ok t' ∧ es' = es ++ records.map (·.entry C) := by
  induction records generalizing t es with
  | nil =>
    simp only [List.foldlM_nil, pure_eq_ok, Prod.mk.injEq, List.map_nil, insertAll, List.append_nil]
    exact and_congr_right fun _ => eq_comm
  | cons r records ih =>
    simp only [List.foldlM_cons, reconstructRecord, frFromBeBytes_frToBeBytes, bind_eq_ok,
      mapErr_eq_ok, pure_eq_ok, List.map_cons, insertAll_cons_eq_ok]
    constructor
    · rintro ⟨_, ⟨⟨w, t₁⟩, h, rfl⟩, hrest⟩
      obtain ⟨ht, rfl⟩ := ih.mp hrest
      exact ⟨⟨w, t₁, h, ht⟩, by simp [RecordEntry.entry, pairEntry, RecordEntry.pair, pairLeaf]⟩
    · rintro ⟨⟨w, t₁, h, ht⟩, rfl⟩
      refine ⟨_, ⟨(w, t₁), h, rfl⟩, ih.mpr ⟨ht, ?_⟩⟩
      simp [RecordEntry.entry, pairEntry, RecordEntry.pair, pairLeaf]

theorem reconstructBatches_eq_ok {vhs : List Bytes32} {batches : List (List RecordEntry)}
    (hfetch : List.Forall₂ (fun vh records => fetchRecords vh = .ok records) vhs batches) :
    vhs.foldlM (reconstructBatch C fetchRecords) (t, es) = .ok (t', es') ↔
      t.insertAll C.poseidon (batches.flatten.map (·.leaf C)) = .ok t' ∧
        es' = es ++ batches.flatten.map (·.entry C) := by
  induction hfetch generalizing t es with
  | nil =>
    simp only [List.foldlM_nil, pure_eq_ok, Prod.mk.injEq, List.flatten_nil, List.map_nil, insertAll,
      List.append_nil]
    exact and_congr_right fun _ => eq_comm
  | @cons vh records vhs batches hvh _ ih =>
    simp only [List.foldlM_cons, reconstructBatch, hvh, bind_eq_ok, mapErr_eq_ok, Except.ok.injEq,
      exists_eq_left', List.flatten_cons, List.map_append, insertAll_append_eq_ok]
    constructor
    · rintro ⟨⟨t₁, es₁⟩, h₁, h⟩
      obtain ⟨ht₁, rfl⟩ := reconstructRecords_eq_ok.mp h₁
      obtain ⟨ht, rfl⟩ := ih.mp h
      exact ⟨⟨t₁, ht₁, ht⟩, List.append_assoc ..⟩
    · rintro ⟨⟨t₁, ht₁, ht⟩, rfl⟩
      exact ⟨(t₁, _), reconstructRecords_eq_ok.mpr ⟨ht₁, rfl⟩, ih.mpr ⟨ht, (List.append_assoc ..).symm⟩⟩

end

/-! ## The witness of the prover -/

/-- A petition whose blobs hold the records of its running tree. -/
structure Reconstructs (C : Primitives)
    (fetchRecords : Bytes32 → Except BlobError (List RecordEntry)) (view : ResolverView)
    (batches : List (List RecordEntry)) (t : IndexedMerkleTree Fr) : Prop where
  fetches : List.Forall₂ (fun vh records => fetchRecords vh = .ok records)
    view.activeBatchVersionedHashes batches
  tree : (IndexedMerkleTree.new C.poseidon).insertAll C.poseidon (batches.flatten.map (·.leaf C)) = .ok t
  root : view.runningRoot = t.rootBytes
  count : view.leafCount = batches.flatten.length
  size : batches.flatten.length ≤ leafMax
  classTags : ∀ r ∈ batches.flatten, r.classTag ∈ view.classSet
  increasing : view.classSet.Pairwise (· < ·)
  thresholds : view.classThresholds.length = view.classSet.length
  bounded : ∀ x ∈ view.classThresholds, x < 2 ^ 32

section
variable {C : Primitives} {fetchRecords : Bytes32 → Except BlobError (List RecordEntry)}
  {view : ResolverView} {batches : List (List RecordEntry)} {records : List RecordEntry}
  {t : IndexedMerkleTree Fr}

theorem Reconstructs.reconstruct_eq_ok (H : Reconstructs C fetchRecords view batches t)
    {entries : List (Fr × Fr × Fr)} : reconstruct C fetchRecords view = .ok entries ↔
      batches ≠ [] ∧ entries = batches.flatten.map (·.entry C) := by
  have hnil : view.activeBatchVersionedHashes = [] ↔ batches = [] := by
    rw [← List.length_eq_zero_iff, H.fetches.length_eq, List.length_eq_zero_iff]
  simp only [reconstruct, bind_eq_ok, failIf_eq_ok, pure_eq_ok, hnil, exists_const,
    not_not, Prod.exists, reconstructBatches_eq_ok H.fetches, List.nil_append]
  constructor
  · rintro ⟨hne, _, _, ⟨-, rfl⟩, -, -, rfl⟩
    exact ⟨hne, rfl⟩
  · rintro ⟨hne, rfl⟩
    refine ⟨hne, t, _, ⟨H.tree, rfl⟩, ?_, H.root.symm, rfl⟩
    rw [List.length_map, H.count]

/-- The first pass of `build_submission` builds the running tree again. -/
theorem foldlM_insertEntry {t t' : IndexedMerkleTree Fr} :
    (records.map (·.entry C)).foldlM (insertEntry C) t = .ok t' ↔
      t.insertAll C.poseidon (records.map (·.leaf C)) = .ok t' := by
  induction records generalizing t with
  | nil => simp only [List.map_nil, List.foldlM_nil, pure_eq_ok, insertAll]
  | cons r records ih =>
    simp only [List.map_cons, List.foldlM_cons, insertEntry, frFromBeBytes_frToBeBytes, bind_eq_ok,
      mapErr_eq_ok, pure_eq_ok, insertAll_cons_eq_ok, ih]
    constructor
    · rintro ⟨_, ⟨⟨w, t₁⟩, h, rfl⟩, hrest⟩
      exact ⟨w, t₁, h, hrest⟩
    · rintro ⟨w, t₁, h, hrest⟩
      exact ⟨t₁, ⟨(w, t₁), h, rfl⟩, hrest⟩

/-- `m` is the witness of a leaf of the tree with value `v`. -/
def MembershipOf (C : Primitives) (t : IndexedMerkleTree Fr) (v : Fr) (m : ImtMembershipFr) : Prop :=
  ∃ i c, t.leaves[i]? = some c ∧ c.value = v ∧ m = ⟨c.hash C.poseidon, i, c.nextIndex, c.nextValue,
    (t.pathFor i).siblings, (t.pathFor i).indices⟩

/-- The second pass finds every leaf. -/
theorem exists_membershipFr {entry : Fr × Fr × Fr} (h : entry.1 ∈ IndexedList.values t.leaves) :
    ∃ m, membershipFr C t entry = .ok m ∧ MembershipOf C t entry.1 m := by
  obtain ⟨i, c, hi, hv, hm⟩ := exists_membership h
  refine ⟨_, ?_, i, c, hi, hv, rfl⟩
  rw [membershipFr, frFromBeBytes_frToBeBytes, hm]
  rfl

/-- What `build_submission` hands to the prover for given records. -/
def builtPrivate (C : Primitives) (records : List RecordEntry) (paths : List ImtMembershipFr) :
    ResolutionPrivateInputs :=
  ⟨records.map (·.leaf C), paths, records.map (·.pair)⟩

def builtPublic (C : Primitives) (view : ResolverView) (records : List RecordEntry) :
    ResolutionPublicInputs :=
  let outcome := computeOutcome view (records.map (·.entry C))
  publicInputs view outcome.1 outcome.2

section
variable (H : Reconstructs C fetchRecords view batches t)
include H

theorem Reconstructs.values_eq :
    t.Inv C.poseidon ∧ IndexedList.values t.leaves = 0 :: batches.flatten.map (·.leaf C) := by
  have hnew := @new_inv Fr _ C.poseidon
  obtain ⟨Ht, hvalues⟩ := insertAll_ok hnew H.tree
  rw [new_leaves] at hvalues
  exact ⟨Ht, hvalues⟩

/-- `build_submission` reaches the prover, with a membership witness of the running tree for each
record. -/
theorem Reconstructs.exists_buildInputs :
    ∃ paths, List.Forall₂ (fun r m => MembershipOf C t (r.leaf C) m) batches.flatten paths ∧
      buildInputs C view (batches.flatten.map (·.entry C)) =
        .ok (builtPublic C view batches.flatten, builtPrivate C batches.flatten paths) := by
  obtain ⟨-, hvalues⟩ := H.values_eq
  have hmem : ∀ entry ∈ batches.flatten.map (·.entry C), ∃ m, membershipFr C t entry = .ok m ∧
      MembershipOf C t entry.1 m := by
    intro entry hentry
    obtain ⟨r, hr, rfl⟩ := List.mem_map.mp hentry
    apply exists_membershipFr
    rw [hvalues]
    exact List.mem_cons_of_mem _ (List.mem_map_of_mem hr)
  obtain ⟨paths, hmapM, hpaths⟩ := exists_mapM_eq_ok hmem
  rw [List.forall₂_map_left_iff] at hpaths
  refine ⟨paths, hpaths, ?_⟩
  simp only [buildInputs, foldlM_insertEntry.mpr H.tree, ok_bind, hmapM, List.map_map]
  rfl

/-! ### The inputs of the circuit -/

theorem Reconstructs.leafCount_eq :
    Scalar.toNat (builtPublic C view batches.flatten).leafCount = batches.flatten.length := by
  have hlt : view.leafCount < 2 ^ 64 := H.count ▸ H.size.trans_lt (by decide)
  rw [← H.count]
  exact Scalar.toNat_ofNat hlt

/-- The prover accepts the inputs when the class set fits the circuit's arrays. -/
theorem Reconstructs.proverInput_eq_ok
    {paths : List ImtMembershipFr} (hpaths : paths.length = batches.flatten.length)
    {cpub : ResolutionPublic Fr} {w : ResolutionWitness Fr} :
    proverInput (builtPublic C view batches.flatten) (builtPrivate C batches.flatten paths) = .ok (cpub, w) ↔
      view.classSet.length ≤ classMax ∧ cpub = proverPublic (builtPublic C view batches.flatten) ∧
        w = proverWitness (builtPrivate C batches.flatten paths) := by
  have hclass : (builtPublic C view batches.flatten).classSet.length = view.classSet.length :=
    List.length_map _
  have hu32 : ¬ ∃ x ∈ (builtPublic C view batches.flatten).leafCount ::
      (builtPublic C view batches.flatten).classThresholds, 2 ^ 32 ≤ Scalar.toNat x := by
    rintro ⟨x, hx, hle⟩
    obtain rfl | hx := List.mem_cons.mp hx
    · rw [H.leafCount_eq] at hle
      exact absurd (hle.trans H.size) (by decide)
    · obtain ⟨y, hy, rfl⟩ := List.mem_map.mp hx
      have hlt := H.bounded y hy
      rw [Scalar.toNat_ofNat (hlt.trans (by decide))] at hle
      omega
  simp only [proverInput, bind_eq_ok, failIf_eq_ok, pure_eq_ok, exists_const, hu32, hclass,
    not_false_eq_true, true_and, not_lt, Prod.mk.injEq]
  simp only [builtPrivate, List.length_map, hpaths, ne_eq, not_true_eq_false, not_false_eq_true,
    true_and, H.size]
  exact and_congr_right fun _ => and_congr eq_comm eq_comm

/-- The class set and thresholds of the circuit are the petition's. -/
theorem Reconstructs.sameClasses : SameClasses view (proverPublic (builtPublic C view batches.flatten)) where
  thresholds_length := H.thresholds
  length := List.length_map _
  classSet k c hc := by
    have hget : (builtPublic C view batches.flatten).classSet[k.val]? = some (Scalar.ofNat c.toNat) := by
      show (view.classSet.map _)[k.val]? = _
      rw [List.getElem?_map, hc, Option.map_some]
    show List.getD _ _ _ = _
    rw [List.getD_eq_getElem?_getD, hget, Option.getD_some]
  classThresholds k x hx := by
    have hget : (builtPublic C view batches.flatten).classThresholds[k.val]? = some (Scalar.ofNat x) := by
      show (view.classThresholds.map _)[k.val]? = _
      rw [List.getElem?_map, hx, Option.map_some]
    have hlt := H.bounded x (List.mem_of_getElem? hx)
    show Scalar.toNat (List.getD _ _ _) = _
    rw [List.getD_eq_getElem?_getD, hget, Option.getD_some, Scalar.toNat_ofNat (hlt.trans (by decide))]

end

/-- The witnessed pairs are those of the records, in batch order. -/
theorem pairs_builtPrivate {paths : List ImtMembershipFr} (h : records.length ≤ leafMax) :
    (proverWitness (builtPrivate C records paths)).pairs records.length = records.map (·.pair) := by
  apply List.ext_getElem
  · simp [ResolutionWitness.pairs, h]
  · intro i h₁ h₂
    have hi : i < records.length := by simpa using h₂
    simp [ResolutionWitness.pairs, proverWitness, builtPrivate, hi]

section
variable (H : Reconstructs C fetchRecords view batches t)
include H

/-- Every record opens in the running tree. -/
theorem Reconstructs.opens {paths : List ImtMembershipFr}
    (hpaths : List.Forall₂ (fun r m => MembershipOf C t (r.leaf C) m) batches.flatten paths)
    {j : Fin leafMax} (hj : j.val < batches.flatten.length) :
    Opens C.poseidon (proverPublic (builtPublic C view batches.flatten))
      (proverWitness (builtPrivate C batches.flatten paths)) j := by
  obtain ⟨Ht, -⟩ := H.values_eq
  have hj' : j.val < paths.length := hpaths.length_eq ▸ hj
  obtain ⟨i, c, hi, hv, hm⟩ := hpaths.get hj hj'
  have hpair : (batches.flatten.map (·.pair)).getD j.val (0, 0) = (batches.flatten[j.val]).pair := by
    rw [List.getD_eq_getElem?_getD, List.getElem?_map, List.getElem?_eq_getElem hj]
    rfl
  have hpath : paths.getD j.val ⟨0, 0, 0, 0, [], []⟩ = paths[j.val] := by simp [hj']
  have hroot : (proverPublic (builtPublic C view batches.flatten)).runningRoot = t.root := by
    show frFromBeBytes view.runningRoot.1 = t.root
    rw [H.root]
    exact frFromBeBytes_frToBeBytes t.root
  simp only [List.get_eq_getElem] at hm hv
  rw [Opens, hroot, ← foldPath_leaf Ht hi, ← circuitPath_pathFor Ht i]
  simp only [proverWitness, builtPrivate, hpair, hpath, hm, InternalLeaf.hash, hv]
  rfl

theorem Reconstructs.classed
    (hlen : view.classSet.length ≤ classMax) : ∀ p ∈ batches.flatten.map (·.pair), ∃ k : Fin classMax,
      k.val < (proverPublic (builtPublic C view batches.flatten)).classSetLen ∧
        p.2 = (proverPublic (builtPublic C view batches.flatten)).classSet k := by
  intro p hp
  obtain ⟨r, hr, rfl⟩ := List.mem_map.mp hp
  obtain ⟨k, hk⟩ := List.mem_iff_getElem?.mp (H.classTags r hr)
  have hlt := (List.getElem?_eq_some_iff.mp hk).1
  refine ⟨⟨k, hlt.trans_le hlen⟩, ?_, ?_⟩
  · rw [H.sameClasses.length]
    exact hlt
  · rw [H.sameClasses.classSet ⟨k, hlt.trans_le hlen⟩ _ hk]
    rfl

/-- The resolver's witness meets the circuit exactly when the leaves increase over all batches: the
membership paths, the class memberships and the outcome bits always hold. -/
theorem Reconstructs.checks_iff {paths : List ImtMembershipFr}
    (hpaths : List.Forall₂ (fun r m => MembershipOf C t (r.leaf C) m) batches.flatten paths)
    (hlen : view.classSet.length ≤ classMax) :
    ResolutionChecks C.poseidon (proverPublic (builtPublic C view batches.flatten))
        (proverWitness (builtPrivate C batches.flatten paths)) ↔
      (batches.flatten.map (·.leaf C)).Pairwise (· < ·) := by
  set pub := proverPublic (builtPublic C view batches.flatten) with hpub
  set w := proverWitness (builtPrivate C batches.flatten paths)
  have hcount : pub.leafCount = batches.flatten.length := H.leafCount_eq
  have hsame : SameClasses view pub := H.sameClasses
  have hlen' : pub.classSetLen ≤ classMax := hsame.length ▸ hlen
  have hpairs : w.pairs pub.leafCount = batches.flatten.map (·.pair) := by
    rw [hcount]
    exact pairs_builtPrivate H.size
  have hleaves : (w.pairs pub.leafCount).map (pairLeaf C.poseidon) = batches.flatten.map (·.leaf C) := by
    rw [hpairs, List.map_map]
    rfl
  constructor
  · intro h
    rw [← hleaves]
    exact h.ordered
  · intro hord
    have hentries : batches.flatten.map (·.entry C) =
        (batches.flatten.map (·.pair)).map (pairEntry C.poseidon) := by
      rw [List.map_map]
      rfl
    obtain ⟨hbits, hbit, hall⟩ := @SameClasses.outcome Fr _ C.poseidon _ _ _ hsame hlen' H.increasing
      (H.classed hlen)
    rw [← hentries] at hbits hbit hall
    refine ⟨hcount ▸ H.size, hlen', (hsame.increasing hlen').mp H.increasing, ?_, ?_, ?_, ?_, ?_⟩
    · intro j hj
      exact H.opens hpaths (hcount ▸ hj)
    · rw [hpairs]
      exact H.classed hlen
    · intro k
      rw [hpairs]
      show List.getD (List.map _ _) _ _ = _
      by_cases hk : k.val < pub.classSetLen
      · rw [List.getD_eq_getElem?_getD, List.getElem?_map, hbit k hk]
        simp only [hk, true_and]
        split
        · next h => rw [decide_eq_true h]; rfl
        · next h => rw [decide_eq_false h]; rfl
      · rw [List.getD_eq_getElem?_getD, List.getElem?_map, List.getElem?_eq_none (hbits ▸ not_lt.mp hk)]
        simp only [hk, false_and, if_false]
        rfl
    · rw [hpairs]
      show Scalar.ofNat (Bool.toNat _) = _
      congr 1
      split
      · next h => rw [hall.mpr h]; rfl
      · next h => rw [Bool.eq_false_iff.mpr fun h' => h (hall.mp h')]; rfl
    · rw [hleaves]
      exact hord

/-- What the resolver proves: a petition with an active batch, whose class set fits the circuit and
whose batches were published in leaf order. -/
theorem Reconstructs.resolverProves_iff :
    ResolverProves C fetchRecords view ↔ batches ≠ [] ∧ view.classSet.length ≤ classMax ∧
      (batches.flatten.map (·.leaf C)).Pairwise (· < ·) := by
  obtain ⟨paths, hpaths, hbuild⟩ := H.exists_buildInputs
  have hlength := hpaths.length_eq.symm
  constructor
  · rintro ⟨entries, pub, priv, cpub, w, hrec, hinputs, hprover, hmain⟩
    obtain ⟨hne, rfl⟩ := H.reconstruct_eq_ok.mp hrec
    obtain ⟨rfl, rfl⟩ := Prod.mk.inj (Except.ok.inj (hbuild.symm.trans hinputs))
    obtain ⟨hlen, rfl, rfl⟩ := (H.proverInput_eq_ok hlength).mp hprover
    exact ⟨hne, hlen, (H.checks_iff hpaths hlen).mp (resolutionMain_eq_ok.mp hmain)⟩
  · rintro ⟨hne, hlen, hord⟩
    refine ⟨_, _, _, _, _, H.reconstruct_eq_ok.mpr ⟨hne, rfl⟩, hbuild,
      (H.proverInput_eq_ok hlength).mpr ⟨hlen, rfl, rfl⟩, ?_⟩
    exact resolutionMain_eq_ok.mpr ((H.checks_iff hpaths hlen).mpr hord)

end

end

/-! ## Petitions of a history -/

def PetitionEntry.activeBatchVersionedHashes (e : PetitionEntry) : List Bytes32 :=
  (e.batches.filter (·.state = .active)).map (·.batchVersionedHash)

def PetitionEntry.resolverView (e : PetitionEntry) : ResolverView where
  petitionId := e.record.petitionId
  rRoot := e.record.rRoot
  predicateHash := e.record.predicateHash
  runningRoot := e.record.runningRoot
  leafCount := e.record.leafCount
  classSet := e.record.classSet
  classThresholds := e.record.classThresholds
  classIndex := e.record.classIndex
  activeBatchVersionedHashes := e.activeBatchVersionedHashes

/-- What `register` checks of the classes; no later call changes them. -/
structure ClassesOK (e : PetitionEntry) : Prop where
  increasing : e.record.classSet.Pairwise (· < ·)
  thresholds : e.record.classThresholds.length = e.record.classSet.length

section
variable {C : Primitives} {fetchRecords : Bytes32 → Except BlobError (List RecordEntry)}
  {e e' : PetitionEntry} {ps : List Publication} {k : Nat} {pid : PetitionId}
  {address : Address} {global : GlobalState} {tr : List Step} {reg : PetitionRegistry}

theorem ClassesOK.step {env : Ports} {emptyImtRoot : Bytes32} {call : Call}
    {result : Except RegistryError Event} (H : ClassesOK e)
    (h : EntryStep C env emptyImtRoot pid e call result e') : ClassesOK e' := by
  obtain ⟨hinc, hlen⟩ := H
  cases h <;> exact ⟨hinc, hlen⟩

theorem history_classesOK (hrun : History C address global tr reg) {e : PetitionEntry}
    (he : reg.petitions pid = some e) : ClassesOK e := by
  induction hrun generalizing e with
  | nil => cases he
  | @cons tr reg reg' s run hstep ih =>
    have hpid := transition_entry hstep pid
    cases he₀ : reg.petitions pid with
    | none =>
      obtain ⟨draft, d, st, p, ev, -, hd, -, -, -, rfl, -⟩ := hpid.created he₀ e he
      have hchk := checkDraft_ok hd
      exact ⟨List.isChain_iff_pairwise.mp hchk.increasing, hchk.thresholds⟩
    | some e₀ =>
      obtain ⟨e₁, he₁, hentry⟩ := hpid.entry e₀ he₀
      obtain rfl := Option.some.inj (he.symm.trans he₁)
      exact (ih he₀).step hentry

/-- The batches of the active hashes, when the carrier holds them. -/
theorem fetches_active {bs : List BatchRecord} (hvh : bs.map (·.batchVersionedHash) = ps.map (·.versionedHash))
    (hfetch : ∀ p ∈ ps, fetchRecords p.versionedHash = .ok p.records) :
    List.Forall₂ (fun vh records => fetchRecords vh = .ok records)
      ((bs.filter (·.state = .active)).map (·.batchVersionedHash))
      ((((bs.zip ps).filter (·.1.state = .active)).map (·.2)).map (·.records)) := by
  induction bs generalizing ps with
  | nil => exact .nil
  | cons b bs ih =>
    obtain _ | ⟨p, ps⟩ := ps
    · cases hvh
    obtain ⟨hb, hbs⟩ := List.cons.inj hvh
    obtain ⟨hp, hps⟩ := List.forall_mem_cons.mp hfetch
    rw [List.zip_cons_cons, List.filter_cons, List.filter_cons]
    split
    · exact .cons (hb ▸ hp) (ih hbs hps)
    · exact ih hbs hps

theorem history_reconstructs (hrun : History C address global tr reg)
    (he : reg.petitions pid = some e) (hst : e.record.state ≠ .unresolved)
    (hfetch : ∀ p ∈ published tr pid, fetchRecords p.versionedHash = .ok p.records)
    (hsize : e.record.leafCount ≤ leafMax) (hthresholds : ∀ x ∈ e.record.classThresholds, x < 2 ^ 32) :
    ∃ t, Reconstructs C fetchRecords e.resolverView
      ((activeBatches e (published tr pid)).map (·.records)) t := by
  obtain ⟨k, H⟩ := (history_inv hrun).entry pid e he
  have hclasses := history_classesOK hrun he
  have hactive : ((activeBatches e (published tr pid)).map (·.records)).flatten =
      recordsOf ((published tr pid).take k) := by
    rw [H.activeBatches_eq, recordsOf, List.flatMap_def]
  obtain ⟨t, ht, hroot, -⟩ := H.roots
  refine ⟨t.running, ?_, ?_, hroot hst, ?_, ?_, ?_, hclasses.increasing, hclasses.thresholds, hthresholds⟩
  · exact fetches_active H.versionedHashes hfetch
  · rw [hactive]
    exact (replayFrom_eq_ok.mp ht).1
  · rw [hactive]
    exact H.leafCount
  · rw [hactive, ← H.leafCount]
    exact hsize
  · rw [hactive]
    exact H.classTags

/-- The resolver proves a petition exactly when some batch is active, the class set fits the circuit
and the leaves of every active batch lie above those of the batches before it. -/
theorem history_resolverProves_iff (hrun : History C address global tr reg)
    (he : reg.petitions pid = some e) (hst : e.record.state ≠ .unresolved)
    (hfetch : ∀ p ∈ published tr pid, fetchRecords p.versionedHash = .ok p.records)
    (hsize : e.record.leafCount ≤ leafMax) (hthresholds : ∀ x ∈ e.record.classThresholds, x < 2 ^ 32) :
    ResolverProves C fetchRecords e.resolverView ↔
      activeBatches e (published tr pid) ≠ [] ∧ e.record.classSet.length ≤ classMax ∧
        (activeBatches e (published tr pid)).Pairwise fun p q =>
          ∀ r ∈ p.records, ∀ r' ∈ q.records, r.leaf C < r'.leaf C := by
  obtain ⟨k, H⟩ := (history_inv hrun).entry pid e he
  obtain ⟨t, hrec⟩ := history_reconstructs hrun he hst hfetch hsize hthresholds
  have hbatch : ∀ p ∈ activeBatches e (published tr pid),
      p.records.Pairwise fun r r' => r.leaf C < r'.leaf C := by
    intro p hp
    rw [H.activeBatches_eq] at hp
    obtain ⟨i, b, -, -, hok⟩ := H.batch_of_mem (List.mem_of_mem_take hp)
    exact hok.ordered
  rw [hrec.resolverProves_iff, List.pairwise_map, List.pairwise_flatten, List.pairwise_map,
    List.forall_mem_map, and_iff_right hbatch, ne_eq, List.map_eq_nil_iff]
  rfl

end

/-! ## Two batches, in either order -/

namespace Sample

/-- Publishing two batches under distinct hashes, with a carrier that holds both. -/
theorem exists_run_pair {a b : List RecordEntry} (ha : WellFormedBatch primitives [100] a)
    (hb : WellFormedBatch primitives [100] b) (hrep : ∃ t, replay primitives (a ++ b) = .ok t)
    (hne : computeBatchVersionedHash primitives (blobElements a) ≠
      computeBatchVersionedHash primitives (blobElements b)) :
    ∃ pid tr reg e, PublishingRun primitives (.zero 20) (global 1) (ports (carrier [a, b]) 300000)
      (draft 1000) pid [a, b] tr reg e ∧
      ∀ p ∈ published tr pid, (carrier [a, b]).fetchRecords p.versionedHash = .ok p.records := by
  have hflat : [a, b].flatten = a ++ b := by simp
  have hwf : ∀ x ∈ [a, b], WellFormedBatch primitives [100] x := by
    simp only [List.forall_mem_cons, ha, hb, true_and]
    exact List.forall_mem_nil _
  obtain ⟨pid, tr, reg, e, hrun⟩ := exists_run (carrier [a, b]) hwf (hflat ▸ hrep)
  refine ⟨pid, tr, reg, e, hrun, fun p hp => ?_⟩
  obtain ⟨k, H⟩ := (history_inv hrun.run).entry pid e hrun.entry
  obtain ⟨i, x, -, -, hok⟩ := H.batch_of_mem hp
  obtain ⟨fes, hfes, hvh⟩ := hok.encoded
  obtain ⟨-, rfl⟩ := encodeBlob_eq_ok.mp hfes
  have hmem : p.records ∈ [a, b] := hrun.records ▸ List.mem_map_of_mem hp
  have hblob : ∀ {x}, WellFormedBatch primitives [100] x → x.length ≤ recordsPerBlob :=
    fun h => h.size.trans (by decide)
  have hlast := @fetchRecords_concat [a] b (hblob hb) p.versionedHash
  have hfirst := @fetchRecords_concat [] a (hblob ha) p.versionedHash
  refine hlast.trans ?_
  rw [← hvh]
  obtain h | h := List.mem_pair.mp hmem
  · rw [h, if_neg hne]
    rw [← hvh, h, if_pos rfl] at hfirst
    exact hfirst
  · rw [h, if_pos rfl]

end Sample

open Sample

/-- The later batch first: the registry accumulates both, and the resolver cannot prove them. -/
theorem resolver_fails_out_of_order : ∃ pid tr reg e, PublishingRun primitives (.zero 20) (global 1)
      (ports (carrier [laterBatch, batch]) 300000) (draft 1000) pid
      [laterBatch, batch] tr reg e ∧
    (∀ p ∈ published tr pid, (carrier [laterBatch, batch]).fetchRecords p.versionedHash = .ok p.records) ∧
    e.record.leafCount = 2 ∧ e.record.classSet = [100] ∧ e.record.classThresholds = [1] ∧
    ¬ ResolverProves primitives (carrier [laterBatch, batch]).fetchRecords e.resolverView := by
  obtain ⟨pid, tr, reg, e, hrun, hfetch⟩ := exists_run_pair laterBatch_wellFormed
    batch_wellFormed (exists_replay (by decide) (by decide +kernel) (by decide +kernel)
      (by decide +kernel) (by decide +kernel)) (by decide +kernel)
  have hactive := hrun.activeBatches_eq
  have hcount := hrun.leafCount_eq
  have hthresholds : e.record.classThresholds = [1] := hrun.registered.classThresholds
  obtain ⟨t, H⟩ := history_reconstructs hrun.run hrun.entry (by rw [hrun.signing]; decide) hfetch
    (hcount ▸ by decide) (by rw [hthresholds]; decide)
  rw [hactive] at H
  refine ⟨pid, tr, reg, e, hrun, hfetch, hcount, hrun.registered.classSet, hthresholds, fun h => ?_⟩
  obtain ⟨-, -, hord⟩ := H.resolverProves_iff.mp h
  revert hord
  decide +kernel

/-- In leaf order both are proved. -/
theorem resolver_proves_in_order : ∃ pid tr reg e, PublishingRun primitives (.zero 20) (global 1)
      (ports (carrier [batch, laterBatch]) 300000) (draft 1000) pid
      [batch, laterBatch] tr reg e ∧ ResolverProves primitives
      (carrier [batch, laterBatch]).fetchRecords e.resolverView := by
  obtain ⟨pid, tr, reg, e, hrun, hfetch⟩ := exists_run_pair batch_wellFormed
    laterBatch_wellFormed (exists_replay (by decide) (by decide +kernel) (by decide +kernel)
      (by decide +kernel) (by decide +kernel)) (by decide +kernel)
  have hclasses : e.record.classSet = [100] := hrun.registered.classSet
  have hthresholds : e.record.classThresholds = [1] := hrun.registered.classThresholds
  refine ⟨pid, tr, reg, e, hrun, ?_⟩
  apply (history_resolverProves_iff hrun.run hrun.entry (by rw [hrun.signing]; decide) hfetch
    (hrun.leafCount_eq ▸ by decide) (by rw [hthresholds]; decide)).mpr
  refine ⟨?_, by rw [hclasses]; decide, ?_⟩
  · intro hnil
    have := hrun.activeBatches_eq
    rw [hnil] at this
    cases this
  · have hord : [batch, laterBatch].Pairwise fun a b => ∀ r ∈ a, ∀ r' ∈ b,
        r.leaf primitives < r'.leaf primitives := by decide +kernel
    rw [← hrun.activeBatches_eq, List.pairwise_map] at hord
    exact hord

end Pocs.Civic
