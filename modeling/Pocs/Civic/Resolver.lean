import Pocs.Lib.BinarySearch
import Pocs.Civic.Registry.Core
import Pocs.Civic.ResolutionCircuit

/-! # The resolver

`resolver/core.rs` rebuilds the leaves of a petition from its blobs, counts them per class and
builds the inputs of the resolution circuit; `bb_prover.rs` pads them to the circuit's arrays. The
circuit tallies as `compute_outcome` does (`resolution_tally`). -/

namespace Pocs.Civic

open IndexedMerkleTree (insertAll_ok new_inv new_leaves)

/-- What the resolver reads of a petition. -/
structure ResolverView where
  petitionId : PetitionId
  rRoot : Bytes32
  predicateHash : Bytes32
  runningRoot : Bytes32
  leafCount : Nat
  classSet : List ClassTag
  classThresholds : List Nat
  classIndex : UInt8
  /-- One hash per active batch, in batch order. -/
  activeBatchVersionedHashes : List Bytes32

inductive ResolverError where
  | badState
  | noBatches
  | leafCountMismatch (reconstructed leafCount : Nat)
  | rootMismatch
  | leafOrderingFailure (position : Nat)
  | blob (e : BlobError)
  | imt (e : ImtError)
  | proof (e : ProofError)

/-! ## `compute_outcome` -/

section
variable {F : Type} [Scalar F]

/-- `u16::from_be_bytes([bytes[30], bytes[31]])`: the low two bytes of the class tag. -/
def lowTag (classTag : F) : ClassTag := UInt16.ofNat (Scalar.toNat classTag)

def countTag (classSet : List ClassTag) (counts : List Nat) (entry : F × F × F) : List Nat :=
  match binarySearch classSet (lowTag entry.2.2) 0 classSet.length with
  | some i => counts.modify i (· + 1)
  | none => counts

/-- Per-class counts and outcome bits `b`, `b_per_class`. -/
def computeOutcome (view : ResolverView) (entries : List (F × F × F)) : Bool × List Bool :=
  let counts := entries.foldl (countTag view.classSet) (List.replicate view.classSet.length 0)
  let bPerClass := (counts.zip view.classThresholds).map fun x => decide (x.1 ≥ x.2)
  (bPerClass.all id, bPerClass)

def tagCount (entries : List (F × F × F)) (c : ClassTag) : Nat :=
  entries.countP fun entry => decide (lowTag entry.2.2 = c)

theorem foldl_countTag {classSet : List ClassTag} (hs : classSet.Pairwise (· < ·))
    (entries : List (F × F × F)) (f : ClassTag → Nat) : entries.foldl (countTag classSet) (classSet.map f) =
      classSet.map fun c => f c + tagCount entries c := by
  induction entries generalizing f with
  | nil => simp [tagCount]
  | cons entry entries ih =>
    have hstep : countTag classSet (classSet.map f) entry =
        classSet.map fun c => f c + if lowTag entry.2.2 = c then 1 else 0 := by
      unfold countTag
      cases hi : binarySearch classSet (lowTag entry.2.2) 0 classSet.length with
      | none =>
        have hmem : lowTag entry.2.2 ∉ classSet := by
          rw [← binarySearch_isSome hs, hi]
          exact Bool.false_ne_true
        refine List.map_congr_left fun c hc => ?_
        have hne : lowTag entry.2.2 ≠ c := fun h => hmem (h ▸ hc)
        rw [if_neg hne, Nat.add_zero]
      | some i =>
        have hget := (binarySearch_all hs).mp hi
        apply List.ext_getElem?
        intro j
        rw [List.getElem?_modify, List.getElem?_map, List.getElem?_map]
        cases hj : classSet[j]? with
        | none => rfl
        | some c =>
          have hiff : i = j ↔ lowTag entry.2.2 = c := by
            rw [← List.getElem?_inj (List.getElem?_eq_some_iff.mp hget).1 (hs.imp ne_of_lt), hget, hj,
              Option.some.injEq]
          simp only [Option.map_some, Option.map_eq_map, hiff]
          split <;> rfl
    rw [List.foldl_cons, hstep, ih]
    refine List.map_congr_left fun c _ => ?_
    simp only [tagCount, List.countP_cons, decide_eq_true_eq]
    omega

theorem computeOutcome_eq {view : ResolverView} (hs : view.classSet.Pairwise (· < ·))
    (entries : List (F × F × F)) :
    (computeOutcome view entries).2 = (view.classSet.zip view.classThresholds).map
      fun x => decide (x.2 ≤ tagCount entries x.1) := by
  have hzero : List.replicate view.classSet.length 0 = view.classSet.map fun _ => 0 := by
    rw [List.map_const']
  simp only [computeOutcome, hzero, foldl_countTag hs, List.zip_map_left, List.map_map, Nat.zero_add]
  rfl

theorem lowTag_ofNat (c : ClassTag) : lowTag (Scalar.ofNat c.toNat : F) = c := by
  have hlt : c.toNat < 2 ^ 64 := c.toNat_lt.trans (by decide)
  rw [lowTag, Scalar.toNat_ofNat hlt]
  exact UInt16.ofNat_toNat

end

/-! ## `reconstruct` and `build_submission` -/

/-- Per-leaf IMT membership witness in circuit form. -/
structure ImtMembershipFr where
  leafHash : Fr
  leafIndex : Nat
  nextIndex : Nat
  nextValue : Fr
  siblings : List Fr
  indices : List Nat

structure ResolutionPrivateInputs where
  leaves : List Fr
  imtMembershipPaths : List ImtMembershipFr
  witnessPairs : List (Fr × Fr)

section
variable (C : Primitives) (fetchRecords : Bytes32 → Except BlobError (List RecordEntry))

/-- One round of the record loop of `reconstruct`, on the tree and the entries. -/
def reconstructRecord (st : IndexedMerkleTree Fr × List (Fr × Fr × Fr)) (record : RecordEntry) :
    Except ResolverError (IndexedMerkleTree Fr × List (Fr × Fr × Fr)) := do
  let nullifierFr := frFromBeBytes record.nullifier.1
  let classTagFr : Fr := Scalar.ofNat record.classTag.toNat
  let leafFr := hashLeaf C.poseidon nullifierFr classTagFr
  let (_, imt) ← mapErr .imt (st.1.insert C.poseidon (frFromBeBytes (frToBeBytes leafFr).1))
  pure (imt, st.2 ++ [(leafFr, nullifierFr, classTagFr)])

def reconstructBatch (st : IndexedMerkleTree Fr × List (Fr × Fr × Fr)) (vh : Bytes32) :
    Except ResolverError (IndexedMerkleTree Fr × List (Fr × Fr × Fr)) := do
  let records ← mapErr .blob (fetchRecords vh)
  records.foldlM (reconstructRecord C) st

/-- Reconstruct `L` from active-batch blobs; verifies `running_root` and `leaf_count`. -/
def reconstruct (view : ResolverView) : Except ResolverError (List (Fr × Fr × Fr)) := do
  failIf (view.activeBatchVersionedHashes = []) .noBatches
  let (imt, entries) ← view.activeBatchVersionedHashes.foldlM (reconstructBatch C fetchRecords)
    (.new C.poseidon, [])
  failIf (entries.length ≠ view.leafCount) (.leafCountMismatch entries.length view.leafCount)
  failIf (imt.rootBytes ≠ view.runningRoot) .rootMismatch
  pure entries

/-- The first pass of `build_submission`: the final tree. -/
def insertEntry (imt : IndexedMerkleTree Fr) (entry : Fr × Fr × Fr) :
    Except ResolverError (IndexedMerkleTree Fr) := do
  let (_, imt) ← mapErr .imt (imt.insert C.poseidon (frFromBeBytes (frToBeBytes entry.1).1))
  pure imt

/-- The second pass: the membership witness of a leaf in the final tree. -/
def membershipFr (imt : IndexedMerkleTree Fr) (entry : Fr × Fr × Fr) :
    Except ResolverError ImtMembershipFr := do
  let m ← okOr (imt.membership (frFromBeBytes (frToBeBytes entry.1).1)) .rootMismatch
  pure ⟨m.leaf.hash C.poseidon, m.leafIndex, m.leaf.nextIndex, m.leaf.nextValue, m.path.siblings,
    m.path.indices⟩

def publicInputs (view : ResolverView) (b : Bool) (bPerClass : List Bool) : ResolutionPublicInputs where
  predicateHash := frFromBeBytes view.predicateHash.1
  rRoot := frFromBeBytes view.rRoot.1
  runningRoot := frFromBeBytes view.runningRoot.1
  leafCount := Scalar.ofNat view.leafCount
  classSet := view.classSet.map fun c => Scalar.ofNat c.toNat
  classThresholds := view.classThresholds.map Scalar.ofNat
  b := Scalar.ofNat b.toNat
  bPerClass := bPerClass.map fun x => Scalar.ofNat x.toNat
  classIndex := Scalar.ofNat view.classIndex.toNat

/-- The inputs `build_submission` hands to the proof backend. -/
def buildInputs (view : ResolverView) (entries : List (Fr × Fr × Fr)) :
    Except ResolverError (ResolutionPublicInputs × ResolutionPrivateInputs) := do
  let (b, bPerClass) := computeOutcome view entries
  let imt ← entries.foldlM (insertEntry C) (.new C.poseidon)
  let imtMembership ← entries.mapM (membershipFr C imt)
  pure (publicInputs view b bPerClass,
    ⟨entries.map (·.1), imtMembership, entries.map fun entry => (entry.2.1, entry.2.2)⟩)

end

def proverPublic (pub : ResolutionPublicInputs) : ResolutionPublic Fr where
  predicateHash := pub.predicateHash
  rRoot := pub.rRoot
  runningRoot := pub.runningRoot
  leafCount := Scalar.toNat pub.leafCount
  classSet k := pub.classSet.getD k.val 0
  classSetLen := pub.classSet.length
  classThresholds k := Scalar.toNat (pub.classThresholds.getD k.val 0)
  b := pub.b
  bPerClass k := pub.bPerClass.getD k.val 0
  classIndex := pub.classIndex

/-- The padded witness; a path is cut or filled up to `IMT_PATH_LEN = 24`. -/
def proverWitness (priv : ResolutionPrivateInputs) : ResolutionWitness Fr :=
  let path (j : Nat) : ImtMembershipFr := priv.imtMembershipPaths.getD j ⟨0, 0, 0, 0, [], []⟩
  { nullifier := fun j => (priv.witnessPairs.getD j.val (0, 0)).1
    classTag := fun j => (priv.witnessPairs.getD j.val (0, 0)).2
    imtNextIndex := fun j => Scalar.ofNat (path j.val).nextIndex
    imtNextValue := fun j => (path j.val).nextValue
    imtPathIndices := fun j l => (path j.val).indices.getD l.val 0 != 0
    imtPathElements := fun j l => (path j.val).siblings.getD l.val 0 }

/-- The circuit inputs of `generate_resolution_proof`. Counts and thresholds have to fit the
circuit's `u32`. -/
def proverInput (pub : ResolutionPublicInputs) (priv : ResolutionPrivateInputs) :
    Except ProofError (ResolutionPublic Fr × ResolutionWitness Fr) := do
  failIf (priv.witnessPairs.length ≠ priv.leaves.length)
    (.witnessSerialization "resolution: witness_pairs/leaves length mismatch")
  failIf (priv.imtMembershipPaths.length ≠ priv.leaves.length)
    (.witnessSerialization "resolution: imt_membership_paths/leaves length mismatch")
  let (leaves, classes) := (priv.leaves.length, pub.classSet.length)
  failIf (leaves > leafMax) (.witnessSerialization s!"resolution: leaves {leaves} exceeds LEAF_MAX {leafMax}")
  failIf (classes > classMax)
    (.witnessSerialization s!"resolution: class_set {classes} exceeds CLASS_MAX {classMax}")
  failIf (∃ x ∈ pub.leafCount :: pub.classThresholds, 2 ^ 32 ≤ Scalar.toNat x)
    (.generation "resolution: u32 input out of range")
  pure (proverPublic pub, proverWitness priv)

/-- What the resolver hands to the circuit satisfies it. -/
def ResolverProves (C : Primitives) (fetchRecords : Bytes32 → Except BlobError (List RecordEntry))
    (view : ResolverView) : Prop :=
  ∃ entries pub priv cpub w, reconstruct C fetchRecords view = .ok entries ∧
    buildInputs C view entries = .ok (pub, priv) ∧ proverInput pub priv = .ok (cpub, w) ∧
    resolutionMain C.poseidon cpub w = .ok ()

/-! ## The circuit and `compute_outcome` -/

section
variable {F : Type} [NoirField F] {P : Poseidon F} {pub : ResolutionPublic F}
  {w : ResolutionWitness F} {view : ResolverView} {pairs : List (F × F)}

def pairEntry (P : Poseidon F) (p : F × F) : F × F × F := (pairLeaf P p, p.1, p.2)

/-- The class set and thresholds of the public inputs are those of the petition, as `resolve`
checks. -/
structure SameClasses (view : ResolverView) (pub : ResolutionPublic F) : Prop where
  thresholds_length : view.classThresholds.length = view.classSet.length
  length : pub.classSetLen = view.classSet.length
  classSet : ∀ (k : Fin classMax) c, view.classSet[k.val]? = some c → pub.classSet k = Scalar.ofNat c.toNat
  classThresholds : ∀ (k : Fin classMax) t, view.classThresholds[k.val]? = some t → pub.classThresholds k = t

theorem ofNat_tag_inj {c c' : ClassTag} : (Scalar.ofNat c.toNat : F) = Scalar.ofNat c'.toNat ↔ c = c' := by
  refine ⟨fun h => ?_, fun h => h ▸ rfl⟩
  rw [← lowTag_ofNat (F := F) c, h, lowTag_ofNat]

/-- The circuit's check of the class set, on the petition's. -/
theorem SameClasses.increasing (h : SameClasses view pub) (hlen : pub.classSetLen ≤ classMax) :
    view.classSet.Pairwise (· < ·) ↔ ∀ i : Fin classMax, i.val + 1 < pub.classSetLen →
      ∃ h : i.val + 1 < classMax, pub.classSet i < pub.classSet ⟨i.val + 1, h⟩ := by
  have hlt : ∀ (i : Nat) (hi : i + 1 < view.classSet.length) (hm : i + 1 < classMax),
      view.classSet[i] < view.classSet[i + 1] ↔ pub.classSet ⟨i, by omega⟩ < pub.classSet ⟨i + 1, hm⟩ := by
    intro i hi hm
    rw [h.classSet ⟨i, by omega⟩ _ (List.getElem?_eq_getElem (Nat.lt_of_succ_lt hi)),
      h.classSet ⟨i + 1, hm⟩ _ (List.getElem?_eq_getElem hi), Scalar.lt_iff,
      Scalar.toNat_ofNat ((UInt16.toNat_lt _).trans (by decide)),
      Scalar.toNat_ofNat ((UInt16.toNat_lt _).trans (by decide))]
    exact UInt16.lt_iff_toNat_lt
  rw [← List.isChain_iff_pairwise, List.isChain_iff_getElem]
  have hl := h.length
  constructor
  · intro hchain i hi
    have hm : i.val + 1 < classMax := by omega
    exact ⟨hm, (hlt i.val (by omega) hm).mp (hchain i.val (by omega))⟩
  · intro hall i hi
    obtain ⟨hm, hi'⟩ := hall ⟨i, by omega⟩ (show i + 1 < pub.classSetLen by omega)
    exact (hlt i hi hm).mpr hi'

/-- Leaves whose tags are in the class set are counted alike. -/
theorem SameClasses.count (h : SameClasses view pub)
    (hclassed : ∀ p ∈ pairs, ∃ k : Fin classMax, k.val < pub.classSetLen ∧ p.2 = pub.classSet k)
    {k : Fin classMax} {c : ClassTag} (hk : view.classSet[k.val]? = some c) :
    tagCount (pairs.map (pairEntry P)) c = classCount pairs (pub.classSet k) := by
  rw [tagCount, classCount, List.countP_map]
  refine List.countP_congr fun p hp => ?_
  obtain ⟨k', hk', hp2⟩ := hclassed p hp
  rw [h.length] at hk'
  have hc' := List.getElem?_eq_getElem hk'
  rw [h.classSet k' _ hc'] at hp2
  simp only [Function.comp, pairEntry, hp2, lowTag_ofNat, h.classSet k c hk, decide_eq_true_eq, ofNat_tag_inj]

/-- The outcome bits of the checks are those of `compute_outcome`. -/
theorem SameClasses.outcome (h : SameClasses view pub) (hlen : pub.classSetLen ≤ classMax)
    (hs : view.classSet.Pairwise (· < ·))
    (hclassed : ∀ p ∈ pairs, ∃ k : Fin classMax, k.val < pub.classSetLen ∧ p.2 = pub.classSet k) :
    let out := computeOutcome view (pairs.map (pairEntry P))
    out.2.length = pub.classSetLen ∧ (∀ k : Fin classMax, k.val < pub.classSetLen → out.2[k.val]? =
        some (decide (pub.classThresholds k ≤ classCount pairs (pub.classSet k)))) ∧
      (out.1 = true ↔ ∀ k : Fin classMax, k.val < pub.classSetLen →
        pub.classThresholds k ≤ classCount pairs (pub.classSet k)) := by
  intro out
  have hout : out.2 = _ := computeOutcome_eq hs (pairs.map (pairEntry P))
  have hlength : out.2.length = pub.classSetLen := by
    rw [hout, List.length_map, List.length_zip, h.thresholds_length, Nat.min_self, h.length]
  have hbit : ∀ k : Fin classMax, k.val < pub.classSetLen → out.2[k.val]? =
      some (decide (pub.classThresholds k ≤ classCount pairs (pub.classSet k))) := by
    intro k hk
    rw [h.length] at hk
    have hc := List.getElem?_eq_getElem hk
    have ht := List.getElem?_eq_getElem (h.thresholds_length.symm ▸ hk)
    have hz : (view.classSet.zip view.classThresholds)[k.val]? = some (_, _) :=
      List.getElem?_zip_eq_some.mpr ⟨hc, ht⟩
    rw [hout, List.getElem?_map, hz, Option.map_some, h.count hclassed hc, h.classThresholds k _ ht]
  refine ⟨hlength, hbit, ?_⟩
  have hall : out.1 = out.2.all id := rfl
  rw [hall, List.all_eq_true]
  constructor
  · intro hall k hk
    have hmem := hall _ (List.mem_of_getElem? (hbit k hk))
    simpa using hmem
  · intro hall x hx
    obtain ⟨i, hi⟩ := List.mem_iff_getElem?.mp hx
    have hlt : i < pub.classSetLen := hlength ▸ (List.getElem?_eq_some_iff.mp hi).1
    have hx' := (hbit ⟨i, by omega⟩ hlt).symm.trans hi
    rw [← Option.some.inj hx']
    exact decide_eq_true (hall ⟨i, by omega⟩ hlt)

/-- The resolution circuit tallies exactly the leaves of the tree, each under its own class, and its
outcome bits are those of `compute_outcome`. -/
theorem resolution_tally (hP : LeafIdeal P) {t : IndexedMerkleTree F}
    (ht : (IndexedMerkleTree.new P).insertAll P (pairs.map (pairLeaf P)) = .ok t)
    (hroot : pub.runningRoot = t.root) (hcount : pub.leafCount = pairs.length)
    (h : resolutionMain P pub w = .ok ()) : (w.pairs pub.leafCount).Perm pairs ∧
      (∀ k : Fin classMax, k.val < pub.classSetLen → pub.bPerClass k = Scalar.ofNat
        (if pub.classThresholds k ≤ classCount pairs (pub.classSet k) then 1 else 0)) ∧
      pub.b = Scalar.ofNat (if ∀ k : Fin classMax, k.val < pub.classSetLen →
        pub.classThresholds k ≤ classCount pairs (pub.classSet k) then 1 else 0) ∧
      ∀ view : ResolverView, SameClasses view pub →
        pub.b = Scalar.ofNat (computeOutcome view (pairs.map (pairEntry P))).1.toNat ∧
        (computeOutcome view (pairs.map (pairEntry P))).2.length = pub.classSetLen ∧ ∀ k : Fin classMax, ∀ bit,
          (computeOutcome view (pairs.map (pairEntry P))).2[k.val]? = some bit →
            pub.bPerClass k = Scalar.ofNat bit.toNat := by
  have H := resolutionMain_eq_ok.mp h
  have hnew := @new_inv F _ P
  obtain ⟨Ht, hvalues⟩ := insertAll_ok hnew ht
  rw [new_leaves] at hvalues
  have hperm := H.perm hP Ht hvalues hroot hcount
  have hcounts : ∀ tag, classCount (w.pairs pub.leafCount) tag = classCount pairs tag :=
    fun tag => hperm.countP_eq _
  have hbits := H.bPerClass
  have hb := H.b
  simp only [hcounts] at hbits hb
  refine ⟨hperm, fun k hk => ?_, hb, fun view hview => ?_⟩
  · rw [hbits k]
    simp only [hk, true_and]
  · have hclassed : ∀ p ∈ pairs, ∃ k : Fin classMax, k.val < pub.classSetLen ∧
        p.2 = pub.classSet k := fun p hp => H.classed p (hperm.mem_iff.mpr hp)
    have hs := (hview.increasing H.classSetLen).mpr H.classSet
    obtain ⟨hlen, hbit, hall⟩ := @SameClasses.outcome F _ P _ _ _ hview H.classSetLen hs hclassed
    refine ⟨?_, hlen, fun k bit hk => ?_⟩
    · rw [hb]
      congr 1
      cases hout : (computeOutcome view (pairs.map (pairEntry P))).1 with
      | true => rw [if_pos (hall.mp hout)]; rfl
      | false => rw [if_neg fun h => by rw [hall.mpr h] at hout; cases hout]; rfl
    · have hlt : k.val < pub.classSetLen := hlen ▸ (List.getElem?_eq_some_iff.mp hk).1
      rw [hbits k]
      obtain rfl := Option.some.inj ((hbit k hlt).symm.trans hk)
      congr 1
      by_cases hle : pub.classThresholds k ≤ classCount pairs (pub.classSet k)
      · simp [hlt, hle]
      · simp [hle]

end

namespace ThreeLeaves

/-- Two leaves of the first class and one of the second, in the order of their leaves. -/
def pairs : List (Unbounded × Unbounded) := [(⟨5⟩, ⟨100⟩), (⟨6⟩, ⟨100⟩), (⟨7⟩, ⟨200⟩)]

/-- The first class reaches its threshold. -/
def resolutionPublic (root : Unbounded) : ResolutionPublic Unbounded where
  predicateHash := 0
  rRoot := 0
  runningRoot := root
  leafCount := 3
  classSet k := if k.val = 0 then ⟨100⟩ else if k.val = 1 then ⟨200⟩ else 0
  classSetLen := 2
  classThresholds _ := 2
  b := 0
  bPerClass k := if k.val = 0 then ⟨1⟩ else 0
  classIndex := 0

def slot (t : IndexedMerkleTree Unbounded) (j : Nat) : InternalLeaf Unbounded :=
  t.leaves.getD (j + 1) ⟨0, 0, 0⟩

def resolutionWitness (t : IndexedMerkleTree Unbounded) : ResolutionWitness Unbounded where
  nullifier j := (pairs.getD j (0, 0)).1
  classTag j := (pairs.getD j (0, 0)).2
  imtNextIndex j := ⟨(slot t j).nextIndex⟩
  imtNextValue j := (slot t j).nextValue
  imtPathIndices j := pathIndicesOf (j + 1)
  imtPathElements j :=
    pathElementsOf (hashMerkleNode idealPoseidon) (leafHash idealPoseidon t.leaves) (j + 1)

theorem increasing : (pairs.map (pairLeaf idealPoseidon)).Pairwise (· < ·) := by decide

theorem exists_tree : ∃ t, (IndexedMerkleTree.new idealPoseidon).insertAll idealPoseidon
    (pairs.map (pairLeaf idealPoseidon)) = .ok t := by
  refine (IndexedMerkleTree.exists_insertAll_iff new_inv).mpr ?_
  rw [new_leaves]
  refine ⟨by decide, increasing.imp fun h => h.ne, fun v hv hmem => ?_⟩
  obtain ⟨p, -, rfl⟩ := List.mem_map.mp hv
  exact idealPoseidon_leafIdeal.leaf_ne_zero _ _ (List.mem_singleton.mp hmem)

theorem accepted {t : IndexedMerkleTree Unbounded} (ht : (IndexedMerkleTree.new idealPoseidon).insertAll
    idealPoseidon (pairs.map (pairLeaf idealPoseidon)) = .ok t) :
    resolutionMain idealPoseidon (resolutionPublic t.root) (resolutionWitness t) = .ok () := by
  obtain ⟨Ht, hvalues⟩ := insertAll_ok new_inv ht
  have hclassSet : ∀ i : Fin classMax, i.val + 1 < 2 → ∃ h : i.val + 1 < classMax,
      (resolutionPublic 0).classSet i < (resolutionPublic 0).classSet ⟨i.val + 1, h⟩ := by decide
  have hclassed : ∀ p ∈ pairs, ∃ k : Fin classMax, k.val < 2 ∧ p.2 = (resolutionPublic 0).classSet k := by
    decide
  have hbits : ∀ k : Fin classMax, (resolutionPublic 0).bPerClass k = Scalar.ofNat
      (if k.val < 2 ∧ 2 ≤ classCount pairs ((resolutionPublic 0).classSet k) then 1 else 0) := by decide
  have hb : (0 : Unbounded) = Scalar.ofNat (if ∀ k : Fin classMax, k.val < 2 →
      2 ≤ classCount pairs ((resolutionPublic 0).classSet k) then 1 else 0) := by decide
  refine resolutionMain_eq_ok.mpr ⟨(by decide : 3 ≤ leafMax), (by decide : 2 ≤ classMax), hclassSet,
    fun j hj => ?_, hclassed, hbits, hb, increasing⟩
  have hj' : j.val < pairs.length := hj
  obtain ⟨c, hc, hvalue⟩ : ∃ c, t.leaves[j.val + 1]? = some c ∧
      c.value = pairLeaf idealPoseidon (pairs.getD j (0, 0)) := by
    have hget := congrArg (·[j.val + 1]?) hvalues
    simpa [new_leaves, IndexedList.values, hj'] using hget
  obtain rfl : slot t j = c := by simp [slot, hc]
  have hopen := foldPath_leaf Ht hc
  rw [InternalLeaf.hash, hvalue] at hopen
  unfold Opens resolutionWitness
  rw [circuitPath_of]
  exact hopen

end ThreeLeaves

open ThreeLeaves

theorem resolution_tally_three : ∃ t, (IndexedMerkleTree.new idealPoseidon).insertAll idealPoseidon
      (pairs.map (pairLeaf idealPoseidon)) = .ok t ∧
    resolutionMain idealPoseidon (resolutionPublic t.root) (resolutionWitness t) = .ok () ∧
    ((resolutionWitness t).pairs 3).Perm pairs := by
  obtain ⟨t, ht⟩ := exists_tree
  have hacc := accepted ht
  exact ⟨t, ht, hacc, (resolution_tally idealPoseidon_leafIdeal ht rfl rfl hacc).1⟩

end Pocs.Civic
