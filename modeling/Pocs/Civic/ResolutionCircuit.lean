import Pocs.Civic.ImtCircuit

/-! # The resolution circuit

`circuits/resolution`: every active leaf is opened in the running tree and counted under its class,
the outcome bits are compared with the counts, and the leaves have to be strictly increasing.
`resolutionMain_eq_ok` reads an accepted witness as `ResolutionChecks`. The order makes the witnessed
leaves distinct, so that as many of them as the tree has are the leaves of the tree
(`ResolutionChecks.perm`). -/

namespace Pocs.Civic

def leafMax : Nat := 200
def classMax : Nat := 16

structure ResolutionPublic (F : Type) where
  predicateHash : F
  rRoot : F
  runningRoot : F
  leafCount : Nat
  classSet : Fin classMax → F
  classSetLen : Nat
  classThresholds : Fin classMax → Nat
  b : F
  bPerClass : Fin classMax → F
  classIndex : F

structure ResolutionWitness (F : Type) where
  nullifier : Fin leafMax → F
  classTag : Fin leafMax → F
  imtNextIndex : Fin leafMax → F
  imtNextValue : Fin leafMax → F
  imtPathIndices : Fin leafMax → Fin 24 → Bool
  imtPathElements : Fin leafMax → Fin 24 → F

def arrayAt {α : Type} {n : Nat} (a : Fin n → α) (i : Nat) : Except String α :=
  if h : i < n then .ok (a ⟨i, h⟩) else .error "index out of bounds"

section
variable {F : Type} [NoirField F] (P : Poseidon F) (pub : ResolutionPublic F) (w : ResolutionWitness F)

/-- Constraint 5: `class_set` strictly increasing. -/
def checkClassSet : Except String Unit :=
  (List.finRange classMax).forM fun i => do
    if i.val + 1 < pub.classSetLen then
      let next ← arrayAt pub.classSet (i.val + 1)
      require (NoirField.ltField (pub.classSet i) next = true) "resolution: class_set not strictly increasing"

/-- `in_range & matches`. -/
def inClass (tag : F) (k : Fin classMax) : Bool :=
  decide (k.val < pub.classSetLen) && decide (tag = pub.classSet k)

/-- The loop over the classes, on the counts and `found_in_class_set`. -/
def tallyClass (tag : F) (st : (Fin classMax → Nat) × Bool) (k : Fin classMax) : (Fin classMax → Nat) × Bool :=
  if inClass pub tag k then (Function.update st.1 k (st.1 k + 1), true) else st

/-- Constraints 2-4: membership of leaf `j` with its witnessed pair, and its class. -/
def tallyLeaf (counts : Fin classMax → Nat) (j : Fin leafMax) : Except String (Fin classMax → Nat) := do
  let active := decide (j.val < pub.leafCount)
  if active then
    let leafJ := hashLeaf P (w.nullifier j) (w.classTag j)
    let imtLeaf := hashImtLeaf P leafJ (w.imtNextIndex j) (w.imtNextValue j)
    verifyMembershipDepth24 P imtLeaf pub.runningRoot imtDepth (w.imtPathIndices j) (w.imtPathElements j)
    let (counts, foundInClassSet) :=
      (List.finRange classMax).foldl (tallyClass pub (w.classTag j)) (counts, false)
    require (foundInClassSet = true) "resolution: class_tag not in class_set"
    return counts
  return counts

/-- Constraint 6, for one class: the accumulator is `all_satisfied`. -/
def checkClassBit (counts : Fin classMax → Nat) (allSatisfied : Bool) (k : Fin classMax) :
    Except String Bool := do
  let inRange := decide (k.val < pub.classSetLen)
  let satisfies := decide (counts k ≥ pub.classThresholds k)
  let expected := if inRange then (if satisfies then 1 else 0) else 0
  require (pub.bPerClass k = Scalar.ofNat expected) "resolution: b_per_class[k] mismatch"
  return if inRange then allSatisfied && satisfies else allSatisfied

/-- Constraints 6 and 7: the outcome bits. -/
def checkOutcome (counts : Fin classMax → Nat) : Except String Unit := do
  let allSatisfied ← (List.finRange classMax).foldlM (checkClassBit pub counts) true
  let expectedB : F := if allSatisfied then Scalar.ofNat 1 else Scalar.ofNat 0
  require (pub.b = expectedB) "resolution: b mismatch"

/-- Leaves strictly increasing under canonical BN254 ordering. -/
def checkLeafOrder : Except String Unit :=
  (List.finRange leafMax).forM fun j => do
    let inRange := decide (j.val + 1 < pub.leafCount)
    if inRange then
      let lj := hashLeaf P (w.nullifier j) (w.classTag j)
      let nextNullifier ← arrayAt w.nullifier (j.val + 1)
      let nextTag ← arrayAt w.classTag (j.val + 1)
      let lj1 := hashLeaf P nextNullifier nextTag
      require (NoirField.ltField lj lj1 = true) "resolution: leaves not strictly increasing"

/-- `main` of the resolution circuit; `predicate_hash`, `r_root` and `class_index` are exposed
only. -/
def resolutionMain : Except String Unit := do
  require (pub.leafCount ≤ leafMax) "resolution: leaf_count > LEAF_MAX"
  require (pub.classSetLen ≤ classMax) "resolution: class_set_len > CLASS_MAX"
  checkClassSet pub
  let counts ← (List.finRange leafMax).foldlM (tallyLeaf P pub w) (fun _ => 0)
  checkOutcome pub counts
  checkLeafOrder P pub w

end

/-! ## The loops -/

section
variable {F : Type} [NoirField F] {P : Poseidon F} {pub : ResolutionPublic F} {w : ResolutionWitness F}

theorem arrayAt_eq_ok {α : Type} {n : Nat} {a : Fin n → α} {i : Nat} {x : α} :
    arrayAt a i = .ok x ↔ ∃ h : i < n, a ⟨i, h⟩ = x := by
  unfold arrayAt
  split
  · next h => simp [h]
  · next h => simp [h]

theorem checkClassSet_eq_ok {u : Unit} : checkClassSet pub = .ok u ↔ ∀ i : Fin classMax,
    i.val + 1 < pub.classSetLen → ∃ h : i.val + 1 < classMax, pub.classSet i < pub.classSet ⟨i.val + 1, h⟩ := by
  simp only [checkClassSet, forM_eq_ok, List.mem_finRange, true_implies]
  refine forall_congr' fun i => ?_
  by_cases hi : i.val + 1 < pub.classSetLen
  · simp only [hi, if_true, true_implies, bind_eq_ok, arrayAt_eq_ok, require_eq_ok,
      NoirField.ltField_iff, ← Scalar.lt_iff]
    constructor
    · rintro ⟨_, ⟨h, rfl⟩, hlt⟩
      exact ⟨h, hlt⟩
    · rintro ⟨h, hlt⟩
      exact ⟨_, ⟨h, rfl⟩, hlt⟩
  · simp [hi]

theorem checkLeafOrder_eq_ok : checkLeafOrder P pub w = .ok () ↔ ∀ j : Fin leafMax,
    j.val + 1 < pub.leafCount → ∃ h : j.val + 1 < leafMax, hashLeaf P (w.nullifier j) (w.classTag j) <
        hashLeaf P (w.nullifier ⟨j.val + 1, h⟩) (w.classTag ⟨j.val + 1, h⟩) := by
  simp only [checkLeafOrder, forM_eq_ok, List.mem_finRange, true_implies]
  refine forall_congr' fun j => ?_
  by_cases hj : j.val + 1 < pub.leafCount
  · simp only [hj, decide_true, if_true, true_implies, bind_eq_ok, arrayAt_eq_ok, require_eq_ok,
      NoirField.ltField_iff, ← Scalar.lt_iff]
    constructor
    · rintro ⟨_, ⟨h, rfl⟩, _, ⟨h', rfl⟩, hlt⟩
      exact ⟨h, hlt⟩
    · rintro ⟨h, hlt⟩
      exact ⟨_, ⟨h, rfl⟩, _, ⟨h, rfl⟩, hlt⟩
  · simp [hj]

/-- The loop over the classes adds one to the count of every class that matches. -/
private theorem foldl_tallyClass {tag : F} {ks : List (Fin classMax)} (hnd : ks.Nodup)
    (counts : Fin classMax → Nat) (found : Bool) : ks.foldl (tallyClass pub tag) (counts, found) =
      (fun k => counts k + (decide (k ∈ ks) && inClass pub tag k).toNat,
        found || ks.any (inClass pub tag)) := by
  induction ks generalizing counts found with
  | nil => simp
  | cons k ks ih =>
    obtain ⟨hk, hnd⟩ := List.nodup_cons.mp hnd
    rw [List.foldl_cons, tallyClass]
    by_cases hin : inClass pub tag k = true
    · rw [if_pos hin, ih hnd]
      refine Prod.ext (funext fun k' => ?_) ?_
      · rcases eq_or_ne k' k with rfl | hne
        · simp [hk, hin]
        · simp [hne]
      · simp [hin]
    · rw [if_neg hin, ih hnd]
      refine Prod.ext (funext fun k' => ?_) ?_
      · rcases eq_or_ne k' k with rfl | hne
        · simp [hk, hin]
        · simp [hne]
      · simp [hin]

/-- Leaf `j` opens in the running tree. -/
def Opens (P : Poseidon F) (pub : ResolutionPublic F) (w : ResolutionWitness F) (j : Fin leafMax) :
    Prop :=
  Merkle.foldPath (hashMerkleNode P)
    (hashImtLeaf P (hashLeaf P (w.nullifier j) (w.classTag j)) (w.imtNextIndex j) (w.imtNextValue j))
    (circuitPath (w.imtPathIndices j) (w.imtPathElements j)) = pub.runningRoot

theorem tallyLeaf_eq_ok {counts counts' : Fin classMax → Nat} {j : Fin leafMax} :
    tallyLeaf P pub w counts j = .ok counts' ↔
      (j.val < pub.leafCount → Opens P pub w j ∧ ∃ k, inClass pub (w.classTag j) k = true) ∧
      counts' = fun k => counts k + (decide (j.val < pub.leafCount) && inClass pub (w.classTag j) k).toNat := by
  by_cases hj : j.val < pub.leafCount
  · simp only [tallyLeaf, hj, decide_true, if_true, true_implies, Bool.true_and,
      foldl_tallyClass (List.nodup_finRange classMax), bind_eq_ok, require_eq_ok, pure_eq_ok,
      verifyMembershipDepth24, show imtDepth = 24 from rfl, binaryMerkleRoot_eq, List.mem_finRange,
      Bool.false_or, List.any_eq_true, true_and, Opens, exists_const, and_assoc]
    exact and_congr_right fun _ => and_congr_right fun _ => eq_comm
  · simp only [tallyLeaf, hj, decide_false, Bool.false_eq_true, if_false, pure_eq_ok, false_implies,
      Bool.false_and, Bool.toNat_false, Nat.add_zero, true_and]
    exact eq_comm

private theorem foldlM_tallyLeaf {js : List (Fin leafMax)} {counts counts' : Fin classMax → Nat} :
    js.foldlM (tallyLeaf P pub w) counts = .ok counts' ↔ (∀ j ∈ js, j.val < pub.leafCount →
        Opens P pub w j ∧ ∃ k, inClass pub (w.classTag j) k = true) ∧
      counts' = fun k => counts k + js.countP fun j =>
        decide (j.val < pub.leafCount) && inClass pub (w.classTag j) k := by
  induction js generalizing counts with
  | nil =>
    simp only [List.foldlM_nil, pure_eq_ok, List.not_mem_nil, false_implies, implies_true, true_and,
      List.countP_nil, Nat.add_zero]
    exact eq_comm
  | cons j js ih =>
    have hcount : ∀ (counts : Fin classMax → Nat) k, counts k +
        (decide (j.val < pub.leafCount) && inClass pub (w.classTag j) k).toNat +
        js.countP (fun j => decide (j.val < pub.leafCount) && inClass pub (w.classTag j) k) =
        counts k + (j :: js).countP
          fun j => decide (j.val < pub.leafCount) && inClass pub (w.classTag j) k := by
      intro counts k
      rw [List.countP_cons]
      cases decide (j.val < pub.leafCount) && inClass pub (w.classTag j) k with
      | true => simp; omega
      | false => simp
    simp only [List.foldlM_cons, bind_eq_ok, tallyLeaf_eq_ok, ih, List.forall_mem_cons]
    constructor
    · rintro ⟨_, ⟨hj, rfl⟩, hjs, rfl⟩
      exact ⟨⟨hj, hjs⟩, funext fun k => hcount counts k⟩
    · rintro ⟨⟨hj, hjs⟩, rfl⟩
      exact ⟨_, ⟨hj, rfl⟩, hjs, funext fun k => (hcount counts k).symm⟩

/-- The loop over the outcome bits. -/
private theorem foldlM_checkClassBit {counts : Fin classMax → Nat} {ks : List (Fin classMax)}
    {all all' : Bool} : ks.foldlM (checkClassBit pub counts) all = .ok all' ↔ (∀ k ∈ ks, pub.bPerClass k =
        Scalar.ofNat (if k.val < pub.classSetLen ∧ pub.classThresholds k ≤ counts k then 1 else 0)) ∧
      (all' = true ↔ all = true ∧ ∀ k ∈ ks, k.val < pub.classSetLen → pub.classThresholds k ≤ counts k) := by
  induction ks generalizing all with
  | nil =>
    simp only [List.foldlM_nil, pure_eq_ok, List.not_mem_nil, false_implies, implies_true, true_and, and_true]
    exact eq_comm.trans Bool.eq_iff_iff
  | cons k ks ih =>
    simp only [List.foldlM_cons, bind_eq_ok, checkClassBit, require_eq_ok, pure_eq_ok, exists_const,
      ih, List.forall_mem_cons]
    by_cases hk : k.val < pub.classSetLen
    · by_cases hs : pub.classThresholds k ≤ counts k
      · simp [hk, hs, and_assoc]
      · simp [hk, hs, and_assoc]
    · simp [hk, and_assoc]

theorem checkOutcome_eq_ok {counts : Fin classMax → Nat} {u : Unit} : checkOutcome pub counts = .ok u ↔
      (∀ k, pub.bPerClass k =
        Scalar.ofNat (if k.val < pub.classSetLen ∧ pub.classThresholds k ≤ counts k then 1 else 0)) ∧
      pub.b = Scalar.ofNat (if ∀ k : Fin classMax, k.val < pub.classSetLen →
        pub.classThresholds k ≤ counts k then 1 else 0) := by
  simp only [checkOutcome, bind_eq_ok, foldlM_checkClassBit, require_eq_ok, List.mem_finRange,
    true_implies, true_and]
  constructor
  · rintro ⟨all, ⟨hbits, hall⟩, hb⟩
    refine ⟨hbits, hb.trans ?_⟩
    cases all with
    | true => rw [if_pos rfl, if_pos (hall.mp rfl)]
    | false => rw [if_neg Bool.false_ne_true, if_neg fun h => Bool.false_ne_true (hall.mpr h)]
  · rintro ⟨hbits, hb⟩
    refine ⟨_, ⟨hbits, decide_eq_true_iff⟩, hb.trans ?_⟩
    split
    · next h => rw [if_pos (decide_eq_true h)]
    · next h => rw [if_neg (by simpa using h)]

/-! ## What an accepted witness says -/

/-- The pairs of the first `n` leaves. -/
def ResolutionWitness.pairs (w : ResolutionWitness F) (n : Nat) : List (F × F) :=
  ((List.finRange leafMax).take n).map fun j => (w.nullifier j, w.classTag j)

def pairLeaf (P : Poseidon F) (p : F × F) : F := hashLeaf P p.1 p.2

def classCount (pairs : List (F × F)) (tag : F) : Nat := pairs.countP fun p => decide (p.2 = tag)

/-- The checks of the circuit, with the counts read off the pairs. -/
structure ResolutionChecks (P : Poseidon F) (pub : ResolutionPublic F) (w : ResolutionWitness F) : Prop where
  leafCount : pub.leafCount ≤ leafMax
  classSetLen : pub.classSetLen ≤ classMax
  classSet : ∀ i : Fin classMax, i.val + 1 < pub.classSetLen →
    ∃ h : i.val + 1 < classMax, pub.classSet i < pub.classSet ⟨i.val + 1, h⟩
  opens : ∀ j : Fin leafMax, j.val < pub.leafCount → Opens P pub w j
  classed : ∀ p ∈ w.pairs pub.leafCount, ∃ k : Fin classMax, k.val < pub.classSetLen ∧ p.2 = pub.classSet k
  bPerClass : ∀ k, pub.bPerClass k = Scalar.ofNat (if k.val < pub.classSetLen ∧
    pub.classThresholds k ≤ classCount (w.pairs pub.leafCount) (pub.classSet k) then 1 else 0)
  b : pub.b = Scalar.ofNat (if ∀ k : Fin classMax, k.val < pub.classSetLen →
    pub.classThresholds k ≤ classCount (w.pairs pub.leafCount) (pub.classSet k) then 1 else 0)
  ordered : ((w.pairs pub.leafCount).map (pairLeaf P)).Pairwise (· < ·)

private theorem mem_take_finRange {m n : Nat} {j : Fin m} : j ∈ (List.finRange m).take n ↔ j.val < n := by
  rw [List.mem_take_iff_getElem]
  constructor
  · rintro ⟨i, hi, rfl⟩
    simp at hi ⊢
    omega
  · intro hj
    exact ⟨j.val, by simp [hj], by simp⟩

private theorem countP_finRange {m : Nat} (n : Nat) (q : Fin m → Bool) :
    (List.finRange m).countP (fun j => decide (j.val < n) && q j) = ((List.finRange m).take n).countP q := by
  have hdrop : ∀ j ∈ (List.finRange m).drop n, ¬ j.val < n := by
    intro j hj
    obtain ⟨i, hi, rfl⟩ := List.mem_drop_iff_getElem.mp hj
    simp
  have hzero : ((List.finRange m).drop n).countP (fun j => decide (j.val < n) && q j) = 0 :=
    List.countP_eq_zero.mpr fun j hj => by simp [hdrop j hj]
  conv_lhs => rw [← List.take_append_drop n (List.finRange m)]
  rw [List.countP_append, hzero, Nat.add_zero]
  exact List.countP_congr fun j hj => by simp [mem_take_finRange.mp hj]

private theorem count_eq {k : Fin classMax} (hk : k.val < pub.classSetLen) :
    (List.finRange leafMax).countP (fun j => decide (j.val < pub.leafCount) && inClass pub (w.classTag j) k) =
      classCount (w.pairs pub.leafCount) (pub.classSet k) := by
  rw [countP_finRange, classCount, ResolutionWitness.pairs, List.countP_map]
  exact List.countP_congr fun j _ => by simp [inClass, hk]

private theorem ordered_iff (hn : pub.leafCount ≤ leafMax) :
    ((w.pairs pub.leafCount).map (pairLeaf P)).Pairwise (· < ·) ↔ ∀ j : Fin leafMax,
      j.val + 1 < pub.leafCount → ∃ h : j.val + 1 < leafMax, hashLeaf P (w.nullifier j) (w.classTag j) <
          hashLeaf P (w.nullifier ⟨j.val + 1, h⟩) (w.classTag ⟨j.val + 1, h⟩) := by
  have hlen : ((w.pairs pub.leafCount).map (pairLeaf P)).length = pub.leafCount := by
    simp [ResolutionWitness.pairs, hn]
  rw [← List.isChain_iff_pairwise, List.isChain_iff_getElem]
  constructor
  · intro h j hj
    have hlt := h j.val (by rw [hlen]; exact hj)
    simpa [ResolutionWitness.pairs, pairLeaf, Nat.lt_of_lt_of_le hj hn] using hlt
  · intro h i hi
    rw [hlen] at hi
    obtain ⟨hi', hlt⟩ := h ⟨i, by omega⟩ hi
    simpa [ResolutionWitness.pairs, pairLeaf] using hlt

theorem resolutionMain_eq_ok : resolutionMain P pub w = .ok () ↔ ResolutionChecks P pub w := by
  set counts : Fin classMax → Nat := fun k => 0 + (List.finRange leafMax).countP fun j =>
    decide (j.val < pub.leafCount) && inClass pub (w.classTag j) k with hcounts
  have hcount : ∀ k : Fin classMax, k.val < pub.classSetLen →
      counts k = classCount (w.pairs pub.leafCount) (pub.classSet k) :=
    fun k hk => (Nat.zero_add _).trans (count_eq hk)
  have hclassed : (∀ j : Fin leafMax, j.val < pub.leafCount →
      Opens P pub w j ∧ ∃ k, inClass pub (w.classTag j) k = true) ↔
      (∀ j : Fin leafMax, j.val < pub.leafCount → Opens P pub w j) ∧
      ∀ p ∈ w.pairs pub.leafCount, ∃ k : Fin classMax, k.val < pub.classSetLen ∧ p.2 = pub.classSet k := by
    simp only [ResolutionWitness.pairs, List.forall_mem_map, mem_take_finRange, inClass,
      Bool.and_eq_true, decide_eq_true_eq]
    exact ⟨fun h => ⟨fun j hj => (h j hj).1, fun j hj => (h j hj).2⟩, fun h j hj => ⟨h.1 j hj, h.2 j hj⟩⟩
  have hbits : ∀ k : Fin classMax, (k.val < pub.classSetLen ∧ pub.classThresholds k ≤ counts k) ↔
      (k.val < pub.classSetLen ∧ pub.classThresholds k ≤ classCount (w.pairs pub.leafCount) (pub.classSet k)) :=
    fun k => and_congr_right fun hk => by rw [hcount k hk]
  have hall : (∀ k : Fin classMax, k.val < pub.classSetLen → pub.classThresholds k ≤ counts k) ↔
      ∀ k : Fin classMax, k.val < pub.classSetLen →
        pub.classThresholds k ≤ classCount (w.pairs pub.leafCount) (pub.classSet k) :=
    forall_congr' fun k => imp_congr_right fun hk => by rw [hcount k hk]
  simp only [resolutionMain, bind_eq_ok, require_eq_ok, checkClassSet_eq_ok, foldlM_tallyLeaf,
    checkLeafOrder_eq_ok, List.mem_finRange, true_implies, exists_const, ← hcounts, hclassed]
  constructor
  · rintro ⟨hn, hlen, hclass, _, ⟨⟨hopens, hclassed⟩, rfl⟩, _, hout, hord⟩
    obtain ⟨hbit, hb⟩ := checkOutcome_eq_ok.mp hout
    simp only [hbits, hall] at hbit hb
    exact ⟨hn, hlen, hclass, hopens, hclassed, hbit, hb, (ordered_iff hn).mpr hord⟩
  · rintro ⟨hn, hlen, hclass, hopens, hclassed, hbit, hb, hord⟩
    simp only [← hbits, ← hall] at hbit hb
    exact ⟨hn, hlen, hclass, counts, ⟨⟨hopens, hclassed⟩, rfl⟩, (),
      checkOutcome_eq_ok.mpr ⟨hbit, hb⟩, (ordered_iff hn).mp hord⟩

variable {t : IndexedMerkleTree F} {pairs : List (F × F)}

/-- A leaf that opens in a tree of leaf hashes is one of them. -/
theorem Opens.mem (hP : LeafIdeal P) (Ht : t.Inv P) (hroot : pub.runningRoot = t.root)
    {j : Fin leafMax} (h : Opens P pub w j) :
    hashLeaf P (w.nullifier j) (w.classTag j) ∈ IndexedList.values t.leaves := by
  have hnode : t.root = imtNode P (leafHash P t.leaves) 24 0 := Ht.root_eq
  rw [Opens, hroot, hnode] at h
  obtain ⟨hleaf, -⟩ := circuitPath_sound hP.node_inj h
  set i := Merkle.ofBits ((circuitPath (w.imtPathIndices j) (w.imtPathElements j)).map (·.1))
  obtain ⟨hvalue, -, -⟩ := hP.imtLeaf_inj hleaf
  cases hi : t.leaves[i]? with
  | none =>
    -- an unwritten position holds the value `0`, which no leaf hash has
    rw [List.getD_eq_getElem?_getD, hi] at hvalue
    exact absurd hvalue (hP.leaf_ne_zero _ _)
  | some c =>
    rw [List.getD_eq_getElem?_getD, hi] at hvalue
    rw [hvalue]
    exact IndexedList.mem_values (List.mem_of_getElem? hi)

/-- The path a tree holds above a leaf opens it. -/
theorem foldPath_leaf (Ht : t.Inv P) {i : Nat} {c : InternalLeaf F} (hc : t.leaves[i]? = some c) :
    Merkle.foldPath (hashMerkleNode P) (c.hash P)
      (Merkle.pathAt (hashMerkleNode P) (leafHash P t.leaves) 0 24 i) = t.root := by
  have hi : i < 2 ^ 24 := (List.getElem?_eq_some_iff.mp hc).1.trans_le Ht.bound
  have hleaf : c.hash P = imtNode P (leafHash P t.leaves) 0 i := by
    show c.hash P = leafHash P t.leaves i
    rw [leafHash, List.getD_eq_getElem?_getD, hc, Option.getD_some]
  rw [hleaf, Merkle.foldPath_pathAt, Nat.div_eq_of_lt hi, Ht.root_eq]
  rfl

/-- The witnessed pairs are those of the tree: none is counted twice, omitted or counted under
another class. -/
theorem ResolutionChecks.perm (hP : LeafIdeal P) (H : ResolutionChecks P pub w) (Ht : t.Inv P)
    (hvalues : IndexedList.values t.leaves = 0 :: pairs.map (pairLeaf P))
    (hroot : pub.runningRoot = t.root) (hcount : pub.leafCount = pairs.length) :
    (w.pairs pub.leafCount).Perm pairs := by
  have hinj : Function.Injective (pairLeaf P) := by
    intro p q h
    obtain ⟨h1, h2⟩ := hP.leaf_inj h
    exact Prod.ext h1 h2
  have hsub : (w.pairs pub.leafCount).map (pairLeaf P) ⊆ pairs.map (pairLeaf P) := by
    intro v hv
    obtain ⟨p, hp, rfl⟩ := List.mem_map.mp hv
    obtain ⟨j, hj, rfl⟩ := List.mem_map.mp hp
    have hmem := (H.opens j (mem_take_finRange.mp hj)).mem hP Ht hroot
    rw [hvalues] at hmem
    exact (List.mem_cons.mp hmem).resolve_left (hP.leaf_ne_zero _ _)
  have hlen : pairs.length ≤ (w.pairs pub.leafCount).length := by
    simpa [ResolutionWitness.pairs, hcount] using hcount ▸ H.leafCount
  have hnodup : ((w.pairs pub.leafCount).map (pairLeaf P)).Nodup := H.ordered.imp ne_of_lt
  apply (List.map_perm_map_iff hinj).mp
  exact (List.subperm_of_subset hnodup hsub).perm_of_length_le (by simpa using hlen)

end

end Pocs.Civic
