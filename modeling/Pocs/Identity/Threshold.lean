import Pocs.Lib.Shamir
import Pocs.Identity.HashToCurve

/-! # The threshold evaluation

Secret sharing and aggregation of `voprf.rs`, and the steps of `enroll` of `client.rs` from the identity point to the
raw nullifier. The group, its DLEQ verifier and the network are parameters. -/

namespace Pocs.Identity

/-! ## `voprf.rs` -/

/-- One share, by the running power of the point. -/
def evaluateShare (coeffs : List ScalarField) (x : ScalarField) : ScalarField :=
  (coeffs.foldl (fun acc coeff => (acc.1 + coeff * acc.2, acc.2 * x)) ((0, 1) : ScalarField × ScalarField)).1

/-- The draws of the generator are `rng`. -/
def shareSecret (rng : Nat → ScalarField) (secret : ScalarField) (t n : Nat) :
    Except String (List (Nat × ScalarField)) := do
  require (1 ≤ t) "threshold must be >= 1"
  require (t ≤ n) "threshold must be <= n"
  let coeffs := secret :: (List.range (t - 1)).map rng
  pure ((List.range' 1 n).map fun i => (i, evaluateShare coeffs i))

/-- The loop of the `i`-th coefficient over the points, on the numerator and the denominator. -/
def numDenStep (i : Nat) (acc : ScalarField × ScalarField) (j : Nat) : ScalarField × ScalarField :=
  if j ≠ i then (acc.1 * j, acc.2 * ((j : ScalarField) - i)) else acc

def numDen (indices : List Nat) (i : Nat) : ScalarField × ScalarField := indices.foldl (numDenStep i) (1, 1)

def lagrangeCoefficient (indices : List Nat) (i : Nat) : Except String ScalarField := do
  let den ← unwrap (inverse (numDen indices i).2)
  pure ((numDen indices i).1 * den)

def lagrangeCoefficients (indices : List Nat) : Except String (List ScalarField) :=
  indices.mapM (lagrangeCoefficient indices)

structure DleqProof where
  c : ScalarField
  z : ScalarField

structure PartialEvaluation (P : Type) where
  nodeIndex : Nat
  point : P
  proof : DleqProof

structure BlindEvaluateRequest (P : Type) where
  blindedRequest : P
  identityCommitment : ScalarField
  gId : P
  linkProof : List UInt8

structure MpcNetwork (P : Type) where
  evaluate : BlindEvaluateRequest P → List (PartialEvaluation P)
  threshold : Nat
  nodePublicKey : Nat → P

/-- The errors of these steps; `panic` is an abort. -/
inductive ClientError where
  | mpc (message : String)
  | panic (message : String)
deriving DecidableEq

section
variable {P : Type} [AddCommGroup P] [Module ScalarField P]

def blind (gId : P) (r : ScalarField) : P := r • gId

def unblind (aggregated : P) (r : ScalarField) : Except String P := do
  let inv ← unwrap (inverse r)
  pure (inv • aggregated)

def aggregate (partials : List (Nat × P)) : Except String P := do
  let indices := partials.map (·.1)
  let lambdas ← lagrangeCoefficients indices
  pure ((lambdas.zip partials).foldl (fun result entry => result + entry.1 • entry.2.2) 0)

/-! ## `client.rs` -/

variable (verifyDleq : P → P → P → DleqProof → Bool)

/-- The partial evaluation passes the check under its node's key. -/
def MpcNetwork.accepts (net : MpcNetwork P) (blindedRequest : P) (eval : PartialEvaluation P) : Bool :=
  verifyDleq (net.nodePublicKey eval.nodeIndex) blindedRequest eval.point eval.proof

/-- `enroll`, from the identity point to the raw nullifier. -/
def rawNullifier (net : MpcNetwork P) (identityCommitment : ScalarField) (linkProof : List UInt8) (gId : P)
    (r : ScalarField) : Except ClientError P := do
  let blindedRequest := blind gId r
  let evaluations := net.evaluate ⟨blindedRequest, identityCommitment, gId, linkProof⟩
  let validEvals := evaluations.filter (net.accepts verifyDleq blindedRequest)
  let threshold := net.threshold
  failIf (validEvals.length < threshold)
    (.mpc s!"Not enough valid MPC responses: got {validEvals.length}, need {threshold}")
  let partials := (validEvals.take threshold).map fun e => (e.nodeIndex, e.point)
  let aggregated ← mapErr .panic (aggregate partials)
  mapErr .panic (unblind aggregated r)

end

/-! ## Shares and weights -/

theorem evaluateShare_fold (coeffs : List ScalarField) (x : ScalarField) (acc : ScalarField × ScalarField) :
    (coeffs.foldl (fun acc coeff => (acc.1 + coeff * acc.2, acc.2 * x)) acc).1 =
      acc.1 + acc.2 * (ofCoeffs coeffs).eval x := by
  induction coeffs generalizing acc with
  | nil => simp [ofCoeffs]
  | cons c cs ih =>
    rw [List.foldl_cons, ih, eval_ofCoeffs_cons]
    ring

/-- A share is the value of the polynomial. -/
theorem evaluateShare_eq (coeffs : List ScalarField) (x : ScalarField) :
    evaluateShare coeffs x = (ofCoeffs coeffs).eval x := by
  rw [evaluateShare, evaluateShare_fold, zero_add, one_mul]

theorem numDen_fold (indices : List Nat) (i : Nat) (acc : ScalarField × ScalarField) :
    indices.foldl (numDenStep i) acc = (acc.1 * ((indices.filter (· ≠ i)).map Nat.cast).prod,
        acc.2 * ((indices.filter (· ≠ i)).map fun j : Nat => (j : ScalarField) - i).prod) := by
  induction indices generalizing acc with
  | nil => simp
  | cons j js ih =>
    rw [List.foldl_cons, numDenStep]
    by_cases hj : j ≠ i
    · rw [if_pos hj, ih, List.filter_cons_of_pos (by simpa using hj), List.map_cons, List.map_cons, List.prod_cons,
        List.prod_cons, mul_assoc, mul_assoc]
    · rw [if_neg hj, ih, List.filter_cons_of_neg (by simpa using hj)]

/-- Numbers below the modulus are distinct scalars. -/
theorem natCast_injOn : Set.InjOn (Nat.cast : Nat → ScalarField) {i | i < Civic.bn254} := by
  intro i hi j hj h
  rw [ZMod.natCast_eq_natCast_iff, Nat.ModEq, Nat.mod_eq_of_lt hi, Nat.mod_eq_of_lt hj] at h
  exact h

/-- The coefficients are the weights of the points. -/
theorem lagrangeCoefficient_eq {indices : List Nat} {i : Nat} (hindices : ∀ j ∈ indices, j < Civic.bn254)
    (hi : i < Civic.bn254) : lagrangeCoefficient indices i = .ok (weight Nat.cast indices i) := by
  have hne : ((indices.filter (· ≠ i)).map fun j : Nat => (j : ScalarField) - i).prod ≠ 0 := by
    rw [Ne, List.prod_eq_zero_iff, List.mem_map]
    rintro ⟨j, hj, hzero⟩
    obtain ⟨hmem, hji⟩ := List.mem_filter.mp hj
    exact of_decide_eq_true hji (natCast_injOn (hindices j hmem) hi (sub_eq_zero.mp hzero))
  rw [lagrangeCoefficient, numDen, numDen_fold, one_mul, one_mul, inverse, if_neg hne]
  rfl

theorem lagrangeCoefficients_eq {indices : List Nat} (hindices : ∀ j ∈ indices, j < Civic.bn254) :
    lagrangeCoefficients indices = .ok (indices.map (weight Nat.cast indices)) := by
  refine mapM_eq_ok.mpr (List.forall₂_map_right_iff.mpr (List.forall₂_same.mpr fun i hi => ?_))
  exact lagrangeCoefficient_eq hindices (hindices i hi)

section
variable {P : Type} [AddCommGroup P] [Module ScalarField P]

theorem foldl_zip (f : Nat → ScalarField) (partials : List (Nat × P)) (result : P) :
    (((partials.map (·.1)).map f).zip partials).foldl (fun result entry => result + entry.1 • entry.2.2) result =
      result + (partials.map fun entry => f entry.1 • entry.2).sum := by
  induction partials generalizing result with
  | nil => simp
  | cons entry partials ih =>
    rw [List.map_cons, List.map_cons, List.zip_cons_cons, List.foldl_cons, ih, List.map_cons, List.sum_cons, add_assoc]

/-- The sum of the evaluations with the weights of their points. -/
theorem aggregate_eq {partials : List (Nat × P)} (hindices : ∀ j ∈ partials.map (·.1), j < Civic.bn254) :
    aggregate partials = .ok (partials.map fun entry =>
        (weight Nat.cast (partials.map (·.1)) entry.1 : ScalarField) • entry.2).sum := by
  rw [aggregate, lagrangeCoefficients_eq hindices, ok_bind, foldl_zip, zero_add]
  rfl

/-- Evaluations under a polynomial at distinct points, as many as it has coefficients, give its value at zero. -/
theorem aggregate_shares {f : Polynomial ScalarField} {indices : List Nat} {b : P} (hnodup : indices.Nodup)
    (hindices : ∀ j ∈ indices, j < Civic.bn254) (hdegree : f.degree < indices.length) :
    aggregate (indices.map fun i : Nat => (i, f.eval (i : ScalarField) • b)) = .ok (f.eval 0 • b) := by
  have hmap : (indices.map fun i : Nat => (i, f.eval (i : ScalarField) • b)).map (·.1) = indices := by
    rw [List.map_map]
    exact List.map_id indices
  rw [aggregate_eq (by rw [hmap]; exact hindices), hmap, List.map_map,
    eval_zero_eq_sum hnodup (natCast_injOn.mono hindices) hdegree, List.sum_smul, List.map_map]
  refine congrArg (fun l : List P => Except.ok l.sum) (List.map_congr_left fun i _ => ?_)
  show weight Nat.cast indices i • f.eval (i : ScalarField) • b = _
  rw [smul_smul, mul_comm]
  rfl

/-! ## Which nodes answer -/

/-- The answering nodes in order, each with whether its evaluation passes. -/
def MpcNetwork.answers (verifyDleq : P → P → P → DleqProof → Bool) (net : MpcNetwork P)
    (request : BlindEvaluateRequest P) : List (Nat × Bool) :=
  (net.evaluate request).map fun eval => (eval.nodeIndex, net.accepts verifyDleq request.blindedRequest eval)

/-- The nodes with a valid evaluation, as often as they sent one. -/
def validNodes (answers : List (Nat × Bool)) : List Nat := (answers.filter (·.2)).map (·.1)

/-- The network has the threshold of the sharing, and the verifier accepts under a node's key what the node's share
gives. -/
structure Serves (verifyDleq : P → P → P → DleqProof → Bool) (net : MpcNetwork P)
    (shares : List (Nat × ScalarField)) (t : Nat) (blindedRequest : P) : Prop where
  threshold : net.threshold = t
  accepts : ∀ entry ∈ shares, ∀ point proof,
    verifyDleq (net.nodePublicKey entry.1) blindedRequest point proof = true ↔ point = entry.2 • blindedRequest

/-- With `t` distinct valid nodes the result is the secret's, with fewer an error. -/
def Independent (secret : ScalarField) (gId : P) (t : Nat) (answers : List (Nat × Bool))
    (result : Except ClientError P) : Prop :=
  if t ≤ (validNodes answers).dedup.length then result = .ok (secret • gId) else ∃ e, result = .error e

noncomputable def sharing (rng : Nat → ScalarField) (secret : ScalarField) (t : Nat) : Polynomial ScalarField :=
  ofCoeffs (secret :: (List.range (t - 1)).map rng)

section
variable {rng : Nat → ScalarField} {secret : ScalarField} {t n : Nat}

theorem shareSecret_eq (ht : 1 ≤ t) (htn : t ≤ n) : shareSecret rng secret t n =
    .ok ((List.range' 1 n).map fun i : Nat => (i, (sharing rng secret t).eval (i : ScalarField))) := by
  simp only [shareSecret, require, if_pos ht, if_pos htn, evaluateShare_eq]
  rfl

theorem degree_sharing (ht : 1 ≤ t) : (sharing rng secret t).degree < t := by
  have hlength : (secret :: (List.range (t - 1)).map rng).length = t := by
    rw [List.length_cons, List.length_map, List.length_range]
    omega
  have h := degree_ofCoeffs_lt (secret :: (List.range (t - 1)).map rng)
  rwa [hlength] at h

/-- Every polynomial of small degree is that of a sharing. -/
theorem exists_sharing {f : Polynomial ScalarField} (ht : 1 ≤ t) (h : f.degree < t) :
    ∃ rng, sharing rng (f.eval 0) t = f := by
  obtain ⟨cs, hlength, rfl⟩ := exists_ofCoeffs h
  cases cs with
  | nil => exact absurd hlength (by simp only [List.length_nil]; omega)
  | cons c cs =>
    refine ⟨fun k => cs.getD k 0, ?_⟩
    have hcs : (List.range (t - 1)).map (fun k => cs.getD k 0) = cs := by
      rw [← hlength, List.length_cons, Nat.add_sub_cancel]
      refine List.ext_getElem (by simp) fun k _ hk => ?_
      rw [List.getElem_map, List.getElem_range, List.getD_eq_getElem _ _ hk]
    rw [sharing, hcs, eval_zero_ofCoeffs]

end

section
variable {verifyDleq : P → P → P → DleqProof → Bool} {net : MpcNetwork P} {rng : Nat → ScalarField}
  {secret r identityCommitment : ScalarField} {linkProof : List UInt8} {t n : Nat} {answers : List (Nat × Bool)} {gId : P}

omit [AddCommGroup P] [Module ScalarField P] in
theorem validNodes_answers (verifyDleq : P → P → P → DleqProof → Bool) (net : MpcNetwork P)
    (request : BlindEvaluateRequest P) : validNodes (net.answers verifyDleq request) =
      ((net.evaluate request).filter (net.accepts verifyDleq request.blindedRequest)).map (·.nodeIndex) := by
  rw [validNodes, MpcNetwork.answers, List.filter_map, List.map_map]
  rfl

/-- The steps, on the nodes of the valid evaluations. -/
theorem rawNullifier_eq {f : Polynomial ScalarField}
    (hserves : Serves verifyDleq net ((List.range' 1 n).map fun i : Nat => (i, f.eval (i : ScalarField))) t (blind gId r))
    (hanswers : net.answers verifyDleq ⟨blind gId r, identityCommitment, gId, linkProof⟩ = answers)
    (hnodes : ∀ i ∈ validNodes answers, 1 ≤ i ∧ i ≤ n) :
    rawNullifier verifyDleq net identityCommitment linkProof gId r = failIf ((validNodes answers).length < t)
        (.mpc s!"Not enough valid MPC responses: got {(validNodes answers).length}, need {t}") >>= fun _ =>
      mapErr .panic (aggregate
        (((validNodes answers).take t).map fun i : Nat => (i, f.eval (i : ScalarField) • blind gId r))) >>=
      fun aggregated => mapErr .panic (unblind aggregated r) := by
  have hvalid := validNodes_answers verifyDleq net ⟨blind gId r, identityCommitment, gId, linkProof⟩
  rw [hanswers] at hvalid
  have hpoints : ∀ eval ∈ (net.evaluate ⟨blind gId r, identityCommitment, gId, linkProof⟩).filter
      (net.accepts verifyDleq (blind gId r)),
      (eval.nodeIndex, eval.point) = (eval.nodeIndex, f.eval (eval.nodeIndex : ScalarField) • blind gId r) := by
    intro eval heval
    have hmem : eval.nodeIndex ∈ validNodes answers := by
      rw [hvalid]
      exact List.mem_map_of_mem heval
    obtain ⟨hlo, hhi⟩ := hnodes _ hmem
    have hshare := List.mem_map_of_mem (f := fun i : Nat => (i, f.eval (i : ScalarField)))
      (List.mem_range'_1.mpr ⟨hlo, Nat.lt_one_add_iff.mpr hhi⟩)
    rw [(hserves.accepts _ hshare _ _).mp (List.mem_filter.mp heval).2]
  have hlength : ((net.evaluate ⟨blind gId r, identityCommitment, gId, linkProof⟩).filter
      (net.accepts verifyDleq (blind gId r))).length = (validNodes answers).length := by
    rw [hvalid, List.length_map]
  have htake : (((net.evaluate ⟨blind gId r, identityCommitment, gId, linkProof⟩).filter
      (net.accepts verifyDleq (blind gId r))).take t).map (fun e => (e.nodeIndex, e.point)) =
        ((validNodes answers).take t).map fun i : Nat => (i, f.eval (i : ScalarField) • blind gId r) := by
    rw [hvalid, ← List.map_take, List.map_map]
    exact List.map_congr_left fun eval heval => hpoints eval (List.mem_of_mem_take heval)
  rw [rawNullifier, hserves.threshold, hlength, htake]

/-- Too few valid evaluations, or the first ones from distinct nodes. -/
def Distinguished (t : Nat) (answers : List (Nat × Bool)) : Prop :=
  (validNodes answers).length < t ∨ ((validNodes answers).take t).Nodup

/-- Distinct nodes are as many as the selection takes. -/
theorem le_dedup_of_nodup (hlength : t ≤ (validNodes answers).length) (hnodup : ((validNodes answers).take t).Nodup) :
    t ≤ (validNodes answers).dedup.length := by
  have hsub : (validNodes answers).take t ⊆ (validNodes answers).dedup := fun _ hi =>
    List.mem_dedup.mpr (List.mem_of_mem_take hi)
  have hle := (hnodup.subperm hsub).length_le
  rwa [List.length_take, Nat.min_eq_left hlength] at hle

theorem independent_of_distinguished {f : Polynomial ScalarField} (hdegree : f.degree < t) (hn : n < Civic.bn254)
    (hr : r ≠ 0)
    (hserves : Serves verifyDleq net ((List.range' 1 n).map fun i : Nat => (i, f.eval (i : ScalarField))) t (blind gId r))
    (hanswers : net.answers verifyDleq ⟨blind gId r, identityCommitment, gId, linkProof⟩ = answers)
    (hnodes : ∀ i ∈ validNodes answers, 1 ≤ i ∧ i ≤ n) (h : Distinguished t answers) :
    Independent (f.eval 0) gId t answers (rawNullifier verifyDleq net identityCommitment linkProof gId r) := by
  rw [rawNullifier_eq hserves hanswers hnodes]
  by_cases hshort : (validNodes answers).length < t
  · rw [Independent, if_neg ((List.dedup_sublist _).length_le.trans_lt hshort).not_ge, failIf_pos hshort]
    exact ⟨_, rfl⟩
  · have hlength := not_lt.mp hshort
    have hnodup := h.resolve_left hshort
    have htake : ((validNodes answers).take t).length = t := by
      rw [List.length_take, Nat.min_eq_left hlength]
    have hindices : ∀ i ∈ (validNodes answers).take t, i < Civic.bn254 := fun i hi =>
      (hnodes i (List.mem_of_mem_take hi)).2.trans_lt hn
    rw [Independent, if_pos (le_dedup_of_nodup hlength hnodup), failIf_neg hshort, ok_bind,
      aggregate_shares hnodup hindices (by rw [htake]; exact hdegree), mapErr, ok_bind, unblind, inverse, if_neg hr]
    show Except.ok (r⁻¹ • f.eval 0 • r • gId) = _
    rw [smul_comm, inv_smul_smul₀ hr]

/-- A secret that the nodes of a list do not share, when they are fewer than the threshold. -/
theorem exists_blind_spot {selected : List Nat} (hlength : selected.length = t) (hnodup : ¬ selected.Nodup)
    (hpositive : ∀ i ∈ selected, 1 ≤ i ∧ i < Civic.bn254) :
    ∃ f : Polynomial ScalarField, f.degree < t ∧ (∀ i ∈ selected, f.eval (i : ScalarField) = 0) ∧ f.eval 0 ≠ 0 := by
  have hcard : (selected.toFinset.image (Nat.cast : Nat → ScalarField)).card < t := by
    refine Finset.card_image_le.trans_lt ?_
    rw [List.card_toFinset, ← hlength]
    refine (List.dedup_sublist selected).length_le.lt_of_ne fun h => hnodup ?_
    rw [← (List.dedup_sublist selected).eq_of_length h]
    exact List.nodup_dedup selected
  have hzero : (0 : ScalarField) ∉ selected.toFinset.image (Nat.cast : Nat → ScalarField) := by
    intro hmem
    obtain ⟨i, hi, hcast⟩ := Finset.mem_image.mp hmem
    obtain ⟨hpos, hlt⟩ := hpositive i (List.mem_toFinset.mp hi)
    have := natCast_injOn hlt (Nat.pos_of_neZero Civic.bn254) (hcast.trans Nat.cast_zero.symm)
    omega
  obtain ⟨f, hdegree, hroots, hsecret⟩ := exists_vanishing hzero
  refine ⟨f, ?_, fun i hi => ?_, hsecret⟩
  · rw [hdegree]
    exact_mod_cast hcard
  · exact hroots _ (Finset.mem_image_of_mem _ (List.mem_toFinset.mpr hi))

/-- An evaluation for the answer; an invalid one is off by the request. -/
def evaluation (f : Polynomial ScalarField) (b : P) (answer : Nat × Bool) : PartialEvaluation P where
  nodeIndex := answer.1
  point := if answer.2 then f.eval (answer.1 : ScalarField) • b else f.eval (answer.1 : ScalarField) • b + b
  proof := ⟨0, 0⟩

def respond (f : Polynomial ScalarField) (g b : P) (t : Nat) (answers : List (Nat × Bool)) : MpcNetwork P where
  evaluate _ := answers.map (evaluation f b)
  threshold := t
  nodePublicKey i := f.eval (i : ScalarField) • g

open Classical in
/-- The relation that the verifier checks: one logarithm for the key and the point. -/
noncomputable def sameLog (g pk b point : P) (_ : DleqProof) : Bool :=
  decide (∃ k : ScalarField, pk = k • g ∧ point = k • b)

theorem sameLog_smul {g b point : P} {k : ScalarField} {proof : DleqProof} (hg : g ≠ 0) :
    sameLog g (k • g) b point proof = true ↔ point = k • b := by
  simp only [sameLog, decide_eq_true_eq]
  constructor
  · intro ⟨k', hkey, hpoint⟩
    rw [hpoint, smul_left_injective ScalarField hg hkey]
  · intro hpoint
    exact ⟨k, rfl, hpoint⟩

theorem respond_serves {f : Polynomial ScalarField} {g b : P} (hg : g ≠ 0) :
    Serves (sameLog g) (respond f g b t answers)
      ((List.range' 1 n).map fun i : Nat => (i, f.eval (i : ScalarField))) t b := by
  refine ⟨rfl, fun entry hentry point proof => ?_⟩
  obtain ⟨i, _, rfl⟩ := List.mem_map.mp hentry
  exact sameLog_smul hg

theorem accepts_evaluation {f : Polynomial ScalarField} {g b : P} (hg : g ≠ 0) (hb : b ≠ 0) (answer : Nat × Bool) :
    (respond f g b t answers).accepts (sameLog g) b (evaluation f b answer) = answer.2 := by
  rw [Bool.eq_iff_iff, MpcNetwork.accepts, respond, evaluation, sameLog_smul hg]
  dsimp only
  cases answer.2 with
  | true =>
    rw [if_pos rfl]
    exact iff_of_true rfl rfl
  | false =>
    rw [if_neg Bool.false_ne_true]
    exact iff_of_false (fun h => hb (left_eq_add.mp h.symm)) Bool.false_ne_true

theorem respond_answers {f : Polynomial ScalarField} {g b : P} (hg : g ≠ 0) (hb : b ≠ 0)
    (identityCommitment : ScalarField) (linkProof : List UInt8) :
    (respond f g b t answers).answers (sameLog g) ⟨b, identityCommitment, g, linkProof⟩ = answers := by
  have hanswers : (respond f g b t answers).answers (sameLog g) ⟨b, identityCommitment, g, linkProof⟩ =
      answers.map fun answer => (answer.1, answer.2) := by
    rw [MpcNetwork.answers]
    show (answers.map (evaluation f b)).map _ = _
    rw [List.map_map]
    exact List.map_congr_left fun answer _ => congrArg (Prod.mk answer.1) (accepts_evaluation hg hb answer)
  rw [hanswers]
  exact List.map_id answers

theorem aggregate_zero {selected : List Nat} (hselected : ∀ i ∈ selected, i < Civic.bn254) :
    aggregate (selected.map fun i => (i, (0 : P))) = .ok 0 := by
  rw [aggregate_eq]
  · refine congrArg Except.ok (List.sum_eq_zero fun point hpoint => ?_)
    obtain ⟨entry, hentry, rfl⟩ := List.mem_map.mp hpoint
    obtain ⟨i, _, rfl⟩ := List.mem_map.mp hentry
    exact smul_zero _
  · rw [List.map_map]
    intro j hj
    obtain ⟨i, hi, rfl⟩ := List.mem_map.mp hj
    exact hselected i hi

/-- For every pattern of answers: whatever the secret and the shares, the result is the secret's with `t` distinct valid
nodes and an error with fewer, exactly if the selected nodes are distinct. -/
theorem threshold_independent_iff (ht : 1 ≤ t) (htn : t ≤ n) (hn : n < Civic.bn254) (hgId : gId ≠ 0) (hr : r ≠ 0)
    (hnodes : ∀ i ∈ validNodes answers, 1 ≤ i ∧ i ≤ n) :
    (∀ verifyDleq net rng secret shares, shareSecret rng secret t n = .ok shares →
      Serves verifyDleq net shares t (blind gId r) →
      net.answers verifyDleq ⟨blind gId r, identityCommitment, gId, linkProof⟩ = answers →
      Independent secret gId t answers (rawNullifier verifyDleq net identityCommitment linkProof gId r)) ↔
    Distinguished t answers := by
  constructor
  · intro hall
    by_contra h
    obtain ⟨hshort, hnodup⟩ := not_or.mp h
    have htake : ((validNodes answers).take t).length = t := by
      rw [List.length_take, Nat.min_eq_left (not_lt.mp hshort)]
    have hpositive : ∀ i ∈ (validNodes answers).take t, 1 ≤ i ∧ i < Civic.bn254 := fun i hi =>
      ⟨(hnodes i (List.mem_of_mem_take hi)).1, (hnodes i (List.mem_of_mem_take hi)).2.trans_lt hn⟩
    obtain ⟨f, hdegree, hroots, hsecret⟩ := exists_blind_spot htake hnodup hpositive
    obtain ⟨rng, hrng⟩ := exists_sharing ht hdegree
    have hb : blind gId r ≠ 0 := smul_ne_zero hr hgId
    have hshares := @shareSecret_eq rng (f.eval 0) t n ht htn
    rw [hrng] at hshares
    have hserves := @respond_serves P _ _ t n answers f gId (blind gId r) hgId
    have hanswers := @respond_answers P _ _ t answers f gId (blind gId r) hgId hb identityCommitment linkProof
    have hresult := hall _ _ _ _ _ hshares hserves hanswers
    have hzero : ((validNodes answers).take t).map (fun i : Nat => (i, f.eval (i : ScalarField) • blind gId r)) =
        ((validNodes answers).take t).map fun i => (i, (0 : P)) :=
      List.map_congr_left fun i hi => by rw [hroots i hi, zero_smul]
    rw [rawNullifier_eq hserves hanswers hnodes, failIf_neg hshort, ok_bind, hzero,
      aggregate_zero fun i hi => (hpositive i hi).2, mapErr, ok_bind, unblind, inverse, if_neg hr] at hresult
    replace hresult : Independent (f.eval 0) gId t answers (.ok (r⁻¹ • (0 : P))) := hresult
    rw [Independent, smul_zero] at hresult
    split at hresult
    · exact smul_ne_zero hsecret hgId (Except.ok.inj hresult).symm
    · obtain ⟨e, he⟩ := hresult
      exact absurd he (by simp)
  · intro h verifyDleq net rng secret shares hshares hserves hanswers
    rw [shareSecret_eq ht htn] at hshares
    obtain rfl := Except.ok.inj hshares
    have hsecret : (sharing rng secret t).eval 0 = secret := eval_zero_ofCoeffs _ _
    have := independent_of_distinguished (degree_sharing ht) hn hr hserves hanswers hnodes h
    rwa [hsecret] at this

end

end

/-! ## Sample -/

namespace Sample

/-- Nodes one and two answer, the first one twice. -/
def threshold : MpcNetwork ScalarField where
  evaluate request := [1, 1, 2].map fun node => ⟨node, request.blindedRequest, 0, 0⟩
  threshold := 2
  nodePublicKey _ := 1

/-- Three nodes, of which the second answers wrongly. -/
def mixed : MpcNetwork ScalarField where
  evaluate request := [⟨3, request.blindedRequest, 0, 0⟩, ⟨2, 0, 0, 0⟩, ⟨1, request.blindedRequest, 0, 0⟩]
  threshold := 2
  nodePublicKey _ := 1

def verifyDleq (pk b point : ScalarField) (_ : DleqProof) : Bool := point = pk * b

end Sample

open Sample

/-- Two of the three nodes answer rightly, in any order: the result is the secret's. -/
theorem threshold_independent_sample : mixed.answers verifyDleq ⟨blind (1 : ScalarField) 1, 0, 1, []⟩ =
        [(3, true), (2, false), (1, true)] ∧
      Independent 1 (1 : ScalarField) 2 [(3, true), (2, false), (1, true)]
        (rawNullifier verifyDleq mixed 0 [] 1 1) := by
  have hanswers : mixed.answers verifyDleq ⟨blind (1 : ScalarField) 1, 0, 1, []⟩ =
      [(3, true), (2, false), (1, true)] := by
    decide +kernel
  have hshares : shareSecret (fun _ => 0) 1 2 3 = .ok [(1, 1), (2, 1), (3, 1)] := by
    decide +kernel
  have hserves : Serves verifyDleq mixed [(1, 1), (2, 1), (3, 1)] 2 (blind (1 : ScalarField) 1) := by
    refine ⟨rfl, ?_⟩
    simp [mixed, verifyDleq]
  exact ⟨hanswers,
    (threshold_independent_iff (by decide) (by decide) (by decide) one_ne_zero one_ne_zero (by decide)).mpr
      (Or.inr (by decide)) _ _ _ _ _ hshares hserves hanswers⟩

/-- Of two nodes, the first one answers twice: its share is taken twice, though both answered. -/
theorem threshold_doubled : shareSecret (fun _ => 0) 1 2 2 = .ok [(1, 1), (2, 1)] ∧
      Serves verifyDleq threshold [(1, 1), (2, 1)] 2 (blind (1 : ScalarField) 1) ∧
      rawNullifier verifyDleq threshold 0 [] (1 : ScalarField) 1 = .ok 2 ∧
      ¬ Independent 1 (1 : ScalarField) 2 (threshold.answers verifyDleq ⟨blind 1 1, 0, 1, []⟩)
        (rawNullifier verifyDleq threshold 0 [] 1 1) := by
  have hresult : rawNullifier verifyDleq threshold 0 [] (1 : ScalarField) 1 = .ok 2 := by
    decide +kernel
  have hnodes : 2 ≤ (validNodes
      (threshold.answers verifyDleq ⟨blind (1 : ScalarField) 1, 0, 1, []⟩)).dedup.length := by
    decide +kernel
  refine ⟨by decide +kernel, ⟨rfl, ?_⟩, hresult, ?_⟩
  · simp [threshold, verifyDleq]
  · rw [Independent, if_pos hnodes, hresult]
    decide +kernel

end Pocs.Identity
