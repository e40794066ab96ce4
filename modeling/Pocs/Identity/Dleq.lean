import Pocs.Rails.Digests
import Pocs.Identity.GroupOrder
import Pocs.Identity.Threshold

/-! # The equality of discrete logarithms

`prove_dleq` and `verify_dleq` of `voprf.rs` beside steps 2a to 2f of the `enrollment` circuit. Each side serializes
the six points and hashes them with SHA-256 over the compression function of the black boxes. -/

namespace Pocs.Identity

open Civic (Fr)
open Compliance (BnField)
open Swap (noirAssert noirAssert_eq_ok)
open Rails.Primitives (set_append sha256 sha256Output sha256Pad)

variable (P : Rails.Primitives)

/-! ## `voprf.rs` -/

/-- The affine coordinates, with those that `ark_ec` gives the identity. -/
def G1.affine (p : G1) : Fq × Fq := p.coordinates.getD (0, 0)

def toBytesLe (fq : Fq) : List UInt8 := (beOfNat 32 fq.val).reverse

def fqToBeBytes (fq : Fq) : List UInt8 :=
  let leBytes := toBytesLe fq
  (List.range 32).map fun i => leBytes.getD (31 - i) 0

def bytesToFr (bytes : List UInt8) : ScalarField :=
  bytes.foldl (fun result b => result * (256 : Nat) + b.toNat) 0

def pointBytes (p : G1) : List UInt8 :=
  let xBytes := fqToBeBytes p.affine.1
  let yBytes := fqToBeBytes p.affine.2
  let out := List.replicate 64 0
  let out := copyFromSlice out 0 xBytes
  copyFromSlice out 32 yBytes

def fiatShamirChallenge (g pk gId q r1 r2 : G1) : ScalarField :=
  let data := List.replicate 384 0
  let data := copyFromSlice data 0 (pointBytes g)
  let data := copyFromSlice data 64 (pointBytes pk)
  let data := copyFromSlice data 128 (pointBytes gId)
  let data := copyFromSlice data 192 (pointBytes q)
  let data := copyFromSlice data 256 (pointBytes r1)
  let data := copyFromSlice data 320 (pointBytes r2)
  bytesToFr (P.sha256 data).1

/-- `prove_dleq` with the nonce `k`. -/
def proveDleq (secret : ScalarField) (gId : G1) (k : ScalarField) : G1 × DleqProof :=
  let g := G1.generator
  let pk := secret.val • g
  let q := secret.val • gId
  let r1 := k.val • g
  let r2 := k.val • gId
  let c := fiatShamirChallenge P g pk gId q r1 r2
  let z := k - c * secret
  (q, ⟨c, z⟩)

def verifyDleq (pk gId q : G1) (proof : DleqProof) : Bool :=
  let g := G1.generator
  let r1 := proof.z.val • g + proof.c.val • pk
  let r2 := proof.z.val • gId + proof.c.val • q
  let cPrime := fiatShamirChallenge P g pk gId q r1 r2
  proof.c = cPrime

/-! ## The circuit -/

/-- Four bytes from the `b`-th on, big-endian. -/
def wordAt (padded : List UInt8) (b : Nat) : UInt32 :=
  (padded.getD b 0).toUInt32 <<< 24 ||| (padded.getD (b + 1) 0).toUInt32 <<< 16 |||
    (padded.getD (b + 2) 0).toUInt32 <<< 8 ||| (padded.getD (b + 3) 0).toUInt32

def wordBytes (w : UInt32) : List UInt8 :=
  [(w >>> 24).toUInt8, ((w >>> 16) &&& 0xFF).toUInt8, ((w >>> 8) &&& 0xFF).toUInt8, (w &&& 0xFF).toUInt8]

def sha256_384 (input : List UInt8) : List UInt8 :=
  let padded := copyFromSlice (List.replicate 448 0) 0 input
  let padded := padded.set 384 0x80
  let padded := padded.set 446 0x0C
  let padded := padded.set 447 0x00
  let state := (List.range 7).foldl (fun state blockIdx =>
    let base := blockIdx * 64
    P.sha256Compression (fun i => wordAt padded (base + i.val * 4)) state)
    fun i => Rails.Primitives.sha256Init.getD i.val 0
  (List.finRange 8).flatMap fun i => wordBytes (state i)

/-- The six points, where `infinity` are the coordinates that the curve library gives its point at infinity. -/
def serialize (infinity : Fq × Fq) (points : List G1) : List UInt8 :=
  points.zipIdx.foldl (fun serialized point =>
    let coordinates := point.1.coordinates.getD infinity
    let base := point.2 * 64
    let serialized := copyFromSlice serialized base (beOfNat 32 coordinates.1.val)
    copyFromSlice serialized (base + 32) (beOfNat 32 coordinates.2.val)) (List.replicate 384 0)

/-- What the circuit uses of the curve library, and its challenge. -/
def noirBn254 (infinity : Fq × Fq) : Bn254 Fr G1 where
  generator := G1.generator
  point x y := G1.ofCoordinates (frToFq x) (frToFq y)
  challenge points := (sha256_384 P (serialize infinity points)).foldl
    (fun cPrime b => cPrime * .reduce 256 + .reduce b.toNat) 0

def fqToFr (fq : Fq) : Fr := .reduce fq.val

def toFr (c : ScalarField) : Fr := .reduce c.val

/-- The circuit's steps on the values of `verify_dleq`. -/
def verifyInCircuit (infinity : Fq × Fq) (pk gId q : G1) (proof : DleqProof) : Except String Unit :=
  verifyChaumPedersen (noirBn254 P infinity) (fqToFr pk.affine.1) (fqToFr pk.affine.2) (fqToFr gId.affine.1)
    (fqToFr gId.affine.2) (fqToFr q.affine.1) (fqToFr q.affine.2) (toFr proof.c) (toFr proof.z)

/-- The point has coordinates, and they are below the order of the scalar field. -/
structure G1.BelowScalars (p : G1) : Prop where
  ne_zero : p ≠ 0
  x_lt : p.affine.1.val < Civic.bn254
  y_lt : p.affine.2.val < Civic.bn254

/-! ## Padding and words -/

theorem word_eq (a b c d : UInt8) :
    a.toUInt32 <<< 24 ||| b.toUInt32 <<< 16 ||| c.toUInt32 <<< 8 ||| d.toUInt32 = .ofNat (beToNat [a, b, c, d]) := by
  have ha := a.toNat_lt
  have hb := b.toNat_lt
  have hc := c.toNat_lt
  have hd := d.toNat_lt
  apply UInt32.toNat_inj.mp
  simp only [UInt32.toNat_or, UInt32.toNat_shiftLeft, UInt8.toNat_toUInt32, UInt32.toNat_ofNat', UInt32.reduceToNat,
    Nat.reduceMod, Nat.shiftLeft_eq, beToNat, List.length_cons, List.length_nil]
  -- the four bytes share no bits
  rw [Nat.mod_eq_of_lt (by omega), Nat.mod_eq_of_lt (by omega), Nat.mod_eq_of_lt (by omega),
    Nat.mod_eq_of_lt (by omega), Nat.or_assoc, Nat.or_assoc, Nat.mul_comm c.toNat,
    ← Nat.two_pow_add_eq_or_of_lt (by omega), Nat.mul_comm b.toNat, ← Nat.two_pow_add_eq_or_of_lt (by omega),
    Nat.mul_comm a.toNat, ← Nat.two_pow_add_eq_or_of_lt (by omega)]
  omega

theorem wordAt_eq {padded : List UInt8} {b : Nat} (h : b + 4 ≤ padded.length) :
    wordAt padded b = .ofNat (beToNat ((padded.drop b).take 4)) := by
  have hwindow := range_map_getD_window padded b 4
  have hlength : ((padded.drop b).take 4).length = 4 := length_slice h
  rw [hlength, Nat.sub_self, List.replicate_zero, List.append_nil] at hwindow
  rw [wordAt, word_eq, ← hwindow]
  rfl

theorem wordBytes_eq (w : UInt32) : wordBytes w = beOfNat 4 w.toNat := by
  have hmask : ∀ n : Nat, n &&& 255 = n % 256 := fun n => Nat.and_two_pow_sub_one_eq_mod n 8
  simp only [wordBytes, beOfNat, List.cons.injEq, and_true, ← UInt8.toNat_inj, UInt32.toNat_toUInt8,
    UInt32.toNat_and, UInt32.toNat_shiftRight, UInt32.reduceToNat, Nat.reduceMod, Nat.shiftRight_eq_div_pow, hmask,
    UInt8.toNat_ofNat']
  omega

variable {P}

/-- Cutting into words and blocks. -/
theorem blocks_eq {padded : List UInt8} {numBlocks : Nat} (h : numBlocks * 64 ≤ padded.length) :
    (List.range numBlocks).foldl (fun state blockIdx => let base := blockIdx * 64
        P.sha256Compression (fun i => wordAt padded (base + i.val * 4)) state)
      (fun i => Rails.Primitives.sha256Init.getD i.val 0) = P.sha256Blocks padded numBlocks := by
  apply List.foldl_ext
  intro state blockIdx hmem
  have hblock := List.mem_range.mp hmem
  have hwords : (fun i : Fin 16 => wordAt padded (blockIdx * 64 + i.val * 4)) =
      fun i => .ofNat (beToNat ((padded.drop (blockIdx * 64 + i.val * 4)).take 4)) := by
    funext i
    have hi := i.isLt
    have hword : blockIdx * 64 + i.val * 4 + 4 ≤ padded.length := by omega
    exact wordAt_eq hword
  exact congrArg (P.sha256Compression · state) hwords

/-- The hash of the circuit is SHA-256. -/
theorem sha256_384_eq {input : List UInt8} (h : input.length = 384) :
    sha256_384 P input = (P.sha256 input).1 := by
  have hpad : sha256Pad input = input ++ (0x80 :: List.replicate 61 0 ++ [0x0C, 0x00]) := by
    rw [sha256Pad, h]
    rfl
  have hlength : (sha256Pad input).length = 448 := by
    rw [hpad, List.length_append, h]
    rfl
  have hcopied : copyFromSlice (List.replicate 448 0) 0 input = input ++ List.replicate 64 0 := by
    have hcopy := copyFromSlice_zeros [] input 448
    rw [List.nil_append, List.nil_append, h] at hcopy
    exact hcopy
  have hpadded : (((copyFromSlice (List.replicate 448 0) 0 input).set 384 0x80).set 446 0x0C).set 447 0x00 =
      sha256Pad input := by
    rw [hcopied, hpad, show 384 = input.length + 0 from h.symm, set_append,
      show 446 = input.length + 62 by omega, set_append,
      show 447 = input.length + 63 by omega, set_append]
    rfl
  rw [sha256_384, hpadded, blocks_eq hlength.ge, sha256, sha256Output, hlength]
  exact congrArg (List.flatMap · _) (funext fun i => wordBytes_eq _)

/-! ## The transcript -/

theorem fqToBeBytes_eq (fq : Fq) : fqToBeBytes fq = beOfNat 32 fq.val := by
  have hlength := length_beOfNat 32 fq.val
  apply List.ext_getElem
  · rw [fqToBeBytes, List.length_map, List.length_range, hlength]
  · intro i h h'
    have hi : i < 32 := hlength ▸ h'
    have hindex : 32 - 1 - (31 - i) = i := by omega
    simp [fqToBeBytes, toBytesLe, hindex, show 31 - i < 32 by omega]

def coordinateBytes (coordinates : Fq × Fq) : List UInt8 :=
  beOfNat 32 coordinates.1.val ++ beOfNat 32 coordinates.2.val

theorem length_coordinateBytes (coordinates : Fq × Fq) : (coordinateBytes coordinates).length = 64 := by
  rw [coordinateBytes, List.length_append, length_beOfNat, length_beOfNat]

theorem pointBytes_eq (p : G1) : pointBytes p = coordinateBytes p.affine := by
  have hcopy := @foldl_copyFromSlice _ (fun fq : Fq => beOfNat 32 fq.val) 32 (fun _ => length_beOfNat 32 _)
    [p.affine.1, p.affine.2] [] 64 0 0 rfl
  rw [pointBytes, fqToBeBytes_eq, fqToBeBytes_eq]
  exact hcopy

theorem fiatShamirChallenge_eq (g pk gId q r1 r2 : G1) : fiatShamirChallenge P g pk gId q r1 r2 =
      bytesToFr (P.sha256 ([g, pk, gId, q, r1, r2].flatMap fun p => coordinateBytes p.affine)).1 := by
  have hcopy := @foldl_copyFromSlice _ (fun p : G1 => coordinateBytes p.affine) 64
    (fun _ => length_coordinateBytes _) [g, pk, gId, q, r1, r2] [] 384 0 0 rfl
  simp only [List.zipIdx_cons, List.zipIdx_nil, List.foldl_cons, List.foldl_nil, List.nil_append, List.length_cons,
    List.length_nil, Nat.reduceAdd, Nat.reduceMul, Nat.zero_add, Nat.sub_self, List.replicate_zero,
    List.append_nil] at hcopy
  simp only [fiatShamirChallenge, pointBytes_eq]
  rw [hcopy]

theorem coordinates_getD {p : G1} (h : p ≠ 0) (infinity : Fq × Fq) : p.coordinates.getD infinity = p.affine := by
  cases p with
  | zero => exact absurd rfl h
  | some x y hp => rfl

/-- Points with coordinates are serialized by them, from the `i`-th place on. -/
theorem foldl_serialize {points : List G1} (h : ∀ p ∈ points, p ≠ 0) (infinity : Fq × Fq) (before : List UInt8)
    (m : Nat) {i : Nat} (hbefore : before.length = i * 64) : (points.zipIdx i).foldl (fun serialized point =>
        let coordinates := point.1.coordinates.getD infinity
        let base := point.2 * 64
        let serialized := copyFromSlice serialized base (beOfNat 32 coordinates.1.val)
        copyFromSlice serialized (base + 32) (beOfNat 32 coordinates.2.val)) (before ++ List.replicate m 0) =
      before ++ points.flatMap (fun p => coordinateBytes p.affine) ++ List.replicate (m - points.length * 64) 0 := by
  induction points generalizing before m i with
  | nil => simp
  | cons p points ih =>
    obtain ⟨hp, hpoints⟩ := List.forall_mem_cons.mp h
    have hx : copyFromSlice (before ++ List.replicate m 0) (i * 64) (beOfNat 32 p.affine.1.val) =
        before ++ beOfNat 32 p.affine.1.val ++ List.replicate (m - 32) 0 := by
      rw [← hbefore, copyFromSlice_zeros, length_beOfNat]
    have hlength : (before ++ beOfNat 32 p.affine.1.val).length = i * 64 + 32 := by
      rw [List.length_append, hbefore, length_beOfNat]
    have hy : copyFromSlice (before ++ beOfNat 32 p.affine.1.val ++ List.replicate (m - 32) 0) (i * 64 + 32)
          (beOfNat 32 p.affine.2.val) =
        before ++ coordinateBytes p.affine ++ List.replicate (m - 64) 0 := by
      rw [← hlength, copyFromSlice_zeros, length_beOfNat, Nat.sub_sub, coordinateBytes, List.append_assoc before]
    have hnext : (before ++ coordinateBytes p.affine).length = (i + 1) * 64 := by
      rw [List.length_append, hbefore, length_coordinateBytes, Nat.succ_mul]
    rw [List.zipIdx_cons, List.foldl_cons]
    simp only [coordinates_getD hp]
    rw [hx, hy, ih hpoints _ _ hnext, List.flatMap_cons, List.length_cons, Nat.succ_mul, Nat.add_comm _ 64,
      Nat.sub_sub, List.append_assoc before]

theorem serialize_eq {points : List G1} (h : ∀ p ∈ points, p ≠ 0) (hlength : points.length = 6)
    (infinity : Fq × Fq) : serialize infinity points = points.flatMap fun p => coordinateBytes p.affine := by
  have hfold := foldl_serialize h infinity [] 384 (i := 0) rfl
  rw [hlength, Nat.sub_self, List.replicate_zero, List.append_nil, List.nil_append, List.nil_append] at hfold
  exact hfold

/-! ## The challenge -/

theorem bytesToFr_eq (bytes : List UInt8) : bytesToFr bytes = (beToNat bytes : ScalarField) := by
  have hfold : ∀ (bs : List UInt8) (a : ScalarField),
      bs.foldl (fun (result : ScalarField) b => result * (256 : Nat) + b.toNat) a =
        a * (256 : Nat) ^ bs.length + beToNat bs := by
    intro bs
    induction bs with
    | nil => simp [beToNat]
    | cons b bs ih =>
      intro a
      rw [List.foldl_cons, ih, beToNat, List.length_cons, Nat.cast_add, Nat.cast_mul, Nat.cast_pow]
      ring
  rw [bytesToFr, hfold, zero_mul, zero_add]

theorem toNat_toFr (c : ScalarField) : Scalar.toNat (toFr c) = c.val := PrimeField.val_reduce (ZMod.val_lt c)

theorem toFr_injective : Function.Injective toFr := by
  intro c c' h
  have hval := congrArg Scalar.toNat h
  rw [toNat_toFr, toNat_toFr] at hval
  exact ZMod.val_injective _ hval

theorem toFr_natCast (n : Nat) : toFr n = .reduce n := by
  apply PrimeField.ext_val
  rw [toFr, ZMod.val_natCast]
  exact Nat.mod_mod n _

/-- Away from the point at infinity the two challenges are the same number. -/
theorem challenge_eq {g pk gId q r1 r2 : G1} (h : ∀ p ∈ [g, pk, gId, q, r1, r2], p ≠ 0) (infinity : Fq × Fq) :
    (noirBn254 P infinity).challenge [g, pk, gId, q, r1, r2] = toFr (fiatShamirChallenge P g pk gId q r1 r2) := by
  have hbytes := serialize_eq h rfl infinity
  have hlength : (serialize infinity [g, pk, gId, q, r1, r2]).length = 384 := by
    rw [hbytes, length_flatMap_chunk fun p : G1 => length_coordinateBytes p.affine]
    simp only [List.length_cons, List.length_nil]
  rw [fiatShamirChallenge_eq, ← hbytes, ← sha256_384_eq hlength, bytesToFr_eq, toFr_natCast]
  exact Civic.foldl_horner _

theorem frToFq_fqToFr {fq : Fq} (h : fq.val < Civic.bn254) : frToFq (fqToFr fq) = fq := by
  rw [frToFq, fqToFr, PrimeField.val_reduce h, ZMod.natCast_zmod_val]

theorem ofCoordinates_affine {p : G1} (h : p ≠ 0) : G1.ofCoordinates p.affine.1 p.affine.2 = some p := by
  rw [G1.ofCoordinates_eq_some]
  cases p with
  | zero => exact absurd rfl h
  | some x y hp => rfl

theorem point_eq {p : G1} (h : p.BelowScalars) (infinity : Fq × Fq) :
    (noirBn254 P infinity).point (fqToFr p.affine.1) (fqToFr p.affine.2) = some p := by
  change G1.ofCoordinates _ _ = some p
  rw [frToFq_fqToFr h.x_lt, frToFq_fqToFr h.y_lt, ofCoordinates_affine h.ne_zero]

theorem linearExpression_eq (z c : ScalarField) (p q : G1) :
    linearExpression (toFr z) (toFr c) p q = z.val • p + c.val • q := by
  rw [linearExpression, toNat_toFr, toNat_toFr, add_zero]

/-! ## Agreement -/

theorem verifyInCircuit_eq_ok {pk gId q : G1} {proof : DleqProof} (hpk : pk.BelowScalars) (hgId : gId.BelowScalars)
    (hq : q.BelowScalars) (infinity : Fq × Fq) : verifyInCircuit P infinity pk gId q proof = .ok () ↔
      toFr proof.c = (noirBn254 P infinity).challenge [G1.generator, pk, gId, q,
        proof.z.val • G1.generator + proof.c.val • pk, proof.z.val • gId + proof.c.val • q] := by
  simp only [verifyInCircuit, verifyChaumPedersen, point_eq hpk, point_eq hgId, point_eq hq, linearExpression_eq]
  exact noirAssert_eq_ok

theorem generator_ne_zero : G1.generator ≠ 0 := WeierstrassCurve.Affine.Point.some_ne_zero _

/-- The check of `verify_dleq` and that of the circuit, away from the point at infinity. -/
theorem verifyDleq_iff {pk gId q : G1} {proof : DleqProof} (hpk : pk.BelowScalars) (hgId : gId.BelowScalars)
    (hq : q.BelowScalars) (hr1 : proof.z.val • G1.generator + proof.c.val • pk ≠ 0)
    (hr2 : proof.z.val • gId + proof.c.val • q ≠ 0) (infinity : Fq × Fq) :
    verifyDleq P pk gId q proof = true ↔ verifyInCircuit P infinity pk gId q proof = .ok () := by
  have hpoints : ∀ p ∈ [G1.generator, pk, gId, q, proof.z.val • G1.generator + proof.c.val • pk,
      proof.z.val • gId + proof.c.val • q], p ≠ 0 := by
    simp only [List.forall_mem_cons, List.not_mem_nil, false_imp_iff, implies_true, and_true]
    exact ⟨generator_ne_zero, hpk.ne_zero, hgId.ne_zero, hq.ne_zero, hr1, hr2⟩
  rw [verifyInCircuit_eq_ok hpk hgId hq, challenge_eq hpoints, toFr_injective.eq_iff, verifyDleq, decide_eq_true_iff]

/-- Scalars act on the points. -/
instance instModuleG1 : Module ScalarField G1 := AddCommGroup.zmodModule nsmul_bn254

theorem val_nsmul (c : ScalarField) (p : G1) : c.val • p = c • p := by
  rw [← Nat.cast_smul_eq_nsmul ScalarField, ZMod.natCast_zmod_val]

/-- An honest proof has the commitments to its nonce. -/
theorem commitment_proveDleq (secret k c : ScalarField) (p : G1) :
    (k - c * secret).val • p + c.val • secret.val • p = k.val • p := by
  rw [val_nsmul, val_nsmul, val_nsmul, val_nsmul, sub_smul, mul_smul, sub_add_cancel]

theorem verifyDleq_proveDleq (secret k : ScalarField) (gId : G1) :
    verifyDleq P (secret.val • G1.generator) gId (proveDleq P secret gId k).1 (proveDleq P secret gId k).2 = true := by
  simp only [verifyDleq, proveDleq, commitment_proveDleq, decide_true]

theorem val_nsmul_ne_zero {k : ScalarField} {p : G1} (hk : k ≠ 0) (hp : p ≠ 0) : k.val • p ≠ 0 := by
  rw [val_nsmul]
  exact smul_ne_zero hk hp

variable (P)

/-- `verify_dleq` and the circuit accept the same proofs, honest ones among them, and hash every transcript alike. -/
theorem dleq_agrees (infinity : Fq × Fq) :
    (∀ (pk gId q : G1) (proof : DleqProof), pk.BelowScalars → gId.BelowScalars → q.BelowScalars →
      proof.z.val • G1.generator + proof.c.val • pk ≠ 0 → proof.z.val • gId + proof.c.val • q ≠ 0 →
      (verifyDleq P pk gId q proof = true ↔ verifyInCircuit P infinity pk gId q proof = .ok ())) ∧
    (∀ (secret k : ScalarField) (gId : G1), k ≠ 0 → G1.BelowScalars (secret.val • G1.generator) →
      gId.BelowScalars → G1.BelowScalars (secret.val • gId) → (proveDleq P secret gId k).1 = secret.val • gId ∧
      verifyDleq P (secret.val • G1.generator) gId (proveDleq P secret gId k).1 (proveDleq P secret gId k).2 = true ∧
      verifyInCircuit P infinity (secret.val • G1.generator) gId (proveDleq P secret gId k).1
        (proveDleq P secret gId k).2 = .ok ()) ∧
    ∀ transcript : List UInt8, transcript.length = 384 → sha256_384 P transcript = (P.sha256 transcript).1 := by
  refine ⟨fun pk gId q proof hpk hgId hq hr1 hr2 => verifyDleq_iff hpk hgId hq hr1 hr2 infinity, ?_,
    fun transcript h => sha256_384_eq h⟩
  intro secret k gId hk hpk hgId hq
  have haccepted : verifyDleq P (secret.val • G1.generator) gId _ (proveDleq P secret gId k).2 = true :=
    verifyDleq_proveDleq secret k gId
  refine ⟨rfl, haccepted, (verifyDleq_iff hpk hgId hq ?_ ?_ infinity).mp haccepted⟩
  · simp only [proveDleq, commitment_proveDleq]
    exact val_nsmul_ne_zero hk generator_ne_zero
  · simp only [proveDleq, commitment_proveDleq]
    exact val_nsmul_ne_zero hk hgId.ne_zero

namespace Sample

def blackBoxes : Rails.Primitives where
  sha256Compression _ state := state
  keccakf1600 state := state
  verifySignature _ _ _ _ := true

theorem belowScalars_generator : G1.generator.BelowScalars where
  ne_zero := generator_ne_zero
  x_lt := by
    change ((1 : Nat) : Fq).val < _
    rw [ZMod.val_cast_of_lt (by decide)]
    decide
  y_lt := by
    change ((2 : Nat) : Fq).val < _
    rw [ZMod.val_cast_of_lt (by decide)]
    decide

end Sample

open Sample

/-- With the generator for all three points. -/
theorem dleq_agrees_generator : (verifyDleq blackBoxes G1.generator G1.generator G1.generator ⟨1, 0⟩ = true ↔
      verifyInCircuit blackBoxes (0, 0) G1.generator G1.generator G1.generator ⟨1, 0⟩ = .ok ()) ∧
    verifyInCircuit blackBoxes (0, 0) ((1 : ScalarField).val • G1.generator) G1.generator
      (proveDleq blackBoxes 1 G1.generator 1).1 (proveDleq blackBoxes 1 G1.generator 1).2 = .ok () ∧
    sha256_384 blackBoxes (List.replicate 384 0) = (blackBoxes.sha256 (List.replicate 384 0)).1 := by
  have hone : (1 : ScalarField).val • G1.generator = G1.generator := by rw [val_nsmul, one_smul]
  have hzero : (0 : ScalarField).val • G1.generator = 0 := by rw [ZMod.val_zero, zero_nsmul]
  have hsum : (0 : ScalarField).val • G1.generator + (1 : ScalarField).val • G1.generator ≠ 0 := by
    rw [hzero, hone, zero_add]
    exact generator_ne_zero
  have hbelow : G1.BelowScalars ((1 : ScalarField).val • G1.generator) := hone.symm ▸ belowScalars_generator
  obtain ⟨hiff, hprove, hhash⟩ := dleq_agrees blackBoxes (0, 0)
  refine ⟨hiff _ _ _ ⟨1, 0⟩ belowScalars_generator belowScalars_generator
    belowScalars_generator hsum hsum, ?_, hhash _ List.length_replicate⟩
  exact (hprove 1 1 G1.generator one_ne_zero hbelow belowScalars_generator hbelow).2.2

end Pocs.Identity
