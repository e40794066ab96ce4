import Pocs.Compliance.Gadgets

/-! # The gadgets of the money market fund's circuits

`note.nr`, `owner.nr`, `lock.nr`, `plan.nr`, `feed.nr` and `attestation.nr` of the shielded notes. The
two permutations, the embedded curve and the signature check are fields of `Primitives`. -/

namespace Pocs.Mmf

open Compliance (BnField Ideal MerklePath merkleVerify assertMaxBitSize ofU64 u64Add u64Mul)

/-- The register feed adds a keystream to its fields and takes it off again. -/
class FeedField (F : Type) extends BnField F where
  add : F → F → F
  sub : F → F → F
  sub_add : ∀ a b, sub (add a b) b = a
  sub_inj : ∀ {a b c}, sub a b = sub a c → b = c

instance : FeedField Civic.Fr where
  add a b := a + b
  sub a b := PrimeField.reduce (a.val + (Civic.bn254 - b.val))
  sub_add a b := by
    have ha := a.isLt
    have hb := b.isLt
    apply PrimeField.ext_val
    show ((a.val + b.val) % Civic.bn254 + (Civic.bn254 - b.val)) % Civic.bn254 = a.val
    rw [Nat.mod_add_mod, show a.val + b.val + (Civic.bn254 - b.val) = a.val + Civic.bn254 by omega,
      Nat.add_mod_right, Nat.mod_eq_of_lt ha]
  sub_inj {a b c} h := by
    have hb := b.isLt
    have hc := c.isLt
    have hval : (a.val + (Civic.bn254 - b.val)) % Civic.bn254 =
        (a.val + (Civic.bn254 - c.val)) % Civic.bn254 := congrArg PrimeField.val h
    have hmod : Civic.bn254 - b.val ≡ Civic.bn254 - c.val [MOD Civic.bn254] :=
      Nat.ModEq.add_left_cancel' a.val hval
    apply PrimeField.ext_val
    rcases Nat.lt_trichotomy b.val c.val with hlt | heq | hlt
    · have hdvd := (Nat.modEq_iff_dvd' (by omega)).mp hmod.symm
      have hle := Nat.le_of_dvd (by omega) hdvd
      omega
    · exact heq
    · have hdvd := (Nat.modEq_iff_dvd' (by omega)).mp hmod
      have hle := Nat.le_of_dvd (by omega) hdvd
      omega

/-- The unbounded carrier as a group of bit strings. -/
instance : FeedField Unbounded where
  add a b := ⟨a.val ^^^ b.val⟩
  sub a b := ⟨a.val ^^^ b.val⟩
  sub_add a b := congrArg Unbounded.mk (Nat.xor_xor_cancel_right _ _)
  sub_inj {a b c} h := by
    cases b
    cases c
    exact congrArg Unbounded.mk (Nat.xor_right_inj.mp (Unbounded.mk.inj h))

/-! ## Hashes, the curve and signatures -/

/-- An ECDSA public key, two 32-byte big-endian coordinates. -/
structure SpendKey where
  x : Bytes 32
  y : Bytes 32

/-- The group of the register feed. A point is its affine coordinates; infinity is `(0, 0)`. -/
structure Curve (F : Type) where
  generator : F × F
  mul : Nat → F × F → F × F

/-- `fixed_base_scalar_mul`. -/
def Curve.fixedBaseMul {F : Type} (E : Curve F) (s : Nat) : F × F := E.mul s E.generator

/-- Multiples of one point by multiples of another agree. -/
def Curve.Commutes {F : Type} (E : Curve F) : Prop :=
  ∀ a b, E.mul a (E.fixedBaseMul b) = E.mul b (E.fixedBaseMul a)

/-- The hashes, the curve and the signatures of the circuits. -/
structure Primitives (F : Type) where
  /-- Poseidon of one to five elements. -/
  hash : List F → F
  /-- The sponge of longer messages. -/
  sponge : List F → F
  curve : Curve F
  /-- `ecdsa_secp256k1::verify_signature` of the big-endian bytes of a digest. -/
  ecdsa : SpendKey → Bytes 64 → F → Bool

variable {F : Type} [FeedField F] (P : Primitives F)

/-! ## `domain.nr` -/

def nkTag : F := Scalar.ofNat 1461501637330902918203684832716283019655932542992
def ownerTag : F := Scalar.ofNat 1461501637330902918203684832716283019655932542993
def lockTag : F := Scalar.ofNat 1461501637330902918203684832716283019655932542994
def planTag : F := Scalar.ofNat 1461501637330902918203684832716283019655932542995
def feedTag : F := Scalar.ofNat 1461501637330902918203684832716283019655932542996

def opDeposit : F := Scalar.ofNat 1
def opTransfer : F := Scalar.ofNat 2
def opWithdraw : F := Scalar.ofNat 3
def pathOwner : F := Scalar.ofNat 0
def pathClaim : F := Scalar.ofNat 1

def lockFreeze : F := Scalar.ofNat 1
def lockHold : F := Scalar.ofNat 2

def maxCommitmentTreeDepth : Nat := 32
def maxAttestationTreeDepth : Nat := 20
def epochSeconds : UInt64 := 86400
def feedFields : Nat := 8

/-! ## `lock.nr` -/

/-- A lock's terms; the note stores only their hash. -/
structure LockOpening (F : Type) where
  reason : F
  releaseAfter : UInt64
  claimParty : F

def noLock : LockOpening F := ⟨0, 0, 0⟩

def lockValue (opening : LockOpening F) : F :=
  P.hash [lockTag, opening.reason, ofU64 opening.releaseAfter, opening.claimParty]

def checkInput (lock : F) (opening : LockOpening F) (epoch : UInt64) : Except String Unit := do
  if lock ≠ 0 then
    require (lockValue P opening = lock) "lock opening mismatch"
    require (epoch ≥ opening.releaseAfter) "note is locked"

def checkTerms (lock : F) (terms : LockOpening F) : Except String Unit := do
  if lock = 0 then
    require (terms.reason = 0 ∧ terms.releaseAfter = 0 ∧ terms.claimParty = 0) "lock terms mismatch"
  else
    require (lockValue P terms = lock) "lock terms mismatch"
    require (terms.reason = lockFreeze ∨ terms.reason = lockHold) "lock terms mismatch"

/-! ## `note.nr` -/

/-- Units of the fund, with an owner and a lock. -/
@[ext]
structure Note (F : Type) where
  token : F
  units : UInt64
  owner : F
  salt : F
  lock : F

def Note.fields (note : Note F) : List F :=
  [note.token, ofU64 note.units, note.owner, note.salt, note.lock]

def Note.commitment (note : Note F) : F := P.hash note.fields

/-- `nullifier`, the same on the owner and the claim path. -/
def nullifier (commitment nk : F) : F := P.hash [commitment, nk]

structure InputNote (F : Type) where
  units : UInt64
  salt : F
  lock : F
  lockOpening : LockOpening F
  path : MerklePath F maxCommitmentTreeDepth

def InputNote.note (input : InputNote F) (token owner : F) : Note F :=
  ⟨token, input.units, owner, input.salt, input.lock⟩

/-! ## `owner.nr` -/

/-- Sixteen big-endian bytes from `start`; below `2 ^ 128`, so the arithmetic does not wrap. -/
def limb (bytes : Bytes 32) (start : Nat) : F :=
  Scalar.ofNat (beToNat ((bytes.1.drop start).take 16))

def keyHash (key : SpendKey) : F :=
  P.hash [limb key.x 0, limb key.x 16, limb key.y 0, limb key.y 16]

def nkHash (nk : F) : F := P.hash [nkTag, nk]

def ownerValue (key : SpendKey) (nk : F) : F := P.hash [ownerTag, keyHash P key, nkHash P nk]

/-! ## `plan.nr` -/

/-- The values a custody signer approves; unused slots are zero. -/
structure Plan (F : Type) where
  chainId : F
  pool : F
  op : F
  path : F
  nullifiers : F × F
  outputs : F × F
  publicUnits : F
  recipient : F
  expiry : UInt64

def Plan.message (p : Plan F) : List F :=
  [planTag, p.chainId, p.pool, p.op, p.path, p.nullifiers.1, p.nullifiers.2, p.outputs.1,
    p.outputs.2, p.publicUnits, p.recipient, ofU64 p.expiry]

def Plan.digest (p : Plan F) : F := P.sponge p.message

def checkExpiry (epoch expiry : UInt64) : Except String Unit := do
  let next ← u64Add epoch 1
  let ends ← u64Mul next epochSeconds
  require (ends ≤ expiry) "plan expired"

def verifySignature (key : SpendKey) (signature : Bytes 64) (planDigest : F) : Except String Unit :=
  require (P.ecdsa key signature planDigest = true) "invalid plan signature"

/-! ## `feed.nr` -/

/-- The sender's ephemeral scalar, two 128-bit limbs. -/
structure FeedSecret (F : Type) where
  lo : F
  hi : F

def scalar (secret : FeedSecret F) : Except String Nat := do
  assertMaxBitSize 128 secret.lo
  assertMaxBitSize 128 secret.hi
  pure (Scalar.toNat secret.lo + 2 ^ 128 * Scalar.toNat secret.hi)

def feedKey (shared : F × F) : F := P.hash [feedTag, shared.1, shared.2]

/-- `R = r * G`, and the key of `r * tpk`. -/
def derive (secret : FeedSecret F) (registerKey : F × F) : Except String ((F × F) × F) := do
  let r ← scalar secret
  let bigR := P.curve.fixedBaseMul r
  require (bigR.1 ≠ 0 ∨ bigR.2 ≠ 0) "feed point at infinity"
  pure (bigR, feedKey P (P.curve.mul r registerKey))

def feedRecord (note : Note F) (terms : LockOpening F) : Fin feedFields → F :=
  ![note.token, ofU64 note.units, note.owner, note.salt, note.lock, terms.reason,
    ofU64 terms.releaseAfter, terms.claimParty]

/-- The keystream of output `j`. -/
def keystream (k : F) (j : Nat) (i : Fin feedFields) : F :=
  P.hash [k, Scalar.ofNat (feedFields * j + i.val)]

def encrypt (k : F) (note : Note F) (terms : LockOpening F) (j : Nat) (i : Fin feedFields) : F :=
  FeedField.add (feedRecord note terms i) (keystream P k j i)

/-- The agent's side: the key of `tk * R`, and the keystream taken off. -/
def decrypt (tk : Nat) (feedR : F × F) (ct : Fin feedFields → F) (j : Nat) (i : Fin feedFields) : F :=
  FeedField.sub (ct i) (keystream P (feedKey P (P.curve.mul tk feedR)) j i)

/-! ## `attestation.nr` -/

structure AttestationWitness (F : Type) where
  attester : F
  generation : UInt64
  issuedAt : UInt64
  expiresAt : UInt64
  path : MerklePath F maxAttestationTreeDepth

def attestationLeaf (owner : F) (w : AttestationWitness F) : F :=
  P.hash [owner, w.attester, ofU64 w.generation, ofU64 w.issuedAt, ofU64 w.expiresAt]

/-- `attestation::verify`. -/
def attestationVerify (owner : F) (w : AttestationWitness F) (epoch minAcceptedGeneration : UInt64)
    (attestationRoot : F) : Except String Unit := do
  require (w.path.proofLength ≤ maxAttestationTreeDepth) "Failed constraint"
  merkleVerify P.hash (attestationLeaf P owner w) attestationRoot w.path
  let next ← u64Add epoch 1
  let ends ← u64Mul next epochSeconds
  require (ends ≤ w.expiresAt) "attestation expired"
  require (w.generation ≥ minAcceptedGeneration) "attestation generation retired"

/-! ## What the hashes bind -/

variable {P}

namespace Note
variable {note note' : Note F}

theorem commitment_inj (H : Ideal P.hash) (h : note.commitment P = note'.commitment P) : note = note' := by
  obtain ⟨htoken, hunits, howner, hsalt, hlock⟩ := H.hash5_inj h
  exact Note.ext htoken (Compliance.ofU64_inj hunits) howner hsalt hlock

theorem commitment_ne_node (H : Ideal P.hash) (l r : F) :
    note.commitment P ≠ Compliance.merkleHash P.hash l r :=
  H.ne_of_length (by simp [fields]) (List.cons_ne_nil _ _) (Nat.le_refl _) (by simp) (by simp)

theorem commitment_ne_lockValue (H : Ideal P.hash) (terms : LockOpening F) :
    note.commitment P ≠ lockValue P terms :=
  H.ne_of_length (by simp [fields]) (List.cons_ne_nil _ _) (Nat.le_refl _) (by simp) (by simp)

end Note

theorem lockValue_inj (H : Ideal P.hash) {terms terms' : LockOpening F}
    (h : lockValue P terms = lockValue P terms') : terms = terms' := by
  obtain ⟨-, hreason, hrelease, hparty⟩ := H.hash4_inj h
  cases terms
  cases terms'
  cases hreason
  cases hparty
  cases Compliance.ofU64_inj hrelease
  rfl

theorem lockValue_ne_zero (H : Ideal P.hash) (terms : LockOpening F) : lockValue P terms ≠ 0 :=
  H.ne_zero (List.cons_ne_nil _ _) (by simp)

/-- An owner value binds its nullifier key. -/
theorem nk_of_ownerValue (H : Ideal P.hash) {key key' : SpendKey} {nk nk' : F}
    (h : ownerValue P key nk = ownerValue P key' nk') : nk = nk' :=
  (H.hash2_inj (H.hash3_inj h).2.2).2

theorem limb_inj {a b : Bytes 32} (h0 : (limb a 0 : F) = limb b 0)
    (h16 : (limb a 16 : F) = limb b 16) : a = b := by
  have hlen : ∀ (c : Bytes 32) (start : Nat), start ≤ 16 →
      ((c.1.drop start).take 16).length = 16 := fun c start hs => by
    rw [List.length_take, List.length_drop, c.2]
    omega
  have hhalf : ∀ {start : Nat}, start ≤ 16 → (limb a start : F) = limb b start →
      (a.1.drop start).take 16 = (b.1.drop start).take 16 := by
    intro start hs h
    have hlt : ∀ c : Bytes 32, beToNat ((c.1.drop start).take 16) < 2 ^ 161 := fun c => by
      have hbound := beToNat_lt ((c.1.drop start).take 16)
      rw [hlen c start hs] at hbound
      exact hbound.trans (by decide)
    exact beToNat_inj (by rw [hlen a start hs, hlen b start hs])
      (BnField.ofNat_inj (hlt a) (hlt b) h)
  have hdrop : ∀ c : Bytes 32, c.1 = (c.1.drop 0).take 16 ++ (c.1.drop 16).take 16 := fun c => by
    have hrest : (c.1.drop 16).take 16 = c.1.drop 16 :=
      List.take_of_length_le (by rw [List.length_drop, c.2])
    rw [hrest, List.drop_zero, List.take_append_drop]
  apply Subtype.ext
  rw [hdrop a, hdrop b, hhalf (Nat.zero_le _) h0, hhalf (Nat.le_refl _) h16]

theorem keyHash_inj (H : Ideal P.hash) {key key' : SpendKey}
    (h : keyHash P key = keyHash P key') : key = key' := by
  obtain ⟨hx0, hx16, hy0, hy16⟩ := H.hash4_inj h
  cases key
  cases key'
  cases limb_inj hx0 hx16
  cases limb_inj hy0 hy16
  rfl

theorem key_of_ownerValue (H : Ideal P.hash) {key key' : SpendKey} {nk nk' : F}
    (h : ownerValue P key nk = ownerValue P key' nk') : key = key' :=
  keyHash_inj H (H.hash3_inj h).2.1

theorem Plan.message_inj {p q : Plan F} (h : p.message = q.message) : p = q := by
  obtain ⟨_, _, _, _, ⟨_, _⟩, ⟨_, _⟩, _, _, _⟩ := p
  obtain ⟨_, _, _, _, ⟨_, _⟩, ⟨_, _⟩, _, _, _⟩ := q
  simp only [message, List.cons.injEq, and_true, true_and] at h
  obtain ⟨rfl, rfl, rfl, rfl, rfl, rfl, rfl, rfl, rfl, rfl, h⟩ := h
  cases Compliance.ofU64_inj h
  rfl

/-! ## What the checks enforce -/

/-- The current epoch ends by `t`. -/
def EndsBy (epoch t : UInt64) : Prop := (epoch.toNat + 1) * 86400 ≤ t.toNat

theorem endsBy_of_ok {epoch next ends t : UInt64} (hnext : u64Add epoch 1 = .ok next)
    (hends : u64Mul next epochSeconds = .ok ends) (h : ends ≤ t) : EndsBy epoch t := by
  have hmul := Compliance.toNat_of_u64Mul hends
  have hadd := Compliance.toNat_of_u64Add hnext
  have hle : ends.toNat ≤ t.toNat := h
  rw [hmul, hadd] at hle
  exact hle

theorem checkExpiry_ok {epoch expiry : UInt64} (h : checkExpiry epoch expiry = .ok ()) :
    EndsBy epoch expiry := by
  simp only [checkExpiry, bind_eq_ok, require_eq_ok] at h
  obtain ⟨next, hnext, ends, hends, hle⟩ := h
  exact endsBy_of_ok hnext hends hle

/-- What `check_input` enforces of a locked note. -/
theorem checkInput_ok {lock : F} {opening : LockOpening F} {epoch : UInt64}
    (h : checkInput P lock opening epoch = .ok ()) (hlock : lock ≠ 0) :
    lockValue P opening = lock ∧ opening.releaseAfter ≤ epoch := by
  simpa only [checkInput, if_pos hlock, bind_eq_ok, require_eq_ok, exists_const] using h

/-- The terms of a lock: those of an unlocked note are zero. -/
structure Terms (P : Primitives F) (lock : F) (terms : LockOpening F) : Prop where
  unlocked : lock = 0 → terms = noLock
  locked : lock ≠ 0 → lockValue P terms = lock ∧ (terms.reason = lockFreeze ∨ terms.reason = lockHold)

theorem checkTerms_ok {lock : F} {terms : LockOpening F} (h : checkTerms P lock terms = .ok ()) :
    Terms P lock terms := by
  by_cases hlock : lock = 0
  · simp only [checkTerms, if_pos hlock, require_eq_ok] at h
    obtain ⟨hreason, hrelease, hparty⟩ := h
    refine ⟨fun _ => ?_, fun hne => absurd hlock hne⟩
    cases terms
    cases hreason
    cases hrelease
    cases hparty
    rfl
  · simp only [checkTerms, if_neg hlock, bind_eq_ok, require_eq_ok, exists_const] at h
    exact ⟨fun he => absurd he hlock, fun _ => h⟩

/-- The witness shows a current attestation of the owner under the root. -/
structure AttestationOk (P : Primitives F) (owner : F) (w : AttestationWitness F)
    (epoch minAcceptedGeneration : UInt64) (attestationRoot : F) : Prop where
  included : merkleVerify P.hash (attestationLeaf P owner w) attestationRoot w.path = .ok ()
  current : EndsBy epoch w.expiresAt
  generation : minAcceptedGeneration ≤ w.generation

theorem attestationVerify_ok {owner : F} {w : AttestationWitness F}
    {epoch minAcceptedGeneration : UInt64} {attestationRoot : F}
    (h : attestationVerify P owner w epoch minAcceptedGeneration attestationRoot = .ok ()) :
    AttestationOk P owner w epoch minAcceptedGeneration attestationRoot := by
  simp only [attestationVerify, bind_eq_ok, require_eq_ok] at h
  obtain ⟨_, -, _, hincluded, next, hnext, ends, hends, _, hle, hgeneration⟩ := h
  exact ⟨hincluded, endsBy_of_ok hnext hends hle, hgeneration⟩

theorem derive_ok {secret : FeedSecret F} {registerKey feedR : F × F} {k : F}
    (h : derive P secret registerKey = .ok (feedR, k)) : ∃ r,
      feedR = P.curve.fixedBaseMul r ∧ k = feedKey P (P.curve.mul r registerKey) := by
  simp only [derive, bind_eq_ok, require_eq_ok, pure_eq_ok, exists_const, Prod.mk.injEq] at h
  obtain ⟨r, -, -, hR, hk⟩ := h
  exact ⟨r, hR.symm, hk.symm⟩

/-- The holder of the register key reads what the sender encrypted. -/
theorem decrypt_encrypt (hE : P.curve.Commutes) {secret : FeedSecret F} {tk : Nat} {feedR : F × F}
    {k : F} (h : derive P secret (P.curve.fixedBaseMul tk) = .ok (feedR, k)) (note : Note F)
    (terms : LockOpening F) (j : Nat) :
    decrypt P tk feedR (encrypt P k note terms j) j = feedRecord note terms := by
  obtain ⟨r, rfl, rfl⟩ := derive_ok h
  funext i
  rw [decrypt, encrypt, hE]
  exact FeedField.sub_add _ _

/-- Keys that take the same element out of a ciphertext are equal. -/
theorem keystream_inj (H : Ideal P.hash) {a k k' : F} {j : Nat} {i : Fin feedFields}
    (h : FeedField.sub a (keystream P k j i) = FeedField.sub a (keystream P k' j i)) : k = k' :=
  (H.hash2_inj (FeedField.sub_inj h)).1

end Pocs.Mmf
