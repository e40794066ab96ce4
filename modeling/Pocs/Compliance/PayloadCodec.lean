import Pocs.Lib.Reader
import Pocs.Compliance.Domain

/-! # Decoding payloads

`Payload::decode` of `payload.rs` over its cursor, which is kept as the bytes that are not read yet. The
element reader accepts the encodings of elements and nothing else (`reads_decodeElement`), but the bytes
behind the last element are not looked at. -/

namespace Pocs.Compliance.Client

namespace Cursor

def readBytes (len : Nat) : Reader CryptoError (List UInt8) := Pocs.readBytes .malformedCiphertext len

def readU8 : Reader CryptoError UInt8 := fun cursor => do
  let (bytes, cursor) ← readBytes 1 cursor
  pure (bytes.getD 0 0, cursor)

def readU32 : Reader CryptoError Nat := readNat .malformedCiphertext 4

def readU64 : Reader CryptoError UInt64 := fun cursor => do
  let (n, cursor) ← readNat .malformedCiphertext 8 cursor
  pure (UInt64.ofNat n, cursor)

end Cursor

/-- The discriminator, and the version behind `0x03`. -/
def PayloadKind.decode : Reader CryptoError PayloadKind := fun cursor => do
  let (tag, cursor) ← Cursor.readU8 cursor
  if tag = 0x01 then pure (.valueNote, cursor)
  else if tag = 0x02 then pure (.complianceNoteToOwner, cursor)
  else if tag = 0x03 then
    let (committeeVersion, cursor) ← Cursor.readU64 cursor
    pure (.complianceNoteToCommittee committeeVersion, cursor)
  else .error .malformedCiphertext

/-- One round of the loop of `decode`. -/
def PayloadElement.decode : Reader CryptoError PayloadElement := fun cursor => do
  let (kind, cursor) ← PayloadKind.decode cursor
  let (len, cursor) ← Cursor.readU32 cursor
  let (ciphertext, cursor) ← Cursor.readBytes len cursor
  pure (⟨kind, ciphertext⟩, cursor)

def Payload.decode (bytes : List UInt8) : Except CryptoError Payload := do
  let (count, cursor) ← Cursor.readU32 bytes
  let (elements, _) ← readMany PayloadElement.decode count cursor
  pure elements

/-- The length of the element at the front of a byte string, by its header. -/
def elementLen (bytes : List UInt8) : Nat :=
  let header := if bytes.getD 0 0 = 0x03 then 9 else 1
  header + 4 + beToNat (slice bytes header 4)

def elementsLen : Nat → List UInt8 → Nat
  | 0, _ => 0
  | n + 1, bytes => elementLen bytes + elementsLen n (bytes.drop (elementLen bytes))

/-- The length a byte string announces by its count and the headers of its elements. -/
def framedLen (bytes : List UInt8) : Nat := 4 + elementsLen (beToNat (bytes.take 4)) (bytes.drop 4)

/-! ## The readers -/

def PayloadElement.encode (self : PayloadElement) : List UInt8 :=
  self.kind.tag :: self.kind.versionBytes ++ beOfNat 4 self.ciphertext.length ++ self.ciphertext

theorem Payload.encode_eq (p : Payload) : p.encode = beOfNat 4 p.length ++ p.flatMap PayloadElement.encode :=
  rfl

namespace Cursor

theorem reads_readU8 : Reads readU8 (fun b => [b]) fun _ => True where
  complete := by
    intro b _ rest
    rfl
  sound := by
    intro bytes b rest h
    simp only [readU8, bind_eq_ok, pure_eq_ok, Prod.exists, Prod.mk.injEq] at h
    obtain ⟨bs, _, hread, rfl, rfl⟩ := h
    obtain ⟨hlen, rfl⟩ := (reads_readBytes 1).sound hread
    obtain ⟨b, rfl⟩ := List.length_eq_one_iff.mp hlen
    exact ⟨trivial, rfl⟩

theorem reads_readU64 : Reads readU64 (fun v => beOfNat 8 v.toNat) fun _ => True where
  complete := by
    intro v _ rest
    rw [readU64, (reads_readNat 8).complete (show v.toNat < 256 ^ 8 from v.toNat_lt), ok_bind, pure_eq_ok,
      UInt64.ofNat_toNat]
  sound := by
    intro bytes v rest h
    simp only [readU64, bind_eq_ok, pure_eq_ok, Prod.exists, Prod.mk.injEq] at h
    obtain ⟨n, _, hread, rfl, rfl⟩ := h
    obtain ⟨hlt, rfl⟩ := (reads_readNat 8).sound hread
    have hn : n < 2 ^ 64 := by omega
    rw [UInt64.toNat_ofNat', Nat.mod_eq_of_lt hn]
    exact ⟨trivial, rfl⟩

end Cursor

theorem reads_decodeKind : Reads PayloadKind.decode PayloadKind.aad fun _ => True where
  complete := by
    intro kind _ rest
    have hrest : kind.aad ++ rest = [kind.tag] ++ (kind.versionBytes ++ rest) := rfl
    rw [hrest, PayloadKind.decode, Cursor.reads_readU8.complete trivial, ok_bind]
    cases kind with
    | valueNote => rfl
    | complianceNoteToOwner => rfl
    | complianceNoteToCommittee version =>
      simp only [PayloadKind.tag, PayloadKind.versionBytes, Cursor.reads_readU64.complete trivial, ok_bind]
      rfl
  sound := by
    intro bytes kind rest h
    simp only [PayloadKind.decode, bind_eq_ok, Prod.exists] at h
    obtain ⟨tag, cursor, hread, h⟩ := h
    obtain ⟨-, rfl⟩ := Cursor.reads_readU8.sound hread
    refine ⟨trivial, ?_⟩
    split at h
    · next htag =>
      simp only [pure_eq_ok, Prod.mk.injEq] at h
      obtain ⟨rfl, rfl⟩ := h
      rw [htag]
      rfl
    split at h
    · next htag =>
      simp only [pure_eq_ok, Prod.mk.injEq] at h
      obtain ⟨rfl, rfl⟩ := h
      rw [htag]
      rfl
    split at h
    · next htag =>
      simp only [bind_eq_ok, pure_eq_ok, Prod.exists, Prod.mk.injEq] at h
      obtain ⟨version, _, hversion, rfl, rfl⟩ := h
      obtain ⟨-, rfl⟩ := Cursor.reads_readU64.sound hversion
      rw [htag]
      rfl
    · cases h

theorem reads_decodeElement :
    Reads PayloadElement.decode PayloadElement.encode fun e => e.ciphertext.length < 2 ^ 32 where
  complete := by
    intro e he rest
    have hbytes : e.encode ++ rest = e.kind.aad ++ (beOfNat 4 e.ciphertext.length ++ (e.ciphertext ++ rest)) := by
      simp [PayloadElement.encode, PayloadKind.aad]
    have hlen : Cursor.readU32 (beOfNat 4 e.ciphertext.length ++ (e.ciphertext ++ rest)) =
        .ok (e.ciphertext.length, e.ciphertext ++ rest) := (reads_readNat 4).complete (by omega) _
    have hcipher : Cursor.readBytes e.ciphertext.length (e.ciphertext ++ rest) = .ok (e.ciphertext, rest) :=
      (reads_readBytes e.ciphertext.length).complete rfl rest
    rw [hbytes]
    simp only [PayloadElement.decode, bind_eq_ok, pure_eq_ok, Prod.exists]
    exact ⟨e.kind, _, reads_decodeKind.complete trivial _, _, _, hlen, _, _, hcipher, rfl⟩
  sound := by
    intro bytes e rest h
    simp only [PayloadElement.decode, bind_eq_ok, pure_eq_ok, Prod.exists, Prod.mk.injEq] at h
    obtain ⟨kind, _, hkind, len, _, hlen, ciphertext, _, hcipher, rfl, rfl⟩ := h
    obtain ⟨-, rfl⟩ := reads_decodeKind.sound hkind
    obtain ⟨hlt, rfl⟩ := (reads_readNat 4).sound hlen
    obtain ⟨rfl, rfl⟩ := (reads_readBytes len).sound hcipher
    exact ⟨by omega, by simp [PayloadElement.encode, PayloadKind.aad]⟩

/-! ## Payloads -/

/-- A payload is decoded from the byte strings that start with its encoding. -/
theorem Payload.decode_eq_ok {bytes : List UInt8} {p : Payload} : Payload.decode bytes = .ok p ↔
    (p.length < 2 ^ 32 ∧ ∀ e ∈ p, e.ciphertext.length < 2 ^ 32) ∧ ∃ rest, bytes = p.encode ++ rest := by
  simp only [Payload.decode, bind_eq_ok, pure_eq_ok, Prod.exists]
  constructor
  · rintro ⟨count, cursor, hcount, elements, rest, hmany, rfl⟩
    obtain ⟨hlt, rfl⟩ := (reads_readNat 4).sound hcount
    obtain ⟨⟨rfl, hshort⟩, rfl⟩ := (reads_decodeElement.many count).sound hmany
    exact ⟨⟨by omega, hshort⟩, rest, by rw [Payload.encode_eq, List.append_assoc]⟩
  · rintro ⟨⟨hlt, hshort⟩, rest, rfl⟩
    rw [Payload.encode_eq, List.append_assoc]
    exact ⟨p.length, _, (reads_readNat 4).complete (by omega) _, p, rest,
      (reads_decodeElement.many p.length).complete ⟨rfl, hshort⟩ rest, rfl⟩

/-- The header of an element announces its length. -/
theorem elementLen_encode {e : PayloadElement} (he : e.ciphertext.length < 2 ^ 32) (rest : List UInt8) :
    elementLen (e.encode ++ rest) = e.encode.length := by
  have hheader : (if (e.encode ++ rest).getD 0 0 = 0x03 then 9 else 1) = e.kind.aad.length := by
    obtain ⟨kind, ciphertext⟩ := e
    cases kind <;> rfl
  have hslice : slice (e.encode ++ rest) e.kind.aad.length 4 = beOfNat 4 e.ciphertext.length := by
    have hbytes : e.encode ++ rest = e.kind.aad ++ (beOfNat 4 e.ciphertext.length ++ (e.ciphertext ++ rest)) := by
      simp [PayloadElement.encode, PayloadKind.aad]
    rw [hbytes]
    exact slice_middle rfl (length_beOfNat _ _)
  have hlt : e.ciphertext.length < 256 ^ 4 := by omega
  simp only [elementLen]
  rw [hheader, hslice, beToNat_beOfNat, Nat.mod_eq_of_lt hlt]
  simp only [PayloadElement.encode, PayloadKind.aad, List.length_cons, List.length_append, length_beOfNat]

theorem elementsLen_encode {p : Payload} (hp : ∀ e ∈ p, e.ciphertext.length < 2 ^ 32) (rest : List UInt8) :
    elementsLen p.length (p.flatMap PayloadElement.encode ++ rest) =
      (p.flatMap PayloadElement.encode).length := by
  induction p with
  | nil => rfl
  | cons e p ih =>
    obtain ⟨he, hp⟩ := List.forall_mem_cons.mp hp
    rw [List.flatMap_cons, List.append_assoc, List.length_cons, elementsLen, elementLen_encode he,
      List.drop_left, ih hp, List.length_append]

/-- What was encoded is decoded; and a byte string that is decoded is the encoding of the result exactly
when it ends where its framing does. -/
theorem payload_canonical_iff (p : Payload) (bytes : List UInt8) :
    (p.length < 2 ^ 32 → (∀ e ∈ p, e.ciphertext.length < 2 ^ 32) → Payload.decode p.encode = .ok p) ∧
    (Payload.decode bytes = .ok p → (bytes = p.encode ↔ bytes.length = framedLen bytes)) := by
  constructor
  · intro hlt hshort
    exact Payload.decode_eq_ok.mpr ⟨⟨hlt, hshort⟩, [], (List.append_nil _).symm⟩
  · intro h
    obtain ⟨⟨hlt, hshort⟩, rest, rfl⟩ := Payload.decode_eq_ok.mp h
    have hcount : p.length < 256 ^ 4 := by omega
    have hframed : framedLen (p.encode ++ rest) = p.encode.length := by
      rw [framedLen, Payload.encode_eq, List.append_assoc, List.take_left' (length_beOfNat _ _),
        List.drop_left' (length_beOfNat _ _), beToNat_beOfNat, Nat.mod_eq_of_lt hcount,
        elementsLen_encode hshort, List.length_append, length_beOfNat]
    rw [hframed, List.append_right_eq_self, List.length_append]
    constructor
    · rintro rfl
      rfl
    · intro hrest
      exact List.eq_nil_of_length_eq_zero (by omega)

/-- One element of each kind. -/
def samplePayload : Payload :=
  [⟨.valueNote, [7, 8]⟩, ⟨.complianceNoteToOwner, []⟩, ⟨.complianceNoteToCommittee 258, [9]⟩]

/-- The encoding of `samplePayload`. -/
def sampleBytes : List UInt8 :=
  [0, 0, 0, 3, 1, 0, 0, 0, 2, 7, 8, 2, 0, 0, 0, 0, 3, 0, 0, 0, 0, 0, 0, 1, 2, 0, 0, 0, 1, 9]

/-- A byte behind the last element is accepted and lost. -/
theorem payload_trailing : samplePayload.encode = sampleBytes ∧ Payload.decode sampleBytes = .ok samplePayload ∧
    Payload.decode (sampleBytes ++ [7]) = .ok samplePayload ∧
    ¬ ∀ (bytes : List UInt8) (p : Payload), Payload.decode bytes = .ok p → bytes = p.encode := by
  have hdecode : Payload.decode (sampleBytes ++ [7]) = .ok samplePayload := by decide
  refine ⟨by decide, by decide, hdecode, fun h => ?_⟩
  exact absurd (h _ _ hdecode) (by decide)

/-- The encoding of three elements is canonical, and no longer with a further byte. -/
theorem payload_canonical_iff_three : sampleBytes = samplePayload.encode ∧
    Payload.decode samplePayload.encode = .ok samplePayload ∧
    Payload.decode (sampleBytes ++ [7]) = .ok samplePayload ∧ sampleBytes ++ [7] ≠ samplePayload.encode := by
  have hdecode := (payload_canonical_iff samplePayload sampleBytes).1 (by decide) (by decide)
  have hbytes := ((payload_canonical_iff samplePayload sampleBytes).2 (by decide)).mpr (by decide)
  have hlonger : Payload.decode (sampleBytes ++ [7]) = .ok samplePayload := by decide
  refine ⟨hbytes, hdecode, hlonger, fun h => ?_⟩
  exact absurd (((payload_canonical_iff samplePayload (sampleBytes ++ [7])).2 hlonger).mp h) (by decide)

end Pocs.Compliance.Client
