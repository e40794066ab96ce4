import Pocs.Lib.Bytes
import Pocs.Lib.Checked

/-! # Readers of byte strings

`readRecords` reads records of one width at known offsets. A `Reader` takes a value off the front of a
byte string; `Reads` says that it reads back what an encoder writes and accepts nothing else, whatever
follows. -/

namespace Pocs

/-- Read `n` records of one width, one after the other. -/
def readRecords {α ε : Type} (read : Nat → Except ε α) (width : Nat) : (n idx : Nat) → Except ε (List α)
  | 0, _ => pure []
  | n + 1, idx => do
    let a ← read idx
    let as ← readRecords read width n (idx + width)
    pure (a :: as)

/-- The records read are those whose encodings stand there. -/
theorem readRecords_eq_ok {α ε : Type} {read : Nat → Except ε α} {width : Nat} {encode : α → List UInt8}
    {bs : List UInt8} (hlen : ∀ a, (encode a).length = width)
    (hread : ∀ idx a, idx + width ≤ bs.length → (read idx = .ok a ↔ slice bs idx width = encode a))
    {n idx : Nat} (h : idx + n * width ≤ bs.length) {as : List α} : readRecords read width n idx = .ok as ↔
      as.length = n ∧ slice bs idx (n * width) = as.flatMap encode := by
  induction n generalizing idx as with
  | zero =>
    rw [readRecords, pure_eq_ok, Nat.zero_mul, slice, List.take_zero]
    constructor
    · rintro rfl
      exact ⟨rfl, rfl⟩
    · intro h
      exact (List.length_eq_zero_iff.mp h.1).symm
  | succ n ih =>
    rw [Nat.succ_mul] at h ⊢
    simp only [readRecords, bind_eq_ok, pure_eq_ok]
    have hslice := slice_append bs idx width (n * width)
    rw [Nat.add_comm width (n * width)] at hslice
    rw [← hslice]
    constructor
    · rintro ⟨a, ha, rest, hrest, rfl⟩
      obtain ⟨hn, hflat⟩ := (ih (by omega)).mp hrest
      rw [(hread idx a (by omega)).mp ha, hflat]
      exact ⟨congrArg (· + 1) hn, rfl⟩
    · rintro ⟨hn, hflat⟩
      cases as with
      | nil => cases hn
      | cons a rest =>
        rw [List.flatMap_cons] at hflat
        have hwidth : (slice bs idx width).length = (encode a).length := by
          rw [length_slice (by omega), hlen]
        obtain ⟨ha, hrest⟩ := List.append_inj hflat hwidth
        exact ⟨a, (hread idx a (by omega)).mpr ha, rest,
          (ih (by omega)).mpr ⟨Nat.succ.inj hn, hrest⟩, rfl⟩

/-! ## Readers -/

/-- A reader returns a value and the bytes that follow it. -/
abbrev Reader (ε α : Type) := List UInt8 → Except ε (α × List UInt8)

/-- The reader accepts the encodings of valid values and nothing else. -/
structure Reads {ε α : Type} (read : Reader ε α) (encode : α → List UInt8) (Valid : α → Prop) : Prop where
  complete : ∀ {a}, Valid a → ∀ rest, read (encode a ++ rest) = .ok (a, rest)
  sound : ∀ {bytes a rest}, read bytes = .ok (a, rest) → Valid a ∧ bytes = encode a ++ rest

/-- Read `n` bytes. -/
def readBytes {ε : Type} (short : ε) (n : Nat) : Reader ε (List UInt8) := fun bytes =>
  if n ≤ bytes.length then .ok (bytes.take n, bytes.drop n) else .error short

/-- Read a big-endian number of `n` bytes. -/
def readNat {ε : Type} (short : ε) (n : Nat) : Reader ε Nat := fun bytes => do
  let (slice, bytes) ← readBytes short n bytes
  pure (beToNat slice, bytes)

/-- Read `n` values, one after the other. -/
def readMany {ε α : Type} (read : Reader ε α) : Nat → Reader ε (List α)
  | 0, bytes => pure ([], bytes)
  | n + 1, bytes => do
    let (a, bytes) ← read bytes
    let (as, bytes) ← readMany read n bytes
    pure (a :: as, bytes)

section
variable {ε α : Type} {short : ε} {read : Reader ε α} {encode : α → List UInt8} {Valid : α → Prop}

theorem reads_readBytes (n : Nat) : Reads (readBytes short n) id fun bs => bs.length = n where
  complete {bs} hbs rest := by
    have hle : n ≤ (bs ++ rest).length := by rw [List.length_append, hbs]; exact Nat.le_add_right _ _
    rw [id, readBytes, if_pos hle, List.take_left' hbs, List.drop_left' hbs]
  sound {bytes bs rest} h := by
    unfold readBytes at h
    split at h
    · next hle =>
      simp only [Except.ok.injEq, Prod.mk.injEq] at h
      obtain ⟨rfl, rfl⟩ := h
      exact ⟨by rw [List.length_take]; omega, (List.take_append_drop n bytes).symm⟩
    · cases h

theorem reads_readNat (n : Nat) : Reads (readNat short n) (beOfNat n) (· < 256 ^ n) where
  complete {x} hx rest := by
    have h : readBytes short n (beOfNat n x ++ rest) = .ok (beOfNat n x, rest) :=
      (reads_readBytes n).complete (length_beOfNat n x) rest
    rw [readNat, h, ok_bind, pure_eq_ok, beToNat_beOfNat, Nat.mod_eq_of_lt hx]
  sound {bytes x rest} h := by
    simp only [readNat, bind_eq_ok, pure_eq_ok, Prod.exists, Prod.mk.injEq] at h
    obtain ⟨bs, _, hread, rfl, rfl⟩ := h
    obtain ⟨hlen, rfl⟩ := (reads_readBytes n).sound hread
    refine ⟨hlen ▸ beToNat_lt bs, congrArg (· ++ _) ?_⟩
    have hback : beToNat bs = beToNat (beOfNat n (beToNat bs)) := by
      rw [beToNat_beOfNat, Nat.mod_eq_of_lt (hlen ▸ beToNat_lt bs)]
    exact beToNat_inj (hlen.trans (length_beOfNat n _).symm) hback

/-- A reader repeated reads the encodings written one after the other. -/
theorem Reads.many (h : Reads read encode Valid) (n : Nat) :
    Reads (readMany read n) (List.flatMap encode) fun as => as.length = n ∧ ∀ a ∈ as, Valid a where
  complete {as} has rest := by
    obtain ⟨hlen, hvalid⟩ := has
    induction n generalizing as with
    | zero =>
      rw [List.length_eq_zero_iff.mp hlen]
      rfl
    | succ n ih =>
      cases as with
      | nil => cases hlen
      | cons a as =>
        obtain ⟨ha, has⟩ := List.forall_mem_cons.mp hvalid
        rw [List.flatMap_cons, List.append_assoc, readMany, h.complete ha]
        simp only [ok_bind, ih (Nat.succ.inj hlen) has]
        rfl
  sound {bytes as rest} hread := by
    induction n generalizing bytes as with
    | zero =>
      simp only [readMany, pure_eq_ok, Prod.mk.injEq] at hread
      obtain ⟨rfl, rfl⟩ := hread
      exact ⟨⟨rfl, by simp⟩, rfl⟩
    | succ n ih =>
      simp only [readMany, bind_eq_ok, pure_eq_ok, Prod.exists, Prod.mk.injEq] at hread
      obtain ⟨a, middle, ha, as', _, has, rfl, rfl⟩ := hread
      obtain ⟨hvalid, rfl⟩ := h.sound ha
      obtain ⟨⟨hlen, hvalids⟩, rfl⟩ := ih has
      refine ⟨⟨congrArg (· + 1) hlen, List.forall_mem_cons.mpr ⟨hvalid, hvalids⟩⟩, ?_⟩
      rw [List.flatMap_cons, List.append_assoc]

end

end Pocs
