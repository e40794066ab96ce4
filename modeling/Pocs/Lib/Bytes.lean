import Mathlib.Tactic

/-! # Big-endian byte strings

`beToNat` and `beOfNat` convert between byte strings and numbers; on strings of one length the
lexicographic order is the numeric order (`lt_iff_beToNat_lt`). `Bytes n` is the type of byte
arrays of length `n`. -/

namespace Pocs

/-- The number a big-endian byte string stands for. -/
def beToNat : List UInt8 → Nat
  | [] => 0
  | b :: bs => b.toNat * 256 ^ bs.length + beToNat bs

/-- The `n` low bytes of `x`, big-endian. -/
def beOfNat : Nat → Nat → List UInt8
  | 0, _ => []
  | n + 1, x => UInt8.ofNat (x / 256 ^ n) :: beOfNat n x

@[simp] theorem length_beOfNat (n x : Nat) : (beOfNat n x).length = n := by
  induction n with
  | zero => rfl
  | succ n ih => simp [beOfNat, ih]

theorem beToNat_lt (bs : List UInt8) : beToNat bs < 256 ^ bs.length := by
  induction bs with
  | nil => simp [beToNat]
  | cons b bs ih =>
    simp only [beToNat, List.length_cons, Nat.pow_succ]
    have hb : b.toNat ≤ 255 := by have := b.toNat_lt; omega
    have := Nat.mul_le_mul_right (256 ^ bs.length) hb
    omega

theorem beToNat_append (as bs : List UInt8) :
    beToNat (as ++ bs) = beToNat as * 256 ^ bs.length + beToNat bs := by
  induction as with
  | nil => simp [beToNat]
  | cons a as ih =>
    simp only [List.cons_append, beToNat, ih, List.length_append, Nat.pow_add]
    ring

theorem beToNat_beOfNat (n x : Nat) : beToNat (beOfNat n x) = x % 256 ^ n := by
  induction n with
  | zero => simp [beOfNat, beToNat, Nat.mod_one]
  | succ n ih =>
    have hb : (UInt8.ofNat (x / 256 ^ n)).toNat = x / 256 ^ n % 256 := UInt8.toNat_ofNat'
    simp only [beOfNat, beToNat, length_beOfNat, ih, hb]
    rw [Nat.pow_succ, Nat.mod_mul, Nat.add_comm, Nat.mul_comm]

/-- Byte strings of one length are determined by their value. -/
theorem beToNat_inj {as bs : List UInt8} (hlen : as.length = bs.length)
    (h : beToNat as = beToNat bs) : as = bs := by
  induction as generalizing bs with
  | nil => exact (List.length_eq_zero_iff.mp hlen.symm).symm
  | cons a as ih =>
    obtain _ | ⟨b, bs⟩ := bs
    · simp at hlen
    simp only [List.length_cons, Nat.add_right_cancel_iff] at hlen
    simp only [beToNat, hlen] at h
    have ha := hlen ▸ beToNat_lt as
    have hb := beToNat_lt bs
    have hab : a.toNat = b.toNat := by
      have h1 := congrArg (· / 256 ^ bs.length) h
      simpa [Nat.mul_comm, Nat.mul_add_div, Nat.div_eq_of_lt, ha, hb] using h1
    rw [hab, Nat.add_left_cancel_iff] at h
    rw [UInt8.toNat_inj.mp hab, ih hlen h]

theorem beToNat_replicate_zero (n : Nat) : beToNat (List.replicate n 0) = 0 := by
  induction n with
  | zero => rfl
  | succ n ih => simp [List.replicate_succ, beToNat, ih]

theorem beToNat_eq_zero {bs : List UInt8} (h : bs.all (· = 0) = true) : beToNat bs = 0 := by
  have hzero : bs = List.replicate bs.length 0 := by
    apply List.eq_replicate_iff.mpr
    exact ⟨rfl, fun b hb => by simpa using List.all_eq_true.mp h b hb⟩
  rw [hzero, beToNat_replicate_zero]

/-- A prefix is a quotient and what follows it a remainder. -/
theorem beToNat_take_drop (bs : List UInt8) (k : Nat) :
    beToNat (bs.take k) = beToNat bs / 256 ^ (bs.length - k) ∧
      beToNat (bs.drop k) = beToNat bs % 256 ^ (bs.length - k) := by
  have hsplit := beToNat_append (bs.take k) (bs.drop k)
  have hlt := beToNat_lt (bs.drop k)
  rw [List.take_append_drop, List.length_drop] at hsplit
  rw [List.length_drop] at hlt
  rw [hsplit, Nat.mul_comm, Nat.mul_add_div (by positivity), Nat.mul_add_mod, Nat.div_eq_of_lt hlt,
    Nat.mod_eq_of_lt hlt]
  exact ⟨rfl, rfl⟩

/-- The bytes `[k, k + n)` of a string. -/
theorem beToNat_slice {bs : List UInt8} {k n : Nat} (h : k + n ≤ bs.length) :
    beToNat ((bs.drop k).take n) = beToNat bs / 256 ^ (bs.length - k - n) % 256 ^ n := by
  have hpow : 256 ^ (bs.length - k) = 256 ^ (bs.length - k - n) * 256 ^ n := by
    rw [← Nat.pow_add, Nat.sub_add_cancel (by omega)]
  rw [(beToNat_take_drop _ n).1, (beToNat_take_drop bs k).2, List.length_drop, hpow, Nat.mod_mul_right_div_self]

/-- A small number has leading zeros. -/
theorem beOfNat_add (m n : Nat) {x : Nat} (h : x < 256 ^ n) :
    beOfNat (m + n) x = List.replicate m 0 ++ beOfNat n x := by
  apply beToNat_inj (by simp)
  have hx : x < 256 ^ (m + n) := h.trans_le (Nat.pow_le_pow_right (by decide) (Nat.le_add_left n m))
  rw [beToNat_beOfNat, Nat.mod_eq_of_lt hx, beToNat_append, beToNat_replicate_zero, beToNat_beOfNat,
    Nat.mod_eq_of_lt h]
  simp

/-- On byte strings of one length the lexicographic order is the numeric order. -/
theorem lt_iff_beToNat_lt {as bs : List UInt8} (hlen : as.length = bs.length) :
    as < bs ↔ beToNat as < beToNat bs := by
  induction as generalizing bs with
  | nil =>
    obtain rfl := List.length_eq_zero_iff.mp hlen.symm
    simp [beToNat]
  | cons a as ih =>
    obtain _ | ⟨b, bs⟩ := bs
    · simp at hlen
    simp only [List.length_cons, Nat.add_right_cancel_iff] at hlen
    rw [List.cons_lt_cons_iff, ih hlen]
    simp only [beToNat, hlen, UInt8.lt_iff_toNat_lt]
    have ha := hlen ▸ beToNat_lt as
    have hb := beToNat_lt bs
    constructor
    · rintro (h | ⟨rfl, h⟩)
      · have := Nat.mul_le_mul_right (256 ^ bs.length) h
        rw [Nat.succ_mul] at this
        omega
      · omega
    · intro h
      rcases Nat.lt_trichotomy a.toNat b.toNat with hab | hab | hab
      · exact .inl hab
      · rw [hab] at h
        exact .inr ⟨UInt8.toNat_inj.mp hab, by omega⟩
      · have := Nat.mul_le_mul_right (256 ^ bs.length) hab
        rw [Nat.succ_mul] at this
        omega

/-- Indexing into a concatenation of chunks of one size. -/
theorem getElem?_flatMap_chunk {α β : Type _} {g : α → List β} {n : Nat}
    (hg : ∀ a, (g a).length = n) (xs : List α) (i : Nat) {j : Nat} (hj : j < n) :
    (xs.flatMap g)[i * n + j]? = xs[i]?.bind fun a => (g a)[j]? := by
  induction xs generalizing i with
  | nil => simp
  | cons x xs ih =>
    rw [List.flatMap_cons]
    cases i with
    | zero => simp [List.getElem?_append_left, hg, hj]
    | succ i =>
      have hidx : (i + 1) * n + j - n = i * n + j := by
        rw [Nat.succ_mul]
        omega
      rw [List.getElem?_append_right (by rw [hg, Nat.succ_mul]; omega), hg, hidx, ih]
      simp

/-- Indexing into lists one after the other, by the lengths of those before. -/
theorem getElem?_flatten_offset {α : Type _} {xss : List (List α)} {xs : List α} {k j : Nat}
    (hk : xss[k]? = some xs) (hj : j < xs.length) :
    xss.flatten[((xss.take k).map List.length).sum + j]? = xs[j]? := by
  induction xss generalizing k with
  | nil => cases hk
  | cons ys xss ih =>
    cases k with
    | zero =>
      cases hk
      simp [List.getElem?_append_left hj]
    | succ k =>
      rw [List.flatten_cons, List.take_succ_cons, List.map_cons, List.sum_cons, Nat.add_assoc,
        List.getElem?_append_right (Nat.le_add_right _ _), Nat.add_sub_cancel_left]
      exact ih hk

/-- Cutting a chunk out of a concatenation. -/
theorem slice_flatMap_chunk {α β : Type _} {g : α → List β} {n : Nat} (hg : ∀ a, (g a).length = n)
    {xs : List α} {i : Nat} {a : α} (h : xs[i]? = some a) (rest : List β) :
    ((xs.flatMap g ++ rest).drop (i * n)).take n = g a := by
  induction xs generalizing i with
  | nil => cases h
  | cons x xs ih =>
    rw [List.flatMap_cons, List.append_assoc]
    cases i with
    | zero =>
      obtain rfl := Option.some.inj h
      rw [Nat.zero_mul, List.drop_zero, List.take_left' (hg x)]
    | succ i =>
      rw [Nat.succ_mul, Nat.add_comm, ← List.drop_drop, List.drop_left' (hg x)]
      exact ih h

theorem length_flatMap_chunk {α β : Type _} {g : α → List β} {n : Nat}
    (hg : ∀ a, (g a).length = n) (xs : List α) : (xs.flatMap g).length = xs.length * n := by
  induction xs with
  | nil => simp
  | cons x xs ih =>
    rw [List.flatMap_cons, List.length_append, hg, ih, List.length_cons, Nat.succ_mul]
    omega

/-- Lists of chunks are told apart by their concatenation. -/
theorem flatMap_chunk_inj {α β : Type _} {g : α → List β} {n : Nat} (hg : ∀ a, (g a).length = n)
    (hinj : Function.Injective g) {xs ys : List α} {rest rest' : List β}
    (hlen : xs.length = ys.length) (h : xs.flatMap g ++ rest = ys.flatMap g ++ rest') :
    xs = ys ∧ rest = rest' := by
  induction xs generalizing ys with
  | nil =>
    obtain rfl := List.length_eq_zero_iff.mp hlen.symm
    exact ⟨rfl, h⟩
  | cons x xs ih =>
    obtain _ | ⟨y, ys⟩ := ys
    · cases hlen
    rw [List.flatMap_cons, List.flatMap_cons, List.append_assoc, List.append_assoc] at h
    obtain ⟨hxy, h⟩ := List.append_inj h ((hg x).trans (hg y).symm)
    obtain ⟨rfl, hrest⟩ := ih (Nat.succ.inj hlen) h
    exact ⟨congrArg (· :: xs) (hinj hxy), hrest⟩

/-- Numbers one after the other, each with its width. -/
def beRecord (fields : List (Nat × Nat)) : List UInt8 := fields.flatMap fun f => beOfNat f.1 f.2

/-- Records of the same widths are told apart by their bytes. -/
theorem beRecord_inj {fields fields' : List (Nat × Nat)}
    (hwidths : fields.map Prod.fst = fields'.map Prod.fst) (hfit : ∀ f ∈ fields, f.2 < 256 ^ f.1)
    (hfit' : ∀ f ∈ fields', f.2 < 256 ^ f.1) (h : beRecord fields = beRecord fields') : fields = fields' := by
  induction fields generalizing fields' with
  | nil => exact (List.map_eq_nil_iff.mp hwidths.symm).symm
  | cons f fields ih =>
    cases fields' with
    | nil => cases hwidths
    | cons f' fields' =>
      obtain ⟨hwidth, hwidths⟩ := List.cons.inj hwidths
      obtain ⟨hx, hfit⟩ := List.forall_mem_cons.mp hfit
      obtain ⟨hx', hfit'⟩ := List.forall_mem_cons.mp hfit'
      simp only [beRecord, List.flatMap_cons] at h
      obtain ⟨hfield, hrest⟩ := List.append_inj h (by simp [hwidth])
      have hvalue : f.2 = f'.2 := by
        have hnum := congrArg beToNat hfield
        rwa [beToNat_beOfNat, beToNat_beOfNat, Nat.mod_eq_of_lt hx, Nat.mod_eq_of_lt hx'] at hnum
      rw [Prod.ext hwidth hvalue, ih hwidths hfit hfit' hrest]

/-! ## Writing into a zeroed buffer -/

/-- `dst[off..off + src.len()].copy_from_slice(src)`. -/
def copyFromSlice (dst : List UInt8) (off : Nat) (src : List UInt8) : List UInt8 :=
  dst.take off ++ src ++ dst.drop (off + src.length)

theorem copyFromSlice_zeros (before src : List UInt8) (m : Nat) :
    copyFromSlice (before ++ List.replicate m 0) before.length src =
      before ++ src ++ List.replicate (m - src.length) 0 := by
  rw [copyFromSlice, List.take_left, ← List.drop_drop, List.drop_left, List.drop_replicate]

/-- Strings of any lengths written one after the other. -/
theorem foldl_copyFromSlice_flatten (chunks : List (List UInt8)) (before : List UInt8) (m : Nat) :
    chunks.foldl (fun (st : List UInt8 × Nat) src => (copyFromSlice st.1 st.2 src, st.2 + src.length))
      (before ++ List.replicate m 0, before.length) =
      (before ++ chunks.flatten ++ List.replicate (m - chunks.flatten.length) 0,
        before.length + chunks.flatten.length) := by
  induction chunks generalizing before m with
  | nil => simp
  | cons src chunks ih =>
    rw [List.foldl_cons, copyFromSlice_zeros, ← List.length_append, ih]
    simp only [List.flatten_cons, List.length_append, List.append_assoc, Nat.sub_sub, Nat.add_assoc]

/-- Chunks written one after the other. -/
theorem foldl_copyFromSlice {α : Type _} {g : α → List UInt8} {n : Nat}
    (hg : ∀ a, (g a).length = n) (xs : List α) (before : List UInt8) (m i : Nat) {base : Nat}
    (hbefore : before.length = base + i * n) :
    (xs.zipIdx i).foldl (fun buf x => copyFromSlice buf (base + x.2 * n) (g x.1))
        (before ++ List.replicate m 0) = before ++ xs.flatMap g ++ List.replicate (m - xs.length * n) 0 := by
  induction xs generalizing before m i with
  | nil => simp
  | cons x xs ih =>
    have hlen : (before ++ g x).length = base + (i + 1) * n := by
      rw [List.length_append, hbefore, hg, Nat.succ_mul]
      omega
    rw [List.zipIdx_cons, List.foldl_cons, ← hbefore, copyFromSlice_zeros, hg, ih _ _ _ hlen,
      List.flatMap_cons, List.length_cons, Nat.succ_mul]
    simp only [List.append_assoc, Nat.sub_sub, Nat.add_comm]

/-- Reading a window byte by byte, with zeros past the end. -/
theorem range_map_getD_window (bs : List UInt8) (off n : Nat) :
    (List.range n).map (fun k => bs.getD (off + k) 0) =
      (bs.drop off).take n ++ List.replicate (n - ((bs.drop off).take n).length) 0 := by
  apply List.ext_getElem
  · simp only [List.length_map, List.length_range, List.length_append, List.length_take,
      List.length_drop, List.length_replicate]
    omega
  · intro k h₁ h₂
    rw [List.length_map, List.length_range] at h₁
    rcases Nat.lt_or_ge (off + k) bs.length with hk | hk
    · rw [List.getElem_append_left (by simp; omega)]
      simp [hk]
    · rw [List.getElem_append_right (by simp; omega)]
      simp [hk]

/-! ## Slices -/

/-- `&bs[off..off + n]`. -/
def slice (bs : List UInt8) (off n : Nat) : List UInt8 := (bs.drop off).take n

theorem length_slice {bs : List UInt8} {off n : Nat} (h : off + n ≤ bs.length) :
    (slice bs off n).length = n := by
  rw [slice, List.length_take, List.length_drop]
  omega

theorem slice_append (bs : List UInt8) (off n k : Nat) :
    slice bs off n ++ slice bs (off + n) k = slice bs off (n + k) := by
  rw [slice, slice, slice, List.take_add, List.drop_drop]

theorem slice_full {bs : List UInt8} {n : Nat} (h : bs.length = n) : slice bs 0 n = bs := by
  rw [slice, List.drop_zero, List.take_of_length_le h.le]

/-- Slices of one length, one after the other. -/
theorem flatMap_slice (bs : List UInt8) (off n k : Nat) :
    (List.range k).flatMap (fun i => slice bs (off + i * n) n) = slice bs off (k * n) := by
  induction k with
  | zero => rw [Nat.zero_mul, slice, List.take_zero]; rfl
  | succ k ih =>
    rw [List.range_succ, List.flatMap_append, ih, List.flatMap_singleton, slice_append, Nat.succ_mul]

theorem slice_singleton {bs : List UInt8} {i : Nat} (h : i < bs.length) : slice bs i 1 = [bs.getD i 0] := by
  have hi : i < bs.length := h
  rw [slice, List.take_one, List.head?_drop, List.getElem?_eq_getElem hi, Option.toList_some,
    List.getD_eq_getElem?_getD, List.getElem?_eq_getElem hi, Option.getD_some]

/-- A slice is what stands between two parts of a string. -/
theorem slice_middle {before bs after : List UInt8} {off n : Nat} (hoff : before.length = off)
    (hn : bs.length = n) : slice (before ++ (bs ++ after)) off n = bs := by
  rw [slice, List.drop_left' hoff, List.take_left' hn]

/-! ## Arrays -/

/-- Byte arrays of length `n`. -/
def Bytes (n : Nat) := { bs : List UInt8 // bs.length = n }

namespace Bytes
variable {n : Nat}

instance : DecidableEq (Bytes n) := inferInstanceAs (DecidableEq (Subtype _))

/-- The `n` low bytes of `x`. -/
def ofNat (n x : Nat) : Bytes n := ⟨beOfNat n x, length_beOfNat n x⟩

def toNat (b : Bytes n) : Nat := beToNat b.1

/-- The array of `n` zero bytes. -/
def zero (n : Nat) : Bytes n := ⟨List.replicate n 0, List.length_replicate⟩

def append {m : Nat} (a : Bytes m) (b : Bytes n) : Bytes (m + n) :=
  ⟨a.1 ++ b.1, by rw [List.length_append, a.2, b.2]⟩

/-- The array without its first `m` bytes. -/
def drop (m : Nat) (a : Bytes (m + n)) : Bytes n :=
  ⟨a.1.drop m, by rw [List.length_drop, a.2, Nat.add_sub_cancel_left]⟩

/-- The first `n` bytes of a string, filled up with zeros. -/
def resize (n : Nat) (bs : List UInt8) : Bytes n :=
  ⟨bs.take n ++ List.replicate (n - bs.length) 0, by simp; omega⟩

instance : LT (Bytes n) := ⟨fun a b => a.1 < b.1⟩
instance (a b : Bytes n) : Decidable (a < b) := inferInstanceAs (Decidable (a.1 < b.1))

/-- A string of the right length is kept. -/
theorem resize_val {bs : List UInt8} (h : bs.length = n) : (resize n bs).1 = bs := by
  simp [resize, ← h]

theorem resize_eq {bs : List UInt8} {b : Bytes n} (h : bs.take n = b.1) : resize n bs = b := by
  have hlen := congrArg List.length h
  rw [List.length_take, b.2] at hlen
  have hfill : n - bs.length = 0 := by omega
  apply Subtype.ext
  simp [resize, hfill, h]

/-- Filling up shifts the number. -/
theorem toNat_resize {bs : List UInt8} (h : bs.length ≤ n) :
    (resize n bs).toNat = beToNat bs * 256 ^ (n - bs.length) := by
  have hbytes : (resize n bs).1 = bs ++ List.replicate (n - bs.length) 0 := by
    simp [resize, List.take_of_length_le h]
  rw [toNat, hbytes, beToNat_append, beToNat_replicate_zero, List.length_replicate, Nat.add_zero]

theorem append_val {m : Nat} (a : Bytes m) (b : Bytes n) : (a.append b).1 = a.1 ++ b.1 := rfl

theorem toNat_inj {a b : Bytes n} (h : a.toNat = b.toNat) : a = b :=
  Subtype.ext (beToNat_inj (a.2.trans b.2.symm) h)

theorem lt_iff {a b : Bytes n} : a < b ↔ a.toNat < b.toNat :=
  lt_iff_beToNat_lt (a.2.trans b.2.symm)

theorem toNat_lt (a : Bytes n) : a.toNat < 256 ^ n := by
  have h := beToNat_lt a.1
  rwa [a.2] at h

@[simp] theorem toNat_ofNat (x : Nat) : (ofNat n x).toNat = x % 256 ^ n := beToNat_beOfNat n x

theorem ofNat_toNat (a : Bytes n) : ofNat n a.toNat = a :=
  toNat_inj (by rw [toNat_ofNat, Nat.mod_eq_of_lt a.toNat_lt])

theorem beOfNat_toNat (a : Bytes n) : beOfNat n a.toNat = a.1 := congrArg Subtype.val a.ofNat_toNat

end Bytes

end Pocs
