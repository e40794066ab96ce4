import Pocs.Lib.Bytes
import Pocs.Lib.Radix
import Pocs.Traces.Acceptance

/-! # Amounts

`json_amount` and `read_amount` of `trace-recorder/src/lib.rs`. The hex branch of the first hands what stands
behind `0x` to the library's parser, whose numerals may have a sign (`jsonAmount_eq_ok`); the second reads
the field of a layout as it is declared. -/

namespace Pocs.Traces

inductive AmountError where
  | length (bytes : Nat) (len : UInt32)
  | overruns
  | exceeds
  | notJson
  | notObject
  | notString
  | notNumeral (text : String)

def AmountError.text : AmountError → String
  | length bytes len => s!"plaintext is {bytes} bytes, not {len}"
  | overruns => "amount overruns the plaintext"
  | exceeds => "amount exceeds u128"
  | notJson => "plaintext is not JSON"
  | notObject => "plaintext is not a JSON object"
  | notString => "amount is not a string"
  | notNumeral text => s!"amount `{text}` is not a decimal or hex u128"

/-- A decimal or `0x` hex string. -/
def jsonAmount (value : Json) : Except AmountError Nat := do
  let text ← okOr value.asStr .notString
  let amount := match text.toList.dropPrefix? ['0', 'x'] with
    | some hex => fromStrRadix 128 16 hex
    | none => if isDecimal text then fromStrRadix 128 10 text.toList else none
  okOr amount (.notNumeral text)

/-- `acc << 8 | b` in `u128`. -/
def pushByte (acc : Nat) (b : UInt8) : Nat := (acc <<< 8) % 2 ^ 128 ||| b.toNat

def readField (plaintext : List UInt8) (field : LayoutField) : Except AmountError Nat := do
  let start := field.offset.toNat
  let last := start + field.ty.width
  let bytes ← okOr (if last ≤ plaintext.length then some ((plaintext.drop start).take field.ty.width) else none)
    .overruns
  let (high, low) := bytes.splitAt (bytes.length - 16)
  failIf (high.any (· != 0)) .exceeds
  pure (low.foldl pushByte 0)

section
variable (fromSlice : List UInt8 → Option Value)

/-- A plaintext's `amount`, if its layout has one. -/
def readAmount (codec : Codec) (plaintext : List UInt8) : Except AmountError (Option Nat) :=
  match codec with
  | .fixed len fields => do
    failIf (plaintext.length ≠ len.toNat) (.length plaintext.length len)
    match fields.find? fun f => f.name == "amount" with
    | none => pure none
    | some field => do
      let amount ← readField plaintext field
      pure (some amount)
  | .json => do
    let value ← okOr (fromSlice plaintext) .notJson
    failIf (¬ value.isObject) .notObject
    match value.get "amount" with
    | none => pure none
    | some member => do
      let amount ← jsonAmount member
      pure (some amount)

end

/-! ## Texts -/

/-- What an amount is written as: a decimal numeral, or a hexadecimal one behind `0x`. -/
inductive AmountText : Json → Nat → Prop where
  | decimal {text n} (digits : Denotes 10 text.toList n) : AmountText (.string text) n
  | hex {text digits n} (behind : text.toList = '0' :: 'x' :: digits) (denotes : Denotes 16 digits n) :
    AmountText (.string text) n

/-- A hexadecimal numeral with a sign. -/
inductive SignedHex : Json → Nat → Prop where
  | plus {text digits n} (behind : text.toList = '0' :: 'x' :: '+' :: digits)
    (denotes : Denotes 16 digits n) : SignedHex (.string text) n

theorem amountText_iff {text : String} {n : Nat} : AmountText (.string text) n ↔
    Denotes 10 text.toList n ∨ ∃ digits, text.toList = '0' :: 'x' :: digits ∧ Denotes 16 digits n := by
  constructor
  · intro h
    cases h with
    | decimal digits => exact .inl digits
    | hex hbehind denotes => exact .inr ⟨_, hbehind, denotes⟩
  · rintro (h | ⟨digits, hbehind, h⟩)
    · exact .decimal h
    · exact .hex hbehind h

theorem signedHex_iff {text : String} {n : Nat} : SignedHex (.string text) n ↔
    ∃ digits, text.toList = '0' :: 'x' :: '+' :: digits ∧ Denotes 16 digits n := by
  constructor
  · intro h
    cases h with
    | plus hbehind denotes => exact ⟨_, hbehind, denotes⟩
  · rintro ⟨digits, hbehind, h⟩
    exact .plus hbehind h

theorem isDecimal_of_denotes {text : String} {n : Nat} (h : Denotes 10 text.toList n) : IsDecimal text := by
  constructor
  · rintro rfl
    exact h.ne_nil rfl
  · intro c hc
    rw [← isSome_toDigit_ten]
    exact h.isSome hc

theorem not_denotes_prefix {digits : List Char} {n : Nat} : ¬ Denotes 10 ('0' :: 'x' :: digits) n := by
  intro h
  have hx := h.isSome (List.mem_cons_of_mem _ List.mem_cons_self)
  exact absurd hx (by decide)

/-- A decimal numeral is parsed to what it denotes. -/
theorem parse_eq_some {text : String} (hdecimal : IsDecimal text) {n : Nat} :
    fromStrRadix 128 10 text.toList = some n ↔ n < 2 ^ 128 ∧ Denotes 10 text.toList n := by
  have hplus : ∀ digits, text.toList ≠ '+' :: digits := by
    intro digits htext
    have hdigit := hdecimal.2 '+' (htext ▸ List.mem_cons_self)
    exact absurd hdigit (by decide)
  simp only [fromStrRadix_eq_some (show 0 < 10 by decide), hplus, false_and, exists_false, or_false]

/-- What the code reads: beside the amounts, the signed ones. -/
theorem jsonAmount_eq_ok {value : Json} {n : Nat} : jsonAmount value = .ok n ↔
    n < 2 ^ 128 ∧ (AmountText value n ∨ SignedHex value n) := by
  cases value with
  | null | bool | number | array | object =>
    refine iff_of_false (fun h => by cases h) ?_
    rintro ⟨-, h | h⟩ <;> cases h
  | string text =>
    simp only [jsonAmount, Json.asStr, bind_eq_ok, okOr_eq_ok, Option.some.injEq, exists_eq_left',
      amountText_iff, signedHex_iff]
    split
    · next hex hbehind =>
      obtain ⟨p, htext, hp⟩ := List.dropPrefix?_eq_some_iff.mp hbehind
      obtain rfl := eq_of_beq hp
      simp only [fromStrRadix_eq_some (show 0 < 16 by decide), htext, List.cons_append, List.nil_append,
        not_denotes_prefix, false_or, List.cons.injEq, true_and, exists_eq_left']
    · next hbehind =>
      have hno : ∀ digits, text.toList ≠ '0' :: 'x' :: digits := by
        intro digits htext
        have hsome := List.dropPrefix?_eq_some_iff.mpr ⟨['0', 'x'], htext, beq_self_eq_true _⟩
        cases hsome.symm.trans hbehind
      simp only [hno, false_and, exists_false, or_false]
      split
      · next hdecimal => exact parse_eq_some (isDecimal_iff.mp hdecimal)
      · next hdecimal =>
        refine iff_of_false (Option.some_ne_none n).symm fun h => ?_
        exact hdecimal (isDecimal_iff.mpr (isDecimal_of_denotes h.2))

/-! ## Fields -/

theorem pushByte_eq {acc : Nat} {b : UInt8} (h : acc * 256 < 2 ^ 128) :
    pushByte acc b = acc * 256 + b.toNat := by
  have hshift : acc <<< 8 = acc * 256 := Nat.shiftLeft_eq acc 8
  have hb : b.toNat < 2 ^ 8 := b.toNat_lt
  rw [pushByte, hshift, Nat.mod_eq_of_lt h, ← hshift, Nat.shiftLeft_add_eq_or_of_lt hb]

/-- The fold keeps every bit as long as the value fits. -/
theorem foldl_pushByte {bs : List UInt8} {acc : Nat} (h : acc * 256 ^ bs.length + beToNat bs < 2 ^ 128) :
    bs.foldl pushByte acc = acc * 256 ^ bs.length + beToNat bs := by
  induction bs generalizing acc with
  | nil => simp [beToNat]
  | cons b bs ih =>
    have hval : acc * 256 ^ (b :: bs).length + beToNat (b :: bs) =
        (acc * 256 + b.toNat) * 256 ^ bs.length + beToNat bs := by
      rw [beToNat, List.length_cons]
      ring
    rw [hval] at h ⊢
    have hacc : acc * 256 < 2 ^ 128 := by
      have hle := Nat.le_mul_of_pos_right (acc * 256 + b.toNat) (Nat.pow_pos (show 0 < 256 by decide)
        (n := bs.length))
      omega
    rw [List.foldl_cons, pushByte_eq hacc, ih h]

theorem any_ne_zero_iff {bs : List UInt8} : (bs.any (· != 0)) = true ↔ beToNat bs ≠ 0 := by
  rw [← not_iff_not, not_not, Bool.not_eq_true, List.any_eq_false]
  constructor
  · intro h
    apply beToNat_eq_zero
    rw [List.all_eq_true]
    intro b hb
    simpa using h b hb
  · intro h b hb
    have hzero : bs = List.replicate bs.length 0 :=
      beToNat_inj (by simp) (by rw [h, beToNat_replicate_zero])
    have hb0 : b = 0 := (List.eq_replicate_iff.mp hzero).2 b hb
    simp [hb0]

/-- The big-endian value of a field within the plaintext. -/
theorem readField_eq_ok {plaintext : List UInt8} {f : LayoutField} {n : Nat}
    (h : f.offset.toNat + f.ty.width ≤ plaintext.length) : readField plaintext f = .ok n ↔
      beToNat ((plaintext.drop f.offset.toNat).take f.ty.width) = n ∧ n < 2 ^ 128 := by
  simp only [readField, if_pos h, bind_eq_ok, okOr_eq_ok, Option.some.injEq, exists_eq_left', List.splitAt_eq,
    failIf_eq_ok, pure_eq_ok, exists_const, any_ne_zero_iff, not_not]
  generalize (plaintext.drop f.offset.toNat).take f.ty.width = bytes
  have hsplit := beToNat_append (bytes.take (bytes.length - 16)) (bytes.drop (bytes.length - 16))
  have hlow := beToNat_lt (bytes.drop (bytes.length - 16))
  rw [List.take_append_drop] at hsplit
  have hpow : (256 : Nat) ^ 16 = 2 ^ 128 := by norm_num
  -- the split is at sixteen bytes from the end, or there is no high part
  have hlen : (bytes.drop (bytes.length - 16)).length ≤ 16 := by
    rw [List.length_drop]
    omega
  have hfits : beToNat (bytes.drop (bytes.length - 16)) < 2 ^ 128 := by
    have hle := Nat.pow_le_pow_right (show 0 < 256 by decide) hlen
    omega
  have hfold := @foldl_pushByte (bytes.drop (bytes.length - 16)) 0 (by rwa [Nat.zero_mul, Nat.zero_add])
  rw [Nat.zero_mul, Nat.zero_add] at hfold
  rw [hfold]
  rcases Nat.eq_zero_or_pos (beToNat (bytes.take (bytes.length - 16))) with hzero | hpos
  · rw [hzero, Nat.zero_mul, Nat.zero_add] at hsplit
    rw [hzero, hsplit]
    constructor
    · rintro ⟨-, rfl⟩
      exact ⟨rfl, hfits⟩
    · rintro ⟨rfl, -⟩
      exact ⟨rfl, rfl⟩
  · have hlong : 16 < bytes.length := by
      rcases Nat.lt_or_ge 16 bytes.length with hlt | hge
      · exact hlt
      · rw [Nat.sub_eq_zero_of_le hge, List.take_zero, beToNat] at hpos
        exact absurd hpos (Nat.lt_irrefl 0)
    have hdrop : (bytes.drop (bytes.length - 16)).length = 16 := by
      rw [List.length_drop]
      omega
    rw [hdrop, hpow] at hsplit
    refine iff_of_false (fun hok => hpos.ne' hok.1) ?_
    rintro ⟨rfl, hlt⟩
    have hle := Nat.le_mul_of_pos_left (2 ^ 128) hpos
    omega

section
variable {fromSlice : List UInt8 → Option Value}

/-- The amount of a layout that the validator accepts is its field, if it fits. -/
theorem readAmount_fixed {h : Header} (valid : h.Valid) {l : NoteLayout} (hl : l ∈ h.noteLayouts)
    {len : UInt32} {fields : List LayoutField} (hcodec : l.codec = .fixed len fields) {f : LayoutField}
    (hf : f ∈ fields) (hname : f.name = "amount") {plaintext : List UInt8} {n : Nat} :
    readAmount fromSlice l.codec plaintext = .ok (some n) ↔ plaintext.length = len.toNat ∧
      beToNat ((plaintext.drop f.offset.toNat).take f.ty.width) = n ∧ n < 2 ^ 128 := by
  obtain ⟨hnodup, hends⟩ := valid.layouts l hl len fields hcodec
  -- the names are distinct, so the search finds the field
  have hfind : fields.find? (fun g => g.name == "amount") = some f := by
    obtain ⟨g, hg⟩ : ∃ g, fields.find? (fun g => g.name == "amount") = some g := by
      rw [← Option.isSome_iff_exists, List.find?_isSome]
      exact ⟨f, hf, beq_iff_eq.mpr hname⟩
    have hgname : g.name = "amount" := by simpa using List.find?_some hg
    rw [hg, List.inj_on_of_nodup_map hnodup (List.mem_of_find?_eq_some hg) hf (hgname.trans hname.symm)]
  simp only [hcodec, readAmount, hfind, bind_eq_ok, failIf_eq_ok, ne_eq, not_not, exists_const, pure_eq_ok,
    Option.some.injEq, exists_eq_right]
  refine and_congr_right fun hlen => readField_eq_ok ?_
  rw [hlen]
  exact hends f hf

end

theorem SignedHex.not_amountText {value : Json} {n m : Nat} (h : SignedHex value n) : ¬ AmountText value m := by
  obtain ⟨hbehind, -⟩ := h
  rw [amountText_iff, hbehind]
  rintro (hden | ⟨digits, heq, hden⟩)
  · exact not_denotes_prefix hden
  · simp only [List.cons.injEq, true_and] at heq
    have hplus := hden.isSome (heq ▸ List.mem_cons_self)
    rw [toDigit_plus] at hplus
    exact Bool.noConfusion hplus

/-- Fields are read exactly, and texts unless they are signed numerals behind `0x`. -/
theorem amounts_exact_iff (fromSlice : List UInt8 → Option Value) (h : Header) (value : Json) :
    ((∀ n, jsonAmount value = .ok n ↔ AmountText value n ∧ n < 2 ^ 128) ∧
      (validateHeader h = .ok () → ∀ l ∈ h.noteLayouts, ∀ (len : UInt32) (fields : List LayoutField),
        l.codec = .fixed len fields → ∀ f ∈ fields, f.name = "amount" → ∀ plaintext n,
          readAmount fromSlice l.codec plaintext = .ok (some n) ↔ plaintext.length = len.toNat ∧
            beToNat ((plaintext.drop f.offset.toNat).take f.ty.width) = n ∧ n < 2 ^ 128)) ↔
      ¬ ∃ n < 2 ^ 128, SignedHex value n := by
  constructor
  · rintro ⟨htext, -⟩ ⟨n, hn, hsigned⟩
    exact hsigned.not_amountText ((htext n).mp (jsonAmount_eq_ok.mpr ⟨hn, .inr hsigned⟩)).1
  · intro hunsigned
    constructor
    · intro n
      rw [jsonAmount_eq_ok]
      constructor
      · rintro ⟨hn, htext | hsigned⟩
        · exact ⟨htext, hn⟩
        · exact absurd ⟨n, hn, hsigned⟩ hunsigned
      · rintro ⟨htext, hn⟩
        exact ⟨hn, .inl htext⟩
    · intro hvalid l hl len fields hcodec f hf hname plaintext n
      exact readAmount_fixed (validateHeader_eq_ok.mp hvalid) hl hcodec hf hname

theorem signed_amount_read : jsonAmount (.string "0x+ff") = .ok 255 ∧ ¬ AmountText (.string "0x+ff") 255 := by
  refine ⟨rfl, ?_⟩
  have hff : Denotes 16 ['f', 'f'] 255 := ⟨[15, 15], by decide, rfl, rfl⟩
  have hsigned : SignedHex (.string "0x+ff") 255 := .plus rfl hff
  exact hsigned.not_amountText

end Pocs.Traces
