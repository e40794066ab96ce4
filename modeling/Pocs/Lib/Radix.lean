import Mathlib.Data.Nat.Digits.Defs
import Pocs.Lib.Checked

/-! # Numerals

Unsigned integers of a fixed width are read with checked arithmetic: an optional sign, then digits. What is
read is what the digits denote, as long as it fits the width (`fromStrRadix_eq_some`). -/

namespace Pocs

def toDigit (radix : Nat) (c : Char) : Option Nat :=
  let digit := if c.isDigit then some (c.toNat - 48) else if c.isLower then some (c.toNat - 87)
    else if c.isUpper then some (c.toNat - 55)
    else none
  digit.filter (· < radix)

/-- The digits, of which there are some, denote the number. -/
def Denotes (radix : Nat) (cs : List Char) (n : Nat) : Prop :=
  ∃ ds, ds ≠ [] ∧ cs.mapM (toDigit radix) = some ds ∧ Nat.ofDigits radix ds.reverse = n

def pushDigit (w radix acc : Nat) (c : Char) : Option Nat := do
  let digit ← toDigit radix c
  let shifted ← checkedMul w acc radix
  checkedAdd w shifted digit

/-- An unsigned integer of `w` bits: an optional `+`, then one or more digits. -/
def fromStrRadix (w radix : Nat) (cs : List Char) : Option Nat :=
  let digits := if cs.head? = some '+' then cs.tail else cs
  if digits = [] then none else digits.foldlM (pushDigit w radix) 0

section
variable {w radix n acc : Nat} {cs : List Char}

theorem toDigit_plus : toDigit radix '+' = none := rfl

/-- The digits of the decimal system. -/
theorem isSome_toDigit_ten {c : Char} : (toDigit 10 c).isSome = c.isDigit := by
  have hdigit : c.isDigit = true ↔ 48 ≤ c.toNat ∧ c.toNat ≤ 57 := by
    simp only [Char.isDigit, Bool.and_eq_true, decide_eq_true_eq]
    rfl
  have hlower : c.isLower = true ↔ 97 ≤ c.toNat ∧ c.toNat ≤ 122 := by
    change (decide _ && decide _) = true ↔ _
    rw [Bool.and_eq_true, decide_eq_true_eq, decide_eq_true_eq]
    rfl
  have hupper : c.isUpper = true ↔ 65 ≤ c.toNat ∧ c.toNat ≤ 90 := decide_eq_true_iff
  rw [Bool.eq_iff_iff, hdigit, toDigit]
  simp only [hdigit, hlower, hupper]
  split
  · next h => simp [Option.filter, h, show c.toNat - 48 < 10 by omega]
  · next h =>
    split
    · next h' => simp [Option.filter, h, show ¬ c.toNat - 87 < 10 by omega]
    · split
      · next h' => simp [Option.filter, h, show ¬ c.toNat - 55 < 10 by omega]
      · simp [h]

/-- Only digits denote. -/
theorem Denotes.isSome {c : Char} (h : Denotes radix cs n) (hc : c ∈ cs) : (toDigit radix c).isSome := by
  obtain ⟨ds, -, hds, -⟩ := h
  induction cs generalizing ds with
  | nil => cases hc
  | cons c' cs ih =>
    simp only [List.mapM_cons, Option.bind_eq_bind, Option.bind_eq_some_iff] at hds
    obtain ⟨d, hd, ds', hds', -⟩ := hds
    rcases List.mem_cons.mp hc with rfl | hc
    · exact Option.isSome_iff_exists.mpr ⟨d, hd⟩
    · exact ih hc ds' hds'

theorem Denotes.ne_nil (h : Denotes radix cs n) : cs ≠ [] := by
  rintro rfl
  obtain ⟨ds, hne, hds, -⟩ := h
  exact hne (Option.some.inj hds).symm

theorem pushDigit_eq_some {acc' : Nat} {c : Char} : pushDigit w radix acc c = some acc' ↔
    ∃ digit, toDigit radix c = some digit ∧ acc * radix + digit < 2 ^ w ∧ acc * radix + digit = acc' := by
  simp only [pushDigit, Option.bind_eq_bind, Option.bind_eq_some_iff, checkedMul, checkedAdd]
  constructor
  · rintro ⟨digit, hdigit, shifted, hmul, hadd⟩
    split at hmul
    · obtain rfl := Option.some.inj hmul
      split at hadd
      · exact ⟨digit, hdigit, ‹_›, Option.some.inj hadd⟩
      · cases hadd
    · cases hmul
  · rintro ⟨digit, hdigit, hlt, rfl⟩
    exact ⟨digit, hdigit, acc * radix, if_pos (by omega), if_pos hlt⟩

/-- The checks fail if and only if the whole number overflows. -/
theorem foldlM_pushDigit_eq_some (hradix : 0 < radix) (hacc : acc < 2 ^ w) :
    cs.foldlM (pushDigit w radix) acc = some n ↔ ∃ ds, cs.mapM (toDigit radix) = some ds ∧
      acc * radix ^ ds.length + Nat.ofDigits radix ds.reverse = n ∧ n < 2 ^ w := by
  induction cs generalizing acc with
  | nil =>
    simp only [List.foldlM_nil, List.mapM_nil, pure, Option.some.injEq]
    constructor
    · rintro rfl
      exact ⟨[], rfl, by simp, hacc⟩
    · rintro ⟨ds, rfl, rfl, -⟩
      simp
  | cons c cs ih =>
    simp only [List.foldlM_cons, List.mapM_cons, Option.bind_eq_bind, Option.bind_eq_some_iff,
      pushDigit_eq_some, pure, Option.some.injEq]
    constructor
    · rintro ⟨_, ⟨digit, hdigit, hlt, rfl⟩, hrest⟩
      obtain ⟨ds, hds, rfl, hn⟩ := (ih hlt).mp hrest
      refine ⟨digit :: ds, ⟨digit, hdigit, ds, hds, rfl⟩, ?_, hn⟩
      rw [List.reverse_cons, Nat.ofDigits_append, List.length_cons, List.length_reverse, Nat.ofDigits_singleton]
      ring
    · rintro ⟨_, ⟨digit, hdigit, ds, hds, rfl⟩, hval, hn⟩
      have hsum : (acc * radix + digit) * radix ^ ds.length + Nat.ofDigits radix ds.reverse = n := by
        rw [← hval, List.reverse_cons, Nat.ofDigits_append, List.length_cons, List.length_reverse,
          Nat.ofDigits_singleton]
        ring
      -- what is read so far is at most the number
      have hlt : acc * radix + digit < 2 ^ w := by
        have hle := Nat.le_mul_of_pos_right (acc * radix + digit) (Nat.pow_pos hradix (n := ds.length))
        omega
      exact ⟨_, ⟨digit, hdigit, hlt, rfl⟩, (ih hlt).mpr ⟨ds, hds, hsum, hn⟩⟩

theorem fromStrRadix_eq_some (hradix : 0 < radix) : fromStrRadix w radix cs = some n ↔
    n < 2 ^ w ∧ (Denotes radix cs n ∨ ∃ digits, cs = '+' :: digits ∧ Denotes radix digits n) := by
  have hdigits : ∀ ds : List Char, (if ds = [] then none else ds.foldlM (pushDigit w radix) 0) = some n ↔
      n < 2 ^ w ∧ Denotes radix ds n := by
    intro ds
    cases ds with
    | nil => exact iff_of_false (Option.some_ne_none n).symm fun h => h.2.ne_nil rfl
    | cons c cs =>
      rw [if_neg (List.cons_ne_nil c cs), foldlM_pushDigit_eq_some hradix (Nat.two_pow_pos w)]
      simp only [Nat.zero_mul, Nat.zero_add]
      constructor
      · rintro ⟨ds, hds, hn, hlt⟩
        refine ⟨hlt, ds, ?_, hds, hn⟩
        rintro rfl
        simp [List.mapM_cons, Option.bind_eq_some_iff] at hds
      · rintro ⟨hlt, ds, -, hds, hn⟩
        exact ⟨ds, hds, hn, hlt⟩
  have hplus : ∀ digits, ¬ Denotes radix ('+' :: digits) n := fun digits h => by
    have hsome := h.isSome List.mem_cons_self
    rw [toDigit_plus] at hsome
    exact Bool.noConfusion hsome
  simp only [fromStrRadix]
  rw [hdigits]
  refine and_congr_right fun _ => ?_
  split
  · next h =>
    cases cs with
    | nil => cases h
    | cons c cs =>
      obtain rfl : c = '+' := Option.some.inj h
      constructor
      · intro hden
        exact .inr ⟨cs, rfl, hden⟩
      · rintro (hden | ⟨digits, heq, hden⟩)
        · exact absurd hden (hplus cs)
        · obtain rfl := (List.cons.inj heq).2
          exact hden
  · next h =>
    constructor
    · exact .inl
    · rintro (hden | ⟨digits, rfl, -⟩)
      · exact hden
      · exact absurd rfl h

end

end Pocs
