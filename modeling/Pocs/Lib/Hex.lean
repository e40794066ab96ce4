import Mathlib.Tactic

/-! # Hexadecimal strings

Bytes as two lower-case digits each, on lists of characters. A decoder is given by its reading of one digit:
`lowerNibble` takes what the encoder writes, `nibble` capital letters too. -/

namespace Pocs

def hexDigit (d : Nat) : Char := if d < 10 then Char.ofNat (48 + d) else Char.ofNat (87 + d)

def lowerNibble (c : Char) : Option Nat :=
  if 48 ≤ c.toNat ∧ c.toNat ≤ 57 then some (c.toNat - 48)
  else if 97 ≤ c.toNat ∧ c.toNat ≤ 102 then some (c.toNat - 87)
  else none

def nibble (c : Char) : Option Nat :=
  if 65 ≤ c.toNat ∧ c.toNat ≤ 70 then some (c.toNat - 55) else lowerNibble c

def encodeHex : List UInt8 → List Char
  | [] => []
  | b :: bs => hexDigit (b.toNat / 16) :: hexDigit (b.toNat % 16) :: encodeHex bs

def decodeHex (nibble : Char → Option Nat) : List Char → Option (List UInt8)
  | [] => some []
  | [_] => none
  | hi :: lo :: cs => do
    let h ← nibble hi
    let l ← nibble lo
    let bs ← decodeHex nibble cs
    some (UInt8.ofNat (16 * h + l) :: bs)

theorem nibble_hexDigit {d : Nat} (hd : d < 16) : nibble (hexDigit d) = some d := by
  have hall : ∀ d < 16, nibble (hexDigit d) = some d := by decide
  exact hall d hd

section
variable {nib : Char → Option Nat}

/-- A decoder that reads the digits of the encoder reads its strings. -/
theorem decodeHex_encodeHex (hnib : ∀ d < 16, nib (hexDigit d) = some d) (bs : List UInt8) :
    decodeHex nib (encodeHex bs) = some bs := by
  induction bs with
  | nil => rfl
  | cons b bs ih =>
    have hb := b.toNat_lt
    have hhi := hnib (b.toNat / 16) (by omega)
    have hlo := hnib (b.toNat % 16) (by omega)
    have hbyte : UInt8.ofNat (16 * (b.toNat / 16) + b.toNat % 16) = b := by
      rw [Nat.div_add_mod, UInt8.ofNat_toNat]
    simp only [encodeHex, decodeHex, hhi, hlo, ih, Option.bind_eq_bind, Option.bind_some, hbyte]

end

/-- Every character is a digit. -/
theorem mem_encodeHex {bs : List UInt8} {c : Char} (h : c ∈ encodeHex bs) : ∃ d < 16, c = hexDigit d := by
  induction bs with
  | nil => exact absurd h List.not_mem_nil
  | cons b bs ih =>
    have hb := b.toNat_lt
    rcases List.mem_cons.mp h with rfl | h
    · exact ⟨_, by omega, rfl⟩
    rcases List.mem_cons.mp h with rfl | h
    · exact ⟨_, by omega, rfl⟩
    · exact ih h

end Pocs
