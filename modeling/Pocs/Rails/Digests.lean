import Pocs.Lib.Bytes

/-! # SHA-256 and Keccak-256

`sha256_voucher.nr` and `keccak.nr` pad inputs of 308 and of 64 bytes and run the permutations of the
standard library, which are parameters here. `sha256` and `keccak256` are the functions of the Rust crates,
for inputs of any length; on the lengths of the circuits they agree. -/

namespace Pocs.Rails

/-- The black boxes of the circuits. -/
structure Primitives where
  sha256Compression : (Fin 16 → UInt32) → (Fin 8 → UInt32) → Fin 8 → UInt32
  keccakf1600 : (Fin 25 → UInt64) → Fin 25 → UInt64
  /-- `std::ecdsa_secp256k1::verify_signature`, by the coordinates of the key. -/
  verifySignature : (x y : Bytes 32) → (signature : Bytes 64) → (digest : Bytes 32) → Bool

namespace Primitives
variable (P : Primitives)

/-! ## SHA-256 -/

def sha256Init : List UInt32 :=
  [0x6a09e667, 0xbb67ae85, 0x3c6ef372, 0xa54ff53a, 0x510e527f, 0x9b05688c, 0x1f83d9ab, 0x5be0cd19]

def sha256Blocks (padded : List UInt8) (numBlocks : Nat) : Fin 8 → UInt32 :=
  (List.range numBlocks).foldl (fun state blockIdx =>
    P.sha256Compression (fun i => .ofNat (beToNat ((padded.drop (blockIdx * 64 + i.val * 4)).take 4))) state)
    fun i => sha256Init.getD i.val 0

def sha256Output (state : Fin 8 → UInt32) : Bytes 32 :=
  ⟨(List.finRange 8).flatMap fun i => beOfNat 4 (state i).toNat, by
    rw [length_flatMap_chunk (fun _ => length_beOfNat 4 _), List.length_finRange]⟩

def sha256_308 (input : List UInt8) : Bytes 32 :=
  let padded := copyFromSlice (List.replicate 320 0) 0 input
  let padded := padded.set 308 0x80
  let padded := padded.set 318 0x09
  let padded := padded.set 319 0xa0
  sha256Output (P.sha256Blocks padded 5)

/-- A one, zeros, and the number of bits in eight bytes at the end of a block. -/
def sha256Pad (input : List UInt8) : List UInt8 :=
  input ++ 0x80 :: (List.replicate ((119 - input.length % 64) % 64) 0 ++ beOfNat 8 (8 * input.length))

/-- `Sha256::digest`. -/
def sha256 (input : List UInt8) : Bytes 32 :=
  sha256Output (P.sha256Blocks (sha256Pad input) ((sha256Pad input).length / 64))

/-! ## Keccak-256 -/

def keccakLane (block : List UInt8) (lane : Nat) : UInt64 :=
  .ofNat (beToNat ((block.drop (lane * 8)).take 8).reverse)

/-- A block of 136 bytes is absorbed into the first 17 lanes. -/
def keccakAbsorb (state : Fin 25 → UInt64) (block : List UInt8) : Fin 25 → UInt64 :=
  P.keccakf1600 fun i => if i.val < 17 then state i ^^^ keccakLane block i.val else state i

def keccakOutput (state : Fin 25 → UInt64) : Bytes 32 :=
  ⟨[0, 1, 2, 3].flatMap fun i : Fin 25 => (beOfNat 8 (state i).toNat).reverse, by
    rw [length_flatMap_chunk (n := 8) (fun _ => by rw [List.length_reverse, length_beOfNat])]
    rfl⟩

def keccak256_64 (input : List UInt8) : Bytes 32 :=
  let block := copyFromSlice (List.replicate 136 0) 0 input
  let block := block.set 64 0x01
  let block := block.set 135 0x80
  keccakOutput (P.keccakAbsorb (fun _ => 0) block)

/-- Padding up to the end of a block, in one byte if no more are left. -/
def keccakPad (input : List UInt8) : List UInt8 :=
  let left := 136 - input.length % 136
  input ++ if left = 1 then [0x81] else 0x01 :: (List.replicate (left - 2) 0 ++ [0x80])

/-- `Keccak256::digest`. -/
def keccak256 (input : List UInt8) : Bytes 32 :=
  keccakOutput ((List.range ((keccakPad input).length / 136)).foldl
    (fun state i => P.keccakAbsorb state (((keccakPad input).drop (i * 136)).take 136)) fun _ => 0)

variable {P} {input : List UInt8}

theorem set_append (xs ys : List UInt8) (i : Nat) (b : UInt8) :
    (xs ++ ys).set (xs.length + i) b = xs ++ ys.set i b := by
  rw [List.set_append_right _ _ (Nat.le_add_right _ _), Nat.add_sub_cancel_left]

theorem sha256_308_eq (h : input.length = 308) : P.sha256_308 input = P.sha256 input := by
  have hpad : sha256Pad input = input ++ [0x80, 0, 0, 0, 0, 0, 0, 0, 0, 0, 0x09, 0xa0] := by
    rw [sha256Pad, h]
    rfl
  have hlength : (sha256Pad input).length / 64 = 5 := by
    rw [hpad, List.length_append, h]
    rfl
  have hpadded : copyFromSlice (List.replicate 320 0) 0 input = input ++ List.replicate 12 0 := by
    have hcopy := copyFromSlice_zeros [] input 320
    rw [List.nil_append, List.nil_append, h] at hcopy
    exact hcopy
  rw [sha256, hlength, hpad, sha256_308, hpadded, show 308 = input.length + 0 from h.symm, set_append,
    show 318 = input.length + 10 by omega, set_append, show 319 = input.length + 11 by omega, set_append]
  rfl

theorem keccak256_64_eq (h : input.length = 64) : P.keccak256_64 input = P.keccak256 input := by
  have hpad : keccakPad input = input ++ 0x01 :: (List.replicate 70 0 ++ [0x80]) := by
    rw [keccakPad, h]
    rfl
  have hlength : (keccakPad input).length = 136 := by
    rw [hpad, List.length_append, h]
    rfl
  have hblock : copyFromSlice (List.replicate 136 0) 0 input = input ++ List.replicate 72 0 := by
    have hcopy := copyFromSlice_zeros [] input 136
    rw [List.nil_append, List.nil_append, h] at hcopy
    exact hcopy
  -- there is one block
  rw [keccak256, hlength, show List.range (136 / 136) = [0] from rfl, List.foldl_cons, List.foldl_nil,
    Nat.zero_mul, List.drop_zero, List.take_of_length_le hlength.le, hpad, keccak256_64, hblock,
    show 64 = input.length + 0 from h.symm, set_append, show 135 = input.length + 71 by omega, set_append]
  rfl

end Primitives

end Pocs.Rails
