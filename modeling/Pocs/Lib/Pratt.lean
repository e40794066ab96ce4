import Mathlib.NumberTheory.LucasPrimality

/-! # Certificates of primality

Powers modulo a number by squaring, so that the Lucas test for primes is a computation on numbers of a few
hundred bits. -/

namespace Pocs

/-- `a ^ e % m` by squaring, for exponents of at most `fuel` bits. -/
def powMod (m : Nat) : Nat → Nat → Nat → Nat
  | 0, _, _ => 1 % m
  | fuel + 1, a, e =>
    let r := powMod m fuel (a * a % m) (e / 2)
    if e % 2 = 1 then a * r % m else r

theorem powMod_eq {m fuel a e : Nat} (h : e < 2 ^ fuel) : powMod m fuel a e = a ^ e % m := by
  induction fuel generalizing a e with
  | zero =>
    obtain rfl := Nat.lt_one_iff.mp h
    rfl
  | succ fuel ih =>
    have hhalf : e / 2 < 2 ^ fuel := by
      rw [Nat.div_lt_iff_lt_mul Nat.two_pos]
      exact h
    have hsquare : powMod m fuel (a * a % m) (e / 2) = a ^ (2 * (e / 2)) % m := by
      rw [ih hhalf, ← Nat.pow_mod, ← Nat.pow_two, ← Nat.pow_mul]
    rw [powMod, hsquare]
    split
    · next hodd =>
      have he : 2 * (e / 2) + 1 = e := by omega
      rw [Nat.mul_mod_mod, ← Nat.pow_succ', Nat.succ_eq_add_one, he]
    · next heven =>
      have he : 2 * (e / 2) = e := by omega
      rw [he]

theorem natCast_pow_eq_iff {m fuel a b e : Nat} (h : e < 2 ^ fuel) :
    (a : ZMod m) ^ e = b ↔ powMod m fuel a e = b % m := by
  rw [← Nat.cast_pow, ZMod.natCast_eq_natCast_iff', powMod_eq h]

/-- The powers of the base, for `p - 1` as a product of prime powers. -/
def prattCheck (p base : Nat) (factors : List (Nat × Nat)) : Bool :=
  decide (p < 2 ^ 256) && decide ((factors.map fun f => f.1 ^ f.2).prod = p - 1) &&
    decide (powMod p 256 base (p - 1) = 1 % p) &&
    factors.all fun f => decide (powMod p 256 base ((p - 1) / f.1) ≠ 1 % p)

theorem prime_of_prattCheck {p base : Nat} {factors : List (Nat × Nat)}
    (hprime : ∀ f ∈ factors, f.1.Prime) (h : prattCheck p base factors = true) : p.Prime := by
  simp only [prattCheck, Bool.and_eq_true, decide_eq_true_iff, List.all_eq_true] at h
  obtain ⟨⟨⟨hlt, hprod⟩, hone⟩, hne⟩ := h
  have hpow : ∀ e ≤ p - 1, (base : ZMod p) ^ e = 1 ↔ powMod p 256 base e = 1 % p := by
    intro e he
    rw [← natCast_pow_eq_iff (he.trans_lt (Nat.sub_lt_of_lt hlt)), Nat.cast_one]
  refine lucas_primality p base ((hpow _ (Nat.le_refl _)).mpr hone) fun q hq hdvd => ?_
  -- a prime divisor of `p - 1` is one of the factors
  rw [← hprod, hq.prime.dvd_prod_iff] at hdvd
  obtain ⟨_, hmem, hdvd⟩ := hdvd
  obtain ⟨f, hf, rfl⟩ := List.mem_map.mp hmem
  obtain rfl := (Nat.prime_dvd_prime_iff_eq hq (hprime f hf)).mp (hq.dvd_of_dvd_pow hdvd)
  rw [Ne, hpow _ (Nat.div_le_self _ _)]
  exact hne f hf

/-- Certificates in order: each factor is a number known before or certified above it. -/
def prattChain (known : List Nat) : List (Nat × Nat × List (Nat × Nat)) → Bool
  | [] => true
  | (p, base, factors) :: certificates =>
    factors.all (fun f => known.contains f.1) && prattCheck p base factors &&
      prattChain (p :: known) certificates

theorem prime_of_prattChain {certificates : List (Nat × Nat × List (Nat × Nat))} {known : List Nat}
    (hknown : ∀ q ∈ known, q.Prime) (h : prattChain known certificates = true) :
    ∀ p ∈ certificates.map Prod.fst, p.Prime := by
  induction certificates generalizing known with
  | nil =>
    intro p hp
    exact absurd hp List.not_mem_nil
  | cons c certificates ih =>
    obtain ⟨p, base, factors⟩ := c
    simp only [prattChain, Bool.and_eq_true, List.all_eq_true, List.contains_iff_mem] at h
    obtain ⟨⟨hfactors, hcheck⟩, hrest⟩ := h
    have hp : p.Prime := prime_of_prattCheck (fun f hf => hknown _ (hfactors f hf)) hcheck
    rw [List.map_cons, List.forall_mem_cons]
    exact ⟨hp, ih (List.forall_mem_cons.mpr ⟨hp, hknown⟩) hrest⟩

end Pocs
