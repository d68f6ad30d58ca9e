import Mathlib.Data.Nat.ChineseRemainder
import Mathlib.FieldTheory.Finite.Basic
import Mathlib.Algebra.Field.ZMod
import Mathlib.Data.Nat.Prime.Basic

/-!
The RSA permutation.

For distinct primes `p` and `q` and exponents that are inverse to each other modulo
`lcm (p - 1) (q - 1)`, raising to one and then to the other is the identity on the numbers
below `p * q`, also on those that are not coprime to it (`pow_pow_mod`).
-/

namespace Prism.Lib.Rsa

/-- Modulo a prime, a power whose exponent is one more than a multiple of `p - 1` changes
nothing. -/
theorem pow_modEq_self {p : ℕ} (prime : p.Prime) {k : ℕ} (exponent : k ≡ 1 [MOD p - 1])
    (pos : 1 ≤ k) (m : ℕ) : m ^ k ≡ m [MOD p] := by
  have : Fact p.Prime := ⟨prime⟩
  rw [← ZMod.natCast_eq_natCast_iff, Nat.cast_pow]
  by_cases zero : (m : ZMod p) = 0
  · rw [zero, zero_pow (by omega)]
  · obtain ⟨t, eq⟩ := (Nat.modEq_iff_dvd' pos).mp exponent.symm
    have split : k = (p - 1) * t + 1 := by omega
    rw [split, pow_succ, pow_mul, ZMod.pow_card_sub_one_eq_one zero, one_pow, one_mul]

/-- **The two exponentiations are inverse to each other.** -/
theorem pow_pow_mod {p q e d : ℕ} (hp : p.Prime) (hq : q.Prime) (ne : p ≠ q)
    (inverse : e * d ≡ 1 [MOD Nat.lcm (p - 1) (q - 1)]) (pos : 1 ≤ e * d) {m : ℕ}
    (lt : m < p * q) : (m ^ d % (p * q)) ^ e % (p * q) = m := by
  have byP := pow_modEq_self hp (inverse.of_dvd (Nat.dvd_lcm_left _ _)) pos m
  have byQ := pow_modEq_self hq (inverse.of_dvd (Nat.dvd_lcm_right _ _)) pos m
  have coprime : p.Coprime q := (Nat.coprime_primes hp hq).mpr ne
  have both : m ^ (e * d) ≡ m [MOD p * q] :=
    (Nat.modEq_and_modEq_iff_modEq_mul coprime).mp ⟨byP, byQ⟩
  rw [← Nat.pow_mod, ← pow_mul, mul_comm d e]
  rwa [Nat.ModEq, Nat.mod_eq_of_lt lt] at both

end Prism.Lib.Rsa
