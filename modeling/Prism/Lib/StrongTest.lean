import Mathlib.Algebra.Field.ZMod
import Mathlib.FieldTheory.Finite.Basic

/-!
The strong test for primes, one base at a time.

Write `n - 1` as `2 ^ s * r` with an odd `r`. For a prime `n`, the powers of a base with the
exponents `r`, `2 * r`, `2 ^ 2 * r` and so on end in one at `2 ^ s * r`, and one has no square roots
but one and minus one. So the first of them is one, or some power before the last is minus one. A
base for which neither is so is a witness that `n` is not a prime (`IsWitness`).

* `isWitness_iff`: there is one way to write `n - 1`.
* `not_isWitness_of_prime`: a prime has no witnesses among the bases it does not divide.
-/

namespace Prism.Lib

/-- The base `a` proves that `n` is not a prime. -/
def IsWitness (n a : ℤ) : Prop :=
  ∃ s r : ℕ, Odd r ∧ n - 1 = 2 ^ s * r ∧
    ¬ a ^ r ≡ 1 [ZMOD n] ∧ ∀ i < s, ¬ a ^ (2 ^ i * r) ≡ -1 [ZMOD n]

/-- A power of two divides another number's power of two. -/
theorem le_of_two_pow_mul_eq {s r s' r' : ℕ} (odd' : Odd r') (same : 2 ^ s * r = 2 ^ s' * r') :
    s ≤ s' := by
  have coprime : Nat.Coprime (2 ^ s) r' := (Nat.coprime_two_left.mpr odd').pow_left s
  have divides : 2 ^ s ∣ 2 ^ s' * r' := ⟨r, same.symm⟩
  exact (Nat.pow_dvd_pow_iff_le_right (by norm_num)).mp (coprime.dvd_of_dvd_mul_right divides)

/-- **The odd part of a number** and its power of two are unique. -/
theorem two_pow_mul_odd_unique {s r s' r' : ℕ} (odd : Odd r) (odd' : Odd r')
    (same : 2 ^ s * r = 2 ^ s' * r') : s = s' ∧ r = r' := by
  obtain rfl : s = s' :=
    le_antisymm (le_of_two_pow_mul_eq odd' same) (le_of_two_pow_mul_eq odd same.symm)
  exact ⟨rfl, Nat.eq_of_mul_eq_mul_left (by positivity) same⟩

/-- It does not matter how `n - 1` is written. -/
theorem isWitness_iff {n a : ℤ} {s r : ℕ} (odd : Odd r) (split : n - 1 = 2 ^ s * r) :
    IsWitness n a ↔ ¬ a ^ r ≡ 1 [ZMOD n] ∧ ∀ i < s, ¬ a ^ (2 ^ i * r) ≡ -1 [ZMOD n] := by
  constructor
  · rintro ⟨s', r', odd', split', witness⟩
    have same : 2 ^ s * r = 2 ^ s' * r' := by exact_mod_cast split.symm.trans split'
    obtain ⟨rfl, rfl⟩ := two_pow_mul_odd_unique odd odd' same
    exact witness
  · exact fun witness => ⟨s, r, odd, split, witness⟩

section Roots

variable {R : Type} [Ring R] [NoZeroDivisors R]

/-- Square roots of one, taken again and again: the first that is not one is minus one. -/
theorem eq_one_or_exists_neg_one {s : ℕ} {x : R} (one : x ^ 2 ^ s = 1) :
    x = 1 ∨ ∃ i < s, x ^ 2 ^ i = -1 := by
  induction s with
  | zero => exact .inl (by simpa using one)
  | succ s ih =>
      rw [pow_succ, pow_mul] at one
      rcases sq_eq_one_iff.mp one with one | minus
      · rcases ih one with one | ⟨i, lt, minus⟩
        · exact .inl one
        · exact .inr ⟨i, by omega, minus⟩
      · exact .inr ⟨s, by omega, minus⟩

end Roots

/-- **A prime has no witnesses.** -/
theorem not_isWitness_of_prime {p : ℕ} (prime : p.Prime) {a : ℤ} (ndvd : ¬ (p : ℤ) ∣ a) :
    ¬ IsWitness p a := by
  rintro ⟨s, r, -, split, first, later⟩
  have : Fact p.Prime := ⟨prime⟩
  have nonzero : (a : ZMod p) ≠ 0 := fun zero =>
    ndvd ((ZMod.intCast_zmod_eq_zero_iff_dvd a p).mp zero)
  have exponent : p - 1 = r * 2 ^ s := by
    have one_le := prime.one_le
    rw [mul_comm]
    zify [one_le]
    exact split
  have fermat : ((a : ZMod p) ^ r) ^ 2 ^ s = 1 := by
    rw [← pow_mul, ← exponent]
    exact ZMod.pow_card_sub_one_eq_one nonzero
  rcases eq_one_or_exists_neg_one fermat with one | ⟨i, lt, minus⟩
  · exact first ((ZMod.intCast_eq_intCast_iff _ _ p).mp (by push_cast; exact one))
  · refine later i lt ((ZMod.intCast_eq_intCast_iff _ _ p).mp ?_)
    push_cast
    rw [mul_comm, pow_mul]
    exact minus

end Prism.Lib
