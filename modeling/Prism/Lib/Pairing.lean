import Mathlib.Algebra.Group.Basic

/-!
Symmetric bilinear pairings of an additive group with values in a multiplicative one.

* `pair_mask`: the law behind encryption to an identity. Who knows only `s • P` and who knows only
  `s • Q` compute the same value, once they share an exponent.
-/

namespace Prism.Lib

/-- A symmetric pairing that is linear in its arguments. -/
structure Pairing (G T : Type*) [AddCommGroup G] [CommGroup T] where
  pair : G → G → T
  pair_add_left : ∀ P Q R, pair (P + Q) R = pair P R * pair Q R
  pair_comm : ∀ P Q, pair P Q = pair Q P

namespace Pairing

variable {G T : Type*} [AddCommGroup G] [CommGroup T] (e : Pairing G T)

@[simp] theorem pair_zero_left (Q : G) : e.pair 0 Q = 1 := by
  have doubled := e.pair_add_left 0 0 Q
  rw [add_zero] at doubled
  exact mul_eq_left.mp doubled.symm

theorem pair_nsmul_left (n : ℕ) (P Q : G) : e.pair (n • P) Q = e.pair P Q ^ n := by
  induction n with
  | zero => rw [zero_nsmul, pair_zero_left, pow_zero]
  | succ n ih => rw [succ_nsmul, e.pair_add_left, ih, pow_succ]

theorem pair_nsmul_right (n : ℕ) (P Q : G) : e.pair P (n • Q) = e.pair P Q ^ n := by
  rw [e.pair_comm, pair_nsmul_left, e.pair_comm]

/-- **The shared mask.** The factor `s` of the first argument goes to the second, and the exponent
`l` to the first. -/
theorem pair_mask (s l : ℕ) (P Q : G) :
    e.pair (s • P) Q ^ l = e.pair (l • P) (s • Q) := by
  rw [pair_nsmul_left, pair_nsmul_left, pair_nsmul_right]

end Pairing

end Prism.Lib
