import Prism.Crypto.Shamir

/-!
Polynomials with a given root (`random_polynomial_root_at` in
`prism/common/crypto/secretsharing/shamir.py` and `feldmans.py`).

The coefficients are made from drawn ones, from the highest degree down: each is the drawn one,
less the root times the one drawn before. That is the product of the drawn polynomial and
`X - iq`, so the sharing is one of zero at `iq`.

* `rootCoeffsLoop_spec`: what the coefficients are after each step.
* `rootCoeffs_eval`: the polynomial is zero at `iq`.
-/

namespace Prism.Crypto

open Polynomial

/-- `init_coeff`: the drawn coefficients, and a zero. -/
def initCoeff (drawn : List ℤ) (i : ℕ) : ℤ := (drawn ++ [0]).getD i 0

/-- The first `steps` rounds of the loop of `random_polynomial_root_at`. -/
def rootCoeffsLoop (modulus : ℕ) (iq : ℤ) (drawn : List ℤ) (steps : ℕ) : List ℤ :=
  (List.range' 1 steps).foldl
    (fun coeff i => (initCoeff drawn i - iq * initCoeff drawn (i - 1)) % modulus :: coeff)
    [initCoeff drawn 0]

/-- The coefficients of `random_polynomial_root_at`. -/
def rootCoeffs (modulus : ℕ) (iq : ℤ) (drawn : List ℤ) : List ℤ :=
  rootCoeffsLoop modulus iq drawn drawn.length

variable (modulus : ℕ) (iq : ℤ) (drawn : List ℤ)

theorem rootCoeffsLoop_succ (steps : ℕ) :
    rootCoeffsLoop modulus iq drawn (steps + 1) =
      (initCoeff drawn (steps + 1) - iq * initCoeff drawn steps) % modulus ::
        rootCoeffsLoop modulus iq drawn steps := by
  rw [rootCoeffsLoop, List.range'_concat, List.foldl_append, List.foldl_cons, List.foldl_nil,
    Nat.one_mul, Nat.add_comm 1 steps, Nat.add_sub_cancel, ← rootCoeffsLoop]

/-- **Loop invariant**: a multiple of `X - iq`, and the coefficient that was drawn last. -/
theorem rootCoeffsLoop_spec (steps : ℕ) :
    (rootCoeffsLoop modulus iq drawn steps).length = steps + 1 ∧
      ∃ S : (ZMod modulus)[X], coeffPoly modulus (rootCoeffsLoop modulus iq drawn steps) =
        (X - C (iq : ZMod modulus)) * S + C (initCoeff drawn steps : ZMod modulus) := by
  induction steps with
  | zero => exact ⟨rfl, 0, by simp [rootCoeffsLoop, coeffPoly]⟩
  | succ steps ih =>
      obtain ⟨length, S, poly⟩ := ih
      rw [rootCoeffsLoop_succ, List.length_cons, length]
      refine ⟨rfl, X * S + C (initCoeff drawn steps : ZMod modulus), ?_⟩
      rw [coeffPoly, poly, ZMod.intCast_mod]
      simp only [Int.cast_sub, Int.cast_mul, C_sub, C_mul]
      ring

theorem length_rootCoeffs : (rootCoeffs modulus iq drawn).length = drawn.length + 1 :=
  (rootCoeffsLoop_spec modulus iq drawn drawn.length).1

/-- **The root.** -/
theorem rootCoeffs_eval :
    (coeffPoly modulus (rootCoeffs modulus iq drawn)).eval (iq : ZMod modulus) = 0 := by
  obtain ⟨-, S, poly⟩ := rootCoeffsLoop_spec modulus iq drawn drawn.length
  have last : initCoeff drawn drawn.length = 0 := by simp [initCoeff]
  rw [rootCoeffs, poly, last]
  simp

namespace ShamirSS

variable (ss : ShamirSS)

/-- The share of party `i` of a polynomial with a root. -/
def rootShareOf (iq : ℤ) (drawn : List ℤ) (i : ℕ) : Share :=
  ⟨ss.P (rootCoeffs ss.modulus iq drawn) (i + 1), i⟩

/-- `random_polynomial_root_at`. -/
def randomPolynomialRootAt (iq : ℤ) (drawn : ss.Draw) : List Share :=
  (List.range ss.nparties).map (ss.rootShareOf iq drawn.1)

end ShamirSS

end Prism.Crypto
