import Prism.Python
import Mathlib.Data.Int.GCD
import Mathlib.Algebra.Field.ZMod
import Mathlib.RingTheory.Int.Basic
import Mathlib.Tactic.LinearCombination

/-!
Modular inverses (`prism/common/crypto/modmath.py`).

`xgcd` is the extended Euclidean loop over Python integers: `//` and `%` round
towards minus infinity (`Int.fdiv`, `Int.fmod`), so the loop also runs on negative
arguments. `xgcd_bezout` is its loop invariant read at the exit, `xgcd_gcd` says that
the returned divisor is the greatest common divisor up to sign, and
`modinv_of_coprime` what `modinv` returns on coprime arguments. `xgcd_modinv` puts these
together: the inverse is the only one, and without one `modinv` raises.
-/

namespace Prism.Crypto

/-- The remainder of a floor division is smaller than the divisor. -/
theorem natAbs_fmod_lt (a : ℤ) {b : ℤ} (h : b ≠ 0) : (a.fmod b).natAbs < b.natAbs := by
  rcases lt_or_gt_of_ne h with neg | pos
  · have h1 := Int.fmod_nonneg_of_pos (-a) (Int.neg_pos.mpr neg)
    have h2 := Int.fmod_lt_of_pos (-a) (Int.neg_pos.mpr neg)
    rw [Int.neg_fmod_neg] at h1 h2
    omega
  · have h1 := Int.fmod_nonneg_of_pos a pos
    have h2 := Int.fmod_lt_of_pos a pos
    omega

/-- The loop of `xgcd`, with the previous and current coefficients. -/
def xgcdLoop (a b prevx x prevy y : ℤ) : ℤ × ℤ × ℤ :=
  if _h : b = 0 then (a, prevx, prevy)
  else
    let q := a.fdiv b
    xgcdLoop b (a.fmod b) x (prevx - q * x) y (prevy - q * y)
termination_by b.natAbs
decreasing_by exact natAbs_fmod_lt a _h

/-- `xgcd`. -/
def xgcd (a b : ℤ) : ℤ × ℤ × ℤ := xgcdLoop a b 1 0 0 1

/-- `modinv`. -/
def modinv (a m : ℤ) : Py ℤ :=
  let (g, x, _) := xgcd a m
  if g ≠ 1 then .error (.noModularInverse "modular inverse does not exist")
  else .ok (x.fmod m)

/-- One step of the loop keeps the greatest common divisor. -/
theorem gcd_fmod (a b : ℤ) : Int.gcd b (a.fmod b) = Int.gcd a b := by
  have split : a.fmod b = a - b * a.fdiv b := Int.fmod_def a b
  rw [split, Int.gcd_comm a b, show a - b * a.fdiv b = a + b * (-a.fdiv b) by ring]
  exact Int.gcd_add_mul_left_right b a _

/-- Loop invariant of the extended Euclidean algorithm: with both running values
written over the original arguments, so is the returned divisor. -/
theorem xgcdLoop_bezout (s t a b prevx x prevy y : ℤ) (ha : s * prevx + t * prevy = a)
    (hb : s * x + t * y = b) :
    let r := xgcdLoop a b prevx x prevy y
    s * r.2.1 + t * r.2.2 = r.1 := by
  induction a, b, prevx, x, prevy, y using xgcdLoop.induct with
  | case1 a prevx x prevy y =>
      unfold xgcdLoop
      simpa using ha
  | case2 a b prevx x prevy y h q ih =>
      unfold xgcdLoop
      rw [dif_neg h]
      refine ih hb ?_
      rw [Int.fmod_def]
      linear_combination ha - q * hb

/-- The returned divisor is the greatest common divisor up to sign. -/
theorem xgcdLoop_gcd (a b prevx x prevy y : ℤ) :
    (xgcdLoop a b prevx x prevy y).1.natAbs = Int.gcd a b := by
  induction a, b, prevx, x, prevy, y using xgcdLoop.induct with
  | case1 a prevx x prevy y =>
      unfold xgcdLoop
      simp
  | case2 a b prevx x prevy y h q ih =>
      unfold xgcdLoop
      rw [dif_neg h]
      exact ih.trans (gcd_fmod a b)

/-- The divisor is not negative once the second argument is positive: every later
remainder is not negative either. -/
theorem xgcdLoop_nonneg (a b prevx x prevy y : ℤ) (hb : 0 < b ∨ b = 0 ∧ 0 ≤ a) :
    0 ≤ (xgcdLoop a b prevx x prevy y).1 := by
  induction a, b, prevx, x, prevy, y using xgcdLoop.induct with
  | case1 a prevx x prevy y =>
      unfold xgcdLoop
      simpa using hb
  | case2 a b prevx x prevy y h q ih =>
      unfold xgcdLoop
      rw [dif_neg h]
      have pos : 0 < b := by tauto
      have nonneg := Int.fmod_nonneg_of_pos a pos
      refine ih ?_
      omega

theorem xgcd_bezout (a m : ℤ) : a * (xgcd a m).2.1 + m * (xgcd a m).2.2 = (xgcd a m).1 :=
  xgcdLoop_bezout a m a m 1 0 0 1 (by ring) (by ring)

theorem xgcd_gcd {m : ℤ} (pos : 0 < m) (a : ℤ) : (xgcd a m).1 = Int.gcd a m := by
  have abs := xgcdLoop_gcd a m 1 0 0 1
  have nonneg := xgcdLoop_nonneg a m 1 0 0 1 (.inl pos)
  unfold xgcd
  omega

/-- On coprime arguments `modinv` returns an inverse in `[0, m)`. -/
theorem modinv_of_coprime {a m : ℤ} (pos : 0 < m) (coprime : Int.gcd a m = 1) :
    ∃ v, modinv a m = .ok v ∧ 0 ≤ v ∧ v < m ∧ m ∣ a * v - 1 := by
  have divisor : (xgcd a m).1 = 1 := by rw [xgcd_gcd pos, coprime]; rfl
  refine ⟨(xgcd a m).2.1.fmod m, ?_, Int.fmod_nonneg_of_pos _ pos, Int.fmod_lt_of_pos _ pos, ?_⟩
  · unfold modinv
    simp [divisor]
  · have bezout := xgcd_bezout a m
    rw [divisor] at bezout
    refine ⟨-(xgcd a m).2.2 - a * (xgcd a m).2.1.fdiv m, ?_⟩
    rw [Int.fmod_def]
    linear_combination bezout

/-- On other arguments `modinv` raises. -/
theorem modinv_of_not_coprime {a m : ℤ} (pos : 0 < m) (common : Int.gcd a m ≠ 1) :
    modinv a m = .error (.noModularInverse "modular inverse does not exist") := by
  have divisor : (xgcd a m).1 ≠ 1 := by
    rw [xgcd_gcd pos]
    exact_mod_cast common
  unfold modinv
  simp [divisor]

/-- There is one inverse in `[0, m)`. -/
theorem inverse_unique {a m v w : ℤ} (inverse : a * v ≡ 1 [ZMOD m]) (inverse' : a * w ≡ 1 [ZMOD m])
    (low : 0 ≤ v) (high : v < m) (low' : 0 ≤ w) (high' : w < m) : w = v := by
  have same : w ≡ v [ZMOD m] := calc
    w = w * 1 := (mul_one w).symm
    _ ≡ w * (a * v) [ZMOD m] := (inverse.symm).mul_left w
    _ = a * w * v := by ring
    _ ≡ 1 * v [ZMOD m] := inverse'.mul_right v
    _ = v := one_mul v
  rwa [Int.ModEq, Int.emod_eq_of_lt low' high', Int.emod_eq_of_lt low high] at same

/-- **The extended Euclidean algorithm and inverses**, for all integers and any modulus: the
coefficients make up the greatest common divisor, and `modinv` returns the only inverse if there is
one, and raises if not. -/
theorem xgcd_modinv {m : ℤ} (one_lt : 1 < m) (a : ℤ) :
    (∃ g x y, xgcd a m = (g, x, y) ∧ a * x + m * y = g ∧ g.natAbs = Int.gcd a m) ∧
      (Int.gcd a m = 1 → ∃ x, modinv a m = .ok x ∧ 0 ≤ x ∧ x < m ∧ a * x ≡ 1 [ZMOD m] ∧
        ∀ y, 0 ≤ y → y < m → a * y ≡ 1 [ZMOD m] → y = x) ∧
      (Int.gcd a m ≠ 1 →
        modinv a m = .error (.noModularInverse "modular inverse does not exist")) := by
  have pos : 0 < m := by omega
  refine ⟨⟨_, _, _, rfl, xgcd_bezout a m, ?_⟩, ?_, modinv_of_not_coprime pos⟩
  · exact xgcdLoop_gcd a m 1 0 0 1
  · intro coprime
    obtain ⟨x, run, low, high, dvd⟩ := modinv_of_coprime pos coprime
    have inverse : a * x ≡ 1 [ZMOD m] := (Int.modEq_iff_dvd.mpr dvd).symm
    exact ⟨x, run, low, high, inverse, fun y low' high' inverse' =>
      inverse_unique inverse inverse' low high low' high'⟩

/-- A negative number and a composite modulus. -/
theorem xgcd_modinv_negative :
    (∃ g x y, xgcd (-7) 12 = (g, x, y) ∧ -7 * x + 12 * y = g ∧ g.natAbs = Int.gcd (-7) 12) ∧
      (Int.gcd (-7) 12 = 1 → ∃ x, modinv (-7) 12 = .ok x ∧ 0 ≤ x ∧ x < 12 ∧
        -7 * x ≡ 1 [ZMOD 12] ∧ ∀ y, 0 ≤ y → y < 12 → -7 * y ≡ 1 [ZMOD 12] → y = x) ∧
      (Int.gcd (-7) 12 ≠ 1 →
        modinv (-7) 12 = .error (.noModularInverse "modular inverse does not exist")) :=
  xgcd_modinv (by decide) (-7)

/-- Modulo a prime, `modinv` returns the field inverse of every nonzero residue. -/
theorem modinv_prime {p : ℕ} (prime : p.Prime) {a : ℤ} (nonzero : (a : ZMod p) ≠ 0) :
    ∃ v : ℤ, modinv a p = .ok v ∧ (v : ZMod p) = (a : ZMod p)⁻¹ := by
  have ndvd : ¬ (p : ℤ) ∣ a := fun h => nonzero ((ZMod.intCast_zmod_eq_zero_iff_dvd a p).mpr h)
  have coprime : Int.gcd a p = 1 := by
    rw [Int.gcd_comm]
    exact Int.isCoprime_iff_gcd_eq_one.mp
      ((Nat.prime_iff_prime_int.mp prime).coprime_iff_not_dvd.mpr ndvd)
  obtain ⟨v, run, -, -, dvd⟩ := modinv_of_coprime (by exact_mod_cast prime.pos) coprime
  refine ⟨v, run, ?_⟩
  have : Fact p.Prime := ⟨prime⟩
  have one : (a : ZMod p) * v = 1 := by
    have := (ZMod.intCast_zmod_eq_zero_iff_dvd _ p).mpr dvd
    push_cast at this
    exact sub_eq_zero.mp this
  exact (inv_eq_of_mul_eq_one_right one).symm

end Prism.Crypto
