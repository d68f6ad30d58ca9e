import Mathlib.Algebra.Order.Round
import Mathlib.Data.Int.Log
import Mathlib.Data.Rat.Floor
import Mathlib.Tactic.FieldSimp
import Mathlib.Tactic.Linarith

/-!
Numbers rounded to 53 binary digits, as floats of double precision are.

Floats are the rational numbers that they stand for. Exponents are not bounded, so nothing
overflows, and small numbers keep their digits.

* `abs_roundEven_sub_le`: rounding to an integer moves a number by a half at most.
* `abs_double_sub_le`: rounding to a double moves a number by so many binary digits at most.
* `le_double`, `double_le`: a number and its double are on the same side of every integer.
* `floor_double_div`, `ceil_double_div`: quotients are rounded to the same integers as their doubles.
-/

namespace Prism.Lib

/-! ### Integers -/

/-- The nearest integer, and the even one of two that are equally near. -/
def roundEven (x : ℚ) : ℤ :=
  if 2 * (x - ⌊x⌋) < 1 ∨ 2 * (x - ⌊x⌋) = 1 ∧ ⌊x⌋ % 2 = 0 then ⌊x⌋ else ⌊x⌋ + 1

theorem abs_roundEven_sub_le (x : ℚ) : |(roundEven x : ℚ) - x| ≤ 1 / 2 := by
  have low := Int.floor_le x
  have high := Int.lt_floor_add_one x
  unfold roundEven
  split_ifs with down
  · have near : 2 * (x - ⌊x⌋) ≤ 1 := down.elim le_of_lt fun tie => tie.1.le
    exact abs_le.mpr ⟨by linarith, by linarith⟩
  · have far : 1 ≤ 2 * (x - ⌊x⌋) := not_lt.mp (not_or.mp down).1
    push_cast
    exact abs_le.mpr ⟨by linarith, by linarith⟩

/-- What is nearer than a half is found. -/
theorem roundEven_eq_of_abs_lt {x : ℚ} {n : ℤ} (near : |x - n| < 1 / 2) : roundEven x = n := by
  have moved := abs_roundEven_sub_le x
  have close : |((roundEven x - n : ℤ) : ℚ)| < 1 := by
    have split : ((roundEven x - n : ℤ) : ℚ) = ((roundEven x : ℚ) - x) + (x - n) := by
      push_cast
      ring
    rw [split]
    exact (abs_add_le _ _).trans_lt (by linarith)
  have zero : roundEven x - n = 0 := Int.abs_lt_one_iff.mp (by exact_mod_cast close)
  omega

/-- An integer that is not above a number is not above the integer it is rounded to. -/
theorem le_roundEven {x : ℚ} {n : ℤ} (le : (n : ℚ) ≤ x) : n ≤ roundEven x := by
  have low : n ≤ ⌊x⌋ := Int.le_floor.mpr le
  unfold roundEven
  split_ifs <;> omega

/-- An integer that is not below a number is not below the integer it is rounded to. -/
theorem roundEven_le {x : ℚ} {n : ℤ} (le : x ≤ n) : roundEven x ≤ n := by
  have low := Int.floor_le x
  have le_n : ⌊x⌋ ≤ n := Int.floor_le_iff.mpr (by linarith)
  unfold roundEven
  split_ifs with down
  · exact le_n
  · -- The number is not an integer where it is rounded up.
    have apart : ⌊x⌋ ≠ n := by
      rintro rfl
      exact down (.inl (by linarith))
    omega

/-! ### Doubles -/

/-- The distance of the doubles at a number. -/
def ulp (x : ℚ) : ℚ := 2 ^ (Int.log 2 |x| - 52)

/-- The nearest double. -/
def double (x : ℚ) : ℚ := if x = 0 then 0 else roundEven (x / ulp x) * ulp x

/-- **Rounding to a double** keeps 53 digits. -/
theorem abs_double_sub_le {x : ℚ} {k : ℤ} (lt : |x| < 2 ^ k) : |double x - x| ≤ 2 ^ (k - 54) := by
  unfold double
  split_ifs with zero
  · rw [zero, sub_zero, abs_zero]
    exact (zpow_pos two_pos _).le
  · have pos : 0 < ulp x := zpow_pos two_pos _
    have small : ulp x ≤ 2 ^ (k - 53) := by
      have digits : Int.log 2 |x| < k :=
        (Int.lt_zpow_iff_log_lt Nat.one_lt_two (abs_pos.mpr zero)).mp (by exact_mod_cast lt)
      exact zpow_le_zpow_right₀ one_le_two (by omega)
    have scaled : roundEven (x / ulp x) * ulp x - x =
        ((roundEven (x / ulp x) : ℚ) - x / ulp x) * ulp x := by
      rw [sub_mul, div_mul_cancel₀ x pos.ne']
    calc |(roundEven (x / ulp x) : ℚ) * ulp x - x|
        = |(roundEven (x / ulp x) : ℚ) - x / ulp x| * ulp x := by
          rw [scaled, abs_mul, abs_of_pos pos]
      _ ≤ 1 / 2 * 2 ^ (k - 53) :=
          mul_le_mul (abs_roundEven_sub_le _) small pos.le (by norm_num)
      _ = 2 ^ (k - 54) := by
          rw [show k - 53 = (k - 54) + 1 by ring, zpow_add_one₀ two_ne_zero]
          ring

/-- The rounding is small in proportion. -/
theorem abs_double_sub_le_mul (x : ℚ) : |double x - x| ≤ |x| * 2 ^ (-53 : ℤ) := by
  by_cases zero : x = 0
  · simp [zero, double]
  · have pos := abs_pos.mpr zero
    have low : (2 : ℚ) ^ Int.log 2 |x| ≤ |x| := by
      exact_mod_cast Int.zpow_log_le_self Nat.one_lt_two pos
    have high : |x| < 2 ^ (Int.log 2 |x| + 1) := by
      exact_mod_cast Int.lt_zpow_succ_log_self Nat.one_lt_two |x|
    refine (abs_double_sub_le high).trans ?_
    rw [show Int.log 2 |x| + 1 - 54 = Int.log 2 |x| + -53 by ring, zpow_add₀ two_ne_zero]
    exact mul_le_mul_of_nonneg_right low (zpow_nonneg zero_le_two _)

/-- Rounding keeps the sign. -/
theorem double_nonneg_iff {x : ℚ} : 0 ≤ double x ↔ 0 ≤ x := by
  have near : |double x - x| ≤ |x| * (1 / 2) :=
    (abs_double_sub_le_mul x).trans (mul_le_mul_of_nonneg_left (by norm_num) (abs_nonneg x))
  obtain ⟨low, high⟩ := abs_le.mp near
  constructor
  · intro nonneg
    by_contra neg
    rw [abs_of_neg (not_le.mp neg)] at high
    linarith
  · intro nonneg
    rw [abs_of_nonneg nonneg] at low
    linarith

theorem ulp_pos (x : ℚ) : 0 < ulp x := zpow_pos two_pos _

/-- An integer is a multiple of the distance of the doubles at a number that is not too large. -/
theorem exists_eq_mul_ulp {x : ℚ} (ne : x ≠ 0) (small : |x| < 2 ^ (53 : ℤ)) (n : ℤ) :
    ∃ k : ℤ, (n : ℚ) = k * ulp x := by
  have digits : Int.log 2 |x| < 53 :=
    (Int.lt_zpow_iff_log_lt Nat.one_lt_two (abs_pos.mpr ne)).mp (by exact_mod_cast small)
  obtain ⟨j, hj⟩ := Int.eq_ofNat_of_zero_le (by omega : 0 ≤ 52 - Int.log 2 |x|)
  have inverse : (2 : ℚ) ^ j * ulp x = 1 := by
    rw [ulp, show Int.log 2 |x| - 52 = -(j : ℤ) by omega, zpow_neg, zpow_natCast,
      mul_inv_cancel₀ (pow_ne_zero _ two_ne_zero)]
  refine ⟨n * 2 ^ j, ?_⟩
  push_cast
  rw [mul_assoc, inverse, mul_one]

/-- **Rounding to a double does not pass an integer** from above. -/
theorem le_double {x : ℚ} {n : ℤ} (small : |x| < 2 ^ (53 : ℤ)) (le : (n : ℚ) ≤ x) :
    (n : ℚ) ≤ double x := by
  unfold double
  split_ifs with zero
  · rwa [zero] at le
  · obtain ⟨k, scaled⟩ := exists_eq_mul_ulp zero small n
    have multiple : (k : ℚ) ≤ x / ulp x := by
      rw [le_div_iff₀ (ulp_pos x), ← scaled]
      exact le
    have rounded : (k : ℚ) ≤ roundEven (x / ulp x) := by exact_mod_cast le_roundEven multiple
    rw [scaled]
    exact mul_le_mul_of_nonneg_right rounded (ulp_pos x).le

/-- **Rounding to a double does not pass an integer** from below. -/
theorem double_le {x : ℚ} {n : ℤ} (small : |x| < 2 ^ (53 : ℤ)) (le : x ≤ n) : double x ≤ n := by
  unfold double
  split_ifs with zero
  · rwa [zero] at le
  · obtain ⟨k, scaled⟩ := exists_eq_mul_ulp zero small n
    have multiple : x / ulp x ≤ k := by
      rw [div_le_iff₀ (ulp_pos x), ← scaled]
      exact le
    have rounded : (roundEven (x / ulp x) : ℚ) ≤ k := by exact_mod_cast roundEven_le multiple
    rw [scaled]
    exact mul_le_mul_of_nonneg_right rounded (ulp_pos x).le

/-- Integers that are not too large are doubles. -/
theorem double_intCast {n : ℤ} (small : |(n : ℚ)| < 2 ^ (53 : ℤ)) : double n = n :=
  le_antisymm (double_le small le_rfl) (le_double small le_rfl)

/-! ### Quotients -/

section Quotients

variable {n m : ℕ}

/-- A quotient is moved by less than its distance from an integer. -/
theorem abs_double_div_sub_lt (small : n < 2 ^ 53) (pos : 0 < m) :
    |double ((n : ℚ) / m) - n / m| < 1 / m := by
  have posQ : (0 : ℚ) < m := by exact_mod_cast pos
  rcases Nat.eq_zero_or_pos n with rfl | some_n
  · simp [double, pos]
  · have positive : (0 : ℚ) < (n : ℚ) / m := by positivity
    refine (abs_double_sub_le_mul _).trans_lt ?_
    rw [abs_of_pos positive, div_mul_eq_mul_div, div_lt_div_iff_of_pos_right posQ]
    have smallQ : (n : ℚ) < 2 ^ 53 := by exact_mod_cast small
    rw [zpow_neg, ← div_eq_mul_inv, div_lt_one (by positivity)]
    exact_mod_cast smallQ

theorem div_natCast_le {x : ℚ} (nonneg : 0 ≤ x) (m : ℕ) : x / m ≤ x := by
  rcases Nat.eq_zero_or_pos m with rfl | pos
  · simpa using nonneg
  · exact div_le_self nonneg (by exact_mod_cast pos)

theorem abs_div_lt (small : n < 2 ^ 53) (m : ℕ) : |(n : ℚ) / m| < 2 ^ (53 : ℤ) := by
  rw [abs_of_nonneg (by positivity)]
  have smallQ : (n : ℚ) < 2 ^ 53 := by exact_mod_cast small
  exact_mod_cast (div_natCast_le (Nat.cast_nonneg n) m).trans_lt smallQ

/-- **A quotient of integers is rounded down** as its double is. -/
theorem floor_double_div (small : n < 2 ^ 53) (pos : 0 < m) :
    ⌊double ((n : ℚ) / m)⌋ = ⌊(n : ℚ) / m⌋ := by
  have posQ : (0 : ℚ) < m := by exact_mod_cast pos
  have moved := abs_lt.mp (abs_double_div_sub_lt small pos)
  refine Int.floor_eq_iff.mpr ⟨le_double (abs_div_lt small m) (Int.floor_le _), ?_⟩
  have below : (n : ℚ) < (⌊(n : ℚ) / m⌋ + 1) * m := (div_lt_iff₀ posQ).mp (Int.lt_floor_add_one _)
  have whole : (n : ℤ) + 1 ≤ (⌊(n : ℚ) / m⌋ + 1) * m := by exact_mod_cast below
  have apart : (n : ℚ) / m + 1 / m ≤ ⌊(n : ℚ) / m⌋ + 1 := by
    rw [← add_div, div_le_iff₀ posQ]
    exact_mod_cast whole
  linarith [moved.2]

/-- **A quotient of integers is rounded up** as its double is. -/
theorem ceil_double_div (small : n < 2 ^ 53) (pos : 0 < m) :
    ⌈double ((n : ℚ) / m)⌉ = ⌈(n : ℚ) / m⌉ := by
  have posQ : (0 : ℚ) < m := by exact_mod_cast pos
  have moved := abs_lt.mp (abs_double_div_sub_lt small pos)
  refine Int.ceil_eq_iff.mpr ⟨?_, double_le (abs_div_lt small m) (Int.le_ceil _)⟩
  have above : (⌈(n : ℚ) / m⌉ - 1 : ℚ) * m < n :=
    (lt_div_iff₀ posQ).mp (by linarith [Int.ceil_lt_add_one ((n : ℚ) / m)])
  have whole : (⌈(n : ℚ) / m⌉ - 1) * m + 1 ≤ (n : ℤ) := by exact_mod_cast above
  have apart : (⌈(n : ℚ) / m⌉ - 1 : ℚ) + 1 / m ≤ n / m := by
    rw [← sub_nonneg, show (n : ℚ) / m - (⌈(n : ℚ) / m⌉ - 1 + 1 / m) =
      (n - ((⌈(n : ℚ) / m⌉ - 1) * m + 1)) / m by field_simp]
    refine div_nonneg (sub_nonneg.mpr ?_) posQ.le
    exact_mod_cast whole
  linarith [moved.1]

end Quotients

end Prism.Lib
