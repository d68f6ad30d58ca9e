import Mathlib.Data.Int.ConditionallyCompleteOrder
import Prism.Lib.Double

/-!
Rounding to so many digits of a base, ties to even.

Numbers are rounded to a first digit and `d` more digits of the base `b`, so that `b ^ d` is the
least and `b ^ (d + 1) - 1` the greatest number that the digits are. Exponents are not bounded.

* `roundDigits_mono`: rounding keeps the order of numbers.
* `roundDigits_idem`: what is rounded stays.
* `double_eq`: the doubles are rounded so.
-/

namespace Prism.Lib

/-! ### Integers -/

/-- Rounding to integers keeps the order. -/
theorem roundEven_mono : Monotone roundEven := by
  intro x y le
  by_contra lt
  obtain ⟨-, above⟩ := abs_le.mp (abs_roundEven_sub_le x)
  obtain ⟨below, -⟩ := abs_le.mp (abs_roundEven_sub_le y)
  have apart : (roundEven y : ℚ) + 1 ≤ roundEven x := by exact_mod_cast not_le.mp lt
  -- Both numbers are in the middle of the two integers, so that they are the same.
  have same : x = y := by linarith
  exact lt (congrArg roundEven same).le

theorem roundEven_intCast (n : ℤ) : roundEven n = n :=
  roundEven_eq_of_abs_lt (by rw [sub_self, abs_zero]; norm_num)

/-! ### Digits -/

/-- The value of the last digit. -/
def unitOf (b d : ℕ) (x : ℚ) : ℚ := (b : ℚ) ^ (Int.log b |x| - d)

/-- The nearest number with `d + 1` digits of a base. -/
def roundDigits (b d : ℕ) (x : ℚ) : ℚ :=
  if x = 0 then 0 else roundEven (x / unitOf b d x) * unitOf b d x

section Digits

variable {b d : ℕ} {x y : ℚ} {e : ℤ}

theorem roundDigits_zero : roundDigits b d 0 = 0 := if_pos rfl

/-- The first digit has the value of `b ^ e`. -/
theorem unitOf_eq (base : 1 < b) (low : (b : ℚ) ^ e ≤ x) (high : x < (b : ℚ) ^ (e + 1)) :
    unitOf b d x = (b : ℚ) ^ (e - d) := by
  have posB : (0 : ℚ) < b := by exact_mod_cast Nat.zero_lt_of_lt base
  have pos : 0 < x := (zpow_pos posB e).trans_le low
  have lower : e ≤ Int.log b x := (Int.zpow_le_iff_le_log base pos).mp low
  have upper : Int.log b x < e + 1 := (Int.lt_zpow_iff_log_lt base pos).mp high
  rw [unitOf, abs_of_pos pos, show Int.log b x = e by omega]

/-- A number lies between two powers of the base. -/
theorem exists_first_digit (base : 1 < b) (pos : 0 < x) :
    ∃ e : ℤ, (b : ℚ) ^ e ≤ x ∧ x < (b : ℚ) ^ (e + 1) :=
  ⟨Int.log b x, Int.zpow_log_le_self base pos, Int.lt_zpow_succ_log_self base x⟩

theorem roundDigits_eq (base : 1 < b) (low : (b : ℚ) ^ e ≤ x) (high : x < (b : ℚ) ^ (e + 1)) :
    roundDigits b d x = roundEven (x / (b : ℚ) ^ (e - d)) * (b : ℚ) ^ (e - d) := by
  have posB : (0 : ℚ) < b := by exact_mod_cast Nat.zero_lt_of_lt base
  have pos : 0 < x := (zpow_pos posB e).trans_le low
  rw [roundDigits, if_neg pos.ne', unitOf_eq base low high]

/-- A multiple of the last digit is not passed from above. -/
theorem le_roundDigits (base : 1 < b) (low : (b : ℚ) ^ e ≤ x) (high : x < (b : ℚ) ^ (e + 1))
    {k : ℤ} (le : k * (b : ℚ) ^ (e - d) ≤ x) : k * (b : ℚ) ^ (e - d) ≤ roundDigits b d x := by
  have posB : (0 : ℚ) < b := by exact_mod_cast Nat.zero_lt_of_lt base
  have unit : (0 : ℚ) < (b : ℚ) ^ (e - d) := zpow_pos posB _
  rw [roundDigits_eq base low high]
  have rounded : (k : ℚ) ≤ roundEven (x / (b : ℚ) ^ (e - d)) := by
    exact_mod_cast le_roundEven ((le_div_iff₀ unit).mpr le)
  exact mul_le_mul_of_nonneg_right rounded unit.le

/-- A multiple of the last digit is not passed from below. -/
theorem roundDigits_le (base : 1 < b) (low : (b : ℚ) ^ e ≤ x) (high : x < (b : ℚ) ^ (e + 1))
    {k : ℤ} (le : x ≤ k * (b : ℚ) ^ (e - d)) : roundDigits b d x ≤ k * (b : ℚ) ^ (e - d) := by
  have posB : (0 : ℚ) < b := by exact_mod_cast Nat.zero_lt_of_lt base
  have unit : (0 : ℚ) < (b : ℚ) ^ (e - d) := zpow_pos posB _
  rw [roundDigits_eq base low high]
  have rounded : (roundEven (x / (b : ℚ) ^ (e - d)) : ℚ) ≤ k := by
    exact_mod_cast roundEven_le ((div_le_iff₀ unit).mpr le)
  exact mul_le_mul_of_nonneg_right rounded unit.le

/-- A power of the base as a multiple of the last digit. -/
theorem natPow_mul_zpow (base : 1 < b) (n : ℕ) (c : ℤ) :
    ((b ^ n : ℤ) : ℚ) * (b : ℚ) ^ c = (b : ℚ) ^ (c + n) := by
  have ne : (b : ℚ) ≠ 0 := by exact_mod_cast (Nat.zero_lt_of_lt base).ne'
  push_cast
  rw [mul_comm, ← zpow_natCast, ← zpow_add₀ ne]

/-- **The powers of the base** around a number are around its rounding. -/
theorem roundDigits_mem (base : 1 < b) (low : (b : ℚ) ^ e ≤ x) (high : x < (b : ℚ) ^ (e + 1)) :
    (b : ℚ) ^ e ≤ roundDigits b d x ∧ roundDigits b d x ≤ (b : ℚ) ^ (e + 1) := by
  constructor
  · have kept := le_roundDigits (d := d) (k := b ^ d) base low high
    rw [natPow_mul_zpow base, sub_add_cancel] at kept
    exact kept low
  · have kept := roundDigits_le (d := d) (k := b ^ (d + 1)) base low high
    rw [natPow_mul_zpow base, show e - d + ((d + 1 : ℕ) : ℤ) = e + 1 by push_cast; ring] at kept
    exact kept high.le

theorem roundDigits_nonneg (base : 1 < b) (nonneg : 0 ≤ x) : 0 ≤ roundDigits b d x := by
  rcases nonneg.eq_or_lt with rfl | pos
  · exact roundDigits_zero.ge
  · obtain ⟨e, low, high⟩ := exists_first_digit base pos
    have posB : (0 : ℚ) < b := by exact_mod_cast Nat.zero_lt_of_lt base
    exact (zpow_pos posB e).le.trans (roundDigits_mem base low high).1

/-- **Rounding keeps the order** of numbers that are not negative. -/
theorem roundDigits_mono (base : 1 < b) (nonneg : 0 ≤ x) (le : x ≤ y) :
    roundDigits b d x ≤ roundDigits b d y := by
  rcases nonneg.eq_or_lt with rfl | pos
  · rw [roundDigits_zero]
    exact roundDigits_nonneg base le
  · have posB : (0 : ℚ) < b := by exact_mod_cast Nat.zero_lt_of_lt base
    obtain ⟨e, low, high⟩ := exists_first_digit base pos
    obtain ⟨f, low', high'⟩ := exists_first_digit base (pos.trans_le le)
    rcases lt_trichotomy e f with before | rfl | after
    · -- A power of the base is between the two numbers.
      have power : (b : ℚ) ^ (e + 1) ≤ (b : ℚ) ^ f :=
        zpow_le_zpow_right₀ (by exact_mod_cast base.le) (by omega)
      exact (roundDigits_mem base low high).2.trans (power.trans (roundDigits_mem base low' high').1)
    · rw [roundDigits_eq base low high, roundDigits_eq base low' high']
      have unit : (0 : ℚ) < (b : ℚ) ^ (e - d) := zpow_pos posB _
      have rounded : (roundEven (x / (b : ℚ) ^ (e - d)) : ℚ) ≤ roundEven (y / (b : ℚ) ^ (e - d)) := by
        exact_mod_cast roundEven_mono ((div_le_div_iff_of_pos_right unit).mpr le)
      exact mul_le_mul_of_nonneg_right rounded unit.le
    · have power : (b : ℚ) ^ (f + 1) ≤ (b : ℚ) ^ e :=
        zpow_le_zpow_right₀ (by exact_mod_cast base.le) (by omega)
      exact absurd (low.trans le) (not_le.mpr (high'.trans_le power))

/-- **What is rounded stays.** -/
theorem roundDigits_idem (base : 1 < b) (nonneg : 0 ≤ x) :
    roundDigits b d (roundDigits b d x) = roundDigits b d x := by
  rcases nonneg.eq_or_lt with rfl | pos
  · rw [roundDigits_zero, roundDigits_zero]
  · have posB : (0 : ℚ) < b := by exact_mod_cast Nat.zero_lt_of_lt base
    have unit : ∀ c : ℤ, (b : ℚ) ^ c ≠ 0 := fun c => (zpow_pos posB c).ne'
    obtain ⟨e, low, high⟩ := exists_first_digit base pos
    obtain ⟨low', high'⟩ := roundDigits_mem (d := d) base low high
    rcases high'.lt_or_eq with below | top
    · rw [roundDigits_eq base low' below, roundDigits_eq base low high,
        mul_div_cancel_right₀ _ (unit _), roundEven_intCast]
    · have next : (b : ℚ) ^ (e + 1) < (b : ℚ) ^ (e + 1 + 1) :=
        zpow_lt_zpow_right₀ (by exact_mod_cast base) (by omega)
      have whole : (b : ℚ) ^ (e + 1) = ((b ^ d : ℤ) : ℚ) * (b : ℚ) ^ (e + 1 - d) := by
        rw [natPow_mul_zpow base, sub_add_cancel]
      rw [top, roundDigits_eq base le_rfl next]
      nth_rewrite 1 [whole]
      rw [mul_div_cancel_right₀ _ (unit _), roundEven_intCast, ← whole]

end Digits

/-! ### Ways of rounding -/

/-- A way of rounding numbers that are not negative. -/
structure Rounding where
  round : ℚ → ℚ
  zero : round 0 = 0
  mono : ∀ x y, 0 ≤ x → x ≤ y → round x ≤ round y
  idem : ∀ x, 0 ≤ x → round (round x) = round x

/-- Rounding to digits. -/
def digits (b d : ℕ) (base : 1 < b) : Rounding where
  round := roundDigits b d
  zero := roundDigits_zero
  mono _ _ := roundDigits_mono base
  idem _ := roundDigits_idem base

theorem double_eq (x : ℚ) : double x = roundDigits 2 52 x := by
  unfold double roundDigits ulp unitOf
  norm_cast

end Prism.Lib
