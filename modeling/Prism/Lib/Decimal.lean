import Prism.Lib.Rounding

/-!
Numbers rounded to 28 significant decimal digits, ties to even.

Exponents are not bounded.

* `le_decimal`, `decimal_le`: rounding does not pass a number of so many digits.
* `decimal_add_decimal_sub`: a probability and what is left to one add up to one again.
-/

namespace Prism.Lib

/-! ### Rounding -/

/-- The value of the last of 28 digits. -/
def place (x : ℚ) : ℚ := 10 ^ (Int.log 10 |x| - 27)

/-- The nearest number of 28 digits. -/
def decimal (x : ℚ) : ℚ := if x = 0 then 0 else roundEven (x / place x) * place x

variable {x : ℚ} {k e : ℤ}

theorem place_pos (x : ℚ) : 0 < place x := zpow_pos (by norm_num) _

/-- The first digit has the value of `10 ^ e`. -/
theorem place_eq (low : (10 : ℚ) ^ e ≤ x) (high : x < 10 ^ (e + 1)) : place x = 10 ^ (e - 27) := by
  have pos : 0 < x := (zpow_pos (by norm_num) e).trans_le low
  have lower : e ≤ Int.log 10 x :=
    (Int.zpow_le_iff_le_log (by norm_num) pos).mp (by exact_mod_cast low)
  have upper : Int.log 10 x < e + 1 :=
    (Int.lt_zpow_iff_log_lt (by norm_num) pos).mp (by exact_mod_cast high)
  rw [place, abs_of_pos pos, show Int.log 10 x = e by omega]

@[simp] theorem decimal_zero : decimal 0 = 0 := if_pos rfl

/-- Decimals are numbers of 28 digits of the base ten. -/
theorem decimal_eq (x : ℚ) : decimal x = roundDigits 10 27 x := by
  unfold decimal roundDigits place unitOf
  norm_cast

theorem decimal_of_ne_zero (ne : x ≠ 0) : decimal x = roundEven (x / place x) * place x := if_neg ne

/-- Rounding moves a number by half of the last digit at most. -/
theorem abs_decimal_sub_le (x : ℚ) : |decimal x - x| ≤ place x / 2 := by
  by_cases zero : x = 0
  · rw [zero, decimal_zero, sub_zero, abs_zero]
    exact div_nonneg (place_pos 0).le zero_le_two
  · have scaled : decimal x - x = ((roundEven (x / place x) : ℚ) - x / place x) * place x := by
      rw [decimal_of_ne_zero zero, sub_mul, div_mul_cancel₀ x (place_pos x).ne']
    rw [scaled, abs_mul, abs_of_pos (place_pos x)]
    have near := mul_le_mul_of_nonneg_right (abs_roundEven_sub_le (x / place x)) (place_pos x).le
    linarith

/-- **Rounding does not pass a number of 28 digits** from above. -/
theorem le_decimal (le : k * place x ≤ x) : k * place x ≤ decimal x := by
  by_cases zero : x = 0
  · subst zero
    rwa [decimal_zero]
  · rw [decimal_of_ne_zero zero]
    have rounded : (k : ℚ) ≤ roundEven (x / place x) := by
      exact_mod_cast le_roundEven ((le_div_iff₀ (place_pos x)).mpr le)
    exact mul_le_mul_of_nonneg_right rounded (place_pos x).le

/-- **Rounding does not pass a number of 28 digits** from below. -/
theorem decimal_le (le : x ≤ k * place x) : decimal x ≤ k * place x := by
  by_cases zero : x = 0
  · subst zero
    rwa [decimal_zero]
  · rw [decimal_of_ne_zero zero]
    have rounded : (roundEven (x / place x) : ℚ) ≤ k := by
      exact_mod_cast roundEven_le ((div_le_iff₀ (place_pos x)).mpr le)
    exact mul_le_mul_of_nonneg_right rounded (place_pos x).le

/-- A number of 28 digits is kept. -/
theorem decimal_eq_self (eq : x = k * place x) : decimal x = x := by
  apply le_antisymm
  · exact (decimal_le eq.le).trans_eq eq.symm
  · exact eq.le.trans (le_decimal eq.ge)

/-- The smaller a number, the further its digits go. -/
theorem exists_place (pos : 0 < x) (lt : x < 10 ^ (e + 1)) :
    ∃ j : ℕ, (10 : ℚ) ^ (e - 27) = 10 ^ j * place x := by
  have digits : Int.log 10 x < e + 1 :=
    (Int.lt_zpow_iff_log_lt (by norm_num) pos).mp (by exact_mod_cast lt)
  obtain ⟨j, hj⟩ := Int.eq_ofNat_of_zero_le (by omega : 0 ≤ e - Int.log 10 x)
  refine ⟨j, ?_⟩
  rw [place, abs_of_pos pos, ← zpow_natCast, ← zpow_add₀ (by norm_num),
    show (j : ℤ) + (Int.log 10 x - 27) = e - 27 by omega]

/-- Numbers below one have digits at the 28th place or further. -/
theorem place_le_of_lt_one (pos : 0 < x) (lt : x < 1) : place x ≤ 10 ^ (-28 : ℤ) := by
  obtain ⟨j, digit⟩ := exists_place (e := -1) pos (by norm_num; exact lt)
  rw [show (-28 : ℤ) = -1 - 27 by norm_num, digit]
  exact le_mul_of_one_le_left (place_pos x).le (one_le_pow₀ (by norm_num))

theorem decimal_nonneg (nonneg : 0 ≤ x) : 0 ≤ decimal x := by
  rw [decimal_eq]
  exact roundDigits_nonneg (by norm_num) nonneg

/-- What is below zero is rounded to a number below zero. -/
theorem decimal_neg (neg : x < 0) : decimal x < 0 := by
  have size : place x ≤ -x := by
    have first : (10 : ℚ) ^ Int.log 10 |x| ≤ |x| := by
      exact_mod_cast Int.zpow_log_le_self (by norm_num) (abs_pos.mpr neg.ne)
    rw [abs_of_neg neg] at first
    rw [place, abs_of_neg neg]
    exact (zpow_le_zpow_right₀ (by norm_num) (by omega)).trans first
  have below : x / place x ≤ ((-1 : ℤ) : ℚ) := by
    rw [div_le_iff₀ (place_pos x)]
    push_cast
    linarith
  have rounded : (roundEven (x / place x) : ℚ) ≤ -1 := by exact_mod_cast roundEven_le below
  rw [decimal_of_ne_zero neg.ne]
  have unit := place_pos x
  nlinarith

theorem decimal_le_one (nonneg : 0 ≤ x) (le : x ≤ 1) : decimal x ≤ 1 := by
  rcases nonneg.eq_or_lt with rfl | pos
  · rw [decimal_zero]
    exact zero_le_one
  · obtain ⟨j, digit⟩ := exists_place (e := 0) pos (by norm_num; linarith)
    have one : ((10 ^ 27 * 10 ^ j : ℤ) : ℚ) * place x = 1 := by
      push_cast
      rw [mul_assoc, ← digit]
      norm_num
    rw [← one]
    exact decimal_le (le.trans_eq one.symm)

/-- **What is rounded** has 28 digits. -/
theorem decimal_decimal (nonneg : 0 ≤ x) : decimal (decimal x) = decimal x := by
  rw [decimal_eq, decimal_eq]
  exact roundDigits_idem (by norm_num) nonneg

/-! ### Probabilities -/

@[simp] theorem decimal_one : decimal 1 = 1 := by
  have unit : place 1 = 10 ^ (-27 : ℤ) := by
    rw [place_eq (e := 0) (by norm_num) (by norm_num)]
    norm_num
  apply decimal_eq_self (k := 10 ^ 27)
  rw [unit]
  norm_num

/-- What is left to an even number is rounded like the number. -/
theorem roundEven_sub {n : ℤ} (even : n % 2 = 0) (y : ℚ) :
    roundEven (n - y) = n - roundEven y := by
  have low := Int.floor_le y
  have high := Int.lt_floor_add_one y
  unfold roundEven
  by_cases whole : (⌊y⌋ : ℚ) = y
  · have floor : ⌊(n : ℚ) - y⌋ = n - ⌊y⌋ := by
      rw [Int.floor_eq_iff]
      push_cast
      exact ⟨by linarith, by linarith⟩
    rw [floor, if_pos (.inl (by push_cast; linarith)), if_pos (.inl (by linarith))]
  · have below : (⌊y⌋ : ℚ) < y := lt_of_le_of_ne low whole
    have floor : ⌊(n : ℚ) - y⌋ = n - ⌊y⌋ - 1 := by
      rw [Int.floor_eq_iff]
      push_cast
      exact ⟨by linarith, by linarith⟩
    rw [floor]
    push_cast
    -- The parts behind the point add up to one, and a tie has one even side.
    rcases lt_trichotomy (2 * (y - ⌊y⌋)) 1 with down | tie | up
    · rw [if_neg, if_pos (.inl down)]
      · ring
      · rintro (less | ⟨same, -⟩) <;> linarith
    · by_cases parity : ⌊y⌋ % 2 = 0
      · rw [if_neg, if_pos (.inr ⟨tie, parity⟩)]
        · ring
        · rintro (less | ⟨-, odd⟩)
          · linarith
          · omega
      · rw [if_pos (.inr ⟨by linarith, by omega⟩), if_neg]
        · ring
        · rintro (less | ⟨-, is_even⟩)
          · linarith
          · exact parity is_even
    · rw [if_pos (.inl (by linarith)), if_neg]
      · ring
      · rintro (less | ⟨same, -⟩) <;> linarith

/-- An even number that is nearest, or one of two, is what is rounded to. -/
theorem roundEven_eq_of_even {n : ℤ} (even : n % 2 = 0) {y : ℚ} (near : |y - n| ≤ 1 / 2) :
    roundEven y = n := by
  rcases lt_or_eq_of_le near with nearer | tie
  · exact roundEven_eq_of_abs_lt nearer
  · unfold roundEven
    rcases eq_or_eq_neg_of_abs_eq tie with above | below
    · have floor : ⌊y⌋ = n := Int.floor_eq_iff.mpr ⟨by linarith, by linarith⟩
      rw [floor, if_pos (.inr ⟨by linarith, even⟩)]
    · have floor : ⌊y⌋ = n - 1 :=
        Int.floor_eq_iff.mpr ⟨by push_cast; linarith, by push_cast; linarith⟩
      rw [floor, if_neg]
      · ring
      · push_cast
        rintro (less | ⟨-, odd⟩)
        · linarith
        · omega

/-- What is next to one is rounded to it, where one is an even number of the unit. -/
theorem decimal_eq_one {unit : ℚ} {m : ℤ} (ne : x ≠ 0) (even : m % 2 = 0)
    (one : m * unit = 1) (pos : 0 < unit) (at_place : place x = unit) (near : |x - 1| ≤ unit / 2) :
    decimal x = 1 := by
  have rounded : roundEven (x / unit) = m := by
    apply roundEven_eq_of_even even
    have scaled : x / unit - m = (x - 1) / unit := by
      rw [sub_div, ← one, mul_div_assoc, div_self pos.ne', mul_one]
    rw [scaled, abs_div, abs_of_pos pos, div_le_iff₀ pos]
    linarith
  rw [decimal_of_ne_zero ne, at_place, rounded, one]

/-- What is next to one is rounded to it. -/
theorem decimal_near_one (near : |x - 1| ≤ 10 ^ (-28 : ℤ) / 2) : decimal x = 1 := by
  obtain ⟨low, high⟩ := abs_le.mp near
  norm_num at low high
  have pos : 0 < x := by linarith
  rcases lt_or_ge x 1 with less | more
  · have unit : place x = 10 ^ (-28 : ℤ) := by
      rw [place_eq (e := -1) (by norm_num; linarith) (by norm_num; linarith)]
      norm_num
    exact decimal_eq_one (m := 10 ^ 28) pos.ne' (by norm_num) (by norm_num) (by positivity) unit near
  · have unit : place x = 10 ^ (-27 : ℤ) := by
      rw [place_eq (e := 0) (by norm_num; linarith) (by norm_num; linarith)]
      norm_num
    refine decimal_eq_one (m := 10 ^ 27) pos.ne' (by norm_num) (by norm_num) (by positivity) unit ?_
    exact near.trans (by norm_num)

/-- A number below a tenth that is near a number of 28 places is rounded to one that is as near. -/
theorem abs_decimal_sub_le_of_lt {m : ℤ} (pos : 0 < x) (lt : x < 10 ^ (-1 : ℤ))
    (near : |x - m * 10 ^ (-28 : ℤ)| ≤ 10 ^ (-28 : ℤ) / 2) :
    |decimal x - m * 10 ^ (-28 : ℤ)| ≤ 10 ^ (-28 : ℤ) / 2 := by
  obtain ⟨j, digit⟩ := exists_place (e := -2) pos (by norm_num at lt ⊢; exact lt)
  obtain ⟨low, high⟩ := abs_le.mp near
  have upper : (m * 10 ^ (-28 : ℤ) + 10 ^ (-28 : ℤ) / 2 : ℚ) =
      (((10 * m + 5) * 10 ^ j : ℤ) : ℚ) * place x := by
    push_cast
    rw [mul_assoc, ← digit]
    norm_num
    ring
  have lower : (m * 10 ^ (-28 : ℤ) - 10 ^ (-28 : ℤ) / 2 : ℚ) =
      (((10 * m - 5) * 10 ^ j : ℤ) : ℚ) * place x := by
    push_cast
    rw [mul_assoc, ← digit]
    norm_num
    ring
  have below := decimal_le (x := x) (by rw [← upper]; linarith)
  have above := le_decimal (x := x) (by rw [← lower]; linarith)
  rw [← upper] at below
  rw [← lower] at above
  exact abs_le.mpr ⟨by linarith, by linarith⟩

/-- The larger one of two probabilities is rounded to 28 places, and the smaller one makes up for
it. -/
theorem decimal_add_decimal_of_le (half : 1 / 2 ≤ x) (lt : x < 1) :
    decimal (decimal x + decimal (1 - x)) = 1 := by
  have unit : place x = 10 ^ (-28 : ℤ) := by
    rw [place_eq (e := -1) (by norm_num; linarith) (by norm_num; linarith)]
    norm_num
  have rounded := decimal_of_ne_zero (by linarith : x ≠ 0)
  have near := abs_decimal_sub_le x
  rw [rounded, unit] at near
  rw [rounded, unit]
  apply decimal_near_one
  rcases lt_or_ge (1 - x) (10 ^ (-1 : ℤ)) with small | large
  · generalize roundEven (x / 10 ^ (-28 : ℤ)) = m at *
    have whole : ((10 ^ 28 - m : ℤ) : ℚ) * 10 ^ (-28 : ℤ) = 1 - m * 10 ^ (-28 : ℤ) := by
      push_cast
      norm_num
      ring
    have moved := abs_decimal_sub_le_of_lt (x := 1 - x) (m := 10 ^ 28 - m) (by linarith) small (by
      rw [whole, show 1 - x - (1 - m * 10 ^ (-28 : ℤ)) = m * 10 ^ (-28 : ℤ) - x by ring]
      exact near)
    rw [whole] at moved
    rwa [show m * 10 ^ (-28 : ℤ) + decimal (1 - x) - 1 =
      decimal (1 - x) - (1 - m * 10 ^ (-28 : ℤ)) by ring]
  · have unit' : place (1 - x) = 10 ^ (-28 : ℤ) := by
      rw [place_eq (e := -1) large (by norm_num; linarith)]
      norm_num
    have turned : (1 - x) / 10 ^ (-28 : ℤ) = ((10 ^ 28 : ℤ) : ℚ) - x / 10 ^ (-28 : ℤ) := by
      norm_num
      ring
    rw [decimal_of_ne_zero (by linarith : 1 - x ≠ 0), unit', turned,
      roundEven_sub (by norm_num)]
    push_cast
    rw [← add_mul, add_sub_cancel]
    norm_num

/-- **A probability and what is left to one** add up to one, also when all three are rounded. -/
theorem decimal_add_decimal_sub (low : 0 ≤ x) (high : x ≤ 1) :
    decimal (decimal x + decimal (1 - x)) = 1 := by
  rcases low.eq_or_lt with rfl | pos
  · simp
  · rcases high.eq_or_lt with rfl | lt
    · simp
    · rcases le_or_gt (1 / 2) x with half | half
      · exact decimal_add_decimal_of_le half lt
      · have other := decimal_add_decimal_of_le (x := 1 - x) (by linarith) (by linarith)
        rwa [sub_sub_cancel, add_comm] at other

end Prism.Lib
