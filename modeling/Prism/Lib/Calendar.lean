import Mathlib.Algebra.Order.Ring.Int
import Mathlib.Tactic.Linarith

/-!
Dates of the Gregorian calendar, by the number of the day.

Day 0 is the first of January of the year 1, and the calendar is extended to all years.
`Date.ofOrdinal` splits the number of a day into cycles of 400, 100 and 4 years, and
`Date.ordinal` counts the days before a date. `Date.isoformat` writes a date with ten characters.

* `ordinal_ofOrdinal`: a date knows its day.
* `isoformat_inj`: up to the year 9999 the text does.
-/

namespace Prism.Lib

/-- A date. -/
structure Date where
  year : ℕ
  month : ℕ
  day : ℕ
deriving DecidableEq, Repr

namespace Date

/-! ### Days and dates -/

def isLeap (year : ℕ) : Bool := year % 4 = 0 && (year % 100 ≠ 0 || year % 400 = 0)

/-- The lengths of the months of a year. -/
def monthLengths (leap : Bool) : List ℕ :=
  [31, if leap then 29 else 28, 31, 30, 31, 30, 31, 31, 30, 31, 30, 31]

def daysBeforeYear (year : ℕ) : ℕ :=
  (year - 1) * 365 + (year - 1) / 4 - (year - 1) / 100 + (year - 1) / 400

/-- The month and the day in it of a day of the year that is left after some months. -/
def monthDay : List ℕ → ℕ → ℕ × ℕ
  | [], n => (1, n + 1)
  | length :: rest, n =>
    if n < length then (1, n + 1)
    else
      let (month, day) := monthDay rest (n - length)
      (month + 1, day)

/-- The year of a day, and the number of the day in it. -/
def yearDay (n : ℕ) : ℕ × ℕ :=
  let n100 := min (n % 146097 / 36524) 3
  let r100 := n % 146097 - n100 * 36524
  let n1 := min (r100 % 1461 / 365) 3
  (n / 146097 * 400 + n100 * 100 + r100 / 1461 * 4 + n1 + 1, r100 % 1461 - n1 * 365)

/-- The date of a day. -/
def ofOrdinal (n : ℕ) : Date :=
  let (year, r) := yearDay n
  let (month, day) := monthDay (monthLengths (isLeap year)) r
  ⟨year, month, day⟩

/-- The number of days before a date. -/
def ordinal (date : Date) : ℕ :=
  daysBeforeYear date.year + ((monthLengths (isLeap date.year)).take (date.month - 1)).sum +
    (date.day - 1)

theorem monthDay_pos (lengths : List ℕ) (n : ℕ) : 0 < (monthDay lengths n).1 := by
  cases lengths with
  | nil => exact Nat.one_pos
  | cons length rest =>
      rw [monthDay]
      split_ifs
      · exact Nat.one_pos
      · exact Nat.succ_pos _

theorem monthDay_sum (lengths : List ℕ) (n : ℕ) :
    (lengths.take ((monthDay lengths n).1 - 1)).sum + ((monthDay lengths n).2 - 1) = n := by
  induction lengths generalizing n with
  | nil => simp [monthDay]
  | cons length rest ih =>
      rw [monthDay]
      split_ifs with inside
      · simp
      · have pos := monthDay_pos rest (n - length)
        have before := ih (n - length)
        rcases found : monthDay rest (n - length) with ⟨month, day⟩
        rw [found] at pos before
        dsimp only at pos before ⊢
        have step : month + 1 - 1 = month - 1 + 1 := by omega
        rw [step, List.take_succ_cons, List.sum_cons]
        omega

/-- The days before a year, by its cycles. -/
theorem daysBeforeYear_cycles (n400 : ℕ) {n100 n4 n1 : ℕ} (le100 : n100 ≤ 3) (le4 : n4 ≤ 24)
    (le1 : n1 ≤ 3) :
    daysBeforeYear (n400 * 400 + n100 * 100 + n4 * 4 + n1 + 1) =
      n400 * 146097 + n100 * 36524 + n4 * 1461 + n1 * 365 := by
  have years : n400 * 400 + n100 * 100 + n4 * 4 + n1 + 1 - 1 =
      n400 * 400 + n100 * 100 + n4 * 4 + n1 := rfl
  have by4 : (n400 * 400 + n100 * 100 + n4 * 4 + n1) / 4 = n400 * 100 + n100 * 25 + n4 := by omega
  have by100 : (n400 * 400 + n100 * 100 + n4 * 4 + n1) / 100 = n400 * 4 + n100 := by omega
  have by400 : (n400 * 400 + n100 * 100 + n4 * 4 + n1) / 400 = n400 := by omega
  rw [daysBeforeYear, years, by4, by100, by400]
  omega

/-- The day of the year is counted from the days before it. -/
theorem yearDay_sum (n : ℕ) : daysBeforeYear (yearDay n).1 + (yearDay n).2 = n := by
  rw [yearDay, daysBeforeYear_cycles]
  · omega
  · omega
  · omega
  · omega

theorem yearDay_bounds (n : ℕ) : 0 < (yearDay n).1 ∧ (yearDay n).2 ≤ 365 := by
  simp only [yearDay]
  omega

/-- **A date knows its day.** -/
theorem ordinal_ofOrdinal (n : ℕ) : (ofOrdinal n).ordinal = n := by
  have year := yearDay_sum n
  have month := monthDay_sum (monthLengths (isLeap (yearDay n).1)) (yearDay n).2
  simp only [ofOrdinal, ordinal]
  omega

/-- No month is longer than 31 days. -/
theorem monthDay_le (lengths : List ℕ) (short : ∀ length ∈ lengths, length ≤ 31) {n : ℕ}
    (le : n ≤ lengths.sum + 30) :
    (monthDay lengths n).1 ≤ lengths.length + 1 ∧ (monthDay lengths n).2 ≤ 31 := by
  induction lengths generalizing n with
  | nil =>
      simp only [List.sum_nil] at le
      simp only [monthDay, List.length_nil]
      omega
  | cons length rest ih =>
      have first := short length List.mem_cons_self
      have later := @ih (fun other mem => short other (List.mem_cons_of_mem _ mem)) (n - length)
        (by rw [List.sum_cons] at le; omega)
      rw [monthDay, List.length_cons]
      split_ifs with inside
      · exact ⟨by omega, by omega⟩
      · exact ⟨Nat.succ_le_succ later.1, later.2⟩

/-- The dates of the years that have four digits. -/
theorem ofOrdinal_bounds {n : ℕ} (lt : n < 3652059) :
    (ofOrdinal n).year < 10000 ∧ (ofOrdinal n).month < 100 ∧ (ofOrdinal n).day < 100 := by
  have year : (yearDay n).1 < 10000 := by
    rw [yearDay]
    omega
  obtain ⟨-, le⟩ := yearDay_bounds n
  have short : ∀ leap, ∀ length ∈ monthLengths leap, length ≤ 31 := by decide
  have total : ∀ leap, 365 ≤ (monthLengths leap).sum + 30 ∧ (monthLengths leap).length = 12 := by
    decide
  have leap := total (isLeap (yearDay n).1)
  have month := monthDay_le (monthLengths (isLeap (yearDay n).1)) (short _)
    (le.trans leap.1)
  simp only [ofOrdinal]
  omega

/-! ### The text of a date -/

/-- The last `k` decimal digits of a number. -/
def digits : ℕ → ℕ → List Char
  | 0, _ => []
  | k + 1, n => digits k (n / 10) ++ [Char.ofNat (48 + n % 10)]

@[simp] theorem length_digits (k n : ℕ) : (digits k n).length = k := by
  induction k generalizing n with
  | zero => rfl
  | succ k ih => rw [digits, List.length_append, ih, List.length_singleton]

theorem digits_inj {k m n : ℕ} (lt : m < 10 ^ k) (lt' : n < 10 ^ k)
    (same : digits k m = digits k n) : m = n := by
  induction k generalizing m n with
  | zero => omega
  | succ k ih =>
      rw [digits, digits] at same
      obtain ⟨front, last⟩ := List.append_inj same (by simp)
      have digit : ∀ a < 10, ∀ b < 10, Char.ofNat (48 + a) = Char.ofNat (48 + b) → a = b := by
        decide
      have unit := digit (m % 10) (by omega) (n % 10) (by omega) (List.head_eq_of_cons_eq last)
      rw [pow_succ] at lt lt'
      have rest := ih (m := m / 10) (n := n / 10) (by omega) (by omega) front
      omega

/-- `date.isoformat()`, for years of four digits. -/
def isoformat (date : Date) : List Char :=
  digits 4 date.year ++ ('-' :: (digits 2 date.month ++ ('-' :: digits 2 date.day)))

@[simp] theorem length_isoformat (date : Date) : date.isoformat.length = 10 := by
  simp [isoformat]

/-- **The text of a date tells its day**, up to the year 9999. -/
theorem isoformat_inj {m n : ℕ} (lt : m < 3652059) (lt' : n < 3652059) :
    (ofOrdinal m).isoformat = (ofOrdinal n).isoformat ↔ m = n := by
  refine ⟨fun same => ?_, fun same => by rw [same]⟩
  obtain ⟨year, month, day⟩ := ofOrdinal_bounds lt
  obtain ⟨year', month', day'⟩ := ofOrdinal_bounds lt'
  rw [isoformat, isoformat] at same
  obtain ⟨years, same⟩ := List.append_inj same (by simp)
  obtain ⟨months, same⟩ := List.append_inj (List.tail_eq_of_cons_eq same) (by simp)
  have days := List.tail_eq_of_cons_eq same
  have date : ofOrdinal m = ofOrdinal n := by
    rw [Date.mk.injEq]
    exact ⟨digits_inj year year' years, digits_inj month month' months, digits_inj day day' days⟩
  rw [← ordinal_ofOrdinal m, date, ordinal_ofOrdinal]

example : String.ofList (ofOrdinal 738885).isoformat = "2024-01-01" := by decide

end Date

end Prism.Lib
