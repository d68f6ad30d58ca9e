import Prism.Lib.Double
import Prism.Python

/-!
Times without a time zone, and POSIX timestamps (`datetime` of the Python library).

A time is a number of microseconds since the first of January 1970. `utcfromtimestamp` takes a
timestamp for one of UTC, while `timestamp` takes the time for a local one: of a host whose clock is
ahead of UTC by `offset` seconds, in every season.

* `timestamp_utcfromtimestamp_iff`: the times that are read back from their timestamps.
* `precise_of_le`: floats are precise enough for the times before the year 2242.
* `integerPart_floatSeconds`: the whole seconds of a float are those that it was made of, or it
  was rounded up to the next second.
* `integerPart_timestamp`: the whole seconds of a timestamp before the year 2242.
-/

namespace Prism

open Lib

/-! ### Times -/

/-- The first and the last second of the years 1 to 9999. -/
def minSecond : ℤ := -62135596800

def maxSecond : ℤ := 253402300799

/-- The time is one of the years 1 to 9999. -/
def IsTime (t : ℤ) : Prop := minSecond * 10 ^ 6 ≤ t ∧ t < (maxSecond + 1) * 10 ^ 6

instance (t : ℤ) : Decidable (IsTime t) := inferInstanceAs (Decidable (_ ∧ _))

/-- The local time of a timestamp, in seconds. -/
def localTime (offset u : ℤ) : Py ℤ :=
  if minSecond ≤ u + offset ∧ u + offset ≤ maxSecond then .ok (u + offset)
  else .error (.valueError "year is out of range")

/-- The float of some seconds and microseconds. -/
def floatSeconds (s us : ℤ) : ℚ := double (s + double (us / 10 ^ 6))

/-- `datetime.timestamp()`. The timestamp is found from the local time, and it is looked up whether a
day before the clock was turned back. -/
def timestamp (offset t : ℤ) : Py ℚ := do
  let seconds := t / 10 ^ 6
  let ahead ← localTime offset seconds
  let found := seconds - (ahead - seconds)
  let _ ← localTime offset found
  let _ ← localTime offset (found - 24 * 3600)
  return floatSeconds found (t % 10 ^ 6)

/-- The integer part of a float. -/
def integerPart (x : ℚ) : ℤ := if 0 ≤ x then ⌊x⌋ else ⌈x⌉

/-- The microseconds of a timestamp. -/
def microseconds (x : ℚ) : ℤ :=
  integerPart x * 10 ^ 6 + roundEven (double ((x - integerPart x) * 10 ^ 6))

/-- `datetime.utcfromtimestamp`, of a float. -/
def utcfromtimestamp (x : ℚ) : Py ℤ :=
  if IsTime (microseconds x) then .ok (microseconds x)
  else .error (.valueError "year is out of range")

/-! ### Rounding -/

theorem abs_sub_integerPart_lt (x : ℚ) : |x - integerPart x| < 1 := by
  unfold integerPart
  split_ifs
  · have low := Int.floor_le x
    have high := Int.lt_floor_add_one x
    exact abs_lt.mpr ⟨by linarith, by linarith⟩
  · have high := Int.le_ceil x
    have low := Int.ceil_lt_add_one x
    exact abs_lt.mpr ⟨by linarith, by linarith⟩

/-- The fraction is scaled almost exactly. -/
theorem abs_scaled_sub_le (x : ℚ) :
    |double ((x - integerPart x) * 10 ^ 6) - (x - integerPart x) * 10 ^ 6| ≤ 2 ^ (-34 : ℤ) := by
  have small : |(x - integerPart x) * 10 ^ 6| < 2 ^ (20 : ℤ) := by
    rw [abs_mul, abs_of_pos (by norm_num : (0 : ℚ) < 10 ^ 6)]
    have := abs_sub_integerPart_lt x
    norm_num
    linarith
  exact abs_double_sub_le small

/-- A float is near to the seconds and microseconds that it was made of. -/
theorem abs_floatSeconds_sub_le {s us k : ℤ} (low : 0 ≤ us) (high : us < 10 ^ 6)
    (lt : |(s : ℚ)| + 1 < 2 ^ k) :
    |floatSeconds s us - (s + us / 10 ^ 6)| ≤ 2 ^ (k - 54) + 2 ^ (-54 : ℤ) := by
  have lowQ : (0 : ℚ) ≤ us := by exact_mod_cast low
  have highQ : (us : ℚ) ≤ 10 ^ 6 - 1 := by exact_mod_cast Int.le_sub_one_of_lt high
  have unit : |(us : ℚ) / 10 ^ 6| < 2 ^ (0 : ℤ) := by
    rw [abs_of_nonneg (by linarith), zpow_zero]
    linarith
  have fraction := abs_double_sub_le unit
  rw [zero_sub] at fraction
  have tiny : (2 : ℚ) ^ (-54 : ℤ) < 1 / 10 ^ 6 := by norm_num
  have whole : |(s : ℚ) + double (us / 10 ^ 6)| < 2 ^ k := by
    have near := abs_le.mp fraction
    have part : |double ((us : ℚ) / 10 ^ 6)| ≤ 1 := abs_le.mpr ⟨by linarith, by linarith⟩
    exact (abs_add_le _ _).trans_lt (by linarith)
  calc |floatSeconds s us - (s + us / 10 ^ 6)|
      = |(floatSeconds s us - (s + double (us / 10 ^ 6))) +
          (double (us / 10 ^ 6) - us / 10 ^ 6)| := by
        congr 1
        ring
    _ ≤ |floatSeconds s us - (s + double (us / 10 ^ 6))| +
          |double ((us : ℚ) / 10 ^ 6) - us / 10 ^ 6| := abs_add_le _ _
    _ ≤ 2 ^ (k - 54) + 2 ^ (-54 : ℤ) := add_le_add (abs_double_sub_le whole) fraction

/-- The microseconds of a float are those that it is nearest to. -/
theorem abs_scaled_le {s us k : ℤ} (low : 0 ≤ us) (high : us < 10 ^ 6)
    (lt : |(s : ℚ)| + 1 < 2 ^ k) :
    |double ((floatSeconds s us - integerPart (floatSeconds s us)) * 10 ^ 6) -
        ((s * 10 ^ 6 + us - integerPart (floatSeconds s us) * 10 ^ 6 : ℤ) : ℚ)| ≤
      2 ^ (-34 : ℤ) + 10 ^ 6 * (2 ^ (k - 54) + 2 ^ (-54 : ℤ)) := by
  generalize hx : floatSeconds s us = x
  have near := abs_floatSeconds_sub_le low high lt
  rw [hx] at near
  have scaled := abs_scaled_sub_le x
  have exact_ : ((s * 10 ^ 6 + us - integerPart x * 10 ^ 6 : ℤ) : ℚ) =
      (s + us / 10 ^ 6 - integerPart x) * 10 ^ 6 := by
    push_cast
    ring
  have apart : |(x - integerPart x) * 10 ^ 6 - (s + us / 10 ^ 6 - integerPart x) * 10 ^ 6| ≤
      10 ^ 6 * (2 ^ (k - 54) + 2 ^ (-54 : ℤ)) := by
    rw [← sub_mul, sub_sub_sub_cancel_right, abs_mul, abs_of_pos (by norm_num : (0 : ℚ) < 10 ^ 6),
      mul_comm]
    exact mul_le_mul_of_nonneg_left near (by norm_num)
  rw [exact_]
  calc |double ((x - integerPart x) * 10 ^ 6) - (s + us / 10 ^ 6 - integerPart x) * 10 ^ 6|
      ≤ |double ((x - integerPart x) * 10 ^ 6) - (x - integerPart x) * 10 ^ 6| +
          |(x - integerPart x) * 10 ^ 6 - (s + us / 10 ^ 6 - integerPart x) * 10 ^ 6| :=
        abs_sub_le _ _ _
    _ ≤ _ := add_le_add scaled apart

/-- A float is not before its whole seconds, after 1970. -/
theorem le_floatSeconds {s us : ℤ} (nonneg : 0 ≤ s) (le : s ≤ 2 ^ 38 - 2) (low : 0 ≤ us)
    (high : us < 10 ^ 6) : (s : ℚ) ≤ floatSeconds s us := by
  have seconds : (s : ℚ) ≤ 2 ^ 38 - 2 := by exact_mod_cast le
  have nonnegQ : (0 : ℚ) ≤ s := by exact_mod_cast nonneg
  have lowQ : (0 : ℚ) ≤ us := by exact_mod_cast low
  have highQ : (us : ℚ) ≤ 10 ^ 6 - 1 := by exact_mod_cast Int.le_sub_one_of_lt high
  have fraction : (0 : ℚ) ≤ double (us / 10 ^ 6) ∧ double ((us : ℚ) / 10 ^ 6) ≤ 1 := by
    have unit : |(us : ℚ) / 10 ^ 6| < 2 ^ (0 : ℤ) := by
      rw [abs_of_nonneg (by linarith), zpow_zero]
      linarith
    have close := abs_le.mp (abs_double_sub_le unit)
    norm_num at close
    have above := @le_double ((us : ℚ) / 10 ^ 6) 0 (unit.trans (by norm_num))
      (by push_cast; linarith)
    exact ⟨by exact_mod_cast above, by linarith⟩
  refine le_double ?_ (by linarith)
  rw [abs_of_nonneg (by linarith)]
  norm_num at seconds ⊢
  linarith

/-- The integer part of a float of some seconds, by how precise floats are up to then. -/
theorem integerPart_floatSeconds_lt {s us k n : ℤ} (nonneg : 0 ≤ s) (le : s ≤ 2 ^ 38 - 2)
    (low : 0 ≤ us) (high : us < 10 ^ 6) (lt : |(s : ℚ)| + 1 < 2 ^ k)
    (precise : (s : ℚ) + (us / 10 ^ 6 + (2 ^ (k - 54) + 2 ^ (-54 : ℤ))) < n) :
    s ≤ integerPart (floatSeconds s us) ∧ integerPart (floatSeconds s us) < n := by
  have near := (abs_le.mp (abs_floatSeconds_sub_le low high lt)).2
  have above := le_floatSeconds nonneg le low high
  have nonnegQ : (0 : ℚ) ≤ s := by exact_mod_cast nonneg
  rw [integerPart, if_pos (nonnegQ.trans above)]
  exact ⟨Int.le_floor.mpr above, Int.floor_lt.mpr (by linarith)⟩

/-- The whole seconds of a float, after 1970. -/
theorem integerPart_floatSeconds {s us : ℤ} (nonneg : 0 ≤ s) (le : s ≤ 2 ^ 38 - 2) (low : 0 ≤ us)
    (high : us < 10 ^ 6) :
    s ≤ integerPart (floatSeconds s us) ∧ integerPart (floatSeconds s us) ≤ s + 1 := by
  have seconds : (s : ℚ) ≤ 2 ^ 38 - 2 := by exact_mod_cast le
  have nonnegQ : (0 : ℚ) ≤ s := by exact_mod_cast nonneg
  have highQ : (us : ℚ) ≤ 10 ^ 6 - 1 := by exact_mod_cast Int.le_sub_one_of_lt high
  have bounds := @integerPart_floatSeconds_lt s us 38 (s + 2) nonneg le low high
    (by rw [abs_of_nonneg nonnegQ]; norm_num at seconds ⊢; linarith)
    (by push_cast; norm_num; linarith)
  exact ⟨bounds.1, by omega⟩

/-- Before the year 2242 they are those that it was made of. -/
theorem integerPart_floatSeconds_eq {s us : ℤ} (nonneg : 0 ≤ s) (le : s ≤ 2 ^ 33 - 2)
    (low : 0 ≤ us) (high : us < 10 ^ 6) : integerPart (floatSeconds s us) = s := by
  have seconds : (s : ℚ) ≤ 2 ^ 33 - 2 := by exact_mod_cast le
  have nonnegQ : (0 : ℚ) ≤ s := by exact_mod_cast nonneg
  have highQ : (us : ℚ) ≤ 10 ^ 6 - 1 := by exact_mod_cast Int.le_sub_one_of_lt high
  have bounds := @integerPart_floatSeconds_lt s us 33 (s + 1) nonneg (by omega) low high
    (by rw [abs_of_nonneg nonnegQ]; norm_num at seconds ⊢; linarith)
    (by push_cast; norm_num; linarith)
  omega

/-! ### Times that are read back -/

/-- The float of the time gives the time back. -/
def Precise (t : ℤ) : Prop := microseconds (floatSeconds (t / 10 ^ 6) (t % 10 ^ 6)) = t

instance (t : ℤ) : Decidable (Precise t) := inferInstanceAs (Decidable (_ = _))

theorem split_time (t : ℤ) : t / 10 ^ 6 * 10 ^ 6 + t % 10 ^ 6 = t := by omega

/-- **Floats are precise enough** for the years around 1970. -/
theorem precise_of_le {t : ℤ} (small : |t| ≤ (2 ^ 33 - 2) * 10 ^ 6) : Precise t := by
  have bounds := abs_le.mp small
  have seconds : |((t / 10 ^ 6 : ℤ) : ℚ)| + 1 < 2 ^ (33 : ℤ) := by
    have : |t / 10 ^ 6| ≤ 2 ^ 33 - 2 := abs_le.mpr ⟨by omega, by omega⟩
    have cast : |((t / 10 ^ 6 : ℤ) : ℚ)| ≤ 2 ^ 33 - 2 := by exact_mod_cast this
    norm_num at cast ⊢
    linarith
  have near := abs_scaled_le (Int.emod_nonneg t (by norm_num)) (Int.emod_lt_of_pos t (by norm_num))
    seconds
  have rounded := roundEven_eq_of_abs_lt (near.trans_lt (by norm_num))
  rw [Precise, microseconds, rounded, split_time]
  ring

/-- What an offset does to the seconds is not lost in rounding. -/
theorem offset_eq_zero {t offset : ℤ} (ahead : |t / 10 ^ 6 - offset| ≤ 2 ^ 40 - 2)
    (same : microseconds (floatSeconds (t / 10 ^ 6 - offset) (t % 10 ^ 6)) = t) : offset = 0 := by
  have seconds : |((t / 10 ^ 6 - offset : ℤ) : ℚ)| + 1 < 2 ^ (40 : ℤ) := by
    have cast : |((t / 10 ^ 6 - offset : ℤ) : ℚ)| ≤ 2 ^ 40 - 2 := by exact_mod_cast ahead
    norm_num at cast ⊢
    linarith
  have near := abs_scaled_le (Int.emod_nonneg t (by norm_num)) (Int.emod_lt_of_pos t (by norm_num))
    seconds
  unfold microseconds at same
  generalize floatSeconds (t / 10 ^ 6 - offset) (t % 10 ^ 6) = x at near same
  have rounded := abs_roundEven_sub_le (double ((x - integerPart x) * 10 ^ 6))
  have moved := abs_sub_le (roundEven (double ((x - integerPart x) * 10 ^ 6)) : ℚ)
    (double ((x - integerPart x) * 10 ^ 6))
    (((t / 10 ^ 6 - offset) * 10 ^ 6 + t % 10 ^ 6 - integerPart x * 10 ^ 6 : ℤ) : ℚ)
  have bound : (1 : ℚ) / 2 + (2 ^ (-34 : ℤ) + 10 ^ 6 * (2 ^ (40 - 54 : ℤ) + 2 ^ (-54 : ℤ))) < 100 := by
    norm_num
  have close : |((roundEven (double ((x - integerPart x) * 10 ^ 6)) -
      ((t / 10 ^ 6 - offset) * 10 ^ 6 + t % 10 ^ 6 - integerPart x * 10 ^ 6) : ℤ) : ℚ)| < 100 := by
    rw [Int.cast_sub]
    linarith
  have small : |roundEven (double ((x - integerPart x) * 10 ^ 6)) -
      ((t / 10 ^ 6 - offset) * 10 ^ 6 + t % 10 ^ 6 - integerPart x * 10 ^ 6)| < 100 := by
    exact_mod_cast close
  have apart := abs_lt.mp small
  omega

/-- The timestamps that there are. -/
theorem timestamp_eq_ok {offset t : ℤ} (isTime : IsTime t) {x : ℚ} :
    timestamp offset t = .ok x ↔
      (minSecond ≤ t / 10 ^ 6 + offset ∧ t / 10 ^ 6 + offset ≤ maxSecond) ∧
        minSecond + 24 * 3600 ≤ t / 10 ^ 6 ∧
        x = floatSeconds (t / 10 ^ 6 - offset) (t % 10 ^ 6) := by
  obtain ⟨low, high⟩ := isTime
  have found : t / 10 ^ 6 - (t / 10 ^ 6 + offset - t / 10 ^ 6) = t / 10 ^ 6 - offset := by ring
  have second : minSecond ≤ t / 10 ^ 6 - offset + offset ∧
      t / 10 ^ 6 - offset + offset ≤ maxSecond := by omega
  unfold timestamp localTime
  dsimp only
  by_cases ahead : minSecond ≤ t / 10 ^ 6 + offset ∧ t / 10 ^ 6 + offset ≤ maxSecond
  · rw [if_pos ahead, ok_bind, found, if_pos second, ok_bind]
    by_cases early : minSecond + 24 * 3600 ≤ t / 10 ^ 6
    · rw [if_pos (by omega), ok_bind]
      exact ⟨fun run => ⟨ahead, early, (Except.ok.inj run).symm⟩, fun h => congrArg _ h.2.2.symm⟩
    · rw [if_neg (by omega)]
      exact ⟨(fun run => by cases run), fun h => absurd h.2.1 early⟩
  · rw [if_neg ahead]
    exact ⟨(fun run => by cases run), fun h => absurd h.1 ahead⟩

/-- **Times that are read back** from their timestamps. -/
theorem timestamp_utcfromtimestamp_iff {offset t : ℤ} (isTime : IsTime t) :
    (timestamp offset t).bind utcfromtimestamp = .ok t ↔
      offset = 0 ∧ (minSecond + 24 * 3600) * 10 ^ 6 ≤ t ∧ Precise t := by
  have bounds := id isTime
  obtain ⟨low, high⟩ := bounds
  unfold minSecond at low ⊢
  unfold maxSecond at high
  constructor
  · intro run
    obtain ⟨x, written, read⟩ := bind_eq_ok.mp run
    obtain ⟨ahead, early, rfl⟩ := (timestamp_eq_ok isTime).mp written
    unfold minSecond maxSecond at ahead
    unfold minSecond at early
    unfold utcfromtimestamp at read
    split_ifs at read
    have same := Except.ok.inj read
    obtain rfl := offset_eq_zero (abs_le.mpr ⟨by omega, by omega⟩) same
    rw [sub_zero] at same
    exact ⟨rfl, by omega, same⟩
  · rintro ⟨rfl, early, precise⟩
    have written : timestamp 0 t = .ok (floatSeconds (t / 10 ^ 6 - 0) (t % 10 ^ 6)) :=
      (timestamp_eq_ok isTime).mpr ⟨by unfold minSecond maxSecond; omega,
        by unfold minSecond; omega, rfl⟩
    rw [written, sub_zero]
    have read : microseconds (floatSeconds (t / 10 ^ 6) (t % 10 ^ 6)) = t := precise
    rw [Except.bind, utcfromtimestamp, read, if_pos isTime]

/-- The timestamp of a time from 1970 on that is not in the last day of the calendar. -/
theorem timestamp_ok {offset t : ℤ} (zone : |offset| ≤ 86400) (low : 0 ≤ t / 10 ^ 6 - offset)
    (high : t / 10 ^ 6 ≤ maxSecond - 86400) :
    timestamp offset t = .ok (floatSeconds (t / 10 ^ 6 - offset) (t % 10 ^ 6)) := by
  have near := abs_le.mp zone
  unfold maxSecond at high
  refine (timestamp_eq_ok ?_).mpr ⟨?_, ?_, rfl⟩
  · unfold IsTime minSecond maxSecond
    omega
  · unfold minSecond maxSecond
    omega
  · unfold minSecond
    omega

/-- The whole seconds of a timestamp, of a host whose time zone is less than a day away. -/
theorem integerPart_timestamp {offset t : ℤ} (zone : |offset| ≤ 86400)
    (low : 0 ≤ t / 10 ^ 6 - offset) (high : t / 10 ^ 6 - offset ≤ 2 ^ 33 - 2) :
    integerPart <$> timestamp offset t = .ok (t / 10 ^ 6 - offset) := by
  have near := abs_le.mp zone
  rw [timestamp_ok zone low (by unfold maxSecond; omega)]
  exact congrArg Except.ok (integerPart_floatSeconds_eq low high
    (Int.emod_nonneg t (by norm_num)) (Int.emod_lt_of_pos t (by norm_num)))

end Prism
