import Prism.Crypto.ModMath
import Mathlib.Algebra.Order.Round
import Mathlib.Data.Nat.Bitwise
import Mathlib.Data.Rat.Floor

/-!
Arithmetic of the error-correcting decoder
(`prism/common/crypto/secretsharing/berlekampwelch/finitefield`).

`IntegersModP(p)` is `ZMod p`. The decoder's systems also hold integers, and floats where a row of
integers was divided (`Number`); an operation with an element of the field makes the other side one
as well, but an element of the field cannot be divided by an integer or a float. Floats are exact
rationals here: all that ever come up are 0 and 1.

* `inverse_ok`: the inverse by the extended Euclidean algorithm.
* `pow_eq`: square and multiply.
* `Number.mul_mod`, `Number.div_mod` and so on: which operations stay in the field, and with which
  value.
-/

namespace Prism.Crypto

/-- `Exception`, of which the other classes are subclasses: the nearest of them with a text. -/
def exception (text : String) : PyError := .runtimeError text

/-- `extendedEuclideanAlgorithm` on integers. Its loop is the one of `xgcd`, which also returns at
once if `b` is zero. -/
def extendedEuclideanAlgorithm (a b : ℤ) : ℤ × ℤ × ℤ :=
  if |b| > |a| then
    let (d, x, y) := xgcd b a
    (y, x, d)
  else
    let (d, x, y) := xgcd a b
    (x, y, d)

/-- `inverse` of an element of the field. -/
def inverse {p : ℕ} (a : ZMod p) : Py (ZMod p) :=
  let (x, _, d) := extendedEuclideanAlgorithm a.val p
  if d ≠ 1 then .error (exception "Error: p is not prime") else .ok x

/-- The loop of `__pow__`. The mask `i` doubles in each round, so there are no more rounds than the
exponent has bits. -/
def powLoop {p : ℕ} (n : ℕ) : ℕ → ZMod p → ZMod p → ℕ → ZMod p
  | 0, _, R, _ => R
  | rounds + 1, Q, R, i =>
    if i ≤ n then powLoop n rounds (Q * Q) (if n &&& i = i then Q * Q * R else R) (2 * i) else R

/-- `__pow__`: square and multiply. -/
def pow {p : ℕ} (a : ZMod p) (n : ℕ) : ZMod p :=
  powLoop n (bitLength n) a (if n &&& 1 = 1 then a else 1) 2

/-- What the decoder computes with. -/
inductive Number (p : ℕ) where
  | int (n : ℤ)
  | float (x : ℚ)
  | mod (a : ZMod p)
deriving DecidableEq

namespace Number

variable {p : ℕ}

/-- `IntegerModP(x)`: floats are cut off towards zero. -/
def toField : Number p → ZMod p
  | int n => n
  | float x => (x.num.tdiv x.den : ℤ)
  | mod a => a

/-- The value of an integer or a float. -/
def toRat : Number p → ℚ
  | int n => n
  | float x => x
  | mod _ => 0

/-- `x == k`. -/
def equals (k : ℤ) : Number p → Bool
  | int n => n = k
  | float x => x = k
  | mod a => a = k

/-- `x + y`. -/
def add : Number p → Number p → Number p
  | mod a, y => mod (a + y.toField)
  | x, mod b => mod (x.toField + b)
  | int a, int b => int (a + b)
  | x, y => float (x.toRat + y.toRat)

/-- `x - y`. -/
def sub : Number p → Number p → Number p
  | mod a, y => mod (a - y.toField)
  | x, mod b => mod (x.toField - b)
  | int a, int b => int (a - b)
  | x, y => float (x.toRat - y.toRat)

/-- `x * y`. -/
def mul : Number p → Number p → Number p
  | mod a, y => mod (a * y.toField)
  | x, mod b => mod (x.toField * b)
  | int a, int b => int (a * b)
  | x, y => float (x.toRat * y.toRat)

/-- `x / y`: integers and floats have no method `inverse`. -/
def div : Number p → Number p → Py (Number p)
  | x, mod b => do return mod (x.toField * (← inverse b))
  | mod _, _ => .error .attributeError
  | x, y => if y.toRat = 0 then .error .zeroDivisionError else .ok (float (x.toRat / y.toRat))

/-- `sum(xs)`. -/
def sum (xs : List (Number p)) : Number p := xs.foldl add (int 0)

end Number

/-! ### The field -/

section Field

variable {p : ℕ} [prime : Fact p.Prime]

theorem extendedEuclideanAlgorithm_below {a b : ℤ} (nonneg : 0 ≤ a) (lt : a < b) :
    extendedEuclideanAlgorithm a b = ((xgcd b a).2.2, (xgcd b a).2.1, (xgcd b a).1) := by
  have larger : |b| > |a| := by rw [abs_of_nonneg nonneg, abs_of_pos (nonneg.trans_lt lt)]; exact lt
  rw [extendedEuclideanAlgorithm, if_pos larger]

theorem inverse_ok {a : ZMod p} (ne : a ≠ 0) : inverse a = .ok a⁻¹ := by
  have nonneg : (0 : ℤ) ≤ a.val := Int.natCast_nonneg _
  have lt : (a.val : ℤ) < p := by exact_mod_cast ZMod.val_lt a
  have pos : (0 : ℤ) < a.val := by
    have : a.val ≠ 0 := fun zero => ne ((ZMod.val_eq_zero a).mp zero)
    omega
  have divisor : (xgcd p a.val).1 = 1 := by
    rw [xgcd_gcd pos, Int.gcd_natCast_natCast]
    have coprime : Nat.Coprime p a.val :=
      (Nat.Prime.coprime_iff_not_dvd prime.out).mpr fun dvd => by
        have := Nat.le_of_dvd (by omega) dvd
        omega
    exact_mod_cast coprime
  have bezout := xgcd_bezout p a.val
  rw [divisor] at bezout
  have one : a * ((xgcd p a.val).2.2 : ℤ) = 1 := by
    have cast := congrArg (Int.cast : ℤ → ZMod p) bezout
    simpa using cast
  rw [inverse, extendedEuclideanAlgorithm_below nonneg lt]
  simp only [divisor, ne_eq, not_true_eq_false, if_false]
  rw [inv_eq_of_mul_eq_one_right one]

/-- Loop invariant of square and multiply: the factor is the power for the current bit, the result
the power for the bits below it. -/
theorem powLoop_eq (a : ZMod p) (n : ℕ) {rounds k : ℕ} (enough : n < 2 ^ (k + 1 + rounds)) :
    powLoop n rounds (a ^ 2 ^ k) (a ^ (n % 2 ^ (k + 1))) (2 ^ (k + 1)) = a ^ n := by
  induction rounds generalizing k with
  | zero => rw [powLoop, Nat.mod_eq_of_lt enough]
  | succ rounds ih =>
      rw [powLoop]
      by_cases more : 2 ^ (k + 1) ≤ n
      · rw [if_pos more]
        have square : a ^ 2 ^ k * a ^ 2 ^ k = a ^ 2 ^ (k + 1) := by
          rw [← pow_add, pow_succ 2 k, mul_two]
        have bits : (if n &&& 2 ^ (k + 1) = 2 ^ (k + 1) then
            a ^ 2 ^ (k + 1) * a ^ (n % 2 ^ (k + 1)) else a ^ (n % 2 ^ (k + 1))) =
              a ^ (n % 2 ^ (k + 1 + 1)) := by
          have split : n % 2 ^ (k + 1 + 1) =
              n % 2 ^ (k + 1) + 2 ^ (k + 1) * (n.testBit (k + 1)).toNat := by
            rw [Nat.mod_pow_succ, Nat.toNat_testBit]
          rw [split, Nat.and_two_pow]
          cases n.testBit (k + 1) with
          | true => simp [pow_add, mul_comm]
          | false => simp [(Nat.two_pow_pos (k + 1)).ne]
        rw [square, bits, show 2 * 2 ^ (k + 1) = 2 ^ (k + 1 + 1) by ring]
        exact ih (by rwa [show k + 1 + 1 + rounds = k + 1 + (rounds + 1) by ring])
      · rw [if_neg more, Nat.mod_eq_of_lt (not_le.mp more)]

theorem pow_eq (a : ZMod p) (n : ℕ) : pow a n = a ^ n := by
  have first : (if n &&& 1 = 1 then a else 1) = a ^ (n % 2 ^ (0 + 1)) := by
    rw [Nat.and_one_is_mod, zero_add, pow_one]
    rcases Nat.mod_two_eq_zero_or_one n with even | odd
    · simp [even]
    · simp [odd]
  have enough : n < 2 ^ (0 + 1 + bitLength n) :=
    (Nat.lt_size_self n).trans_le (Nat.pow_le_pow_right (by omega) (Nat.le_add_left _ _))
  have := powLoop_eq a n enough
  rw [pow_zero, pow_one] at this
  rw [pow, first]
  exact this

end Field

/-! ### Which operations stay in the field -/

namespace Number

variable {p : ℕ}

/-- An element of the field, or the integer zero. -/
def Fieldlike (x : Number p) : Prop := x = int 0 ∨ ∃ a, x = mod a

@[simp] theorem toField_int (n : ℤ) : (int n : Number p).toField = n := rfl

@[simp] theorem toField_mod (a : ZMod p) : (mod a : Number p).toField = a := rfl

@[simp] theorem toField_float_zero : (float 0 : Number p).toField = 0 := by simp [toField]

@[simp] theorem toField_float_one : (float 1 : Number p).toField = 1 := by simp [toField]

theorem fieldlike_mod (a : ZMod p) : Fieldlike (mod a) := .inr ⟨a, rfl⟩

theorem fieldlike_zero : Fieldlike (int 0 : Number p) := .inl rfl

theorem Fieldlike.eq_mod {x : Number p} (h : Fieldlike x) (ne : x.toField ≠ 0) :
    x = mod x.toField := by
  rcases h with rfl | ⟨a, rfl⟩
  · simp at ne
  · rfl

theorem mul_mod (x : Number p) (b : ZMod p) : mul x (mod b) = mod (x.toField * b) := by
  cases x <;> rfl

theorem sub_mod (x : Number p) (b : ZMod p) : sub x (mod b) = mod (x.toField - b) := by
  cases x <;> rfl

theorem add_mod (x : Number p) (b : ZMod p) : add x (mod b) = mod (x.toField + b) := by
  cases x <;> rfl

theorem Fieldlike.sub {x y : Number p} (hx : Fieldlike x) (hy : Fieldlike y) :
    Fieldlike (sub x y) ∧ (sub x y).toField = x.toField - y.toField := by
  rcases hx with rfl | ⟨a, rfl⟩ <;> rcases hy with rfl | ⟨b, rfl⟩ <;> simp [Number.sub, Fieldlike]

theorem Fieldlike.add {x y : Number p} (hx : Fieldlike x) (hy : Fieldlike y) :
    Fieldlike (add x y) ∧ (add x y).toField = x.toField + y.toField := by
  rcases hx with rfl | ⟨a, rfl⟩ <;> rcases hy with rfl | ⟨b, rfl⟩ <;> simp [Number.add, Fieldlike]

theorem Fieldlike.mul_one {x : Number p} (hx : Fieldlike x) :
    Fieldlike (mul x (int 1)) ∧ (mul x (int 1)).toField = x.toField := by
  rcases hx with rfl | ⟨a, rfl⟩ <;> simp [Number.mul, Fieldlike]

/-- A sum of elements of the field. -/
theorem sum_fieldlike {xs : List (Number p)} (all : ∀ x ∈ xs, Fieldlike x) :
    Fieldlike (sum xs) ∧ (sum xs).toField = (xs.map toField).sum := by
  have loop : ∀ (xs : List (Number p)) (s : Number p), Fieldlike s → (∀ x ∈ xs, Fieldlike x) →
      Fieldlike (xs.foldl Number.add s) ∧
        (xs.foldl Number.add s).toField = s.toField + (xs.map toField).sum := by
    intro xs
    induction xs with
    | nil => exact fun s hs _ => ⟨hs, by simp⟩
    | cons x xs ih =>
        intro s hs all
        obtain ⟨typed, value⟩ := hs.add (all x List.mem_cons_self)
        obtain ⟨typed', value'⟩ :=
          ih _ typed fun y mem => all y (List.mem_cons_of_mem x mem)
        refine ⟨typed', ?_⟩
        rw [List.foldl_cons, value', value, List.map_cons, List.sum_cons, add_assoc]
  obtain ⟨typed, value⟩ := loop xs (int 0) fieldlike_zero all
  refine ⟨typed, ?_⟩
  rw [sum, value, toField_int, Int.cast_zero, zero_add]

theorem sum_float_zeros (k : ℕ) :
    Number.sum (List.replicate k (.float 0 : Number p)) = .int 0 ∨
      Number.sum (List.replicate k (.float 0 : Number p)) = .float 0 := by
  have loop : ∀ k, (List.replicate k (.float 0 : Number p)).foldl Number.add (.float 0) = .float 0 := by
    intro k
    induction k with
    | zero => rfl
    | succ k ih => simpa [List.replicate_succ, Number.add, Number.toRat] using ih
  cases k with
  | zero => exact .inl rfl
  | succ k =>
      refine .inr ?_
      rw [Number.sum, List.replicate_succ, List.foldl_cons]
      simpa [Number.add, Number.toRat] using loop k

theorem div_mod [Fact p.Prime] (x : Number p) {b : ZMod p} (ne : b ≠ 0) :
    div x (mod b) = .ok (mod (x.toField / b)) := by
  have unfolded : div x (mod b) = (do return mod (x.toField * (← inverse b))) := by cases x <;> rfl
  rw [unfolded, inverse_ok ne, div_eq_mul_inv]
  rfl

end Number

/-- All numbers of a list are elements of the field. -/
def InField {p : ℕ} (L : List (Number p)) : Prop := ∀ x ∈ L, ∃ a, x = .mod a

end Prism.Crypto
