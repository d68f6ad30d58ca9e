import Mathlib.Data.Fintype.BigOperators
import Prism.Crypto.Feldman
import Prism.Lib.Resumption
import Prism.Lib.StrongLiars

/-!
Random primes (`prism/common/crypto/modmath.py`).

The random numbers are answers to the questions of a process (`Draw`), so that a run is recorded
with what it drew. `is_prime` takes the powers of two out of `n - 1`, and tests one base after
another until one is a witness or `k` have been tested.

* `halved_oddPart`: the loop that takes the powers of two out ends with an odd factor.
* `passes_spec`: one test decides whether its base is a witness, the early exit included.
* `isPrime_decides`: the verdict, for every sequence of random numbers.
* `two_pow_mul_card_accepts`: how many sequences let a composite number through.
* `genPrime_sound`: what is known of a random prime; `genPrime_one`: there is none of one bit.
-/

namespace Prism.Crypto

open Lib

/-- What is drawn. -/
inductive Draw where
  /-- `randrange(start, stop)`, of a range that is not empty. -/
  | range (start stop : ℤ) (nonempty : start < stop)
  /-- `getrandbits(length)`. -/
  | bits (length : ℕ)

/-- What may be drawn. -/
def Draw.Allows : Draw → ℤ → Prop
  | range start stop _, a => start ≤ a ∧ a < stop
  | bits length, a => 0 ≤ a ∧ a < 2 ^ length

/-- A generator of random numbers: any sequence of numbers that may be drawn. -/
structure Generator where
  draw : ℕ → Draw → ℤ
  allowed : ∀ i (d : Draw), d.Allows (draw i d)

/-- The generator that draws the least number. -/
instance : Inhabited Generator where
  default :=
    { draw := fun _ d => match d with
        | .range start _ _ => start
        | .bits _ => 0
      allowed := fun _ d => match d with
        | .range _ _ nonempty => ⟨le_rfl, nonempty⟩
        | .bits _ => ⟨le_rfl, by positivity⟩ }

/-- A computation that draws random numbers. -/
abbrev Drawing := Resumption Draw ℤ PyError

/-- `randrange`. -/
def randrange (start stop : ℤ) : Drawing ℤ :=
  if nonempty : start < stop then .query (.range start stop nonempty)
  else .lift (.error (.valueError "empty range for randrange()"))

/-- The loop that finds `r` and `s`. It ends because `r` is positive. -/
def oddPart (s : ℕ) (r : ℤ) (pos : 0 < r) : ℕ × ℤ :=
  if even : r % 2 = 0 then oddPart (s + 1) (r / 2) (by omega) else (s, r)
termination_by r.toNat

/-- The inner loop, for `rounds` values of `j`: the last square, or nothing once a square is one. -/
def squares (n : ℤ) : ℕ → ℤ → Py (Option ℤ)
  | 0, x => return some x
  | rounds + 1, x => do
    if x ≠ n - 1 then
      let x ← powMod x 2 n
      if x = 1 then return none
      squares n rounds x
    else return some x

/-- One of the `k` tests: whether the base `a` is passed. -/
def passes (n : ℤ) (s : ℕ) (r a : ℤ) : Py Bool := do
  let x ← powMod a r n
  if x ≠ 1 ∧ x ≠ n - 1 then
    match ← squares n (s - 1) x with
    | none => return false
    | some x => return x = n - 1
  else return true

/-- The `k` tests. -/
def tests (n : ℤ) (s : ℕ) (r : ℤ) : ℕ → Drawing Bool
  | 0 => return true
  | k + 1 => do
    let a ← randrange 2 (n - 1)
    if ← passes n s r a then tests n s r k else return false

/-- `is_prime`. -/
def isPrime (n k : ℤ) : Drawing Bool :=
  if n = 2 ∨ n = 3 then return true
  else if small : n ≤ 1 ∨ n % 2 = 0 then return false
  else
    let (s, r) := oddPart 0 (n - 1) (by omega)
    tests n s r k.toNat

/-- `getrandbits`. -/
def getrandbits (length : ℤ) : Drawing ℤ :=
  if 0 ≤ length then .query (.bits length.toNat)
  else .lift (.error (.valueError "number of bits must be non-negative"))

/-- `gen_odd`: the first and the last bit are set. -/
def genOdd (length : ℤ) : Drawing ℤ := do
  let p ← getrandbits length
  if length < 1 then .lift (.error (.valueError "negative shift count"))
  return (p.toNat ||| (1 <<< (length - 1).toNat ||| 1) : ℕ)

/-- The loop of `gen_prime`, or nothing when it has not ended after some rounds. -/
def genPrimeLoop (nbits : ℤ) : ℕ → ℤ → Drawing (Option ℤ)
  | 0, _ => return none
  | rounds + 1, p => do
    if ← isPrime p 128 then return some p
    else genPrimeLoop nbits rounds (← genOdd nbits)

/-- `gen_prime`. -/
def genPrime (nbits : ℤ) (rounds : ℕ) : Drawing (Option ℤ) := genPrimeLoop nbits rounds 4

/-! ### The powers of two of `n - 1` -/

/-- What the loop that halves `r` comes to. -/
structure Halved (n : ℤ) (s : ℕ) (r : ℤ) : Prop where
  odd : Odd r
  pos : 0 < r
  split : n - 1 = 2 ^ s * r

/-- Invariant of the loop. -/
theorem halved_oddPart {n : ℤ} (s : ℕ) (r : ℤ) (pos : 0 < r) (split : n - 1 = 2 ^ s * r) :
    Halved n (oddPart s r pos).1 (oddPart s r pos).2 := by
  induction s, r, pos using oddPart.induct with
  | case1 s r pos even ih =>
      rw [oddPart, dif_pos even]
      refine ih ?_
      rw [pow_succ, mul_assoc, Int.mul_ediv_cancel' (Int.dvd_of_emod_eq_zero even)]
      exact split
  | case2 s r pos odd =>
      rw [oddPart, dif_neg odd]
      exact ⟨Int.odd_iff.mpr (by omega), pos, split⟩

namespace Halved

variable {n r : ℤ} {s : ℕ}

/-- An odd number is halved at least once. -/
theorem one_le (halved : Halved n s r) (odd : Odd n) : 1 ≤ s := by
  by_contra none
  obtain rfl : s = 0 := by omega
  have odd_pred : Odd (n - 1) := by simpa [halved.split] using halved.odd
  exact Int.not_even_iff_odd.mpr odd_pred (odd.sub_odd odd_one)

theorem isWitness_iff (halved : Halved n s r) (a : ℤ) :
    IsWitness n a ↔ ¬ a ^ r.toNat ≡ 1 [ZMOD n] ∧
      ∀ i < s, ¬ (a ^ r.toNat % n) ^ 2 ^ i ≡ -1 [ZMOD n] := by
  have nat : (r.toNat : ℤ) = r := Int.toNat_of_nonneg halved.pos.le
  have odd : Odd r.toNat := by
    have := halved.odd
    rwa [← nat, Int.odd_coe_nat] at this
  have power : ∀ i, (a ^ r.toNat % n) ^ 2 ^ i ≡ a ^ (2 ^ i * r.toNat) [ZMOD n] := by
    intro i
    rw [mul_comm, pow_mul]
    exact (Int.mod_modEq _ _).pow _
  rw [Lib.isWitness_iff odd (nat.symm ▸ halved.split)]
  refine and_congr_right fun _ => forall₂_congr fun i _ => not_congr ?_
  exact ⟨(power i).trans, (power i).symm.trans⟩

end Halved

/-! ### One base -/

section Base

variable {n : ℤ}

theorem powMod_of_nonneg {exp : ℤ} (nonneg : 0 ≤ exp) (base mod : ℤ) :
    powMod base exp mod = .ok (base ^ exp.toNat % mod) :=
  if_pos nonneg

/-- Minus one as a residue. -/
theorem eq_sub_one_iff {x : ℤ} (low : 0 ≤ x) (high : x < n) : x = n - 1 ↔ x ≡ -1 [ZMOD n] := by
  have residue : n - 1 ≡ -1 [ZMOD n] := Int.modEq_iff_dvd.mpr ⟨-1, by ring⟩
  constructor
  · rintro rfl
    exact residue
  · intro minus
    have same : x % n = (n - 1) % n := minus.trans residue.symm
    rwa [Int.emod_eq_of_lt low high, Int.emod_eq_of_lt (by omega) (by omega)] at same

/-- Once a square is one, no later square is minus one. -/
theorem not_minus_one_of_one (two_lt : 2 < n) {x : ℤ} (one : x ≡ 1 [ZMOD n]) (i : ℕ) :
    ¬ x ^ i ≡ -1 [ZMOD n] := by
  intro minus
  have same : (1 : ℤ) ≡ -1 [ZMOD n] := by simpa using (one.pow i).symm.trans minus
  have divides : n ∣ 2 := by simpa using Int.modEq_iff_dvd.mp same.symm
  have := Int.le_of_dvd (by decide) divides
  omega

/-- The squares from the next one on. -/
theorem exists_minus_one_succ {x : ℤ} (ne : ¬ x ≡ -1 [ZMOD n]) (rounds : ℕ) :
    (∃ i ≤ rounds + 1, x ^ 2 ^ i ≡ -1 [ZMOD n]) ↔
      ∃ i ≤ rounds, (x ^ 2 % n) ^ 2 ^ i ≡ -1 [ZMOD n] := by
  have next : ∀ i, (x ^ 2 % n) ^ 2 ^ i ≡ x ^ 2 ^ (i + 1) [ZMOD n] := by
    intro i
    rw [pow_succ' 2 i, pow_mul]
    exact (Int.mod_modEq _ _).pow _
  constructor
  · rintro ⟨i, le, minus⟩
    cases i with
    | zero => exact absurd (by simpa using minus) ne
    | succ i => exact ⟨i, by omega, (next i).trans minus⟩
  · rintro ⟨i, le, minus⟩
    exact ⟨i + 1, by omega, (next i).symm.trans minus⟩

/-- The inner loop ends with minus one exactly if one of the squares is minus one. -/
theorem squares_spec (two_lt : 2 < n) (rounds : ℕ) {x : ℤ} (low : 0 ≤ x) (high : x < n) :
    ∃ last, squares n rounds x = .ok last ∧
      (last = some (n - 1) ↔ ∃ i ≤ rounds, x ^ 2 ^ i ≡ -1 [ZMOD n]) := by
  induction rounds generalizing x with
  | zero =>
      refine ⟨some x, rfl, ?_⟩
      simp [eq_sub_one_iff low high]
  | succ rounds ih =>
      have minus_iff := eq_sub_one_iff low high
      rw [squares]
      by_cases minus : x = n - 1
      · rw [if_neg (not_not.mpr minus)]
        refine ⟨some x, rfl, iff_of_true (congrArg some minus) ⟨0, Nat.zero_le _, ?_⟩⟩
        simpa using minus_iff.mp minus
      · have later := exists_minus_one_succ (minus_iff.not.mp minus) rounds
        have low' := Int.emod_nonneg (x ^ 2) (show n ≠ 0 by omega)
        have high' := Int.emod_lt_of_pos (x ^ 2) (show 0 < n by omega)
        rw [if_pos minus, powMod_of_nonneg (by decide), ok_bind]
        by_cases one : x ^ 2 % n = 1
        · -- the early exit: every later square is one as well
          refine ⟨none, if_pos one, iff_of_false (by simp) ?_⟩
          rw [later]
          rintro ⟨i, -, minus⟩
          rw [one] at minus
          exact not_minus_one_of_one two_lt (Int.ModEq.refl 1) _ minus
        · obtain ⟨last, run, iff⟩ := ih low' high'
          exact ⟨last, (if_neg one).trans run, iff.trans later.symm⟩

/-- **One test.** -/
theorem passes_spec {r : ℤ} {s : ℕ} (halved : Halved n s r) (odd : Odd n) (two_lt : 2 < n) (a : ℤ) :
    ∃ passed, passes n s r a = .ok passed ∧ (passed = false ↔ IsWitness n a) := by
  have one_le := halved.one_le odd
  have low := Int.emod_nonneg (a ^ r.toNat) (show n ≠ 0 by omega)
  have high := Int.emod_lt_of_pos (a ^ r.toNat) (show 0 < n by omega)
  have one_iff : a ^ r.toNat % n = 1 ↔ a ^ r.toNat ≡ 1 [ZMOD n] := by
    rw [Int.ModEq, Int.emod_eq_of_lt one_pos.le (by omega)]
  have minus_iff := eq_sub_one_iff low high
  rw [passes, powMod_of_nonneg halved.pos.le, ok_bind, halved.isWitness_iff]
  by_cases first : a ^ r.toNat % n ≠ 1 ∧ a ^ r.toNat % n ≠ n - 1
  · obtain ⟨last, run, last_iff⟩ := squares_spec two_lt (s - 1) low high
    rw [if_pos first, run, ok_bind]
    have found : last = some (n - 1) ↔ ∃ i < s, (a ^ r.toNat % n) ^ 2 ^ i ≡ -1 [ZMOD n] := by
      rw [last_iff]
      exact exists_congr fun i => and_congr_left fun _ => by omega
    refine ⟨decide (last = some (n - 1)), ?_, ?_⟩
    · cases last <;> simp <;> rfl
    · rw [decide_eq_false_iff_not, found, not_exists]
      simp only [not_and, one_iff.not.mp first.1, not_false_eq_true, true_and]
  · rw [if_neg first]
    refine ⟨true, rfl, iff_of_false (by simp) ?_⟩
    rintro ⟨ne_one, never⟩
    refine first ⟨one_iff.not.mpr ne_one, minus_iff.not.mpr ?_⟩
    simpa using never 0 one_le

/-- The composite number 2047 is passed by the base two, and not by the base three. -/
example : passes 2047 1 1023 2 = .ok true ∧ passes 2047 1 1023 3 = .ok false := by decide +kernel

/-- **The tests** of one run reject `n` exactly if a base is a witness: one that was drawn, which is
one of the first `k` numbers of the sequence. -/
theorem record_tests {r : ℤ} {s : ℕ} (halved : Halved n s r) (odd : Odd n) (nonempty : 2 < n - 1)
    (k : ℕ) (draw : ℕ → Draw → ℤ) :
    ∃ verdict drawn, (tests n s r k).record draw = (.ok verdict, drawn) ∧
      drawn.length ≤ k ∧ (verdict = true → drawn.length = k) ∧
      (verdict = false ↔ ∃ e ∈ drawn, IsWitness n e.2) ∧
      (verdict = false ↔ ∃ i < k, IsWitness n (draw i (.range 2 (n - 1) nonempty))) := by
  induction k generalizing draw with
  | zero => exact ⟨true, [], rfl, le_rfl, fun _ => rfl, by simp, by simp⟩
  | succ k ih =>
      set base := draw 0 (.range 2 (n - 1) nonempty) with hbase
      obtain ⟨passed, run, passed_iff⟩ := passes_spec halved odd (by omega) base
      rw [tests, randrange, dif_pos nonempty, Resumption.query_bind, Resumption.record_ask, ← hbase,
        run]
      cases passed with
      | false =>
          have witness := passed_iff.mp rfl
          refine ⟨false, [(.range 2 (n - 1) nonempty, base)], rfl, by simp, by simp, ?_, ?_⟩
          · exact iff_of_true rfl ⟨_, List.mem_singleton_self _, witness⟩
          · exact iff_of_true rfl ⟨0, Nat.succ_pos k, witness⟩
      | true =>
          have not_witness := passed_iff.not.mp (by simp)
          obtain ⟨verdict, drawn, rest, at_most, all, drawn_iff, sequence_iff⟩ :=
            ih fun i => draw (i + 1)
          refine ⟨verdict, (.range 2 (n - 1) nonempty, base) :: drawn, ?_, ?_, ?_, ?_, ?_⟩
          · simp [rest]
          · simpa using at_most
          · simpa using all
          · simp [drawn_iff, not_witness]
          · rw [sequence_iff, Nat.exists_lt_succ_left]
            exact (or_iff_right not_witness).symm

end Base

/-! ### The verdict -/

section Verdict

variable {n : ℤ}

theorem isPrime_least (least : n = 2 ∨ n = 3) (k : ℤ) : isPrime n k = .done (.ok true) :=
  if_pos least

theorem isPrime_small (small : n ≤ 1 ∨ n ≠ 2 ∧ Even n) (k : ℤ) :
    isPrime n k = .done (.ok false) := by
  have even : n ≤ 1 ∨ n ≠ 2 ∧ n % 2 = 0 := small.imp_right (.imp_right Int.even_iff.mp)
  rw [isPrime, if_neg (by omega), dif_pos (by omega)]
  rfl

theorem record_isPrime (odd : Odd n) (nonempty : 2 < n - 1) (k : ℤ) (draw : ℕ → Draw → ℤ) :
    ∃ verdict drawn, (isPrime n k).record draw = (.ok verdict, drawn) ∧
      drawn.length ≤ k.toNat ∧ (verdict = true → drawn.length = k.toNat) ∧
      (verdict = false ↔ ∃ e ∈ drawn, IsWitness n e.2) ∧
      (verdict = false ↔ ∃ i < k.toNat, IsWitness n (draw i (.range 2 (n - 1) nonempty))) := by
  have not_even : ¬ n % 2 = 0 := Int.even_iff.not.mp (Int.not_even_iff_odd.mpr odd)
  rw [isPrime, if_neg (by omega), dif_neg (by omega)]
  exact record_tests (halved_oddPart 0 (n - 1) (by omega) (by simp)) odd nonempty k.toNat draw

/-- A prime is passed by every base that can be drawn. -/
theorem not_isWitness_of_range {a : ℤ} (prime : n.toNat.Prime) (low : 2 ≤ a) (high : a < n - 1) :
    ¬ IsWitness n a := by
  have nat : (n.toNat : ℤ) = n := Int.toNat_of_nonneg (by omega)
  rw [← nat]
  refine not_isWitness_of_prime prime fun divides => ?_
  have := Int.le_of_dvd (by omega) divides
  omega

/-- The numbers by the three ways in which `is_prime` goes on. -/
theorem least_or_small_or_odd (n : ℤ) :
    (n = 2 ∨ n = 3) ∨ (n ≤ 1 ∨ n ≠ 2 ∧ Even n) ∨ Odd n ∧ 2 < n - 1 := by
  rcases Int.even_or_odd n with even | odd
  · by_cases two : n = 2
    · exact .inl (.inl two)
    · exact .inr (.inl (.inr ⟨two, even⟩))
  · obtain ⟨m, rfl⟩ := odd
    have : 2 * m + 1 = 3 ∨ 2 * m + 1 ≤ 1 ∨ 2 < 2 * m + 1 - 1 := by omega
    rcases this with three | small | more
    · exact .inl (.inr three)
    · exact .inr (.inl (.inl small))
    · exact .inr (.inr ⟨odd_two_mul_add_one m, more⟩)

/-- **The test for primes**, for every number, every `k` and every sequence of random numbers. It
ends after at most `k` bases, never raises and never rejects a prime. Another odd number is rejected
exactly if one of the bases is a witness: one of those that were drawn, or one of the first `k` of
the sequence. -/
theorem isPrime_decides (rng : Generator) (n k : ℤ) :
    ∃ verdict drawn, (isPrime n k).record rng.draw = (.ok verdict, drawn) ∧
      drawn.length ≤ k.toNat ∧
      (n.toNat.Prime → verdict = true) ∧
      (Even n → n ≠ 2 → verdict = false) ∧
      (n ≤ 1 → verdict = false) ∧
      (Odd n → 1 < n → ¬ n.toNat.Prime →
        (verdict = false ↔ ∃ e ∈ drawn, IsWitness n e.2) ∧
        ∀ nonempty : 2 < n - 1, (verdict = false ↔
          ∃ i < k.toNat, IsWitness n (rng.draw i (.range 2 (n - 1) nonempty)))) := by
  rcases least_or_small_or_odd n with least | small | ⟨odd, nonempty⟩
  · refine ⟨true, [], by rw [isPrime_least least]; rfl, Nat.zero_le _, fun _ => rfl, ?_, by omega,
      ?_⟩
    · rintro even ne
      rcases least with two | rfl
      · exact absurd two ne
      · exact absurd even (by decide)
    · rintro - - composite
      rcases least with rfl | rfl
      · exact absurd Nat.prime_two composite
      · exact absurd Nat.prime_three composite
  · refine ⟨false, [], by rw [isPrime_small small]; rfl, Nat.zero_le _, ?_, fun _ _ => rfl,
      fun _ => rfl, ?_⟩
    · intro prime
      have two_le := prime.two_le
      rcases small with small | ⟨ne, even⟩
      · omega
      · have := Int.even_iff.mp even
        rcases prime.eq_two_or_odd with two | odd <;> omega
    · rintro odd one_lt
      rcases small with small | ⟨-, even⟩
      · omega
      · exact absurd even (Int.not_even_iff_odd.mpr odd)
  · obtain ⟨verdict, drawn, run, at_most, -, drawn_iff, sequence_iff⟩ :=
      record_isPrime odd nonempty k rng.draw
    refine ⟨verdict, drawn, run, at_most, ?_, ?_, by omega,
      fun _ _ _ => ⟨drawn_iff, fun _ => sequence_iff⟩⟩
    · intro prime
      rw [← Bool.not_eq_false, sequence_iff]
      rintro ⟨i, -, witness⟩
      obtain ⟨low, high⟩ := rng.allowed i (.range 2 (n - 1) nonempty)
      exact not_isWitness_of_range prime low high witness
    · intro even
      exact absurd even (Int.not_even_iff_odd.mpr odd)

/-- What is behind a number that `is_prime` accepts. -/
def Vetted (n : ℤ) (k : ℕ) (drawn : List (Draw × ℤ)) : Prop :=
  n.toNat.Prime ∨ (Odd n ∧ 2 < n - 1) ∧ drawn.length = k ∧ ∀ e ∈ drawn, ¬ IsWitness n e.2

theorem record_isPrime_vetted (n k : ℤ) (draw : ℕ → Draw → ℤ) :
    ∃ verdict drawn, (isPrime n k).record draw = (.ok verdict, drawn) ∧
      (verdict = true → Vetted n k.toNat drawn) := by
  rcases least_or_small_or_odd n with least | small | ⟨odd, nonempty⟩
  · refine ⟨true, [], by rw [isPrime_least least]; rfl, fun _ => .inl ?_⟩
    rcases least with rfl | rfl
    · exact Nat.prime_two
    · exact Nat.prime_three
  · exact ⟨false, [], by rw [isPrime_small small]; rfl, by simp⟩
  · obtain ⟨verdict, drawn, run, -, all, drawn_iff, -⟩ := record_isPrime odd nonempty k draw
    refine ⟨verdict, drawn, run, fun accepted =>
      .inr ⟨⟨odd, nonempty⟩, all accepted, fun e mem witness => ?_⟩⟩
    have rejected := drawn_iff.mpr ⟨e, mem, witness⟩
    rw [accepted] at rejected
    cases rejected

/-- A generator that draws these numbers first. -/
def drawing {k : ℕ} (bases : Fin k → ℤ) (i : ℕ) (_ : Draw) : ℤ :=
  if lt : i < k then bases ⟨i, lt⟩ else 2

/-- A number is accepted with these bases. -/
def Accepts (n : ℤ) {k : ℕ} (bases : Fin k → ℤ) : Prop :=
  ((isPrime n k).record (drawing bases)).1 = .ok true

instance (n : ℤ) {k : ℕ} (bases : Fin k → ℤ) : Decidable (Accepts n bases) := by
  unfold Accepts
  infer_instance

theorem accepts_iff (odd : Odd n) (nonempty : 2 < n - 1) {k : ℕ} (bases : Fin k → ℤ) :
    Accepts n bases ↔ ∀ i, ¬ IsWitness n (bases i) := by
  obtain ⟨verdict, drawn, run, -, -, -, sequence_iff⟩ :=
    record_isPrime odd nonempty k (drawing bases)
  rw [Int.toNat_natCast] at sequence_iff
  have verdict_iff : Accepts n bases ↔ ¬ verdict = false := by
    rw [Accepts, run, Bool.not_eq_false]
    exact ⟨Except.ok.inj, congrArg _⟩
  rw [verdict_iff, sequence_iff]
  constructor
  · rintro none i witness
    exact none ⟨i, i.2, by simpa [drawing] using witness⟩
  · rintro none ⟨i, lt, witness⟩
    exact none ⟨i, lt⟩ (by simpa [drawing, lt] using witness)

/-- **A composite number is accepted** with a share of at most `2 ^ -k` of the sequences of bases. -/
theorem two_pow_mul_card_accepts (odd : Odd n) (one_lt : 1 < n) (composite : ¬ n.toNat.Prime)
    (k : ℕ) :
    2 ^ k * ((Fintype.piFinset fun _ : Fin k => Finset.Ico 2 (n - 1)).filter (Accepts n)).card ≤
      (Fintype.piFinset fun _ : Fin k => Finset.Ico 2 (n - 1)).card := by
  classical
  obtain ⟨m, rfl⟩ := Int.eq_ofNat_of_zero_le (show 0 ≤ n by omega)
  rw [Int.toNat_natCast] at composite
  have nonempty : (2 : ℤ) < m - 1 := by
    have three_ne : m ≠ 3 := by
      rintro rfl
      exact composite Nat.prime_three
    obtain ⟨d, eq⟩ := odd
    omega
  set passed := (Finset.Ico (2 : ℤ) (m - 1)).filter fun a => ¬ IsWitness m a with hpassed
  have accepted : (Fintype.piFinset fun _ : Fin k => Finset.Ico (2 : ℤ) (m - 1)).filter (Accepts m) =
      Fintype.piFinset fun _ => passed := by
    ext bases
    simp only [Finset.mem_filter, Fintype.mem_piFinset, accepts_iff odd nonempty, hpassed]
    exact forall_and.symm
  have half : 2 * passed.card ≤ (Finset.Ico (2 : ℤ) (m - 1)).card :=
    two_mul_card_inner (by omega) (by exact_mod_cast odd) composite
  rw [accepted, Fintype.card_piFinset_const, Fintype.card_piFinset_const, ← mul_pow]
  exact Nat.pow_le_pow_left half k

/-- The share for 9 and two rounds. -/
theorem nine_card_accepts :
    2 ^ 2 * ((Fintype.piFinset fun _ : Fin 2 => Finset.Ico 2 (9 - 1)).filter (Accepts 9)).card ≤
      (Fintype.piFinset fun _ : Fin 2 => Finset.Ico 2 ((9 : ℤ) - 1)).card :=
  two_pow_mul_card_accepts (by decide) (by decide) (by decide) 2

end Verdict

/-! ### Random primes -/

/-- The numbers that `gen_odd` draws. -/
def IsCandidate (nbits : ℕ) (p : ℤ) : Prop := Odd p ∧ 2 ^ (nbits - 1) ≤ p ∧ p < 2 ^ nbits

theorem genOdd_eq {nbits : ℕ} (pos : 1 ≤ nbits) :
    genOdd nbits = .ask (.bits nbits) fun p =>
      .done (.ok (p.toNat ||| (1 <<< (nbits - 1) ||| 1) : ℕ)) := by
  have shift : ((nbits : ℤ) - 1).toNat = nbits - 1 := by omega
  have enough : ¬ (nbits : ℤ) < 1 := by omega
  rw [genOdd, getrandbits, if_pos (by omega), Resumption.query_bind, Int.toNat_natCast, shift]
  simp [enough]

/-- The two bits that are set keep the length and make the number odd. -/
theorem isCandidate_or {nbits p : ℕ} (pos : 1 ≤ nbits) (lt : p < 2 ^ nbits) :
    IsCandidate nbits (p ||| (1 <<< (nbits - 1) ||| 1) : ℕ) := by
  rw [Nat.one_shiftLeft]
  have top : 2 ^ (nbits - 1) < 2 ^ nbits := Nat.pow_lt_pow_right (by norm_num) (by omega)
  have last : 1 < 2 ^ nbits := Nat.one_lt_two_pow (by omega)
  refine ⟨?_, ?_, ?_⟩
  · rw [Int.odd_coe_nat, Nat.odd_iff]
    simp
  · have low : 2 ^ (nbits - 1) ≤ p ||| (2 ^ (nbits - 1) ||| 1) :=
      Nat.left_le_or.trans Nat.right_le_or
    exact_mod_cast low
  · exact_mod_cast Nat.or_lt_two_pow lt (Nat.or_lt_two_pow top last)

/-- `gen_odd` draws one number. -/
theorem record_genOdd {nbits : ℕ} (pos : 1 ≤ nbits) {draw : ℕ → Draw → ℤ}
    (allowed : ∀ i (d : Draw), d.Allows (draw i d)) :
    ∃ p drawn, (genOdd nbits).record draw = (.ok p, drawn) ∧ IsCandidate nbits p := by
  obtain ⟨low, high⟩ := allowed 0 (.bits nbits)
  have lt : (draw 0 (.bits nbits)).toNat < 2 ^ nbits := by
    zify
    rwa [Int.toNat_of_nonneg low]
  rw [genOdd_eq pos]
  exact ⟨_, _, rfl, isCandidate_or pos lt⟩

/-- Invariant of the loop of `gen_prime`: the number at hand is the first one or a candidate. -/
theorem record_genPrimeLoop {nbits : ℕ} (pos : 1 ≤ nbits) (rounds : ℕ) {p : ℤ}
    (start : p = 4 ∨ IsCandidate nbits p) {draw : ℕ → Draw → ℤ}
    (allowed : ∀ i (d : Draw), d.Allows (draw i d)) :
    ∃ found drawn, (genPrimeLoop nbits rounds p).record draw = (.ok found, drawn) ∧
      ∀ q, found = some q → IsCandidate nbits q ∧
        ∃ before tested, drawn = before ++ tested ∧ Vetted q 128 tested := by
  induction rounds generalizing p draw with
  | zero => exact ⟨none, [], rfl, by simp⟩
  | succ rounds ih =>
      obtain ⟨verdict, tested, run, vetted⟩ := record_isPrime_vetted p 128 draw
      rw [genPrimeLoop, Resumption.record_bind run]
      cases verdict with
      | true =>
          have vetted : Vetted p 128 tested := vetted rfl
          have candidate : IsCandidate nbits p := by
            rcases start with rfl | candidate
            · rcases vetted with prime | ⟨⟨odd, -⟩, -⟩
              · exact absurd prime (by decide)
              · exact absurd odd (by decide)
            · exact candidate
          refine ⟨some p, tested, by simp, ?_⟩
          rintro q ⟨⟩
          exact ⟨candidate, [], tested, rfl, vetted⟩
      | false =>
          obtain ⟨next, drawn, draws, candidate⟩ :=
            record_genOdd pos fun i => allowed (i + tested.length)
          obtain ⟨found, rest, goesOn, sound⟩ :=
            ih (.inr candidate) fun i => allowed (i + drawn.length + tested.length)
          refine ⟨found, tested ++ (drawn ++ rest), ?_, fun q same => ?_⟩
          · simp [Resumption.record_bind draws, goesOn]
          · obtain ⟨isCandidate, before, last, rfl, vetted⟩ := sound q same
            exact ⟨isCandidate, tested ++ (drawn ++ before), last, by simp, vetted⟩

/-- **What `gen_prime` returns** has the length that was asked for, and is a prime, or else an odd
number of which none of the last 128 numbers that were drawn is a witness. -/
theorem genPrime_sound (rng : Generator) {nbits : ℕ} (pos : 1 ≤ nbits) (rounds : ℕ) :
    ∃ found drawn, (genPrime nbits rounds).record rng.draw = (.ok found, drawn) ∧
      ∀ p, found = some p → IsCandidate nbits p ∧
        ∃ before tested, drawn = before ++ tested ∧ Vetted p 128 tested :=
  record_genPrimeLoop pos rounds (.inl rfl) rng.allowed

/-- There is no prime of one bit: `gen_prime(1)` never returns. -/
theorem genPrime_one (rng : Generator) (rounds : ℕ) :
    ((genPrime 1 rounds).record rng.draw).1 = .ok none := by
  obtain ⟨found, drawn, run, sound⟩ := genPrime_sound rng (le_refl 1) rounds
  refine (congrArg Prod.fst run).trans (congrArg Except.ok ?_)
  cases found with
  | none => rfl
  | some p =>
      obtain ⟨⟨-, low, high⟩, _, _, -, vetted⟩ := sound p rfl
      obtain rfl : p = 1 := by
        norm_num at low high
        omega
      rcases vetted with prime | ⟨⟨-, nonempty⟩, -⟩
      · exact absurd prime (by decide)
      · exact absurd nonempty (by decide)

end Prism.Crypto
