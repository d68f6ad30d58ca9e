import Mathlib.Algebra.Group.Units.Equiv
import Mathlib.Data.Int.ConditionallyCompleteOrder
import Mathlib.Data.Int.Interval
import Mathlib.GroupTheory.Index
import Prism.Lib.StrongTest

/-!
How many bases are not witnesses.

For an odd composite `n`, the bases that are no witnesses lie in a proper subgroup of the units
modulo `n`, so that no more than half of the units are among them.

* `exists_pow_ne_one`: if the square of a prime divides `n`, the subgroup is the units whose power
  with the exponent `n - 1` is one.
* `exists_subgroup_of_prod`: if `n` has two coprime factors, it is the units of which some power is
  one or minus one, where the exponent is the last one for which minus one is a power.
* `two_mul_card_not_isWitness`: the number of the bases.
-/

namespace Prism.Lib

/-! ### Signs -/

section Signs

variable {R : Type} [CommRing R]

variable (R) in
/-- The units of which a power is one or minus one. -/
def signs (N : ℕ) : Subgroup Rˣ where
  carrier := {u | u ^ N = 1 ∨ u ^ N = -1}
  one_mem' := .inl (one_pow N)
  mul_mem' := by
    rintro u v (one | minus) (one' | minus') <;> simp [mul_pow, *]
  inv_mem' := by
    rintro u (one | minus) <;> simp [*]

/-- A unit that passes the strong test. -/
def Passes (s r : ℕ) (u : Rˣ) : Prop := u ^ r = 1 ∨ ∃ i < s, u ^ (2 ^ i * r) = -1

/-- The last exponent for which minus one is a power. -/
theorem exists_last (s r : ℕ) (odd : Odd r) (pos : 0 < s) :
    ∃ t < s, (∃ u : Rˣ, u ^ (2 ^ t * r) = -1) ∧
      ∀ i < s, ∀ u : Rˣ, u ^ (2 ^ i * r) = -1 → i ≤ t := by
  classical
  let P : ℕ → Prop := fun i => ∃ u : Rˣ, u ^ (2 ^ i * r) = -1
  have first : P 0 := ⟨-1, by simpa using odd.neg_one_pow⟩
  refine ⟨Nat.findGreatest P (s - 1), ?_, Nat.findGreatest_spec (Nat.zero_le _) first, ?_⟩
  · have := @Nat.findGreatest_le P _ (s - 1)
    omega
  · exact fun i lt u minus => Nat.le_findGreatest (by omega) ⟨u, minus⟩

/-- After minus one, the squares are one. -/
theorem pow_eq_one_of_lt {r i t : ℕ} {u : Rˣ} (minus : u ^ (2 ^ i * r) = -1) (lt : i < t) :
    u ^ (2 ^ t * r) = 1 := by
  obtain ⟨d, rfl⟩ := Nat.exists_eq_add_of_lt lt
  calc u ^ (2 ^ (i + d + 1) * r) = (u ^ (2 ^ i * r)) ^ (2 * 2 ^ d) := by
        rw [← pow_mul]
        ring_nf
    _ = 1 := by rw [minus, pow_mul, neg_one_sq, one_pow]

theorem pow_eq_one_of_odd {r t : ℕ} {u : Rˣ} (one : u ^ r = 1) : u ^ (2 ^ t * r) = 1 := by
  rw [mul_comm, pow_mul, one, one_pow]

/-- What passes, passes the test of Fermat. -/
theorem Passes.pow_eq_one {s r : ℕ} {u : Rˣ} (passes : Passes s r u) : u ^ (2 ^ s * r) = 1 := by
  rcases passes with one | ⟨i, lt, minus⟩
  · exact pow_eq_one_of_odd one
  · exact pow_eq_one_of_lt minus lt

/-- What passes is among the signs of that exponent. -/
theorem Passes.mem_signs {s r t : ℕ} {u : Rˣ} (passes : Passes s r u)
    (last : ∀ i < s, ∀ u : Rˣ, u ^ (2 ^ i * r) = -1 → i ≤ t) : u ∈ signs R (2 ^ t * r) := by
  rcases passes with one | ⟨i, lt, minus⟩
  · exact .inl (pow_eq_one_of_odd one)
  · rcases (last i lt u minus).eq_or_lt with rfl | lt
    · exact .inr minus
    · exact .inl (pow_eq_one_of_lt minus lt)

/-- **Two factors** in which one and minus one differ: not every unit is among the signs. -/
theorem exists_subgroup_of_prod {A B : Type} [CommRing A] [CommRing B] (split : R ≃+* A × B)
    (differ : (-1 : A) ≠ 1) (differ' : (-1 : B) ≠ 1) {s r : ℕ} (odd : Odd r) (pos : 0 < s) :
    ∃ H : Subgroup Rˣ, H ≠ ⊤ ∧ ∀ u, Passes s r u → u ∈ H := by
  obtain ⟨t, -, ⟨u, minus⟩, last⟩ := exists_last (R := R) s r odd pos
  refine ⟨signs R (2 ^ t * r), fun all => ?_, fun u passes => passes.mem_signs last⟩
  -- minus one in the first factor, one in the second
  let units : Rˣ ≃* Aˣ × Bˣ := (Units.mapEquiv split.toMulEquiv).trans MulEquiv.prodUnits
  have units_neg : units (-1) = (-1, -1) := by
    have image : split (-1) = -1 := by rw [map_neg, map_one]
    exact Prod.ext (Units.ext (congrArg Prod.fst image)) (Units.ext (congrArg Prod.snd image))
  set N := 2 ^ t * r
  have first : (units u).1 ^ N = -1 := by
    rw [← Prod.pow_fst, ← map_pow, minus, units_neg]
  have power : units (units.symm ((units u).1, 1) ^ N) = (-1, 1) := by
    rw [map_pow, MulEquiv.apply_symm_apply, Prod.pow_mk, first, one_pow]
  have mem : units.symm ((units u).1, 1) ∈ signs R N := all ▸ Subgroup.mem_top _
  rcases mem with one | minus
  · rw [one, map_one] at power
    exact differ (congrArg Units.val (congrArg Prod.fst power)).symm
  · rw [minus, units_neg] at power
    exact differ' (congrArg Units.val (congrArg Prod.snd power))

end Signs

/-! ### Squares -/

theorem one_add_pow_of_sq_eq_zero {R : Type} [CommRing R] {q : R} (square : q * q = 0) (j : ℕ) :
    (1 + q) ^ j = 1 + j * q := by
  induction j with
  | zero => simp
  | succ j ih =>
      rw [pow_succ, ih]
      push_cast
      linear_combination (j : R) * square

/-- **A square in `n`**: some unit fails even the test of Fermat. -/
theorem exists_pow_ne_one {n p : ℕ} (pos : 0 < n) (one_lt : 1 < p) (square : p * p ∣ n) :
    ∃ u : (ZMod n)ˣ, u ^ (n - 1) ≠ 1 := by
  obtain ⟨k, rfl⟩ := square
  have zero : ((p * k : ℕ) : ZMod (p * p * k)) * (p * k : ℕ) = 0 := by
    rw [← Nat.cast_mul, ZMod.natCast_eq_zero_iff]
    exact ⟨k, by ring⟩
  set q := ((p * k : ℕ) : ZMod (p * p * k)) with hq
  refine ⟨⟨1 + q, 1 - q, by linear_combination -zero, by linear_combination -zero⟩, fun one => ?_⟩
  have power : (1 + q) ^ (p * p * k - 1) = 1 := congrArg Units.val one
  have minus : ((p * p * k - 1 : ℕ) : ZMod (p * p * k)) = -1 := by
    rw [Nat.cast_sub pos, ZMod.natCast_self]
    simp
  rw [one_add_pow_of_sq_eq_zero zero, minus] at power
  have divides : p * p * k ∣ p * k := by
    rw [← ZMod.natCast_eq_zero_iff, ← hq]
    linear_combination -power
  have smaller : 0 < p * k := Nat.mul_pos (by omega) (Nat.pos_of_mul_pos_left pos)
  have le : p * (p * k) ≤ p * k := by
    rw [← mul_assoc]
    exact Nat.le_of_dvd smaller divides
  have := Nat.mul_le_mul_right (p * k) one_lt
  omega

/-! ### The bases of a composite number -/

section Composite

variable {n s r : ℕ}

/-- **What passes lies in a proper subgroup.** -/
theorem exists_subgroup (one_lt : 1 < n) (odd_n : Odd n) (composite : ¬ n.Prime) (odd : Odd r)
    (split : n - 1 = 2 ^ s * r) :
    ∃ H : Subgroup (ZMod n)ˣ, H ≠ ⊤ ∧ ∀ u, Passes s r u → u ∈ H := by
  have even : ¬ Odd (n - 1) := by
    rw [Nat.not_odd_iff_even]
    exact Nat.Odd.sub_odd odd_n odd_one
  have pos : 0 < s := by
    by_contra none
    obtain rfl : s = 0 := by omega
    exact even (by simpa [split] using odd)
  obtain ⟨p, prime, k, rfl⟩ := Nat.exists_prime_and_dvd (show n ≠ 1 by omega)
  obtain ⟨odd_p, odd_k⟩ := Nat.odd_mul.mp odd_n
  by_cases square : p ∣ k
  · obtain ⟨u, ne_one⟩ :=
      exists_pow_ne_one (by omega) prime.one_lt (Nat.mul_dvd_mul_left p square)
    refine ⟨(powMonoidHom (p * k - 1)).ker, fun all => ?_, fun u passes => ?_⟩
    · exact ne_one (all ▸ Subgroup.mem_top u : u ∈ (powMonoidHom (p * k - 1)).ker)
    · rw [MonoidHom.mem_ker, powMonoidHom_apply, split]
      exact passes.pow_eq_one
  · have coprime : Nat.Coprime p k := prime.coprime_iff_not_dvd.mpr square
    have two_lt_p : Fact (2 < p) := ⟨by
      have := prime.two_le
      obtain ⟨m, rfl⟩ := odd_p
      omega⟩
    have two_lt_k : Fact (2 < k) := ⟨by
      have ne_one : k ≠ 1 := by
        rintro rfl
        exact composite (by simpa using prime)
      obtain ⟨m, rfl⟩ := odd_k
      omega⟩
    exact exists_subgroup_of_prod (ZMod.chineseRemainder coprime) ZMod.neg_one_ne_one
      ZMod.neg_one_ne_one odd pos

/-- A base that is no witness is a unit that passes. -/
theorem exists_passes (odd : Odd r) (split : n - 1 = 2 ^ s * r) (one_le : 1 ≤ n) {a : ℤ}
    (passed : ¬ IsWitness n a) : ∃ u : (ZMod n)ˣ, (u : ZMod n) = a ∧ Passes s r u := by
  have split' : (n : ℤ) - 1 = 2 ^ s * r := by
    rw [← Nat.cast_one, ← Nat.cast_sub one_le, split]
    push_cast
    rfl
  rw [isWitness_iff odd split', not_and_or, not_not] at passed
  push Not at passed
  simp only [← ZMod.intCast_eq_intCast_iff, Int.cast_pow, Int.cast_one, Int.cast_neg] at passed
  have positive : r ≠ 0 := odd.pos.ne'
  rcases passed with one | ⟨i, lt, minus⟩
  · obtain ⟨u, eq⟩ := IsUnit.of_pow_eq_one one positive
    exact ⟨u, eq, .inl (Units.ext (by rw [Units.val_pow_eq_pow_val, eq, one, Units.val_one]))⟩
  · have unit : IsUnit ((a : ZMod n) ^ (2 ^ i * r)) := minus ▸ isUnit_one.neg
    obtain ⟨u, eq⟩ := (isUnit_pow_iff (by positivity)).mp unit
    refine ⟨u, eq, .inr ⟨i, lt, Units.ext ?_⟩⟩
    rw [Units.val_pow_eq_pow_val, eq, minus, Units.val_neg, Units.val_one]

open Classical in
/-- **No more than half of the bases pass**, of an odd composite number. -/
theorem two_mul_card_not_isWitness (one_lt : 1 < n) (odd_n : Odd n) (composite : ¬ n.Prime) :
    2 * ((Finset.Ico (1 : ℤ) n).filter fun a => ¬ IsWitness n a).card ≤ n - 1 := by
  obtain ⟨s, r, odd, split⟩ := Nat.exists_eq_two_pow_mul_odd (show n - 1 ≠ 0 by omega)
  have : NeZero n := ⟨by omega⟩
  obtain ⟨H, proper, inside⟩ := exists_subgroup one_lt odd_n composite odd split
  have half : 2 * Nat.card H ≤ n - 1 := by
    have index := H.one_lt_index_of_ne_top proper
    have count : Nat.card H * H.index = n.totient := by
      rw [H.card_mul_index, Nat.card_eq_fintype_card, ZMod.card_units_eq_totient]
    have smaller := Nat.totient_lt n one_lt
    have twice := Nat.mul_le_mul_left (Nat.card H) index
    omega
  have image : ((Finset.Ico (1 : ℤ) n).filter fun a => ¬ IsWitness n a).card ≤ Nat.card H := by
    have members : Nat.card H = ((Finset.univ : Finset (ZMod n)ˣ).filter (· ∈ H)).card := by
      rw [Nat.card_eq_fintype_card, Fintype.card_subtype]
    rw [members]
    refine Finset.card_le_card_of_surjOn (fun u => ((u : ZMod n).val : ℤ)) ?_
    intro a mem
    simp only [Finset.coe_filter, Finset.mem_Ico, Set.mem_ofPred_eq] at mem
    obtain ⟨u, eq, passes⟩ := exists_passes odd split one_lt.le mem.2
    refine ⟨u, by simpa using inside u passes, ?_⟩
    dsimp only
    rw [eq, ZMod.val_intCast, Int.emod_eq_of_lt (by omega) mem.1.2]
  omega

theorem not_isWitness_one (n : ℤ) : ¬ IsWitness n 1 := by
  rintro ⟨s, r, -, -, first, -⟩
  exact first (by rw [one_pow])

open Classical in
/-- The same for the bases between one and minus one. -/
theorem two_mul_card_inner (one_lt : 1 < n) (odd_n : Odd n) (composite : ¬ n.Prime) :
    2 * ((Finset.Ico (2 : ℤ) (n - 1)).filter fun a => ¬ IsWitness n a).card ≤
      (Finset.Ico (2 : ℤ) (n - 1)).card := by
  have two_lt : 2 < n := by
    obtain ⟨m, rfl⟩ := odd_n
    omega
  have outside : 1 ∉ (Finset.Ico (2 : ℤ) (n - 1)).filter fun a => ¬ IsWitness n a := by simp
  have more : insert 1 ((Finset.Ico (2 : ℤ) (n - 1)).filter fun a => ¬ IsWitness n a) ⊆
      (Finset.Ico (1 : ℤ) n).filter fun a => ¬ IsWitness n a := by
    intro a mem
    simp only [Finset.mem_insert, Finset.mem_filter, Finset.mem_Ico] at mem ⊢
    rcases mem with rfl | ⟨⟨low, high⟩, passed⟩
    · exact ⟨⟨le_rfl, by omega⟩, not_isWitness_one n⟩
    · exact ⟨⟨by omega, by omega⟩, passed⟩
  have smaller := Finset.card_le_card more
  have half := two_mul_card_not_isWitness one_lt odd_n composite
  rw [Finset.card_insert_of_notMem outside] at smaller
  rw [Int.card_Ico]
  omega

end Composite

end Prism.Lib
