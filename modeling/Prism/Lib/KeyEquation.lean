import Mathlib.LinearAlgebra.Lagrange
import Mathlib.Tactic.LinearCombination

/-!
The key equation of unique decoding.

`N` places `a i` carry values `b i`, most of which are the values of a polynomial `P`. A pair of
polynomials solves the key equation if `b i * E (a i) = Q (a i)` at all places; then `Q = P * E`
provided that there are enough places (`KeyEquation.quotient`), and `E` is zero wherever the value
is not the one of `P` (`KeyEquation.close`).

`d` is the number of coefficients of `Q`, and `e` the degree of `E`. The last section is about
systems whose columns are not independent.
-/

namespace Prism.Lib

open Polynomial Finset

variable {K : Type*} [Field K] {N d e : ℕ} {a b : ℕ → K} {E Q P : K[X]}

/-- The key equation. -/
def KeyEquation (N : ℕ) (a b : ℕ → K) (E Q : K[X]) : Prop :=
  ∀ i < N, b i * E.eval (a i) = Q.eval (a i)

/-- The places whose value is not the one of `P`. -/
def wrongPlaces [DecidableEq K] (N : ℕ) (a b : ℕ → K) (P : K[X]) : Finset ℕ :=
  (range N).filter fun i => P.eval (a i) ≠ b i

/-- There is room for the product of `P` with a polynomial of degree `e`. -/
def Fits (d e : ℕ) (P : K[X]) : Prop := P.degree + e < d

theorem fits_zero (d e : ℕ) : Fits d e (0 : K[X]) := by simp [Fits]

/-- No polynomial but zero fits nowhere. -/
theorem Fits.pos (fits : Fits d e P) (ne : P ≠ 0) : 0 < d := by
  unfold Fits at fits
  rw [degree_eq_natDegree ne] at fits
  have : P.natDegree + e < d := by exact_mod_cast fits
  omega

theorem degree_powers_sub {s t : ℕ} (lt : s < t) : (X ^ t - X ^ s : K[X]).degree = t := by
  rw [degree_sub_eq_left_of_degree_lt, degree_X_pow]
  rw [degree_X_pow, degree_X_pow]
  exact_mod_cast lt

section Decoding

variable (inj : Set.InjOn a (range N)) (room : 0 < d → d + e ≤ N)

include inj

/-- A polynomial with more zeros than its degree. -/
theorem eq_zero_of_places {F : K[X]} {s : Finset ℕ} (places : s ⊆ range N) (degree : F.degree < s.card)
    (zero : ∀ i ∈ s, F.eval (a i) = 0) : F = 0 :=
  eq_zero_of_degree_lt_of_eval_index_eq_zero s
    (inj.mono (coe_subset.mpr places)) degree zero

/-- **Few places are wrong** for the quotient. -/
theorem KeyEquation.close [DecidableEq K] (key : KeyEquation N a b E (P * E)) (ne : E ≠ 0)
    (degE : E.degree ≤ e) : (wrongPlaces N a b P).card ≤ e := by
  by_contra more
  refine ne (eq_zero_of_places (s := wrongPlaces N a b P) inj (filter_subset _ _)
    (degE.trans_lt ?_) fun i mem => ?_)
  · exact_mod_cast not_le.mp more
  · obtain ⟨inside, wrong⟩ := mem_filter.mp mem
    have at_ := key i (mem_range.mp inside)
    rw [eval_mul] at at_
    by_contra nonzero
    exact wrong (mul_right_cancel₀ nonzero at_).symm

include room

/-- **The quotient**: all solutions of the key equation have the same one. -/
theorem KeyEquation.quotient [DecidableEq K] (key : KeyEquation N a b E Q) (degE : E.degree ≤ e)
    (degQ : Q.degree < d) (fits : Fits d e P) (close : (wrongPlaces N a b P).card ≤ e) :
    Q = P * E := by
  have product : (P * E).degree < d := by
    refine (degree_mul_le P E).trans_lt ?_
    exact (add_le_add_right degE _).trans_lt fits
  have small : (Q - P * E).degree < d := (degree_sub_le _ _).trans_lt (max_lt degQ product)
  by_cases pos : 0 < d
  · have enough := room pos
    have split := card_filter_add_card_filter_not (s := range N) fun i => P.eval (a i) = b i
    rw [card_range] at split
    change _ + (wrongPlaces N a b P).card = N at split
    have many : d ≤ ((range N).filter fun i => P.eval (a i) = b i).card := by
      omega
    refine sub_eq_zero.mp (eq_zero_of_places inj (filter_subset
      (fun i => P.eval (a i) = b i) _) (small.trans_le ?_) fun i mem => ?_)
    · exact_mod_cast many
    · obtain ⟨inside, right⟩ := mem_filter.mp mem
      rw [eval_sub, eval_mul, ← key i (mem_range.mp inside), right, sub_self]
  · obtain rfl : d = 0 := by omega
    have zero : ∀ F : K[X], F.degree < (0 : ℕ) → F = 0 := fun F lt => by
      rwa [Nat.cast_zero, ← not_le, zero_le_degree_iff, not_not] at lt
    rw [zero Q degQ, zero _ product]

/-- If the equation says nothing about `Q` for some other `E`, then `Q` is zero. -/
theorem KeyEquation.vanishes (key : KeyEquation N a b E Q) (degE : E.degree ≤ e)
    (degQ : Q.degree < d) {F : K[X]} (key' : KeyEquation N a b F 0) (ne : F ≠ 0)
    (degF : F.degree ≤ e) : Q = 0 := by
  classical
  have close := KeyEquation.close (P := 0) inj (by rwa [zero_mul]) ne degF
  rw [key.quotient inj room degE degQ (fits_zero d e) close, zero_mul]

/-! ### Columns that are equal -/

/-- A column of `E` that is equal to one of `Q`: the coefficients cancel. -/
theorem KeyEquation.cross (key : KeyEquation N a b E Q) (degE : E.degree ≤ e) (degQ : Q.degree < d)
    {t c : ℕ} (ht : t ≤ e) (hc : c < d) (columns : ∀ i < N, b i * a i ^ t = - a i ^ c) :
    Q.coeff c = - E.coeff t := by
  have enough := room (by omega)
  have degrees : (X ^ t * Q + X ^ c * E).degree < ((range N).card : WithBot ℕ) := by
    rw [card_range]
    refine (degree_add_le _ _).trans_lt (max_lt ?_ ?_)
    · calc (X ^ t * Q).degree = t + Q.degree := by rw [degree_mul, degree_X_pow]
        _ < t + d := WithBot.add_lt_add_left (WithBot.natCast_ne_bot t) degQ
        _ ≤ N := by exact_mod_cast show t + d ≤ N by omega
    · calc (X ^ c * E).degree = c + E.degree := by rw [degree_mul, degree_X_pow]
        _ ≤ c + e := add_le_add_right degE _
        _ < N := by exact_mod_cast show c + e < N by omega
  have zero : X ^ t * Q + X ^ c * E = 0 := by
    refine eq_zero_of_places inj (subset_refl _) degrees fun i mem => ?_
    have inside := mem_range.mp mem
    rw [eval_add, eval_mul, eval_mul, eval_pow, eval_pow, eval_X, ← key i inside]
    linear_combination E.eval (a i) * columns i inside
  have coefficient := congrArg (fun F => F.coeff (c + t)) zero
  simp only [coeff_add, coeff_zero] at coefficient
  rw [coeff_X_pow_mul, add_comm c t, coeff_X_pow_mul] at coefficient
  exact eq_neg_of_add_eq_zero_left coefficient

omit room in
/-- Two powers are different functions on the places, if their exponents are small. -/
theorem powers_differ {s t : ℕ} (lt : s < t) (enough : t < N) :
    ∃ i < N, a i ^ t ≠ a i ^ s := by
  by_contra same
  push Not at same
  have degree := degree_powers_sub (K := K) lt
  have zero := eq_zero_of_places inj (subset_refl _) (F := X ^ t - X ^ s)
    (by rw [degree, card_range]; exact_mod_cast enough) fun i mem => by
      rw [eval_sub, eval_pow, eval_pow, eval_X, same i (mem_range.mp mem), sub_self]
  rw [zero, degree_zero] at degree
  cases degree

/-- Two columns of `E` that are equal: `Q` is zero. -/
theorem KeyEquation.twins (key : KeyEquation N a b E Q) (degE : E.degree ≤ e) (degQ : Q.degree < d)
    {s t : ℕ} (lt : s < t) (le : t ≤ e) (columns : ∀ i < N, b i * a i ^ t = b i * a i ^ s) :
    Q = 0 := by
  have degree := degree_powers_sub (K := K) lt
  refine key.vanishes inj room degE degQ (F := X ^ t - X ^ s) (fun i hi => ?_) (fun zero => ?_) ?_
  · rw [eval_sub, eval_pow, eval_pow, eval_X, mul_sub, columns i hi, sub_self, eval_zero]
  · rw [zero, degree_zero] at degree
    cases degree
  · rw [degree]
    exact_mod_cast le

end Decoding

/-- **A solution**, if few places are wrong: `E` is zero there. -/
theorem exists_keyEquation [DecidableEq K] (fits : Fits d e P)
    (close : (wrongPlaces N a b P).card ≤ e) :
    ∃ E : K[X], E.Monic ∧ E.natDegree = e ∧ (P * E).degree < d ∧ KeyEquation N a b E (P * E) := by
  let F : K[X] := ∏ i ∈ wrongPlaces N a b P, (X - C (a i))
  have monic : F.Monic := monic_prod_of_monic _ _ fun i _ => monic_X_sub_C (a i)
  have degree : F.natDegree = (wrongPlaces N a b P).card := natDegree_finsetProd_X_sub_C_eq_card _ _
  have monic' : (X ^ (e - (wrongPlaces N a b P).card) * F).Monic := (monic_X_pow _).mul monic
  have degree' : (X ^ (e - (wrongPlaces N a b P).card) * F).natDegree = e := by
    rw [(monic_X_pow _).natDegree_mul monic, natDegree_X_pow, degree]
    omega
  refine ⟨_, monic', degree', ?_, fun i hi => ?_⟩
  · rw [degree_mul, degree_eq_natDegree monic'.ne_zero, degree']
    exact fits
  · by_cases wrong : i ∈ wrongPlaces N a b P
    · have zero : F.eval (a i) = 0 := by
        rw [eval_prod]
        exact prod_eq_zero wrong (by simp)
      simp [zero]
    · have right : P.eval (a i) = b i := by
        by_contra ne
        exact wrong (mem_filter.mpr ⟨mem_range.mpr hi, ne⟩)
      rw [eval_mul (p := P), right]

end Prism.Lib
