import Mathlib.Algebra.Polynomial.Degree.Operations
import Mathlib.Algebra.Polynomial.Eval.Defs
import Mathlib.Data.List.GetD
import Mathlib.Data.List.DropRight
import Mathlib.Tactic.Ring

/-!
Polynomials as lists of coefficients, lowest degree first.

`ofCoeffs` is the polynomial of a list. The rules say what operations on the lists do to it: an
entry that grows, two lists added entry by entry, Horner's scheme. A list that does not end in a
zero is determined by its polynomial (`ofCoeffs_inj`), and its length by the degree
(`degree_ofCoeffs`).
-/

namespace Prism.Lib

open Polynomial

variable {R : Type*} [Semiring R]

/-- The polynomial with the coefficients of a list. -/
noncomputable def ofCoeffs : List R → R[X]
  | [] => 0
  | c :: cs => C c + X * ofCoeffs cs

@[simp] theorem ofCoeffs_nil : ofCoeffs ([] : List R) = 0 := rfl

theorem ofCoeffs_cons (c : R) (cs : List R) : ofCoeffs (c :: cs) = C c + X * ofCoeffs cs := rfl

theorem coeff_ofCoeffs (cs : List R) (i : ℕ) : (ofCoeffs cs).coeff i = cs.getD i 0 := by
  induction cs generalizing i with
  | nil => simp
  | cons c cs ih =>
      cases i with
      | zero => simp [ofCoeffs_cons]
      | succ i => simp [ofCoeffs_cons, ih, coeff_C_succ]

theorem degree_ofCoeffs_lt (cs : List R) : (ofCoeffs cs).degree < cs.length := by
  rw [degree_lt_iff_coeff_zero]
  intro i le
  rw [coeff_ofCoeffs, List.getD_eq_default _ _ le]

/-- Zeros at the end do not count. -/
theorem ofCoeffs_append_zero (cs : List R) : ofCoeffs (cs ++ [0]) = ofCoeffs cs := by
  ext i
  rw [coeff_ofCoeffs, coeff_ofCoeffs]
  rcases lt_trichotomy i cs.length with inside | rfl | outside
  · rw [List.getD_append _ _ _ _ inside]
  · simp
  · rw [List.getD_eq_default _ _ (by simpa using outside),
      List.getD_eq_default _ _ outside.le]

theorem ofCoeffs_replicate (n : ℕ) : ofCoeffs (List.replicate n (0 : R)) = 0 := by
  ext i
  rw [coeff_ofCoeffs, coeff_zero, List.getD_eq_getElem?_getD, List.getElem?_replicate]
  split_ifs <;> rfl

/-- A single coefficient of degree `n`. -/
theorem ofCoeffs_monomial (n : ℕ) (c : R) :
    ofCoeffs (List.replicate n 0 ++ [c]) = monomial n c := by
  ext i
  rw [coeff_ofCoeffs, coeff_monomial, List.getD_eq_getElem?_getD, List.getElem?_append,
    List.length_replicate]
  split_ifs with inside here here
  · omega
  · simp [inside]
  · simp [here]
  · rw [List.getElem?_singleton, if_neg (by omega)]
    rfl

/-- An entry that grows. -/
theorem ofCoeffs_modify {cs : List R} {i : ℕ} (lt : i < cs.length) (c : R) :
    ofCoeffs (cs.modify i (· + c)) = ofCoeffs cs + monomial i c := by
  ext k
  rw [coeff_add, coeff_ofCoeffs, coeff_ofCoeffs, coeff_monomial, List.getD_eq_getElem?_getD,
    List.getD_eq_getElem?_getD, List.getElem?_modify]
  split_ifs with here
  · subst here
    simp [lt]
  · simp

/-- Horner's scheme. -/
theorem eval_ofCoeffs {R : Type*} [CommSemiring R] (cs : List R) (x : R) :
    (ofCoeffs cs).eval x = cs.foldr (fun c result => result * x + c) 0 := by
  induction cs with
  | nil => simp
  | cons c cs ih =>
      rw [ofCoeffs_cons, eval_add, eval_C, eval_mul, eval_X, ih, List.foldr_cons]
      ring

/-- The coefficients at distinct places. -/
theorem ofCoeffs_eq_sum (cs : List R) :
    ofCoeffs cs = ∑ i ∈ Finset.range cs.length, monomial i (cs.getD i 0) := by
  ext k
  rw [coeff_ofCoeffs, finsetSum_coeff]
  simp only [coeff_monomial, Finset.sum_ite_eq', Finset.mem_range]
  split_ifs with inside
  · rfl
  · exact List.getD_eq_default _ _ (not_lt.mp inside)

/-- The list of the first `n` values of a function. -/
theorem eval_ofCoeffs_range {R : Type*} [CommSemiring R] (u : ℕ → R) (n : ℕ) (x : R) :
    (ofCoeffs ((List.range n).map u)).eval x = ∑ i ∈ Finset.range n, u i * x ^ i := by
  rw [ofCoeffs_eq_sum, eval_finsetSum, List.length_map, List.length_range]
  refine Finset.sum_congr rfl fun i mem => ?_
  have inside := Finset.mem_range.mp mem
  rw [eval_monomial, List.getD_eq_getElem _ _ (by simpa using inside)]
  simp

theorem coeff_ofCoeffs_range (u : ℕ → R) {n i : ℕ} (lt : i < n) :
    (ofCoeffs ((List.range n).map u)).coeff i = u i := by
  rw [coeff_ofCoeffs, List.getD_eq_getElem _ _ (by simpa using lt)]
  simp

/-- The list of a polynomial's coefficients. -/
theorem ofCoeffs_coeff {F : R[X]} {n : ℕ} (degree : F.degree < n) :
    ofCoeffs ((List.range n).map F.coeff) = F := by
  ext i
  rcases lt_or_ge i n with inside | beyond
  · exact coeff_ofCoeffs_range F.coeff inside
  · rw [coeff_ofCoeffs, List.getD_eq_default _ _ (by simpa using beyond),
      coeff_eq_zero_of_degree_lt (degree.trans_le (by exact_mod_cast beyond))]

/-! ### Lists that do not end in a zero -/

section Stripped

variable {cs ds : List R}

/-- The zeros at the end are dropped. -/
theorem ofCoeffs_rdropWhile [DecidableEq R] (cs : List R) :
    ofCoeffs (cs.rdropWhile fun c => c = 0) = ofCoeffs cs := by
  induction cs using List.reverseRecOn with
  | nil => rfl
  | append_singleton cs c ih =>
      by_cases zero : c = 0
      · rw [List.rdropWhile_concat_pos _ _ _ (by simpa using zero), ih, zero, ofCoeffs_append_zero]
      · rw [List.rdropWhile_concat_neg _ _ _ (by simpa using zero)]

/-- The degree is one less than the length. -/
theorem degree_ofCoeffs (ne : cs ≠ []) (last : cs.getLast ne ≠ 0) :
    (ofCoeffs cs).degree = (cs.length - 1 : ℕ) := by
  have pos := List.length_pos_iff.mpr ne
  have top : (ofCoeffs cs).coeff (cs.length - 1) ≠ 0 := by
    rw [coeff_ofCoeffs, List.getD_eq_getElem _ _ (by omega)]
    rwa [List.getLast_eq_getElem] at last
  refine le_antisymm ?_ (le_degree_of_ne_zero top)
  rw [degree_le_iff_coeff_zero]
  intro i lt
  rw [coeff_ofCoeffs]
  refine List.getD_eq_default _ _ ?_
  have : cs.length - 1 < i := by exact_mod_cast lt
  omega

theorem leadingCoeff_ofCoeffs (ne : cs ≠ []) (last : cs.getLast ne ≠ 0) :
    (ofCoeffs cs).leadingCoeff = cs.getLast ne := by
  have pos := List.length_pos_iff.mpr ne
  rw [leadingCoeff, natDegree_eq_of_degree_eq_some (degree_ofCoeffs ne last), coeff_ofCoeffs,
    List.getD_eq_getElem _ _ (by omega), List.getLast_eq_getElem]

/-- A stripped list has a length of at most `n` just if its degree is below `n`. -/
theorem length_le_iff (last : ∀ ne : cs ≠ [], cs.getLast ne ≠ 0) (n : ℕ) :
    cs.length ≤ n ↔ (ofCoeffs cs).degree < n := by
  constructor
  · exact fun le => (degree_ofCoeffs_lt cs).trans_le (by exact_mod_cast le)
  · intro lt
    by_cases ne : cs = []
    · simp [ne]
    · rw [degree_ofCoeffs ne (last ne)] at lt
      have : cs.length - 1 < n := by exact_mod_cast lt
      omega

/-- **A stripped list is determined by its polynomial.** -/
theorem ofCoeffs_inj (last : ∀ ne : cs ≠ [], cs.getLast ne ≠ 0)
    (last' : ∀ ne : ds ≠ [], ds.getLast ne ≠ 0) : ofCoeffs cs = ofCoeffs ds ↔ cs = ds := by
  refine ⟨fun same => ?_, fun same => same ▸ rfl⟩
  have lengths : cs.length = ds.length := by
    refine le_antisymm ((length_le_iff last _).mpr ?_) ((length_le_iff last' _).mpr ?_)
    · exact same ▸ degree_ofCoeffs_lt ds
    · exact same ▸ degree_ofCoeffs_lt cs
  refine List.ext_getElem lengths fun i hi hi' => ?_
  have at_ := congrArg (fun f => f.coeff i) same
  simp only [coeff_ofCoeffs] at at_
  rwa [List.getD_eq_getElem _ _ hi, List.getD_eq_getElem _ _ hi'] at at_

end Stripped

end Prism.Lib
