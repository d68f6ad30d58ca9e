import Mathlib.Algebra.Polynomial.BigOperators
import Mathlib.Algebra.Polynomial.Eval.Degree
import Mathlib.Algebra.Order.BigOperators.Group.Finset
import Mathlib.Data.Fintype.BigOperators
import Mathlib.Tactic.LinearCombination

/-!
What a coalition learns from a polynomial sharing, by counting coefficient vectors.

A secret `s` is hidden behind `mask c`, a polynomial without constant term whose
coefficients are `c`. A coalition `S` is shown the values `s + mask c (x i)` at its
points. `matching C x S s v` are the vectors of `C` that show it the view `v`.

* `card_matching_univ`: over **all** coefficient vectors the number that match a view
  does not depend on the secret, when there are at least as many coefficients as
  members.
* `card_matching_iff`: over a part of the vectors it is as independent of the secret
  as over the vectors left out.
* `card_dvd_of_uniform`: when it is independent of the secret for every view of some
  coalition that is not empty, the number of vectors is a multiple of the size of the
  field;
* `card_mask_eq_iff`: for one member, and vectors that are closed under scaling, two
  values are equally frequent exactly when both or neither are zero.
-/

namespace Prism.Lib.Hiding

open Polynomial

variable {F ι : Type*} [Field F] {m : ℕ}

/-- The polynomial without constant term that hides the secret, at `a`. -/
def mask (c : Fin m → F) (a : F) : F := ∑ j, c j * a ^ (j.val + 1)

theorem mask_add (c d : Fin m → F) (a : F) : mask (c + d) a = mask c a + mask d a := by
  simp [mask, add_mul, Finset.sum_add_distrib]

theorem mask_smul (k : F) (c : Fin m → F) (a : F) : mask (k • c) a = k * mask c a := by
  simp [mask, Finset.mul_sum, mul_assoc]

/-- The coefficients of a polynomial of degree at most `m` that vanishes at zero. -/
theorem mask_coeff {Q : F[X]} (deg : Q.natDegree ≤ m) (zero : Q.coeff 0 = 0) (a : F) :
    mask (fun j : Fin m => Q.coeff (j.val + 1)) a = Q.eval a := by
  rw [eval_eq_sum_range' (Nat.lt_succ_of_le deg), Finset.sum_range_succ', zero, zero_mul,
    add_zero, Finset.sum_range]
  rfl

/-- Some mask is `δ` at every point of a coalition that is no larger than the number of
coefficients: `δ` minus a multiple of the polynomial that vanishes at the points. -/
theorem exists_mask {x : ι → F} {S : Finset ι} (nonzero : ∀ i ∈ S, x i ≠ 0) (small : S.card ≤ m)
    (δ : F) : ∃ d : Fin m → F, ∀ i ∈ S, mask d (x i) = δ := by
  set Q : F[X] := C δ * (1 - ∏ i ∈ S, (1 - C (x i)⁻¹ * X)) with hQ
  have factor : ∀ i ∈ S, (1 - C (x i)⁻¹ * X : F[X]).natDegree ≤ 1 := by
    intro i _
    apply (natDegree_sub_le _ _).trans
    simpa using (natDegree_C_mul_le (x i)⁻¹ X).trans natDegree_X_le
  have product : (∏ i ∈ S, (1 - C (x i)⁻¹ * X : F[X])).natDegree ≤ m := by
    apply (natDegree_prod_le _ _).trans
    apply (Finset.sum_le_sum factor).trans
    simpa using small
  have deg : Q.natDegree ≤ m := by
    apply (natDegree_C_mul_le _ _).trans
    apply (natDegree_sub_le _ _).trans
    simpa using product
  have zero : Q.coeff 0 = 0 := by
    rw [coeff_zero_eq_eval_zero]
    simp [hQ, eval_prod]
  refine ⟨fun j => Q.coeff (j.val + 1), fun i hi => ?_⟩
  have vanishes : ∏ k ∈ S, (1 - (x k)⁻¹ * x i) = 0 := by
    apply Finset.prod_eq_zero hi
    rw [inv_mul_cancel₀ (nonzero i hi), sub_self]
  rw [mask_coeff deg zero]
  simp [hQ, eval_prod, vanishes]

section Counting

variable [DecidableEq F]

/-- The vectors of `C` with which the secret `s` shows the coalition the view `v`. -/
def matching (C : Finset (Fin m → F)) (x : ι → F) (S : Finset ι) (s : F) (v : ι → F) :
    Finset (Fin m → F) :=
  C.filter fun c => ∀ i ∈ S, s + mask c (x i) = v i

variable {C : Finset (Fin m → F)} {x : ι → F} {S : Finset ι}

theorem mem_matching {s : F} {v : ι → F} {c : Fin m → F} :
    c ∈ matching C x S s v ↔ c ∈ C ∧ ∀ i ∈ S, s + mask c (x i) = v i :=
  Finset.mem_filter

/-- **Perfect hiding**: over all coefficient vectors, a view of at most as many members
as there are coefficients is matched equally often for every secret. -/
theorem card_matching_univ [Fintype F] (nonzero : ∀ i ∈ S, x i ≠ 0) (small : S.card ≤ m)
    (s s' : F) (v : ι → F) :
    (matching (Finset.univ : Finset (Fin m → F)) x S s v).card =
      (matching (Finset.univ : Finset (Fin m → F)) x S s' v).card := by
  obtain ⟨d, hd⟩ := exists_mask nonzero small (s - s')
  -- adding a mask of the difference takes the vectors for `s` to those for `s'`
  apply Finset.card_bij (fun c _ => c + d)
  · intro c hc
    rw [mem_matching] at hc ⊢
    refine ⟨Finset.mem_univ _, fun i hi => ?_⟩
    rw [mask_add, hd i hi]
    linear_combination hc.2 i hi
  · intro c _ c' _ eq
    exact add_right_cancel eq
  · intro c hc
    refine ⟨c - d, ?_, sub_add_cancel c d⟩
    rw [mem_matching] at hc ⊢
    refine ⟨Finset.mem_univ _, fun i hi => ?_⟩
    have sum := mask_add (c - d) d (x i)
    rw [sub_add_cancel, hd i hi] at sum
    linear_combination hc.2 i hi - sum

/-- A part of the vectors tells two secrets apart exactly when the rest does. -/
theorem card_matching_iff [Fintype F] (nonzero : ∀ i ∈ S, x i ≠ 0) (small : S.card ≤ m)
    (s s' : F) (v : ι → F) :
    (matching C x S s v).card = (matching C x S s' v).card ↔
      (matching Cᶜ x S s v).card = (matching Cᶜ x S s' v).card := by
  have split : ∀ r, (matching C x S r v).card + (matching Cᶜ x S r v).card =
      (matching (Finset.univ : Finset (Fin m → F)) x S r v).card := by
    intro r
    rw [matching, matching, matching, ← Finset.card_union_of_disjoint, ← Finset.filter_union,
      Finset.union_compl]
    exact Finset.disjoint_filter_filter disjoint_compl_right
  have all := card_matching_univ nonzero small s s' v
  have atS := split s
  have atS' := split s'
  omega

/-- A view given on the coalition only. -/
def extend [DecidableEq ι] (u : S → F) (k : ι) : F := if h : k ∈ S then u ⟨k, h⟩ else 0

theorem mem_matching_extend [DecidableEq ι] {s : F} {u : S → F} {c : Fin m → F} :
    c ∈ matching C x S s (extend u) ↔ c ∈ C ∧ ∀ k : S, s + mask c (x k) = u k := by
  rw [mem_matching]
  refine and_congr_right fun _ => ⟨fun all k => ?_, fun all k hk => ?_⟩
  · rw [all k.1 k.2, extend, dif_pos k.2]
  · rw [all ⟨k, hk⟩, extend, dif_pos hk]

/-- The vectors with value `w` at member `i`, counted by what they show the whole
coalition. -/
theorem card_member [Fintype F] [DecidableEq ι] (i : S) (w : F) :
    (C.filter fun c => mask c (x i) = w).card =
      ∑ u : S → F, if u i = w then (matching C x S 0 (extend u)).card else 0 := by
  rw [Finset.card_eq_sum_card_fiberwise (f := fun c (k : S) => mask c (x k))
    (fun _ _ => Finset.mem_coe.mpr (Finset.mem_univ _))]
  refine Finset.sum_congr rfl fun u _ => ?_
  split
  next atI =>
    congr 1
    ext c
    simp only [Finset.mem_filter, mem_matching_extend, zero_add, funext_iff]
    constructor
    · rintro ⟨⟨mem, _⟩, eq⟩
      exact ⟨mem, eq⟩
    · rintro ⟨mem, eq⟩
      exact ⟨⟨mem, (eq i).trans atI⟩, eq⟩
  next atI =>
    rw [Finset.card_eq_zero, Finset.filter_eq_empty_iff]
    intro c hc eq
    exact atI (by rw [← eq, ← (Finset.mem_filter.mp hc).2])

/-- When the views do not depend on the secret, every value at member `i` is as
frequent as zero: moving the view by `w` reaches it. -/
theorem card_member_even [Fintype F] [DecidableEq ι]
    (uniform : ∀ (s s' : F) (v : ι → F),
      (matching C x S s v).card = (matching C x S s' v).card) (i : S) (w : F) :
    (C.filter fun c => mask c (x i) = w).card = (C.filter fun c => mask c (x i) = 0).card := by
  rw [card_member i w, card_member i 0]
  apply Fintype.sum_equiv (Equiv.addRight fun _ => -w)
  intro u
  have moved : matching C x S w (extend u) = matching C x S 0 (extend (u + fun _ => -w)) := by
    ext c
    simp only [mem_matching_extend, Pi.add_apply]
    refine and_congr_right fun _ => forall_congr' fun k => ?_
    constructor
    · intro eq
      linear_combination eq
    · intro eq
      linear_combination eq
  rw [uniform 0 w, moved]
  simp only [Equiv.coe_addRight, Pi.add_apply, ← sub_eq_add_neg, sub_eq_zero]

/-- When all values are equally frequent at a point, the number of vectors is a multiple
of the size of the field. -/
theorem card_dvd_of_even [Fintype F] {a : F}
    (even : ∀ w : F, (C.filter fun c => mask c a = w).card =
      (C.filter fun c => mask c a = 0).card) :
    Fintype.card F ∣ C.card := by
  rw [Finset.card_eq_sum_card_fiberwise (f := fun c => mask c a)
    (fun _ _ => Finset.mem_coe.mpr (Finset.mem_univ _)), Finset.sum_congr rfl fun w _ => even w,
    Finset.sum_const, smul_eq_mul, Finset.card_univ]
  exact dvd_mul_right _ _

/-- **A set of vectors that hides every secret fills the field evenly**: its size is a
multiple of that of the field. -/
theorem card_dvd_of_uniform [Fintype F] (someone : S.Nonempty)
    (uniform : ∀ (s s' : F) (v : ι → F),
      (matching C x S s v).card = (matching C x S s' v).card) :
    Fintype.card F ∣ C.card := by
  classical
  obtain ⟨i, hi⟩ := someone
  exact card_dvd_of_even (card_member_even uniform ⟨i, hi⟩)

/-- In a set of vectors that is closed under scaling, all values but zero are equally
frequent at a point. -/
theorem card_mask_smul (scaled : ∀ k : F, k ≠ 0 → ∀ c ∈ C, k • c ∈ C) (a : F) {w w' : F}
    (nonzero : w ≠ 0) (nonzero' : w' ≠ 0) :
    (C.filter fun c => mask c a = w).card = (C.filter fun c => mask c a = w').card := by
  have scale : ∀ {w w' : F}, w ≠ 0 → w' ≠ 0 →
      (C.filter fun c => mask c a = w).card ≤ (C.filter fun c => mask c a = w').card := by
    intro w w' hw hw'
    have unit : w' * w⁻¹ ≠ 0 := mul_ne_zero hw' (inv_ne_zero hw)
    apply Finset.card_le_card_of_injOn fun c => (w' * w⁻¹) • c
    · intro c hc
      have hc := Finset.mem_filter.mp hc
      refine Finset.mem_coe.mpr (Finset.mem_filter.mpr ⟨scaled _ unit c hc.1, ?_⟩)
      rw [mask_smul, hc.2, mul_assoc, inv_mul_cancel₀ hw, mul_one]
    · intro c _ d _ eq
      exact smul_right_injective _ unit eq
  exact le_antisymm (scale nonzero nonzero') (scale nonzero' nonzero)

/-- When such a set does not fill the field evenly, two values are equally frequent
exactly when both or neither are zero. -/
theorem card_mask_eq_iff [Fintype F] (scaled : ∀ k : F, k ≠ 0 → ∀ c ∈ C, k • c ∈ C)
    (uneven : ¬ Fintype.card F ∣ C.card) (a w w' : F) :
    (C.filter fun c => mask c a = w).card = (C.filter fun c => mask c a = w').card ↔
      (w = 0 ↔ w' = 0) := by
  -- a nonzero value as frequent as zero would make all values equally frequent
  have apart : ∀ r : F, r ≠ 0 →
      (C.filter fun c => mask c a = 0).card ≠ (C.filter fun c => mask c a = r).card := by
    intro r hr eq
    apply uneven
    apply card_dvd_of_even (a := a)
    intro u
    rcases eq_or_ne u 0 with rfl | hu
    · rfl
    · rw [eq, card_mask_smul scaled a hu hr]
  rcases eq_or_ne w 0 with rfl | hw <;> rcases eq_or_ne w' 0 with rfl | hw'
  · simp
  · simp [apart w' hw', hw']
  · simp [(apart w hw).symm, hw]
  · simp [card_mask_smul scaled a hw hw', hw, hw']

end Counting

end Prism.Lib.Hiding
