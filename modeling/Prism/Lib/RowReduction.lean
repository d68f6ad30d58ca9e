import Mathlib.Algebra.BigOperators.Intervals
import Mathlib.Algebra.BigOperators.Ring.Finset
import Mathlib.Algebra.Field.Basic
import Mathlib.Tactic.Ring

/-!
Reduction of a matrix over a field to reduced row echelon form, one pivot at a time.

A matrix is a function of row and column; only the first `m` rows and `n` columns count. What a
matrix says about vectors is which of them its rows annihilate (`Annihilates`), and row operations
keep that (`RowEquivalent`). `Echelon` is the invariant of the left-to-right elimination, and
`Echelon.skip` and `Echelon.pivot` are its two steps.

`Echelon.reading` is about the solution that is read off a reduced system by looking at one column
at a time. A column that repeats another one looks like a pivot as well; it is given the value of
the column that it repeats, and everywhere else the reading is a solution.
-/

namespace Prism.Lib

open Finset

variable {K : Type*} [Field K] {m n v i j s : ℕ} {A B C : ℕ → ℕ → K} {x : ℕ → K}

/-- The first `m` rows, of `n` entries each, are orthogonal to `x`. -/
def Annihilates (m n : ℕ) (A : ℕ → ℕ → K) (x : ℕ → K) : Prop :=
  ∀ r < m, ∑ c ∈ range n, A r c * x c = 0

/-- The rows of both matrices annihilate the same vectors. -/
def RowEquivalent (m n : ℕ) (A B : ℕ → ℕ → K) : Prop :=
  ∀ x, Annihilates m n A x ↔ Annihilates m n B x

theorem RowEquivalent.refl (m n : ℕ) (A : ℕ → ℕ → K) : RowEquivalent m n A A := fun _ => Iff.rfl

theorem RowEquivalent.trans (first : RowEquivalent m n A B) (second : RowEquivalent m n B C) :
    RowEquivalent m n A C := fun x => (first x).trans (second x)

/-! ### Row operations -/

/-- Two rows change places. -/
def swapRows (A : ℕ → ℕ → K) (i s : ℕ) : ℕ → ℕ → K := fun r => A (Equiv.swap i s r)

/-- Row `i` is divided by its entry in column `j`. -/
def normalizeRow (A : ℕ → ℕ → K) (i j : ℕ) : ℕ → ℕ → K := fun r c =>
  if r = i then A i c / A i j else A r c

/-- Multiples of row `i` are taken off the other rows, such that column `j` is zero there. -/
def clearColumn (A : ℕ → ℕ → K) (i j : ℕ) : ℕ → ℕ → K := fun r c =>
  if r = i then A i c else A r c - A r j * A i c

/-- One pivot of the elimination. -/
def pivotStep (A : ℕ → ℕ → K) (i s j : ℕ) : ℕ → ℕ → K :=
  clearColumn (normalizeRow (swapRows A i s) i j) i j

theorem swapRows_equivalent (hi : i < m) (hs : s < m) : RowEquivalent m n (swapRows A i s) A := by
  have inside : ∀ r < m, Equiv.swap i s r < m := by
    intro r lt
    rw [Equiv.swap_apply_def]
    split_ifs <;> assumption
  refine fun x => ⟨fun h r lt => ?_, fun h r lt => h _ (inside r lt)⟩
  have at_ := h (Equiv.swap i s r) (inside r lt)
  rwa [swapRows, Equiv.swap_apply_self] at at_

theorem normalizeRow_equivalent (hi : i < m) (ne : A i j ≠ 0) :
    RowEquivalent m n (normalizeRow A i j) A := by
  have scaled : ∀ x : ℕ → K, ∑ c ∈ range n, A i c / A i j * x c =
      (A i j)⁻¹ * ∑ c ∈ range n, A i c * x c := by
    intro x
    rw [mul_sum]
    exact sum_congr rfl fun c _ => by ring
  refine fun x => ⟨fun h r lt => ?_, fun h r lt => ?_⟩
  · by_cases here : r = i
    · subst here
      have at_ := h r lt
      simp only [normalizeRow, if_pos, scaled] at at_
      exact (mul_eq_zero.mp at_).resolve_left (inv_ne_zero ne)
    · simpa [normalizeRow, here] using h r lt
  · by_cases here : r = i
    · subst here
      simp only [normalizeRow, if_pos, scaled, h r lt, mul_zero]
    · simpa [normalizeRow, here] using h r lt

theorem clearColumn_equivalent (hi : i < m) : RowEquivalent m n (clearColumn A i j) A := by
  have taken : ∀ (x : ℕ → K) (r : ℕ), ∑ c ∈ range n, (A r c - A r j * A i c) * x c =
      ∑ c ∈ range n, A r c * x c - A r j * ∑ c ∈ range n, A i c * x c := by
    intro x r
    rw [mul_sum, ← sum_sub_distrib]
    exact sum_congr rfl fun c _ => by ring
  refine fun x => ⟨fun h r lt => ?_, fun h r lt => ?_⟩
  · have pivot : ∑ c ∈ range n, A i c * x c = 0 := by simpa [clearColumn] using h i hi
    by_cases here : r = i
    · rwa [here]
    · have at_ := h r lt
      simp only [clearColumn, if_neg here, taken, pivot, mul_zero, sub_zero] at at_
      exact at_
  · by_cases here : r = i
    · simpa [clearColumn, here] using h i hi
    · simp only [clearColumn, if_neg here, taken, h i hi, h r lt, mul_zero, sub_zero]

/-- **A pivot keeps what the rows annihilate.** -/
theorem pivotStep_equivalent (hi : i < m) (hs : s < m) (ne : A s j ≠ 0) :
    RowEquivalent m n (pivotStep A i s j) A := by
  have ne' : swapRows A i s i j ≠ 0 := by rwa [swapRows, Equiv.swap_apply_left]
  exact (clearColumn_equivalent hi).trans
    ((normalizeRow_equivalent hi ne').trans (swapRows_equivalent hi hs))

theorem pivotStep_pivot (A : ℕ → ℕ → K) (i s j c : ℕ) :
    pivotStep A i s j i c = A s c / A s j := by
  simp [pivotStep, clearColumn, normalizeRow, swapRows]

theorem pivotStep_other {r : ℕ} (other : r ≠ i) (c : ℕ) :
    pivotStep A i s j r c =
      A (Equiv.swap i s r) c - A (Equiv.swap i s r) j * (A s c / A s j) := by
  simp [pivotStep, clearColumn, normalizeRow, swapRows, other]

/-! ### What the rows say about columns -/

/-- The vector with the entry 1 at `c` only. -/
def unitVector (c : ℕ) : ℕ → K := fun d => if d = c then 1 else 0

theorem annihilates_unitVector {c : ℕ} (lt : c < n) :
    Annihilates m n A (unitVector c) ↔ ∀ r < m, A r c = 0 := by
  refine forall₂_congr fun r _ => ?_
  simp [unitVector, lt]

theorem annihilates_twins {c d : ℕ} (hc : c < n) (hd : d < n) :
    Annihilates m n A (fun k => unitVector c k - unitVector d k) ↔ ∀ r < m, A r c = A r d := by
  refine forall₂_congr fun r _ => ?_
  simp only [mul_sub, sum_sub_distrib]
  simp [unitVector, hc, hd, sub_eq_zero]

/-- Columns that are zero stay so, and no other one becomes so. -/
theorem RowEquivalent.column_zero (h : RowEquivalent m n A B) {c : ℕ} (lt : c < n) :
    (∀ r < m, A r c = 0) ↔ ∀ r < m, B r c = 0 := by
  rw [← annihilates_unitVector lt, ← annihilates_unitVector lt, h]

/-- Columns that are equal stay so, and no others become so. -/
theorem RowEquivalent.columns_eq (h : RowEquivalent m n A B) {c d : ℕ} (hc : c < n) (hd : d < n) :
    (∀ r < m, A r c = A r d) ↔ ∀ r < m, B r c = B r d := by
  rw [← annihilates_twins hc hd, ← annihilates_twins hc hd, h]

/-- `x` solves the linear system with `v` variables whose last column holds the constants. -/
def Solves (m v : ℕ) (A : ℕ → ℕ → K) (x : ℕ → K) : Prop :=
  ∀ r < m, ∑ c ∈ range v, A r c * x c = A r v

theorem solves_iff (x : ℕ → K) :
    Solves m v A x ↔ Annihilates m (v + 1) A (Function.update x v (-1)) := by
  refine forall₂_congr fun r _ => ?_
  have inner : ∑ c ∈ range v, A r c * Function.update x v (-1) c = ∑ c ∈ range v, A r c * x c := by
    refine sum_congr rfl fun c mem => ?_
    rw [Function.update_of_ne (mem_range.mp mem).ne]
  rw [sum_range_succ, inner, Function.update_self, mul_neg, mul_one, ← sub_eq_add_neg, sub_eq_zero]

/-- Row operations keep the solutions. -/
theorem RowEquivalent.solves (h : RowEquivalent m (v + 1) A B) (x : ℕ → K) :
    Solves m v A x ↔ Solves m v B x := by
  rw [solves_iff, solves_iff, h]

/-! ### Echelon forms -/

/-- The invariant of the elimination, after `j` columns with `i` pivots: the pivots go to the right
from row to row, each one is 1 and alone in its column and the first entry of its row, and the rows
without a pivot are zero so far. -/
structure Echelon (m : ℕ) (A : ℕ → ℕ → K) (i j : ℕ) (piv : ℕ → ℕ) : Prop where
  rows_le : i ≤ m
  pivot_lt : ∀ r < i, piv r < j
  strict : ∀ r s, r < s → s < i → piv r < piv s
  unit : ∀ r < i, ∀ s < m, A s (piv r) = if s = r then 1 else 0
  lead : ∀ r < i, ∀ c < piv r, A r c = 0
  below : ∀ r, i ≤ r → r < m → ∀ c < j, A r c = 0

namespace Echelon

variable {piv : ℕ → ℕ}

theorem start (m : ℕ) (A : ℕ → ℕ → K) (piv : ℕ → ℕ) : Echelon m A 0 0 piv where
  rows_le := Nat.zero_le m
  pivot_lt := by simp
  strict := by simp
  unit := by simp
  lead := by simp
  below := by simp

/-- A column without a pivot. -/
theorem skip (h : Echelon m A i j piv) (none : ∀ r, i ≤ r → r < m → A r j = 0) :
    Echelon m A i (j + 1) piv where
  rows_le := h.rows_le
  pivot_lt r lt := (h.pivot_lt r lt).trans (Nat.lt_succ_self j)
  strict := h.strict
  unit := h.unit
  lead := h.lead
  below r low high c lt := by
    rcases Nat.lt_succ_iff_lt_or_eq.mp lt with before | rfl
    · exact h.below r low high c before
    · exact none r low high

/-- Every row has its pivot: the columns that are left have none. -/
theorem full (h : Echelon m A m j piv) (le : j ≤ n) : Echelon m A m n piv where
  rows_le := le_rfl
  pivot_lt r lt := (h.pivot_lt r lt).trans_le le
  strict := h.strict
  unit := h.unit
  lead := h.lead
  below _ low high := absurd low (not_le_of_gt high)

/-- A pivot step leaves a column alone where both of its rows are zero. -/
theorem pivotStep_of_zero {r c : ℕ} (other : r ≠ i) (zero : A s c = 0) (zero' : A i c = 0) :
    pivotStep A i s j r c = A r c := by
  rw [pivotStep_other other, zero, zero_div, mul_zero, sub_zero, Equiv.swap_apply_def, if_neg other]
  split_ifs with here
  · rw [here, zero, zero']
  · rfl

/-- **A pivot step.** -/
theorem pivot (h : Echelon m A i j piv) (lt : i < m) (low : i ≤ s) (high : s < m)
    (ne : A s j ≠ 0) :
    Echelon m (pivotStep A i s j) (i + 1) (j + 1) (Function.update piv i j) := by
  have zero : ∀ c < j, A s c = 0 := h.below s low high
  have zero' : ∀ c < j, A i c = 0 := h.below i le_rfl lt
  have old : ∀ r, r ≠ i → ∀ c < j, pivotStep A i s j r c = A r c :=
    fun r other c hc => pivotStep_of_zero other (zero c hc) (zero' c hc)
  have cleared : ∀ r, pivotStep A i s j r j = if r = i then 1 else 0 := by
    intro r
    split_ifs with here
    · rw [here, pivotStep_pivot, div_self ne]
    · rw [pivotStep_other here, div_self ne, mul_one, sub_self]
  refine ⟨lt, ?_, ?_, ?_, ?_, ?_⟩
  · intro r hr
    rcases Nat.lt_succ_iff_lt_or_eq.mp hr with before | rfl
    · rw [Function.update_of_ne before.ne]
      exact (h.pivot_lt r before).trans (Nat.lt_succ_self j)
    · rw [Function.update_self]
      exact Nat.lt_succ_self j
  · intro r t before ht
    have hr : r < i := by omega
    rw [Function.update_of_ne hr.ne]
    rcases Nat.lt_succ_iff_lt_or_eq.mp ht with inside | rfl
    · rw [Function.update_of_ne inside.ne]
      exact h.strict r t before inside
    · rw [Function.update_self]
      exact h.pivot_lt r hr
  · intro r hr t ht
    rcases Nat.lt_succ_iff_lt_or_eq.mp hr with before | rfl
    · rw [Function.update_of_ne before.ne]
      by_cases here : t = i
      · rw [here, pivotStep_pivot, zero _ (h.pivot_lt r before), zero_div, if_neg before.ne']
      · rw [old t here _ (h.pivot_lt r before)]
        exact h.unit r before t ht
    · rw [Function.update_self]
      exact cleared t
  · intro r hr c hc
    rcases Nat.lt_succ_iff_lt_or_eq.mp hr with before | rfl
    · rw [Function.update_of_ne before.ne] at hc
      rw [old r before.ne c (hc.trans (h.pivot_lt r before))]
      exact h.lead r before c hc
    · rw [Function.update_self] at hc
      rw [pivotStep_pivot, zero c hc, zero_div]
  · intro r hr ht c hc
    have other : r ≠ i := by omega
    rcases Nat.lt_succ_iff_lt_or_eq.mp hc with before | rfl
    · rw [old r other c before]
      exact h.below r (by omega) ht c before
    · rw [cleared, if_neg other]

/-- The columns before a column without a pivot span it, as far as the first `k` rows go. -/
theorem dependent {k c : ℕ} (h : Echelon m A i j piv) (high : k ≤ m) (before : c ≤ j) (le : j ≤ n)
    (lt : c < n) (bare : ∀ r < i, piv r ≠ c)
    (none : ∀ r, i ≤ r → r < k → A r c = 0) :
    ∃ x : ℕ → K, x c = 1 ∧ (∀ d, c < d → x d = 0) ∧ Annihilates k n A x := by
  let x : ℕ → K := fun d => if d = c then 1 else -∑ r ∈ range i, if piv r = d then A r c else 0
  have beyond : ∀ d, c < d → x d = 0 := by
    intro d hd
    simp only [x, if_neg hd.ne', neg_eq_zero]
    refine sum_eq_zero fun r mem => ?_
    split_ifs with pivot
    · exact h.lead r (mem_range.mp mem) c (pivot ▸ hd)
    · rfl
  refine ⟨x, if_pos rfl, beyond, fun r hr => ?_⟩
  by_cases pivoted : r < i
  · have terms : ∀ d ∈ range n, A r d * x d =
        (if d = c then A r c else 0) - if d = piv r then A r c else 0 := by
      intro d _
      by_cases here : d = c
      · have other : c ≠ piv r := (bare r pivoted).symm
        simp [x, here, other]
      · simp only [x, if_neg here, zero_sub, mul_neg, mul_sum, neg_inj]
        rw [sum_eq_single r]
        · by_cases pivot : piv r = d
          · rw [if_pos pivot, if_pos pivot.symm, ← pivot, h.unit r pivoted r (hr.trans_le high),
              if_pos rfl, one_mul]
          · rw [if_neg pivot, if_neg (Ne.symm pivot), mul_zero]
        · intro t ht other
          by_cases pivot : piv t = d
          · rw [← pivot, h.unit t (mem_range.mp ht) r (hr.trans_le high), if_neg (Ne.symm other),
              zero_mul]
          · rw [if_neg pivot, mul_zero]
        · exact fun absent => absurd (mem_range.mpr pivoted) absent
    have inside : piv r < n := (h.pivot_lt r pivoted).trans_le le
    rw [sum_congr rfl terms, sum_sub_distrib, sum_ite_eq', sum_ite_eq',
      if_pos (mem_range.mpr lt), if_pos (mem_range.mpr inside), sub_self]
  · refine sum_eq_zero fun d _ => ?_
    rcases lt_trichotomy d c with left | rfl | after
    · rw [h.below r (not_lt.mp pivoted) (hr.trans_le high) d (left.trans_le before), zero_mul]
    · rw [none r (not_lt.mp pivoted) hr, zero_mul]
    · rw [beyond d after, mul_zero]

end Echelon

/-! ### Reading off a solution -/

/-- Column `c` is 1 in row `r` and zero elsewhere. -/
def UnitColumn (m : ℕ) (A : ℕ → ℕ → K) (c r : ℕ) : Prop :=
  r < m ∧ A r c = 1 ∧ ∀ s < m, s ≠ r → A s c = 0

theorem UnitColumn.entry {c r s : ℕ} (unit : UnitColumn m A c r) (lt : s < m) :
    A s c = if s = r then 1 else 0 := by
  split_ifs with here
  · rw [here, unit.2.1]
  · exact unit.2.2 s lt here

/-- **Reading off a solution** one column at a time: each unit column gets what its row leaves for
it. This is a solution, but that a column that repeats another one should be zero. -/
theorem Echelon.reading {piv : ℕ → ℕ} (h : Echelon m A i (v + 1) piv)
    (consistent : ∀ r < i, piv r ≠ v) {w : ℕ → K}
    (free : ℕ → Prop) [DecidablePred free]
    (free_iff : ∀ c < v, free c ↔ ¬ ∃ r, UnitColumn m A c r)
    (value : ∀ c < v, ∀ r, UnitColumn m A c r →
      w c = A r v - ∑ d ∈ range v with free d, A r d * w d) :
    ∃ u, Solves m v A u ∧ ∀ c < v, u c = w c ∨
      u c = 0 ∧ ∃ t < v, t ≠ c ∧ u t = w c ∧ ∀ r < m, A r c = A r t := by
  classical
  have pivots : ∀ r < i, piv r < v ∧ UnitColumn m A (piv r) r := by
    intro r lt
    refine ⟨lt_of_le_of_ne (Nat.lt_succ_iff.mp (h.pivot_lt r lt)) (consistent r lt),
      lt.trans_le h.rows_le, ?_, fun s hs other => ?_⟩
    · rw [h.unit r lt r (lt.trans_le h.rows_le), if_pos rfl]
    · rw [h.unit r lt s hs, if_neg other]
  -- the columns that look like a pivot without being one are left at zero
  let u : ℕ → K := fun c => if (¬ free c) ∧ ¬ ∃ r < i, piv r = c then 0 else w c
  have at_pivot : ∀ r < i, u (piv r) = w (piv r) :=
    fun r lt => if_neg fun bad => bad.2 ⟨r, lt, rfl⟩
  refine ⟨u, fun r hr => ?_, fun c hc => ?_⟩
  · by_cases pivoted : r < i
    · obtain ⟨inside, unit⟩ := pivots r pivoted
      have terms : ∀ c ∈ range v, A r c * u c =
          (if c = piv r then w (piv r) else 0) + if free c then A r c * w c else 0 := by
        intro c mem
        have hc := mem_range.mp mem
        by_cases here : c = piv r
        · have fixed : ¬ free c := fun yes => (free_iff c hc).mp yes ⟨r, here ▸ unit⟩
          rw [if_pos here, if_neg fixed, add_zero, here, unit.2.1, one_mul, at_pivot r pivoted]
        · rw [if_neg here, zero_add]
          by_cases open_ : free c
          · rw [if_pos open_]
            simp [u, open_]
          · rw [if_neg open_]
            by_cases other : ∃ t < i, piv t = c
            · obtain ⟨t, ht, rfl⟩ := other
              have distinct : r ≠ t := fun same => here (same ▸ rfl)
              rw [h.unit t ht r hr, if_neg distinct, zero_mul]
            · simp [u, open_, other]
      rw [sum_congr rfl terms, sum_add_distrib, sum_ite_eq', if_pos (mem_range.mpr inside),
        ← sum_filter, value _ inside r unit]
      ring
    · have zero := h.below r (not_lt.mp pivoted) hr
      rw [zero v (Nat.lt_succ_self v)]
      refine sum_eq_zero fun c mem => ?_
      rw [zero c ((mem_range.mp mem).trans (Nat.lt_succ_self v)), zero_mul]
  · by_cases twin : (¬ free c) ∧ ¬ ∃ r < i, piv r = c
    · refine .inr ⟨if_pos twin, ?_⟩
      obtain ⟨s, unit⟩ := not_not.mp fun none => twin.1 ((free_iff c hc).mpr none)
      have pivoted : s < i := by
        by_contra bare
        have zero := h.below s (not_lt.mp bare) unit.1 c (hc.trans (Nat.lt_succ_self v))
        exact one_ne_zero (unit.2.1.symm.trans zero)
      obtain ⟨inside, unit'⟩ := pivots s pivoted
      refine ⟨piv s, inside, fun same => twin.2 ⟨s, pivoted, same⟩, ?_, fun r hr => ?_⟩
      · rw [at_pivot s pivoted, value _ inside s unit', value c hc s unit]
      · rw [unit.entry hr, unit'.entry hr]
    · exact .inl (if_neg twin)

end Prism.Lib
