import Prism.Crypto.FiniteField
import Prism.Lib.RowReduction
import Mathlib.Data.List.TakeWhile

/-!
The linear solver of the error-correcting decoder
(`prism/common/crypto/secretsharing/berlekampwelch/linearsolver.py`).

A system is a list of rows, the last column holds the constants. `rref` reduces it in place, and
`someSolution` reads a solution off, with 1 for the variables that are free. Reading does not look
for the pivots that `rref` chose, but tests each column on its own (`isPivotColumn`).

* `rrefLoop_spec`, `rref_spec`: the reduction terminates with a reduced row echelon form that has
  the same solutions.
* `someSolution_outcome`: what `someSolution` returns, and what it raises.

The systems of the decoder end in a row of integers. `Typed` is what is known about the types of the
entries while such a system is reduced.
-/

namespace Prism.Crypto

open Lib

variable {p : ℕ}

/-- The rows of a system. -/
abbrev Rows (p : ℕ) := List (List (Number p))

/-- `matrix[i][j]`. -/
def entryAt (matrix : Rows p) (i j : ℕ) : Py (Number p) := do pyIndex (← pyIndex matrix i) j

/-- The search of the next row that is not zero in column `j`, with the number of rows left. -/
def nonzeroRow (matrix : Rows p) (j : ℕ) : ℕ → ℕ → Py ℕ
  | 0, row => .ok row
  | left + 1, row => do
    if (← entryAt matrix row j).equals 0 then nonzeroRow matrix j left (row + 1) else return row

/-- The row with the pivot is brought to place `i`; `none` if column `j` has no pivot. -/
def choosePivot (matrix : Rows p) (i j : ℕ) : Py (Option (Rows p)) := do
  if (← entryAt matrix i j).equals 0 then
    let row ← nonzeroRow matrix j (matrix.length - i) i
    if row = matrix.length then return none
    else
      let temp ← pyIndex matrix i
      return some ((matrix.set i (← pyIndex matrix row)).set row temp)
  else return some matrix

/-- The pivot's row is divided by the pivot. -/
def normalize (matrix : Rows p) (i j : ℕ) : Py (Rows p) := do
  let pivot ← entryAt matrix i j
  return matrix.set i (← (← pyIndex matrix i).mapM fun x => x.div pivot)

/-- Multiples of row `i` are taken off the other rows. -/
def clearRow (i j : ℕ) (matrix : Rows p) (otherRow : ℕ) : Py (Rows p) := do
  if otherRow = i then return matrix
  let factor ← entryAt matrix otherRow j
  if factor.equals 0 then return matrix
  let pivotRow ← pyIndex matrix i
  let row ← pyIndex matrix otherRow
  return matrix.set otherRow (List.zipWith (fun x y => y.sub (factor.mul x)) pivotRow row)

/-- The loop of `rref`, with the number of columns left. -/
def rrefLoop : ℕ → ℕ → ℕ → Rows p → Py (Rows p)
  | 0, _, _, matrix => .ok matrix
  | columns + 1, i, j, matrix =>
    if matrix.length ≤ i then .ok matrix
    else do
      match ← choosePivot matrix i j with
      | none => rrefLoop columns i (j + 1) matrix
      | some matrix =>
        let matrix ← normalize matrix i j
        let matrix ← (List.range matrix.length).foldlM (clearRow i j) matrix
        rrefLoop columns (i + 1) (j + 1) matrix

/-- `rref`. -/
def rref (matrix : Rows p) : Py (Rows p) :=
  match matrix with
  | [] => .ok []
  | row :: _ => rrefLoop row.length 0 0 matrix

/-- `noSolution`: the last row that is not zero, and whether it has a constant only. -/
def noSolution (A : Rows p) : Py (Bool × ℤ) :=
  match A.reverse.dropWhile fun row => row.all (Number.equals 0) with
  | [] => .error .indexError
  | lastNonzeroRow :: rest =>
    if lastNonzeroRow.dropLast.all (Number.equals 0) then .ok (true, 0)
    else .ok (false, rest.length - A.length)

/-- `isPivotColumn`: the search for the first entry that is not zero does not stop at the last
row. -/
def isPivotColumn (A : Rows p) (j : ℕ) : Py (Bool × ℕ) := do
  let i ← nonzeroRow A j A.length 0
  if !(← entryAt A i j).equals 1 then return (false, i)
  let below ← nonzeroRow A j (A.length - (i + 1)) (i + 1)
  return (below = A.length, i)

/-- `someSolution`. Sets of small integers are gone through in order. -/
def someSolution (system : Rows p) (freeVariableValue : Number p) : Py (List (Number p)) := do
  let system ← rref system
  let (hasNoSolution, _) ← noSolution system
  if hasNoSolution then throw (exception "No solution")
  let numVars := (← pyIndex system 0).length - 1
  let columns ← (List.range numVars).mapM fun j => isPivotColumn system j
  let freeVars := (List.range numVars).filter fun j => !(columns.getD j (false, 0)).1
  columns.mapM fun (isPivot, theRow) => do
    if isPivot then
      let row ← pyIndex system theRow
      let constant ← pyIndex row (row.length - 1)
      let terms ← freeVars.mapM fun i => do return (← pyIndex row i).mul freeVariableValue
      return constant.sub (Number.sum terms)
    else return freeVariableValue

/-! ### Matrices of values -/

/-- Row `r`. -/
def rowAt (M : Rows p) (r : ℕ) : List (Number p) := M.getD r []

/-- The values of the entries. -/
def entries (M : Rows p) (r c : ℕ) : ZMod p := ((rowAt M r).getD c (.int 0)).toField

/-- `m` rows of `n` entries each. -/
def Rectangular (m n : ℕ) (M : Rows p) : Prop := M.length = m ∧ ∀ row ∈ M, row.length = n

/-- The entries are compared by their values. -/
def Number.Sound (x : Number p) : Prop :=
  (x.equals 0 = true ↔ x.toField = 0) ∧ (x.equals 1 = true ↔ x.toField = 1)

/-- All entries are elements of the field, or the integer zero. -/
def FieldRow (row : List (Number p)) : Prop := ∀ x ∈ row, x.Fieldlike

/-- A row with the entry `one` at the variable `e` and the constant, and `zero` elsewhere. -/
def plainRow (zero one : Number p) (e v : ℕ) : List (Number p) :=
  (List.range (v + 1)).map fun c => if c = e ∨ c = v then one else zero

section Matrices

variable {m n i j s r c : ℕ} {M : Rows p}

theorem Rectangular.row_length (rect : Rectangular m n M) (lt : r < m) : (rowAt M r).length = n := by
  have inside : r < M.length := rect.1 ▸ lt
  rw [rowAt, List.getD_eq_getElem _ _ inside]
  exact rect.2 _ (List.getElem_mem inside)

theorem pyIndex_row (rect : Rectangular m n M) (lt : r < m) : pyIndex M r = .ok (rowAt M r) := by
  have inside : r < M.length := rect.1 ▸ lt
  simp [pyIndex, rowAt, inside]

theorem rowAt_beyond (rect : Rectangular m n M) (ge : m ≤ r) : rowAt M r = [] :=
  List.getD_eq_default _ _ (rect.1 ▸ ge)

theorem pyIndex_getD {row : List (Number p)} (lt : c < row.length) :
    pyIndex row c = .ok (row.getD c (.int 0)) := by
  simp [pyIndex, lt]

theorem rowAt_mem (rect : Rectangular m n M) (lt : r < m) : rowAt M r ∈ M := by
  have inside : r < M.length := rect.1 ▸ lt
  rw [rowAt, List.getD_eq_getElem _ _ inside]
  exact List.getElem_mem inside

theorem entryAt_ok (rect : Rectangular m n M) (hr : r < m) (hc : c < n) :
    entryAt M r c = .ok ((rowAt M r).getD c (.int 0)) := by
  rw [entryAt, pyIndex_row rect hr, ok_bind, pyIndex_getD (by rwa [rect.row_length hr])]

theorem getD_mem {row : List (Number p)} (lt : c < row.length) : row.getD c (.int 0) ∈ row := by
  rw [List.getD_eq_getElem _ _ lt]
  exact List.getElem_mem lt

theorem entries_beyond_row (rect : Rectangular m n M) (ge : m ≤ r) : entries M r c = 0 := by
  simp [entries, rowAt_beyond rect ge]

theorem entries_beyond_column (rect : Rectangular m n M) (ge : n ≤ c) : entries M r c = 0 := by
  rcases lt_or_ge r m with inside | beyond
  · rw [entries, List.getD_eq_default _ _ (by rwa [rect.row_length inside])]
    simp
  · exact entries_beyond_row rect beyond

/-- Rows with the same entries. -/
theorem rowAt_of_mem (rect : Rectangular m n M) {row : List (Number p)} (mem : row ∈ M) :
    ∃ r < m, row = rowAt M r := by
  obtain ⟨r, hr, rfl⟩ := List.mem_iff_getElem.mp mem
  exact ⟨r, rect.1 ▸ hr, by rw [rowAt, List.getD_eq_getElem _ _ hr]⟩

theorem rectangular_set (rect : Rectangular m n M) {row : List (Number p)} (len : row.length = n) :
    Rectangular m n (M.set r row) :=
  ⟨by rw [List.length_set, rect.1], fun row' mem =>
    (List.mem_or_eq_of_mem_set mem).elim (rect.2 row') fun same => same ▸ len⟩

theorem rowAt_set (rect : Rectangular m n M) (lt : r < m) (row : List (Number p)) (t : ℕ) :
    rowAt (M.set r row) t = if t = r then row else rowAt M t := by
  have inside : r < M.length := rect.1 ▸ lt
  rw [rowAt, List.getD_eq_getElem?_getD, List.getElem?_set]
  split_ifs with here there there
  · simp
  · exact absurd here.symm there
  · exact absurd there.symm here
  · rw [rowAt, List.getD_eq_getElem?_getD]

/-! ### The steps of the reduction -/

/-- **The search for a pivot.** -/
theorem nonzeroRow_spec (rect : Rectangular m n M) (sound : ∀ row ∈ M, ∀ x ∈ row, x.Sound)
    (hj : j < n) {left : ℕ} (total : r + left = m) :
    ∃ s, nonzeroRow M j left r = .ok s ∧ r ≤ s ∧ s ≤ m ∧ (∀ t, r ≤ t → t < s → entries M t j = 0) ∧
      (s < m → entries M s j ≠ 0) := by
  induction left generalizing r with
  | zero => exact ⟨r, rfl, le_rfl, by omega, by omega, by omega⟩
  | succ left ih =>
      have hr : r < m := by omega
      have inside : j < (rowAt M r).length := by rwa [rect.row_length hr]
      have compare := (sound _ (rowAt_mem rect hr) _ (getD_mem inside)).1
      rw [nonzeroRow, entryAt_ok rect hr hj, ok_bind]
      by_cases zero : entries M r j = 0
      · obtain ⟨s, run, low, high, none, found⟩ := ih (r := r + 1) (by omega)
        refine ⟨s, ?_, by omega, high, fun t ht lt => ?_, found⟩
        · rw [if_pos (compare.mpr zero), run]
        · rcases Nat.lt_or_eq_of_le ht with later | rfl
          · exact none t later lt
          · exact zero
      · refine ⟨r, ?_, le_rfl, hr.le, by omega, fun _ => zero⟩
        rw [if_neg fun same => zero (compare.mp same)]
        rfl

/-- The rows `i` and `s` change places. -/
def swapped (M : Rows p) (i s : ℕ) : Rows p := (M.set i (rowAt M s)).set s (rowAt M i)

theorem rectangular_swapped (rect : Rectangular m n M) (hi : i < m) (hs : s < m) :
    Rectangular m n (swapped M i s) :=
  rectangular_set (rectangular_set rect (rect.row_length hs)) (rect.row_length hi)

theorem rowAt_swapped (rect : Rectangular m n M) (hi : i < m) (hs : s < m) (r : ℕ) :
    rowAt (swapped M i s) r = rowAt M (Equiv.swap i s r) := by
  rw [swapped, rowAt_set (rectangular_set rect (rect.row_length hs)) hs, rowAt_set rect hi,
    Equiv.swap_apply_def]
  by_cases there : r = s
  · rw [if_pos there]
    split_ifs with here
    · rw [← here, there]
    · rfl
  · rw [if_neg there]
    split_ifs <;> rfl

/-- **The choice of a pivot.** -/
theorem choosePivot_spec (rect : Rectangular m n M) (sound : ∀ row ∈ M, ∀ x ∈ row, x.Sound)
    (hi : i < m) (hj : j < n) :
    (choosePivot M i j = .ok none ∧ ∀ t, i ≤ t → t < m → entries M t j = 0) ∨
      ∃ s, choosePivot M i j = .ok (some (swapped M i s)) ∧ i ≤ s ∧ s < m ∧
        (∀ t, i ≤ t → t < s → entries M t j = 0) ∧ entries M s j ≠ 0 := by
  have inside : j < (rowAt M i).length := by rwa [rect.row_length hi]
  have compare := (sound _ (rowAt_mem rect hi) _ (getD_mem inside)).1
  rw [choosePivot, entryAt_ok rect hi hj, ok_bind]
  by_cases zero : entries M i j = 0
  · obtain ⟨s, run, low, high, none, found⟩ :=
      nonzeroRow_spec rect sound hj (show i + (m - i) = m by omega)
    rw [if_pos (compare.mpr zero), rect.1, run, ok_bind]
    rcases Nat.lt_or_eq_of_le high with lt | rfl
    · refine .inr ⟨s, ?_, low, lt, none, found lt⟩
      rw [if_neg lt.ne, pyIndex_row rect hi, ok_bind, pyIndex_row rect lt, ok_bind]
      rfl
    · exact .inl ⟨if_pos rfl, none⟩
  · refine .inr ⟨i, ?_, le_rfl, hi, by omega, zero⟩
    rw [if_neg fun same => zero (compare.mp same)]
    have same : swapped M i i = M := by
      have inside : i < M.length := rect.1 ▸ hi
      rw [swapped, List.set_set, rowAt, List.getD_eq_getElem _ _ inside, List.set_getElem_self]
    rw [same]
    rfl

/-- What `clearRow` makes of a row. -/
def clearedRow (pivotRow : List (Number p)) (j : ℕ) (row : List (Number p)) : List (Number p) :=
  if (row.getD j (.int 0)).equals 0 then row
  else List.zipWith (fun x y => y.sub ((row.getD j (.int 0)).mul x)) pivotRow row

theorem length_clearedRow {pivotRow row : List (Number p)} (same : pivotRow.length = row.length) :
    (clearedRow pivotRow j row).length = row.length := by
  unfold clearedRow
  split_ifs
  · rfl
  · rw [List.length_zipWith, same, min_self]

theorem clearRow_eq (rect : Rectangular m n M) (hi : i < m) (hr : r < m) (hj : j < n) :
    clearRow i j M r =
      .ok (if r = i then M else M.set r (clearedRow (rowAt M i) j (rowAt M r))) := by
  rw [clearRow]
  by_cases here : r = i
  · rw [if_pos here, if_pos here]
    rfl
  · rw [if_neg here, if_neg here, entryAt_ok rect hr hj, ok_bind, clearedRow]
    split_ifs with zero
    · rw [rowAt, List.getD_eq_getElem _ _ (rect.1.symm ▸ hr), List.set_getElem_self]
      rfl
    · rw [pyIndex_row rect hi, ok_bind, pyIndex_row rect hr, ok_bind]
      rfl

/-- **The loop that clears a column**: the rows below `k` are done. -/
theorem clear_fold (rect : Rectangular m n M) (hi : i < m) (hj : j < n) {k : ℕ} (le : k ≤ m) :
    ∃ D, (List.range k).foldlM (clearRow i j) M = .ok D ∧ Rectangular m n D ∧
      ∀ r, rowAt D r =
        if r < k ∧ r ≠ i then clearedRow (rowAt M i) j (rowAt M r) else rowAt M r := by
  induction k with
  | zero => exact ⟨M, rfl, rect, fun r => by simp⟩
  | succ k ih =>
      obtain ⟨D, run, rect', rows⟩ := ih (by omega)
      have hk : k < m := by omega
      have pivot : rowAt D i = rowAt M i := by rw [rows, if_neg (by simp)]
      have other : rowAt D k = rowAt M k := by rw [rows, if_neg (by simp)]
      have step := clearRow_eq rect' hi hk hj
      rw [pivot, other] at step
      have length : (clearedRow (rowAt M i) j (rowAt M k)).length = n := by
        rw [length_clearedRow (by rw [rect.row_length hi, rect.row_length hk]), rect.row_length hk]
      refine ⟨if k = i then D else D.set k (clearedRow (rowAt M i) j (rowAt M k)), ?_, ?_,
        fun r => ?_⟩
      · rw [List.range_succ, List.foldlM_append, run, ok_bind, List.foldlM_cons, step, ok_bind]
        rfl
      · split_ifs
        · exact rect'
        · exact rectangular_set rect' length
      · by_cases here : k = i
        · rw [if_pos here, rows]
          exact if_congr (by omega) rfl rfl
        · rw [if_neg here, rowAt_set rect' hk]
          by_cases same : r = k
          · rw [if_pos same, if_pos (by omega), same]
          · rw [if_neg same, rows]
            exact if_congr (by omega) rfl rfl

/-- **The values of a cleared row**, if the factor or the pivot's row is in the field. -/
theorem clearedRow_spec {pivotRow row : List (Number p)} (same : pivotRow.length = row.length)
    (sound : (row.getD j (.int 0)).Sound)
    (typed : (row.getD j (.int 0)).Fieldlike ∨ InField pivotRow) :
    (∀ c, ((clearedRow pivotRow j row).getD c (.int 0)).toField =
        (row.getD c (.int 0)).toField -
          (row.getD j (.int 0)).toField * (pivotRow.getD c (.int 0)).toField) ∧
      ((row.getD j (.int 0)).toField = 0 → clearedRow pivotRow j row = row) ∧
      ((row.getD j (.int 0)).toField ≠ 0 → InField (clearedRow pivotRow j row)) := by
  unfold clearedRow
  by_cases zero : (row.getD j (.int 0)).toField = 0
  · rw [if_pos (sound.1.mpr zero)]
    exact ⟨fun c => by rw [zero, zero_mul, sub_zero], fun _ => rfl, fun ne => absurd zero ne⟩
  · rw [if_neg fun equal => zero (sound.1.mp equal)]
    have entry : ∀ x ∈ pivotRow, ∀ y, Number.sub y ((row.getD j (.int 0)).mul x) =
        .mod (y.toField - (row.getD j (.int 0)).toField * x.toField) := by
      intro x mem y
      rcases typed with factor | inField
      · rw [factor.eq_mod zero]
        exact Number.sub_mod y _
      · obtain ⟨a, rfl⟩ := inField x mem
        rw [Number.mul_mod]
        exact Number.sub_mod y _
    refine ⟨fun c => ?_, fun zero' => absurd zero' zero, fun _ x mem => ?_⟩
    · rcases lt_or_ge c row.length with inside | beyond
      · have inside' : c < pivotRow.length := same ▸ inside
        rw [List.getD_eq_getElem _ _ (by rw [List.length_zipWith]; omega), List.getElem_zipWith,
          entry _ (List.getElem_mem inside'), List.getD_eq_getElem _ _ inside,
          List.getD_eq_getElem _ _ inside']
        rfl
      · rw [List.getD_eq_default _ _ (by rw [List.length_zipWith]; omega),
          List.getD_eq_default row _ beyond, List.getD_eq_default pivotRow _ (by omega)]
        simp
    · obtain ⟨k, hk, rfl⟩ := List.mem_iff_getElem.mp mem
      rw [List.length_zipWith] at hk
      rw [List.getElem_zipWith, entry _ (List.getElem_mem (by omega))]
      exact ⟨_, rfl⟩

/-- **One round of the reduction**, given what the division makes of the pivot's row: what becomes
of each row, and of the values. -/
theorem round_spec [Fact p.Prime] (rect : Rectangular m n M) (hi : i < m) (hj : j < n) (hs : s < m)
    {divided : List (Number p)}
    (length : divided.length = n)
    (division : (rowAt M s).mapM (fun x => x.div ((rowAt M s).getD j (.int 0))) = .ok divided)
    (quotients : ∀ c, (divided.getD c (.int 0)).toField = entries M s c / entries M s j)
    (sound : ∀ row ∈ M, ∀ x ∈ row, x.Sound)
    (typed : ∀ r, r ≠ i → r < m →
      ((rowAt M (Equiv.swap i s r)).getD j (.int 0)).Fieldlike ∨ InField divided) :
    ∃ N C, normalize (swapped M i s) i j = .ok N ∧
      (List.range N.length).foldlM (clearRow i j) N = .ok C ∧ Rectangular m n C ∧
      entries C = pivotStep (entries M) i s j ∧
      ∀ r, rowAt C r = if r = i then divided else if r < m then
        clearedRow divided j (rowAt M (Equiv.swap i s r)) else [] := by
  have rect' := rectangular_swapped rect hi hs
  have pivotRow : rowAt (swapped M i s) i = rowAt M s := by
    rw [rowAt_swapped rect hi hs, Equiv.swap_apply_left]
  have rect'' := rectangular_set (r := i) rect' length
  obtain ⟨C, run, rectC, rows⟩ := clear_fold rect'' hi hj le_rfl
  have rows' : ∀ r, rowAt C r = if r = i then divided else if r < m then
      clearedRow divided j (rowAt M (Equiv.swap i s r)) else [] := by
    intro r
    rw [rows, rowAt_set rect' hi, if_pos rfl, rowAt_set rect' hi, rowAt_swapped rect hi hs]
    by_cases here : r = i
    · rw [if_neg (by simp [here]), if_pos here, if_pos here]
    · rw [if_neg here, if_neg here]
      by_cases inside : r < m
      · rw [if_pos ⟨inside, here⟩, if_pos inside]
      · rw [if_neg (by simp [inside]), if_neg inside, ← rowAt_swapped rect hi hs,
          rowAt_beyond rect' (not_lt.mp inside)]
  refine ⟨(swapped M i s).set i divided, C, ?_, by rw [rect''.1, run], rectC, ?_, rows'⟩
  · rw [normalize, entryAt_ok rect' hi hj, ok_bind, pyIndex_row rect' hi, ok_bind, pivotRow,
      division]
    rfl
  · funext r c
    rw [entries, rows']
    by_cases here : r = i
    · rw [if_pos here, quotients, here, pivotStep_pivot]
    · rw [if_neg here, pivotStep_other here]
      by_cases inside : r < m
      · have swap_lt : Equiv.swap i s r < m := by
          rw [Equiv.swap_apply_def]
          split_ifs <;> assumption
        have width := rect.row_length swap_lt
        have sound' := sound _ (rowAt_mem rect swap_lt) _ (getD_mem (width.symm ▸ hj))
        obtain ⟨value, -, -⟩ := clearedRow_spec (by rw [length, width]) sound' (typed r here inside)
        rw [if_pos inside, value, quotients]
        rfl
      · have far : m ≤ Equiv.swap i s r := by
          rw [Equiv.swap_apply_def, if_neg here, if_neg (by omega)]
          omega
        rw [if_neg inside, entries_beyond_row rect far, entries_beyond_row rect far]
        simp

end Matrices

/-! ### Reading a reduced system -/

section Reading

variable {m v c : ℕ} {A : Rows p}

theorem all_zero_iff {row : List (Number p)} (sound : ∀ x ∈ row, x.Sound) :
    row.all (Number.equals 0) = true ↔ ∀ c, (row.getD c (.int 0)).toField = 0 := by
  rw [List.all_eq_true]
  constructor
  · intro zero c
    rcases lt_or_ge c row.length with inside | beyond
    · exact (sound _ (getD_mem inside)).1.mp (zero _ (getD_mem inside))
    · rw [List.getD_eq_default _ _ beyond]
      simp
  · intro zero x mem
    obtain ⟨c, hc, rfl⟩ := List.mem_iff_getElem.mp mem
    have at_ := zero c
    rw [List.getD_eq_getElem _ _ hc] at at_
    exact (sound _ mem).1.mpr at_

theorem dropLast_zero_iff {row : List (Number p)} (sound : ∀ x ∈ row, x.Sound)
    (length : row.length = v + 1) :
    row.dropLast.all (Number.equals 0) = true ↔ ∀ c < v, (row.getD c (.int 0)).toField = 0 := by
  rw [all_zero_iff fun x mem => sound x (List.mem_of_mem_dropLast mem)]
  refine forall_congr' fun c => ?_
  rcases lt_or_ge c v with inside | beyond
  · rw [List.getD_eq_getElem _ _ (by rw [List.length_dropLast]; omega), List.getElem_dropLast,
      List.getD_eq_getElem _ _ (by omega)]
    exact ⟨fun h _ => h, fun h => h inside⟩
  · rw [List.getD_eq_default _ _ (by rw [List.length_dropLast]; omega)]
    simp [not_lt.mpr beyond]

/-- **The last row that is not zero.** -/
theorem noSolution_spec (rect : Rectangular m (v + 1) A) (sound : ∀ row ∈ A, ∀ x ∈ row, x.Sound)
    (nonzero : ∃ r < m, ∃ c, entries A r c ≠ 0) :
    ∃ r < m, (∀ t, r < t → ∀ c, entries A t c = 0) ∧ (∃ c, entries A r c ≠ 0) ∧
      ∃ l, noSolution A = .ok (decide (∀ c < v, entries A r c = 0), l) := by
  unfold noSolution
  cases rows : A.reverse.dropWhile fun row => row.all (Number.equals 0) with
  | nil =>
      obtain ⟨r, hr, c, ne⟩ := nonzero
      have all := List.dropWhile_eq_nil_iff.mp rows (rowAt A r)
        (List.mem_reverse.mpr (rowAt_mem rect hr))
      exact absurd ((all_zero_iff (sound _ (rowAt_mem rect hr))).mp all c) ne
  | cons row rest =>
      obtain ⟨zeros, allZero, split⟩ : ∃ zeros : Rows p,
          (∀ row ∈ zeros, row.all (Number.equals 0) = true) ∧ A = rest.reverse ++ row :: zeros := by
        have parts := List.takeWhile_append_dropWhile (p := fun row : List (Number p) =>
          row.all (Number.equals 0)) (l := A.reverse)
        rw [rows] at parts
        refine ⟨(A.reverse.takeWhile fun row => row.all (Number.equals 0)).reverse,
          fun row mem => ?_, ?_⟩
        · rw [List.mem_reverse] at mem
          exact List.mem_takeWhile_imp (p := fun row : List (Number p) => row.all (Number.equals 0)) mem
        · have back := congrArg List.reverse parts
          rw [List.reverse_reverse, List.reverse_append, List.reverse_cons, List.append_assoc] at back
          exact back.symm
      have bound : rest.length < m := by
        rw [← rect.1, split]
        simp
      have here : rowAt A rest.length = row := by
        rw [rowAt, split, List.getD_append_right _ _ _ _ (by simp)]
        simp
      have sound' := sound _ (rowAt_mem rect bound)
      have some : ¬ row.all (Number.equals 0) = true := by
        have := List.head_dropWhile_not (fun row : List (Number p) => row.all (Number.equals 0))
          (l := A.reverse) (by simp [rows])
        simpa [rows] using this
      have length := rect.row_length bound
      rw [here] at sound' length
      refine ⟨rest.length, bound, fun t later c => ?_, ?_, ?_⟩
      · rcases lt_or_ge t m with inside | beyond
        · have mem : rowAt A t ∈ zeros := by
            have long : t < (rest.reverse ++ row :: zeros).length := by rwa [← split, rect.1]
            rw [List.length_append, List.length_reverse, List.length_cons] at long
            rw [rowAt, split, List.getD_append_right _ _ _ _ (by rw [List.length_reverse]; omega),
              List.length_reverse, show t - rest.length = (t - rest.length - 1) + 1 by omega,
              List.getD_cons_succ, List.getD_eq_getElem _ _ (by omega)]
            exact List.getElem_mem _
          exact (all_zero_iff (sound _ (rowAt_mem rect inside))).mp (allZero _ mem) c
        · exact entries_beyond_row rect beyond
      · by_contra none
        push Not at none
        refine some ((all_zero_iff sound').mpr fun c => ?_)
        rw [← here]
        exact none c
      · have value : (∀ c < v, entries A rest.length c = 0) ↔
            row.dropLast.all (Number.equals 0) = true := by
          rw [dropLast_zero_iff sound' length, ← here]
          rfl
        by_cases zero : row.dropLast.all (Number.equals 0) = true
        · exact ⟨0, by rw [decide_eq_true (value.mpr zero)]; exact if_pos zero⟩
        · exact ⟨_, by rw [decide_eq_false fun h => zero (value.mp h)]; exact if_neg zero⟩

/-- **The test of a column.** -/
theorem isPivotColumn_spec [Fact p.Prime] (rect : Rectangular m (v + 1) A)
    (sound : ∀ row ∈ A, ∀ x ∈ row, x.Sound) (hc : c < v + 1) :
    ((∀ r < m, entries A r c = 0) ∧ isPivotColumn A c = .error .indexError) ∨
      (∃ r < m, entries A r c ≠ 0) ∧ ∃ b r, isPivotColumn A c = .ok (b, r) ∧
        (b = true ↔ UnitColumn m (entries A) c r) ∧
        (b = false → ∀ t, ¬ UnitColumn m (entries A) c t) := by
  obtain ⟨s, run, -, high, none, found⟩ :=
    nonzeroRow_spec rect sound hc (Nat.zero_add m)
  rw [isPivotColumn, rect.1, run, ok_bind]
  rcases Nat.lt_or_eq_of_le high with inside | rfl
  · refine .inr ⟨⟨s, inside, found inside⟩, ?_⟩
    have compare := (sound _ (rowAt_mem rect inside) _
      (getD_mem (show c < (rowAt A s).length by rwa [rect.row_length inside]))).2
    have only : ∀ t, UnitColumn m (entries A) c t → t = s := by
      intro t unit
      by_contra other
      exact found inside (unit.2.2 s inside (Ne.symm other))
    rw [entryAt_ok rect inside hc, ok_bind]
    by_cases one : entries A s c = 1
    · obtain ⟨t, run', low, high', none', found'⟩ :=
        nonzeroRow_spec rect sound hc (show s + 1 + (m - (s + 1)) = m by omega)
      have equal := compare.mpr one
      refine ⟨decide (t = m), s, ?_, ?_, fun no t' unit => ?_⟩
      · simp only [equal, Bool.not_true, Bool.false_eq_true, if_false]
        rw [run', ok_bind]
        rfl
      · rw [decide_eq_true_eq]
        constructor
        · rintro rfl
          refine ⟨inside, one, fun u hu other => ?_⟩
          rcases lt_or_gt_of_ne other with before | after
          · exact none u (Nat.zero_le u) before
          · exact none' u (by omega) hu
        · intro unit
          by_contra other
          exact found' (by omega) (unit.2.2 t (by omega) (by omega))
      · obtain rfl := only t' unit
        have bottom : t ≠ m := of_decide_eq_false no
        exact found' (by omega) (unit.2.2 t (by omega) (by omega))
    · have differ : Number.equals 1 ((rowAt A s).getD c (.int 0)) = false := by
        rw [Bool.eq_false_iff]
        exact fun equal => one (compare.mp equal)
      refine ⟨false, s, ?_, ?_, fun _ t unit => ?_⟩
      · simp only [differ, Bool.not_false, if_true]
        rfl
      · exact ⟨fun h => absurd h (by simp), fun unit => absurd unit.2.1 one⟩
      · exact one (only t unit ▸ unit.2.1)
  · refine .inl ⟨fun r hr => none r (Nat.zero_le r) hr, ?_⟩
    have beyond : entryAt A s c = .error .indexError := by
      rw [entryAt, pyIndex, List.getElem?_eq_none (by rw [rect.1])]
      rfl
    rw [beyond]
    rfl

end Reading

/-! ### Rows -/

section Rows

variable {e v j c : ℕ} {row : List (Number p)}

theorem getD_plainRow (zero one : Number p) (le : c ≤ v) :
    (plainRow zero one e v).getD c (.int 0) = if c = e ∨ c = v then one else zero := by
  rw [plainRow, List.getD_eq_getElem _ _ (by simpa using Nat.lt_succ_of_le le)]
  simp

theorem map_plainRow (f : Number p → Number p) (zero one : Number p) :
    (plainRow zero one e v).map f = plainRow (f zero) (f one) e v := by
  rw [plainRow, plainRow, List.map_map]
  exact List.map_congr_left fun c _ => apply_ite f _ _ _

theorem mem_plainRow {zero one x : Number p} (mem : x ∈ plainRow zero one e v) :
    x = zero ∨ x = one := by
  obtain ⟨c, -, rfl⟩ := List.mem_map.mp mem
  split_ifs
  · exact .inr rfl
  · exact .inl rfl

/-- A row with an entry that is not of the field. -/
theorem not_fieldRow_plainRow {zero one : Number p} (other : ¬ one.Fieldlike) :
    ¬ FieldRow (plainRow zero one e v) := by
  refine fun all => other (all one (List.mem_map.mpr ⟨v, by simp, if_pos (.inr rfl)⟩))

theorem fieldRow_nil : FieldRow ([] : List (Number p)) := by simp [FieldRow]

theorem fieldRow_of_inField (h : InField row) : FieldRow row := fun x mem => .inr (h x mem)

theorem fieldlike_getD (h : FieldRow row) (c : ℕ) : (row.getD c (.int 0)).Fieldlike := by
  rcases lt_or_ge c row.length with inside | beyond
  · exact h _ (getD_mem inside)
  · rw [List.getD_eq_default _ _ beyond]
    exact Number.fieldlike_zero

variable [Fact p.Prime]

theorem sound_of_fieldlike {x : Number p} (h : x.Fieldlike) : x.Sound := by
  rcases h with rfl | ⟨a, rfl⟩ <;> simp [Number.Sound, Number.equals]

theorem sound_int (n : ℤ) (small : n = 0 ∨ n = 1) : (Number.int n : Number p).Sound := by
  rcases small with rfl | rfl <;> simp [Number.Sound, Number.equals]

theorem sound_float (x : ℚ) (small : x = 0 ∨ x = 1) : (Number.float x : Number p).Sound := by
  rcases small with rfl | rfl <;> simp [Number.Sound, Number.equals]

/-- A row of the field is one again after the column was cleared. -/
theorem fieldRow_clearedRow {pivotRow : List (Number p)} (same : pivotRow.length = row.length)
    (h : FieldRow row) : FieldRow (clearedRow pivotRow j row) := by
  have factor := fieldlike_getD h j
  obtain ⟨-, unchanged, changed⟩ := clearedRow_spec same (sound_of_fieldlike factor) (.inl factor)
  by_cases zero : (row.getD j (.int 0)).toField = 0
  · rwa [unchanged zero]
  · exact fieldRow_of_inField (changed zero)

/-- **Dividing a row of the field.** -/
theorem divide_fieldRow {row : List (Number p)} (typed : FieldRow row)
    (ne : (row.getD j (.int 0)).toField ≠ 0) :
    ∃ divided, row.mapM (fun x => x.div (row.getD j (.int 0))) = .ok divided ∧
      InField divided ∧ divided.length = row.length ∧
      ∀ c, (divided.getD c (.int 0)).toField =
        (row.getD c (.int 0)).toField / (row.getD j (.int 0)).toField := by
  generalize pivot : row.getD j (.int 0) = x at ne
  have eq := (pivot ▸ fieldlike_getD typed j : x.Fieldlike).eq_mod ne
  refine ⟨row.map fun y => .mod (y.toField / x.toField), ?_, ?_, List.length_map _, fun c => ?_⟩
  · refine mapM_ok fun y _ => ?_
    rw [eq]
    exact Number.div_mod y ne
  · intro y mem
    obtain ⟨z, -, rfl⟩ := List.mem_map.mp mem
    exact ⟨_, rfl⟩
  · rcases lt_or_ge c row.length with inside | beyond
    · rw [List.getD_eq_getElem _ _ (by rwa [List.length_map]), List.getElem_map,
        List.getD_eq_getElem _ _ inside]
      rfl
    · rw [List.getD_eq_default _ _ (by rwa [List.length_map]), List.getD_eq_default _ _ beyond]
      simp

/-- **Dividing the row of integers** makes floats. -/
theorem divide_plainRow (lt : e ≤ v) :
    ∃ divided, (plainRow (.int 0) (.int 1) e v : List (Number p)).mapM
        (fun x => x.div ((plainRow (.int 0) (.int 1) e v).getD e (.int 0))) = .ok divided ∧
      divided = plainRow (.float 0) (.float 1) e v ∧
      ∀ c, (divided.getD c (.int 0)).toField =
        ((plainRow (.int 0) (.int 1) e v : List (Number p)).getD c (.int 0)).toField /
          ((plainRow (.int 0) (.int 1) e v : List (Number p)).getD e (.int 0)).toField := by
  have one : (plainRow (.int 0) (.int 1) e v : List (Number p)).getD e (.int 0) = .int 1 := by
    rw [getD_plainRow _ _ lt, if_pos (.inl rfl)]
  refine ⟨_, ?_, rfl, fun c => ?_⟩
  · rw [one]
    have quotient : ∀ x ∈ (plainRow (.int 0) (.int 1) e v : List (Number p)),
        x.div (.int 1) = .ok (.float x.toRat) := by
      intro x mem
      rcases mem_plainRow mem with rfl | rfl <;> simp [Number.div, Number.toRat]
    rw [mapM_ok quotient, map_plainRow]
    simp [Number.toRat]
  · rw [one]
    rcases Nat.lt_or_ge v c with beyond | inside
    · have far : ∀ zero one : Number p, (plainRow zero one e v).getD c (.int 0) = .int 0 :=
        fun zero one => List.getD_eq_default _ _ (by simpa [plainRow] using beyond)
      rw [far, far]
      simp
    · rw [getD_plainRow _ _ inside, getD_plainRow _ _ inside]
      split_ifs <;> simp

end Rows

/-! ### Types during the reduction -/

section Types

variable [Fact p.Prime]

/-- The columns up to the `e`-th one are dependent in the first `n` rows. -/
def Dependent (n e v : ℕ) (data : ℕ → ℕ → ZMod p) : Prop :=
  ∃ x, x e = 1 ∧ (∀ c, e < c → x c = 0) ∧ Annihilates n (v + 1) data x

/-- What is known about the entries of a system of `n + 1` rows with `v` variables. All are in the
field; or the last row is still the row of integers that it was, and the other rows say what `data`
said; or some row is the row of integers divided by its pivot, which takes that the column `e` of
`data` depends on the ones before. -/
inductive Typed (n e v : ℕ) (data : ℕ → ℕ → ZMod p) (M : Rows p) (i j : ℕ) : Prop
  | fields (all : ∀ r, FieldRow (rowAt M r))
  | waiting (last : rowAt M n = plainRow (.int 0) (.int 1) e v)
      (others : ∀ r, r ≠ n → FieldRow (rowAt M r)) (le : j ≤ e)
      (same : RowEquivalent n (v + 1) (entries M) data)
  | floats (k : ℕ) (lt : k < i) (plain : rowAt M k = plainRow (.float 0) (.float 1) e v)
      (others : ∀ r, r ≠ k → FieldRow (rowAt M r)) (passed : e < j)
      (dependent : Dependent n e v data)

variable {n e v i j s : ℕ} {data : ℕ → ℕ → ZMod p} {M : Rows p} {piv : ℕ → ℕ}

/-- Entries are compared by their values in all of these states. -/
theorem Typed.sound (typed : Typed n e v data M i j) (r : ℕ) : ∀ x ∈ rowAt M r, x.Sound := by
  intro x mem
  cases typed with
  | fields all => exact sound_of_fieldlike (all r x mem)
  | waiting last others le same =>
      by_cases here : r = n
      · rw [here, last] at mem
        rcases mem_plainRow mem with rfl | rfl
        · exact sound_int 0 (.inl rfl)
        · exact sound_int 1 (.inr rfl)
      · exact sound_of_fieldlike (others r here x mem)
  | floats k lt plain others passed dependent =>
      by_cases here : r = k
      · rw [here, plain] at mem
        rcases mem_plainRow mem with rfl | rfl
        · exact sound_float 0 (.inl rfl)
        · exact sound_float 1 (.inr rfl)
      · exact sound_of_fieldlike (others r here x mem)

/-- A column without a pivot. -/
theorem Typed.skip (typed : Typed n e v data M i j) (lt : e < v) (hi : i < n + 1)
    (none : ∀ t, i ≤ t → t < n + 1 → entries M t j = 0) : Typed n e v data M i (j + 1) := by
  cases typed with
  | fields all => exact .fields all
  | waiting last others le same =>
      refine .waiting last others (lt_of_le_of_ne le fun here => ?_) same
      have zero := none n (by omega) (by omega)
      rw [entries, last, getD_plainRow _ _ (by omega), if_pos (.inl here)] at zero
      simp at zero
  | floats k before plain others passed dependent =>
      exact .floats k before plain others (by omega) dependent

/-- **A round keeps the types.** -/
theorem Typed.round (typed : Typed n e v data M i j) (rect : Rectangular (n + 1) (v + 1) M)
    (lt : e < v) (echelon : Echelon (n + 1) (entries M) i j piv) (hi : i < n + 1) (hj : j < v + 1)
    (low : i ≤ s) (hs : s < n + 1) (before : ∀ t, i ≤ t → t < s → entries M t j = 0)
    (ne : entries M s j ≠ 0) :
    ∃ N C, normalize (swapped M i s) i j = .ok N ∧
      (List.range N.length).foldlM (clearRow i j) N = .ok C ∧ Rectangular (n + 1) (v + 1) C ∧
      entries C = pivotStep (entries M) i s j ∧ Typed n e v data C (i + 1) (j + 1) := by
  have sound : ∀ row ∈ M, ∀ x ∈ row, x.Sound := by
    intro row mem
    obtain ⟨r, -, rfl⟩ := rowAt_of_mem rect mem
    exact typed.sound r
  have swap_lt : ∀ r < n + 1, Equiv.swap i s r < n + 1 := by
    intro r hr
    rw [Equiv.swap_apply_def]
    split_ifs <;> assumption
  -- what a round does to the rows of the field, whatever the pivot's row is
  have field : ∀ {divided : List (Number p)} {C : Rows p}, divided.length = v + 1 →
      (∀ r, rowAt C r = if r = i then divided else if r < n + 1 then
        clearedRow divided j (rowAt M (Equiv.swap i s r)) else []) →
      ∀ r, r ≠ i → FieldRow (rowAt M (Equiv.swap i s r)) → FieldRow (rowAt C r) := by
    intro divided C length rows r other h
    rw [rows, if_neg other]
    split_ifs with inside
    · exact fieldRow_clearedRow (by rw [length, rect.row_length (swap_lt r inside)]) h
    · exact fieldRow_nil
  have width := rect.row_length hs
  by_cases plain : FieldRow (rowAt M s)
  · obtain ⟨divided, division, inField, length, quotients⟩ := divide_fieldRow plain ne
    rw [width] at length
    obtain ⟨N, C, run, run', rectC, values, rows⟩ := round_spec rect hi hj hs length division
      quotients sound fun _ _ _ => .inr inField
    refine ⟨N, C, run, run', rectC, values, ?_⟩
    have pivotRow : FieldRow (rowAt C i) := by
      rw [rows, if_pos rfl]
      exact fieldRow_of_inField inField
    -- the row that is not of the field is not one of the two that change places
    have special : ∀ k, k ≠ i → k ≠ s → k < n + 1 →
        (entries M k j = 0 → rowAt C k = rowAt M k) ∧
          (entries M k j ≠ 0 → FieldRow (rowAt C k)) := by
      intro k other other' inside
      have stays : Equiv.swap i s k = k := Equiv.swap_apply_of_ne_of_ne other other'
      have width' := rect.row_length inside
      obtain ⟨-, unchanged, changed⟩ := clearedRow_spec (by rw [length, width'])
        (sound _ (rowAt_mem rect inside) _ (getD_mem (width'.symm ▸ hj))) (.inr inField)
      rw [rows, if_neg other, if_pos inside, stays]
      exact ⟨unchanged, fun nonzero => fieldRow_of_inField (changed nonzero)⟩
    have others' : ∀ k, k ≠ i → k ≠ s → (∀ r, r ≠ k → FieldRow (rowAt M r)) →
        ∀ r, r ≠ k → FieldRow (rowAt C r) := by
      intro k other other' others r ne
      by_cases here : r = i
      · rwa [here]
      · refine field length rows r here (others _ fun same => ne ?_)
        exact (Equiv.swap i s).injective
          (same.trans (Equiv.swap_apply_of_ne_of_ne other other').symm)
    have fields : ∀ k, (∀ r, r ≠ k → FieldRow (rowAt C r)) → FieldRow (rowAt C k) →
        Typed n e v data C (i + 1) (j + 1) := by
      refine fun k others row => .fields fun r => ?_
      by_cases here : r = k
      · rwa [here]
      · exact others r here
    cases typed with
    | fields all =>
        refine fields i (fun r here => ?_) pivotRow
        exact field length rows r here (all _)
    | waiting last others le same =>
        have other : n ≠ s := by
          rintro rfl
          rw [last] at plain
          exact not_fieldRow_plainRow (by simp [Number.Fieldlike]) plain
        obtain ⟨stays, changes⟩ := special n (by omega) other (by omega)
        have others'' := others' n (by omega) other others
        rcases Nat.lt_or_eq_of_le le with before | here
        · have zero : entries M n j = 0 := by
            rw [entries, last, getD_plainRow _ _ (by omega), if_neg (by omega)]
            simp
          refine .waiting ((stays zero).trans last) others'' before ?_
          rw [values]
          exact (pivotStep_equivalent (by omega) (by omega) ne).trans same
        · have nonzero : entries M n j ≠ 0 := by
            rw [entries, last, getD_plainRow _ _ (by omega), if_pos (.inl here)]
            simp
          exact fields n others'' (changes nonzero)
    | floats k before plain' others passed dependent =>
        obtain ⟨stays, changes⟩ := special k (by omega) (by omega) (by omega)
        have others'' := others' k (by omega) (by omega) others
        rcases Nat.lt_or_eq_of_le (Nat.lt_succ_iff.mp hj) with inside | last
        · have zero : entries M k j = 0 := by
            rw [entries, plain', getD_plainRow _ _ (by omega), if_neg (by omega)]
            simp
          exact .floats k (by omega) ((stays zero).trans plain') others'' (by omega) dependent
        · have nonzero : entries M k j ≠ 0 := by
            rw [entries, plain', getD_plainRow _ _ (by omega), if_pos (.inr last)]
            simp
          exact fields k others'' (changes nonzero)
  · cases typed with
    | fields all => exact absurd (all s) plain
    | floats k before plain' others passed dependent => exact absurd (others s (by omega)) plain
    | waiting last others le same =>
        obtain rfl : s = n := by
          by_contra other
          exact plain (others s other)
        obtain rfl : j = e := by
          by_contra other
          refine ne ?_
          rw [entries, last, getD_plainRow _ _ (by omega), if_neg (by omega)]
          simp
        obtain ⟨divided, division, floats, quotients⟩ := divide_plainRow (p := p) (by omega : j ≤ v)
        have typed' : ∀ r, r ≠ i → FieldRow (rowAt M (Equiv.swap i s r)) := by
          refine fun r other => others _ fun same => other ?_
          exact (Equiv.swap i s).injective (same.trans (Equiv.swap_apply_left i s).symm)
        have length : divided.length = v + 1 := by rw [floats, plainRow, List.length_map,
          List.length_range]
        have quotients' : ∀ c, (divided.getD c (.int 0)).toField = entries M s c / entries M s j := by
          intro c
          rw [quotients, entries, entries, last]
        obtain ⟨N, C, run, run', rectC, values, rows⟩ := round_spec rect hi hj hs length
          (last ▸ division) quotients' sound fun r other _ => .inl (fieldlike_getD (typed' r other) j)
        obtain ⟨x, one, beyond, zero⟩ := echelon.dependent (n := v + 1) (k := s) (by omega) le_rfl
          (by omega) hj (fun r hr => (echelon.pivot_lt r hr).ne) before
        refine ⟨N, C, run, run', rectC, values, .floats i (Nat.lt_succ_self i) ?_ (fun r other => ?_)
          (Nat.lt_succ_self j) ⟨x, one, beyond, (same x).mp zero⟩⟩
        · rw [rows, if_pos rfl, floats]
        · exact field length rows r other (typed' r other)

/-- Every row has its pivot, and columns are left. -/
theorem Typed.full (typed : Typed n e v data M (n + 1) j) (lt : e < v)
    (echelon : Echelon (n + 1) (entries M) (n + 1) j piv) (le : j ≤ v + 1) :
    Typed n e v data M (n + 1) (v + 1) := by
  cases typed with
  | fields all => exact .fields all
  | waiting last others before same =>
      have pivot := echelon.pivot_lt n (Nat.lt_succ_self n)
      have one := echelon.unit n (Nat.lt_succ_self n) n (Nat.lt_succ_self n)
      rw [if_pos rfl, entries, last, getD_plainRow _ _ (by omega), if_neg (by omega)] at one
      simp at one
  | floats k before plain others passed dependent =>
      exact .floats k before plain others (by omega) dependent

/-- **The loop of the reduction** ends with a reduced row echelon form. -/
theorem rrefLoop_spec (lt : e < v) {columns : ℕ} (rect : Rectangular (n + 1) (v + 1) M)
    (echelon : Echelon (n + 1) (entries M) i j piv) (typed : Typed n e v data M i j)
    (total : j + columns = v + 1) :
    ∃ D i' piv', rrefLoop columns i j M = .ok D ∧ Rectangular (n + 1) (v + 1) D ∧
      RowEquivalent (n + 1) (v + 1) (entries D) (entries M) ∧
      Echelon (n + 1) (entries D) i' (v + 1) piv' ∧ Typed n e v data D i' (v + 1) := by
  induction columns generalizing i j M piv with
  | zero =>
      obtain rfl : j = v + 1 := total
      exact ⟨M, i, piv, rfl, rect, .refl _ _ _, echelon, typed⟩
  | succ columns ih =>
      rw [rrefLoop, rect.1]
      by_cases done : n + 1 ≤ i
      · obtain rfl : i = n + 1 := le_antisymm echelon.rows_le done
        exact ⟨M, n + 1, piv, if_pos done, rect, .refl _ _ _, echelon.full (by omega),
          typed.full lt echelon (by omega)⟩
      · have hi : i < n + 1 := not_le.mp done
        have hj : j < v + 1 := by omega
        have sound : ∀ row ∈ M, ∀ x ∈ row, x.Sound := by
          intro row mem
          obtain ⟨r, -, rfl⟩ := rowAt_of_mem rect mem
          exact typed.sound r
        rw [if_neg done]
        rcases choosePivot_spec rect sound hi hj with ⟨run, none⟩ | ⟨s, run, low, hs, before, ne⟩
        · rw [run, ok_bind]
          exact ih rect (echelon.skip none) (typed.skip lt hi none) (by omega)
        · obtain ⟨N, C, runN, runC, rectC, values, typedC⟩ :=
            typed.round rect lt echelon hi hj low hs before ne
          have echelonC := echelon.pivot hi low hs ne
          rw [← values] at echelonC
          obtain ⟨D, i', piv', runD, rectD, same, rest⟩ := ih rectC echelonC typedC (by omega)
          refine ⟨D, i', piv', ?_, rectD, same.trans ?_, rest⟩
          · rw [run, ok_bind]
            simp only
            rw [runN, ok_bind, runC, ok_bind, runD]
          · rw [values]
            exact pivotStep_equivalent hi hs ne

end Types

/-! ### The solver -/

section Solver

variable [Fact p.Prime]

/-- A system as the decoder makes them: rows of the field, and below them a row of integers that
sets the variable `e` to 1. -/
structure System (n e v : ℕ) (M : Rows p) : Prop where
  rect : Rectangular (n + 1) (v + 1) M
  lt : e < v
  rows : ∀ r, r ≠ n → FieldRow (rowAt M r)
  last : rowAt M n = plainRow (.int 0) (.int 1) e v

/-- What the reduction makes of it. -/
structure Reduced (n e v : ℕ) (M D : Rows p) (i : ℕ) (piv : ℕ → ℕ) : Prop where
  rect : Rectangular (n + 1) (v + 1) D
  same : RowEquivalent (n + 1) (v + 1) (entries D) (entries M)
  echelon : Echelon (n + 1) (entries D) i (v + 1) piv
  typed : Typed n e v (entries M) D i (v + 1)

/-- What is read off: a solution, but that a column that repeats another one gets the other's value
once more. -/
structure Reading (n e v : ℕ) (M : Rows p) (solution : List (Number p)) : Prop where
  length : solution.length = v
  reads : ∃ u, Solves (n + 1) v (entries M) u ∧ ∀ c < v, u c = (solution.getD c (.int 0)).toField ∨
    u c = 0 ∧ ∃ t < v, t ≠ c ∧ u t = (solution.getD c (.int 0)).toField ∧
      ∀ r < n + 1, entries M r c = entries M r t
  leading : solution.getD e (.int 0) = .mod 1 ∨
    solution.getD e (.int 0) = .float 1 ∧ Dependent n e v (entries M)

variable {n e v i c r : ℕ} {M D : Rows p} {piv : ℕ → ℕ}

theorem rref_spec (system : System n e v M) :
    ∃ D i piv, rref M = .ok D ∧ Reduced n e v M D i piv := by
  obtain ⟨D, i, piv, run, rect, same, echelon, typed⟩ := rrefLoop_spec system.lt system.rect
    (.start (n + 1) (entries M) id)
    (.waiting system.last system.rows (Nat.zero_le e) (.refl n (v + 1) (entries M)))
    (Nat.zero_add (v + 1))
  refine ⟨D, i, piv, ?_, rect, same, echelon, typed⟩
  cases M with
  | nil => exact absurd system.rect.1 (by simp)
  | cons row rows => rw [rref, system.rect.2 row List.mem_cons_self, run]

/-- The last row of a system. -/
theorem System.entries_last (system : System n e v M) (le : c ≤ v) :
    entries M n c = if c = e ∨ c = v then 1 else 0 := by
  rw [entries, system.last, getD_plainRow _ _ le]
  split_ifs <;> simp

/-- The variable `e` is 1. -/
theorem System.one (system : System n e v M) {x : ℕ → ZMod p}
    (solves : Solves (n + 1) v (entries M) x) : x e = 1 := by
  have row := solves n (Nat.lt_succ_self n)
  rw [system.entries_last le_rfl, if_pos (.inr rfl)] at row
  rw [← row]
  have lt := system.lt
  rw [Finset.sum_eq_single e]
  · rw [system.entries_last lt.le, if_pos (.inl rfl), one_mul]
  · intro c mem other
    have inside := Finset.mem_range.mp mem
    rw [system.entries_last inside.le, if_neg (by omega), zero_mul]
  · exact fun absent => absurd (Finset.mem_range.mpr lt) absent

theorem Reduced.sound (reduced : Reduced n e v M D i piv) : ∀ row ∈ D, ∀ x ∈ row, x.Sound := by
  intro row mem
  obtain ⟨r, -, rfl⟩ := rowAt_of_mem reduced.rect mem
  exact reduced.typed.sound r

/-- The variable `e` has a pivot, as it is not free. -/
theorem Reduced.unit (reduced : Reduced n e v M D i piv) (system : System n e v M) :
    ∃ r, UnitColumn (n + 1) (entries D) e r := by
  have lt := system.lt
  by_cases pivoted : ∃ r < i, piv r = e
  · obtain ⟨r, hr, rfl⟩ := pivoted
    have inside := hr.trans_le reduced.echelon.rows_le
    refine ⟨r, inside, ?_, fun s hs other => ?_⟩
    · rw [reduced.echelon.unit r hr r inside, if_pos rfl]
    · rw [reduced.echelon.unit r hr s hs, if_neg other]
  · push Not at pivoted
    obtain ⟨x, one, beyond, zero⟩ := reduced.echelon.dependent (n := v + 1) le_rfl
      (c := e) (by omega) le_rfl (by omega) pivoted
      fun r low high => reduced.echelon.below r low high e (by omega)
    have row := (reduced.same x).mp zero n (Nat.lt_succ_self n)
    have value : ∑ c ∈ Finset.range (v + 1), entries M n c * x c = 1 := by
      rw [Finset.sum_eq_single e]
      · rw [system.entries_last lt.le, if_pos (.inl rfl), one, one_mul]
      · intro c mem other
        have inside := Finset.mem_range.mp mem
        by_cases last : c = v
        · rw [last, beyond v lt, mul_zero]
        · rw [system.entries_last (by omega), if_neg (by omega), zero_mul]
      · exact fun absent => absurd (Finset.mem_range.mpr (by omega)) absent
    exact absurd (row.symm.trans value) zero_ne_one

/-- **The test for a solution.** -/
theorem Reduced.noSolution_spec (reduced : Reduced n e v M D i piv) (system : System n e v M) :
    (∃ l, noSolution D = .ok (true, l) ∧ ∀ x, ¬ Solves (n + 1) v (entries M) x) ∨
      ∃ l, noSolution D = .ok (false, l) ∧ ∀ r < i, piv r ≠ v := by
  obtain ⟨s, unit⟩ := reduced.unit system
  obtain ⟨r, hr, rest, ⟨c, nonzero⟩, l, run⟩ := Crypto.noSolution_spec reduced.rect reduced.sound
    ⟨s, unit.1, e, by rw [unit.2.1]; exact one_ne_zero⟩
  have inside : c < v + 1 := by
    by_contra beyond
    exact nonzero (entries_beyond_column reduced.rect (not_lt.mp beyond))
  by_cases zero : ∀ c < v, entries D r c = 0
  · refine .inl ⟨l, by rw [run, decide_eq_true zero], fun x solves => ?_⟩
    have row := (reduced.same.solves x).mpr solves r hr
    rw [Finset.sum_eq_zero fun c mem => by rw [zero c (Finset.mem_range.mp mem), zero_mul]] at row
    rcases Nat.lt_succ_iff_lt_or_eq.mp inside with variable_ | rfl
    · exact nonzero (zero c variable_)
    · exact nonzero row.symm
  · refine .inr ⟨l, by rw [run, decide_eq_false zero], fun t ht constant => ?_⟩
    have pivoted : r < i := by
      by_contra bare
      exact nonzero (reduced.echelon.below r (not_lt.mp bare) hr c inside)
    have one := reduced.echelon.unit t ht t (ht.trans_le reduced.echelon.rows_le)
    rw [if_pos rfl] at one
    rcases lt_trichotomy r t with before | rfl | after
    · exact one_ne_zero (one.symm.trans (rest t before _))
    · exact zero fun c hc => reduced.echelon.lead r ht c (constant ▸ hc)
    · have := reduced.echelon.strict t r after pivoted
      have := reduced.echelon.pivot_lt r pivoted
      omega

/-- What is read off, given what the tests of the columns say. -/
def readOff (D : Rows p) (v : ℕ) (test : ℕ → Bool × ℕ) (c : ℕ) : Number p :=
  if (test c).1 then
    ((rowAt D (test c).2).getD v (.int 0)).sub
      (Number.sum (((List.range v).filter fun d => !(test d).1).map fun d =>
        ((rowAt D (test c).2).getD d (.int 0)).mul (.int 1)))
  else .int 1

/-- The tests of the columns say which are unit columns, and in which row. -/
def Tests (m v : ℕ) (D : Rows p) (test : ℕ → Bool × ℕ) : Prop :=
  ∀ c < v, isPivotColumn D c = .ok (test c) ∧
    ((test c).1 = true ↔ UnitColumn m (entries D) c (test c).2) ∧
    ((test c).1 = false → ∀ r, ¬ UnitColumn m (entries D) c r)

theorem Tests.unit {m v : ℕ} {test : ℕ → Bool × ℕ} (tests : Tests m v D test) (lt : c < v)
    (unit : UnitColumn m (entries D) c r) : (test c).1 = true ∧ (test c).2 = r := by
  obtain ⟨-, pivot, free⟩ := tests c lt
  have found : (test c).1 = true := by
    by_contra no
    exact free (Bool.eq_false_iff.mpr no) r unit
  refine ⟨found, ?_⟩
  by_contra other
  have := unit.2.2 _ (pivot.mp found).1 other
  rw [(pivot.mp found).2.1] at this
  exact one_ne_zero this

/-- The loop over the columns. -/
theorem someSolution_ok (reduced : Reduced n e v M D i piv) {test : ℕ → Bool × ℕ}
    (tests : Tests (n + 1) v D test) (run : rref M = .ok D) {l : ℤ}
    (solvable : noSolution D = .ok (false, l)) :
    someSolution M (.int 1) = .ok ((List.range v).map (readOff D v test)) := by
  have first : pyIndex D 0 = .ok (rowAt D 0) := pyIndex_row reduced.rect (Nat.succ_pos n)
  have width : (rowAt D 0).length - 1 = v := by
    rw [reduced.rect.row_length (Nat.succ_pos n), Nat.add_sub_cancel]
  have columns : (List.range v).mapM (fun j => isPivotColumn D j) = .ok ((List.range v).map test) :=
    mapM_ok fun c mem => (tests c (List.mem_range.mp mem)).1
  have freeVars : (List.range v).filter
      (fun j => !(((List.range v).map test).getD j (false, 0)).1) =
        (List.range v).filter fun d => !(test d).1 := by
    refine List.filter_congr fun c mem => ?_
    rw [List.getD_eq_getElem _ _ (by simpa using mem)]
    simp
  rw [someSolution, run, ok_bind, solvable, ok_bind]
  simp only [Bool.false_eq_true, if_false]
  rw [first, ok_bind]
  simp only [width]
  rw [columns, ok_bind, freeVars, List.mapM_map]
  refine mapM_ok fun c mem => ?_
  have lt := List.mem_range.mp mem
  unfold readOff
  simp only [Function.comp]
  by_cases pivot : (test c).1 = true
  · have inside := ((tests c lt).2.1.mp pivot).1
    have long := reduced.rect.row_length inside
    have terms : ((List.range v).filter fun d => !(test d).1).mapM (fun d => (do
        return (← pyIndex (rowAt D (test c).2) d).mul (.int 1) : Py (Number p))) =
          .ok (((List.range v).filter fun d => !(test d).1).map fun d =>
            ((rowAt D (test c).2).getD d (.int 0)).mul (.int 1)) := by
      refine mapM_ok fun d mem => ?_
      have hd := List.mem_range.mp (List.mem_of_mem_filter mem)
      rw [pyIndex_getD (by omega), ok_bind]
      rfl
    rw [if_pos pivot, if_pos pivot, pyIndex_row reduced.rect inside, ok_bind, long,
      Nat.add_sub_cancel, pyIndex_getD (by omega), ok_bind, terms, ok_bind]
    rfl
  · rw [if_neg pivot, if_neg pivot]
    rfl

/-- What is read off in a row of the field. -/
theorem readOff_fieldRow {test : ℕ → Bool × ℕ} (pivot : (test c).1 = true)
    (typed : FieldRow (rowAt D (test c).2)) :
    (readOff D v test c).Fieldlike ∧ (readOff D v test c).toField = entries D (test c).2 v -
      ∑ d ∈ Finset.range v with (test d).1 = false, entries D (test c).2 d := by
  have terms : ∀ x ∈ (((List.range v).filter fun d => !(test d).1).map fun d =>
      ((rowAt D (test c).2).getD d (.int 0)).mul (.int 1)), x.Fieldlike := by
    intro x mem
    obtain ⟨d, -, rfl⟩ := List.mem_map.mp mem
    exact (fieldlike_getD typed d).mul_one.1
  obtain ⟨typed', total⟩ := Number.sum_fieldlike terms
  obtain ⟨typed'', value⟩ := (fieldlike_getD typed v).sub typed'
  rw [readOff, if_pos pivot]
  refine ⟨typed'', ?_⟩
  rw [value, total, List.map_map, ← List.sum_toFinset _ (List.nodup_range.filter _),
    List.toFinset_filter, List.toFinset_range]
  refine congrArg (entries D (test c).2 v - ·) (Finset.sum_congr ?_ fun d _ => ?_)
  · exact Finset.filter_congr fun d _ => by rw [Bool.not_eq_true']
  · exact (fieldlike_getD typed d).mul_one.2

omit [Fact p.Prime] in
/-- What is read off in the row of floats. -/
theorem readOff_floats {test : ℕ → Bool × ℕ} (pivot : (test c).1 = true)
    (plain : rowAt D (test c).2 = plainRow (.float 0) (.float 1) e v) (here : (test e).1 = true) :
    readOff D v test c = .float 1 := by
  have terms : (((List.range v).filter fun d => !(test d).1).map fun d =>
      ((rowAt D (test c).2).getD d (.int 0)).mul (.int 1)) =
        List.replicate ((List.range v).filter fun d => !(test d).1).length (.float 0) := by
    rw [← List.map_const']
    refine List.map_congr_left fun d mem => ?_
    obtain ⟨inside, free⟩ := List.mem_filter.mp mem
    have hd := List.mem_range.mp inside
    have other : d ≠ e := fun same => by simp [same, here] at free
    rw [plain, getD_plainRow _ _ hd.le, if_neg (by omega)]
    simp [Number.mul, Number.toRat]
  rw [readOff, if_pos pivot, terms, plain, getD_plainRow _ _ le_rfl, if_pos (.inr rfl)]
  rcases Number.sum_float_zeros (p := p) ((List.range v).filter fun d => !(test d).1).length with
    total | total <;> simp [total, Number.sub, Number.toRat]

/-- **The values read off.** -/
theorem Reduced.reading (reduced : Reduced n e v M D i piv) (system : System n e v M)
    {test : ℕ → Bool × ℕ} (tests : Tests (n + 1) v D test) (consistent : ∀ r < i, piv r ≠ v) :
    Reading n e v M ((List.range v).map (readOff D v test)) := by
  have at_ : ∀ c < v, ((List.range v).map (readOff D v test)).getD c (.int 0) =
      readOff D v test c := by
    intro c lt
    rw [List.getD_eq_getElem _ _ (by simpa using lt)]
    simp
  obtain ⟨r, unit⟩ := reduced.unit system
  obtain ⟨pivot, row⟩ := tests.unit system.lt unit
  have free : ∀ d, (test d).1 = false → readOff D v test d = .int 1 := by
    intro d no
    rw [readOff, if_neg (by simp [no])]
  -- where the row of floats is, if there is one
  have special : ∀ c < v, (test c).1 = true → FieldRow (rowAt D (test c).2) ∨
      c = e ∧ rowAt D (test c).2 = plainRow (.float 0) (.float 1) e v ∧
        Dependent n e v (entries M) := by
    intro c lt yes
    have unit' := (tests c lt).2.1.mp yes
    cases reduced.typed with
    | fields all => exact .inl (all _)
    | waiting last others le same => exact absurd system.lt (by omega)
    | floats k before plain others passed dependent =>
        by_cases other : (test c).2 = k
        · have one := unit'.2.1
          rw [entries, other, plain, getD_plainRow _ _ lt.le] at one
          have here : c = e := by
            by_contra ne
            rw [if_neg (by omega)] at one
            simp at one
          exact .inr ⟨here, other ▸ plain, dependent⟩
        · exact .inl (others _ other)
  have value : ∀ c < v, ∀ r, UnitColumn (n + 1) (entries D) c r →
      (readOff D v test c).toField = entries D r v -
        ∑ d ∈ Finset.range v with (test d).1 = false,
          entries D r d * (readOff D v test d).toField := by
    intro c lt r unit'
    obtain ⟨pivot', row'⟩ := tests.unit lt unit'
    have ones : ∑ d ∈ Finset.range v with (test d).1 = false,
        entries D r d * (readOff D v test d).toField =
          ∑ d ∈ Finset.range v with (test d).1 = false, entries D r d := by
      refine Finset.sum_congr rfl fun d mem => ?_
      rw [free d (Finset.mem_filter.mp mem).2]
      simp
    rw [ones, ← row']
    rcases special c lt pivot' with typed | ⟨rfl, plain, -⟩
    · exact (readOff_fieldRow pivot' typed).2
    · rw [readOff_floats pivot' plain pivot']
      have zeros : ∀ d ∈ (Finset.range v).filter fun d => (test d).1 = false,
          entries D (test c).2 d = 0 := by
        intro d mem
        obtain ⟨inside, no⟩ := Finset.mem_filter.mp mem
        have hd := Finset.mem_range.mp inside
        have other : d ≠ c := fun same => by simp [same, pivot'] at no
        rw [entries, plain, getD_plainRow _ _ hd.le, if_neg (by omega)]
        simp
      rw [Finset.sum_eq_zero zeros, entries, plain, getD_plainRow _ _ le_rfl, if_pos (.inr rfl)]
      simp
  obtain ⟨u, solves, reads⟩ := reduced.echelon.reading consistent
    (w := fun c => (readOff D v test c).toField) (fun c => (test c).1 = false)
    (fun c lt => ⟨fun no ⟨r, unit'⟩ => (tests c lt).2.2 no r unit', fun none => by
      by_contra yes
      exact none ⟨_, (tests c lt).2.1.mp (by simpa using yes)⟩⟩) value
  have solves' := (reduced.same.solves u).mp solves
  refine ⟨by simp, ⟨u, solves', fun c lt => ?_⟩, ?_⟩
  · rw [at_ c lt]
    refine (reads c lt).imp id ?_
    rintro ⟨zero, t, ht, other, same, columns⟩
    exact ⟨zero, t, ht, other, same,
      (reduced.same.columns_eq (Nat.lt_succ_of_lt lt) (Nat.lt_succ_of_lt ht)).mp columns⟩
  · rw [at_ e system.lt]
    rcases special e system.lt pivot with typed | ⟨-, plain, dependent⟩
    · have one : (readOff D v test e).toField = 1 := by
        rw [← system.one solves']
        exact ((reads e system.lt).resolve_right fun bad => by
          rw [system.one solves'] at bad
          exact one_ne_zero bad.1).symm
      have := (readOff_fieldRow (v := v) pivot typed).1.eq_mod (by rw [one]; exact one_ne_zero)
      exact .inl (one ▸ this)
    · exact .inr ⟨readOff_floats pivot plain pivot, dependent⟩

/-- A comprehension where some call raises, and no call raises anything else. -/
theorem mapM_raises {α β : Type} {f : α → Py β} {error : PyError} {xs : List α}
    (each : ∀ x ∈ xs, f x = .error error ∨ ∃ y, f x = .ok y) (some : ∃ x ∈ xs, f x = .error error) :
    xs.mapM f = .error error := by
  induction xs with
  | nil => simp at some
  | cons x xs ih =>
      rw [List.mapM_cons]
      rcases each x List.mem_cons_self with raises | ⟨y, returns⟩
      · rw [raises, error_bind]
      · have later : ∃ x ∈ xs, f x = .error error := by
          obtain ⟨z, mem, raises⟩ := some
          rcases List.mem_cons.mp mem with rfl | mem
          · rw [returns] at raises
            cases raises
          · exact ⟨z, mem, raises⟩
        rw [returns, ok_bind, ih (fun z mem => each z (List.mem_cons_of_mem x mem)) later, error_bind]

/-- **The outcomes of the solver**: it says that there is no solution; or it raises on a variable
that no row mentions; or it reads a solution off. -/
theorem someSolution_outcome (system : System n e v M) :
    ((∀ x, ¬ Solves (n + 1) v (entries M) x) ∧
        someSolution M (.int 1) = .error (exception "No solution")) ∨
      ((∃ c < v, ∀ r < n + 1, entries M r c = 0) ∧ someSolution M (.int 1) = .error .indexError) ∨
      (∀ c < v, ∃ r < n + 1, entries M r c ≠ 0) ∧
        ∃ solution, someSolution M (.int 1) = .ok solution ∧ Reading n e v M solution := by
  obtain ⟨D, i, piv, run, reduced⟩ := rref_spec system
  rcases reduced.noSolution_spec system with ⟨l, none, unsolvable⟩ | ⟨l, found, consistent⟩
  · refine .inl ⟨unsolvable, ?_⟩
    rw [someSolution, run, ok_bind, none, ok_bind]
    rfl
  · right
    have zero_iff : ∀ c < v, (∀ r < n + 1, entries D r c = 0) ↔ ∀ r < n + 1, entries M r c = 0 :=
      fun c lt => reduced.same.column_zero (Nat.lt_succ_of_lt lt)
    have each := fun c (lt : c < v) =>
      isPivotColumn_spec reduced.rect reduced.sound (Nat.lt_succ_of_lt lt)
    by_cases zero : ∃ c < v, ∀ r < n + 1, entries M r c = 0
    · refine .inl ⟨zero, ?_⟩
      have raises : (List.range v).mapM (fun j => isPivotColumn D j) = .error .indexError := by
        refine mapM_raises (fun c mem => ?_) ?_
        · rcases each c (List.mem_range.mp mem) with ⟨-, raises⟩ | ⟨-, b, r, returns, -⟩
          · exact .inl raises
          · exact .inr ⟨_, returns⟩
        · obtain ⟨c, lt, column⟩ := zero
          rcases each c lt with ⟨-, raises⟩ | ⟨⟨r, hr, ne⟩, -⟩
          · exact ⟨c, List.mem_range.mpr lt, raises⟩
          · exact absurd ((zero_iff c lt).mpr column r hr) ne
      have first : pyIndex D 0 = .ok (rowAt D 0) := pyIndex_row reduced.rect (Nat.succ_pos n)
      have width : (rowAt D 0).length - 1 = v := by
        rw [reduced.rect.row_length (Nat.succ_pos n), Nat.add_sub_cancel]
      rw [someSolution, run, ok_bind, found, ok_bind]
      simp only [Bool.false_eq_true, if_false]
      rw [first, ok_bind, width, raises, error_bind]
    · push Not at zero
      have tested : ∀ c, ∃ test : Bool × ℕ, c < v → isPivotColumn D c = .ok test ∧
          (test.1 = true ↔ UnitColumn (n + 1) (entries D) c test.2) ∧
          (test.1 = false → ∀ r, ¬ UnitColumn (n + 1) (entries D) c r) := by
        intro c
        by_cases lt : c < v
        · rcases each c lt with ⟨column, -⟩ | ⟨-, b, r, returns, pivot, free⟩
          · obtain ⟨r, hr, ne⟩ := zero c lt
            exact absurd ((zero_iff c lt).mp column r hr) ne
          · exact ⟨(b, r), fun _ => ⟨returns, pivot, free⟩⟩
        · exact ⟨(false, 0), fun inside => absurd inside lt⟩
      choose test tests using tested
      exact .inr ⟨zero, _, someSolution_ok reduced tests run found,
        reduced.reading system tests consistent⟩

end Solver

end Prism.Crypto
