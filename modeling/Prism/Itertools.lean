import Mathlib.Data.List.Sublists
import Prism.Python

/-!
Ranges and combinations (`range` and `itertools.combinations` of the Python library).

* `mem_combinations`: the combinations are the sublists of a length.
-/

namespace Prism

/-- `range(start, stop)`. -/
def pyRange (start stop : ℤ) : List ℤ :=
  (List.range (stop - start).toNat).map fun (k : ℕ) => start + k

/-- `itertools.combinations(xs, r)`. -/
def combinations {α : Type} (xs : List α) (r : ℤ) : Py (List (List α)) :=
  if 0 ≤ r then .ok (List.sublistsLen r.toNat xs).reverse
  else .error (.valueError "r must be non-negative")

theorem mem_pyRange {start stop n : ℤ} : n ∈ pyRange start stop ↔ start ≤ n ∧ n < stop := by
  simp only [pyRange, List.mem_map, List.mem_range]
  constructor
  · rintro ⟨k, lt, rfl⟩
    omega
  · rintro ⟨low, high⟩
    exact ⟨(n - start).toNat, by omega, by omega⟩

/-- **The combinations are the sublists** of the length. -/
theorem mem_combinations {α : Type} {xs : List α} {r : ℤ} {combos : List (List α)}
    (run : combinations xs r = .ok combos) {combo : List α} :
    combo ∈ combos ↔ combo.Sublist xs ∧ (combo.length : ℤ) = r := by
  unfold combinations at run
  split_ifs at run with nonneg
  obtain rfl := Except.ok.inj run
  rw [List.mem_reverse, List.mem_sublistsLen]
  constructor
  · rintro ⟨sub, length⟩
    exact ⟨sub, by omega⟩
  · rintro ⟨sub, length⟩
    exact ⟨sub, by omega⟩

/-- So many combinations there are. -/
theorem length_combinations {α : Type} {xs : List α} {r : ℤ} {combos : List (List α)}
    (run : combinations xs r = .ok combos) : combos.length = xs.length.choose r.toNat := by
  unfold combinations at run
  split_ifs at run with nonneg
  rw [← Except.ok.inj run, List.length_reverse, List.length_sublistsLen]

end Prism
