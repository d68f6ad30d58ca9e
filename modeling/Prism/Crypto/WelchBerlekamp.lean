import Prism.Crypto.LinearSolver
import Prism.Crypto.Polynomials
import Prism.Lib.KeyEquation

/-!
The Reed-Solomon encoder and decoder
(`prism/common/crypto/secretsharing/berlekampwelch/welchberlekamp.py`).

The decoder looks for a monic polynomial `E` and a polynomial `Q` that solve the key equation, for
the largest number of errors first, and divides. A system where some variable occurs in no equation
is not solved: an `IndexError` is raised (`ZeroColumn`).

* `system_solves`: the linear system says the key equation.
* `solveRound_spec`: what one number of errors gives.
* `solveSystem_spec`: the decoder is exact within its number of errors.
-/

namespace Prism.Crypto

open Polynomial Lib

variable {p : ℕ}

/-- What `makeEncoderDecoder` checks. -/
structure EncoderDecoder (p : ℕ) where
  n : ℕ
  k : ℤ
  le : k ≤ n
  le_modulus : n ≤ p

/-- `makeEncoderDecoder`. -/
def makeEncoderDecoder (n : ℕ) (k : ℤ) (p : ℕ) : Py (EncoderDecoder p) :=
  if h : k ≤ n ∧ n ≤ p then .ok ⟨n, k, h.1, h.2⟩
  else .error (exception s!"Must have k <= n <= p but instead had (n,k,p) == ({n}, {k}, {p})")

/-- A point and the value there. -/
abbrev Codeword (p : ℕ) := List (ZMod p × ZMod p)

/-- `QNumVars`. -/
def qNumVars (k : ℤ) (e : ℕ) : ℕ := (e + k).toNat

/-- `row`. -/
def row (k : ℤ) (e : ℕ) (a b : ZMod p) : List (Number p) :=
  ((List.range (e + 1)).map fun j => .mod (b * pow a j)) ++
    ((List.range (qNumVars k e)).map fun j => (Number.int (-1)).mul (.mod (pow a j))) ++ [.int 0]

/-- The system for `e` errors. Its last row sets the coefficient of `x^e` in `E(x)` to 1. -/
def system (k : ℤ) (e : ℕ) (encodedMessage : Codeword p) : Rows p :=
  (encodedMessage.map fun (a, b) => row k e a b) ++
    [List.replicate e (.int 0) ++ [.int 1] ++ List.replicate (qNumVars k e) (.int 0) ++ [.int 1]]

/-- A round of the loop of `solveSystem`: the quotient and the remainder. A solution has more than
`e` entries. -/
def solveRound (k : ℤ) (e : ℕ) (encodedMessage : Codeword p) : Py (Poly p × Poly p) := do
  let solution ← someSolution (system k e encodedMessage) (.int 1)
  let E := Poly.ofList (solution.take (e + 1))
  let Q := Poly.ofList (solution.drop (e + 1))
  Q.divmod E

/-- The loop of `solveSystem`, for less than so many errors. -/
def solveLoop (k : ℤ) (encodedMessage : Codeword p) : ℕ → Py (Poly p)
  | 0 => .error (exception "found no divisors!")
  | e + 1 => do
    let (P, remainder) ← solveRound k e encodedMessage
    if remainder.isZero then return P else solveLoop k encodedMessage e

namespace EncoderDecoder

variable (code : EncoderDecoder p)

/-- `maxE`. -/
def maxE : ℕ := ((code.n - code.k) / 2).toNat

/-- `encode`. -/
def encode (message : List ℤ) : Py (Codeword p) :=
  if message.all (· < p) then
    let thePoly : Poly p := Poly.ofList (message.map .int)
    .ok ((List.range code.n).map fun i => (((i + 1 : ℕ) : ZMod p), thePoly.evaluateAt (i + 1 : ℕ)))
  else .error (exception s!"Message is improperly encoded as integers < p. It was:\n{message}")

/-- `solveSystem`. -/
def solveSystem (encodedMessage : Codeword p) : Py (Poly p) :=
  solveLoop code.k encodedMessage (code.maxE + 1)

/-- `decode`. -/
def decode (encodedMessage : Codeword p) : Py (List (Number p)) := do
  return (← code.solveSystem encodedMessage).coefficients

end EncoderDecoder

/-- A variable that occurs in no equation. -/
def ZeroColumn (e : ℕ) (encodedMessage : Codeword p) : Prop :=
  ∃ j < e, ∀ x ∈ encodedMessage, x.2 * x.1 ^ j = 0

instance (e : ℕ) (encodedMessage : Codeword p) : Decidable (ZeroColumn e encodedMessage) := by
  unfold ZeroColumn; infer_instance

/-- The point and the value at a place. -/
def pointAt (encodedMessage : Codeword p) (i : ℕ) : ZMod p := (encodedMessage.getD i (0, 0)).1

def valueAt (encodedMessage : Codeword p) (i : ℕ) : ZMod p := (encodedMessage.getD i (0, 0)).2

/-! ### The system -/

section Rows

variable {k : ℤ} {e c r : ℕ} {encodedMessage : Codeword p}

theorem length_row (a b : ZMod p) : (row k e a b).length = e + 1 + qNumVars k e + 1 := by
  simp [row, add_assoc]

theorem row_first [Fact p.Prime] (a b : ZMod p) (le : c ≤ e) :
    (row k e a b).getD c (.int 0) = .mod (b * a ^ c) := by
  rw [row, List.append_assoc, List.getD_append _ _ _ _ (by simp; omega),
    List.getD_eq_getElem _ _ (by simp; omega)]
  simp [pow_eq]

theorem row_second [Fact p.Prime] (a b : ZMod p) (lt : c < qNumVars k e) :
    (row k e a b).getD (e + 1 + c) (.int 0) = .mod (- a ^ c) := by
  rw [row, List.append_assoc, List.getD_append_right _ _ _ _ (by simp), List.length_map,
    List.length_range, Nat.add_sub_cancel_left, List.getD_append _ _ _ _ (by simpa using lt),
    List.getD_eq_getElem _ _ (by simpa using lt)]
  simp [pow_eq, Number.mul]

theorem row_last (a b : ZMod p) : (row k e a b).getD (e + 1 + qNumVars k e) (.int 0) = .int 0 := by
  rw [row, List.getD_append_right _ _ _ _ (by simp)]
  simp

theorem fieldRow_row (a b : ZMod p) : FieldRow (row k e a b) := by
  intro x mem
  simp only [row, List.mem_append, List.mem_map, List.mem_range, List.mem_singleton] at mem
  rcases mem with (⟨j, -, rfl⟩ | ⟨j, -, rfl⟩) | rfl
  · exact Number.fieldlike_mod _
  · exact Number.mul_mod (.int (-1)) (pow a j) ▸ Number.fieldlike_mod _
  · exact Number.fieldlike_zero

theorem rowAt_system (lt : r < encodedMessage.length) :
    rowAt (system k e encodedMessage) r =
      row k e (pointAt encodedMessage r) (valueAt encodedMessage r) := by
  rw [rowAt, system, List.getD_append _ _ _ _ (by simpa using lt),
    List.getD_eq_getElem _ _ (by simpa using lt), List.getElem_map, pointAt, valueAt,
    List.getD_eq_getElem _ _ lt]

/-- The last row. -/
theorem lastRow_eq (e q : ℕ) :
    List.replicate e (.int 0) ++ [.int 1] ++ List.replicate q (.int 0) ++ [.int 1] =
      (plainRow (.int 0) (.int 1) e (e + 1 + q) : List (Number p)) := by
  have before : (List.range e).map (fun c => if c = e ∨ c = e + 1 + q then (.int 1 : Number p)
      else .int 0) = List.replicate e (.int 0) := by
    rw [List.eq_replicate_iff]
    refine ⟨by simp, fun x mem => ?_⟩
    obtain ⟨c, inside, rfl⟩ := List.mem_map.mp mem
    have := List.mem_range.mp inside
    exact if_neg (by omega)
  have between : (List.range q).map (fun c => if e + 1 + c = e ∨ e + 1 + c = e + 1 + q then
      (.int 1 : Number p) else .int 0) = List.replicate q (.int 0) := by
    rw [List.eq_replicate_iff]
    refine ⟨by simp, fun x mem => ?_⟩
    obtain ⟨c, inside, rfl⟩ := List.mem_map.mp mem
    have := List.mem_range.mp inside
    exact if_neg (by omega)
  rw [plainRow, List.range_succ, List.range_add, List.range_succ (n := e)]
  simp only [List.map_append, List.map_map, List.map_cons, List.map_nil, Function.comp_def, before,
    between]
  simp

/-- **The system** is one that the solver can deal with. -/
theorem system_spec (k : ℤ) (e : ℕ) (encodedMessage : Codeword p) :
    System encodedMessage.length e (e + 1 + qNumVars k e) (system k e encodedMessage) where
  rect := by
    refine ⟨by simp [system], fun x mem => ?_⟩
    rcases List.mem_append.mp mem with equation | last
    · obtain ⟨ab, -, rfl⟩ := List.mem_map.mp equation
      exact length_row ab.1 ab.2
    · rw [List.mem_singleton.mp last, lastRow_eq]
      simp [plainRow]
  lt := by omega
  rows r other := by
    rcases lt_or_gt_of_ne other with inside | beyond
    · rw [rowAt_system inside]
      exact fieldRow_row _ _
    · rw [rowAt, List.getD_eq_default _ _ (by simpa [system] using beyond)]
      exact fieldRow_nil
  last := by
    rw [rowAt, system, List.getD_append_right _ _ _ _ (by simp), ← lastRow_eq]
    simp

end Rows

/-! ### The key equation -/

/-- The polynomial `E` of a vector. -/
noncomputable def locator (e : ℕ) (u : ℕ → ZMod p) : (ZMod p)[X] :=
  ofCoeffs ((List.range (e + 1)).map u)

/-- The polynomial `Q` of a vector, with `d` coefficients. -/
noncomputable def numerator (d e : ℕ) (u : ℕ → ZMod p) : (ZMod p)[X] :=
  ofCoeffs ((List.range d).map fun j => u (e + 1 + j))

section Equations

variable [Fact p.Prime] {k : ℤ} {e c r : ℕ} {encodedMessage : Codeword p} {u : ℕ → ZMod p}

theorem entries_first (lt : r < encodedMessage.length) (le : c ≤ e) :
    entries (system k e encodedMessage) r c =
      valueAt encodedMessage r * pointAt encodedMessage r ^ c := by
  rw [entries, rowAt_system lt, row_first _ _ le, Number.toField_mod]

theorem entries_second (lt : r < encodedMessage.length) (inside : c < qNumVars k e) :
    entries (system k e encodedMessage) r (e + 1 + c) = - pointAt encodedMessage r ^ c := by
  rw [entries, rowAt_system lt, row_second _ _ inside, Number.toField_mod]

/-- An equation of the system. -/
theorem sum_entries (lt : r < encodedMessage.length) (u : ℕ → ZMod p) :
    ∑ c ∈ Finset.range (e + 1 + qNumVars k e), entries (system k e encodedMessage) r c * u c =
      valueAt encodedMessage r * (locator e u).eval (pointAt encodedMessage r) -
        (numerator (qNumVars k e) e u).eval (pointAt encodedMessage r) := by
  rw [Finset.sum_range_add, locator, numerator, eval_ofCoeffs_range, eval_ofCoeffs_range,
    Finset.mul_sum, sub_eq_add_neg, ← Finset.sum_neg_distrib]
  refine congrArg₂ (· + ·) (Finset.sum_congr rfl fun c mem => ?_)
    (Finset.sum_congr rfl fun c mem => ?_)
  · rw [entries_first lt (Nat.lt_succ_iff.mp (Finset.mem_range.mp mem))]
    ring
  · rw [entries_second lt (Finset.mem_range.mp mem)]
    ring

/-- **The system says the key equation**, for a monic `E`. -/
theorem system_solves : Solves (encodedMessage.length + 1) (e + 1 + qNumVars k e)
      (entries (system k e encodedMessage)) u ↔
    u e = 1 ∧ KeyEquation encodedMessage.length (pointAt encodedMessage) (valueAt encodedMessage)
      (locator e u) (numerator (qNumVars k e) e u) := by
  have spec := system_spec k e encodedMessage
  have constants : ∀ r < encodedMessage.length,
      entries (system k e encodedMessage) r (e + 1 + qNumVars k e) = 0 := by
    intro r lt
    rw [entries, rowAt_system lt, row_last]
    simp
  constructor
  · refine fun solves => ⟨spec.one solves, fun r lt => ?_⟩
    have equation := solves r (by omega)
    rwa [sum_entries lt, constants r lt, sub_eq_zero] at equation
  · rintro ⟨one, key⟩ r lt
    rcases Nat.lt_succ_iff_lt_or_eq.mp lt with inside | rfl
    · rw [sum_entries inside, constants r inside, key r inside, sub_self]
    · rw [spec.entries_last le_rfl, if_pos (.inr rfl), Finset.sum_eq_single e]
      · rw [spec.entries_last spec.lt.le, if_pos (.inl rfl), one, one_mul]
      · intro c mem other
        have inside := Finset.mem_range.mp mem
        rw [spec.entries_last inside.le, if_neg (by omega), zero_mul]
      · exact fun absent => absurd (Finset.mem_range.mpr spec.lt) absent

theorem coeff_locator {j : ℕ} (le : j ≤ e) : (locator e u).coeff j = u j :=
  coeff_ofCoeffs_range u (Nat.lt_succ_of_le le)

theorem coeff_numerator {d j : ℕ} (lt : j < d) : (numerator d e u).coeff j = u (e + 1 + j) :=
  coeff_ofCoeffs_range (fun j => u (e + 1 + j)) lt

theorem degree_numerator (d e : ℕ) (u : ℕ → ZMod p) : (numerator d e u).degree < d := by
  simpa [numerator] using degree_ofCoeffs_lt ((List.range d).map fun j => u (e + 1 + j))

omit [Fact p.Prime] in
theorem degree_locator (e : ℕ) (u : ℕ → ZMod p) : (locator e u).degree ≤ e := by
  rw [degree_le_iff_coeff_zero]
  intro i lt
  have beyond : e < i := by exact_mod_cast lt
  rw [locator, coeff_ofCoeffs]
  exact List.getD_eq_default _ _ (by simpa using beyond)

theorem locator_ne_zero (one : u e = 1) : locator e u ≠ 0 := by
  intro zero
  have top := coeff_locator (u := u) (le_refl e)
  rw [zero, coeff_zero, one] at top
  exact zero_ne_one top

theorem monic_locator (one : u e = 1) : (locator e u).Monic :=
  monic_of_degree_le e (degree_locator e u) (by rw [coeff_locator le_rfl, one])

theorem natDegree_locator (one : u e = 1) : (locator e u).natDegree = e :=
  natDegree_eq_of_le_of_coeff_ne_zero (natDegree_le_of_degree_le (degree_locator e u))
    (by rw [coeff_locator le_rfl, one]; exact one_ne_zero)

/-- Every pair of polynomials of these degrees comes from a vector. -/
theorem exists_vector {d : ℕ} {E Q : (ZMod p)[X]} (monic : E.Monic) (degE : E.natDegree = e)
    (degQ : Q.degree < d) : ∃ u : ℕ → ZMod p, u e = 1 ∧ locator e u = E ∧ numerator d e u = Q := by
  refine ⟨fun c => if c ≤ e then E.coeff c else Q.coeff (c - (e + 1)), ?_, ?_, ?_⟩
  · simp only [le_refl, if_true]
    rw [← degE]
    exact monic
  · have small : E.degree < ((e + 1 : ℕ) : WithBot ℕ) := by
      rw [degree_eq_natDegree monic.ne_zero, degE]
      exact_mod_cast Nat.lt_succ_self e
    rw [locator, ← ofCoeffs_coeff small]
    refine congrArg ofCoeffs (List.map_congr_left fun c mem => ?_)
    rw [ofCoeffs_coeff small, if_pos (Nat.lt_succ_iff.mp (List.mem_range.mp mem))]
  · rw [numerator, ← ofCoeffs_coeff degQ]
    refine congrArg ofCoeffs (List.map_congr_left fun c mem => ?_)
    rw [ofCoeffs_coeff degQ, if_neg (by omega), Nat.add_sub_cancel_left]

/-- **A column that repeats another one**: the other one's variable is zero as well, or `Q` is. -/
theorem repeated_column {t : ℕ}
    (inj : Set.InjOn (pointAt encodedMessage) (Finset.range encodedMessage.length))
    (room : 0 < qNumVars k e → qNumVars k e + e ≤ encodedMessage.length)
    (key : KeyEquation encodedMessage.length (pointAt encodedMessage) (valueAt encodedMessage)
      (locator e u) (numerator (qNumVars k e) e u)) (hc : c < e + 1 + qNumVars k e)
    (ht : t < e + 1 + qNumVars k e) (other : t ≠ c) (zero : u c = 0)
    (columns : ∀ r < encodedMessage.length + 1, entries (system k e encodedMessage) r c =
      entries (system k e encodedMessage) r t) :
    u t = 0 ∨ c ≤ e ∧ numerator (qNumVars k e) e u = 0 := by
  have degE := degree_locator e u
  have degQ := degree_numerator (qNumVars k e) e u
  rcases Nat.lt_or_ge e c with second | first
  · obtain ⟨c, rfl⟩ := Nat.exists_eq_add_of_lt second
    have inside : c < qNumVars k e := by omega
    rw [show e + c + 1 = e + 1 + c by omega] at columns zero
    left
    rcases Nat.lt_or_ge e t with second' | first'
    · obtain ⟨t, rfl⟩ := Nat.exists_eq_add_of_lt second'
      have inside' : t < qNumVars k e := by omega
      have enough := room (by omega)
      rw [show e + t + 1 = e + 1 + t by omega] at columns
      have powers : ∀ r < encodedMessage.length,
          pointAt encodedMessage r ^ c = pointAt encodedMessage r ^ t := by
        intro r lt
        have same := columns r (by omega)
        rw [entries_second lt inside, entries_second lt inside'] at same
        exact neg_injective same
      rcases lt_trichotomy c t with before | rfl | after
      · obtain ⟨r, lt, differ⟩ := powers_differ inj before (by omega)
        exact absurd (powers r lt).symm differ
      · exact absurd rfl other
      · obtain ⟨r, lt, differ⟩ := powers_differ inj after (by omega)
        exact absurd (powers r lt) differ
    · have cross := key.cross inj room degE degQ first' inside fun r lt => by
        rw [← entries_first lt first', ← columns r (by omega), entries_second lt inside]
      rw [coeff_locator first', coeff_numerator inside, zero, zero_eq_neg] at cross
      exact cross
  · rcases Nat.lt_or_ge e t with second' | first'
    · obtain ⟨t, rfl⟩ := Nat.exists_eq_add_of_lt second'
      have inside' : t < qNumVars k e := by omega
      rw [show e + t + 1 = e + 1 + t by omega] at columns ⊢
      have cross := key.cross inj room degE degQ first inside' fun r lt => by
        rw [← entries_first lt first, columns r (by omega), entries_second lt inside']
      rw [coeff_locator first, coeff_numerator inside', zero, neg_zero] at cross
      exact .inl cross
    · right
      refine ⟨first, ?_⟩
      have powers : ∀ r < encodedMessage.length,
          valueAt encodedMessage r * pointAt encodedMessage r ^ c =
            valueAt encodedMessage r * pointAt encodedMessage r ^ t := by
        intro r lt
        rw [← entries_first lt first, columns r (by omega), entries_first lt first']
      rcases lt_or_gt_of_ne other with before | after
      · exact key.twins inj room degE degQ before first powers
      · exact key.twins inj room degE degQ after first' fun r lt => (powers r lt).symm

/-- **What is read off**: `Q` is right, and `E` is unless `Q` is zero. -/
theorem Reading.polynomials {solution : List (Number p)}
    (inj : Set.InjOn (pointAt encodedMessage) (Finset.range encodedMessage.length))
    (room : 0 < qNumVars k e → qNumVars k e + e ≤ encodedMessage.length)
    (reading : Reading encodedMessage.length e (e + 1 + qNumVars k e) (system k e encodedMessage)
      solution) :
    ∃ E Q : (ZMod p)[X], E.Monic ∧ E.natDegree = e ∧ Q.degree < qNumVars k e ∧
      KeyEquation encodedMessage.length (pointAt encodedMessage) (valueAt encodedMessage) E Q ∧
      ofCoeffs (values (solution.drop (e + 1))) = Q ∧
      (ofCoeffs (values (solution.take (e + 1))) = E ∨ Q = 0) := by
  obtain ⟨u, solves, reads⟩ := reading.reads
  obtain ⟨one, key⟩ := system_solves.mp solves
  have length := reading.length
  have lists : ∀ c < e + 1 + qNumVars k e, u c = (solution.getD c (.int 0)).toField ∨
      c ≤ e ∧ numerator (qNumVars k e) e u = 0 := by
    intro c hc
    rcases reads c hc with same | ⟨zero, t, ht, other, value, columns⟩
    · exact .inl same
    · refine (repeated_column inj room key hc ht other zero columns).imp_left fun none => ?_
      rw [zero, ← value, none]
  have second : values (solution.drop (e + 1)) =
      (List.range (qNumVars k e)).map fun j => u (e + 1 + j) := by
    refine List.ext_getElem (by simp [length]) fun j hj hj' => ?_
    have inside : j < qNumVars k e := by simpa using hj'
    rcases lists (e + 1 + j) (by omega) with same | ⟨first, -⟩
    · rw [List.getD_eq_getElem _ _ (by omega)] at same
      simp [values, same]
    · omega
  refine ⟨locator e u, numerator (qNumVars k e) e u, monic_locator one, natDegree_locator one,
    degree_numerator _ e u, key, by rw [second, numerator], ?_⟩
  by_cases zero : numerator (qNumVars k e) e u = 0
  · exact .inr zero
  · left
    rw [locator]
    refine congrArg ofCoeffs (List.ext_getElem (by simp [length]) fun c hc hc' => ?_)
    have inside : c < e + 1 := by simpa using hc'
    have same := (lists c (by omega)).resolve_right fun bad => zero bad.2
    rw [List.getD_eq_getElem _ _ (by omega)] at same
    simp [values, same]

/-- Columns that depend on each other: the key equation says nothing about `Q`. -/
theorem dependent_key (dependent : Dependent encodedMessage.length e (e + 1 + qNumVars k e)
      (entries (system k e encodedMessage))) :
    ∃ F : (ZMod p)[X], F ≠ 0 ∧ F.degree ≤ e ∧
      KeyEquation encodedMessage.length (pointAt encodedMessage) (valueAt encodedMessage) F 0 := by
  obtain ⟨x, one, beyond, zero⟩ := dependent
  refine ⟨locator e x, locator_ne_zero one, degree_locator e x, fun r lt => ?_⟩
  have equation := zero r lt
  have nothing : numerator (qNumVars k e) e x = 0 := by
    ext j
    rcases lt_or_ge j (qNumVars k e) with inside | outside
    · rw [coeff_numerator inside, beyond _ (by omega), coeff_zero]
    · rw [coeff_zero]
      exact coeff_eq_zero_of_degree_lt
        ((degree_numerator _ e x).trans_le (by exact_mod_cast outside))
  rw [Finset.sum_range_succ, beyond _ (by omega), mul_zero, add_zero, sum_entries lt, nothing,
    eval_zero, sub_zero] at equation
  rw [equation, eval_zero]

/-- A variable that the solver has no equation for. -/
theorem zeroColumn_iff
    (inj : Set.InjOn (pointAt encodedMessage) (Finset.range encodedMessage.length))
    (room : 0 < qNumVars k e → qNumVars k e + e ≤ encodedMessage.length) :
    (∃ c < e + 1 + qNumVars k e, ∀ r < encodedMessage.length + 1,
      entries (system k e encodedMessage) r c = 0) ↔ ZeroColumn e encodedMessage := by
  have spec := system_spec k e encodedMessage
  constructor
  · rintro ⟨c, hc, zero⟩
    have last := zero encodedMessage.length (by omega)
    rw [spec.entries_last hc.le] at last
    have other : c ≠ e := fun same => by simp [same] at last
    rcases lt_or_gt_of_ne other with first | second
    · refine ⟨c, first, fun x mem => ?_⟩
      obtain ⟨r, lt, rfl⟩ := List.mem_iff_getElem.mp mem
      have column := zero r (by omega)
      rw [entries_first lt first.le, valueAt, pointAt, List.getD_eq_getElem _ _ lt] at column
      exact column
    · obtain ⟨c, rfl⟩ := Nat.exists_eq_add_of_lt second
      have inside : c < qNumVars k e := by omega
      have enough := room (by omega)
      rw [show e + c + 1 = e + 1 + c by omega] at zero
      have powers : ∀ r < encodedMessage.length, pointAt encodedMessage r ^ c = 0 := by
        intro r lt
        have column := zero r (by omega)
        rw [entries_second lt inside] at column
        exact neg_eq_zero.mp column
      have one_place := powers 0 (by omega)
      have positive : c ≠ 0 := fun none => by simp [none] at one_place
      have same : pointAt encodedMessage 0 = pointAt encodedMessage 1 := by
        rw [eq_zero_of_pow_eq_zero one_place, eq_zero_of_pow_eq_zero (powers 1 (by omega))]
      have := inj (by simp; omega) (by simp; omega) same
      omega
  · rintro ⟨c, lt, zero⟩
    refine ⟨c, by omega, fun r hr => ?_⟩
    rcases Nat.lt_succ_iff_lt_or_eq.mp hr with inside | rfl
    · rw [entries_first inside lt.le, valueAt, pointAt, List.getD_eq_getElem _ _ inside]
      exact zero _ (List.getElem_mem inside)
    · rw [spec.entries_last (by omega), if_neg (by omega)]

/-- `P` is a polynomial that the message can be a corrupted one of. -/
def Explains (k : ℤ) (e : ℕ) (encodedMessage : Codeword p) (P : (ZMod p)[X]) : Prop :=
  Fits (qNumVars k e) e P ∧
    (wrongPlaces encodedMessage.length (pointAt encodedMessage) (valueAt encodedMessage) P).card ≤ e

/-- The list with the leading coefficient of `E` at its end. -/
theorem leadingCoefficient_take {solution : List (Number p)} {c : Number p}
    (long : e < solution.length) (last : solution.getD e (.int 0) = c) (ne : c.toField ≠ 0) :
    (Poly.ofList (solution.take (e + 1))).leadingCoefficient = .ok c := by
  have split : solution.take (e + 1) = solution.take e ++ [c] := by
    rw [List.take_succ_eq_append_getElem long, ← last, List.getD_eq_getElem _ _ long]
  have kept : strip (solution.take e ++ [c]) = solution.take e ++ [c] := by
    rw [strip, List.rdropWhile_concat_neg _ _ _ (by simpa using ne)]
  simp [Poly.leadingCoefficient, Poly.ofList, split, kept]

/-- **The division**: it gives the polynomial that explains the message, if there is one. -/
theorem divmod_reading {solution : List (Number p)}
    (inj : Set.InjOn (pointAt encodedMessage) (Finset.range encodedMessage.length))
    (room : 0 < qNumVars k e → qNumVars k e + e ≤ encodedMessage.length)
    (reading : Reading encodedMessage.length e (e + 1 + qNumVars k e) (system k e encodedMessage)
      solution) :
    ∃ f r, (Poly.ofList (solution.drop (e + 1))).divmod (Poly.ofList (solution.take (e + 1))) =
        .ok (f, r) ∧ InField f.coefficients ∧
      (r.isZero = true → Explains k e encodedMessage f.toPoly) ∧
      ∀ P, Explains k e encodedMessage P → r.isZero = true ∧ f.toPoly = P := by
  obtain ⟨E, Q, monic, natDegE, degQ, key, second, first⟩ := reading.polynomials inj room
  have degree : E.degree = e := by rw [degree_eq_natDegree monic.ne_zero, natDegE]
  have degE : E.degree ≤ e := degree.le
  have long : e < solution.length := by
    rw [reading.length]
    omega
  -- the polynomial that is meant by `E` in the division
  have product : ∀ P, Explains k e encodedMessage P →
      Q = P * ofCoeffs (values (solution.take (e + 1))) := by
    rintro P ⟨fits, close⟩
    have quotient := key.quotient inj room degE degQ fits close
    rcases first with same | zero
    · rw [same, quotient]
    · rw [zero] at quotient
      rw [zero, (mul_eq_zero.mp quotient.symm).resolve_right monic.ne_zero, zero_mul]
  have sound : ∀ P, Q = P * ofCoeffs (values (solution.take (e + 1))) →
      ofCoeffs (values (solution.take (e + 1))) ≠ 0 → Explains k e encodedMessage P := by
    intro P quotient ne
    have same : Q = P * E := by
      rcases first with same | zero
      · rw [quotient, same]
      · rw [zero] at quotient ⊢
        rw [(mul_eq_zero.mp quotient.symm).resolve_right ne, zero_mul]
    refine ⟨?_, KeyEquation.close inj (same ▸ key) monic.ne_zero degE⟩
    rwa [Fits, ← degree, ← degree_mul, ← same]
  rcases reading.leading with mod | ⟨float, dependent⟩
  · have leading := leadingCoefficient_take long mod (by simp)
    obtain ⟨f, r, run, typed, small, total⟩ :=
      (Poly.ofList (solution.drop (e + 1))).divmod_spec leading one_ne_zero
    rw [Poly.toPoly_ofList, Poly.toPoly_ofList, second] at total
    rw [Poly.toPoly_ofList] at small
    have ne : ofCoeffs (values (solution.take (e + 1))) ≠ 0 := by
      intro zero
      rw [zero, degree_zero] at small
      exact not_lt_bot small
    refine ⟨f, r, run, typed, fun none => ?_, fun P explains => ?_⟩
    · rw [Poly.isZero_iff.mp none, add_zero] at total
      exact sound _ total.symm ne
    · rw [product P explains] at total
      have rest : r.toPoly = (P - f.toPoly) * ofCoeffs (values (solution.take (e + 1))) := by
        rw [sub_mul, ← total]
        ring
      have none := eq_zero_of_dvd_of_degree_lt (Dvd.intro_left _ rest.symm) small
      rw [none] at rest
      exact ⟨Poly.isZero_iff.mpr none,
        (sub_eq_zero.mp ((mul_eq_zero.mp rest.symm).resolve_right ne)).symm⟩
  · have leading := leadingCoefficient_take long float (by simp)
    obtain ⟨F, ne, degF, key'⟩ := dependent_key dependent
    have zero := key.vanishes inj room degE degQ key' ne degF
    have empty : (Poly.ofList (solution.drop (e + 1))).toPoly = 0 := by
      rw [Poly.toPoly_ofList, second, zero]
    refine ⟨Poly.zero, Poly.ofList (solution.drop (e + 1)), ?_, by simp [Poly.zero, Poly.ofList,
      strip, InField], fun _ => ?_, ?_⟩
    · rw [Poly.divmod, leading, ok_bind, Poly.toPoly_eq_zero.mp empty]
      rfl
    · rw [Poly.toPoly_zero]
      exact ⟨fits_zero _ _, KeyEquation.close inj (by rwa [zero_mul]) ne degF⟩
    · rintro P ⟨fits, close⟩
      refine ⟨Poly.isZero_iff.mpr empty, ?_⟩
      have quotient := key.quotient inj room degE degQ fits close
      rw [zero] at quotient
      rw [Poly.toPoly_zero, (mul_eq_zero.mp quotient.symm).resolve_right monic.ne_zero]

/-- What explains a message, whatever the number of errors that is tried. -/
theorem explains_iff {P : (ZMod p)[X]} : Explains k e encodedMessage P ↔ P.degree < k.toNat ∧
    (wrongPlaces encodedMessage.length (pointAt encodedMessage) (valueAt encodedMessage) P).card
      ≤ e := by
  refine and_congr_left' ?_
  unfold Fits qNumVars
  by_cases none : P = 0
  · simp [none]
  · rw [degree_eq_natDegree none]
    have : P.natDegree + e < (e + k).toNat ↔ P.natDegree < k.toNat := by omega
    exact_mod_cast this

/-- **One number of errors.** -/
theorem solveRound_spec
    (inj : Set.InjOn (pointAt encodedMessage) (Finset.range encodedMessage.length))
    (room : 0 < qNumVars k e → qNumVars k e + e ≤ encodedMessage.length) :
    (∃ error, solveRound k e encodedMessage = .error error ∧
      (ZeroColumn e encodedMessage ∨ ∀ P, ¬ Explains k e encodedMessage P)) ∨
    ¬ ZeroColumn e encodedMessage ∧ ∃ f r, solveRound k e encodedMessage = .ok (f, r) ∧
      InField f.coefficients ∧ (r.isZero = true → Explains k e encodedMessage f.toPoly) ∧
      ∀ P, Explains k e encodedMessage P → r.isZero = true ∧ f.toPoly = P := by
  rcases someSolution_outcome (system_spec k e encodedMessage) with
    ⟨unsolvable, run⟩ | ⟨zero, run⟩ | ⟨nonzero, solution, run, reading⟩
  · refine .inl ⟨_, by rw [solveRound, run, error_bind], .inr fun P ⟨fits, close⟩ => ?_⟩
    obtain ⟨E, monic, degE, degQ, key⟩ := exists_keyEquation fits close
    obtain ⟨u, one, first, second⟩ := exists_vector monic degE degQ
    exact unsolvable u (system_solves.mpr ⟨one, by rwa [first, second]⟩)
  · exact .inl ⟨_, by rw [solveRound, run, error_bind], .inl ((zeroColumn_iff inj room).mp zero)⟩
  · refine .inr ⟨fun zero => ?_, ?_⟩
    · obtain ⟨c, hc, column⟩ := (zeroColumn_iff inj room).mpr zero
      obtain ⟨r, hr, ne⟩ := nonzero c hc
      exact ne (column r hr)
    · obtain ⟨f, r, division, rest⟩ := divmod_reading inj room reading
      exact ⟨f, r, by rw [solveRound, run, ok_bind, division], rest⟩

/-- **The loop over the numbers of errors** returns only what explains the message. -/
theorem solveLoop_sound
    (inj : Set.InjOn (pointAt encodedMessage) (Finset.range encodedMessage.length)) {m : ℕ}
    (room : ∀ e < m, 0 < qNumVars k e → qNumVars k e + e ≤ encodedMessage.length) {f : Poly p}
    (run : solveLoop k encodedMessage m = .ok f) :
    InField f.coefficients ∧ ∃ e < m, Explains k e encodedMessage f.toPoly := by
  induction m with
  | zero => cases run
  | succ m ih =>
      rw [solveLoop] at run
      rcases solveRound_spec inj (room m (Nat.lt_succ_self m)) with
        ⟨error, raises, -⟩ | ⟨-, g, r, returns, typed, sound, -⟩
      · rw [raises] at run
        cases run
      · rw [returns, ok_bind] at run
        by_cases divides : r.isZero = true
        · simp only [divides, if_true] at run
          obtain rfl := Except.ok.inj run
          exact ⟨typed, m, Nat.lt_succ_self m, sound divides⟩
        · simp only [divides] at run
          obtain ⟨typed', e, lt, explains⟩ := ih (fun e lt => room e (by omega)) run
          exact ⟨typed', e, by omega, explains⟩

/-- **The decoder** is exact within its number of errors. -/
theorem solveSystem_spec (code : EncoderDecoder p)
    (inj : Set.InjOn (pointAt encodedMessage) (Finset.range encodedMessage.length))
    (enough : code.k + 2 * code.maxE ≤ encodedMessage.length) :
    (∀ f, code.solveSystem encodedMessage = .ok f → ¬ ZeroColumn code.maxE encodedMessage ∧
      InField f.coefficients ∧ Explains code.k code.maxE encodedMessage f.toPoly) ∧
    ∀ P, Explains code.k code.maxE encodedMessage P → ¬ ZeroColumn code.maxE encodedMessage →
      ∃ f, code.solveSystem encodedMessage = .ok f ∧ InField f.coefficients ∧ f.toPoly = P := by
  have room : ∀ e < code.maxE + 1,
      0 < qNumVars code.k e → qNumVars code.k e + e ≤ encodedMessage.length := by
    intro e lt
    unfold qNumVars
    omega
  have first := solveRound_spec inj (room code.maxE (Nat.lt_succ_self _))
  refine ⟨fun f run => ?_, fun P explains nonzero => ?_⟩
  · obtain ⟨typed, e, lt, explains⟩ := solveLoop_sound inj room run
    obtain ⟨small, close⟩ := explains_iff.mp explains
    have explains' : Explains code.k code.maxE encodedMessage f.toPoly :=
      explains_iff.mpr ⟨small, close.trans (Nat.lt_succ_iff.mp lt)⟩
    refine ⟨?_, typed, explains'⟩
    rcases first with ⟨error, raises, -⟩ | ⟨nonzero, -⟩
    · rw [EncoderDecoder.solveSystem, solveLoop, raises] at run
      cases run
    · exact nonzero
  · rcases first with ⟨error, -, (zero | none)⟩ | ⟨-, f, r, returns, typed, -, complete⟩
    · exact absurd zero nonzero
    · exact absurd explains (none P)
    · obtain ⟨divides, same⟩ := complete P explains
      refine ⟨f, ?_, typed, same⟩
      rw [EncoderDecoder.solveSystem, solveLoop, returns, ok_bind]
      simp only [divides, if_true]
      rfl

end Equations

/-! ### Messages -/

section Messages

variable [Fact p.Prime] {code : EncoderDecoder p} {encodedMessage : Codeword p}

omit [Fact p.Prime] in
theorem pointAt_injOn (distinct : (encodedMessage.map Prod.fst).Nodup) :
    Set.InjOn (pointAt encodedMessage) (Finset.range encodedMessage.length) := by
  intro i hi j hj same
  have lt : i < encodedMessage.length := by simpa using hi
  have lt' : j < encodedMessage.length := by simpa using hj
  rw [pointAt, pointAt, List.getD_eq_getElem _ _ lt, List.getD_eq_getElem _ _ lt'] at same
  have inside : i < (encodedMessage.map Prod.fst).length := by simpa using lt
  have inside' : j < (encodedMessage.map Prod.fst).length := by simpa using lt'
  have same : (encodedMessage.map Prod.fst)[i] = (encodedMessage.map Prod.fst)[j] := by
    simpa using same
  exact distinct.getElem_inj_iff.mp same

/-- The wrong places are the entries whose value is another one. -/
theorem card_wrongPlaces (encodedMessage : Codeword p) (P : (ZMod p)[X]) :
    (wrongPlaces encodedMessage.length (pointAt encodedMessage) (valueAt encodedMessage) P).card =
      encodedMessage.countP fun x => P.eval x.1 ≠ x.2 := by
  have each : encodedMessage = (List.range encodedMessage.length).map fun i =>
      (pointAt encodedMessage i, valueAt encodedMessage i) := by
    refine List.ext_getElem (by simp) fun i hi hi' => ?_
    rw [List.getElem_map, List.getElem_range, pointAt, valueAt, List.getD_eq_getElem _ _ hi]
  conv_rhs => rw [each, List.countP_map, List.countP_eq_length_filter]
  rfl

omit [Fact p.Prime] in
theorem inField_map_values {L : List (Number p)} (typed : InField L) :
    L = (values L).map .mod := by
  rw [values, List.map_map]
  refine (List.map_id L).symm.trans (List.map_congr_left fun x mem => ?_)
  obtain ⟨a, rfl⟩ := typed x mem
  rfl

/-- What the decoder returns explains what was received. -/
theorem decode_sound (distinct : (encodedMessage.map Prod.fst).Nodup)
    (enough : code.k + 2 * code.maxE ≤ encodedMessage.length) {cs : List (Number p)}
    (run : code.decode encodedMessage = .ok cs) :
    ¬ ZeroColumn code.maxE encodedMessage ∧ ∃ f : Poly p, cs = f.coefficients ∧
      InField f.coefficients ∧ f.toPoly.degree < code.k.toNat ∧
      (encodedMessage.countP fun x => f.toPoly.eval x.1 ≠ x.2) ≤ code.maxE := by
  obtain ⟨sound, -⟩ := solveSystem_spec code (pointAt_injOn distinct) enough
  obtain ⟨f, solved, rest⟩ := bind_eq_ok.mp run
  obtain rfl := Except.ok.inj rest
  obtain ⟨nonzero, typed, explains⟩ := sound f solved
  obtain ⟨small, close⟩ := explains_iff.mp explains
  rw [card_wrongPlaces] at close
  exact ⟨nonzero, f, rfl, typed, small, close⟩

/-- A polynomial that explains what was received is returned. -/
theorem decode_complete (distinct : (encodedMessage.map Prod.fst).Nodup)
    (enough : code.k + 2 * code.maxE ≤ encodedMessage.length)
    (nonzero : ¬ ZeroColumn code.maxE encodedMessage) {P : (ZMod p)[X]}
    (small : P.degree < code.k.toNat)
    (close : (encodedMessage.countP fun x => P.eval x.1 ≠ x.2) ≤ code.maxE) :
    ∃ f : Poly p, code.decode encodedMessage = .ok f.coefficients ∧ InField f.coefficients ∧
      f.toPoly = P := by
  obtain ⟨-, complete⟩ := solveSystem_spec code (pointAt_injOn distinct) enough
  rw [← card_wrongPlaces] at close
  obtain ⟨f, solved, typed, same⟩ := complete P (explains_iff.mpr ⟨small, close⟩) nonzero
  exact ⟨f, by rw [EncoderDecoder.decode, solved, ok_bind]; rfl, typed, same⟩

theorem coefficients_eq {f : Poly p} (typed : InField f.coefficients) {message : List (ZMod p)}
    (last : ∀ ne, message.getLast ne ≠ 0) (same : f.toPoly = ofCoeffs message) :
    f.coefficients = message.map .mod := by
  rw [inField_map_values typed, (ofCoeffs_inj f.getLast_ne last).mp same]

/-- **Decoding is exact**: the decoder returns a message just if it is short enough, few of the
values received are not its own, and every variable of the first system occurs in an equation. -/
theorem decode_iff (distinct : (encodedMessage.map Prod.fst).Nodup)
    (enough : code.k + 2 * code.maxE ≤ encodedMessage.length) (cs : List (Number p)) :
    code.decode encodedMessage = .ok cs ↔ ¬ ZeroColumn code.maxE encodedMessage ∧
      ∃ message : List (ZMod p), cs = message.map .mod ∧ (∀ ne, message.getLast ne ≠ 0) ∧
        message.length ≤ code.k.toNat ∧
        (encodedMessage.countP fun x => (ofCoeffs message).eval x.1 ≠ x.2) ≤ code.maxE := by
  constructor
  · intro run
    obtain ⟨nonzero, f, rfl, typed, small, close⟩ := decode_sound distinct enough run
    exact ⟨nonzero, values f.coefficients, inField_map_values typed, f.getLast_ne,
      (length_le_iff f.getLast_ne _).mpr small, close⟩
  · rintro ⟨nonzero, message, rfl, last, small, close⟩
    obtain ⟨f, run, typed, same⟩ := decode_complete distinct enough nonzero
      ((length_le_iff last _).mp small) close
    rw [run, coefficients_eq typed last same]

/-- What is sent: the values of the message's polynomial at the points from 1 on. -/
theorem encode_ok {message : List ℤ} {sent : Codeword p} (encoded : code.encode message = .ok sent) :
    sent = (List.range code.n).map fun i => (((i + 1 : ℕ) : ZMod p),
      (Poly.ofList (message.map .int)).toPoly.eval ((i + 1 : ℕ) : ZMod p)) := by
  unfold EncoderDecoder.encode at encoded
  split_ifs at encoded
  rw [← Except.ok.inj encoded]
  exact List.map_congr_left fun i _ => by rw [Poly.eval_toPoly]

/-- The points are distinct, also if there are as many as there are residues. -/
theorem points_nodup (le : code.n ≤ p) :
    ((List.range code.n).map fun i => ((i + 1 : ℕ) : ZMod p)).Nodup := by
  refine List.nodup_range.map_on fun i hi j hj same => ?_
  have hi' := List.mem_range.mp hi
  have hj' := List.mem_range.mp hj
  have cast : (i : ZMod p) = j := by
    push_cast at same
    exact add_right_cancel same
  have mod := (ZMod.natCast_eq_natCast_iff' _ _ _).mp cast
  rwa [Nat.mod_eq_of_lt (by omega), Nat.mod_eq_of_lt (by omega)] at mod

/-- **Errors are corrected**: what was encoded is decoded from values of which at most `maxE` were
changed. -/
theorem decode_corrects {message : List ℤ} (short : message.length ≤ code.k)
    {sent received : Codeword p} (encoded : code.encode message = .ok sent)
    (points : received.map Prod.fst = sent.map Prod.fst)
    (errors : ((sent.zip received).countP fun x => x.1.2 ≠ x.2.2) ≤ code.maxE)
    (nonzero : ¬ ZeroColumn code.maxE received) :
    code.decode received = .ok ((strip (message.map .int)).map fun c => .mod c.toField) := by
  have distinct : (received.map Prod.fst).Nodup := by
    rw [points, encode_ok encoded, List.map_map]
    exact points_nodup code.le_modulus
  have length : received.length = code.n := by
    have := congrArg List.length points
    rwa [List.length_map, List.length_map, encode_ok encoded, List.length_map,
      List.length_range] at this
  have degree : (Poly.ofList (message.map .int) : Poly p).toPoly.degree < code.k.toNat := by
    rw [Poly.toPoly_ofList]
    refine (degree_ofCoeffs_lt _).trans_le ?_
    rw [length_values, List.length_map]
    exact_mod_cast show message.length ≤ code.k.toNat by omega
  have enough : code.k + 2 * code.maxE ≤ received.length := by
    have := code.le
    rw [length, EncoderDecoder.maxE]
    omega
  have close : (received.countP fun x =>
      (Poly.ofList (message.map .int)).toPoly.eval x.1 ≠ x.2) ≤ code.maxE := by
    have same : sent.length = received.length := by simpa using (congrArg List.length points).symm
    have seen : received = (sent.zip received).map Prod.snd := by
      rw [List.map_snd_zip same.ge]
    refine le_trans (le_of_eq ?_) errors
    conv_lhs => rw [seen]
    rw [List.countP_map]
    refine List.countP_congr fun x mem => ?_
    obtain ⟨i, lt, rfl⟩ := List.mem_iff_getElem.mp mem
    have inside : i < sent.length := (lt_min_iff.mp (List.length_zip ▸ lt)).1
    have inside' : i < received.length := same ▸ inside
    have value : sent[i].2 = (Poly.ofList (message.map .int)).toPoly.eval sent[i].1 := by
      simp [encode_ok encoded]
    have point : sent[i].1 = received[i].1 := by
      have := congrArg (fun ps => ps.getD i 0) points
      simpa [inside, inside'] using this.symm
    simp only [Function.comp, List.getElem_zip, value, point]
  obtain ⟨f, run, typed, same⟩ := decode_complete distinct enough nonzero degree close
  rw [run, coefficients_eq typed (Poly.getLast_ne (Poly.ofList (message.map .int))) same]
  simp [values, Poly.ofList]

end Messages

/-- Three points modulo 7 for a message of one number. -/
def code7 : EncoderDecoder 7 := ⟨3, 1, by decide, by decide⟩

theorem prime_seven : Fact (Nat.Prime 7) := ⟨by decide⟩

/-- What its users receive. -/
def received7 : Codeword 7 := [(1, 2), (2, 5), ((3 : ℕ), 2)]

/-- When the message of one number is decoded. -/
theorem received7_iff :
    code7.decode received7 = .ok [.mod 2] ↔ ¬ ZeroColumn code7.maxE received7 ∧
      ∃ message : List (ZMod 7), [.mod 2] = message.map Number.mod ∧
        (∀ ne, message.getLast ne ≠ 0) ∧ message.length ≤ code7.k.toNat ∧
        (received7.countP fun x => (ofCoeffs message).eval x.1 ≠ x.2) ≤ code7.maxE :=
  @decode_iff 7 prime_seven code7 received7 (by decide) (by decide) [.mod 2]

/-- One of the values was changed. -/
theorem code7_corrects : code7.decode received7 = .ok [.mod 2] :=
  @decode_corrects 7 prime_seven code7 [2] (by decide) [(1, 2), (2, 2), (3, 2)] received7 (by decide)
    (by decide) (by decide) (by decide)

end Prism.Crypto
