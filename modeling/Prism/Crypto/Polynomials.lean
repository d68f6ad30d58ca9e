import Prism.Crypto.FiniteField
import Prism.Lib.CoefficientList
import Mathlib.Algebra.Polynomial.Div

/-!
Polynomials over the field (`.../berlekampwelch/finitefield/polynomial.py`).

A polynomial is its list of coefficients, lowest degree first, without zeros at the end. The
coefficients need not be elements of the field: integers and floats stay what they are until they
meet one (`Number`).

* `eval_toPoly`, `toPoly_add`, `toPoly_mul`, `toPoly_sub`: what the operations do, on coefficients
  of the field on one side.
* `divmod_spec`: the division with remainder, by a divisor whose leading coefficient is in the
  field, terminates with the quotient and the remainder.
-/

namespace Prism.Crypto

open Polynomial Lib

variable {p : ℕ}

/-- `strip`: the end of the list goes as long as it is zero in the field. -/
def strip (L : List (Number p)) : List (Number p) := L.rdropWhile fun c => c.toField = 0

theorem strip_strip (L : List (Number p)) : strip (strip L) = strip L :=
  List.rdropWhile_idempotent _ L

/-- A polynomial over the field. -/
structure Poly (p : ℕ) where
  coefficients : List (Number p)
  stripped : strip coefficients = coefficients
deriving DecidableEq

/-- `zip_longest(xs, ys, fillvalue=fill)`. -/
def zipLongest {α : Type} (fill : α) : List α → List α → List (α × α)
  | [], ys => ys.map fun y => (fill, y)
  | x :: xs, [] => (x, fill) :: xs.map fun x => (x, fill)
  | x :: xs, y :: ys => (x, y) :: zipLongest fill xs ys

/-- The loops of `__mul__`. -/
def mulLoop (self other newCoeffs : List (Number p)) : List (Number p) :=
  self.zipIdx.foldl (fun acc (a, i) => other.zipIdx.foldl
    (fun acc (b, j) => acc.modify (i + j) fun c => c.add (a.mul b)) acc) newCoeffs

namespace Poly

/-- `Polynomial(c)` of a list. -/
def ofList (c : List (Number p)) : Poly p := ⟨strip c, strip_strip c⟩

/-- `Zero`. -/
def zero : Poly p := ofList []

/-- `isZero`. -/
def isZero (self : Poly p) : Bool := self.coefficients = []

/-- `degree`: minus one for the zero polynomial. -/
def degree (self : Poly p) : ℤ := self.coefficients.length - 1

/-- `leadingCoefficient`. -/
def leadingCoefficient (self : Poly p) : Py (Number p) :=
  match self.coefficients.getLast? with
  | some c => .ok c
  | none => .error .indexError

/-- `evaluateAt`. -/
def evaluateAt (self : Poly p) (x : ZMod p) : ZMod p :=
  self.coefficients.foldr (fun coefficient result => result * x + coefficient.toField) 0

/-- `__add__`. -/
def add (self other : Poly p) : Poly p :=
  ofList ((zipLongest (.mod 0) self.coefficients other.coefficients).map fun x =>
    Number.sum [x.1, x.2])

/-- `__mul__`. -/
def mul (self other : Poly p) : Poly p :=
  if self.isZero || other.isZero then zero
  else ofList (mulLoop self.coefficients other.coefficients
    (List.replicate (self.coefficients.length + other.coefficients.length - 1) (.mod 0)))

/-- `__sub__`: the other one is multiplied by the constant polynomial `-1`. -/
def sub (self other : Poly p) : Poly p := self.add (other.mul (ofList [.mod (-1)]))

/-- The loop of `__divmod__`. The remainder gets shorter in each round, or the next round raises. -/
def divmodLoop (divisor : Poly p) (divisorLC : Number p) :
    ℕ → Poly p → Poly p → Py (Poly p × Poly p)
  | 0, quotient, remainder => .ok (quotient, remainder)
  | rounds + 1, quotient, remainder =>
    if remainder.degree < divisor.degree then .ok (quotient, remainder)
    else do
      let c ← (← remainder.leadingCoefficient).div divisorLC
      let monomialZeros := List.replicate (remainder.degree - divisor.degree).toNat (.mod 0)
      let monomialDivisor := ofList (monomialZeros ++ [c])
      divmodLoop divisor divisorLC rounds (quotient.add monomialDivisor)
        (remainder.sub (monomialDivisor.mul divisor))

/-- `__divmod__`. -/
def divmod (self divisor : Poly p) : Py (Poly p × Poly p) := do
  let divisorLC ← divisor.leadingCoefficient
  divmodLoop divisor divisorLC self.coefficients.length zero self

end Poly

/-! ### Values -/

/-- The values of a list of numbers. -/
def values (L : List (Number p)) : List (ZMod p) := L.map Number.toField

@[simp] theorem length_values (L : List (Number p)) : (values L).length = L.length :=
  List.length_map _

theorem values_strip (L : List (Number p)) :
    values (strip L) = (values L).rdropWhile fun c => c = 0 := by
  induction L using List.reverseRecOn with
  | nil => rfl
  | append_singleton L c ih =>
      unfold strip values at *
      rw [List.map_append, List.map_singleton]
      by_cases zero : c.toField = 0
      · rw [List.rdropWhile_concat_pos _ _ _ (by simpa using zero),
          List.rdropWhile_concat_pos _ _ _ (by simpa using zero), ih]
      · rw [List.rdropWhile_concat_neg _ _ _ (by simpa using zero),
          List.rdropWhile_concat_neg _ _ _ (by simpa using zero), List.map_append,
          List.map_singleton]

namespace Poly

/-- The polynomial that is meant. -/
noncomputable def toPoly (self : Poly p) : (ZMod p)[X] := ofCoeffs (values self.coefficients)

@[simp] theorem toPoly_ofList (c : List (Number p)) :
    (ofList c).toPoly = ofCoeffs (values c) := by
  rw [toPoly, ofList, values_strip, ofCoeffs_rdropWhile]

@[simp] theorem toPoly_zero : (zero : Poly p).toPoly = 0 := by simp [zero, values]

/-- The list does not end in a zero. -/
theorem getLast_ne (self : Poly p) (ne : values self.coefficients ≠ []) :
    (values self.coefficients).getLast ne ≠ 0 := by
  have fixed : (values self.coefficients).rdropWhile (fun c => c = 0) =
      values self.coefficients := by
    rw [← values_strip, self.stripped]
  have := List.rdropWhile_last_not (fun c : ZMod p => decide (c = 0)) _ (fixed ▸ ne)
  simp only [fixed] at this
  simpa using this

theorem degree_lt_iff (self : Poly p) (n : ℕ) :
    self.toPoly.degree < n ↔ self.coefficients.length ≤ n := by
  rw [toPoly, ← length_le_iff self.getLast_ne, length_values]

theorem toPoly_eq_zero {self : Poly p} : self.toPoly = 0 ↔ self.coefficients = [] := by
  constructor
  · intro zero
    have short := (self.degree_lt_iff 0).mp (by rw [zero, degree_zero]; exact WithBot.bot_lt_coe 0)
    exact List.length_eq_zero_iff.mp (Nat.le_zero.mp short)
  · intro nil
    simp [toPoly, values, nil]

theorem isZero_iff {self : Poly p} : self.isZero = true ↔ self.toPoly = 0 := by
  rw [toPoly_eq_zero, isZero, decide_eq_true_iff]

/-- The degree, of a polynomial that is not zero. -/
theorem degree_toPoly {self : Poly p} (ne : self.coefficients ≠ []) :
    self.toPoly.degree = (self.coefficients.length - 1 : ℕ) := by
  have ne' : values self.coefficients ≠ [] := by simpa [values] using ne
  rw [toPoly, degree_ofCoeffs ne' (self.getLast_ne ne'), length_values]

theorem leadingCoefficient_ok {self : Poly p} (ne : self.coefficients ≠ []) :
    ∃ c, self.leadingCoefficient = .ok c ∧ c.toField = self.toPoly.leadingCoeff ∧
      c.toField ≠ 0 := by
  have ne' : values self.coefficients ≠ [] := by simpa [values] using ne
  have last := self.getLast_ne ne'
  have value : (values self.coefficients).getLast ne' =
      (self.coefficients.getLast ne).toField := by
    unfold values
    exact List.getLast_map ..
  refine ⟨self.coefficients.getLast ne, ?_, ?_, value ▸ last⟩
  · rw [leadingCoefficient, List.getLast?_eq_getLast_of_ne_nil ne]
  · rw [toPoly, leadingCoeff_ofCoeffs ne' last, value]

theorem eval_toPoly (self : Poly p) (x : ZMod p) : self.evaluateAt x = self.toPoly.eval x := by
  rw [toPoly, eval_ofCoeffs, values, List.foldr_map]
  rfl

end Poly

/-! ### Operations -/

/-- The products of two lists' entries are elements of the field. -/
def Mixes (self other : List (Number p)) : Prop :=
  ∀ a ∈ self, ∀ b ∈ other, a.mul b = .mod (a.toField * b.toField)

theorem mixes_right {self other : List (Number p)} (h : InField other) : Mixes self other := by
  intro a _ b mem
  obtain ⟨b, rfl⟩ := h b mem
  exact Number.mul_mod a b

theorem mixes_left {self other : List (Number p)} (h : InField self) : Mixes self other := by
  intro a mem b _
  obtain ⟨a, rfl⟩ := h a mem
  rfl

theorem inField_strip {L : List (Number p)} (h : InField L) : InField (strip L) :=
  fun x mem => h x ((List.rdropWhile_prefix _ L).subset mem)

theorem inField_replicate (n : ℕ) : InField (List.replicate n (.mod 0 : Number p)) :=
  fun _ mem => ⟨0, List.eq_of_mem_replicate mem⟩

theorem values_replicate (n : ℕ) :
    values (List.replicate n (.mod 0 : Number p)) = List.replicate n 0 := by
  simp [values]

theorem sum_pair (x : Number p) (b : ZMod p) :
    Number.sum [x, .mod b] = .mod (x.toField + b) := by
  have start : (Number.add (.int 0) x).toField = x.toField := by
    cases x <;> simp [Number.add, Number.toField, Number.toRat]
  change Number.add (Number.add (.int 0) x) (.mod b) = _
  rw [Number.add_mod, start]

/-- The sums of `__add__`. -/
theorem zipLongest_sums (xs : List (Number p)) {ys : List (Number p)} (h : InField ys) :
    InField ((zipLongest (.mod 0) xs ys).map fun x => Number.sum [x.1, x.2]) ∧
      ofCoeffs (values ((zipLongest (.mod 0) xs ys).map fun x => Number.sum [x.1, x.2])) =
        ofCoeffs (values xs) + ofCoeffs (values ys) := by
  induction xs generalizing ys with
  | nil =>
      induction ys with
      | nil => exact ⟨by simp [zipLongest, InField], by simp [zipLongest, values]⟩
      | cons y ys ih =>
          obtain ⟨typed, value⟩ := ih fun y mem => h y (List.mem_cons_of_mem _ mem)
          obtain ⟨b, rfl⟩ := h y List.mem_cons_self
          simp only [zipLongest, List.map_map, List.map_cons, Function.comp_def, sum_pair] at *
          refine ⟨List.forall_mem_cons.mpr ⟨⟨_, rfl⟩, typed⟩, ?_⟩
          simp only [values, List.map_cons, ofCoeffs_cons, List.map_nil, ofCoeffs_nil,
            Number.toField_mod, zero_add] at value ⊢
          rw [value]
  | cons x xs ih =>
      cases ys with
      | nil =>
          obtain ⟨typed, value⟩ := ih (show InField [] by simp [InField])
          have tail : zipLongest (.mod 0) xs ([] : List (Number p)) =
              xs.map fun x => (x, .mod 0) := by
            cases xs <;> rfl
          rw [tail] at typed value
          simp only [zipLongest, List.map_cons, sum_pair]
          refine ⟨List.forall_mem_cons.mpr ⟨⟨_, rfl⟩, typed⟩, ?_⟩
          simp only [values, List.map_cons, ofCoeffs_cons, List.map_nil, ofCoeffs_nil, add_zero,
            Number.toField_mod] at value ⊢
          rw [value]
      | cons y ys =>
          obtain ⟨typed, value⟩ := ih fun y mem => h y (List.mem_cons_of_mem _ mem)
          obtain ⟨b, rfl⟩ := h y List.mem_cons_self
          simp only [zipLongest, List.map_cons, sum_pair]
          refine ⟨List.forall_mem_cons.mpr ⟨⟨_, rfl⟩, typed⟩, ?_⟩
          simp only [values, List.map_cons, ofCoeffs_cons, Number.toField_mod] at value ⊢
          rw [value, C_add, mul_add]
          ring

/-- One entry of `newCoeffs` grows. -/
theorem values_modify (acc : List (Number p)) (i : ℕ) (b : ZMod p) :
    values (acc.modify i fun c => c.add (.mod b)) = (values acc).modify i (· + b) := by
  refine List.ext_getElem? fun k => ?_
  rw [values, values, List.getElem?_map, List.getElem?_modify, List.getElem?_modify,
    List.getElem?_map]
  split_ifs
  · cases acc[k]? with
    | none => rfl
    | some c => simp [Number.add_mod]
  · simp

theorem inField_modify {acc : List (Number p)} (h : InField acc) (i : ℕ) (b : ZMod p) :
    InField (acc.modify i fun c => c.add (.mod b)) := by
  intro x mem
  obtain ⟨k, hk, rfl⟩ := List.mem_iff_getElem.mp mem
  rw [List.getElem_modify]
  split_ifs
  · exact ⟨_, Number.add_mod _ b⟩
  · exact h _ (List.getElem_mem _)

/-- **The inner loop of the product** adds a multiple of the other polynomial. -/
theorem mulLoop_inner {a : Number p} {i : ℕ} {other : List (Number p)} (mix : Mixes [a] other)
    {acc : List (Number p)} (typed : InField acc) (k : ℕ)
    (room : i + k + other.length ≤ acc.length) :
    let r := (other.zipIdx k).foldl
      (fun acc (b, j) => acc.modify (i + j) fun c => c.add (a.mul b)) acc
    InField r ∧ r.length = acc.length ∧
      ofCoeffs (values r) =
        ofCoeffs (values acc) + monomial (i + k) a.toField * ofCoeffs (values other) := by
  induction other generalizing k acc with
  | nil => exact ⟨typed, rfl, by simp [values]⟩
  | cons b other ih =>
      have product := mix a List.mem_cons_self b List.mem_cons_self
      simp only [List.zipIdx_cons, List.foldl_cons, product]
      rw [List.length_cons] at room
      obtain ⟨typed', length, value⟩ := ih
        (fun a mem b later => mix a mem b (List.mem_cons_of_mem _ later))
        (inField_modify typed (i + k) (a.toField * b.toField)) (k + 1)
        (by rw [List.length_modify]; omega)
      refine ⟨typed', by rw [length, List.length_modify], ?_⟩
      rw [value, values_modify, ofCoeffs_modify (by rw [length_values]; omega),
        show values (b :: other) = b.toField :: values other from rfl, ofCoeffs_cons, mul_add,
        ← add_assoc i k 1, monomial_mul_C, ← mul_assoc, monomial_mul_X, add_assoc]

/-- **The loops of the product.** -/
theorem mulLoop_spec {self other : List (Number p)} (mix : Mixes self other)
    {acc : List (Number p)} (typed : InField acc) (k : ℕ)
    (room : self ≠ [] → k + self.length + other.length ≤ acc.length + 1) :
    let r := (self.zipIdx k).foldl (fun acc (a, i) => other.zipIdx.foldl
      (fun acc (b, j) => acc.modify (i + j) fun c => c.add (a.mul b)) acc) acc
    InField r ∧ ofCoeffs (values r) = ofCoeffs (values acc) +
      monomial k 1 * (ofCoeffs (values self) * ofCoeffs (values other)) := by
  induction self generalizing k acc with
  | nil => exact ⟨typed, by simp [values]⟩
  | cons a self ih =>
      have enough := room (List.cons_ne_nil a self)
      rw [List.length_cons] at enough
      have head : Mixes [a] other := fun a' mem b later =>
        mix a' (List.mem_cons.mpr (.inl (List.mem_singleton.mp mem))) b later
      obtain ⟨typed', length, value⟩ := mulLoop_inner (i := k) head typed 0 (by omega)
      obtain ⟨typed'', value'⟩ := ih
        (fun a' mem b later => mix a' (List.mem_cons_of_mem a mem) b later) typed' (k + 1)
        (fun _ => by rw [length]; omega)
      simp only [List.zipIdx_cons, List.foldl_cons]
      refine ⟨typed'', ?_⟩
      rw [value', value, show values (a :: self) = a.toField :: values self from rfl, ofCoeffs_cons,
        add_zero]
      have shift : (monomial (k + 1) 1 : (ZMod p)[X]) = monomial k 1 * X := by
        rw [monomial_mul_X]
      have scale : (monomial k a.toField : (ZMod p)[X]) = monomial k 1 * C a.toField := by
        rw [monomial_mul_C, one_mul]
      rw [shift, scale]
      ring

namespace Poly

theorem toPoly_add (f : Poly p) {g : Poly p} (h : InField g.coefficients) :
    InField (f.add g).coefficients ∧ (f.add g).toPoly = f.toPoly + g.toPoly := by
  obtain ⟨typed, value⟩ := zipLongest_sums f.coefficients h
  exact ⟨inField_strip typed, by rw [add, toPoly_ofList, value]; rfl⟩

theorem toPoly_mul {f g : Poly p} (mix : Mixes f.coefficients g.coefficients) :
    InField (f.mul g).coefficients ∧ (f.mul g).toPoly = f.toPoly * g.toPoly := by
  unfold mul
  by_cases empty : f.isZero || g.isZero
  · rw [if_pos empty]
    refine ⟨by simp [zero, ofList, strip, InField], ?_⟩
    rcases (Bool.or_eq_true _ _).mp empty with here | here
    · rw [toPoly_zero, isZero_iff.mp here, zero_mul]
    · rw [toPoly_zero, isZero_iff.mp here, mul_zero]
  · rw [if_neg empty]
    obtain ⟨typed, value⟩ := mulLoop_spec mix
      (inField_replicate (f.coefficients.length + g.coefficients.length - 1)) 0
      (fun _ => by rw [List.length_replicate]; omega)
    refine ⟨inField_strip typed, ?_⟩
    rw [toPoly_ofList, mulLoop, value, values_replicate, ofCoeffs_replicate, zero_add,
      monomial_zero_one, one_mul]
    rfl

theorem toPoly_sub (f : Poly p) {g : Poly p} :
    InField (f.sub g).coefficients ∧ (f.sub g).toPoly = f.toPoly - g.toPoly := by
  have typed : InField (ofList [.mod (-1)] : Poly p).coefficients :=
    inField_strip (by simp [InField])
  obtain ⟨typed', value'⟩ := toPoly_mul (show Mixes g.coefficients _ from mixes_right typed)
  obtain ⟨typed'', value''⟩ := toPoly_add f typed'
  refine ⟨typed'', ?_⟩
  rw [sub, value'', value', toPoly_ofList]
  simp [values, ofCoeffs_cons, sub_eq_add_neg]

/-! ### Division with remainder -/

theorem degree_lt_degree {f g : Poly p} :
    f.degree < g.degree ↔ f.coefficients.length < g.coefficients.length := by
  unfold degree
  omega

theorem coefficients_ne {f : Poly p} {c : Number p} (leading : f.leadingCoefficient = .ok c) :
    f.coefficients ≠ [] := by
  intro nil
  simp [leadingCoefficient, nil] at leading

section Division

variable [Fact p.Prime]

/-- One round: the leading terms cancel. -/
theorem divmod_round {divisor remainder : Poly p} {b : ZMod p}
    (leading : divisor.leadingCoefficient = .ok (.mod b)) (ne : b ≠ 0)
    (long : divisor.coefficients.length ≤ remainder.coefficients.length) :
    ∃ (c : Number p) (a : ZMod p), remainder.leadingCoefficient = .ok c ∧
      c.div (.mod b) = .ok (.mod a) ∧
      let monomialDivisor := ofList
        (List.replicate (remainder.degree - divisor.degree).toNat (.mod 0) ++ [.mod a])
      InField monomialDivisor.coefficients ∧
      (remainder.sub (monomialDivisor.mul divisor)).coefficients.length <
        remainder.coefficients.length ∧
      (remainder.sub (monomialDivisor.mul divisor)).toPoly =
        remainder.toPoly - monomialDivisor.toPoly * divisor.toPoly := by
  have nonzero := coefficients_ne leading
  have pos := List.length_pos_iff.mpr nonzero
  have nonzero' : remainder.coefficients ≠ [] := List.length_pos_iff.mp (by omega)
  obtain ⟨b', run', lead', -⟩ := leadingCoefficient_ok nonzero
  obtain ⟨c, run, lead, top⟩ := leadingCoefficient_ok nonzero'
  obtain rfl : .mod b = b' := Except.ok.inj (leading.symm.trans run')
  rw [Number.toField_mod] at lead'
  refine ⟨c, c.toField / b, run, Number.div_mod c ne, ?_⟩
  generalize shift : (remainder.degree - divisor.degree).toNat = k
  have gap : k + divisor.coefficients.length = remainder.coefficients.length := by
    unfold degree at shift
    omega
  have typed : InField (ofList (List.replicate k (.mod 0) ++ [.mod (c.toField / b)] :
      List (Number p))).coefficients := by
    refine inField_strip fun x mem => ?_
    rcases List.mem_append.mp mem with zeros | last
    · exact inField_replicate k x zeros
    · exact ⟨_, List.mem_singleton.mp last⟩
  have monomial_ : (ofList (List.replicate k (.mod 0) ++ [.mod (c.toField / b)] :
      List (Number p))).toPoly = monomial k (c.toField / b) := by
    rw [toPoly_ofList]
    simp only [values, List.map_append, List.map_replicate, Number.toField_mod, List.map_cons,
      List.map_nil]
    exact ofCoeffs_monomial k _
  obtain ⟨-, product⟩ := toPoly_mul (g := divisor) (mixes_left typed)
  obtain ⟨-, difference⟩ := toPoly_sub remainder (g := (ofList (List.replicate k (.mod 0) ++
    [.mod (c.toField / b)] : List (Number p))).mul divisor)
  rw [product] at difference
  refine ⟨typed, ?_, difference⟩
  have quotient_ne : c.toField / b ≠ 0 := div_ne_zero top ne
  have degrees : remainder.toPoly.degree =
      (monomial k (c.toField / b) * divisor.toPoly).degree := by
    rw [degree_mul, degree_monomial k quotient_ne, degree_toPoly nonzero, degree_toPoly nonzero']
    exact_mod_cast show remainder.coefficients.length - 1 =
      k + (divisor.coefficients.length - 1) by omega
  have leads : remainder.toPoly.leadingCoeff =
      (monomial k (c.toField / b) * divisor.toPoly).leadingCoeff := by
    rw [leadingCoeff_mul, leadingCoeff_monomial, ← lead, ← lead', div_mul_cancel₀ _ ne]
  have nonzero_poly : remainder.toPoly ≠ 0 := fun zero => nonzero' (toPoly_eq_zero.mp zero)
  have falls := degree_sub_lt_left degrees nonzero_poly leads
  rw [← monomial_, ← difference, degree_toPoly nonzero', degree_lt_iff] at falls
  omega

/-- **The loop of the division**: what the divisor times the quotient and the remainder make up stays
the same, and enough rounds leave a remainder that is shorter than the divisor. -/
theorem divmodLoop_spec {divisor : Poly p} {b : ZMod p}
    (leading : divisor.leadingCoefficient = .ok (.mod b)) (ne : b ≠ 0) {rounds : ℕ}
    (quotient remainder : Poly p) (typed : InField quotient.coefficients)
    (enough : remainder.coefficients.length ≤ rounds) :
    ∃ q r, divmodLoop divisor (.mod b) rounds quotient remainder = .ok (q, r) ∧
      InField q.coefficients ∧ r.coefficients.length < divisor.coefficients.length ∧
      q.toPoly * divisor.toPoly + r.toPoly =
        quotient.toPoly * divisor.toPoly + remainder.toPoly := by
  have pos := List.length_pos_iff.mpr (coefficients_ne leading)
  induction rounds generalizing quotient remainder with
  | zero => exact ⟨quotient, remainder, rfl, typed, by omega, rfl⟩
  | succ rounds ih =>
      by_cases short : remainder.degree < divisor.degree
      · refine ⟨quotient, remainder, ?_, typed, degree_lt_degree.mp short, rfl⟩
        rw [divmodLoop, if_pos short]
      · have long := not_lt.mp (fun lt => short (degree_lt_degree.mpr lt))
        obtain ⟨c, a, run, division, inField, shorter, value⟩ :=
          divmod_round leading ne long
        obtain ⟨typed', value'⟩ := toPoly_add quotient inField
        obtain ⟨q, r, run', typed'', small, total⟩ :=
          ih _ _ typed' (Nat.lt_succ_iff.mp (shorter.trans_le enough))
        refine ⟨q, r, ?_, typed'', small, ?_⟩
        · rw [divmodLoop, if_neg short, run, ok_bind, division, ok_bind]
          exact run'
        · rw [total, value, value']
          ring

/-- **Division with remainder**, by a divisor whose leading coefficient is in the field. -/
theorem divmod_spec (self : Poly p) {divisor : Poly p} {b : ZMod p}
    (leading : divisor.leadingCoefficient = .ok (.mod b)) (ne : b ≠ 0) :
    ∃ q r, self.divmod divisor = .ok (q, r) ∧ InField q.coefficients ∧
      r.toPoly.degree < divisor.toPoly.degree ∧
      q.toPoly * divisor.toPoly + r.toPoly = self.toPoly := by
  obtain ⟨q, r, run, typed, short, total⟩ := divmodLoop_spec leading ne zero self
    (by simp [zero, ofList, strip, InField]) le_rfl
  have nonzero := coefficients_ne leading
  refine ⟨q, r, ?_, typed, ?_, ?_⟩
  · rw [divmod, leading, ok_bind, run]
  · rw [degree_toPoly nonzero, degree_lt_iff]
    omega
  · rw [total, toPoly_zero, zero_mul, zero_add]

end Division

end Poly

end Prism.Crypto
