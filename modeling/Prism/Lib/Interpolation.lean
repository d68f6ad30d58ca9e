import Mathlib.LinearAlgebra.Lagrange
import Mathlib.Algebra.BigOperators.Group.List.Basic

/-!
Threshold sharings over a field.

A family of values is a *sharing* of `v` below degree `t` when one polynomial of
degree below `t` takes them at the evaluation points and takes `v` at the chosen
target (`SharedBelow`). The rules say what the operations of a linear sharing
scheme do to sharings:

* `SharedBelow.add`, `.sub`, `.addConst`, `.smul`, `.sum` keep the degree, and
  `SharedBelow.mul` adds the degrees;
* `SharedBelow.beaver` is Beaver's identity: two opened differences and a sharing
  of a triple give a sharing of the product;
* `lagrange_eval` recovers the value at any point from any list of at least `t`
  distinct points.

Nothing here fixes a modulus, a party numbering or an order of the points.
-/

namespace Prism.Lib

open Polynomial

/-! ### Interpolation over a list of points -/

section Lagrange

variable {F : Type*} [Field F] [DecidableEq F]

/-- The Lagrange coefficient of the point `i` among `xs` at the target `r`: the
factor of `i` itself is left out. -/
def lagrangeCoeff (xs : List F) (r i : F) : F :=
  (xs.map fun j => if i = j then 1 else (r - j) * (i - j)⁻¹).prod

/-- Over distinct points the list coefficient is the value of the Lagrange basis
polynomial. -/
theorem lagrangeCoeff_eq_eval_basis {xs : List F} (nodup : xs.Nodup) (r i : F) :
    lagrangeCoeff xs r i = (Lagrange.basis xs.toFinset id i).eval r := by
  unfold lagrangeCoeff Lagrange.basis
  rw [eval_prod, ← List.prod_toFinset _ nodup]
  by_cases mem : i ∈ xs.toFinset
  · rw [← Finset.mul_prod_erase _ _ mem, if_pos rfl, one_mul]
    refine Finset.prod_congr rfl fun j hj => ?_
    rw [if_neg (Finset.ne_of_mem_erase hj).symm]
    simp [Lagrange.basisDivisor, mul_comm]
  · rw [Finset.erase_eq_of_notMem mem]
    refine Finset.prod_congr rfl fun j hj => ?_
    have ne : i ≠ j := fun eq => mem (eq ▸ hj)
    rw [if_neg ne]
    simp [Lagrange.basisDivisor, mul_comm]

/-- At one of the points, the other coefficients are zero. -/
theorem lagrangeCoeff_other {xs : List F} {r i : F} (mem : r ∈ xs) (ne : i ≠ r) :
    lagrangeCoeff xs r i = 0 := by
  refine List.prod_eq_zero (List.mem_map.mpr ⟨r, mem, ?_⟩)
  rw [if_neg ne, sub_self, zero_mul]

/-- Its own coefficient is one. -/
theorem lagrangeCoeff_self (xs : List F) (r : F) : lagrangeCoeff xs r r = 1 := by
  refine List.prod_eq_one fun c mem => ?_
  obtain ⟨j, -, rfl⟩ := List.mem_map.mp mem
  split_ifs with here
  · rfl
  · exact mul_inv_cancel₀ (sub_ne_zero.mpr here)

/-- **Interpolation from any sufficiently long list of distinct points**: the
Lagrange sum over the list is the value of the polynomial at the target. -/
theorem lagrange_eval {xs : List F} (nodup : xs.Nodup) {P : F[X]}
    (deg : P.degree < xs.length) (r : F) :
    (xs.map fun i => lagrangeCoeff xs r i * P.eval i).sum = P.eval r := by
  have card : P.degree < xs.toFinset.card := by rwa [List.toFinset_card_of_nodup nodup]
  have interp := Lagrange.eq_interpolate (s := xs.toFinset) (v := id)
    Function.injective_id.injOn card
  have atR : P.eval r = ∑ i ∈ xs.toFinset,
      P.eval i * (Lagrange.basis xs.toFinset id i).eval r := by
    conv_lhs => rw [interp]
    simp [Lagrange.interpolate_apply, eval_finsetSum]
  rw [atR, ← List.sum_toFinset _ nodup]
  refine Finset.sum_congr rfl fun i _ => ?_
  rw [lagrangeCoeff_eq_eval_basis nodup, mul_comm]

end Lagrange

/-! ### Sharings and their operations -/

section Sharing

variable {F ι : Type*} [CommRing F]

/-- `SharedBelow t r x S v f`: one polynomial of degree below `t` has value `v` at
the target `r` and takes the values `f` at the points `x` of the parties in `S`. -/
def SharedBelow (t : ℕ) (r : F) (x : ι → F) (S : Set ι) (v : F) (f : ι → F) : Prop :=
  ∃ P : F[X], P.degree < t ∧ P.eval r = v ∧ ∀ i ∈ S, f i = P.eval (x i)

namespace SharedBelow

variable {t u : ℕ} {r : F} {x : ι → F} {S : Set ι} {v w : F} {f g : ι → F}

/-- A constant is a sharing of itself once degree zero is allowed. -/
theorem const (pos : 0 < t) (c : F) : SharedBelow t r x S c fun _ => c :=
  ⟨C c, lt_of_le_of_lt degree_C_le (by exact_mod_cast pos), eval_C, fun _ _ => eval_C.symm⟩

theorem zero : SharedBelow t r x S 0 fun _ => 0 :=
  ⟨0, by simp, eval_zero, fun _ _ => eval_zero.symm⟩

/-- Only the values of the parties in `S` matter. -/
theorem congr (hf : SharedBelow t r x S v f) (eq : ∀ i ∈ S, g i = f i) :
    SharedBelow t r x S v g := by
  obtain ⟨P, degP, atP, evP⟩ := hf
  exact ⟨P, degP, atP, fun i hi => (eq i hi).trans (evP i hi)⟩

theorem mono {T : Set ι} (hf : SharedBelow t r x S v f) (sub : T ⊆ S) :
    SharedBelow t r x T v f := by
  obtain ⟨P, degP, atP, evP⟩ := hf
  exact ⟨P, degP, atP, fun i hi => evP i (sub hi)⟩

theorem add (hf : SharedBelow t r x S v f) (hg : SharedBelow t r x S w g) :
    SharedBelow t r x S (v + w) fun i => f i + g i := by
  obtain ⟨P, degP, atP, evP⟩ := hf
  obtain ⟨Q, degQ, atQ, evQ⟩ := hg
  refine ⟨P + Q, lt_of_le_of_lt (degree_add_le P Q) (max_lt degP degQ), ?_, fun i hi => ?_⟩
  · rw [eval_add, atP, atQ]
  · simp [evP i hi, evQ i hi]

theorem smul (c : F) (hf : SharedBelow t r x S v f) :
    SharedBelow t r x S (c * v) fun i => c * f i := by
  obtain ⟨P, degP, atP, evP⟩ := hf
  refine ⟨c • P, lt_of_le_of_lt (degree_smul_le c P) degP, ?_, fun i hi => ?_⟩
  · rw [eval_smul, atP, smul_eq_mul]
  · simp [evP i hi]

theorem sub (hf : SharedBelow t r x S v f) (hg : SharedBelow t r x S w g) :
    SharedBelow t r x S (v - w) fun i => f i - g i := by
  simpa [sub_eq_add_neg] using hf.add (hg.smul (-1))

/-- Adding a public constant moves the shared value by it. -/
theorem addConst (pos : 0 < t) (c : F) (hf : SharedBelow t r x S v f) :
    SharedBelow t r x S (v + c) fun i => f i + c :=
  hf.add (.const pos c)

/-- The pointwise product shares the product of the values, at the sum of the
degrees. -/
theorem mul (hf : SharedBelow t r x S v f) (hg : SharedBelow u r x S w g) :
    SharedBelow (t + u - 1) r x S (v * w) fun i => f i * g i := by
  obtain ⟨P, degP, atP, evP⟩ := hf
  obtain ⟨Q, degQ, atQ, evQ⟩ := hg
  refine ⟨P * Q, ?_, by rw [eval_mul, atP, atQ], fun i hi => by simp [evP i hi, evQ i hi]⟩
  rcases eq_or_ne P 0 with rfl | neP
  · simp
  rcases eq_or_ne Q 0 with rfl | neQ
  · simp
  refine lt_of_le_of_lt (degree_mul_le P Q) ?_
  rw [degree_eq_natDegree neP] at degP ⊢
  rw [degree_eq_natDegree neQ] at degQ ⊢
  norm_cast at degP degQ ⊢
  omega

/-- A finite sum of sharings shares the sum of the values. -/
theorem sum {κ : Type*} (js : List κ) {v : κ → F} {f : κ → ι → F}
    (h : ∀ j ∈ js, SharedBelow t r x S (v j) (f j)) :
    SharedBelow t r x S (js.map v).sum fun i => (js.map fun j => f j i).sum := by
  induction js with
  | nil => simpa using zero
  | cons j js ih =>
      have head := h j List.mem_cons_self
      have tail := ih fun k hk => h k (List.mem_cons_of_mem _ hk)
      simpa using head.add tail

/-- **Beaver's identity**: with a sharing of a triple `c = a * b` and the opened
differences `y - a` and `z - b`, the local combination of the triple's shares is a
sharing of `y * z`. -/
theorem beaver (pos : 0 < t) {a b c y z : F} {fa fb fc : ι → F}
    (ha : SharedBelow t r x S a fa) (hb : SharedBelow t r x S b fb)
    (hc : SharedBelow t r x S c fc) (triple : c = a * b) :
    SharedBelow t r x S (y * z) fun i =>
      fc i + (y - a) * fb i + (z - b) * fa i + (y - a) * (z - b) := by
  have combined := ((hc.add (hb.smul (y - a))).add (ha.smul (z - b))).addConst pos
    ((y - a) * (z - b))
  have value : c + (y - a) * b + (z - b) * a + (y - a) * (z - b) = y * z := by
    rw [triple]; ring
  rwa [value] at combined

end SharedBelow

end Sharing

/-! ### Opening -/

namespace SharedBelow

variable {F ι : Type*} [Field F] [DecidableEq F] {t : ℕ} {r : F} {x : ι → F} {S : Set ι}
  {v w : F} {f : ι → F}

end SharedBelow

end Prism.Lib
