import Prism.Crypto.ModMath
import Prism.Lib.Interpolation

/-!
Shamir secret sharing (`prism/common/crypto/secretsharing/shamir.py`).

`ShamirSS.share` evaluates the polynomial with the secret and the drawn coefficients
at `1 … nparties`, and `ShamirSS.reconstruct` is the Lagrange sum over the given
shares, with `modinv` for the denominators. Arithmetic is on Python integers reduced
modulo the modulus; the bridge to the field is the cast to `ZMod modulus`.

* `share_sharesOf`: what `share` returns is a sharing of the secret below the
  threshold (`ShamirSS.SharesOf`).
* `reconstruct_eval`: over shares of distinct parties on a polynomial of degree below
  their number, `reconstruct` raises nothing and returns the polynomial's value in
  `[0, modulus)`.
-/

namespace Prism.Crypto

open Polynomial

/-- A share: its value and the index of the party that holds it. The commitment
fields of the source are used by the Feldman scheme only. -/
structure Share where
  share : ℤ
  x : ℤ
deriving DecidableEq, Repr, Inhabited

/-- `Share.is_dummy`. -/
def Share.isDummy (s : Share) : Bool := s.x == -1

/-- The parameters of a Shamir scheme. `SecretSharing.__init__` asserts that there are
at least three parties. -/
structure ShamirSS where
  nparties : ℕ
  threshold : ℕ
  modulus : ℕ
  parties_ge : 3 ≤ nparties
deriving DecidableEq, Repr

theorem three_parties : 3 ≤ 3 := le_rfl

theorem four_parties : 3 ≤ 4 := Nat.le_succ 3

namespace ShamirSS

variable (ss : ShamirSS)

/-- `_P`: the polynomial with coefficients `coeffs` at `x`, reduced after every
term. -/
def P (coeffs : List ℤ) (x : ℤ) : ℤ :=
  coeffs.zipIdx.foldl (fun y (coeff, i) => (y + coeff * x ^ i) % ss.modulus) 0

/-- The coefficient lists that `share` can draw: one value of
`randrange(1, modulus)` for each degree from `1` to `threshold - 1`. -/
def IsDraw (drawn : List ℤ) : Prop :=
  drawn.length = ss.threshold - 1 ∧ ∀ c ∈ drawn, 1 ≤ c ∧ c < ss.modulus

instance (drawn : List ℤ) : Decidable (ss.IsDraw drawn) := by
  unfold IsDraw; infer_instance

/-- One draw of the coefficients of a sharing. -/
def Draw : Type := { drawn : List ℤ // ss.IsDraw drawn }

/-- The share of party `i`. -/
def shareOf (value : ℤ) (drawn : List ℤ) (i : ℕ) : Share :=
  ⟨ss.P (value :: drawn) (i + 1), i⟩

/-- `share`: one share for each party. -/
def share (value : ℤ) (drawn : ss.Draw) : List Share :=
  (List.range ss.nparties).map (ss.shareOf value drawn.1)

/-- One entry of `_recoverCoefficients`: the factor of `i` itself is skipped. -/
def recoverCoefficient (xPoints : List ℤ) (ir i : ℤ) : Py ℤ :=
  xPoints.foldlM (fun result j => do
    if i ≠ j then
      let inv ← modinv (i - j) ss.modulus
      return (result * (ir - j) * inv) % ss.modulus
    else
      return result) 1

/-- `_recoverCoefficients`. -/
def recoverCoefficients (xPoints : List ℤ) (ir : ℤ) : Py (List ℤ) :=
  xPoints.mapM (ss.recoverCoefficient xPoints ir)

/-- `reconstruct`: points on the x axis start from 1, not from 0 like the party
indices. -/
def reconstruct (shares : List Share) (iq : ℤ) : Py ℤ := do
  let xPoints := shares.map fun s => s.x + 1
  let coeff ← ss.recoverCoefficients xPoints iq
  return (coeff.zip shares).foldl (fun value (c, s) => (value + c * s.share) % ss.modulus) 0

end ShamirSS

/-! ### The shared polynomial -/

/-- The polynomial with the given coefficients, lowest degree first. -/
noncomputable def coeffPoly (p : ℕ) : List ℤ → (ZMod p)[X]
  | [] => 0
  | c :: cs => C (c : ZMod p) + X * coeffPoly p cs

theorem coeffPoly_degree (p : ℕ) (cs : List ℤ) : (coeffPoly p cs).degree < cs.length := by
  induction cs with
  | nil => simp [coeffPoly]
  | cons c cs ih =>
      have tail : (X * coeffPoly p cs).degree < ((cs.length + 1 : ℕ) : WithBot ℕ) := by
        rcases eq_or_ne (coeffPoly p cs) 0 with zero | ne
        · rw [zero, mul_zero, degree_zero]
          exact WithBot.bot_lt_coe _
        · rw [degree_eq_natDegree ne] at ih
          refine lt_of_le_of_lt (degree_mul_le X (coeffPoly p cs)) ?_
          refine lt_of_le_of_lt (add_le_add degree_X_le (degree_eq_natDegree ne).le) ?_
          norm_cast at ih ⊢
          omega
      have head : (C (c : ZMod p)).degree < ((cs.length + 1 : ℕ) : WithBot ℕ) :=
        lt_of_le_of_lt degree_C_le (by exact_mod_cast Nat.succ_pos _)
      exact lt_of_le_of_lt (degree_add_le _ _) (max_lt head tail)

@[simp] theorem coeffPoly_eval_zero (p : ℕ) (c : ℤ) (cs : List ℤ) :
    (coeffPoly p (c :: cs)).eval 0 = c := by
  simp [coeffPoly]

/-- Loop invariant of `_P`: the running sum is the part of the polynomial that the
coefficients seen so far make up. -/
theorem P_loop (m : ℕ) (x : ℤ) (cs : List ℤ) (k : ℕ) (y : ℤ) :
    (((cs.zipIdx k).foldl (fun y (coeff, i) => (y + coeff * x ^ i) % (m : ℤ)) y : ℤ) : ZMod m) =
      y + (x : ZMod m) ^ k * (coeffPoly m cs).eval (x : ZMod m) := by
  induction cs generalizing k y with
  | nil => simp [coeffPoly]
  | cons c cs ih =>
      rw [List.zipIdx_cons, List.foldl_cons, ih]
      simp only [ZMod.intCast_mod, Int.cast_add, Int.cast_mul, Int.cast_pow, coeffPoly, eval_add,
        eval_C, eval_mul, eval_X]
      ring

/-- The running sum of `_P` is reduced after each coefficient. -/
theorem P_loop_range {m : ℕ} (pos : 0 < m) (x : ℤ) (cs : List ℤ) :
    0 ≤ cs.zipIdx.foldl (fun (y : ℤ) (coeff, i) => (y + coeff * x ^ i) % (m : ℤ)) 0 ∧
      cs.zipIdx.foldl (fun (y : ℤ) (coeff, i) => (y + coeff * x ^ i) % (m : ℤ)) 0 < m := by
  have hpos : (0 : ℤ) < m := by exact_mod_cast pos
  induction cs using List.reverseRecOn with
  | nil => simpa using hpos
  | append_singleton cs c ih =>
      rw [List.zipIdx_append, List.foldl_append]
      exact ⟨Int.emod_nonneg _ hpos.ne', Int.emod_lt_of_pos _ hpos⟩

variable (ss : ShamirSS)

/-- `_P` evaluates the polynomial with the given coefficients. -/
theorem P_cast (coeffs : List ℤ) (x : ℤ) :
    ((ss.P coeffs x : ℤ) : ZMod ss.modulus) =
      (coeffPoly ss.modulus coeffs).eval (x : ZMod ss.modulus) := by
  simpa [ShamirSS.P] using P_loop ss.modulus x coeffs 0 0

theorem P_range (pos : 0 < ss.modulus) (coeffs : List ℤ) (x : ℤ) :
    0 ≤ ss.P coeffs x ∧ ss.P coeffs x < ss.modulus :=
  P_loop_range pos x coeffs

/-- The evaluation point of a party. -/
def point (p : ℕ) (i : ℕ) : ZMod p := (i : ZMod p) + 1

/-- `SharesOf ss v f`: the values `f` of the parties lie on one polynomial of degree
below the threshold whose value at zero is `v`. -/
def ShamirSS.SharesOf (v : ZMod ss.modulus) (f : ℕ → ℤ) : Prop :=
  Lib.SharedBelow ss.threshold 0 (point ss.modulus) { i | i < ss.nparties } v
    fun i => (f i : ZMod ss.modulus)

/-- What `share` hands out lies on a polynomial of degree at most `threshold - 1`. -/
theorem shareOf_sharedBelow (value : ℤ) (drawn : ss.Draw) :
    Lib.SharedBelow (ss.threshold - 1 + 1) 0 (point ss.modulus) { i | i < ss.nparties }
      (value : ZMod ss.modulus) fun i => ((ss.shareOf value drawn.1 i).share : ZMod ss.modulus) := by
  refine ⟨coeffPoly ss.modulus (value :: drawn.1), ?_, coeffPoly_eval_zero _ _ _, fun i _ => ?_⟩
  · refine lt_of_lt_of_le (coeffPoly_degree _ _) ?_
    rw [List.length_cons, drawn.2.1]
  · simp [ShamirSS.shareOf, P_cast, point]

/-- What `share` hands out is a sharing of the secret. -/
theorem share_sharesOf (pos : 0 < ss.threshold) (value : ℤ) (drawn : ss.Draw) :
    ss.SharesOf value fun i => (ss.shareOf value drawn.1 i).share := by
  have below := shareOf_sharedBelow ss value drawn
  rwa [Nat.sub_add_cancel pos] at below

/-! ### Reconstruction -/

section Reconstruct

variable {ss : ShamirSS} [Fact ss.modulus.Prime]

/-- Loop invariant of `_recoverCoefficients`: the running product is the Lagrange
coefficient over the points seen so far. -/
theorem recoverCoefficient_loop (ir i : ℤ) (js : List ℤ) (result : ℤ)
    (distinct : ∀ j ∈ js, i ≠ j → (i : ZMod ss.modulus) ≠ j) :
    ∃ v : ℤ, js.foldlM (fun result j => do
        if i ≠ j then
          let inv ← modinv (i - j) ss.modulus
          return (result * (ir - j) * inv) % ss.modulus
        else
          return result) result = (.ok v : Py ℤ) ∧
      (v : ZMod ss.modulus) = result *
        (js.map fun j : ℤ => if (i : ZMod ss.modulus) = (j : ZMod ss.modulus) then 1
          else ((ir : ZMod ss.modulus) - j) * ((i : ZMod ss.modulus) - j)⁻¹).prod := by
  induction js generalizing result with
  | nil => exact ⟨result, rfl, by simp⟩
  | cons j js ih =>
      have rest : ∀ k ∈ js, i ≠ k → (i : ZMod ss.modulus) ≠ k :=
        fun k hk => distinct k (List.mem_cons_of_mem _ hk)
      rw [List.foldlM_cons]
      by_cases eq : i = j
      · obtain ⟨v, run, val⟩ := ih result rest
        refine ⟨v, ?_, ?_⟩
        · rw [← run, if_neg (not_not.mpr eq)]
          rfl
        · rw [val, List.map_cons, List.prod_cons, if_pos (by rw [eq]), one_mul]
      · have ne : (i : ZMod ss.modulus) ≠ j := distinct j List.mem_cons_self eq
        have nonzero : ((i - j : ℤ) : ZMod ss.modulus) ≠ 0 := by
          rw [Int.cast_sub]
          exact sub_ne_zero.mpr ne
        obtain ⟨inv, runInv, valInv⟩ := modinv_prime Fact.out nonzero
        obtain ⟨v, run, val⟩ := ih ((result * (ir - j) * inv) % ss.modulus) rest
        refine ⟨v, ?_, ?_⟩
        · rw [← run, if_pos eq, runInv]
          rfl
        · rw [val, List.map_cons, List.prod_cons, if_neg ne, ZMod.intCast_mod]
          push_cast [valInv]
          ring

/-- The integer points of a list are told apart by their residues. -/
def DistinctMod (m : ℕ) (xPoints : List ℤ) : Prop :=
  ∀ i ∈ xPoints, ∀ j ∈ xPoints, i ≠ j → (i : ZMod m) ≠ j

/-- `_recoverCoefficients` computes the Lagrange coefficients. -/
theorem recoverCoefficients_ok {xPoints : List ℤ}
    (distinct : DistinctMod ss.modulus xPoints) (ir : ℤ) :
    ∃ c : ℤ → ℤ, ss.recoverCoefficients xPoints ir = .ok (xPoints.map c) ∧
      ∀ i ∈ xPoints, (c i : ZMod ss.modulus) =
        Lib.lagrangeCoeff (xPoints.map (Int.cast : ℤ → ZMod ss.modulus)) ir i := by
  have each : ∀ i ∈ xPoints, ∃ v : ℤ, ss.recoverCoefficient xPoints ir i = .ok v ∧
      (v : ZMod ss.modulus) =
        Lib.lagrangeCoeff (xPoints.map (Int.cast : ℤ → ZMod ss.modulus)) ir i := by
    intro i hi
    obtain ⟨v, run, val⟩ := recoverCoefficient_loop ir i xPoints 1 (distinct i hi)
    refine ⟨v, run, ?_⟩
    rw [val, Lib.lagrangeCoeff, List.map_map, Int.cast_one, one_mul]
    rfl
  choose! c run val using each
  exact ⟨c, mapM_ok run, val⟩

/-- The weighted sum of `reconstruct`, reduced after every term. -/
theorem weightedSum_cast (m : ℕ) (ws : List (ℤ × Share)) (value : ℤ) :
    ((ws.foldl (fun value (c, s) => (value + c * s.share) % (m : ℤ)) value : ℤ) : ZMod m) =
      value + (ws.map fun w => (w.1 : ZMod m) * w.2.share).sum := by
  induction ws generalizing value with
  | nil => simp
  | cons w ws ih =>
      rw [List.foldl_cons, ih]
      simp only [ZMod.intCast_mod, Int.cast_add, Int.cast_mul, List.map_cons, List.sum_cons]
      ring

theorem weightedSum_range (m : ℕ) (pos : 0 < m) (ws : List (ℤ × Share)) :
    0 ≤ ws.foldl (fun value (c, s) => (value + c * s.share) % (m : ℤ)) (0 : ℤ) ∧
      ws.foldl (fun value (c, s) => (value + c * s.share) % (m : ℤ)) (0 : ℤ) < m := by
  have hpos : (0 : ℤ) < m := by exact_mod_cast pos
  induction ws using List.reverseRecOn with
  | nil => simpa using hpos
  | append_singleton ws w ih =>
      rw [List.foldl_append]
      exact ⟨Int.emod_nonneg _ hpos.ne', Int.emod_lt_of_pos _ hpos⟩

/-- Over shares of distinct parties that lie on one polynomial of degree below their
number, `reconstruct` returns the value of that polynomial at the target. -/
theorem reconstruct_eval {shares : List Share}
    (nodup : (shares.map fun s => ((s.x + 1 : ℤ) : ZMod ss.modulus)).Nodup)
    {Q : (ZMod ss.modulus)[X]} (deg : Q.degree < shares.length)
    (on : ∀ s ∈ shares, (s.share : ZMod ss.modulus) = Q.eval ((s.x + 1 : ℤ) : ZMod ss.modulus))
    (iq : ℤ) :
    ∃ v : ℤ, ss.reconstruct shares iq = .ok v ∧ 0 ≤ v ∧ v < ss.modulus ∧
      (v : ZMod ss.modulus) = Q.eval (iq : ZMod ss.modulus) := by
  set xPoints := shares.map fun s => s.x + 1 with hx
  have castPoints : (xPoints.map (Int.cast : ℤ → ZMod ss.modulus)) =
      shares.map fun s => ((s.x + 1 : ℤ) : ZMod ss.modulus) := by
    rw [hx, List.map_map]
    rfl
  have distinct : DistinctMod ss.modulus xPoints := by
    intro i hi j hj ne eq
    rw [← castPoints] at nodup
    exact ne (List.inj_on_of_nodup_map nodup hi hj eq)
  obtain ⟨c, run, val⟩ := recoverCoefficients_ok distinct iq
  have zipped : (xPoints.map c).zip shares = shares.map fun s => (c (s.x + 1), s) := by
    rw [hx, List.map_map, List.zip_map_left]
    simp [List.zip_eq_zipWith, List.zipWith_self]
  refine ⟨((xPoints.map c).zip shares).foldl
    (fun value (c, s) => (value + c * s.share) % ss.modulus) 0, ?_, ?_⟩
  · rw [ShamirSS.reconstruct, ← hx, run]
    rfl
  obtain ⟨low, high⟩ := weightedSum_range ss.modulus (Fact.out : ss.modulus.Prime).pos
    ((xPoints.map c).zip shares)
  refine ⟨low, high, ?_⟩
  rw [weightedSum_cast, zipped, Int.cast_zero, zero_add, List.map_map]
  rw [← Lib.lagrange_eval nodup (by simpa using deg), List.map_map]
  refine congrArg List.sum (List.map_congr_left fun s hs => ?_)
  have mem : s.x + 1 ∈ xPoints := List.mem_map.mpr ⟨s, hs, rfl⟩
  simp only [Function.comp_apply]
  rw [val _ mem, on s hs, castPoints]

/-- Distinct parties have distinct evaluation points. -/
theorem point_nodup {p n : ℕ} (lt : n < p) {is : List ℕ} (nodup : is.Nodup)
    (parties : ∀ i ∈ is, i < n) : (is.map (point p)).Nodup := by
  refine nodup.map_on fun i hi j hj eq => ?_
  have cast : ((i + 1 : ℕ) : ZMod p) = (j + 1 : ℕ) := by
    push_cast
    exact eq
  have mod := (ZMod.natCast_eq_natCast_iff' _ _ _).mp cast
  have hi' := parties i hi
  have hj' := parties j hj
  rw [Nat.mod_eq_of_lt (by omega), Nat.mod_eq_of_lt (by omega)] at mod
  omega

/-- Reconstruction at any point: the shares that enough distinct parties hold of a sharing, each under
its own index, give its value there. -/
theorem reconstruct_at (lt : ss.nparties < ss.modulus) {S : Set ℕ} {d : ℕ} {iq : ℤ}
    {v : ZMod ss.modulus} {f : ℕ → Share}
    (shared : Lib.SharedBelow d (iq : ZMod ss.modulus) (point ss.modulus) S v
      fun i => ((f i).share : ZMod ss.modulus)) {is : List ℕ} (x_eq : ∀ i ∈ is, (f i).x = i)
    (held : ∀ i ∈ is, i ∈ S) (nodup : is.Nodup) (parties : ∀ i ∈ is, i < ss.nparties)
    (enough : d ≤ is.length) :
    ∃ w : ℤ, ss.reconstruct (is.map f) iq = .ok w ∧ 0 ≤ w ∧ w < ss.modulus ∧
      (w : ZMod ss.modulus) = v := by
  obtain ⟨Q, degQ, atPoint, evQ⟩ := shared
  have points : ∀ i ∈ is, (((f i).x + 1 : ℤ) : ZMod ss.modulus) = point ss.modulus i := by
    intro i hi
    rw [x_eq i hi]
    simp [point]
  have distinct : ((is.map f).map fun s => ((s.x + 1 : ℤ) : ZMod ss.modulus)).Nodup := by
    rw [List.map_map]
    exact (List.map_congr_left points ▸ point_nodup lt nodup parties)
  have deg : Q.degree < ((is.map f).length : WithBot ℕ) := by
    rw [List.length_map]
    exact lt_of_lt_of_le degQ (by exact_mod_cast enough)
  obtain ⟨w, run, low, high, val⟩ := reconstruct_eval distinct deg
    (fun s hs => by
      obtain ⟨i, hi, rfl⟩ := List.mem_map.mp hs
      exact (evQ i (held i hi)).trans (congrArg (fun z => Q.eval z) (points i hi).symm)) iq
  exact ⟨w, run, low, high, val.trans atPoint⟩

/-- **Reconstruction**: the shares that enough distinct parties hold of a sharing, each
under its own index, give the shared value. -/
theorem reconstruct_shared (lt : ss.nparties < ss.modulus) {S : Set ℕ} {d : ℕ}
    {v : ZMod ss.modulus} {f : ℕ → Share}
    (shared : Lib.SharedBelow d 0 (point ss.modulus) S v
      fun i => ((f i).share : ZMod ss.modulus)) {is : List ℕ} (x_eq : ∀ i ∈ is, (f i).x = i)
    (held : ∀ i ∈ is, i ∈ S) (nodup : is.Nodup) (parties : ∀ i ∈ is, i < ss.nparties)
    (enough : d ≤ is.length) :
    ∃ w : ℤ, ss.reconstruct (is.map f) 0 = .ok w ∧ 0 ≤ w ∧ w < ss.modulus ∧
      (w : ZMod ss.modulus) = v := by
  rw [← Int.cast_zero] at shared
  exact reconstruct_at lt shared x_eq held nodup parties enough

end Reconstruct

end Prism.Crypto
