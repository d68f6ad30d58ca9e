import Prism.Crypto.Feldman
import Prism.Crypto.WelchBerlekamp

/-!
Reconstruction from verifiable shares (`prism/common/crypto/secretsharing/feldmans.py`).

Shares are points of a Reed-Solomon code, and `reconstruct` first decodes them, which corrects wrong
ones. For a party's own share (`iq` from 1 on) the other parties' shares are decoded together with
the value 1 in the place of the missing one, which counts as an error unless it is right. Where the
decoder raises, the Lagrange sum is formed with the coefficients for all of these points, so that the
coefficients are one place off.

* `reconstruct_spec`: the secret comes out in spite of wrong shares, unless all shares are zero.
* `reconstruct_share`: what was shared is reconstructed.
* `reconstruct_missing`: which value comes out for a party's own share.
-/

namespace Prism.Crypto

open Polynomial Lib

/-- `str` of what the decoder raises. -/
def errorText : PyError → String
  | .runtimeError text => text
  | .indexError => "list index out of range"
  | .attributeError => "'float' object has no attribute 'inverse'"
  | _ => ""

/-- `c.n`. -/
def Number.n {p : ℕ} : Number p → Py ℤ
  | .mod a => .ok a.val
  | _ => .error .attributeError

namespace FeldmansVSS

variable (vss : FeldmansVSS)

/-- The `makeEncoderDecoder(nparties, threshold, modulus)` of the constructor. -/
def codec : EncoderDecoder vss.modulus :=
  ⟨vss.nparties, vss.threshold, vss.threshold_le, vss.parties_le⟩

/-- Lagrange coefficients are computed by the same loops as for Shamir's scheme. -/
def shamir : ShamirSS := ⟨vss.nparties, vss.threshold.toNat, vss.modulus, vss.parties_ge⟩

/-- `_recoverBWCoefficients`. -/
def recoverBWCoefficients (points : List (ℤ × ℤ)) : Py (List ℤ) := do
  let em := points.map fun (a, b) => ((a : ZMod vss.modulus), (b : ZMod vss.modulus))
  (← vss.codec.decode em).mapM Number.n

/-- `_recoverLagrangeCoefficients`. -/
def recoverLagrangeCoefficients (xPoints : List ℤ) (ir : ℤ) : Py (List ℤ) :=
  vss.shamir.recoverCoefficients xPoints ir

/-- The loop over the points other than `iq`, with the number of shares that were used. -/
def gatherLoop (shares : List FeldmanShare) (iq mode : ℤ) (acc : ℕ × List (ℤ × ℤ)) (i : ℕ) :
    Py (ℕ × List (ℤ × ℤ)) := do
  let (j, points) := acc
  if (i : ℤ) + 1 ≠ iq then return (j + 1, points ++ [((i : ℤ) + 1, (← pyIndex shares j).share)])
  else if mode = 0 then return (j, points ++ [((i : ℤ) + 1, 1)])
  else return (j, points)

/-- The points of `reconstruct`, and the values there. -/
def gather (shares : List FeldmanShare) (iq mode : ℤ) : Py (List (ℤ × ℤ)) := do
  if iq = 0 then return shares.map fun share => ((share.x : ℤ) + 1, share.share)
  else return (← (List.range (shares.length + 1)).foldlM (gatherLoop shares iq mode) (0, [])).2

/-- The Lagrange sum, over as many coefficients as there are shares. -/
def lagrangeSum (shares : List FeldmanShare) (points : List (ℤ × ℤ)) (iq : ℤ) : Py ℤ := do
  let coeff ← vss.recoverLagrangeCoefficients (points.map Prod.fst) iq
  (List.range shares.length).foldlM (fun value i => do
    return (value + (← pyIndex coeff i) * (← pyIndex shares i).share) % vss.modulus) 0

/-- `reconstruct`: there are no other modes. -/
def reconstruct (shares : List FeldmanShare) (iq mode : ℤ) : Py (Option ℤ) := do
  let points ← gather shares iq mode
  if mode = 0 then
    match vss.recoverBWCoefficients points with
    | .ok coeff => return some (vss.P coeff iq)
    | .error e =>
      if iq ≤ 0 then
        .error (.runtimeError ("Error during Berlekamp-Welch interpolation: " ++ errorText e))
      else return some (← vss.lagrangeSum shares points iq)
  else if mode = 1 then return some (← vss.lagrangeSum shares points iq)
  else return none

end FeldmansVSS

/-! ### Decoding -/

namespace FeldmansVSS

section Decoding

variable {vss : FeldmansVSS} [Fact vss.modulus.Prime]

theorem coeffPoly_eq (q : ℕ) (cs : List ℤ) :
    coeffPoly q cs = ofCoeffs (cs.map (Int.cast : ℤ → ZMod q)) := by
  induction cs with
  | nil => rfl
  | cons c cs ih => rw [coeffPoly, ih, List.map_cons, ofCoeffs_cons]

/-- The coefficients as numbers. -/
theorem mapM_n {q : ℕ} [NeZero q] {f : Poly q} (typed : InField f.coefficients) :
    ∃ coeff : List ℤ, f.coefficients.mapM Number.n = .ok coeff ∧ coeffPoly q coeff = f.toPoly := by
  refine ⟨f.coefficients.map fun c => (c.toField.val : ℤ), mapM_ok fun c mem => ?_, ?_⟩
  · obtain ⟨a, rfl⟩ := typed c mem
    rfl
  · rw [coeffPoly_eq, List.map_map, Poly.toPoly, values]
    refine congrArg ofCoeffs (List.map_congr_left fun c _ => ?_)
    simp

/-- The decoder's view of points and values. -/
def received (q : ℕ) (points : List (ℤ × ℤ)) : Codeword q :=
  points.map fun (a, b) => ((a : ZMod q), (b : ZMod q))

/-- **Decoding shares**: the coefficients of a polynomial that explains them, or an exception where
there is none. -/
theorem recoverBW_spec {points : List (ℤ × ℤ)}
    (distinct : (points.map fun x => (x.1 : ZMod vss.modulus)).Nodup)
    (enough : vss.threshold + 2 * vss.codec.maxE ≤ points.length) :
    (∀ P : (ZMod vss.modulus)[X], P.degree < vss.threshold.toNat →
      (points.countP fun x => P.eval (x.1 : ZMod vss.modulus) ≠ x.2) ≤ vss.codec.maxE →
      ¬ ZeroColumn vss.codec.maxE (received vss.modulus points) →
      ∃ coeff, vss.recoverBWCoefficients points = .ok coeff ∧ coeffPoly vss.modulus coeff = P) ∧
    (ZeroColumn vss.codec.maxE (received vss.modulus points) ∨
      (∀ P : (ZMod vss.modulus)[X], P.degree < vss.threshold.toNat → vss.codec.maxE <
        points.countP fun x => P.eval (x.1 : ZMod vss.modulus) ≠ x.2) →
      ∃ e, vss.recoverBWCoefficients points = .error e) := by
  have distinct' : ((received vss.modulus points).map Prod.fst).Nodup := by
    rw [received, List.map_map]
    exact distinct
  have enough' : vss.codec.k + 2 * vss.codec.maxE ≤ (received vss.modulus points).length := by
    rw [received, List.length_map]
    exact enough
  have count : ∀ P : (ZMod vss.modulus)[X],
      (received vss.modulus points).countP (fun x => P.eval x.1 ≠ x.2) =
        points.countP fun x => P.eval (x.1 : ZMod vss.modulus) ≠ x.2 := by
    intro P
    rw [received, List.countP_map]
    rfl
  have : NeZero vss.modulus := ⟨(Fact.out : vss.modulus.Prime).ne_zero⟩
  constructor
  · intro P small close nonzero
    rw [← count] at close
    obtain ⟨f, run, typed, same⟩ := decode_complete distinct' enough' nonzero small close
    obtain ⟨coeff, collected, poly⟩ := mapM_n typed
    exact ⟨coeff, by rw [recoverBWCoefficients]; exact run ▸ collected, poly.trans same⟩
  · intro bad
    cases run : vss.codec.decode (received vss.modulus points) with
    | error e => exact ⟨e, by rw [recoverBWCoefficients]; exact run ▸ rfl⟩
    | ok cs =>
        obtain ⟨nonzero, f, rfl, typed, small, close⟩ := decode_sound distinct' enough' run
        rw [count] at close
        rcases bad with zero | far
        · exact absurd zero nonzero
        · exact absurd close (not_le_of_gt (far _ small))

/-- The value of decoded coefficients. -/
theorem P_of_coeffPoly {coeff : List ℤ} {P : (ZMod vss.modulus)[X]}
    (poly : coeffPoly vss.modulus coeff = P) (x : ℤ) : 0 ≤ vss.P coeff x ∧
      vss.P coeff x < vss.modulus ∧ (vss.P coeff x : ZMod vss.modulus) = P.eval (x : ZMod _) := by
  obtain ⟨low, high, value⟩ := P_spec (Fact.out : vss.modulus.Prime).pos coeff x
  exact ⟨low, high, by rw [value, poly]⟩

/-- The point of a share, as a residue. -/
theorem point_ne_zero {x : ℕ} (lt : x + 1 < vss.modulus) : ((x : ZMod vss.modulus) + 1) ≠ 0 := by
  intro zero
  have cast : ((x + 1 : ℕ) : ZMod vss.modulus) = 0 := by
    push_cast
    exact zero
  have dvd := (ZMod.natCast_eq_zero_iff _ _).mp cast
  exact absurd (Nat.le_of_dvd (Nat.succ_pos x) dvd) (not_le_of_gt lt)

theorem points_distinct {xs : List ℕ} (distinct : xs.Nodup) (lt : ∀ x ∈ xs, x + 1 < vss.modulus) :
    (xs.map fun x : ℕ => (x : ZMod vss.modulus) + 1).Nodup := by
  refine distinct.map_on fun x hx y hy same => ?_
  have mod := (ZMod.natCast_eq_natCast_iff' _ _ _).mp (add_right_cancel same)
  have := lt x hx
  have := lt y hy
  rwa [Nat.mod_eq_of_lt (by omega), Nat.mod_eq_of_lt (by omega)] at mod

/-- At least one wrong share can be corrected. -/
theorem maxE_pos (vss : FeldmansVSS) : 0 < vss.codec.maxE := by
  have := vss.parties_ge
  have := vss.threshold_lt
  have : vss.codec.n = vss.nparties := rfl
  have : vss.codec.k = vss.threshold := rfl
  unfold EncoderDecoder.maxE
  omega

section Secret

variable {shares : List FeldmanShare} (distinct : (shares.map (·.x)).Nodup)
  (parties : ∀ s ∈ shares, s.x + 1 < vss.modulus)
  (enough : vss.threshold + 2 * vss.codec.maxE ≤ shares.length)

/-- The points that are decoded for the secret. -/
def secretPoints (shares : List FeldmanShare) : List (ℤ × ℤ) :=
  shares.map fun s => ((s.x : ℤ) + 1, s.share)

theorem count_secretPoints (shares : List FeldmanShare) (P : (ZMod vss.modulus)[X]) :
    ((secretPoints shares).countP fun x => P.eval (x.1 : ZMod vss.modulus) ≠ x.2) =
      shares.countP fun s => P.eval ((s.x : ZMod vss.modulus) + 1) ≠ s.share := by
  simp [secretPoints, List.countP_map, Function.comp_def]

include distinct parties in
theorem secretPoints_distinct :
    ((secretPoints shares).map fun x => (x.1 : ZMod vss.modulus)).Nodup := by
  have nodup := @points_distinct vss _ _ distinct fun x mem => by
    obtain ⟨s, hs, rfl⟩ := List.mem_map.mp mem
    exact parties s hs
  rw [List.map_map] at nodup
  simpa [secretPoints, Function.comp_def] using nodup

include parties in
/-- No point is zero, so that a variable is missing just if all shares are zero. -/
theorem zeroColumn_secretPoints :
    ZeroColumn vss.codec.maxE (received vss.modulus (secretPoints shares)) ↔
      ∀ s ∈ shares, (s.share : ZMod vss.modulus) = 0 := by
  constructor
  · rintro ⟨j, -, zero⟩ s mem
    have product := zero ((s.x : ZMod vss.modulus) + 1, s.share)
      (by simpa [received, secretPoints] using ⟨s, mem, rfl, rfl⟩)
    exact (mul_eq_zero.mp product).resolve_right (pow_ne_zero j (point_ne_zero (parties s mem)))
  · refine fun zero => ⟨0, maxE_pos vss, fun x mem => ?_⟩
    simp only [received, secretPoints, List.map_map, List.mem_map] at mem
    obtain ⟨s, hs, rfl⟩ := mem
    simp [zero s hs]

include distinct parties enough

theorem reconstruct_complete {P : (ZMod vss.modulus)[X]} (small : P.degree < vss.threshold.toNat)
    (close : (shares.countP fun s => P.eval ((s.x : ZMod vss.modulus) + 1) ≠ s.share) ≤
      vss.codec.maxE) (nonzero : ∃ s ∈ shares, (s.share : ZMod vss.modulus) ≠ 0) :
    ∃ w, vss.reconstruct shares 0 0 = .ok (some w) ∧ 0 ≤ w ∧ w < vss.modulus ∧
      (w : ZMod vss.modulus) = P.eval 0 := by
  obtain ⟨s, mem, ne⟩ := nonzero
  obtain ⟨complete, -⟩ := recoverBW_spec (secretPoints_distinct distinct parties)
    (by simpa [secretPoints] using enough)
  obtain ⟨coeff, run, poly⟩ := complete P small (by rwa [count_secretPoints]) fun zero =>
    ne ((zeroColumn_secretPoints parties).mp zero s mem)
  obtain ⟨low, high, value⟩ := P_of_coeffPoly poly 0
  refine ⟨_, ?_, low, high, by simpa using value⟩
  rw [reconstruct, show gather shares 0 0 = .ok (secretPoints shares) from rfl, ok_bind, if_pos rfl,
    run]
  rfl

theorem reconstruct_raises (bad : (∀ s ∈ shares, (s.share : ZMod vss.modulus) = 0) ∨
      ∀ P : (ZMod vss.modulus)[X], P.degree < vss.threshold.toNat → vss.codec.maxE <
        shares.countP fun s => P.eval ((s.x : ZMod vss.modulus) + 1) ≠ s.share) :
    ∃ text, vss.reconstruct shares 0 0 = .error (.runtimeError text) := by
  obtain ⟨-, raises⟩ := recoverBW_spec (secretPoints_distinct distinct parties)
    (by simpa [secretPoints] using enough)
  obtain ⟨e, run⟩ := raises (bad.imp (zeroColumn_secretPoints parties).mpr fun far P small => by
    rw [count_secretPoints]
    exact far P small)
  refine ⟨"Error during Berlekamp-Welch interpolation: " ++ errorText e, ?_⟩
  rw [reconstruct, show gather shares 0 0 = .ok (secretPoints shares) from rfl, ok_bind, if_pos rfl,
    run]
  rfl

/-- **Reconstruction of the secret** is exact: a polynomial that all shares but `maxE` lie on gives
it, unless all shares are zero, and there is an exception otherwise. -/
theorem reconstruct_spec :
    (∀ P : (ZMod vss.modulus)[X], P.degree < vss.threshold.toNat →
      (shares.countP fun s => P.eval ((s.x : ZMod vss.modulus) + 1) ≠ s.share) ≤ vss.codec.maxE →
      (∃ s ∈ shares, (s.share : ZMod vss.modulus) ≠ 0) →
      ∃ w, vss.reconstruct shares 0 0 = .ok (some w) ∧ 0 ≤ w ∧ w < vss.modulus ∧
        (w : ZMod vss.modulus) = P.eval 0) ∧
    ((∀ s ∈ shares, (s.share : ZMod vss.modulus) = 0) ∨
      (∀ P : (ZMod vss.modulus)[X], P.degree < vss.threshold.toNat → vss.codec.maxE <
        shares.countP fun s => P.eval ((s.x : ZMod vss.modulus) + 1) ≠ s.share) →
      ∃ text, vss.reconstruct shares 0 0 = .error (.runtimeError text)) :=
  ⟨fun _ small close nonzero => reconstruct_complete distinct parties enough small close nonzero,
    fun bad => reconstruct_raises distinct parties enough bad⟩

end Secret

omit [Fact vss.modulus.Prime] in
/-- What the dealer hands out. -/
theorem share_eq {value : Shareable} {drawn : List ℤ} {coeffRequired : Bool}
    {sent : List FeldmanShare} (shared : vss.share value drawn coeffRequired = .ok sent) {i : ℕ}
    (lt : i < vss.nparties) :
    sent[i]?.map (·.share) = some (vss.P (value.constant :: drawn) (i + 1)) := by
  obtain ⟨first, -, rest⟩ := bind_eq_ok.mp shared
  obtain ⟨rest, -, result⟩ := bind_eq_ok.mp rest
  rw [← Except.ok.inj result]
  simp [lt]

theorem eval_coeffPoly_zero (q : ℕ) (c : ℤ) (cs : List ℤ) :
    (coeffPoly q (c :: cs)).eval 0 = (c : ZMod q) := by
  simp [coeffPoly]

/-- **What was shared is reconstructed**, from any parties' shares of which at most `maxE` are
wrong. -/
theorem reconstruct_share {value : Shareable} {drawn : List ℤ} {coeffRequired : Bool}
    {sent shares : List FeldmanShare} (draw : vss.IsDraw drawn) (pos : 1 ≤ vss.threshold)
    (large : vss.nparties < vss.modulus) (shared : vss.share value drawn coeffRequired = .ok sent)
    (distinct : (shares.map (·.x)).Nodup) (parties : ∀ s ∈ shares, s.x < vss.nparties)
    (enough : vss.threshold + 2 * vss.codec.maxE ≤ shares.length)
    (errors : (shares.countP fun s => sent[s.x]?.map (·.share) ≠ some s.share) ≤ vss.codec.maxE)
    (nonzero : ∃ s ∈ shares, (s.share : ZMod vss.modulus) ≠ 0) :
    vss.reconstruct shares 0 0 = .ok (some (value.constant % vss.modulus)) := by
  have degree : (coeffPoly vss.modulus (value.constant :: drawn)).degree < vss.threshold.toNat := by
    refine (coeffPoly_degree _ _).trans_le ?_
    rw [List.length_cons, draw.1]
    exact_mod_cast show (vss.threshold - 1).toNat + 1 ≤ vss.threshold.toNat by omega
  have wrong : (shares.countP fun s => (coeffPoly vss.modulus (value.constant :: drawn)).eval
      ((s.x : ZMod vss.modulus) + 1) ≠ s.share) ≤ vss.codec.maxE := by
    refine (List.countP_mono_left fun s mem differs => ?_).trans errors
    rw [decide_eq_true_eq] at differs ⊢
    refine fun same => differs ?_
    rw [share_eq shared (parties s mem), Option.some.injEq] at same
    rw [← same, (P_spec (Fact.out : vss.modulus.Prime).pos _ _).2.2]
    push_cast
    rfl
  obtain ⟨w, run, low, high, value'⟩ := reconstruct_complete distinct
    (fun s mem => lt_of_le_of_lt (parties s mem) large) enough degree wrong nonzero
  rw [eval_coeffPoly_zero, ZMod.intCast_eq_intCast_iff'] at value'
  rw [run, ← value', Int.emod_eq_of_lt low high]

/-! ### A party's own share -/

section Missing

variable {shares : List FeldmanShare} {k : ℕ}

/-- The value that is decoded at the point `i + 1`, for the share of party `k + 1`. -/
def valueFor (shares : List FeldmanShare) (k i : ℕ) : ℤ :=
  if i = k then 1 else (shares[if i < k then i else i - 1]?.map (·.share)).getD 0

/-- The points that are decoded, among them the missing one. -/
def missingPoints (shares : List FeldmanShare) (k m : ℕ) : List (ℤ × ℤ) :=
  (List.range m).map fun i : ℕ => ((i : ℤ) + 1, valueFor shares k i)

/-- The loop that puts the points together, after `m` rounds. -/
theorem gatherLoop_run (le : k ≤ shares.length) {m : ℕ} (bound : m ≤ shares.length + 1) :
    (List.range m).foldlM (gatherLoop shares (k + 1) 0) (0, []) =
      .ok (if m ≤ k then m else m - 1, missingPoints shares k m) := by
  induction m with
  | zero => rfl
  | succ m ih =>
      have split : missingPoints shares k (m + 1) =
          missingPoints shares k m ++ [((m : ℤ) + 1, valueFor shares k m)] := by
        simp [missingPoints, List.range_succ]
      rw [List.range_succ, List.foldlM_append, ih (by omega), ok_bind, List.foldlM_cons, gatherLoop,
        split]
      by_cases here : m = k
      · subst here
        simp only [ne_eq, not_true_eq_false, if_false, if_true, le_refl]
        rw [if_neg (by omega), valueFor, if_pos rfl]
        rfl
      · have other : (m : ℤ) + 1 ≠ k + 1 := by omega
        have inside : (if m ≤ k then m else m - 1) < shares.length := by
          split_ifs <;> omega
        have value : valueFor shares k m = (shares[if m ≤ k then m else m - 1]).share := by
          rw [valueFor, if_neg here]
          have place : (if m < k then m else m - 1) = if m ≤ k then m else m - 1 := by
            split_ifs <;> omega
          simp [place, inside]
        have next : (if m ≤ k then m else m - 1) + 1 = if m + 1 ≤ k then m + 1 else m + 1 - 1 := by
          split_ifs <;> omega
        simp only [if_pos other, pyIndex, List.getElem?_eq_getElem inside, ok_bind]
        rw [value, ← next]
        rfl

theorem gather_missing (le : k ≤ shares.length) :
    gather shares (k + 1) 0 = .ok (missingPoints shares k (shares.length + 1)) := by
  rw [gather, if_neg (by omega), gatherLoop_run le le_rfl]
  rfl

/-- The other parties' shares are in order. -/
def OthersInOrder (shares : List FeldmanShare) (k : ℕ) : Prop :=
  shares.map (·.x) = (List.range (shares.length + 1)).eraseIdx k

instance (shares : List FeldmanShare) (k : ℕ) : Decidable (OthersInOrder shares k) := by
  unfold OthersInOrder; infer_instance

theorem OthersInOrder.x_eq (order : OthersInOrder shares k) {j : ℕ} (lt : j < shares.length) :
    shares[j].x = if j < k then j else j + 1 := by
  have entry := congrArg (fun xs => xs[j]?) order
  simp only [List.getElem?_map, List.getElem?_eraseIdx, List.getElem?_eq_getElem lt] at entry
  split_ifs at entry ⊢ with before
  · simpa [show j < shares.length + 1 by omega] using entry
  · simpa [show j + 1 < shares.length + 1 by omega] using entry

/-- The missing point is put among the others. -/
theorem missingPoints_eq (order : OthersInOrder shares k) (le : k ≤ shares.length) :
    missingPoints shares k (shares.length + 1) =
      (secretPoints shares).insertIdx k ((k : ℤ) + 1, 1) := by
  have length : (secretPoints shares).length = shares.length := List.length_map _
  refine List.ext_getElem ?_ fun i hi hi' => ?_
  · rw [List.length_insertIdx_of_le_length (by omega), length]
    simp [missingPoints]
  · rw [List.getElem_insertIdx]
    simp only [missingPoints, List.getElem_map, List.getElem_range, valueFor]
    have bound : i < shares.length + 1 := by simpa [missingPoints] using hi
    rcases lt_trichotomy i k with before | rfl | after
    · rw [dif_pos before, if_neg before.ne, if_pos before]
      have inside : i < shares.length := by omega
      simp [secretPoints, inside, order.x_eq inside, before]
    · simp
    · have inside : i - 1 < shares.length := by omega
      rw [dif_neg (by omega), dif_neg (by omega), if_neg (by omega), if_neg (by omega)]
      have x := order.x_eq inside
      rw [if_neg (by omega)] at x
      simp only [secretPoints, List.getElem_map, x, List.getElem?_eq_getElem inside,
        Option.map_some, Option.getD_some]
      rw [show i - 1 + 1 = i by omega]

variable (order : OthersInOrder shares k) (le : k ≤ shares.length)
  (large : shares.length + 1 < vss.modulus)

/-- The wrong points: the wrong shares, and the missing one unless it is 1. -/
theorem count_missingPoints (P : (ZMod vss.modulus)[X]) (order : OthersInOrder shares k)
    (le : k ≤ shares.length) :
    ((missingPoints shares k (shares.length + 1)).countP fun x =>
      P.eval (x.1 : ZMod vss.modulus) ≠ x.2) =
        (shares.countP fun s => P.eval ((s.x : ZMod vss.modulus) + 1) ≠ s.share) +
          if P.eval ((k : ZMod vss.modulus) + 1) = 1 then 0 else 1 := by
  have length : (secretPoints shares).length = shares.length := List.length_map _
  rw [missingPoints_eq order le, (List.perm_insertIdx _ _ (by omega)).countP_eq, List.countP_cons,
    count_secretPoints]
  by_cases one : P.eval ((k : ZMod vss.modulus) + 1) = 1 <;> simp [one]

include large in
theorem missingPoints_distinct : ((missingPoints shares k (shares.length + 1)).map fun x =>
    (x.1 : ZMod vss.modulus)).Nodup := by
  have nodup := @points_distinct vss _ (List.range (shares.length + 1)) List.nodup_range
    fun x mem => lt_of_le_of_lt (List.mem_range.mp mem) large
  simpa [missingPoints, Function.comp_def] using nodup

include le large in
/-- The value 1 occurs in an equation. -/
theorem nonzero_missingPoints (m : ℕ) : ¬ ZeroColumn m
    (received vss.modulus (missingPoints shares k (shares.length + 1))) := by
  rintro ⟨j, -, zero⟩
  have product := zero ((k : ZMod vss.modulus) + 1, 1) (by
    simp only [received, missingPoints, List.map_map, List.mem_map, List.mem_range]
    exact ⟨k, by omega, by simp [valueFor]⟩)
  rw [one_mul] at product
  exact pow_ne_zero j (point_ne_zero (lt_of_le_of_lt (by omega) large)) product

/-- The next party's share, as it is reduced. -/
def nextShare (vss : FeldmansVSS) (shares : List FeldmanShare) (k : ℕ) : ℤ :=
  match shares[k]? with
  | some s => s.share % vss.modulus
  | none => 0

/-- The loop of the Lagrange sum after `m` rounds, where all coefficients but one are zero. -/
theorem lagrangeLoop_run {c : ℕ → ℤ} (own : (c k : ZMod vss.modulus) = 1)
    (others : ∀ i ≤ shares.length, i ≠ k → (c i : ZMod vss.modulus) = 0) {m : ℕ}
    (bound : m ≤ shares.length) :
    ∃ v : ℤ, (List.range m).foldlM (fun value i => do
        return (value + (← pyIndex ((List.range (shares.length + 1)).map c) i) *
          (← pyIndex shares i).share) % vss.modulus) 0 = (.ok v : Py ℤ) ∧ 0 ≤ v ∧
      v < vss.modulus ∧ (v : ZMod vss.modulus) = nextShare vss (shares.take m) k := by
  have pos : (0 : ℤ) < vss.modulus := by exact_mod_cast (Fact.out : vss.modulus.Prime).pos
  induction m with
  | zero => exact ⟨0, rfl, le_rfl, pos, by simp [nextShare]⟩
  | succ m ih =>
      obtain ⟨v, run, low, high, value⟩ := ih (by omega)
      have inside : m < shares.length := by omega
      refine ⟨(v + c m * shares[m].share) % vss.modulus, ?_, Int.emod_nonneg _ pos.ne',
        Int.emod_lt_of_pos _ pos, ?_⟩
      · rw [List.range_succ (n := m), List.foldlM_append, run, ok_bind, List.foldlM_cons,
          pyIndex_map_range c (by omega), ok_bind]
        simp only [pyIndex, List.getElem?_eq_getElem inside]
        rfl
      · rw [ZMod.intCast_mod, Int.cast_add, Int.cast_mul, value]
        by_cases here : m = k
        · subst here
          rw [own]
          simp [nextShare, inside]
        · rw [others m (by omega) here, zero_mul, add_zero, nextShare, nextShare, List.getElem?_take,
            List.getElem?_take]
          have same : k < m ↔ k < m + 1 := by omega
          simp only [same]

include le large in
/-- **The Lagrange sum over all points** picks the next party's share. -/
theorem lagrangeSum_missing :
    vss.lagrangeSum shares (missingPoints shares k (shares.length + 1)) (k + 1) =
      .ok (nextShare vss shares k) := by
  have : Fact vss.shamir.modulus.Prime := ‹Fact vss.modulus.Prime›
  let xs : List ℤ := (missingPoints shares k (shares.length + 1)).map Prod.fst
  have xs_eq : xs = (List.range (shares.length + 1)).map fun i : ℕ => (i : ℤ) + 1 := by
    simp [xs, missingPoints, Function.comp_def]
  have nodup := missingPoints_distinct (k := k) large
  have distinct : DistinctMod vss.modulus xs := by
    intro i hi j hj ne same
    have nodup' : (xs.map (Int.cast : ℤ → ZMod vss.modulus)).Nodup := by
      rw [List.map_map]
      exact nodup
    exact ne (List.inj_on_of_nodup_map nodup' hi hj same)
  obtain ⟨c, run, coefficient⟩ := @recoverCoefficients_ok vss.shamir _ xs distinct (k + 1)
  have mem : ∀ i ≤ shares.length, (i : ℤ) + 1 ∈ xs := by
    intro i hi
    rw [xs_eq]
    exact List.mem_map.mpr ⟨i, List.mem_range.mpr (by omega), rfl⟩
  have target : (((k : ℤ) + 1 : ℤ) : ZMod vss.modulus) ∈
      xs.map (Int.cast : ℤ → ZMod vss.modulus) := List.mem_map.mpr ⟨_, mem k le, rfl⟩
  have own : (c ((k : ℤ) + 1) : ZMod vss.modulus) = 1 :=
    (coefficient _ (mem k le)).trans (lagrangeCoeff_self _ _)
  have others : ∀ i ≤ shares.length, i ≠ k → (c ((i : ℤ) + 1) : ZMod vss.modulus) = 0 := by
    intro i hi other
    exact (coefficient _ (mem i hi)).trans (lagrangeCoeff_other target
      (distinct _ (mem i hi) _ (mem k le) (by omega)))
  obtain ⟨v, sum, low, high, value⟩ := lagrangeLoop_run own others (le_refl shares.length)
  have reduced : 0 ≤ nextShare vss shares k ∧ nextShare vss shares k < vss.modulus := by
    have pos : (0 : ℤ) < vss.modulus := by exact_mod_cast (Fact.out : vss.modulus.Prime).pos
    unfold nextShare
    split
    · exact ⟨Int.emod_nonneg _ pos.ne', Int.emod_lt_of_pos _ pos⟩
    · exact ⟨le_rfl, pos⟩
  rw [List.take_length] at value
  rw [(eq_of_residues low high reduced.1 reduced.2).mpr value] at sum
  rw [lagrangeSum, recoverLagrangeCoefficients]
  change (vss.shamir.recoverCoefficients xs (k + 1) >>= _) = _
  rw [run, ok_bind, xs_eq, List.map_map]
  exact sum

end Missing

end Decoding

/-- The secret 2 is shared with the polynomial `2 + x` modulo 5, and the second share is wrong. -/
def wrongShares : List FeldmanShare := [⟨3, 0, none, none⟩, ⟨1, 1, none, none⟩, ⟨0, 2, none, none⟩,
  ⟨1, 3, none, none⟩]

theorem prime_five : Fact (Nat.Prime 5) := ⟨by decide⟩

/-- What the scheme of the example makes of shares. -/
theorem wrongShares_spec :
    (∀ P : (ZMod example11.modulus)[X], P.degree < example11.threshold.toNat →
      (wrongShares.countP fun s => P.eval ((s.x : ZMod example11.modulus) + 1) ≠ s.share) ≤
        example11.codec.maxE →
      (∃ s ∈ wrongShares, (s.share : ZMod example11.modulus) ≠ 0) →
      ∃ w, example11.reconstruct wrongShares 0 0 = .ok (some w) ∧ 0 ≤ w ∧ w < example11.modulus ∧
        (w : ZMod example11.modulus) = P.eval 0) ∧
    ((∀ s ∈ wrongShares, (s.share : ZMod example11.modulus) = 0) ∨
      (∀ P : (ZMod example11.modulus)[X], P.degree < example11.threshold.toNat →
        example11.codec.maxE <
          wrongShares.countP fun s => P.eval ((s.x : ZMod example11.modulus) + 1) ≠ s.share) →
      ∃ text, example11.reconstruct wrongShares 0 0 = .error (.runtimeError text)) :=
  @reconstruct_spec example11 prime_five wrongShares (by decide) (by decide) (by decide)

theorem wrongShares_reconstructed : example11.reconstruct wrongShares 0 0 = .ok (some 2) :=
  @reconstruct_share example11 prime_five (.secret 2) [1] false
    [⟨3, 0, none, some 9⟩, ⟨4, 1, none, some 9⟩, ⟨0, 2, none, some 9⟩, ⟨1, 3, none, some 9⟩]
    wrongShares (by decide) (by decide) (by decide) rfl (by decide) (by decide) (by decide)
    (by decide) (by decide)

end FeldmansVSS

end Prism.Crypto
