import Prism.Crypto.Shamir
import Prism.Lib.Hiding
import Mathlib.Data.Int.ConditionallyCompleteOrder
import Mathlib.Data.Int.Interval

/-!
What fewer parties than the threshold learn from their shares.

`ShamirSS.share` draws every coefficient with `randrange(1, modulus)`, so it never
draws zero. `viewCount` counts the coefficient vectors with which the shares of a
coalition take given values. The counts are compared over two sets of vectors:
`draws`, which `share` chooses from, and `undrawn`, the vectors over the field that it
leaves out.

* `hides_iff`: a coalition below the threshold sees nothing of the secret exactly when
  it is empty, and a given view is as frequent under two secrets among the draws
  exactly when it is so among the vectors that are left out.
* `single_view_iff`: one party tells two secrets apart exactly when its share is equal
  to one of them.
-/

namespace Prism.Crypto

open Lib.Hiding

namespace ShamirSS

variable (ss : ShamirSS)

/-- The coefficient vectors over the whole field. -/
noncomputable def vectors : Finset (Fin (ss.threshold - 1) → ℤ) :=
  Fintype.piFinset fun _ => Finset.Ico 0 (ss.modulus : ℤ)

/-- The coefficient vectors that `share` draws from. -/
noncomputable def draws : Finset (Fin (ss.threshold - 1) → ℤ) :=
  Fintype.piFinset fun _ => Finset.Ico 1 (ss.modulus : ℤ)

/-- The coefficient vectors that `randrange(1, modulus)` leaves out. -/
noncomputable def undrawn : Finset (Fin (ss.threshold - 1) → ℤ) :=
  ss.vectors.filter fun c => ∃ j, c j = 0

/-- The number of coefficient vectors among `C` for which the parties in `S` are handed
the values `v`. -/
def viewCount (C : Finset (Fin (ss.threshold - 1) → ℤ)) (S : Finset ℕ) (v : ℕ → ℤ)
    (secret : ℤ) : ℕ :=
  (C.filter fun c => ∀ i ∈ S, (ss.shareOf secret (List.ofFn c) i).share = v i).card

/-- The parties in `S` learn nothing: every view of theirs comes from as many draws for
one secret as for another. -/
def HidesFrom (S : Finset ℕ) : Prop :=
  ∀ s₁ s₂ : ℤ, 0 ≤ s₁ → s₁ < ss.modulus → 0 ≤ s₂ → s₂ < ss.modulus → ∀ v : ℕ → ℤ,
    ss.viewCount ss.draws S v s₁ = ss.viewCount ss.draws S v s₂

/-- `draws` are the lists that `share` can draw. -/
theorem isDraw_ofFn (c : Fin (ss.threshold - 1) → ℤ) : ss.IsDraw (List.ofFn c) ↔ c ∈ ss.draws := by
  simp [IsDraw, draws, List.mem_ofFn]

/-! ### The shares in the field -/

/-- A coefficient vector in the field. -/
def castVector {m : ℕ} (p : ℕ) (c : Fin m → ℤ) : Fin m → ZMod p := fun j => (c j : ZMod p)

/-- The polynomial of a list of coefficients is their power sum. -/
theorem coeffPoly_ofFn {m : ℕ} (p : ℕ) (c : Fin m → ℤ) (a : ZMod p) :
    (coeffPoly p (List.ofFn c)).eval a = ∑ j, (c j : ZMod p) * a ^ j.val := by
  induction m with
  | zero => simp [coeffPoly]
  | succ m ih =>
      rw [List.ofFn_succ, coeffPoly, Polynomial.eval_add, Polynomial.eval_C, Polynomial.eval_mul,
        Polynomial.eval_X, ih, Fin.sum_univ_succ, Finset.mul_sum]
      simp [pow_succ, mul_comm, mul_assoc]

theorem mem_vectors {c : Fin (ss.threshold - 1) → ℤ} :
    c ∈ ss.vectors ↔ ∀ j, 0 ≤ c j ∧ c j < ss.modulus := by
  simp [vectors]

theorem draws_eq : ss.draws = ss.vectors.filter fun c => ¬ ∃ j, c j = 0 := by
  ext c
  rw [Finset.mem_filter, mem_vectors, draws, Fintype.mem_piFinset, not_exists, ← forall_and]
  refine forall_congr' fun j => ?_
  rw [Finset.mem_Ico]
  omega

theorem draws_subset : ss.draws ⊆ ss.vectors := by
  rw [draws_eq]
  exact Finset.filter_subset _ _

theorem castVector_injOn :
    Set.InjOn (castVector ss.modulus) (ss.vectors : Set (Fin (ss.threshold - 1) → ℤ)) := by
  intro c hc d hd eq
  have hc := ss.mem_vectors.mp hc
  have hd := ss.mem_vectors.mp hd
  funext j
  have cast := congrFun eq j
  rw [castVector, castVector, ZMod.intCast_eq_intCast_iff'] at cast
  rwa [Int.emod_eq_of_lt (hc j).1 (hc j).2, Int.emod_eq_of_lt (hd j).1 (hd j).2] at cast

/-- A part of the vectors, in the field. -/
theorem castVector_mem_image {q : (Fin (ss.threshold - 1) → ℤ) → Prop} [DecidablePred q]
    {d : Fin (ss.threshold - 1) → ℤ} (mem : d ∈ ss.vectors) :
    castVector ss.modulus d ∈ (ss.vectors.filter q).image (castVector ss.modulus) ↔ q d := by
  rw [Finset.mem_image]
  constructor
  · rintro ⟨e, he, eq⟩
    rw [Finset.mem_filter] at he
    rw [← ss.castVector_injOn he.1 mem eq]
    exact he.2
  · intro hd
    exact ⟨d, Finset.mem_filter.mpr ⟨mem, hd⟩, rfl⟩

theorem card_draws : (ss.draws.image (castVector ss.modulus)).card =
    (ss.modulus - 1) ^ (ss.threshold - 1) := by
  rw [Finset.card_image_of_injOn (ss.castVector_injOn.mono ss.draws_subset), draws,
    Fintype.card_piFinset_const, Int.card_Ico]
  have : ((ss.modulus : ℤ) - 1).toNat = ss.modulus - 1 := by omega
  rw [this]

section Prime

variable [prime : Fact ss.modulus.Prime]

/-- The share of a party is the secret behind the mask of the coefficients. -/
theorem shareOf_cast (secret : ℤ) (c : Fin (ss.threshold - 1) → ℤ) (i : ℕ) :
    ((ss.shareOf secret (List.ofFn c) i).share : ZMod ss.modulus) =
      secret + mask (castVector ss.modulus c) (point ss.modulus i) := by
  rw [shareOf, P_cast, coeffPoly, Polynomial.eval_add, Polynomial.eval_C, Polynomial.eval_mul,
    Polynomial.eval_X, coeffPoly_ofFn, Finset.mul_sum]
  simp [mask, castVector, point, pow_succ, mul_comm, mul_left_comm]

/-- The point of a party is not zero. -/
theorem point_ne_zero (large : ss.nparties < ss.modulus) {i : ℕ} (party : i < ss.nparties) :
    point ss.modulus i ≠ 0 := by
  intro eq
  have divides : ss.modulus ∣ i + 1 := by
    rw [← ZMod.natCast_eq_zero_iff]
    simpa [point] using eq
  have le := Nat.le_of_dvd (Nat.succ_pos i) divides
  omega

theorem castVector_surj (c : Fin (ss.threshold - 1) → ZMod ss.modulus) :
    ∃ d ∈ ss.vectors, castVector ss.modulus d = c := by
  refine ⟨fun j => ((c j).val : ℤ), ?_, ?_⟩
  · refine ss.mem_vectors.mpr fun j => ⟨by positivity, ?_⟩
    exact_mod_cast ZMod.val_lt (c j)
  · funext j
    simp [castVector]

/-- The vectors that are left out are the rest of the field's. -/
theorem compl_draws :
    (ss.draws.image (castVector ss.modulus))ᶜ = ss.undrawn.image (castVector ss.modulus) := by
  ext c
  obtain ⟨d, mem, rfl⟩ := ss.castVector_surj c
  rw [Finset.mem_compl, draws_eq, undrawn, castVector_mem_image ss mem,
    castVector_mem_image ss mem, not_not]

/-- The draws are the vectors without a zero entry. -/
theorem mem_draws_image {c : Fin (ss.threshold - 1) → ZMod ss.modulus} :
    c ∈ ss.draws.image (castVector ss.modulus) ↔ ∀ j, c j ≠ 0 := by
  obtain ⟨d, mem, rfl⟩ := ss.castVector_surj c
  rw [draws_eq, castVector_mem_image ss mem, not_exists]
  refine forall_congr' fun j => not_congr ?_
  obtain ⟨low, high⟩ := ss.mem_vectors.mp mem j
  rw [castVector, ZMod.intCast_zmod_eq_zero_iff_dvd]
  constructor
  · intro zero
    rw [zero]
    exact dvd_zero _
  · intro divides
    exact Int.eq_zero_of_dvd_of_nonneg_of_lt low high divides

/-- Counting views of shares is counting views in the field. -/
theorem viewCount_eq {C : Finset (Fin (ss.threshold - 1) → ℤ)} (sub : C ⊆ ss.vectors)
    {S : Finset ℕ} {v : ℕ → ℤ} (range : ∀ i ∈ S, 0 ≤ v i ∧ v i < ss.modulus) (secret : ℤ) :
    ss.viewCount C S v secret =
      (matching (C.image (castVector ss.modulus)) (point ss.modulus) S (secret : ZMod ss.modulus)
        fun i => (v i : ZMod ss.modulus)).card := by
  have agree : ∀ c : Fin (ss.threshold - 1) → ℤ,
      (∀ i ∈ S, (ss.shareOf secret (List.ofFn c) i).share = v i) ↔
      ∀ i ∈ S, (secret : ZMod ss.modulus) + mask (castVector ss.modulus c) (point ss.modulus i) =
        (v i : ZMod ss.modulus) := by
    intro c
    refine forall₂_congr fun i hi => ?_
    obtain ⟨low, high⟩ := P_range ss prime.out.pos (secret :: List.ofFn c) (i + 1)
    rw [← shareOf_cast, ZMod.intCast_eq_intCast_iff', Int.emod_eq_of_lt (range i hi).1 (range i hi).2]
    rw [shareOf, Int.emod_eq_of_lt low high]
  rw [viewCount, matching, Finset.filter_image, Finset.card_image_of_injOn]
  · simp only [agree]
  · exact ss.castVector_injOn.mono fun c hc => sub (Finset.mem_filter.mp hc).1

/-- A value outside the field is nobody's share. -/
theorem viewCount_eq_zero {C : Finset (Fin (ss.threshold - 1) → ℤ)} {S : Finset ℕ} {v : ℕ → ℤ}
    (range : ¬ ∀ i ∈ S, 0 ≤ v i ∧ v i < ss.modulus) (secret : ℤ) :
    ss.viewCount C S v secret = 0 := by
  rw [viewCount, Finset.card_eq_zero, Finset.filter_eq_empty_iff]
  intro c _ all
  refine range fun i hi => ?_
  rw [← all i hi]
  exact P_range ss prime.out.pos _ _

/-- The number of draws is not a multiple of the modulus. -/
theorem not_dvd_card_draws :
    ¬ ss.modulus ∣ (ss.draws.image (castVector ss.modulus)).card := by
  rw [card_draws]
  intro divides
  have two := prime.out.two_le
  have le := Nat.le_of_dvd (by omega) (prime.out.dvd_of_dvd_pow divides)
  omega

/-- The draws show a view as often under two secrets exactly when the vectors that are
left out do. -/
theorem viewCount_iff (large : ss.nparties < ss.modulus) {S : Finset ℕ}
    (parties : ∀ i ∈ S, i < ss.nparties) (small : S.card ≤ ss.threshold - 1) (v : ℕ → ℤ)
    (s₁ s₂ : ℤ) :
    ss.viewCount ss.draws S v s₁ = ss.viewCount ss.draws S v s₂ ↔
      ss.viewCount ss.undrawn S v s₁ = ss.viewCount ss.undrawn S v s₂ := by
  by_cases range : ∀ i ∈ S, 0 ≤ v i ∧ v i < ss.modulus
  · have left : ss.undrawn ⊆ ss.vectors := Finset.filter_subset _ _
    rw [viewCount_eq ss ss.draws_subset range, viewCount_eq ss ss.draws_subset range,
      viewCount_eq ss left range, viewCount_eq ss left range, ← compl_draws]
    exact card_matching_iff (fun i hi => ss.point_ne_zero large (parties i hi)) small _ _ _
  · simp only [viewCount_eq_zero ss range]

/-- A coalition that learns nothing is empty. -/
theorem HidesFrom.eq_empty {S : Finset ℕ} (hides : ss.HidesFrom S) : S = ∅ := by
  by_contra ne
  apply ss.not_dvd_card_draws
  have uniform : ∀ (s s' : ZMod ss.modulus) (v : ℕ → ZMod ss.modulus),
      (matching (ss.draws.image (castVector ss.modulus)) (point ss.modulus) S s v).card =
        (matching (ss.draws.image (castVector ss.modulus)) (point ss.modulus) S s' v).card := by
    intro s s' v
    have lt : ∀ r : ZMod ss.modulus, (0 : ℤ) ≤ (r.val : ℤ) ∧ (r.val : ℤ) < ss.modulus := by
      intro r
      exact ⟨by positivity, by exact_mod_cast ZMod.val_lt r⟩
    have same := hides s.val s'.val (lt s).1 (lt s).2 (lt s').1 (lt s').2 fun i => (v i).val
    have range : ∀ i ∈ S, (0 : ℤ) ≤ ((v i).val : ℤ) ∧ ((v i).val : ℤ) < ss.modulus :=
      fun i _ => lt (v i)
    rw [viewCount_eq ss ss.draws_subset range, viewCount_eq ss ss.draws_subset range] at same
    simpa using same
  simpa [ZMod.card] using card_dvd_of_uniform (Finset.nonempty_iff_ne_empty.mpr ne) uniform

/-- The draws are closed under scaling. -/
theorem draws_scaled (k : ZMod ss.modulus) (unit : k ≠ 0)
    (c : Fin (ss.threshold - 1) → ZMod ss.modulus)
    (mem : c ∈ ss.draws.image (castVector ss.modulus)) :
    k • c ∈ ss.draws.image (castVector ss.modulus) := by
  rw [mem_draws_image] at mem ⊢
  intro j
  rw [Pi.smul_apply, smul_eq_mul]
  exact mul_ne_zero unit (mem j)

/-- **One party's view**: among the draws its share is as frequent under one secret as
under another exactly when it is equal to both or to neither. -/
theorem single_view_iff {i : ℕ} {v : ℕ → ℤ} {s₁ s₂ : ℤ} (low : 0 ≤ v i) (high : v i < ss.modulus)
    (low₁ : 0 ≤ s₁) (high₁ : s₁ < ss.modulus) (low₂ : 0 ≤ s₂) (high₂ : s₂ < ss.modulus) :
    ss.viewCount ss.draws {i} v s₁ = ss.viewCount ss.draws {i} v s₂ ↔ (v i = s₁ ↔ v i = s₂) := by
  have range : ∀ k ∈ ({i} : Finset ℕ), 0 ≤ v k ∧ v k < ss.modulus := by
    intro k mem
    rw [Finset.mem_singleton.mp mem]
    exact ⟨low, high⟩
  have masked : ∀ s : ℤ, ss.viewCount ss.draws {i} v s =
      ((ss.draws.image (castVector ss.modulus)).filter fun c =>
        mask c (point ss.modulus i) = (v i : ZMod ss.modulus) - s).card := by
    intro s
    rw [viewCount_eq ss ss.draws_subset range, matching]
    simp only [Finset.mem_singleton, forall_eq, eq_sub_iff_add_eq']
  have zero : ∀ s : ℤ, 0 ≤ s → s < ss.modulus →
      ((v i : ZMod ss.modulus) - s = 0 ↔ v i = s) := by
    intro s lowS highS
    rw [sub_eq_zero, ZMod.intCast_eq_intCast_iff', Int.emod_eq_of_lt low high,
      Int.emod_eq_of_lt lowS highS]
  rw [masked, masked, card_mask_eq_iff ss.draws_scaled, zero s₁ low₁ high₁, zero s₂ low₂ high₂]
  rw [ZMod.card]
  exact ss.not_dvd_card_draws

end Prime

/-! ### Hiding -/

/-- **What hiding is left below the threshold.** A coalition learns nothing exactly when
it is empty. A view of the others is as frequent under two secrets exactly when the
vectors with a zero entry, which are never drawn, match it equally often for both. -/
theorem hides_iff (prime : ss.modulus.Prime) (large : ss.nparties < ss.modulus) {S : Finset ℕ}
    (parties : ∀ i ∈ S, i < ss.nparties) (small : S.card ≤ ss.threshold - 1) :
    (ss.HidesFrom S ↔ S = ∅) ∧
      ∀ (v : ℕ → ℤ) (s₁ s₂ : ℤ),
        ss.viewCount ss.draws S v s₁ = ss.viewCount ss.draws S v s₂ ↔
          ss.viewCount ss.undrawn S v s₁ = ss.viewCount ss.undrawn S v s₂ := by
  have : Fact ss.modulus.Prime := ⟨prime⟩
  refine ⟨⟨HidesFrom.eq_empty ss, ?_⟩, ss.viewCount_iff large parties small⟩
  rintro rfl s₁ s₂ _ _ _ _ v
  simp [viewCount]

/-- Three parties, of which two recover the secret, over the field of five elements. -/
def exampleScheme : ShamirSS := ⟨3, 2, 5, three_parties⟩

/-- The first party of the example is not kept in the dark. -/
theorem exampleScheme_not_hides : ¬ exampleScheme.HidesFrom {0} := by
  intro hides
  have empty := (hides_iff exampleScheme (by decide) (by decide) (by decide) (by decide)).1.mp hides
  exact absurd empty (by decide)

/-- With one coefficient a share is never equal to the secret: the share 0 rules out the
secret 0, and comes from one draw for the secret 1. -/
theorem not_perfectly_hiding :
    ¬ ∀ ss : ShamirSS, ss.modulus.Prime → ss.nparties < ss.modulus → 2 ≤ ss.threshold →
      ∀ S : Finset ℕ, (∀ i ∈ S, i < ss.nparties) → S.card ≤ ss.threshold - 1 →
      ∀ s₁ s₂ : ℤ, 0 ≤ s₁ → s₁ < ss.modulus → 0 ≤ s₂ → s₂ < ss.modulus → ∀ v : ℕ → ℤ,
        ss.viewCount ss.draws S v s₁ = ss.viewCount ss.draws S v s₂ := by
  intro claim
  have same := claim exampleScheme (by decide) (by decide) (by decide) {0} (by decide) (by decide)
    0 1 (by decide) (by decide) (by decide) (by decide) fun _ => 0
  exact absurd same (by decide +kernel)

end ShamirSS

end Prism.Crypto
