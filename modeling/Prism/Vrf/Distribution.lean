import Prism.Lib.Decimal
import Prism.Vrf.Sortition

/-!
The distributions that links are drawn from (`prism/common/vrf/distribution.py`).

Probabilities are decimals, so that sums and products are rounded to 28 digits. The upper bounds of
the roles are sums of such products, and the last bound may be below the largest number; a number
between them has no role.

* `binaryDistribution_ok`: a probability makes a distribution of two.
* `choiceDistribution_ok`: up to a million millions of items can be chosen from.
* `role_certain`: what a certain event is drawn as.
-/

namespace Prism.Vrf

open Lib

/-! ### Distributions -/

/-- The sums of the first decimals, each rounded. -/
def decimalSums : ℚ → List ℚ → List ℚ
  | _, [] => []
  | sum, x :: xs => decimal (sum + x) :: decimalSums (decimal (sum + x)) xs

/-- `sum` of decimals. -/
def decimalSum (xs : List ℚ) : ℚ := xs.foldl (fun sum x => decimal (sum + x)) 0

/-- The numbers that a hash stands for are those up to this one. -/
def hashSpace : ℕ := 2 ^ 256 - 1

theorem length_decimalSums (sum : ℚ) (xs : List ℚ) : (decimalSums sum xs).length = xs.length := by
  induction xs generalizing sum with
  | nil => rfl
  | cons x xs ih => rw [decimalSums, List.length_cons, ih, List.length_cons]

namespace VRFDistribution

/-- The upper bounds of some roles, over the hashes. -/
def partition (roleMap : List (String × ℚ)) : VRFDistribution where
  roles := roleMap.map Prod.fst
  upperBounds := decimalSums 0 (roleMap.map fun entry => decimal (entry.2 * hashSpace))
  space := hashSpace
  length_eq := by rw [length_decimalSums, List.length_map, List.length_map]

/-- `__init__`, for the hashes. -/
def ofRoleMap (roleMap : List (String × ℚ)) : Py VRFDistribution :=
  if decimalSum (roleMap.map Prod.snd) ≠ 1 then
    .error (.valueError "probabilities do not sum to 1")
  else if ¬ ∀ entry ∈ roleMap, 0 ≤ entry.2 ∧ entry.2 ≤ 1 then
    .error (.valueError "not a probability")
  else .ok (partition roleMap)

/-- `binary_distribution`. -/
def binaryDistribution (p : ℚ) : Py VRFDistribution :=
  ofRoleMap [("True", p), ("False", decimal (1 - p))]

/-- The probabilities of `choice_distribution`. -/
def choiceProbs (n : ℕ) : List ℚ :=
  let probs := List.replicate (n - 1) (double (1 / n))
  probs ++ [decimal (1 - decimalSum probs)]

/-- `choice_distribution`, of the numbers below `n`. -/
def choiceDistribution (n : ℕ) : Py VRFDistribution := do
  pyAssert (n ≠ 0)
  ofRoleMap (((List.range n).map Nat.repr).zip (choiceProbs n))

/-! ### Lookups -/

variable {dist : VRFDistribution} {payload : ℤ} {role : String}

/-- What is looked up is a role. -/
theorem mem_roles (found : dist.role payload = .ok role) : role ∈ dist.roles := by
  unfold VRFDistribution.role pyIndex at found
  split_ifs at found
  split at found
  · next isAt => exact Except.ok.inj found ▸ List.mem_of_getElem? isAt
  · cases found

/-- A hash is in the domain. -/
theorem role_hash (roleMap : List (String × ℚ)) {h : ℕ} (isHash : h ≤ hashSpace) :
    (partition roleMap).role h =
      pyIndex (roleMap.map Prod.fst) (bisectLeft (partition roleMap).upperBounds h) := by
  have inside : ¬ ((h : ℤ) < 0 ∨ (h : ℤ) > (hashSpace : ℕ)) := by omega
  exact if_neg inside

/-- A hash that is beyond the bounds has no role. -/
theorem role_error {roleMap : List (String × ℚ)} {h : ℕ} (isHash : h ≤ hashSpace) {e : PyError}
    (missed : (partition roleMap).role h = .error e) : e = .indexError := by
  rw [role_hash roleMap isHash] at missed
  unfold pyIndex at missed
  split at missed
  · cases missed
  · exact (Except.error.inj missed).symm

/-! ### Binary distributions -/

theorem eq_partition {roleMap : List (String × ℚ)} (made : ofRoleMap roleMap = .ok dist) :
    dist = partition roleMap := by
  unfold ofRoleMap at made
  split_ifs at made
  exact (Except.ok.inj made).symm

theorem ofRoleMap_ok {roleMap : List (String × ℚ)}
    (sum : decimalSum (roleMap.map Prod.snd) = 1)
    (probabilities : ∀ entry ∈ roleMap, 0 ≤ entry.2 ∧ entry.2 ≤ 1) :
    ofRoleMap roleMap = .ok (partition roleMap) := by
  unfold ofRoleMap
  rw [if_neg (not_not.mpr sum), if_neg (not_not.mpr probabilities)]

/-- **A probability** makes a distribution of two. -/
theorem binaryDistribution_ok {p : ℚ} (low : 0 ≤ p) (high : p ≤ 1) :
    binaryDistribution p = .ok (partition [("True", p), ("False", decimal (1 - p))]) := by
  apply ofRoleMap_ok
  · simp only [decimalSum, List.map_cons, List.map_nil, List.foldl_cons, List.foldl_nil, zero_add]
    exact decimal_add_decimal_sub low high
  · simp only [List.mem_cons, List.not_mem_nil, or_false, forall_eq_or_imp, forall_eq]
    exact ⟨⟨low, high⟩, decimal_nonneg (by linarith),
      decimal_le_one (by linarith) (by linarith)⟩

/-- A number below zero makes none. -/
theorem binaryDistribution_neg {p : ℚ} (neg : p < 0) :
    ∃ text, binaryDistribution p = .error (.valueError text) := by
  unfold binaryDistribution ofRoleMap
  by_cases sum : decimalSum ([("True", p), ("False", decimal (1 - p))].map Prod.snd) = 1
  · refine ⟨"not a probability", ?_⟩
    rw [if_neg (not_not.mpr sum), if_pos fun all => ?_]
    exact absurd (all _ List.mem_cons_self).1 (not_le.mpr neg)
  · exact ⟨_, if_pos sum⟩

/-- The last bound where all is certain: the largest hash, rounded to 28 digits. -/
def lastBound : ℚ := 1157920892373161954235709850 * 10 ^ 50

theorem decimal_hashSpace : decimal hashSpace = lastBound := by
  have unit : place hashSpace = 10 ^ (50 : ℤ) := by
    rw [hashSpace, place_eq (e := 77) (by norm_num) (by norm_num)]
    norm_num
  have rounded : roundEven (hashSpace / place hashSpace) = 1157920892373161954235709850 := by
    apply roundEven_eq_of_abs_lt
    rw [unit, hashSpace, abs_lt]
    norm_num
  rw [decimal_of_ne_zero (by norm_num [hashSpace]), rounded, unit, lastBound]
  norm_num

theorem decimal_lastBound : decimal lastBound = lastBound := by
  have unit : place lastBound = 10 ^ (50 : ℤ) := by
    rw [lastBound, place_eq (e := 77) (by norm_num) (by norm_num)]
    norm_num
  apply decimal_eq_self (k := 1157920892373161954235709850)
  rw [unit, lastBound]
  norm_num

/-- A search between two equal bounds. -/
theorem bisectLeft_pair (bound x : ℚ) :
    bisectLeft [bound, bound] x = if x ≤ bound then 0 else 2 := by
  by_cases le : x ≤ bound
  · simp [bisectLeft, bisectLoop, le, not_lt.mpr le]
  · simp [bisectLeft, bisectLoop, le, not_le.mp le]

/-- **What is certain** is drawn as such by the hashes up to the last bound, and the others have no
role. -/
theorem role_certain {h : ℕ} (isHash : h ≤ hashSpace) :
    (partition [("True", 1), ("False", decimal (1 - 1))]).role h =
      if (h : ℚ) ≤ lastBound then .ok "True" else .error .indexError := by
  have bounds : (partition [("True", 1), ("False", decimal (1 - 1))]).upperBounds =
      [lastBound, lastBound] := by
    simp [partition, decimalSums, decimal_hashSpace, decimal_lastBound]
  rw [role_hash _ isHash, bounds, bisectLeft_pair]
  split_ifs <;> rfl

/-! ### Choices -/

theorem length_choiceProbs {n : ℕ} (pos : n ≠ 0) : (choiceProbs n).length = n := by
  unfold choiceProbs
  rw [List.length_append, List.length_replicate, List.length_singleton]
  omega

/-- The roles of a choice are its items. -/
theorem roles_choice {n : ℕ} (made : choiceDistribution n = .ok dist) :
    dist.roles = (List.range n).map Nat.repr ∧ ∃ roleMap, dist = partition roleMap := by
  unfold choiceDistribution at made
  by_cases zero : n = 0
  · rw [pyAssert_of_false (not_not.mpr zero)] at made
    cases made
  · rw [pyAssert_of_true zero, ok_bind] at made
    obtain rfl := eq_partition made
    refine ⟨?_, _, rfl⟩
    apply List.map_fst_zip
    rw [length_choiceProbs zero, List.length_map, List.length_range]

/-- Where there is no distribution, a value is not right. -/
theorem error_choice {n : ℕ} {e : PyError} (raised : choiceDistribution n = .error e) :
    e = .assertionError ∨ ∃ text, e = .valueError text := by
  unfold choiceDistribution at raised
  by_cases zero : n = 0
  · rw [pyAssert_of_false (not_not.mpr zero)] at raised
    exact .inl (Except.error.inj raised).symm
  · rw [pyAssert_of_true zero, ok_bind, ofRoleMap] at raised
    split_ifs at raised
    · exact .inr ⟨_, (Except.error.inj raised).symm⟩
    · exact .inr ⟨_, (Except.error.inj raised).symm⟩

section Choices

variable {n k : ℕ}

/-- The probability of an item is almost the same part of one. -/
theorem abs_double_part_sub_le (some_items : 2 ≤ n) :
    |double (1 / (n : ℚ)) - 1 / n| ≤ 1 / n * 2 ^ (-53 : ℤ) := by
  have posQ : (0 : ℚ) < n := by exact_mod_cast (by omega : 0 < n)
  have positive : (0 : ℚ) < 1 / n := by positivity
  have part := abs_double_sub_le_mul (1 / (n : ℚ))
  rwa [abs_of_pos positive] at part

theorem double_part_pos (some_items : 2 ≤ n) : 0 < double (1 / n) := by
  have posQ : (0 : ℚ) < n := by exact_mod_cast (by omega : 0 < n)
  have part : (0 : ℚ) < 1 / n := by positivity
  have near := (abs_le.mp (abs_double_part_sub_le some_items)).1
  have small : (1 : ℚ) / n * 2 ^ (-53 : ℤ) ≤ 1 / n * (1 / 2) := by
    apply mul_le_mul_of_nonneg_left _ part.le
    norm_num
  linarith

/-- The errors of all sums are together smaller than a part. -/
theorem errors_lt (some_items : 2 ≤ n) (few : n ≤ 10 ^ 12) (le : k ≤ n) :
    (k : ℚ) * (1 / n * 2 ^ (-53 : ℤ) + 10 ^ (-28 : ℤ) / 2) < 1 / n := by
  have posQ : (0 : ℚ) < n := by exact_mod_cast (by omega : 0 < n)
  have fewQ : (n : ℚ) ≤ 10 ^ 12 := by exact_mod_cast few
  have leQ : (k : ℚ) ≤ n := by exact_mod_cast le
  have least : (1 : ℚ) / 10 ^ 12 ≤ 1 / n := one_div_le_one_div_of_le posQ fewQ
  have whole : (n : ℚ) * (1 / n * 2 ^ (-53 : ℤ) + 10 ^ (-28 : ℤ) / 2) =
      2 ^ (-53 : ℤ) + n * (10 ^ (-28 : ℤ) / 2) := by
    field_simp
  have more := mul_le_mul_of_nonneg_right leQ
    (by positivity : (0 : ℚ) ≤ 1 / n * 2 ^ (-53 : ℤ) + 10 ^ (-28 : ℤ) / 2)
  have rounded := mul_le_mul_of_nonneg_right fewQ
    (by positivity : (0 : ℚ) ≤ 10 ^ (-28 : ℤ) / 2)
  have bound : (2 : ℚ) ^ (-53 : ℤ) + 10 ^ 12 * (10 ^ (-28 : ℤ) / 2) < 1 / 10 ^ 12 := by norm_num
  linarith

/-- **The sums of the equal probabilities**, before the last one. -/
theorem decimalSum_replicate (some_items : 2 ≤ n) (few : n ≤ 10 ^ 12) (lt : k < n) :
    0 ≤ decimalSum (List.replicate k (double (1 / n))) ∧
      |decimalSum (List.replicate k (double (1 / n))) - k / n| ≤
        k * (1 / n * 2 ^ (-53 : ℤ) + 10 ^ (-28 : ℤ) / 2) ∧
      decimal (decimalSum (List.replicate k (double (1 / n)))) =
        decimalSum (List.replicate k (double (1 / n))) := by
  have posQ : (0 : ℚ) < n := by exact_mod_cast (by omega : 0 < n)
  induction k with
  | zero => simp [decimalSum]
  | succ k ih =>
      obtain ⟨nonneg, near, -⟩ := ih (by omega)
      have next : decimalSum (List.replicate (k + 1) (double (1 / n))) =
          decimal (decimalSum (List.replicate k (double (1 / n))) + double (1 / n)) := by
        rw [List.replicate_succ', decimalSum, List.foldl_append]
        rfl
      rw [next]
      generalize decimalSum (List.replicate k (double (1 / n))) = sum at *
      have part := double_part_pos some_items
      have close := abs_double_part_sub_le some_items
      have pos : 0 < sum + double (1 / n) := by linarith
      obtain ⟨low, high⟩ := abs_le.mp near
      obtain ⟨low', high'⟩ := abs_le.mp close
      have errors := errors_lt some_items few lt.le
      have parts : ((k + 1 : ℕ) : ℚ) / n + 1 / n ≤ 1 := by
        rw [← add_div, div_le_one posQ]
        exact_mod_cast lt
      push_cast at errors parts ⊢
      rw [add_div] at parts ⊢
      -- The sum stays below one, so that it is rounded at the 28th place.
      have below : sum + double (1 / n) < 1 := by linarith
      have rounded := abs_le.mp ((abs_decimal_sub_le (sum + double (1 / n))).trans
        (div_le_div_of_nonneg_right (place_le_of_lt_one pos below) zero_le_two))
      refine ⟨decimal_nonneg pos.le, abs_le.mpr ⟨?_, ?_⟩, decimal_decimal pos.le⟩
      · linarith [rounded.1]
      · linarith [rounded.2]

/-- **The probabilities of so many items** add up to one. -/
theorem choiceProbs_fits (pos : n ≠ 0) (few : n ≤ 10 ^ 12) :
    decimalSum (choiceProbs n) = 1 ∧ ∀ p ∈ choiceProbs n, 0 ≤ p ∧ p ≤ 1 := by
  rcases Nat.lt_or_ge n 2 with one | some_items
  · obtain rfl : n = 1 := by omega
    simp [choiceProbs, decimalSum]
  · obtain ⟨nonneg, near, rounded⟩ :=
      decimalSum_replicate some_items few (Nat.sub_lt (Nat.pos_of_ne_zero pos) one_pos)
    have errors := errors_lt some_items few (Nat.sub_le n 1)
    have le : decimalSum (List.replicate (n - 1) (double (1 / n))) ≤ 1 := by
      have posQ : (0 : ℚ) < n := by exact_mod_cast Nat.pos_of_ne_zero pos
      have parts : ((n - 1 : ℕ) : ℚ) / n + 1 / n = 1 := by
        rw [← add_div, div_eq_one_iff_eq posQ.ne']
        exact_mod_cast Nat.sub_add_cancel (Nat.pos_of_ne_zero pos)
      linarith [(abs_le.mp near).2]
    have part_le : double (1 / n) ≤ 1 := by
      have low : |(1 : ℚ) / n| < 2 ^ (53 : ℤ) := abs_div_lt (n := 1) (by norm_num) n
      exact_mod_cast double_le (n := 1) low (div_natCast_le zero_le_one n)
    constructor
    · have sum := decimal_add_decimal_sub nonneg le
      rw [rounded] at sum
      rw [choiceProbs, decimalSum, List.foldl_append]
      exact sum
    · intro p mem
      rcases List.mem_append.mp mem with part | last
      · rw [List.eq_of_mem_replicate part]
        exact ⟨(double_part_pos some_items).le, part_le⟩
      · rw [List.mem_singleton.mp last]
        exact ⟨decimal_nonneg (by linarith), decimal_le_one (by linarith) (by linarith)⟩

/-- **So many items** can be chosen from. -/
theorem choiceDistribution_ok (pos : n ≠ 0) (few : n ≤ 10 ^ 12) :
    ∃ dist, choiceDistribution n = .ok dist := by
  have second : (((List.range n).map Nat.repr).zip (choiceProbs n)).map Prod.snd =
      choiceProbs n := by
    apply List.map_snd_zip
    rw [length_choiceProbs pos, List.length_map, List.length_range]
  have fits := choiceProbs_fits pos few
  unfold choiceDistribution
  rw [pyAssert_of_true pos, ok_bind]
  refine ⟨_, ofRoleMap_ok (by rw [second]; exact fits.1) fun entry mem => fits.2 entry.2 ?_⟩
  rw [← second]
  exact List.mem_map_of_mem mem

end Choices

end VRFDistribution

end Prism.Vrf
