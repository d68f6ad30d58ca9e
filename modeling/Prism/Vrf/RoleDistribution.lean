import Prism.Lib.Rounding
import Prism.Vrf.Committees
import Prism.Vrf.Distribution

/-!
Which distributions are made, and which hashes have a role (`prism/common/vrf/distribution.py`).

A distribution is refused unless its probabilities add up to one, and each sum is rounded. The
leftover that `role_distribution` gives to EMIX is rounded so that the sum is one where EMIX comes
last, but it comes first. The upper bounds are rounded as well, and a number above the last one has
no role.

* `bisectLeft_spec`: what a search of sorted bounds finds.
* `VRFDistribution.covers_iff`: the numbers that have a role, in any arithmetic that rounds.
* `VRFDistribution.returns_roleDistribution`: the configurations that have a distribution.
* `VRFDistribution.returns_choiceDistributionOf`: the lists that can be chosen from.
* `distributions_cover_iff`: all of them.
-/

namespace Prism.Vrf

open Lib

/-! ### Searches -/

section Search

variable {a : List ℚ} {x : ℚ}

/-- The bounds before `lo` are below a number, those from `hi` on are not. -/
structure Between (a : List ℚ) (x : ℚ) (lo hi : ℕ) : Prop where
  le : lo ≤ hi
  length : hi ≤ a.length
  below : ∀ i y, a[i]? = some y → i < lo → y < x
  above : ∀ i y, a[i]? = some y → hi ≤ i → x ≤ y

theorem bisectLoop_spec (sorted : a.Pairwise (· ≤ ·)) {rounds lo hi : ℕ}
    (enough : hi - lo ≤ rounds) (between : Between a x lo hi) :
    Between a x (bisectLoop a x rounds lo hi) (bisectLoop a x rounds lo hi) := by
  have ordered : ∀ (i j : ℕ) (y z : ℚ), a[i]? = some y → a[j]? = some z → i ≤ j → y ≤ z := by
    intro i j y z atI atJ le
    rcases le.eq_or_lt with rfl | lt
    · rw [atI, Option.some.injEq] at atJ
      exact atJ.le
    · obtain ⟨ltI, rfl⟩ := List.getElem?_eq_some_iff.mp atI
      obtain ⟨ltJ, rfl⟩ := List.getElem?_eq_some_iff.mp atJ
      exact List.pairwise_iff_getElem.mp sorted i j ltI ltJ lt
  induction rounds generalizing lo hi with
  | zero =>
      obtain rfl : lo = hi := le_antisymm between.le (by omega)
      exact between
  | succ rounds ih =>
      rw [bisectLoop]
      by_cases lt : lo < hi
      · have length := between.length
        have inside : (lo + hi) / 2 < a.length := by omega
        have middle : a[(lo + hi) / 2]? = some (a.getD ((lo + hi) / 2) 0) := by
          rw [List.getD_eq_getElem?_getD, List.getElem?_eq_getElem inside, Option.getD_some]
        rw [if_pos lt]
        split_ifs with less
        · refine ih (by omega) ⟨by omega, length, fun i y atI before => ?_, between.above⟩
          exact (ordered i _ y _ atI middle (by omega)).trans_lt less
        · refine ih (by omega) ⟨by omega, by omega, between.below, fun i y atI after => ?_⟩
          exact (not_lt.mp less).trans (ordered _ i _ y middle atI after)
      · rw [if_neg lt]
        obtain rfl : lo = hi := le_antisymm between.le (not_lt.mp lt)
        exact between

/-- **A search of sorted bounds** finds the first that is not below the number. -/
theorem bisectLeft_spec (sorted : a.Pairwise (· ≤ ·)) (x : ℚ) :
    Between a x (bisectLeft a x) (bisectLeft a x) :=
  bisectLoop_spec sorted le_rfl
    ⟨Nat.zero_le _, le_rfl, nofun, fun i y atI le => by
      simp [List.getElem?_eq_none le] at atI⟩

end Search

/-! ### Arithmetics -/

/-- An arithmetic of probabilities: what it rounds results to, and what it makes of the integers
that it calculates with. Decimals take them as they are, and floats convert them. -/
structure Arithmetic where
  rounding : Rounding
  ofInt : ℤ → ℚ
  ofInt_nonneg : ∀ n, 0 ≤ n → 0 ≤ ofInt n

/-- `Decimal`. -/
def decimals : Arithmetic where
  rounding := digits 10 27 (by norm_num)
  ofInt n := n
  ofInt_nonneg _ nonneg := by exact_mod_cast nonneg

/-- `float`. -/
def floats : Arithmetic where
  rounding := digits 2 52 (by norm_num)
  ofInt n := roundDigits 2 52 n
  ofInt_nonneg _ nonneg := roundDigits_nonneg (by norm_num) (by exact_mod_cast nonneg)

theorem round_decimals (x : ℚ) : decimals.rounding.round x = decimal x := (decimal_eq x).symm

namespace Arithmetic

variable (arithmetic : Arithmetic)

/-- `sum`. -/
def sum (xs : List ℚ) : ℚ := xs.foldl (fun sum x => arithmetic.rounding.round (sum + x)) 0

/-- The sums of the first numbers. -/
def sums : ℚ → List ℚ → List ℚ
  | _, [] => []
  | sum, x :: xs =>
    arithmetic.rounding.round (sum + x) :: sums (arithmetic.rounding.round (sum + x)) xs

/-- `prob * space`. -/
def gap (space : ℤ) (prob : ℚ) : ℚ := arithmetic.rounding.round (prob * arithmetic.ofInt space)

theorem length_sums (sum : ℚ) (xs : List ℚ) : (arithmetic.sums sum xs).length = xs.length := by
  induction xs generalizing sum with
  | nil => rfl
  | cons x xs ih => rw [sums, List.length_cons, ih, List.length_cons]

theorem sum_decimals (xs : List ℚ) : decimals.sum xs = decimalSum xs := by
  rw [sum, decimalSum]
  simp only [round_decimals]

theorem sums_decimals (sum : ℚ) (xs : List ℚ) : decimals.sums sum xs = decimalSums sum xs := by
  induction xs generalizing sum with
  | nil => rfl
  | cons x xs ih => rw [sums, decimalSums, round_decimals, ih]

variable {arithmetic}

/-- What a sum of numbers that are not negative is rounded to. -/
theorem round_add {sum x : ℚ} (nonneg : 0 ≤ sum) (kept : arithmetic.rounding.round sum = sum)
    (x_nonneg : 0 ≤ x) :
    sum ≤ arithmetic.rounding.round (sum + x) ∧
      arithmetic.rounding.round (arithmetic.rounding.round (sum + x)) =
        arithmetic.rounding.round (sum + x) := by
  constructor
  · have more := arithmetic.rounding.mono sum (sum + x) nonneg (by linarith)
    rwa [kept] at more
  · exact arithmetic.rounding.idem (sum + x) (by linarith)

/-- **Sums that are rounded** grow. -/
theorem sums_sorted {sum : ℚ} (nonneg : 0 ≤ sum) (kept : arithmetic.rounding.round sum = sum)
    {xs : List ℚ} (each : ∀ x ∈ xs, 0 ≤ x) :
    (sum :: arithmetic.sums sum xs).Pairwise (· ≤ ·) := by
  induction xs generalizing sum with
  | nil => exact List.pairwise_singleton _ _
  | cons x xs ih =>
      obtain ⟨x_nonneg, others⟩ := List.forall_mem_cons.mp each
      obtain ⟨more, kept'⟩ := round_add nonneg kept x_nonneg
      have sorted := ih (nonneg.trans more) kept' others
      rw [sums, List.pairwise_cons]
      refine ⟨?_, sorted⟩
      rw [List.forall_mem_cons]
      exact ⟨more, fun y mem => more.trans ((List.pairwise_cons.mp sorted).1 y mem)⟩

/-- A sum stays where zero is added. -/
theorem sums_zero {sum : ℚ} (nonneg : 0 ≤ sum) (kept : arithmetic.rounding.round sum = sum)
    {xs : List ℚ} (each : ∀ x ∈ xs, 0 ≤ x) {i : ℕ} (zero : xs[i]? = some 0) :
    (arithmetic.sums sum xs)[i]? = (sum :: arithmetic.sums sum xs)[i]? := by
  induction xs generalizing sum i with
  | nil => simp at zero
  | cons x xs ih =>
      obtain ⟨x_nonneg, others⟩ := List.forall_mem_cons.mp each
      obtain ⟨more, kept'⟩ := round_add nonneg kept x_nonneg
      cases i with
      | zero =>
          obtain rfl : x = 0 := by simpa using zero
          simp [sums, kept]
      | succ i =>
          rw [sums, List.getElem?_cons_succ, List.getElem?_cons_succ]
          exact ih (nonneg.trans more) kept' others (by simpa using zero)

end Arithmetic

/-! ### Roles -/

namespace VRFDistribution

/-- `__init__`, in an arithmetic. -/
def create (arithmetic : Arithmetic) (roleMap : List (String × ℚ)) (space : ℤ) :
    Py VRFDistribution :=
  if arithmetic.sum (roleMap.map Prod.snd) ≠ 1 then
    .error (.valueError "probabilities do not sum to 1")
  else if ¬ ∀ entry ∈ roleMap, 0 ≤ entry.2 ∧ entry.2 ≤ 1 then
    .error (.valueError "not a probability")
  else .ok {
    roles := roleMap.map Prod.fst
    upperBounds := arithmetic.sums 0 (roleMap.map fun entry => arithmetic.gap space entry.2)
    space
    length_eq := by rw [arithmetic.length_sums, List.length_map, List.length_map] }

/-- Decimals, over the hashes. -/
theorem create_decimals (roleMap : List (String × ℚ)) :
    create decimals roleMap hashSpace = ofRoleMap roleMap := by
  have gaps : (roleMap.map fun entry => decimals.gap hashSpace entry.2) =
      roleMap.map fun entry => decimal (entry.2 * hashSpace) := by
    refine List.map_congr_left fun entry _ => ?_
    rw [Arithmetic.gap, round_decimals]
    rfl
  unfold create ofRoleMap partition
  rw [Arithmetic.sum_decimals]
  simp only [gaps, Arithmetic.sums_decimals]

/-- **A number is covered**: it has a role, whose probability is not zero unless the number is. -/
def Covers (roleMap : List (String × ℚ)) (dist : VRFDistribution) (payload : ℤ) : Prop :=
  ∃ role prob, dist.role payload = .ok role ∧ roleMap.lookup role = some prob ∧
    (prob = 0 → payload = 0)

/-- **Which numbers are covered**: those up to the last upper bound. -/
theorem covers_iff {arithmetic : Arithmetic} {roleMap : List (String × ℚ)} {space payload : ℤ}
    {dist : VRFDistribution} (dict : (roleMap.map Prod.fst).Nodup)
    (accepted : create arithmetic roleMap space = .ok dist) (low : 0 ≤ payload)
    (high : payload ≤ space) :
    Covers roleMap dist payload ↔ ∃ bound ∈ dist.upperBounds.getLast?, (payload : ℚ) ≤ bound := by
  unfold create at accepted
  split_ifs at accepted with total each
  obtain rfl := Except.ok.inj accepted
  set gaps := roleMap.map fun entry => arithmetic.gap space entry.2 with hgaps
  have nonneg : ∀ gap ∈ gaps, 0 ≤ gap := by
    intro gap mem
    obtain ⟨entry, inMap, rfl⟩ := List.mem_map.mp mem
    have product := mul_nonneg (each entry inMap).1
      (arithmetic.ofInt_nonneg space (low.trans high))
    have more := arithmetic.rounding.mono 0 _ le_rfl product
    rwa [arithmetic.rounding.zero] at more
  have sorted := Arithmetic.sums_sorted le_rfl arithmetic.rounding.zero nonneg
  have between := bisectLeft_spec (List.pairwise_cons.mp sorted).2 payload
  set bounds := arithmetic.sums 0 gaps with hbounds
  have length : bounds.length = roleMap.length := by
    rw [hbounds, arithmetic.length_sums, hgaps, List.length_map]
  have inside : ¬ (payload < 0 ∨ payload > space) := by omega
  have last : bounds.getLast? = bounds[bounds.length - 1]? := List.getLast?_eq_getElem?
  unfold Covers role
  dsimp only
  rw [if_neg inside, last]
  constructor
  · rintro ⟨role, prob, found, -⟩
    have lt : bisectLeft bounds payload < roleMap.length := by
      have returns := returns_pyIndex.mp ⟨role, found⟩
      rwa [List.length_map] at returns
    refine ⟨bounds.get ⟨bounds.length - 1, by omega⟩, List.getElem?_eq_getElem _, ?_⟩
    exact between.above (bounds.length - 1) _ (List.getElem?_eq_getElem _) (by omega)
  · rintro ⟨bound, atLast, le⟩
    have lt : bisectLeft bounds payload < bounds.length := by
      by_contra all
      have present := (List.getElem?_eq_some_iff.mp atLast).1
      exact not_lt.mpr le (between.below _ _ atLast (by omega))
    generalize bisectLeft bounds payload = r at *
    obtain ⟨entry, atR⟩ : ∃ entry, roleMap[r]? = some entry :=
      ⟨_, List.getElem?_eq_getElem (length ▸ lt)⟩
    obtain ⟨y, boundAtR⟩ : ∃ y, bounds[r]? = some y := ⟨_, List.getElem?_eq_getElem lt⟩
    refine ⟨entry.1, entry.2, ?_, lookup_of_mem dict (List.mem_of_getElem? atR), fun zero => ?_⟩
    · rw [pyIndex, List.getElem?_map, atR]
      rfl
    · have noGap : gaps[r]? = some 0 := by
        rw [hgaps, List.getElem?_map, atR, Option.map_some, Arithmetic.gap, zero, zero_mul,
          arithmetic.rounding.zero]
      have same := Arithmetic.sums_zero le_rfl arithmetic.rounding.zero nonneg noGap
      rw [← hbounds, boundAtR] at same
      have reached := between.above r y boundAtR le_rfl
      cases r with
      | zero =>
          obtain rfl : y = 0 := by simpa using same
          exact le_antisymm (by exact_mod_cast reached) low
      | succ j => exact absurd reached (not_le.mpr (between.below j y same.symm (by omega)))

theorem returns_ofRoleMap {roleMap : List (String × ℚ)} :
    Returns (ofRoleMap roleMap) ↔
      decimalSum (roleMap.map Prod.snd) = 1 ∧ ∀ entry ∈ roleMap, 0 ≤ entry.2 ∧ entry.2 ≤ 1 := by
  unfold ofRoleMap
  split_ifs with total each
  · exact iff_of_false (not_returns_error _) fun fits => total fits.1
  · exact iff_of_true (returns_ok _) ⟨not_not.mp total, each⟩
  · exact iff_of_false (not_returns_error _) fun fits => each fits.2

end VRFDistribution

/-! ### Rounding errors -/

/-- What rounding adds to a sum. -/
def drift (xs : List ℚ) : ℚ := decimalSum xs - xs.sum

theorem decimalSum_concat (xs : List ℚ) (x : ℚ) :
    decimalSum (xs ++ [x]) = decimal (decimalSum xs + x) := by
  rw [decimalSum, List.foldl_append]
  rfl

theorem decimalSum_nonneg {xs : List ℚ} (each : ∀ x ∈ xs, 0 ≤ x) : 0 ≤ decimalSum xs := by
  induction xs using List.reverseRecOn with
  | nil => exact le_rfl
  | append_singleton xs x ih =>
      rw [decimalSum_concat]
      have before := ih fun y mem => each y (List.mem_append_left _ mem)
      exact decimal_nonneg (add_nonneg before (each x (by simp)))

/-- What is left to one is a probability exactly when the sum is not above one. -/
theorem leftover_iff {sum : ℚ} (nonneg : 0 ≤ sum) :
    (0 ≤ decimal (1 - sum) ∧ decimal (1 - sum) ≤ 1) ↔ sum ≤ 1 := by
  constructor
  · rintro ⟨left, -⟩
    by_contra more
    exact absurd left (not_le.mpr (decimal_neg (by linarith)))
  · intro le
    exact ⟨decimal_nonneg (by linarith), decimal_le_one (by linarith) (by linarith)⟩

/-! ### Role distributions -/

/-- A `VRFConfig` with its probabilities. -/
structure RoleConfig extends VRFConfig where
  pEmix : ℚ
  pOff : ℚ

namespace RoleConfig

variable (config : RoleConfig)

/-- Floats that are probabilities, and committees. -/
structure Valid (config : RoleConfig) : Prop where
  ranges : 0 < config.nRanges
  replicas : 0 < config.mReplicas
  float : double config.pEmix = config.pEmix ∧ double config.pOff = config.pOff
  nonneg : 0 ≤ config.pEmix ∧ 0 ≤ config.pOff
  total : config.pEmix + config.pOff ≤ 1

/-- `db_prob`: a part of `db_ratio`, which is calculated in floats. -/
def dbProb : ℚ :=
  decimal (double (double (1 - config.pEmix) - config.pOff) /
    (config.nRanges * config.mReplicas : ℤ))

/-- The probabilities that `role_distribution` gives to the roles. -/
def roleMap : List (String × ℚ) :=
  let started := dictOf (("EMIX", 0) :: ("OFF", config.pOff) ::
    (committees config.toVRFConfig).map fun c => (c.1, config.dbProb))
  dictSet started "EMIX" (decimal (1 - decimalSum (started.map Prod.snd)))

variable {config : RoleConfig}

/-- The probabilities of all roles but EMIX. -/
def others (config : RoleConfig) : List ℚ :=
  config.pOff ::
    List.replicate (config.nRanges.toNat * config.mReplicas.toNat) config.dbProb

/-- What is left to EMIX. -/
def leftover (config : RoleConfig) : ℚ := decimal (1 - decimalSum config.others)

theorem length_committees (config : VRFConfig) :
    (committees config).length = config.nRanges.toNat * config.mReplicas.toNat := by
  rw [committees_eq, List.length_map]
  exact (List.length_product _ _).trans (by rw [List.length_range', List.length_range'])

/-- The probabilities of the committees. -/
theorem committee_probs (config : RoleConfig) :
    ((committees config.toVRFConfig).map fun c => (c.1, config.dbProb)).map Prod.snd =
      List.replicate (config.nRanges.toNat * config.mReplicas.toNat) config.dbProb := by
  rw [List.map_map, ← length_committees, ← List.map_const']
  rfl

theorem roleMap_eq (config : RoleConfig) :
    config.roleMap = ("EMIX", config.leftover) :: ("OFF", config.pOff) ::
      (committees config.toVRFConfig).map fun c => (c.1, config.dbProb) := by
  have named : ∀ c ∈ committees config.toVRFConfig, c.1 ≠ "EMIX" ∧ c.1 ≠ "OFF" := by
    rintro ⟨name, n, r⟩ mem
    obtain ⟨rfl, -⟩ := mem_committees.mp mem
    constructor
    all_goals
      intro same
      have first := congrArg (fun text => text.toList.head?) same
      simp [committeeName] at first
  have distinct : ((("EMIX", (0 : ℚ)) :: ("OFF", config.pOff) ::
      (committees config.toVRFConfig).map fun c => (c.1, config.dbProb)).map Prod.fst).Nodup := by
    have names : ((committees config.toVRFConfig).map fun c => (c.1, config.dbProb)).map Prod.fst =
        (committees config.toVRFConfig).map Prod.fst := by rw [List.map_map]; rfl
    rw [List.map_cons, List.map_cons, names, List.nodup_cons, List.nodup_cons]
    refine ⟨?_, ?_, nodup_dictOf _⟩
    · rw [List.mem_cons, not_or]
      refine ⟨show "EMIX" ≠ "OFF" by decide, fun mem => ?_⟩
      obtain ⟨c, isCommittee, same⟩ := List.mem_map.mp mem
      exact (named c isCommittee).1 same
    · intro mem
      obtain ⟨c, isCommittee, same⟩ := List.mem_map.mp mem
      exact (named c isCommittee).2 same
  have probabilities : decimalSum ((("EMIX", (0 : ℚ)) :: ("OFF", config.pOff) ::
      (committees config.toVRFConfig).map fun c => (c.1, config.dbProb)).map Prod.snd) =
        decimalSum config.others := by
    rw [List.map_cons, List.map_cons, committee_probs, decimalSum, List.foldl_cons, add_zero,
      decimal_zero]
    rfl
  rw [roleMap, dictOf_of_nodup distinct, probabilities, dictSet, if_pos (by simp), List.map_cons,
    if_pos rfl, List.map_cons, if_neg (show "OFF" ≠ "EMIX" by decide), List.map_map]
  congr 2
  refine List.map_congr_left fun c mem => ?_
  exact if_neg (named c mem).1

/-- The probability of a committee. -/
theorem Valid.dbProb_mem (valid : config.Valid) : 0 ≤ config.dbProb ∧ config.dbProb ≤ 1 := by
  obtain ⟨emix, off⟩ := valid.nonneg
  have total := valid.total
  have small : ∀ x : ℚ, 0 ≤ x → x ≤ 1 → |x| < 2 ^ (53 : ℤ) := by
    intro x low high
    rw [abs_of_nonneg low]
    exact high.trans_lt (by norm_num)
  have le_one : ∀ x : ℚ, 0 ≤ x → x ≤ 1 → double x ≤ 1 := by
    intro x low high
    exact_mod_cast double_le (n := 1) (small x low high) (by exact_mod_cast high)
  have left : config.pOff ≤ double (1 - config.pEmix) := by
    have kept := roundDigits_mono (b := 2) (d := 52) (by norm_num) off
      (by linarith : config.pOff ≤ 1 - config.pEmix)
    rwa [← double_eq, ← double_eq, valid.float.2] at kept
  have most := le_one (1 - config.pEmix) (by linarith) (by linarith)
  have low : 0 ≤ double (double (1 - config.pEmix) - config.pOff) :=
    double_nonneg_iff.mpr (by linarith)
  have high := le_one (double (1 - config.pEmix) - config.pOff) (by linarith) (by linarith)
  have many : (1 : ℚ) ≤ (config.nRanges * config.mReplicas : ℤ) := by
    exact_mod_cast mul_pos valid.ranges valid.replicas
  have part : 0 ≤ double (double (1 - config.pEmix) - config.pOff) /
      (config.nRanges * config.mReplicas : ℤ) := div_nonneg low (by linarith)
  exact ⟨decimal_nonneg part,
    decimal_le_one part ((div_le_one (by linarith)).mpr (high.trans many))⟩

theorem Valid.others_mem (valid : config.Valid) : ∀ p ∈ config.others, 0 ≤ p ∧ p ≤ 1 := by
  rw [others, List.forall_mem_cons]
  refine ⟨⟨valid.nonneg.2, by linarith [valid.total, valid.nonneg.1]⟩, fun p mem => ?_⟩
  rw [List.eq_of_mem_replicate mem]
  exact valid.dbProb_mem

/-- **The rounding errors cancel**: the sum of the other probabilities is not above one, and
rounding adds as much to it as to the leftover and to the sum that begins with it. -/
structure Balanced (config : RoleConfig) : Prop where
  le_one : decimalSum config.others ≤ 1
  errors : drift (config.leftover :: config.others) +
    (config.leftover - (1 - decimalSum config.others)) = drift config.others

end RoleConfig

namespace VRFDistribution

/-- `role_distribution`. -/
def roleDistribution (config : RoleConfig) : Py (VRFDistribution × List (String × ℕ × ℕ)) := do
  let dist ← ofRoleMap config.roleMap
  return (dist, committees config.toVRFConfig)

/-- **A configuration has a distribution** exactly when its rounding errors cancel. -/
theorem returns_roleDistribution {config : RoleConfig} (valid : config.Valid) :
    Returns (roleDistribution config) ↔ config.Balanced := by
  have values : config.roleMap.map Prod.snd = config.leftover :: config.others := by
    rw [RoleConfig.roleMap_eq, List.map_cons, List.map_cons, RoleConfig.committee_probs]
    rfl
  have entries : (∀ entry ∈ config.roleMap, 0 ≤ entry.2 ∧ entry.2 ≤ 1) ↔
      decimalSum config.others ≤ 1 := by
    rw [← List.forall_mem_map (f := Prod.snd) (P := fun p : ℚ => 0 ≤ p ∧ p ≤ 1), values,
      List.forall_mem_cons, and_iff_left valid.others_mem]
    exact leftover_iff (decimalSum_nonneg fun p mem => (valid.others_mem p mem).1)
  have total : decimalSum (config.leftover :: config.others) = 1 ↔
      drift (config.leftover :: config.others) +
        (config.leftover - (1 - decimalSum config.others)) = drift config.others := by
    rw [drift, drift, List.sum_cons]
    constructor <;> intro same <;> linarith
  rw [roleDistribution, returns_bind_of fun _ => returns_pure _, returns_ofRoleMap, values, entries,
    total]
  exact ⟨fun ⟨errors, le_one⟩ => ⟨le_one, errors⟩, fun ⟨le_one, errors⟩ => ⟨errors, le_one⟩⟩

/-! ### Choices -/

/-- `choice_distribution`, of items by their texts. -/
def choiceDistributionOf (items : List String) : Py VRFDistribution := do
  pyAssert (items.length ≠ 0)
  ofRoleMap (dictOf (items.zip (choiceProbs items.length)))

/-- Numbers are chosen from by their texts. -/
theorem choiceDistribution_eq (n : ℕ) :
    choiceDistribution n = choiceDistributionOf ((List.range n).map Nat.repr) := by
  have length : ((List.range n).map Nat.repr).length = n := by
    rw [List.length_map, List.length_range]
  rw [choiceDistribution, choiceDistributionOf, length]
  by_cases zero : n = 0
  · rw [pyAssert_of_false (not_not.mpr zero)]
    rfl
  · rw [dictOf_of_nodup]
    rw [List.map_fst_zip (by rw [length, length_choiceProbs zero])]
    exact List.nodup_range.map fun m m' same => repr_injective same

section Dictionaries

variable {κ : Type} [DecidableEq κ]

/-- The values of a dictionary after one more entry are some of those before it and that one. -/
theorem values_dictSet {d : List (κ × ℚ)} (nodup : (d.map Prod.fst).Nodup) (k : κ) (v : ℚ) :
    ((dictSet d k v).map Prod.snd).Subperm (d.map Prod.snd ++ [v]) := by
  unfold dictSet
  split_ifs with present
  · clear present
    induction d with
    | nil => exact List.nil_subperm
    | cons e d ih =>
        rw [List.map_cons, List.nodup_cons] at nodup
        rw [List.map_cons, List.map_cons, List.map_cons, List.cons_append]
        by_cases same : e.1 = k
        · -- no other entry has the key
          have others : (d.map fun e => if e.1 = k then (k, v) else e) = d.map id := by
            refine List.map_congr_left fun other mem => if_neg fun again => nodup.1 ?_
            rw [same, ← again]
            exact List.mem_map_of_mem mem
          rw [others, List.map_id, if_pos same]
          exact (List.perm_append_singleton v _).symm.subperm.trans
            (List.sublist_cons_self _ _).subperm
        · rw [if_neg same]
          exact (List.subperm_cons _).mpr (ih nodup.2)
  · rw [List.map_append]
    exact List.Subperm.refl _

theorem dictOf_concat (items : List (κ × ℚ)) (item : κ × ℚ) :
    dictOf (items ++ [item]) = dictSet (dictOf items) item.1 item.2 := by
  rw [dictOf, List.foldl_append]
  rfl

/-- **The values of a dictionary** are values of the items that it was made of. -/
theorem values_dictOf (items : List (κ × ℚ)) :
    ((dictOf items).map Prod.snd).Subperm (items.map Prod.snd) := by
  induction items using List.reverseRecOn with
  | nil => exact List.Subperm.refl _
  | append_singleton items item ih =>
      rw [dictOf_concat, List.map_append]
      exact (values_dictSet (nodup_dictOf items) item.1 item.2).trans
        ((List.subperm_append_right _).mpr ih)

/-- A dictionary is shorter than items of which two have the same key. -/
theorem length_dictOf_lt {items : List (κ × ℚ)} (twice : ¬ (items.map Prod.fst).Nodup) :
    (dictOf items).length < items.length := by
  have keys : ((dictOf items).map Prod.fst).Subperm (items.map Prod.fst) := by
    refine List.subperm_of_subset (nodup_dictOf items) ?_
    clear twice
    induction items using List.reverseRecOn with
    | nil => exact fun k mem => mem
    | append_singleton items item ih =>
        rw [dictOf_concat, keys_dictSet, List.map_append]
        split_ifs with present
        · exact fun k mem => List.mem_append_left _ (ih mem)
        · exact List.append_subset.mpr
            ⟨fun k mem => List.mem_append_left _ (ih mem), List.subset_append_right _ _⟩
  have le := keys.length_le
  rw [List.length_map, List.length_map] at le
  refine lt_of_le_of_ne le fun same => twice ?_
  have perm := keys.perm_of_length_le (by rw [List.length_map, List.length_map, same])
  exact perm.nodup_iff.mp (nodup_dictOf items)

end Dictionaries

/-- The sum of the equal probabilities, all but one. -/
def equalSum (n : ℕ) : ℚ := decimalSum (List.replicate (n - 1) (double (1 / n)))

/-- The probabilities of the different texts. -/
def choiceValues (items : List String) : List ℚ :=
  (dictOf (items.zip (choiceProbs items.length))).map Prod.snd

section Chosen

variable {items : List String}

theorem zip_choiceProbs (some_item : items ≠ []) :
    (items.zip (choiceProbs items.length)).map Prod.fst = items ∧
      (items.zip (choiceProbs items.length)).map Prod.snd = choiceProbs items.length := by
  have length := length_choiceProbs (List.length_pos_iff.mpr some_item).ne'
  exact ⟨List.map_fst_zip length.ge, List.map_snd_zip length.le⟩

theorem values_subperm (some_item : items ≠ []) :
    (choiceValues items).Subperm (choiceProbs items.length) := by
  have values := values_dictOf (items.zip (choiceProbs items.length))
  rwa [(zip_choiceProbs some_item).2] at values

/-- The last probability is that of the last item. -/
theorem leftover_mem (some_item : items ≠ []) :
    decimal (1 - equalSum items.length) ∈ choiceValues items := by
  obtain ⟨before, last, rfl⟩ := (List.eq_nil_or_concat items).resolve_left some_item
  rw [List.concat_eq_append] at *
  have length : (before ++ [last]).length - 1 = before.length := by simp
  have entries : (before ++ [last]).zip (choiceProbs (before ++ [last]).length) =
      before.zip (List.replicate before.length (double (1 / ((before ++ [last]).length : ℕ)))) ++
        [(last, decimal (1 - equalSum (before ++ [last]).length))] := by
    rw [choiceProbs, equalSum, length]
    exact List.zip_append (List.length_replicate).symm
  rw [choiceValues, entries, dictOf_concat]
  exact List.mem_map.mpr ⟨_, mem_dictSet.mpr (.inl rfl), rfl⟩

/-- **The sums that a choice needs**: the equal probabilities leave something, and those of the
different texts add up to one. -/
theorem returns_choice_iff_sums :
    Returns (choiceDistributionOf items) ↔
      items ≠ [] ∧ equalSum items.length ≤ 1 ∧ decimalSum (choiceValues items) = 1 := by
  by_cases none : items = []
  · subst none
    simp [choiceDistributionOf, pyAssert]
  · have pos : items.length ≠ 0 := (List.length_pos_iff.mpr none).ne'
    have equal : 0 ≤ double (1 / (items.length : ℚ)) ∧ double (1 / (items.length : ℚ)) ≤ 1 := by
      have small : |(1 : ℚ) / items.length| < 2 ^ (53 : ℤ) :=
        abs_div_lt (n := 1) (by norm_num) items.length
      have le := double_le (n := 1) small (div_natCast_le zero_le_one items.length)
      exact ⟨double_nonneg_iff.mpr (by positivity), by exact_mod_cast le⟩
    have sum_nonneg : 0 ≤ equalSum items.length := by
      refine decimalSum_nonneg fun p mem => ?_
      rw [List.eq_of_mem_replicate mem]
      exact equal.1
    have entries : (∀ entry ∈ dictOf (items.zip (choiceProbs items.length)),
        0 ≤ entry.2 ∧ entry.2 ≤ 1) ↔ equalSum items.length ≤ 1 := by
      rw [← List.forall_mem_map (f := Prod.snd) (P := fun p : ℚ => 0 ≤ p ∧ p ≤ 1),
        ← leftover_iff sum_nonneg]
      constructor
      · intro each
        exact each _ (leftover_mem none)
      · intro left p mem
        rcases List.mem_append.mp ((values_subperm none).subset mem) with part | last
        · rw [List.eq_of_mem_replicate part]
          exact equal
        · rw [List.mem_singleton.mp last]
          exact left
    rw [choiceDistributionOf, pyAssert_of_true pos, ok_bind, returns_ofRoleMap, entries]
    exact ⟨fun ⟨total, le⟩ => ⟨none, le, total⟩, fun ⟨_, le, total⟩ => ⟨total, le⟩⟩

/-- Sums of numbers that stay below one are rounded at the 28th place. -/
theorem decimalSum_near {xs : List ℚ} (each : ∀ x ∈ xs, 0 ≤ x)
    (small : xs.sum + xs.length * (10 ^ (-28 : ℤ) / 2) < 1) :
    |decimalSum xs - xs.sum| ≤ xs.length * (10 ^ (-28 : ℤ) / 2) := by
  induction xs using List.reverseRecOn with
  | nil => simp [decimalSum]
  | append_singleton xs x ih =>
      have before : ∀ y ∈ xs, 0 ≤ y := fun y mem => each y (List.mem_append_left _ mem)
      have x_nonneg := each x (by simp)
      rw [List.sum_append, List.sum_singleton, List.length_append, List.length_singleton] at *
      push_cast at small ⊢
      have unit : (0 : ℚ) < 10 ^ (-28 : ℤ) / 2 := by positivity
      have near := abs_le.mp (ih before (by linarith))
      have nonneg := decimalSum_nonneg before
      rw [decimalSum_concat]
      rcases (add_nonneg nonneg x_nonneg).eq_or_lt with zero | pos
      · rw [← zero, decimal_zero]
        exact abs_le.mpr ⟨by linarith, by linarith⟩
      · have rounded := abs_le.mp ((abs_decimal_sub_le (decimalSum xs + x)).trans
          (div_le_div_of_nonneg_right (place_le_of_lt_one pos (by linarith)) zero_le_two))
        exact abs_le.mpr ⟨by linarith, by linarith⟩

section Few

variable {n : ℕ}

/-- How far the probabilities of so many items are from equal ones. -/
theorem near_equal (some_items : 2 ≤ n) (few : n ≤ 10 ^ 12) :
    |double (1 / n) - 1 / n| ≤ (1 / 10 ^ 15) / n ∧
      |decimal (1 - equalSum n) - 1 / n| ≤ (1 / 10 ^ 15) := by
  have posQ : (0 : ℚ) < n := by exact_mod_cast (by omega : 0 < n)
  have fewQ : (n : ℚ) ≤ 10 ^ 12 := by exact_mod_cast few
  have share : (0 : ℚ) < 1 / n := by positivity
  have parts : ((n - 1 : ℕ) : ℚ) / n = 1 - 1 / n := by
    rw [Nat.cast_sub (by omega), Nat.cast_one]
    field_simp
  have half : 2 * (1 / (n : ℚ)) ≤ 1 := by
    have twoQ : (2 : ℚ) ≤ n := by exact_mod_cast some_items
    rw [mul_one_div, div_le_one posQ]
    exact twoQ
  constructor
  · refine (abs_double_part_sub_le some_items).trans ?_
    rw [show (1 : ℚ) / 10 ^ 15 / n = 1 / n * (1 / 10 ^ 15) by ring]
    exact mul_le_mul_of_nonneg_left (by norm_num) share.le
  · obtain ⟨-, near, -⟩ := decimalSum_replicate some_items few (k := n - 1) (by omega)
    have errors := errors_lt some_items few (Nat.sub_le n 1)
    -- all errors of the sum, at most
    have bound : ((n - 1 : ℕ) : ℚ) * (1 / n * 2 ^ (-53 : ℤ) + 10 ^ (-28 : ℤ) / 2) ≤
        2 ^ (-53 : ℤ) + 10 ^ 12 * (10 ^ (-28 : ℤ) / 2) := by
      rw [mul_add, ← mul_assoc, mul_one_div, parts]
      have less : ((n - 1 : ℕ) : ℚ) ≤ 10 ^ 12 := by
        exact_mod_cast (Nat.sub_le n 1).trans few
      have first : (1 - 1 / (n : ℚ)) * 2 ^ (-53 : ℤ) ≤ 1 * 2 ^ (-53 : ℤ) :=
        mul_le_mul_of_nonneg_right (by linarith) (by positivity)
      have second : ((n - 1 : ℕ) : ℚ) * (10 ^ (-28 : ℤ) / 2) ≤ 10 ^ 12 * (10 ^ (-28 : ℤ) / 2) :=
        mul_le_mul_of_nonneg_right less (by positivity)
      linarith
    rw [parts] at near
    change |equalSum n - _| ≤ _ at near
    obtain ⟨low, high⟩ := abs_le.mp near
    have rounded := abs_le.mp ((abs_decimal_sub_le (1 - equalSum n)).trans
      (div_le_div_of_nonneg_right (place_le_of_lt_one (by linarith) (by linarith)) zero_le_two))
    have total : (2 : ℚ) ^ (-53 : ℤ) + 10 ^ 12 * (10 ^ (-28 : ℤ) / 2) + 10 ^ (-28 : ℤ) / 2 ≤
        (1 / 10 ^ 15) := by norm_num
    exact abs_le.mpr ⟨by linarith, by linarith⟩

/-- **The probabilities of so many items**: each is almost a part of one, and so is their sum one. -/
theorem choiceProbs_near (some_items : 2 ≤ n) (few : n ≤ 10 ^ 12) :
    (∀ p ∈ choiceProbs n, 1 / (n : ℚ) - (1 / 10 ^ 15) ≤ p) ∧
      (choiceProbs n).sum ≤ 1 + 2 * (1 / 10 ^ 15) := by
  have many : (1 : ℚ) ≤ n := by exact_mod_cast (by omega : 1 ≤ n)
  have posQ : (0 : ℚ) < n := by linarith
  obtain ⟨part, left⟩ := near_equal some_items few
  have partLe : (1 : ℚ) / 10 ^ 15 / n ≤ (1 / 10 ^ 15) := div_le_self (by positivity) many
  obtain ⟨partLow, partHigh⟩ := abs_le.mp part
  obtain ⟨leftLow, leftHigh⟩ := abs_le.mp left
  constructor
  · intro p mem
    rcases List.mem_append.mp mem with equal | last
    · rw [List.eq_of_mem_replicate equal]
      linarith
    · rw [List.mem_singleton.mp last]
      change 1 / (n : ℚ) - (1 / 10 ^ 15) ≤ decimal (1 - equalSum n)
      linarith
  · have sum : (choiceProbs n).sum =
        ((n - 1 : ℕ) : ℚ) * double (1 / n) + decimal (1 - equalSum n) := by
      rw [choiceProbs, List.sum_append, List.sum_replicate, List.sum_singleton, nsmul_eq_mul]
      rfl
    have most : ((n - 1 : ℕ) : ℚ) * double (1 / n) ≤ 1 - 1 / n + (1 / 10 ^ 15) := by
      have parts : ((n - 1 : ℕ) : ℚ) * (1 / n) = 1 - 1 / n := by
        rw [Nat.cast_sub (by omega), Nat.cast_one]
        field_simp
      have errors : ((n - 1 : ℕ) : ℚ) * ((1 / 10 ^ 15) / n) ≤ (1 / 10 ^ 15) := by
        have less : ((n - 1 : ℕ) : ℚ) ≤ n := by exact_mod_cast Nat.sub_le n 1
        rw [mul_div_assoc', div_le_iff₀ posQ, mul_comm]
        exact mul_le_mul_of_nonneg_left less (by positivity)
      have nonneg : (0 : ℚ) ≤ ((n - 1 : ℕ) : ℚ) := Nat.cast_nonneg _
      have all := mul_le_mul_of_nonneg_left (by linarith :
        double (1 / n) ≤ 1 / n + (1 / 10 ^ 15) / n) nonneg
      rw [mul_add, parts] at all
      linarith
    rw [sum]
    linarith

/-- **Texts that are not distinct** have probabilities that stay below one. -/
theorem choiceValues_lt_one {items : List String} (few : items.length ≤ 10 ^ 12)
    (twice : ¬ items.Nodup) : decimalSum (choiceValues items) < 1 := by
  have some_item : items ≠ [] := by
    rintro rfl
    exact twice List.nodup_nil
  have some_items : 2 ≤ items.length := by
    rcases items with _ | ⟨item, _ | ⟨other, rest⟩⟩
    · exact absurd rfl some_item
    · exact absurd (List.nodup_singleton item) twice
    · simp
  obtain ⟨names, probs⟩ := zip_choiceProbs some_item
  have length : (choiceValues items).length < (choiceProbs items.length).length := by
    have fewer : (dictOf (items.zip (choiceProbs items.length))).length <
        (items.zip (choiceProbs items.length)).length := length_dictOf_lt (by rwa [names])
    rw [← probs, List.length_map]
    rwa [choiceValues, List.length_map]
  obtain ⟨least, total⟩ := choiceProbs_near some_items few
  have fewQ : (items.length : ℚ) ≤ 10 ^ 12 := by exact_mod_cast few
  have posQ : (0 : ℚ) < items.length := by exact_mod_cast (by omega : 0 < items.length)
  have share : (1 : ℚ) / 10 ^ 12 ≤ 1 / items.length := one_div_le_one_div_of_le posQ fewQ
  have tiny : (3 : ℚ) * (1 / 10 ^ 15) + (1 / 10 ^ 15) / 2 < 1 / 10 ^ 12 := by norm_num
  have positive : ∀ p ∈ choiceProbs items.length, 0 ≤ p := fun p mem => by
    linarith [least p mem]
  have subperm := values_subperm some_item
  -- what the dictionary dropped has at least one part
  obtain ⟨dropped, perm⟩ : ∃ dropped, (choiceProbs items.length).Perm
      (choiceValues items ++ dropped) := by
    obtain ⟨same, isPerm, sublist⟩ := subperm
    obtain ⟨dropped, split⟩ := sublist.exists_perm_append
    exact ⟨dropped, split.trans (isPerm.append_right dropped)⟩
  obtain ⟨p, rest, rfl⟩ : ∃ p rest, dropped = p :: rest := by
    refine List.exists_cons_of_ne_nil ?_
    rintro rfl
    rw [List.append_nil] at perm
    exact absurd perm.length_eq length.ne'
  have sums := perm.sum_eq
  rw [List.sum_append, List.sum_cons] at sums
  have dropped : ∀ q ∈ p :: rest, q ∈ choiceProbs items.length := fun q mem =>
    perm.mem_iff.mpr (List.mem_append_right _ mem)
  have others : 0 ≤ rest.sum :=
    List.sum_nonneg fun q mem => positive q (dropped q (List.mem_cons_of_mem _ mem))
  have part := least p (dropped p List.mem_cons_self)
  have errors : ((choiceValues items).length : ℚ) * (10 ^ (-28 : ℤ) / 2) ≤ (1 / 10 ^ 15) / 2 := by
    have short : ((choiceValues items).length : ℚ) ≤ 10 ^ 12 := by
      have le := length.le
      rw [length_choiceProbs (by omega)] at le
      exact_mod_cast le.trans few
    have most := mul_le_mul_of_nonneg_right short (by positivity : (0 : ℚ) ≤ 10 ^ (-28 : ℤ) / 2)
    exact most.trans (by norm_num)
  have below : (choiceValues items).sum + (1 / 10 ^ 15) / 2 < 1 := by linarith
  have near := decimalSum_near (fun q mem => positive q (subperm.subset mem)) (by linarith)
  linarith [(abs_le.mp near).2]

end Few

/-- **What can be chosen from**: an item at least, and distinct ones. The sums of more than a million
millions of items may be rounded to something else. -/
structure Choosable (items : List String) : Prop where
  some_item : items ≠ []
  distinct : items.length ≤ 10 ^ 12 → items.Nodup
  sums : 10 ^ 12 < items.length →
    equalSum items.length ≤ 1 ∧ decimalSum (choiceValues items) = 1

/-- **A list can be chosen from** exactly when it is choosable. -/
theorem returns_choiceDistributionOf (items : List String) :
    Returns (choiceDistributionOf items) ↔ Choosable items := by
  rw [returns_choice_iff_sums]
  rcases le_or_gt items.length (10 ^ 12) with few | many
  · constructor
    · rintro ⟨some_item, -, total⟩
      refine ⟨some_item, fun _ => ?_, fun many => absurd few (not_le.mpr many)⟩
      by_contra twice
      exact absurd total (choiceValues_lt_one few twice).ne
    · rintro ⟨some_item, distinct, -⟩
      obtain ⟨names, probs⟩ := zip_choiceProbs some_item
      have fits := choiceProbs_fits (List.length_pos_iff.mpr some_item).ne' few
      have values : choiceValues items = choiceProbs items.length := by
        rw [choiceValues, dictOf_of_nodup (by rw [names]; exact distinct few), probs]
      refine ⟨some_item, ?_, values ▸ fits.1⟩
      have nonneg : 0 ≤ equalSum items.length := decimalSum_nonneg fun p mem =>
        (fits.2 p (List.mem_append_left _ mem)).1
      exact (leftover_iff nonneg).mp (fits.2 _ (List.mem_append_right _ (List.mem_singleton_self _)))
  · constructor
    · rintro ⟨some_item, sums⟩
      exact ⟨some_item, fun few => absurd many (not_lt.mpr few), fun _ => sums⟩
    · rintro ⟨some_item, -, sums⟩
      exact ⟨some_item, sums many⟩

end Chosen

end VRFDistribution

/-- Six committees share what EMIX does not get. -/
def sixCommittees : RoleConfig where
  nRanges := 6
  mReplicas := 1
  pEmix := 1 / 2
  pOff := 0

theorem valid_sixCommittees : sixCommittees.Valid where
  ranges := by decide
  replicas := by decide
  float := ⟨by decide +kernel, by decide +kernel⟩
  nonneg := by norm_num [sixCommittees]
  total := by norm_num [sixCommittees]

/-- What is certain, as a map of roles. -/
def certain : List (String × ℚ) := [("True", 1), ("False", decimal (1 - 1))]

theorem create_certain :
    VRFDistribution.create decimals certain hashSpace = .ok (.partition certain) := by
  rw [VRFDistribution.create_decimals]
  exact VRFDistribution.binaryDistribution_ok zero_le_one le_rfl

end Prism.Vrf
