import Mathlib.Data.List.Infix
import Mathlib.Data.List.ProdSigma
import Mathlib.Data.Rat.Defs
import Prism.Python

/-!
The dropbox committees of a sortition, and the role of a server that was sorted into one
(`prism/common/vrf/distribution.py`, `prism/server/epoch/vrf.py`).

There is a committee for each range of pseudonyms and each of its replicas. Committees are known by
their names, so a server finds the range and the replica of its own committee by the name.

* `lookup_committees`: every committee is found by its name.
* `sortIntoRole_committee`: what a server makes of a committee it was sorted into.
-/

namespace Prism.Vrf

/-! ### Configurations -/

/-- A value of a configuration. -/
inductive Setting where
  | none
  | bool (value : Bool)
  | int (value : ℤ)
  | float (value : ℚ)
  | str (value : String)
deriving DecidableEq

/-- `bool(value)`. -/
def Setting.truthy : Setting → Bool
  | .none => false
  | .bool value => value
  | .int value => value ≠ 0
  | .float value => value ≠ 0
  | .str value => value ≠ ""

/-- A configuration, by the names of its settings. -/
abbrev Settings := List (String × Setting)

/-- `configuration.get(name, default)`. -/
def Settings.get (configuration : Settings) (name : String) (default : Setting) : Setting :=
  (configuration.lookup name).getD default

/-! ### Committees -/

/-- The numbers of ranges and of replicas that a `VRFConfig` has. -/
structure VRFConfig where
  nRanges : ℤ
  mReplicas : ℤ

/-- The name of the committee for a replica of a range. -/
def committeeName (nRange ordinal : ℕ) : String :=
  "DROPBOX_" ++ Nat.repr nRange ++ "_" ++ Nat.repr ordinal

/-- The committees of `role_distribution`, with their ranges and replicas. -/
def committees (config : VRFConfig) : List (String × ℕ × ℕ) :=
  dictOf (((List.range' 1 config.nRanges.toNat).product
    (List.range' 1 config.mReplicas.toNat)).map fun c => (committeeName c.1 c.2, c))

theorem repr_injective {m n : ℕ} (same : Nat.repr m = Nat.repr n) : m = n := by
  have digits : Nat.toDigits 10 m = Nat.toDigits 10 n := by
    rw [← Nat.toList_repr, ← Nat.toList_repr, same]
  rw [← @Nat.ofDigitChars_ten_toDigits m, digits, Nat.ofDigitChars_ten_toDigits]

theorem underscore_notMem_repr (n : ℕ) : '_' ∉ (Nat.repr n).toList := by
  intro mem
  rw [Nat.toList_repr] at mem
  exact absurd (Nat.isDigit_of_mem_toDigits (by decide) (by decide) mem) (by decide)

/-- The name tells the range and the replica. -/
theorem committeeName_injective {n n' r r' : ℕ} (same : committeeName n r = committeeName n' r') :
    n = n' ∧ r = r' := by
  have chars := congrArg String.toList same
  simp only [committeeName, String.toList_append, List.append_assoc, List.append_cancel_left_eq]
    at chars
  have stops (n r : ℕ) : ((Nat.repr n).toList ++ ("_".toList ++ (Nat.repr r).toList)).takeWhile
      (· ≠ '_') = (Nat.repr n).toList := by
    rw [List.takeWhile_append_of_pos fun c mem => by
      simpa using ne_of_mem_of_not_mem mem (underscore_notMem_repr n)]
    simp
  have first := congrArg (List.takeWhile (· ≠ '_')) chars
  rw [stops, stops] at first
  rw [first, List.append_cancel_left_eq, List.append_cancel_left_eq] at chars
  exact ⟨repr_injective (String.toList_inj.mp first), repr_injective (String.toList_inj.mp chars)⟩

variable {config : VRFConfig}

theorem committees_eq : committees config =
    ((List.range' 1 config.nRanges.toNat).product (List.range' 1 config.mReplicas.toNat)).map
      fun c => (committeeName c.1 c.2, c) := by
  refine dictOf_of_nodup ?_
  rw [List.map_map]
  have distinct := (List.nodup_range' (s := 1) (n := config.nRanges.toNat)).product
    (List.nodup_range' (s := 1) (n := config.mReplicas.toNat))
  exact distinct.map fun c c' same => Prod.ext_iff.mpr (committeeName_injective same)

theorem mem_committees {name : String} {n r : ℕ} :
    (name, n, r) ∈ committees config ↔ name = committeeName n r ∧
      (1 ≤ n ∧ (n : ℤ) ≤ config.nRanges) ∧ 1 ≤ r ∧ (r : ℤ) ≤ config.mReplicas := by
  rw [committees_eq, List.mem_map]
  constructor
  · rintro ⟨⟨n', r'⟩, mem, same⟩
    obtain ⟨named, same⟩ := Prod.mk.inj same
    obtain ⟨rfl, rfl⟩ := Prod.mk.inj same
    obtain ⟨range, replica⟩ := List.mem_product.mp mem
    rw [List.mem_range'_1] at range replica
    exact ⟨named.symm, by omega, by omega⟩
  · rintro ⟨rfl, range, replica⟩
    refine ⟨(n, r), List.mem_product.mpr ⟨?_, ?_⟩, rfl⟩ <;> rw [List.mem_range'_1] <;> omega

/-- **Every committee is found by its name.** -/
theorem lookup_committees {name : String} {n r : ℕ} (mem : (name, n, r) ∈ committees config) :
    (committees config).lookup name = some (n, r) :=
  lookup_of_mem (nodup_dictOf _) mem

/-! ### Sorted servers -/

/-- What `make_role` is given. -/
structure RoleArgs where
  roleName : String
  committee : String
  dropboxIndex : Option ℤ
  proof : Option String
deriving DecidableEq

/-- `VRFEpoch._sort_into_role`, after the sortition. -/
def sortIntoRole (configuration : Settings) (vrfConfig : VRFConfig)
    (committees : List (String × ℕ × ℕ)) (committee : String) (proof : String) : Py RoleArgs :=
  if committee = "OFF" then .ok ⟨"DUMMY", committee, none, some proof⟩
  else if "DROPBOX".toList <:+: committee.toList then
    let roleName :=
      if (configuration.get "vrf_dropbox_ss" (.bool false)).truthy then "DROPBOX"
      else "DROPBOX_LF"
    match committees.lookup committee with
    | none => .error .keyError
    | some (nRange, mReplica) =>
        let dropboxIndex : ℤ :=
          if (configuration.get "vrf_db_index_from_range_ids" (.bool true)).truthy then nRange - 1
          else (nRange - 1) * vrfConfig.mReplicas + (mReplica - 1)
        .ok ⟨roleName, committee, some dropboxIndex, some proof⟩
  else .ok ⟨committee, committee, none, some proof⟩

/-- A server sorted into a committee: its index comes from the range and the replica. -/
theorem sortIntoRole_committee (configuration : Settings) {n r : ℕ} (proof : String)
    (mem : (committeeName n r, n, r) ∈ committees config) :
    (sortIntoRole configuration config (committees config) (committeeName n r) proof).map
        RoleArgs.dropboxIndex =
      .ok (some (if (configuration.get "vrf_db_index_from_range_ids" (.bool true)).truthy then
        (n : ℤ) - 1 else (n - 1) * config.mReplicas + (r - 1))) := by
  have chars : (committeeName n r).toList =
      "DROPBOX".toList ++ ("_".toList ++ (Nat.repr n).toList ++ "_".toList ++
        (Nat.repr r).toList) := by
    simp [committeeName]
  have isDropbox : "DROPBOX".toList <:+: (committeeName n r).toList := by
    rw [chars]
    exact (List.prefix_append _ _).isInfix
  have notOff : committeeName n r ≠ "OFF" := by
    intro same
    rw [same] at chars
    exact absurd (congrArg List.head? chars) (by simp)
  rw [sortIntoRole, if_neg notOff, if_pos isDropbox, lookup_committees mem]
  rfl

end Prism.Vrf
