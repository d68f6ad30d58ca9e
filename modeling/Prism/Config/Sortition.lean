import Mathlib.Tactic.Linarith
import Prism.Vrf.Committees
import Prism.Config.Servers

/-!
Role assignment by sortition (`Range.perform_sortition` of `prism/config/environment/range.py`), and
the indices of the dropboxes that it makes.

The generated configuration says whether the index of a dropbox is that of its range, or whether
every replica has an index of its own. Servers that change their epoch decide the same from their
configuration, but they look for the setting under another name (`sortIntoRole`).

* `performSortition_index`: the index that the generator gives to a committee.
* `sortition_index_iff`: when a server that is sorted into the committee computes the same.
-/

namespace Prism.Config

open Vrf

/-! ### Sortition -/

/-- The settings that `perform_sortition` reads, with the server settings that are generated. -/
structure SortitionConfig where
  vrfDropboxSs : Bool
  vrfConfigAttempts : ℕ
  serverCommon : Settings
  vrfConfig : VRFConfig

namespace SortitionConfig

variable (config : SortitionConfig)

/-- The servers that a viable committee needs. -/
def committeeSize : ℕ := if config.vrfDropboxSs then 1 else 3

/-- The servers that an attempt has sorted into a role. -/
def sortedInto (servers : List Node) (drawn : Node → String) (role : String) : List Node :=
  (servers.filter (drawn · = role)).insertionSort (·.name ≤ ·.name)

/-- The loop of step 4 over the committees, with the replicas of each range that may still be viable.
It stops with an error at the range whose last replica is not. -/
def viability (members : String → List Node) :
    List (String × ℕ × ℕ) → (ℕ → ℤ) → Option String
  | [], _ => none
  | (role, nRange, _) :: rest, viable =>
      if (members role).length < config.committeeSize then
        let viable := Function.update viable nRange (viable nRange - 1)
        if viable nRange < 1 then
          some s!"Not enough viable DROPBOX committees for pseudonym range={nRange}"
        else viability members rest viable
      else viability members rest viable

/-- Step 4: what is not viable about an attempt, if anything. -/
def configError (servers : List Node) (drawn : Node → String) : Option String :=
  if (sortedInto servers drawn "EMIX").length < 1 then some "No EMIX selected in this round"
  else
    config.viability (sortedInto servers drawn) (committees config.vrfConfig)
      fun _ => config.vrfConfig.mReplicas

/-- Step 3: the first viable attempt, or the error of the last. Without attempts nobody is sorted. -/
def winner (servers : List Node) : List (Node → String) → Py (Option (Node → String))
  | [] => .ok none
  | [drawn] =>
      match config.configError servers drawn with
      | none => .ok (some drawn)
      | some text => .error (.configError text)
  | drawn :: next :: attempts =>
      match config.configError servers drawn with
      | none => .ok (some drawn)
      | some _ => winner servers (next :: attempts)

/-- The index of the dropboxes of a committee. -/
def dropboxIndex (nRange mReplica : ℕ) : Py ℤ :=
  match config.serverCommon.lookup "vrf_db_index_from_range_id" with
  | none => .error .keyError
  | some fromRange =>
      if fromRange.truthy then .ok (nRange - 1)
      else .ok ((nRange - 1) * config.vrfConfig.mReplicas + (mReplica - 1))

/-- The roles in the committee of a replica. Servers beyond the committee are dummies. -/
def replicaRoles (index : ℤ) (mpcCommittee : List Node) : List (Node × ServerRole) :=
  mpcCommittee.zipIdx.map fun (server, partyId) =>
    if config.committeeSize = 1 then (server, .dropbox index)
    else if mpcCommittee.length < config.committeeSize ∨ partyId > config.committeeSize then
      (server, .dummy)
    else (server, .mpcDropbox index partyId (mpcCommittee.take 4))

end SortitionConfig

namespace Range

/-- `perform_sortition`, for the servers that are left when the registration committee is taken out,
and what each attempt draws for them: the roles in the order in which they are given. -/
def performSortition (config : SortitionConfig) (servers : List Node)
    (attempts : List (Node → String)) : Py (List (Node × ServerRole)) := do
  let winner ← config.winner servers (attempts.take config.vrfConfigAttempts)
  let members (role : String) : List Node :=
    match winner with
    | none => []
    | some drawn => SortitionConfig.sortedInto servers drawn role
  let dropboxes ← (committees config.vrfConfig).mapM fun (role, nRange, mReplica) => do
    return config.replicaRoles (← config.dropboxIndex nRange mReplica) (members role)
  return dropboxes.flatten ++ (members "EMIX").map (fun server => (server, .emix)) ++
    (members "OFF").map fun server => (server, .dummy)

end Range

/-! ### Indices -/

section

variable {config : SortitionConfig} {servers : List Node} {attempts : List (Node → String)}
  {result : List (Node × ServerRole)} {drawn : Node → String} {s : Node} {role : ServerRole}

theorem mem_replicaRoles {index i : ℤ} {mpcCommittee : List Node}
    (mem : (s, role) ∈ config.replicaRoles index mpcCommittee) (isIndex : role.index? = some i) :
    s ∈ mpcCommittee ∧ i = index := by
  rw [SortitionConfig.replicaRoles, List.mem_map] at mem
  obtain ⟨⟨server, partyId⟩, inside, same⟩ := mem
  have here := List.mem_of_getElem? (List.mem_zipIdx_iff_getElem?.mp inside)
  dsimp only at same
  split_ifs at same <;> obtain ⟨rfl, rfl⟩ := Prod.mk.inj same
  · exact ⟨here, (Option.some.inj isIndex).symm⟩
  · cases isIndex
  · exact ⟨here, (Option.some.inj isIndex).symm⟩

/-- **The generator's index.** A dropbox has the index of the committee that its server was sorted
into. -/
theorem performSortition_index (run : Range.performSortition config servers attempts = .ok result)
    (won : config.winner servers (attempts.take config.vrfConfigAttempts) = .ok (some drawn))
    (mem : (s, role) ∈ result) {i : ℤ} (isIndex : role.index? = some i) {n r : ℕ}
    (sorted : drawn s = committeeName n r)
    (isIn : (committeeName n r, n, r) ∈ committees config.vrfConfig) :
    config.dropboxIndex n r = .ok i := by
  unfold Range.performSortition at run
  obtain ⟨winner, hwinner, run⟩ := bind_eq_ok.mp run
  cases won.symm.trans hwinner
  obtain ⟨dropboxes, made, run⟩ := bind_eq_ok.mp run
  cases run
  rw [List.mem_append, List.mem_append] at mem
  have plain {names : List Node} {other : ServerRole} (none : other.index? = none) :
      (s, role) ∉ names.map fun server => (server, other) := by
    intro inside
    obtain ⟨_, _, same⟩ := List.mem_map.mp inside
    rw [← (Prod.mk.inj same).2, none] at isIndex
    cases isIndex
  rcases mem with (mem | mem) | mem
  · obtain ⟨roles, isRoles, inside⟩ := List.mem_flatten.mp mem
    obtain ⟨⟨name, n', r'⟩, isIn', run⟩ := (mem_mapM made).2 roles isRoles
    obtain ⟨index, hindex, run⟩ := bind_eq_ok.mp run
    cases run
    obtain ⟨member, rfl⟩ := mem_replicaRoles inside isIndex
    change s ∈ SortitionConfig.sortedInto servers drawn name at member
    have named : drawn s = name := by
      rw [SortitionConfig.sortedInto, List.mem_insertionSort, List.mem_filter] at member
      exact of_decide_eq_true member.2
    rw [← named, sorted] at isIn'
    have same := (lookup_committees isIn').symm.trans (lookup_committees isIn)
    obtain ⟨rfl, rfl⟩ := Prod.mk.inj (Option.some.inj same)
    exact hindex
  · exact absurd mem (plain rfl)
  · exact absurd mem (plain rfl)

theorem dropboxIndex_eq {n r : ℕ} {i : ℤ} (index : config.dropboxIndex n r = .ok i) :
    i = if (config.serverCommon.get "vrf_db_index_from_range_id" .none).truthy then (n : ℤ) - 1
      else (n - 1) * config.vrfConfig.mReplicas + (r - 1) := by
  unfold SortitionConfig.dropboxIndex at index
  rw [Settings.get]
  cases flag : config.serverCommon.lookup "vrf_db_index_from_range_id" with
  | none =>
      rw [flag] at index
      cases index
  | some fromRange =>
      rw [flag] at index
      dsimp only at index
      rw [Option.getD_some]
      split_ifs at index ⊢ <;> exact (Except.ok.inj index).symm

theorem ite_eq_ite_iff {a b : Bool} {x y : ℤ} :
    ((if b then x else y) = if a then x else y) ↔ a = b ∨ x = y := by
  cases a <;> cases b <;> simp [eq_comm]

/-- **Generator and servers.** A server that is sorted into the committee of a dropbox computes the
dropbox's index exactly when the two settings agree, or there is one replica, or it is the first
replica of the first range. -/
theorem sortition_index_iff (run : Range.performSortition config servers attempts = .ok result)
    (won : config.winner servers (attempts.take config.vrfConfigAttempts) = .ok (some drawn))
    (mem : (s, role) ∈ result) {i : ℤ} (isIndex : role.index? = some i) {n r : ℕ}
    (sorted : drawn s = committeeName n r)
    (isIn : (committeeName n r, n, r) ∈ committees config.vrfConfig) (configuration : Settings)
    (proof : String) :
    (sortIntoRole configuration config.vrfConfig (committees config.vrfConfig) (committeeName n r)
        proof).map RoleArgs.dropboxIndex = .ok (some i) ↔
      ((config.serverCommon.get "vrf_db_index_from_range_id" .none).truthy =
          (configuration.get "vrf_db_index_from_range_ids" (.bool true)).truthy) ∨
        config.vrfConfig.mReplicas = 1 ∨ n = 1 ∧ r = 1 := by
  have index := performSortition_index run won mem isIndex sorted isIn
  obtain ⟨-, range, replica⟩ := mem_committees.mp isIn
  have apart : (n : ℤ) - 1 = (n - 1) * config.vrfConfig.mReplicas + (r - 1) ↔
      config.vrfConfig.mReplicas = 1 ∨ n = 1 ∧ r = 1 := by
    constructor
    · intro same
      by_cases first : n = 1
      · subst first
        right
        omega
      · left
        nlinarith [show (2 : ℤ) ≤ n by omega]
    · rintro (one | ⟨rfl, rfl⟩)
      · rw [one]
        omega
      · simp
  rw [sortIntoRole_committee configuration proof isIn, dropboxIndex_eq index, Except.ok.injEq,
    Option.some.injEq, ite_eq_ite_iff, apart]

end

/-- One range with two replicas, with an index for each of them. -/
def exampleSettings : SortitionConfig where
  vrfDropboxSs := false
  vrfConfigAttempts := 5
  serverCommon := [("vrf_n_ranges", .int 1), ("vrf_m_replicas", .int 2),
    ("vrf_db_index_from_range_id", .bool false)]
  vrfConfig := ⟨1, 2⟩

/-- A server by its name. -/
def exampleServer (name : String) : Node := ⟨name, "global", true⟩

/-- Three servers in each of the two committees, and an EMIX. -/
def exampleDraw (s : Node) : String :=
  if s.name = "a" ∨ s.name = "b" ∨ s.name = "c" then "DROPBOX_1_1"
  else if s.name = "d" ∨ s.name = "e" ∨ s.name = "f" then "DROPBOX_1_2"
  else "EMIX"

/-- The servers that are drawn for. -/
def exampleServers : List Node := ["a", "b", "c", "d", "e", "f", "g"].map exampleServer

/-- The servers with their roles. The leader of the first committee has index 0, and that of the
second has index 1. -/
theorem exampleSettings_sorted :
    ∃ result, Range.performSortition exampleSettings exampleServers [exampleDraw] = .ok result ∧
      (exampleServer "a", .mpcDropbox 0 0 (["a", "b", "c"].map exampleServer)) ∈ result ∧
      (exampleServer "d", .mpcDropbox 1 0 (["d", "e", "f"].map exampleServer)) ∈ result := by
  have returns : ((Range.performSortition exampleSettings exampleServers [exampleDraw]).map
      fun result => decide (
        (exampleServer "a", ServerRole.mpcDropbox 0 0 (["a", "b", "c"].map exampleServer)) ∈ result ∧
        (exampleServer "d", ServerRole.mpcDropbox 1 0 (["d", "e", "f"].map exampleServer)) ∈ result))
          = .ok true := by decide +kernel
  obtain ⟨result, run, mem⟩ := map_eq_ok.mp returns
  exact ⟨result, run, of_decide_eq_true mem⟩

/-- The leader of the first committee computes its index. -/
theorem first_replica_agrees :
    (sortIntoRole exampleSettings.serverCommon exampleSettings.vrfConfig
        (committees exampleSettings.vrfConfig) (committeeName 1 1) "").map
          RoleArgs.dropboxIndex = .ok (some 0) ↔
      ((exampleSettings.serverCommon.get "vrf_db_index_from_range_id" .none).truthy =
          (exampleSettings.serverCommon.get "vrf_db_index_from_range_ids" (.bool true)).truthy) ∨
        exampleSettings.vrfConfig.mReplicas = 1 ∨ 1 = 1 ∧ 1 = 1 := by
  obtain ⟨result, run, mem, -⟩ := exampleSettings_sorted
  exact sortition_index_iff run (by rfl) mem rfl (by decide) (by decide) _ _

/-- The leader of the second committee has index 1 in the generated deployment, and it computes
index 0 from the generated settings. -/
theorem second_replica_disagrees :
    (∃ result, Range.performSortition exampleSettings exampleServers [exampleDraw] = .ok result ∧
      (exampleServer "d", .mpcDropbox 1 0 (["d", "e", "f"].map exampleServer)) ∈ result) ∧
    (sortIntoRole exampleSettings.serverCommon exampleSettings.vrfConfig
      (committees exampleSettings.vrfConfig) (exampleDraw (exampleServer "d")) "").map
        RoleArgs.dropboxIndex = .ok (some 0) := by
  obtain ⟨result, run, -, mem⟩ := exampleSettings_sorted
  exact ⟨⟨result, run, mem⟩, by decide +kernel⟩

end Prism.Config
