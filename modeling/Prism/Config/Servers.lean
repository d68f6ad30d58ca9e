import Mathlib.Data.List.Dedup
import Mathlib.Data.List.Sort
import Prism.Python

/-!
The servers of a deployment and how they are claimed (`prism/config/environment/range.py`,
`prism/config/environment/enclave.py`, `prism/config/node/server.py`).

Every node lies in an enclave. Committees are claimed as a whole from the enclave with the most
unclaimed servers.

* `claimCommittee_cases`: a committee comes from one enclave, or no enclave has enough servers.
-/

namespace Prism.Config

/-! ### Nodes and roles -/

/-- `Node`, a server or a client. -/
structure Node where
  name : String
  enclave : String
  isServer : Bool
deriving DecidableEq

/-- The roles of servers, with what they are made of. -/
inductive ServerRole where
  | dropbox (index : ℤ)
  | mpcDropbox (index : ℤ) (partyId : ℕ) (committee : List Node)
  | emix
  | dummy
  | clientRegistration (index : ℕ)
deriving DecidableEq

/-- `isinstance(role, Dropbox)`, with the index. -/
def ServerRole.index? : ServerRole → Option ℤ
  | .dropbox index => some index
  | .mpcDropbox index _ _ => some index
  | _ => none

/-- `isinstance(role, Dropbox)`. -/
def ServerRole.isDropbox (role : ServerRole) : Bool := role.index?.isSome

/-- `Range`: the nodes, which are kept by their names. -/
structure Range where
  nodes : List Node
  distinct : (nodes.map Node.name).Nodup

namespace Range

variable (self : Range)

/-- `servers`. -/
def servers : List Node := self.nodes.filter (·.isServer)

/-- The names of the enclaves, sorted. -/
def enclaves : List String := (self.nodes.map Node.enclave).dedup.insertionSort (· ≤ ·)

/-- `unclaimed_servers` of the range. -/
def unclaimedServers (claimed : List Node) : List Node :=
  self.servers.filter (· ∉ claimed)

/-- `unclaimed_servers` of an enclave. -/
def unclaimedIn (claimed : List Node) (enclave : String) : List Node :=
  (self.unclaimedServers claimed).filter (·.enclave = enclave)

/-! ### Claims -/

/-- `claim_server`: the server, and what is claimed then. -/
def claimServer (claimed : List Node) : Option (Node × List Node) :=
  match self.unclaimedServers claimed with
  | [] => none
  | node :: _ => some (node, claimed ++ [node])

/-- The order of the enclaves for a claim: those with more unclaimed servers first. -/
def Fuller (claimed : List Node) (a b : String) : Prop :=
  (self.unclaimedIn claimed b).length ≤ (self.unclaimedIn claimed a).length

instance (claimed : List Node) : DecidableRel (self.Fuller claimed) :=
  fun _ _ => inferInstanceAs (Decidable (_ ≤ _))

/-- `claim_committee`: the committee, empty if there is none, and what is claimed then. -/
def claimCommittee (claimed : List Node) (size : ℤ) : Py (List Node × List Node) :=
  match self.enclaves.insertionSort (self.Fuller claimed) with
  | [] => .error .indexError
  | bestEnclave :: _ =>
      if size < 0 then
        .error (.valueError
          "Stop argument for islice() must be None or an integer: 0 <= x <= sys.maxsize.")
      else
        let committee := (self.unclaimedIn claimed bestEnclave).take size.toNat
        if (committee.length : ℤ) < size then .ok ([], claimed)
        else .ok (committee, claimed ++ committee)

variable {self}

theorem nodup_servers : self.servers.Nodup := (List.Nodup.of_map _ self.distinct).filter _

theorem mem_unclaimedServers {claimed : List Node} {s : Node} :
    s ∈ self.unclaimedServers claimed ↔ s ∈ self.servers ∧ s ∉ claimed := by
  rw [unclaimedServers, List.mem_filter, decide_eq_true_eq]

theorem mem_unclaimedIn {claimed : List Node} {enclave : String} {s : Node} :
    s ∈ self.unclaimedIn claimed enclave ↔
      (s ∈ self.servers ∧ s ∉ claimed) ∧ s.enclave = enclave := by
  rw [unclaimedIn, List.mem_filter, mem_unclaimedServers, decide_eq_true_eq]

theorem nodup_unclaimedIn (claimed : List Node) (enclave : String) :
    (self.unclaimedIn claimed enclave).Nodup := (nodup_servers.filter _).filter _

theorem nodup_enclaves : self.enclaves.Nodup :=
  (List.perm_insertionSort _ _).nodup_iff.mpr (List.nodup_dedup _)

/-- **Claimed committees.** A committee is made of so many unclaimed servers of one enclave. There is
none when no enclave has so many. -/
theorem claimCommittee_cases {claimed claimed' committee : List Node} {size : ℤ} (pos : 0 < size)
    (run : self.claimCommittee claimed size = .ok (committee, claimed')) :
    (committee = [] ∧ claimed' = claimed ∧
      ∀ enclave ∈ self.enclaves, ((self.unclaimedIn claimed enclave).length : ℤ) < size) ∨
    ((committee.length : ℤ) = size ∧ claimed' = claimed ++ committee ∧
      ∃ enclave ∈ self.enclaves, committee.Sublist (self.unclaimedIn claimed enclave)) := by
  have total : Std.Total (self.Fuller claimed) := ⟨fun _ _ => Nat.le_total _ _⟩
  have trans : IsTrans String (self.Fuller claimed) := ⟨fun _ _ _ ab bc => Nat.le_trans bc ab⟩
  have sorted := List.pairwise_insertionSort (self.Fuller claimed) self.enclaves
  have same := List.perm_insertionSort (self.Fuller claimed) self.enclaves
  unfold claimCommittee at run
  generalize self.enclaves.insertionSort (self.Fuller claimed) = order at run sorted same
  cases order with
  | nil => cases run
  | cons best rest =>
      dsimp only at run
      rw [if_neg (by omega)] at run
      have here : best ∈ self.enclaves := same.mem_iff.mp List.mem_cons_self
      have fullest : ∀ enclave ∈ self.enclaves,
          (self.unclaimedIn claimed enclave).length ≤ (self.unclaimedIn claimed best).length := by
        intro enclave mem
        rcases List.mem_cons.mp (same.mem_iff.mpr mem) with rfl | mem
        · exact Nat.le_refl _
        · exact List.rel_of_pairwise_cons sorted mem
      split_ifs at run with few
      · obtain ⟨rfl, rfl⟩ := Prod.mk.inj (Except.ok.inj run)
        refine .inl ⟨rfl, rfl, fun enclave mem => ?_⟩
        have := fullest enclave mem
        rw [List.length_take] at few
        omega
      · obtain ⟨rfl, rfl⟩ := Prod.mk.inj (Except.ok.inj run)
        refine .inr ⟨?_, rfl, best, here, List.take_sublist _ _⟩
        rw [List.length_take] at few ⊢
        omega

end Range

end Prism.Config
