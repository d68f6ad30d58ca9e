import Mathlib.Algebra.BigOperators.Group.List.Basic
import Mathlib.Algebra.Order.Floor.Ring
import Mathlib.Data.Rat.Floor
import Prism.Config.Servers

/-!
Static role assignment (`Range.assign_roles` of `prism/config/environment/range.py`).

First committees are claimed, then single dropboxes, then the servers for client registration. What
is left are EMIXes. The code asks for at least `ceil(mpc_dropbox_ratio)` committees, whatever the
ratio comes to, and it goes on without dropboxes when no enclave has enough servers.
-/

namespace Prism.Config

/-! ### The configuration -/

/-- The settings of `Configuration` that the roles are assigned by. Ratios are exact numbers here. -/
structure StaticConfig where
  ssDropboxRatio : Option ℚ
  mpcDropboxRatio : Option ℚ
  mpcCommitteeSize : ℤ
  bootstrapping : Bool
  ibeShards : ℤ
  onionLayers : ℤ

/-- `pick_dropbox_parameters`. -/
def pickDropboxParameters (serverCount : ℕ) (config : StaticConfig) : Py StaticConfig :=
  match config.ssDropboxRatio, config.mpcDropboxRatio with
  | none, none =>
      if (serverCount : ℤ) < config.mpcCommitteeSize then
        .ok { config with mpcDropboxRatio := some 0, ssDropboxRatio := some (1 / 2) }
      else if config.mpcCommitteeSize = 0 then .error .zeroDivisionError
      else
        .ok { config with
          mpcDropboxRatio := some (((config.mpcCommitteeSize - 1 : ℤ) : ℚ) / config.mpcCommitteeSize)
          ssDropboxRatio := some 0 }
  | none, some mpc =>
      if mpc > 0 then .ok { config with ssDropboxRatio := some 0 } else .ok config
  | some ss, none =>
      if ss > 0 then .ok { config with mpcDropboxRatio := some 0 } else .ok config
  | some _, some _ => .ok config

/-- A value that arithmetic is done with. -/
def number (value : Option ℚ) : Py ℚ :=
  match value with
  | some x => .ok x
  | none => .error .typeError

/-! ### Roles -/

/-- What has been claimed and assigned. Roles are in the order in which they were given. -/
structure RoleState where
  claimed : List Node
  roles : List (Node × ServerRole)
  mpcLeaders : List Node
  dropboxIndex : ℕ

/-- The roles in a committee. -/
def committeeRoles (index : ℕ) (committee : List Node) : List (Node × ServerRole) :=
  committee.zipIdx.map fun (server, partyId) => (server, .mpcDropbox index partyId committee)

/-- What `assign_roles` leaves. -/
structure Assigned where
  config : StaticConfig
  roles : List (Node × ServerRole)
  mpcLeaders : List Node

namespace Range

variable (self : Range)

/-- Step 2 of `assign_roles`, for so many committees. -/
def assignMpc (size : ℤ) : ℕ → RoleState → Py RoleState
  | 0, s => .ok s
  | k + 1, s => do
      let (committee, claimed) ← self.claimCommittee s.claimed size
      match committee with
      | [] => return s
      | leader :: rest =>
          assignMpc size k {
            claimed
            roles := s.roles ++ committeeRoles s.dropboxIndex (leader :: rest)
            mpcLeaders := s.mpcLeaders ++ [leader]
            dropboxIndex := s.dropboxIndex + 1 }

/-- Step 3, for so many single dropboxes. -/
def assignSs : ℕ → RoleState → RoleState
  | 0, s => s
  | k + 1, s =>
      match self.claimServer s.claimed with
      | none => s
      | some (server, claimed) =>
          assignSs k { s with
            claimed
            roles := s.roles ++ [(server, .dropbox s.dropboxIndex)]
            dropboxIndex := s.dropboxIndex + 1 }

/-- The number of committees that are asked for. -/
def mpcCommittees (serverCount : ℕ) (mpc : ℚ) (size : ℤ) : ℤ := max ⌈mpc⌉ ⌊serverCount * mpc / size⌋

/-- `ClientRegistration(ibe, index)`, for an IBE with so many secrets. -/
def clientRegistration (ibeSecrets index : ℕ) : Py ServerRole :=
  if index < ibeSecrets then .ok (.clientRegistration index) else .error .indexError

/-- Step 4: the roles for client registration, and who is left. -/
def assignRegistration (config : StaticConfig) (ibeSecrets : ℕ) (unclaimed : List Node) :
    Py (List (Node × ServerRole) × List Node) :=
  if config.bootstrapping then
    if (unclaimed.length : ℤ) < config.ibeShards then
      .error (.configError ("Not enough servers left for client registration committee " ++
        s!"(have: {unclaimed.length}, need: {config.ibeShards})"))
    else do
      let committee := pySlice unclaimed 0 config.ibeShards
      let unclaimed := pySlice unclaimed config.ibeShards unclaimed.length
      let roles ← committee.zipIdx.mapM fun (member, idx) => do
        return (member, ← clientRegistration ibeSecrets idx)
      return (roles, unclaimed)
  else .ok ([], unclaimed)

/-- `assign_roles`. -/
def assignRoles (ibeSecrets : ℕ) (config : StaticConfig) : Py Assigned := do
  let servers := self.servers
  let config ← pickDropboxParameters servers.length config
  let mpc ← number config.mpcDropboxRatio
  if config.mpcCommitteeSize = 0 then throw .zeroDivisionError
  let committees := mpcCommittees servers.length mpc config.mpcCommitteeSize
  let ss ← number config.ssDropboxRatio
  let ssCount := ⌊servers.length * ss⌋
  if ssCount + committees = 0 then
    throw (.configError "Configuration does not allow any dropboxes.")
  let s ← self.assignMpc config.mpcCommitteeSize committees.toNat ⟨[], [], [], 0⟩
  let s := self.assignSs ssCount.toNat s
  let (registration, unclaimed) ←
    assignRegistration config ibeSecrets (self.unclaimedServers s.claimed)
  if unclaimed = [] then throw (.configError "Not enough servers left to have any EMIXes")
  return {
    config := { config with onionLayers := min config.onionLayers unclaimed.length }
    roles := s.roles ++ registration ++ unclaimed.map fun server => (server, .emix)
    mpcLeaders := s.mpcLeaders }

end Range

end Prism.Config
