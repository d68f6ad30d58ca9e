import Mathlib.Data.List.ReduceOption
import Mathlib.Data.Set.List
import Prism.Crypto.ServerMessage
import Prism.Lib.Retry
import Prism.Lockfree.Saved

/-!
What the router saves, and the router that is made of it
(`prism/server/routing/router_ls.py`, `prism/server/routing/neighborhood.py`,
`prism/common/epoch/genesis.py`).

The router saves its neighbors and the profiles of its links. After a restart it makes the
neighbors again and loads the profiles one after another, until all are loaded. A link that the
router did not get stands as `None` in its lists, and what a neighbor is made of may be missing.

* `restores_neighbor`, `restores_address`, `restores_key`: what was saved is read back.
* `Neighbor.saveData_iff`: which neighbors can be saved.
-/

namespace Prism.Routing.RouterState

open Prism.Crypto Prism.Lib Prism.Lockfree

/-! ### Links -/

/-- `LinkType`. -/
inductive LinkType where
  | undef | send | recv | bidi
deriving DecidableEq, Repr

/-- `LinkType.name`. -/
def LinkType.name : LinkType → String
  | .undef => "UNDEF"
  | .send => "SEND"
  | .recv => "RECV"
  | .bidi => "BIDI"

/-- `LinkAddress`. -/
structure LinkAddress where
  channelId : String
  linkAddress : String
deriving DecidableEq, Repr

/-- `Link`, as its profile sees it. -/
structure Link where
  address : LinkAddress
  endpoints : List String
  role : String
  linkType : LinkType
deriving DecidableEq, Repr

/-- `LinkProfile`, without the flag that it is loaded. -/
structure LinkProfile where
  address : LinkAddress
  description : String
  personas : List String
  role : String
  linkType : LinkType
deriving DecidableEq, Repr

/-- `Link.profile`. -/
def Link.profile (link : Link) : LinkProfile where
  address := link.address
  description := link.linkType.name
  personas := link.endpoints
  role := link.role
  linkType := link.linkType

/-- The dictionary of a profile. -/
structure SavedLink where
  address : String
  channelId : String
  description : String
  personas : List String
  role : String
deriving DecidableEq, Repr

/-- `LinkProfile.to_dict`. -/
def LinkProfile.toDict (profile : LinkProfile) : SavedLink where
  address := profile.address.linkAddress
  channelId := profile.address.channelId
  description := profile.description
  personas := profile.personas
  role := profile.role

/-- `part in s.lower()`. -/
def lowerContains (s part : String) : Bool := part.toList <:+: s.toList.map Char.toLower

/-- The type of a link by the description of its profile. -/
def linkTypeOf (description : String) : LinkType :=
  if lowerContains description "send" then .send
  else if lowerContains description "receive" || lowerContains description "recv" then .recv
  else if lowerContains description "bidi" then .bidi
  else .undef

@[simp] theorem linkTypeOf_name (linkType : LinkType) : linkTypeOf linkType.name = linkType := by
  cases linkType <;> decide

/-- `LinkProfile.from_dict`. -/
def LinkProfile.fromDict (d : SavedLink) : LinkProfile where
  address := { channelId := d.channelId, linkAddress := d.address }
  description := d.description
  personas := d.personas
  role := d.role
  linkType := linkTypeOf d.description

/-- **The profile of a link is read back.** -/
@[simp] theorem restores_link (link : Link) :
    LinkProfile.fromDict link.profile.toDict = link.profile := by
  simp [LinkProfile.fromDict, LinkProfile.toDict, Link.profile]

/-- The dictionary of a link that the router may not have got: `None` has no profile. -/
def saveLink : Option Link → Py SavedLink
  | some link => .ok link.profile.toDict
  | none => .error .attributeError

/-! ### Neighbors -/

/-- `Neighbor`, with what may be missing in the message that it was made of. -/
structure Neighbor (package : CryptoPackage) where
  name : Option String
  pseudonym : Option Bytes
  publicKey : Option package.PublicKey
  controlAddresses : Option (List (Option LinkAddress))
  tag : Option String
  dataLinks : List Link := []

/-- The dictionary of a neighbor. -/
structure SavedNeighbor where
  name : Option String
  pseudonym : String
  publicKey : String
  controlAddresses : List String
  dataLinks : List SavedLink
  tag : Option String
deriving DecidableEq, Repr

section Neighbors

variable (package : CryptoPackage) (cbor : Cbor2) (builtins : Builtins) (now : ℤ)

/-- A link address as a message. -/
def LinkAddress.message (address : LinkAddress) : Value :=
  .object .linkAddress [.str address.channelId, .str address.linkAddress]

/-- `address.encode().hex()`. -/
def hexAddress : Option LinkAddress → Py String
  | some address => hexMessage cbor address.message
  | none => .error .attributeError

/-- The addresses of a neighbor, each as text. -/
def hexAddresses : Option (List (Option LinkAddress)) → Py (List String)
  | some addresses => addresses.mapM (hexAddress cbor)
  | none => .error .typeError

/-- A message as a link address. -/
def addressOfMessage : Value → Py LinkAddress
  | .object .linkAddress [.str channelId, .str linkAddress] => .ok { channelId, linkAddress }
  | _ => .error .attributeError

/-- `LinkAddress.decode(bytes.fromhex(a))`. -/
def addressOfHex (s : String) : Py LinkAddress := do
  addressOfMessage (← messageOfHex cbor builtins now .linkAddress s)

/-- `HalfKeyMap.from_key(key).encode().hex()`. -/
def hexKey : Option package.PublicKey → Py String
  | some key => do hexMessage cbor (← fromKey package builtins key)
  | none => .error .attributeError

/-- `HalfKeyMap.decode(bytes.fromhex(s)).to_key()`. -/
def keyOfHex (s : String) : Py (Option package.PublicKey) := do
  toKey package (← messageOfHex cbor builtins now .halfKeyMap s)

/-- `pseudonym.hex()`. -/
def hexPseudonym : Option Bytes → Py String
  | some pseudonym => .ok (hex pseudonym)
  | none => .error .attributeError

/-- `Neighbor.save_data`. -/
def Neighbor.saveData (n : Neighbor package) : Py SavedNeighbor := do
  let pseudonym ← hexPseudonym n.pseudonym
  let publicKey ← hexKey package cbor builtins n.publicKey
  let controlAddresses ← hexAddresses cbor n.controlAddresses
  .ok {
    name := n.name, pseudonym, publicKey, controlAddresses
    dataLinks := n.dataLinks.map fun link => link.profile.toDict
    tag := n.tag }

/-- `Neighbor.from_save_data`. -/
def Neighbor.fromSaveData (data : SavedNeighbor) : Py (Neighbor package) := do
  let pseudonym ← fromHex data.pseudonym
  let publicKey ← keyOfHex package cbor builtins now data.publicKey
  let controlAddresses ← data.controlAddresses.mapM (addressOfHex cbor builtins now)
  .ok {
    name := data.name, pseudonym := some pseudonym, publicKey
    controlAddresses := some (controlAddresses.map some), tag := data.tag }

/-- A neighbor that can be saved: it has a pseudonym and a key, and its addresses have no gap. -/
def Neighbor.Savable (n : Neighbor package) : Prop :=
  ∃ pseudonym key addresses, n.pseudonym = some pseudonym ∧ n.publicKey = some key ∧
    n.controlAddresses = some (List.map some addresses)

/-- An address is read back. -/
theorem restores_address :
    Restores (fun address => hexAddress cbor (some address)) (addressOfHex cbor builtins now) := by
  intro address
  obtain ⟨text, written, -, read⟩ := messageOfHex_hexMessage cbor builtins now
    (show Value.hasFields [.str address.channelId, .str address.linkAddress]
      ClassName.linkAddress.schema = true from rfl)
  refine ⟨text, written, ?_⟩
  rw [addressOfHex, read]
  rfl

/-- A key is read back. -/
theorem restores_key (key : package.PublicKey) :
    ∃ text, hexKey package cbor builtins (some key) = .ok text ∧
      keyOfHex package cbor builtins now text = .ok (some key) := by
  obtain ⟨text, written, -, read⟩ := messageOfHex_hexMessage cbor builtins now
    (show Value.hasFields [.enum (.halfKeyType .ecdh), .none, .none, .none, .none,
      .bytes (package.exportKey key)] ClassName.halfKeyMap.schema = true from rfl)
  refine ⟨text, ?_, ?_⟩
  · rw [hexKey, fromKey_eq]
    exact written
  · rw [keyOfHex, read]
    exact toKey_halfKeyMap package key

/-- Addresses without a gap are read back. -/
theorem restores_addresses (addresses : List LinkAddress) :
    ∃ texts, hexAddresses cbor (some (addresses.map some)) = .ok texts ∧
      texts.mapM (addressOfHex cbor builtins now) = .ok addresses := by
  obtain ⟨texts, written, read⟩ := (restores_address cbor builtins now).mapM addresses
  refine ⟨texts, ?_, read⟩
  rw [hexAddresses, List.mapM_map]
  exact written

/-- Addresses that are saved have no gap. -/
theorem of_hexAddresses {addresses : Option (List (Option LinkAddress))} {texts : List String}
    (run : hexAddresses cbor addresses = .ok texts) :
    ∃ known : List LinkAddress, addresses = some (known.map some) := by
  cases addresses with
  | none => cases run
  | some addresses =>
      have each : addresses ∈ {xs : List (Option LinkAddress) | ∀ x ∈ xs, x ∈ Set.range some} := by
        intro address mem
        obtain ⟨text, -, written⟩ := (mem_mapM run).1 address mem
        cases address with
        | none => cases written
        | some address => exact ⟨address, rfl⟩
      rw [← Set.range_list_map] at each
      obtain ⟨known, rfl⟩ := each
      exact ⟨known, rfl⟩

/-- **A neighbor is read back**, without its links. -/
theorem restores_neighbor {n : Neighbor package} (savable : n.Savable) :
    ∃ data, n.saveData package cbor builtins = .ok data ∧
      Neighbor.fromSaveData package cbor builtins now data = .ok { n with dataLinks := [] } ∧
      data.dataLinks = n.dataLinks.map fun link => link.profile.toDict := by
  obtain ⟨pseudonym, key, addresses, pseudonym_eq, key_eq, addresses_eq⟩ := savable
  obtain ⟨keyText, keyWritten, keyRead⟩ := restores_key package cbor builtins now key
  obtain ⟨texts, written, read⟩ := restores_addresses cbor builtins now addresses
  refine ⟨{
    name := n.name, pseudonym := hex pseudonym, publicKey := keyText, controlAddresses := texts
    dataLinks := n.dataLinks.map fun link => link.profile.toDict, tag := n.tag }, ?_, ?_, rfl⟩
  · rw [Neighbor.saveData, pseudonym_eq, key_eq, addresses_eq, keyWritten, written]
    rfl
  · rw [Neighbor.fromSaveData]
    dsimp only
    rw [fromHex_hex, ok_bind, keyRead, ok_bind, read, ok_bind, ← pseudonym_eq, ← key_eq,
      ← addresses_eq]

/-- **Which neighbors can be saved.** -/
theorem Neighbor.saveData_iff {n : Neighbor package} :
    (∃ data, n.saveData package cbor builtins = .ok data) ↔ n.Savable := by
  constructor
  · rintro ⟨data, run⟩
    obtain ⟨pseudonymText, pseudonymRun, run⟩ := bind_eq_ok.mp run
    obtain ⟨keyText, keyRun, run⟩ := bind_eq_ok.mp run
    obtain ⟨texts, addressesRun, -⟩ := bind_eq_ok.mp run
    obtain ⟨addresses, addresses_eq⟩ := of_hexAddresses cbor addressesRun
    rcases pseudonym_eq : n.pseudonym with _ | pseudonym
    · rw [pseudonym_eq] at pseudonymRun
      cases pseudonymRun
    rcases key_eq : n.publicKey with _ | key
    · rw [key_eq] at keyRun
      cases keyRun
    exact ⟨pseudonym, key, addresses, pseudonym_eq, key_eq, addresses_eq⟩
  · intro savable
    obtain ⟨data, saved, -⟩ := restores_neighbor package cbor builtins 0 savable
    exact ⟨data, saved⟩

end Neighbors

/-! ### Routers -/

/-- What `LinkStateRouter` saves: its neighborhood, by pseudonyms, and its own links. -/
structure Router (package : CryptoPackage) where
  neighbors : List (Option Bytes × Neighbor package) := []
  incomingLinks : List (Option Link) := []
  uplinkLinks : List (Option Link) := []
  broadcastLinks : List (Option Link) := []

/-- The state `router-ls`. -/
structure SavedRouter where
  neighborhood : List SavedNeighbor
  incomingLinks : List SavedLink
  uplinkLinks : List SavedLink
  broadcastLinks : List SavedLink
deriving DecidableEq, Repr

/-- Where a link belongs. -/
inductive Slot where
  | incoming | uplink | broadcast
  | neighbor (pseudonym : Option Bytes)
deriving DecidableEq, Repr

/-- What the transport finds for a profile. -/
inductive Found where
  /-- There is no channel with this name, or it is not usable. -/
  | unavailable
  /-- The channel has an active link that was loaded with this address. -/
  | matching (link : Link)
  /-- What the underlying channel loads. -/
  | loaded (link : Option Link)
deriving DecidableEq, Repr

/-- `Transport.load_address` with `EpochChannel.load_link`, which wraps the first of its matches
also when that is no link. -/
def Found.loadAddress : Found → Py (Option Link)
  | .unavailable => .ok none
  | .matching link => .ok (some link)
  | .loaded (some link) => .ok (some link)
  | .loaded none => .error .attributeError

/-- What a transport finds: at a time, for a profile that stands at a place. -/
abbrev Finds := ℕ → ℕ → LinkProfile → Found

namespace Router

variable {package : CryptoPackage}

/-- A link that was loaded gets its place. -/
def append (router : Router package) (slot : Slot) (link : Link) : Router package :=
  match slot with
  | .incoming => { router with incomingLinks := router.incomingLinks ++ [some link] }
  | .uplink => { router with uplinkLinks := router.uplinkLinks ++ [some link] }
  | .broadcast => { router with broadcastLinks := router.broadcastLinks ++ [some link] }
  | .neighbor pseudonym =>
    { router with
      neighbors := router.neighbors.map fun e =>
        if e.1 = pseudonym then (e.1, { e.2 with dataLinks := e.2.dataLinks ++ [link] }) else e }

/-- What each try to load a profile gives. -/
def answers (entries : List (Slot × LinkProfile)) (finds : Finds) (time place : ℕ) :
    Py (Option Link) :=
  match entries[place]? with
  | some entry => (finds time place entry.2).loadAddress
  | none => .ok none

/-- The links that were loaded are put at their places. -/
def appendAll (router : Router package) (entries : List (Slot × LinkProfile))
    (collected : List (ℕ × Link)) : Router package :=
  collected.foldl (fun router e =>
    match entries[e.1]? with
    | some entry => router.append entry.1 e.2
    | none => router) router

section SaveLoad

variable (package) (cbor : Cbor2) (builtins : Builtins) (now : ℤ)

/-- `LinkStateRouter.save_state`: what it saves. -/
def saveState (router : Router package) : Py SavedRouter := do
  let neighborhood ← router.neighbors.mapM fun e => e.2.saveData package cbor builtins
  let incomingLinks ← router.incomingLinks.mapM saveLink
  let uplinkLinks ← router.uplinkLinks.mapM saveLink
  let broadcastLinks ← router.broadcastLinks.mapM saveLink
  .ok { neighborhood, incomingLinks, uplinkLinks, broadcastLinks }

/-- The neighbors of `Neighborhood.load_data`. -/
def loadNeighbors (neighborhood : List SavedNeighbor) :
    Py (List (Option Bytes × Neighbor package)) := do
  let neighbors ← neighborhood.mapM (Neighbor.fromSaveData package cbor builtins now)
  .ok (dictOf (neighbors.map fun n => (n.pseudonym, n)))

/-- The profiles of `Neighborhood.load_data`. -/
def neighborProfiles (neighborhood : List SavedNeighbor) : Py (List (Slot × LinkProfile)) := do
  let profiles ← neighborhood.mapM fun data => do
    let n ← Neighbor.fromSaveData package cbor builtins now data
    .ok (data.dataLinks.map fun d => (Slot.neighbor n.pseudonym, LinkProfile.fromDict d))
  .ok profiles.flatten

/-- `LinkStateRouter.load_state` of a fresh router, with what the transport finds; `none` when
it still loads after as many rounds as the fuel allows. Nothing reads the links while they are
loaded, so they are put at their places afterwards, in the order in which they came. -/
def loadState (store : Option SavedRouter) (finds : Finds) (fuel : ℕ) :
    Py (Option (Router package)) :=
  match store with
  -- only a warning is logged before `state["incoming_links"]`
  | none => .error .typeError
  | some state => do
    let neighbors ← loadNeighbors package cbor builtins now state.neighborhood
    let profiles ← neighborProfiles package cbor builtins now state.neighborhood
    let entries := state.incomingLinks.map (fun d => (Slot.incoming, LinkProfile.fromDict d)) ++
      state.uplinkLinks.map (fun d => (Slot.uplink, LinkProfile.fromDict d)) ++
      state.broadcastLinks.map (fun d => (Slot.broadcast, LinkProfile.fromDict d)) ++ profiles
    let collected ← Retry.tryAll (answers entries finds) fuel 0
      (List.replicate entries.length false)
    .ok (collected.map fun collected => appendAll { neighbors } entries collected)

end SaveLoad

/-- The links of a router, with their places. -/
def links (router : Router package) : List (Slot × Link) :=
  router.incomingLinks.reduceOption.map (Prod.mk .incoming) ++
    router.uplinkLinks.reduceOption.map (Prod.mk .uplink) ++
    router.broadcastLinks.reduceOption.map (Prod.mk .broadcast) ++
    router.neighbors.flatMap fun e => e.2.dataLinks.map (Prod.mk (.neighbor e.1))

/-- The profiles of its links. -/
def entries (router : Router package) : List (Slot × LinkProfile) :=
  router.links.map fun e => (e.1, e.2.profile)

/-- What was loaded for a place. -/
def loadedAt (entries : List (Slot × LinkProfile)) (slot : Slot) (collected : List (ℕ × Link)) :
    List Link :=
  collected.filterMap fun e => if entries[e.1]?.map Prod.fst = some slot then some e.2 else none

/-- **A router that can be saved**: it got all of its links, and its neighbors can be saved. -/
def Savable (router : Router package) : Prop :=
  (∀ e ∈ router.neighbors, e.2.Savable package) ∧ none ∉ router.incomingLinks ∧
    none ∉ router.uplinkLinks ∧ none ∉ router.broadcastLinks

/-- The neighborhood is a dictionary by the pseudonyms of the neighbors. -/
def Keyed (router : Router package) : Prop :=
  (router.neighbors.map Prod.fst).Nodup ∧ ∀ e ∈ router.neighbors, e.1 = e.2.pseudonym

/-- **A router was made again of what another one saved**: it has the same neighbors, and one
link for each profile, which the transport found for that profile. -/
def Reloaded (old : Router package) (finds : Finds) (router : Router package) : Prop :=
  ∃ collected : List (ℕ × Link),
    (collected.map Prod.fst).Perm (List.range old.entries.length) ∧
      (∀ e ∈ collected, ∃ time entry, old.entries[e.1]? = some entry ∧
        (finds time e.1 entry.2).loadAddress = .ok (some e.2)) ∧
      router.incomingLinks = (loadedAt old.entries .incoming collected).map some ∧
      router.uplinkLinks = (loadedAt old.entries .uplink collected).map some ∧
      router.broadcastLinks = (loadedAt old.entries .broadcast collected).map some ∧
      router.neighbors = old.neighbors.map fun e =>
        (e.1, { e.2 with dataLinks := loadedAt old.entries (.neighbor e.1) collected })

end Router

end Prism.Routing.RouterState
