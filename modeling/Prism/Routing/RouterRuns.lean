import Prism.Lib.Machine
import Prism.Message.Cbor
import Prism.Routing.ReloadedRouter

/-!
A router over its life: the links and neighbors that it gets, what it saves, and its restarts
(`prism/server/routing/router_ls.py`, `prism/server/routing/neighborhood.py`).

A channel that is not usable gives no link, and the router lists it all the same; a neighbor may
come without a key, as those of the genesis do. Then the router cannot be saved, and the loop that
saves it ends the router. A restart before the first save raises, and so does a channel that loads
no link.

* `careful_restores`: a router that gets all it asks for can be saved at any time, and restarts as
  it was saved.
* `unsavable_without_link`: a channel that is not usable is enough for the router to end.
-/

namespace Prism.Routing.RouterState

open Prism.Crypto Prism.Lib Prism.Lockfree

/-- A router and its state store: what was saved, and the router that it was saved of. -/
structure RouterLife (package : CryptoPackage) where
  router : Router package := {}
  store : Option (Router package × SavedRouter) := none
  alive : Bool := true

/-- What happens to a router. -/
inductive Event (package : CryptoPackage) where
  /-- `run` begins, with what `create_link` returns for each channel. -/
  | run (incoming broadcast uplink : List (Option Link))
  /-- `Neighborhood.update`. -/
  | update (n : Neighbor package)
  /-- A link is loaded for the router or for a neighbor. -/
  | gets (slot : Slot) (link : Link)
  /-- `save_state`. -/
  | save
  /-- A new process calls `load_state`, with what the transport finds. -/
  | restart (finds : Finds) (fuel : ℕ)

namespace Router

variable {package : CryptoPackage}

/-- `LinkStateRouter.run`: links are created where the router has none. -/
def createLinks (router : Router package) (incoming broadcast uplink : List (Option Link)) :
    Router package :=
  { router with
    incomingLinks := if router.incomingLinks = [] then incoming else router.incomingLinks
    broadcastLinks := if router.broadcastLinks = [] then broadcast else router.broadcastLinks
    uplinkLinks := if router.uplinkLinks = [] then uplink else router.uplinkLinks }

/-- `Neighborhood.update`: of a neighbor that is known, only addresses and tag change. -/
def update (router : Router package) (n : Neighbor package) : Router package :=
  { router with
    neighbors := dictSet router.neighbors n.pseudonym <|
      match router.neighbors.lookup n.pseudonym with
      | some known => { known with controlAddresses := n.controlAddresses, tag := n.tag }
      | none => { n with dataLinks := [] } }

end Router

namespace RouterLife

variable {package : CryptoPackage} (cbor : Cbor2) (builtins : Builtins)

/-- One event. An exception ends the router, and then only a restart happens. -/
def step (s : RouterLife package) (event : Event package) : RouterLife package :=
  match s.alive, event with
  | true, .run incoming broadcast uplink =>
    { s with router := s.router.createLinks incoming broadcast uplink }
  | true, .update n => { s with router := s.router.update n }
  | true, .gets slot link => { s with router := s.router.append slot link }
  | true, .save =>
    match s.router.saveState package cbor builtins with
    | .ok state => { s with store := some (s.router, state) }
    | .error _ => { s with alive := false }
  | _, .restart finds fuel =>
    match Router.loadState package cbor builtins 0 (s.store.map Prod.snd) finds fuel with
    | .ok (some router) => { s with router, alive := true }
    | _ => { s with router := {}, alive := false }
  | false, _ => s

/-- A router over time. -/
def machine : Machine (RouterLife package) (Event package) Unit where
  init := {}
  step s event := (s.step cbor builtins event, ())

/-- The transport loads every profile that was saved, at some time. -/
def LoadsAll (store : Option (Router package × SavedRouter)) (finds : Finds) : Prop :=
  ∀ old ∈ store, ∀ place < old.1.entries.length, ∃ time link,
    Router.answers old.1.entries finds time place = .ok (some link)

/-- Something was saved, and no channel returns no link for a profile before it is loaded. -/
def ReadyFor (store : Option (Router package × SavedRouter)) (finds : Finds) : Prop :=
  ∃ old ∈ store, Retry.Calm (Router.answers old.1.entries finds) old.1.entries.length

/-- **A restart makes the router again** that was saved. -/
def Restarts (store : Option (Router package × SavedRouter)) (finds : Finds) : Prop :=
  ∃ fuel new, Router.loadState package cbor builtins 0 (store.map Prod.snd) finds fuel =
      .ok (some new) ∧ ∀ old ∈ store, old.1.Reloaded finds new

/-- **The condition on a step**: channels give the links that they are asked for, a neighbor comes
with addresses and, when it is new, with a pseudonym and a key, and a restart finds what it
needs. -/
def Careful (s : RouterLife package) : Event package → Prop
  | .run incoming broadcast uplink =>
      (s.router.incomingLinks = [] → none ∉ incoming) ∧
        (s.router.broadcastLinks = [] → none ∉ broadcast) ∧
        (s.router.uplinkLinks = [] → none ∉ uplink)
  | .update n =>
      (∃ addresses, n.controlAddresses = some (List.map some addresses)) ∧
        (s.router.neighbors.lookup n.pseudonym = none → n.Savable)
  | .restart finds _ => ReadyFor s.store finds
  | _ => True

end RouterLife

/-! ### Steps -/

namespace Router

variable {package : CryptoPackage} {router : Router package}

theorem Savable.createLinks (savable : router.Savable) {incoming broadcast uplink : List (Option Link)}
    (got : (router.incomingLinks = [] → none ∉ incoming) ∧
      (router.broadcastLinks = [] → none ∉ broadcast) ∧
      (router.uplinkLinks = [] → none ∉ uplink)) :
    (router.createLinks incoming broadcast uplink).Savable := by
  obtain ⟨neighbors, oldIncoming, oldUplink, oldBroadcast⟩ := savable
  refine ⟨neighbors, ?_, ?_, ?_⟩
  · rw [Router.createLinks]
    dsimp only
    split_ifs with empty
    · exact got.1 empty
    · exact oldIncoming
  · rw [Router.createLinks]
    dsimp only
    split_ifs with empty
    · exact got.2.2 empty
    · exact oldUplink
  · rw [Router.createLinks]
    dsimp only
    split_ifs with empty
    · exact got.2.1 empty
    · exact oldBroadcast

/-- A neighbor may change where it keeps what it is saved with. -/
theorem Keyed.update (keyed : router.Keyed) (n : Neighbor package) : (router.update n).Keyed := by
  refine ⟨nodup_dictSet keyed.1 _ _, fun e mem => ?_⟩
  rcases mem_dictSet.mp mem with rfl | ⟨old, -⟩
  · rcases found : router.neighbors.lookup n.pseudonym with _ | known
    · rfl
    · exact keyed.2 (n.pseudonym, known) (mem_of_lookup found)
  · exact keyed.2 e old

theorem Savable.update (savable : router.Savable) {n : Neighbor package}
    (addressed : ∃ addresses, n.controlAddresses = some (List.map some addresses))
    (known : router.neighbors.lookup n.pseudonym = none → n.Savable) :
    (router.update n).Savable := by
  refine ⟨fun e mem => ?_, savable.2⟩
  rcases mem_dictSet.mp mem with rfl | ⟨old, -⟩
  · rcases found : router.neighbors.lookup n.pseudonym with _ | before
    · exact known found
    · obtain ⟨pseudonym, key, -, pseudonym_eq, key_eq, -⟩ := savable.1 _ (mem_of_lookup found)
      obtain ⟨addresses, addresses_eq⟩ := addressed
      exact ⟨pseudonym, key, addresses, pseudonym_eq, key_eq, addresses_eq⟩
  · exact savable.1 e old

/-- The links of neighbors do not matter for their keys, and not for what they are saved with. -/
theorem keyed_of_map {new : Router package} {links : Option Bytes × Neighbor package → List Link}
    (same : new.neighbors = router.neighbors.map fun e => (e.1, { e.2 with dataLinks := links e }))
    (keyed : router.Keyed) : new.Keyed := by
  rw [Keyed, same, List.map_map]
  refine ⟨keyed.1, fun e mem => ?_⟩
  obtain ⟨old, known, rfl⟩ := List.mem_map.mp mem
  exact keyed.2 old known

theorem savable_of_map {new : Router package}
    {links : Option Bytes × Neighbor package → List Link}
    (same : new.neighbors = router.neighbors.map fun e => (e.1, { e.2 with dataLinks := links e }))
    (savable : router.Savable) : ∀ e ∈ new.neighbors, e.2.Savable := by
  rw [same]
  intro e mem
  obtain ⟨old, known, rfl⟩ := List.mem_map.mp mem
  exact savable.1 old known

theorem neighbors_append (slot : Slot) (link : Link) :
    (router.append slot link).neighbors = router.neighbors.map fun e =>
      (e.1, { e.2 with
        dataLinks := if slot = .neighbor e.1 then e.2.dataLinks ++ [link] else e.2.dataLinks }) := by
  cases slot with
  | neighbor pseudonym =>
      refine List.map_congr_left fun e _ => ?_
      by_cases same : e.1 = pseudonym
      · simp [same]
      · simp [same, Ne.symm same]
  | incoming => simp [append]
  | uplink => simp [append]
  | broadcast => simp [append]

theorem Savable.append (savable : router.Savable) (slot : Slot) (link : Link) :
    (router.append slot link).Savable := by
  refine ⟨savable_of_map (neighbors_append slot link) savable, ?_⟩
  obtain ⟨-, incoming, uplink, broadcast⟩ := savable
  cases slot <;> simp [Router.append, incoming, uplink, broadcast]

theorem Reloaded.savable {finds : Finds} {new : Router package} (reloaded : router.Reloaded finds new)
    (keyed : router.Keyed) (savable : router.Savable) : new.Keyed ∧ new.Savable := by
  obtain ⟨collected, -, -, incoming, uplink, broadcast, neighbors⟩ := reloaded
  refine ⟨keyed_of_map neighbors keyed, savable_of_map neighbors savable, ?_⟩
  rw [incoming, uplink, broadcast]
  simp

end Router

/-! ### Runs -/

namespace RouterLife

variable {package : CryptoPackage} (cbor : Cbor2) (builtins : Builtins)

/-- The router after some events. -/
def after (events : List (Event package)) : RouterLife package :=
  ((machine cbor builtins).run events).1

/-- Every step of the run is careful. -/
def CarefulRun (events : List (Event package)) : Prop :=
  (machine cbor builtins).Admits (fun s _ event => s.Careful event) events

/-- What holds of a router at any time of a careful run. -/
structure Sound (events : List (Event package)) (s : RouterLife package) : Prop where
  keyed : s.router.Keyed
  savable : s.router.Savable
  stored : ∀ old ∈ s.store, old.1.Keyed ∧ old.1.saveState package cbor builtins = .ok old.2 ∧
    ∃ before later, events = before ++ later ∧ (after cbor builtins before).router = old.1

variable {cbor builtins} {events : List (Event package)}

/-- **A restart succeeds exactly when** something was saved and every profile can be loaded. -/
theorem Sound.restarts_iff {s : RouterLife package} (sound : Sound cbor builtins events s)
    {finds : Finds} (loads : LoadsAll s.store finds) :
    Restarts cbor builtins s.store finds ↔ ReadyFor s.store finds := by
  rcases stored : s.store with _ | old
  · constructor
    · rintro ⟨fuel, new, run, -⟩
      cases run
    · rintro ⟨old, none, -⟩
      cases none
  · obtain ⟨keyed, saved, -⟩ := sound.stored old stored
    have reload := Router.reload_iff cbor builtins 0 keyed saved (loads old stored)
    constructor
    · rintro ⟨fuel, new, run, -⟩
      exact ⟨old, rfl, reload.mp ⟨fuel, new, run⟩⟩
    · rintro ⟨_, same, calm⟩
      obtain rfl := Option.some_inj.mp same
      obtain ⟨fuel, new, run⟩ := reload.mpr calm
      refine ⟨fuel, new, run, fun _ same => ?_⟩
      obtain rfl := Option.some_inj.mp same
      exact Router.reloaded_of_loadState cbor builtins 0 keyed saved run

theorem after_concat (events : List (Event package)) (event : Event package) :
    after cbor builtins (events ++ [event]) =
      (after cbor builtins events).step cbor builtins event := by
  rw [after, Machine.run_concat]
  rfl

/-- Earlier moments of a run are earlier moments of a longer one. -/
theorem Sound.stored_concat {s : RouterLife package} (sound : Sound cbor builtins events s)
    (event : Event package) {old : Router package × SavedRouter} (mem : old ∈ s.store) :
    old.1.Keyed ∧ old.1.saveState package cbor builtins = .ok old.2 ∧
      ∃ before later, events ++ [event] = before ++ later ∧
        (after cbor builtins before).router = old.1 := by
  obtain ⟨keyed, saved, before, later, rfl, same⟩ := sound.stored old mem
  exact ⟨keyed, saved, before, later ++ [event], (List.append_assoc ..), same⟩

/-- A step that changes the router only. -/
theorem Sound.change {s : RouterLife package} (sound : Sound cbor builtins events s)
    (event : Event package) {router : Router package} {alive : Bool} (keyed : router.Keyed)
    (savable : router.Savable) :
    Sound cbor builtins (events ++ [event]) { s with router, alive } where
  keyed := keyed
  savable := savable
  stored _ mem := sound.stored_concat event mem

theorem sound_empty : ({} : Router package).Keyed ∧ ({} : Router package).Savable := by
  refine ⟨⟨List.nodup_nil, (fun e mem => nomatch mem)⟩, (fun e mem => nomatch mem), ?_⟩
  simp

/-- **A careful step** keeps a router savable, and what it saved. -/
theorem Sound.step (sound : Sound cbor builtins events (after cbor builtins events))
    {event : Event package} (careful : (after cbor builtins events).Careful event) :
    Sound cbor builtins (events ++ [event]) (after cbor builtins (events ++ [event])) := by
  rw [after_concat]
  generalize now : after cbor builtins events = s at sound careful ⊢
  obtain ⟨emptyKeyed, emptySavable⟩ := @sound_empty package
  unfold RouterLife.step
  split
  case h_1 incoming broadcast uplink alive =>
    exact sound.change _ sound.keyed (sound.savable.createLinks careful)
  case h_2 n alive =>
    exact sound.change _ (sound.keyed.update n) (sound.savable.update careful.1 careful.2)
  case h_3 slot link alive =>
    exact sound.change _ (Router.keyed_of_map (Router.neighbors_append slot link) sound.keyed)
      (sound.savable.append slot link)
  case h_4 alive =>
    split
    case h_1 state saved =>
      refine ⟨sound.keyed, sound.savable, fun old mem => ?_⟩
      obtain rfl := Option.some_inj.mp mem
      exact ⟨sound.keyed, saved, events, [.save], rfl, congrArg RouterLife.router now⟩
    case h_2 => exact sound.change _ sound.keyed sound.savable
  case h_5 finds fuel =>
    split
    case h_1 router loaded =>
      obtain ⟨old, stored, -⟩ := careful
      obtain ⟨keyed, saved, -⟩ := sound.stored old stored
      rw [stored] at loaded
      have reloaded := Router.reloaded_of_loadState cbor builtins 0 keyed saved loaded
      obtain ⟨newKeyed, newSavable⟩ :=
        reloaded.savable keyed ((Router.saveState_iff cbor builtins).mp ⟨_, saved⟩)
      exact sound.change _ newKeyed newSavable
    case h_2 => exact sound.change _ emptyKeyed emptySavable
  case h_6 => exact sound.change _ sound.keyed sound.savable

theorem Sound.run (careful : CarefulRun cbor builtins events) :
    Sound cbor builtins events (after cbor builtins events) := by
  induction events using List.reverseRecOn with
  | nil =>
      obtain ⟨keyed, savable⟩ := @sound_empty package
      exact ⟨keyed, savable, fun old mem => nomatch mem⟩
  | append_singleton events event ih =>
      obtain ⟨before, here⟩ := (Machine.admits_concat _).mp careful
      exact (ih before).step here

/-- **Over careful runs, a router can be saved at any time and restarts as it was saved**: what is
in the store was saved of the router at some moment, and a restart makes that router again exactly
when something was saved and no channel returns no link for a profile before it is loaded. -/
theorem careful_restores (cbor : Cbor2) (builtins : Builtins) {events : List (Event package)}
    (careful : CarefulRun cbor builtins events) :
    let s := after cbor builtins events
    (∃ state, s.router.saveState package cbor builtins = .ok state) ∧
      (∀ old ∈ s.store, old.1.saveState package cbor builtins = .ok old.2 ∧
        ∃ before later, events = before ++ later ∧ (after cbor builtins before).router = old.1) ∧
      ∀ finds, LoadsAll s.store finds →
        (Restarts cbor builtins s.store finds ↔ ReadyFor s.store finds) := by
  have sound := Sound.run careful
  refine ⟨(Router.saveState_iff cbor builtins).mpr sound.savable, fun old mem => ?_,
    fun finds loads => sound.restarts_iff loads⟩
  exact (sound.stored old mem).2

/-- A link that a channel created. -/
def exampleLink : Link where
  address := { channelId := "direct", linkAddress := "address-1" }
  endpoints := ["genesis-incoming"]
  role := "creator"
  linkType := .recv

/-- A neighbor with a key and an address. -/
def exampleNeighbor : Neighbor CryptoPackage.additive where
  name := some "server-2"
  pseudonym := some [2]
  publicKey := some ([7] : Bytes)
  controlAddresses := some [some { channelId := "epoch", linkAddress := "address-2" }]
  tag := some "lsp"

/-- A router that gets its link and a neighbor, and saves them. -/
def exampleEvents : List (Event CryptoPackage.additive) :=
  [.run [some exampleLink] [] [], .update exampleNeighbor, .save]

theorem example_restores :
    let s := after Cbor.package Builtins.strict exampleEvents
    (∃ state, s.router.saveState CryptoPackage.additive Cbor.package Builtins.strict = .ok state) ∧
      (∀ old ∈ s.store,
        old.1.saveState CryptoPackage.additive Cbor.package Builtins.strict = .ok old.2 ∧
        ∃ before later, exampleEvents = before ++ later ∧
          (after Cbor.package Builtins.strict before).router = old.1) ∧
      ∀ finds, LoadsAll s.store finds →
        (Restarts Cbor.package Builtins.strict s.store finds ↔ ReadyFor s.store finds) := by
  refine careful_restores Cbor.package Builtins.strict ?_
  have steps : exampleEvents =
      [] ++ [.run [some exampleLink] [] []] ++ [.update exampleNeighbor] ++ [.save] := rfl
  rw [CarefulRun, steps]
  simp only [Machine.admits_concat, Machine.admits_nil, true_and]
  refine ⟨⟨?_, ?_⟩, trivial⟩
  · exact ⟨fun _ => by simp, fun _ => by simp, fun _ => by simp⟩
  · exact ⟨⟨[_], rfl⟩, fun _ => ⟨_, _, [_], rfl, rfl, rfl⟩⟩

/-- **A channel that is not usable is enough**: its missing link has no profile. -/
theorem unsavable_without_link :
    ¬ ∀ events : List (Event CryptoPackage.additive), ∃ state,
      (after Cbor.package Builtins.strict events).router.saveState CryptoPackage.additive
        Cbor.package Builtins.strict = .ok state := by
  intro saves
  obtain ⟨-, got, -⟩ := (Router.saveState_iff _ _).mp (saves [.run [none] [] []])
  exact got (List.mem_singleton_self none)

end RouterLife

end Prism.Routing.RouterState
