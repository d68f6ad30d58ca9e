import Prism.Routing.SavedRouter

/-!
When a router can be saved, and when it is made again of what it saved
(`prism/server/routing/router_ls.py`).

* `saveState_iff`: a router can be saved exactly when it got all of its links and its neighbors
  have pseudonyms, keys and addresses.
* `reload_iff`: the links of a saved router are loaded again exactly when no channel returns no
  link for a profile before that is loaded.
* `reloaded_of_loadState`: then each profile has one link, and the neighbors are the same.
-/

namespace Prism.Routing.RouterState

open Prism.Crypto Prism.Lib Prism.Lockfree

/-! ### Saving -/

/-- Links are saved where there is none missing. -/
theorem mapM_saveLink {links : List (Option Link)} (got : none ∉ links) :
    links.mapM saveLink = .ok (links.reduceOption.map fun link => link.profile.toDict) := by
  induction links with
  | nil => rfl
  | cons link links ih =>
      rw [List.mem_cons, not_or] at got
      obtain ⟨some, rest⟩ := got
      cases link with
      | none => exact absurd rfl some
      | some link =>
          rw [List.mapM_cons, ih rest]
          rfl

theorem got_of_mapM {links : List (Option Link)} {saved : List SavedLink}
    (run : links.mapM saveLink = .ok saved) : none ∉ links := by
  intro missing
  obtain ⟨d, -, written⟩ := (mem_mapM run).1 none missing
  cases written

section Neighbors

variable {package : CryptoPackage} (cbor : Cbor2) (builtins : Builtins) (now : ℤ)

/-- The dictionary of a neighbor gives it back, and the profiles of its links. -/
theorem restores_neighborProfiles {n : Neighbor package} (savable : n.Savable) :
    ∃ data, n.saveData package cbor builtins = .ok data ∧
      Neighbor.fromSaveData package cbor builtins now data = .ok { n with dataLinks := [] } ∧
      data.dataLinks.map (fun d => (Slot.neighbor n.pseudonym, LinkProfile.fromDict d)) =
        n.dataLinks.map fun link => (Slot.neighbor n.pseudonym, link.profile) := by
  obtain ⟨data, saved, read, links⟩ := restores_neighbor package cbor builtins now savable
  refine ⟨data, saved, read, ?_⟩
  rw [links, List.map_map]
  exact List.map_congr_left fun link _ => congrArg (Prod.mk _) (restores_link link)

/-- A neighborhood is read back. -/
theorem restores_neighborhood {neighbors : List (Option Bytes × Neighbor package)}
    (savable : ∀ e ∈ neighbors, e.2.Savable) :
    ∃ saved, neighbors.mapM (fun e => e.2.saveData package cbor builtins) = .ok saved ∧
      saved.mapM (Neighbor.fromSaveData package cbor builtins now) =
        .ok (neighbors.map fun e => { e.2 with dataLinks := [] }) ∧
      Router.neighborProfiles package cbor builtins now saved =
        .ok (neighbors.flatMap fun e =>
          e.2.dataLinks.map fun link => (.neighbor e.2.pseudonym, link.profile)) := by
  induction neighbors with
  | nil => exact ⟨[], rfl, rfl, rfl⟩
  | cons e neighbors ih =>
      rw [List.forall_mem_cons] at savable
      obtain ⟨data, written, read, links⟩ :=
        restores_neighborProfiles cbor builtins now savable.1
      obtain ⟨saved, rest, restRead, restLinks⟩ := ih savable.2
      rw [Router.neighborProfiles] at restLinks
      obtain ⟨profiles, run, flat⟩ := bind_eq_ok.mp restLinks
      refine ⟨data :: saved, ?_, ?_, ?_⟩
      · rw [List.mapM_cons, written, rest]
        rfl
      · rw [List.mapM_cons, read, restRead]
        rfl
      · rw [Router.neighborProfiles, List.mapM_cons, read, run, ok_bind, links]
        exact congrArg (Except.map _) flat

end Neighbors

namespace Router

variable {package : CryptoPackage} (cbor : Cbor2) (builtins : Builtins) (now : ℤ)
  {router : Router package}

/-- What is saved of a router that can be saved, and what is read back of it. -/
theorem saveState_ok (savable : router.Savable) :
    ∃ neighborhood, saveState package cbor builtins router = .ok {
        neighborhood
        incomingLinks := router.incomingLinks.reduceOption.map fun link => link.profile.toDict
        uplinkLinks := router.uplinkLinks.reduceOption.map fun link => link.profile.toDict
        broadcastLinks := router.broadcastLinks.reduceOption.map fun link => link.profile.toDict } ∧
      neighborhood.mapM (Neighbor.fromSaveData package cbor builtins now) =
        .ok (router.neighbors.map fun e => { e.2 with dataLinks := [] }) ∧
      neighborProfiles package cbor builtins now neighborhood =
        .ok (router.neighbors.flatMap fun e =>
          e.2.dataLinks.map fun link => (.neighbor e.2.pseudonym, link.profile)) := by
  obtain ⟨neighbors, incoming, uplink, broadcast⟩ := savable
  obtain ⟨neighborhood, saved, read, profiles⟩ :=
    restores_neighborhood cbor builtins now neighbors
  refine ⟨neighborhood, ?_, read, profiles⟩
  rw [saveState, saved, mapM_saveLink incoming, mapM_saveLink uplink, mapM_saveLink broadcast]
  rfl

/-- **Which routers can be saved.** -/
theorem saveState_iff :
    (∃ state, saveState package cbor builtins router = .ok state) ↔ router.Savable := by
  constructor
  · rintro ⟨state, run⟩
    obtain ⟨neighborhood, neighborsRun, run⟩ := bind_eq_ok.mp run
    obtain ⟨incoming, incomingRun, run⟩ := bind_eq_ok.mp run
    obtain ⟨uplink, uplinkRun, run⟩ := bind_eq_ok.mp run
    obtain ⟨broadcast, broadcastRun, -⟩ := bind_eq_ok.mp run
    refine ⟨fun e mem => ?_, got_of_mapM incomingRun, got_of_mapM uplinkRun,
      got_of_mapM broadcastRun⟩
    obtain ⟨data, -, saved⟩ := (mem_mapM neighborsRun).1 e mem
    exact (Neighbor.saveData_iff package cbor builtins).mp ⟨data, saved⟩
  · intro savable
    obtain ⟨neighborhood, saved, -⟩ := saveState_ok cbor builtins 0 savable
    exact ⟨_, saved⟩

/-! ### Loading -/

/-- The router that is made of what a router saved, before links are loaded. -/
def unlinked (router : Router package) : Router package where
  neighbors := router.neighbors.map fun e => (e.1, { e.2 with dataLinks := [] })

/-- **What is made of a saved router**: the neighbors are those that were saved, and what is
loaded are the profiles of its links. -/
theorem loadState_saved (keyed : router.Keyed) {state : SavedRouter}
    (saved : saveState package cbor builtins router = .ok state) (finds : Finds) (fuel : ℕ) :
    loadState package cbor builtins now (some state) finds fuel =
      (Retry.tryAll (answers router.entries finds) fuel 0
        (List.replicate router.entries.length false)).map
          fun collected => collected.map (router.unlinked.appendAll router.entries) := by
  have savable := (saveState_iff cbor builtins).mp ⟨state, saved⟩
  obtain ⟨neighborhood, run, read, profiles⟩ := saveState_ok cbor builtins now savable
  obtain rfl := Except.ok.inj (saved.symm.trans run)
  have neighbors : loadNeighbors package cbor builtins now neighborhood =
      .ok router.unlinked.neighbors := by
    have same : (router.neighbors.map fun e => { e.2 with dataLinks := [] }).map
        (fun n : Neighbor package => (n.pseudonym, n)) = router.unlinked.neighbors := by
      rw [unlinked, List.map_map]
      exact List.map_congr_left fun e mem => congrArg (Prod.mk · _) (keyed.2 e mem).symm
    have distinct : (router.unlinked.neighbors.map Prod.fst).Nodup := by
      rw [unlinked, List.map_map]
      exact keyed.1
    rw [loadNeighbors, read, ok_bind, same, dictOf_of_nodup distinct]
  have entries : router.entries =
      (router.incomingLinks.reduceOption.map fun link => link.profile.toDict).map
          (fun d => (Slot.incoming, LinkProfile.fromDict d)) ++
        (router.uplinkLinks.reduceOption.map fun link => link.profile.toDict).map
          (fun d => (Slot.uplink, LinkProfile.fromDict d)) ++
        (router.broadcastLinks.reduceOption.map fun link => link.profile.toDict).map
          (fun d => (Slot.broadcast, LinkProfile.fromDict d)) ++
        router.neighbors.flatMap fun e =>
          e.2.dataLinks.map fun link => (.neighbor e.2.pseudonym, link.profile) := by
    have named : (router.neighbors.flatMap fun e =>
        e.2.dataLinks.map fun link => (Slot.neighbor e.2.pseudonym, link.profile)) =
          router.neighbors.flatMap fun e =>
            e.2.dataLinks.map fun link => (Slot.neighbor e.1, link.profile) := by
      refine List.flatMap_congr fun e mem => ?_
      rw [keyed.2 e mem]
    rw [named]
    simp only [Router.entries, links, List.map_append, List.map_map, List.map_flatMap,
      Function.comp_def, restores_link]
  rw [loadState]
  dsimp only
  rw [neighbors, ok_bind, profiles, ok_bind, ← entries]
  rcases Retry.tryAll (answers router.entries finds) fuel 0
    (List.replicate router.entries.length false) with error | collected
  · rfl
  · rfl

section Append

variable (entries : List (Slot × LinkProfile))

theorem loadedAt_cons (slot : Slot) (e : ℕ × Link) (collected : List (ℕ × Link)) :
    loadedAt entries slot (e :: collected) =
      (if entries[e.1]?.map Prod.fst = some slot then [e.2] else []) ++
        loadedAt entries slot collected := by
  rw [loadedAt, List.filterMap_cons]
  split_ifs
  · rfl
  · rfl

/-- Links that are put at their places come after those that were there. -/
theorem appendAll_eq (router : Router package) (collected : List (ℕ × Link)) :
    router.appendAll entries collected = {
      neighbors := router.neighbors.map fun e =>
        (e.1, { e.2 with dataLinks := e.2.dataLinks ++ loadedAt entries (.neighbor e.1) collected })
      incomingLinks := router.incomingLinks ++ (loadedAt entries .incoming collected).map some
      uplinkLinks := router.uplinkLinks ++ (loadedAt entries .uplink collected).map some
      broadcastLinks :=
        router.broadcastLinks ++ (loadedAt entries .broadcast collected).map some } := by
  induction collected generalizing router with
  | nil => simp [appendAll, loadedAt]
  | cons e collected ih =>
      rw [appendAll, List.foldl_cons, ← appendAll, ih]
      simp only [loadedAt_cons]
      rcases entries[e.1]? with _ | ⟨slot, profile⟩
      · simp
      · cases slot with
        | incoming => simp [append]
        | uplink => simp [append]
        | broadcast => simp [append]
        | neighbor pseudonym =>
            simp only [append, List.map_map, Option.map_some, Option.some.injEq, reduceCtorEq,
              if_false, List.nil_append, Router.mk.injEq, and_true]
            refine List.map_congr_left fun e' mem => ?_
            dsimp only [Function.comp]
            by_cases same : e'.1 = pseudonym
            · simp [same]
            · simp [same, Ne.symm same]

end Append

/-- **A router that is made of a saved one** has its neighbors, and one link for each of its
profiles. -/
theorem reloaded_of_loadState (keyed : router.Keyed) {state : SavedRouter}
    (saved : saveState package cbor builtins router = .ok state) {finds : Finds} {fuel : ℕ}
    {new : Router package}
    (run : loadState package cbor builtins now (some state) finds fuel = .ok (some new)) :
    router.Reloaded finds new := by
  rw [loadState_saved cbor builtins now keyed saved] at run
  obtain ⟨_, tried, some⟩ := map_eq_ok.mp run
  obtain ⟨collected, rfl, rfl⟩ := Option.map_eq_some_iff.mp some
  obtain ⟨perm, each⟩ := Retry.tryAll_collects tried
  rw [Retry.todo_replicate, ← List.range_eq_range'] at perm
  refine ⟨collected, perm, fun e mem => ?_, ?_⟩
  · obtain ⟨time, answered⟩ := each e mem
    rw [answers] at answered
    rcases found : router.entries[e.1]? with _ | entry
    · rw [found] at answered
      cases answered
    · rw [found] at answered
      exact ⟨time, entry, rfl, answered⟩
  · rw [appendAll_eq]
    simp [unlinked, Function.comp_def]

/-- **When the links of a saved router are loaded again**, where the transport loads every profile
at some time: no channel returns no link for a profile before that is loaded. -/
theorem reload_iff (keyed : router.Keyed) {state : SavedRouter}
    (saved : saveState package cbor builtins router = .ok state) {finds : Finds}
    (loads : ∀ place < router.entries.length, ∃ time link,
      answers router.entries finds time place = .ok (some link)) :
    (∃ fuel new, loadState package cbor builtins now (some state) finds fuel = .ok (some new)) ↔
      Retry.Calm (answers router.entries finds) router.entries.length := by
  rw [← Retry.tryAll_iff loads]
  constructor
  · rintro ⟨fuel, new, run⟩
    rw [loadState_saved cbor builtins now keyed saved] at run
    obtain ⟨collected, tried, some⟩ := map_eq_ok.mp run
    obtain ⟨collected, rfl, -⟩ := Option.map_eq_some_iff.mp some
    exact ⟨fuel, collected, tried⟩
  · rintro ⟨fuel, collected, tried⟩
    refine ⟨fuel, router.unlinked.appendAll router.entries collected, ?_⟩
    rw [loadState_saved cbor builtins now keyed saved, tried]
    rfl

end Router

end Prism.Routing.RouterState
