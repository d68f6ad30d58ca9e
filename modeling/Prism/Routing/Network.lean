import Prism.Crypto.Verify

/-!
The link state network of a router (`prism/server/routing/network.py`,
`prism/server/routing/neighborhood.py`).

A router floods a link state packet that lists its neighbors, keeps the newest packet of
every router, and computes its routing table from those that have not expired. The shortest
paths are those of the `networkx` package, a parameter. Times are integers of microseconds.

* `updateRoutingTable_ok`: what the routing table is computed from.
* `lookup_tableOf`: it leads to every target along the path that was found.
* `hop_of_nearby`, `hop_of_away`: where a message is sent next.
-/

namespace Prism.Routing

/-! ### Neighbors -/

/-- `Neighbor`: `dataLinks` says of each data link whether it can send. -/
structure Neighbor where
  pseudonym : Bytes
  dataLinks : List Bool
  lastReceived : ℤ
deriving DecidableEq, Repr

/-- `online`, where `timeout` is `ls_hello_timeout_ms * ls_alive_factor`. -/
def Neighbor.online (self : Neighbor) (now timeout : ℤ) : Bool :=
  self.dataLinks.any id && now - self.lastReceived < timeout

/-- `Neighborhood`: the neighbors by their pseudonyms. -/
abbrev Neighborhood := List (Bytes × Neighbor)

/-! ### Link state packets -/

/-- `NeighborInfoMap`. -/
structure NeighborInfo where
  pseudonym : Bytes
  cost : ℤ
deriving DecidableEq, Repr

/-- The element of a list of neighbors, which may be missing. -/
def NeighborInfo.ofValue? : Value → Option NeighborInfo
  | .object .neighborInfoMap [.bytes pseudonym, .int cost] => some { pseudonym, cost }
  | _ => none

/-- An `int` that is compared or computed with. -/
def asInt : Value → Py ℤ
  | .int n => .ok n
  | _ => .error .typeError

/-- A link state packet, as far as the router reads it. -/
structure Lsp where
  pseudonym : Option Bytes
  microTimestamp : ℤ
  ttl : ℤ
  neighbors : Option (List (Option NeighborInfo))
  subMsg : Option PrismMessage := none

/-- The packet in a message. Without its times, `validate_ttl` raises. -/
def Lsp.ofMessage (message : PrismMessage) : Py Lsp := do
  let microTimestamp ← asInt (message.get .microTimestamp)
  let ttl ← asInt (message.get .ttl)
  return {
    pseudonym := (message.get .pseudonym).bytes?
    microTimestamp
    ttl
    neighbors :=
      match message.get .neighbors with
      | .list neighbors => some (neighbors.map NeighborInfo.ofValue?)
      | _ => none
    subMsg := PrismMessage.ofValue? (message.get .subMsg) }

/-- `validate_ttl`: the time to live that a message goes on with, which is kept in bounds. One
from more than thirty seconds in the future is ignored. -/
def validateTtl (lsTtlMax now microTimestamp ttl : ℤ) : Option ℤ :=
  if microTimestamp > now + 30 * 10 ^ 6 then none else some (max (min ttl lsTtlMax) 0)

theorem validateTtl_isSome {lsTtlMax now microTimestamp ttl : ℤ}
    (skew : microTimestamp ≤ now + 30 * 10 ^ 6) :
    validateTtl lsTtlMax now microTimestamp ttl = some (max (min ttl lsTtlMax) 0) :=
  if_neg (not_lt.mpr skew)

/-- The packet has not expired: `micro_timestamp / 1e6 + ttl > time()`. -/
def Lsp.unexpired (lsp : Lsp) (now : ℤ) : Prop := now < lsp.microTimestamp + lsp.ttl * 10 ^ 6

instance (lsp : Lsp) (now : ℤ) : Decidable (lsp.unexpired now) :=
  inferInstanceAs (Decidable (_ < _))

/-- The edges of a graph, as they are added to a `DiGraph`. -/
abbrev Edges := List (Bytes × Bytes)

/-- `shortest_path(graph, source)`: a path to every target that can be reached. -/
abbrev ShortestPath := Edges → Bytes → List (Bytes × List Bytes)

/-! ### The network -/

/-- `LinkStateNetwork`, with the `reachable_pseudonyms` that it sets in the store of
announcements. -/
structure LinkStateNetwork where
  pseudonym : Bytes
  neighborhood : Neighborhood
  database : List (Option Bytes × Lsp) := []
  routingTable : List (Bytes × Bytes) := []
  reachablePseudonyms : List Bytes := []

namespace LinkStateNetwork

/-- The edges of one packet: an expired one is not read. -/
def edgesOf (now : ℤ) (source : Option Bytes) (lsp : Lsp) : Py (List (Option Bytes × Bytes)) :=
  match lsp.neighbors with
  | none => .error .typeError
  | some neighbors =>
    if lsp.unexpired now then
      neighbors.mapM fun neighbor =>
        match neighbor with
        | some neighbor => .ok (source, neighbor.pseudonym)
        | none => .error .attributeError
    else .ok []

/-- A `DiGraph` takes no node `None`. -/
def asEdge : Option Bytes × Bytes → Py (Bytes × Bytes)
  | (some source, target) => .ok (source, target)
  | (none, _) => .error (.valueError "None cannot be a node")

/-- The edges of the graph: the keys of `cost_by_directional_edges`. -/
def edges (self : LinkStateNetwork) (now : ℤ) : Py Edges := do
  let keys ← self.database.mapM fun (source, lsp) => edgesOf now source lsp
  keys.flatten.mapM asEdge

/-- `graph.has_node`. -/
def hasNode (edges : Edges) (node : Bytes) : Prop :=
  node ∈ edges.map Prod.fst ∨ node ∈ edges.map Prod.snd

instance (edges : Edges) (node : Bytes) : Decidable (hasNode edges node) :=
  inferInstanceAs (Decidable (_ ∨ _))

/-- `{target: path[1] for target, path in paths.items() if …}`. -/
def tableOf (self : LinkStateNetwork) (paths : List (Bytes × List Bytes)) :
    List (Bytes × Bytes) :=
  dictOf (paths.filterMap fun (target, path) =>
    match path with
    | _ :: next :: _ => if target ≠ self.pseudonym then some (target, next) else none
    | _ => none)

/-- **The table leads to a target along its path**, to the second node on it. -/
theorem lookup_tableOf {self : LinkStateNetwork} {paths : List (Bytes × List Bytes)}
    (nodup : (paths.map Prod.fst).Nodup) {target next : Bytes} :
    (self.tableOf paths).lookup target = some next ↔
      target ≠ self.pseudonym ∧ ∃ first rest, (target, first :: next :: rest) ∈ paths := by
  unfold tableOf
  set entry : Bytes × List Bytes → Option (Bytes × Bytes) := fun (target, path) =>
    match path with
    | _ :: next :: _ => if target ≠ self.pseudonym then some (target, next) else none
    | _ => none with hentry
  have entry_some : ∀ (at' : Bytes × List Bytes) (e : Bytes × Bytes), entry at' = some e ↔
      e.1 = at'.1 ∧ at'.1 ≠ self.pseudonym ∧ ∃ first rest, at'.2 = first :: e.2 :: rest := by
    rintro ⟨target, path⟩ ⟨key, next⟩
    rcases path with _ | ⟨first, _ | ⟨second, rest⟩⟩ <;> simp [hentry]
    grind
  have keys : ((paths.filterMap entry).map Prod.fst).Nodup := by
    refine nodup.sublist ?_
    clear nodup
    induction paths with
    | nil => simp
    | cons at' paths ih =>
        rcases found : entry at' with _ | e
        · rw [List.filterMap_cons_none found]
          exact ih.cons _
        · rw [List.filterMap_cons_some found, List.map_cons, List.map_cons,
            ((entry_some at' e).mp found).1]
          exact ih.cons_cons _
  rw [dictOf_of_nodup keys]
  constructor
  · intro found
    obtain ⟨at', mem, here⟩ := List.mem_filterMap.mp (mem_of_lookup found)
    obtain ⟨rfl, other, first, rest, path⟩ := (entry_some at' _).mp here
    exact ⟨other, first, rest, path ▸ mem⟩
  · rintro ⟨other, first, rest, mem⟩
    refine lookup_of_mem keys (List.mem_filterMap.mpr ⟨_, mem, ?_⟩)
    exact (entry_some (target, first :: next :: rest) (target, next)).mpr
      ⟨rfl, other, first, rest, rfl⟩

section Update

variable (shortestPath : ShortestPath) (now : ℤ)

/-- The table for some paths, and the pseudonyms that it leads to with the own one. -/
def withTable (self : LinkStateNetwork) (paths : List (Bytes × List Bytes)) : LinkStateNetwork :=
  { self with
    routingTable := self.tableOf paths
    reachablePseudonyms := self.pseudonym :: (self.tableOf paths).map Prod.fst }

/-- `_update_routing_table`. -/
def updateRoutingTable (self : LinkStateNetwork) : Py LinkStateNetwork := do
  let edges ← self.edges now
  if hasNode edges self.pseudonym then
    return self.withTable (shortestPath edges self.pseudonym)
  else return self

theorem updateRoutingTable_ok {self self' : LinkStateNetwork} :
    self.updateRoutingTable shortestPath now = .ok self' ↔
      ∃ edges, self.edges now = .ok edges ∧
        self' = if hasNode edges self.pseudonym then
          self.withTable (shortestPath edges self.pseudonym) else self := by
  unfold updateRoutingTable
  rw [bind_eq_ok]
  refine exists_congr fun edges => and_congr_right fun _ => ?_
  split_ifs <;> exact ⟨fun h => (Except.ok.inj h).symm, fun h => h ▸ rfl⟩

/-- `update`: whether the packet is news. A packet that is kept stays in the database also
when the routing table cannot be computed. -/
def update (self : LinkStateNetwork) (lsp : Lsp) : LinkStateNetwork × Py Bool :=
  if (self.database.lookup lsp.pseudonym).any fun original =>
      lsp.microTimestamp ≤ original.microTimestamp then
    (self, .ok false)
  else
    let self : LinkStateNetwork :=
      { self with database := dictSet self.database lsp.pseudonym lsp }
    match self.updateRoutingTable shortestPath now with
    | .ok self => (self, .ok true)
    | .error e => (self, .error e)

/-- A newer packet is stored, and the routing table is updated. -/
theorem update_newer {self network : LinkStateNetwork} {lsp : Lsp}
    (newer : ((self.database.lookup lsp.pseudonym).any fun original =>
      decide (lsp.microTimestamp ≤ original.microTimestamp)) ≠ true)
    (updated : { self with database := dictSet self.database lsp.pseudonym lsp }.updateRoutingTable
      shortestPath now = .ok network) :
    self.update shortestPath now lsp = (network, .ok true) := by
  rw [update, if_neg newer]
  dsimp only
  rw [updated]

/-- `_remove_expired`. -/
def removeExpired (self : LinkStateNetwork) : LinkStateNetwork × Py Unit :=
  let expired := fun (e : Option Bytes × Lsp) =>
    decide (e.2.microTimestamp + e.2.ttl * 10 ^ 6 < now)
  if self.database.any expired then
    let self : LinkStateNetwork :=
      { self with database := self.database.filter fun e => !expired e }
    match self.updateRoutingTable shortestPath now with
    | .ok self => (self, .ok ())
    | .error e => (self, .error e)
  else (self, .ok ())

end Update

section Hop

variable (now timeout : ℤ)

/-- The destination is a neighbor that is online. -/
def nearby (self : LinkStateNetwork) (destination : Bytes) : Bool :=
  (self.neighborhood.lookup destination).any fun neighbor => neighbor.online now timeout

/-- `hop`. -/
def hop (self : LinkStateNetwork) (destination : Bytes) : Option Bytes :=
  if self.nearby now timeout destination then some destination
  else self.routingTable.lookup destination

theorem hop_of_nearby {self : LinkStateNetwork} {destination : Bytes}
    (near : self.nearby now timeout destination) :
    self.hop now timeout destination = some destination :=
  if_pos near

theorem hop_of_away {self : LinkStateNetwork} {destination : Bytes}
    (away : ¬ self.nearby now timeout destination) :
    self.hop now timeout destination = self.routingTable.lookup destination :=
  if_neg away

/-- One turn of `send_target_task`: the neighbor that the message is sent to, if there is one
to send it to. -/
def sendTarget (self : LinkStateNetwork) (target : Bytes) : Option Bytes :=
  match self.hop now timeout target with
  | none => none
  | some nextHop => if (self.neighborhood.lookup nextHop).isSome then some nextHop else none

/-- What becomes of a message at a router: it is handed over there, it is sent on, or it has
to wait. -/
inductive Forwarded where
  | here
  | sentTo (neighbor : Bytes)
  | waits
deriving DecidableEq, Repr

/-- The next router. -/
def Forwarded.next : Forwarded → Option Bytes
  | .sentTo neighbor => some neighbor
  | _ => none

/-- `handle_forward`, with one turn of the `send_target_task` of its envelope. -/
def handleForward (self : LinkStateNetwork) (target : Bytes) : Forwarded :=
  if target = self.pseudonym then .here
  else
    match self.sendTarget now timeout target with
    | some neighbor => .sentTo neighbor
    | none => .waits

end Hop

end LinkStateNetwork

end Prism.Routing
