import Prism.Lib.Machine
import Prism.Routing.Forwarding

/-!
When the routing table describes the current network
(`update` and `_remove_expired` in `prism/server/routing/network.py`).

Every call that changes the database computes the table again, from the packets that have not
expired by then. A router that is on none of their edges leaves the table as it was
(`if not graph.has_node(self.pseudonym): return`), although it reaches no other router any more.

* `lists_iff`: the edges of the graph are those that the unexpired packets list.
* `withTable_describes`: a table that is computed describes the network.
* `describes_iff`: after any run, a call that changes the database leaves the table right exactly
  when the router is on an edge, or the table was already that of a router that reaches nothing.
* `table_outlives_packets`: a router whose packets have all expired still has its table.
-/

namespace Prism.Routing

open Prism.Lib

namespace LinkStateNetwork

/-! ### The network that the packets describe -/

/-- An unexpired packet of the first router lists the second one. -/
def Lists (self : LinkStateNetwork) (now : ℤ) (u v : Bytes) : Prop :=
  ∃ lsp, (some u, lsp) ∈ self.database ∧ lsp.unexpired now ∧
    ∃ neighbors, lsp.neighbors = some neighbors ∧ ∃ cost, some ⟨v, cost⟩ ∈ neighbors

/-- The router can be reached over edges of unexpired packets. -/
def Reaches (self : LinkStateNetwork) (now : ℤ) (target : Bytes) : Prop :=
  ∃ n, Walk (self.Lists now) n self.pseudonym target

/-- **The table describes the network**: it has an entry for each other router that can be
reached, whose first hop the router lists as a neighbor. The store of announcements is told of
these routers, and of the router itself. -/
structure Describes (net : LinkStateNetwork) (now : ℤ) : Prop where
  table : ∀ target, (net.routingTable.lookup target).isSome ↔
    target ≠ net.pseudonym ∧ net.Reaches now target
  hops : ∀ target next, net.routingTable.lookup target = some next →
    net.Lists now net.pseudonym next
  reachable : ∀ target, target ∈ net.reachablePseudonyms ↔
    target = net.pseudonym ∨ net.Reaches now target

variable {now : ℤ} {self : LinkStateNetwork} {edges : Edges}

theorem mem_edgesOf {source : Option Bytes} {lsp : Lsp} {found : List (Option Bytes × Bytes)}
    (run : edgesOf now source lsp = .ok found) (edge : Option Bytes × Bytes) :
    edge ∈ found ↔ edge.1 = source ∧ lsp.unexpired now ∧
      ∃ neighbors, lsp.neighbors = some neighbors ∧ ∃ cost, some ⟨edge.2, cost⟩ ∈ neighbors := by
  unfold edgesOf at run
  split at run
  · cases run
  · next neighbors listed =>
      split_ifs at run with unexpired
      · obtain ⟨called, returned⟩ := mem_mapM run
        constructor
        · intro mem
          obtain ⟨neighbor, inList, eq⟩ := returned edge mem
          cases neighbor with
          | none => cases eq
          | some neighbor =>
              obtain rfl := Except.ok.inj eq
              exact ⟨rfl, unexpired, neighbors, listed, neighbor.cost, inList⟩
        · rintro ⟨rfl, -, neighbors', listed', cost, inList⟩
          obtain rfl := Option.some.inj (listed.symm.trans listed')
          obtain ⟨edge', mem, eq⟩ := called _ inList
          obtain rfl := Except.ok.inj eq
          exact mem
      · obtain rfl := Except.ok.inj run
        simp [unexpired]

/-- **The edges of the graph** are those that the unexpired packets list. -/
theorem lists_iff (run : self.edges now = .ok edges) (u v : Bytes) :
    Adjacent edges u v ↔ self.Lists now u v := by
  obtain ⟨keys, found, run⟩ := bind_eq_ok.mp run
  obtain ⟨called, returned⟩ := mem_mapM found
  obtain ⟨asked, added⟩ := mem_mapM run
  constructor
  · intro mem
    obtain ⟨⟨source, target⟩, inKeys, eq⟩ := added _ mem
    cases source with
    | none => cases eq
    | some source =>
        cases eq
        obtain ⟨of_lsp, mem, inside⟩ := List.mem_flatten.mp inKeys
        obtain ⟨⟨source, lsp⟩, inDatabase, eq⟩ := returned of_lsp mem
        obtain ⟨rfl, unexpired, listed⟩ := (mem_edgesOf eq _).mp inside
        exact ⟨lsp, inDatabase, unexpired, listed⟩
  · rintro ⟨lsp, inDatabase, unexpired, listed⟩
    obtain ⟨of_lsp, mem, eq⟩ := called _ inDatabase
    have inside : (some u, v) ∈ of_lsp := (mem_edgesOf eq _).mpr ⟨rfl, unexpired, listed⟩
    obtain ⟨edge, inEdges, eq⟩ := asked _ (List.mem_flatten.mpr ⟨of_lsp, mem, inside⟩)
    obtain rfl := Except.ok.inj eq
    exact inEdges

/-! ### Computing the table -/

/-- The first hop of a path with an edge. -/
theorem first_hop {source target : Bytes} {rest : List Bytes}
    (chain : (source :: rest).IsChain (Adjacent edges))
    (last : (source :: rest).getLast? = some target) (other : target ≠ source) :
    ∃ next after, rest = next :: after ∧ Adjacent edges source next := by
  cases rest with
  | nil => exact absurd (Option.some.inj last).symm other
  | cons next after => exact ⟨next, after, rfl, (List.isChain_cons_cons.mp chain).1⟩

/-- **A table that is computed describes the network.** -/
theorem withTable_describes (run : self.edges now = .ok edges)
    {paths : List (Bytes × List Bytes)} (shortest : ShortestPaths edges self.pseudonym paths) :
    (self.withTable paths).Describes now := by
  have same : Adjacent edges = self.Lists now := by
    ext u v
    exact lists_iff run u v
  have entry : ∀ target next, (self.tableOf paths).lookup target = some next →
      target ≠ self.pseudonym ∧ self.Reaches now target ∧ self.Lists now self.pseudonym next := by
    intro target next found
    obtain ⟨other, first, rest, mem⟩ := (lookup_tableOf shortest.nodup).mp found
    obtain ⟨rest', shape, chain, last, -⟩ := shortest.path target _ mem
    cases shape
    refine ⟨other, ⟨_, same ▸ walk_of_chain chain last⟩, ?_⟩
    rw [← same]
    exact (List.isChain_cons_cons.mp chain).1
  have found : ∀ target, target ≠ self.pseudonym → self.Reaches now target →
      ∃ next, (self.tableOf paths).lookup target = some next := by
    rintro target other ⟨n, walk⟩
    rw [← same] at walk
    obtain ⟨⟨_, path⟩, mem, rfl⟩ := List.mem_map.mp (shortest.reached target n walk)
    obtain ⟨rest, rfl, chain, last, -⟩ := shortest.path _ path mem
    obtain ⟨next, after, rfl, -⟩ := first_hop chain last other
    exact ⟨next, (lookup_tableOf shortest.nodup).mpr ⟨other, _, after, mem⟩⟩
  constructor
  · intro target
    constructor
    · intro has
      obtain ⟨next, at_target⟩ := Option.isSome_iff_exists.mp has
      exact ⟨(entry target next at_target).1, (entry target next at_target).2.1⟩
    · rintro ⟨other, reaches⟩
      exact Option.isSome_iff_exists.mpr (found target other reaches)
  · exact fun target next at_target => (entry target next at_target).2.2
  · intro target
    change target ∈ self.pseudonym :: (self.tableOf paths).map Prod.fst ↔ _
    rw [List.mem_cons]
    by_cases other : target = self.pseudonym
    · exact ⟨fun _ => .inl other, fun _ => .inl other⟩
    · refine or_congr_right ?_
      constructor
      · intro mem
        obtain ⟨⟨_, next⟩, inTable, rfl⟩ := List.mem_map.mp mem
        have at_target := lookup_of_mem (nodup_dictOf _) inTable
        exact (entry _ next at_target).2.1
      · intro reaches
        obtain ⟨next, at_target⟩ := found target other reaches
        exact List.mem_map.mpr ⟨(target, next), mem_of_lookup at_target, rfl⟩

/-! ### Calls -/

/-- The calls that change the database. -/
inductive Call where
  | update (lsp : Lsp)
  | removeExpired

/-- What the database is after a call. -/
def databaseAfter (self : LinkStateNetwork) (now : ℤ) : Call → List (Option Bytes × Lsp)
  | .update lsp =>
    if (self.database.lookup lsp.pseudonym).any fun original =>
        lsp.microTimestamp ≤ original.microTimestamp then self.database
    else dictSet self.database lsp.pseudonym lsp
  | .removeExpired =>
    self.database.filter fun e => !decide (e.2.microTimestamp + e.2.ttl * 10 ^ 6 < now)

/-- The router with the database of after a call, and everything else of before. -/
def stored (self : LinkStateNetwork) (now : ℤ) (call : Call) : LinkStateNetwork :=
  { self with database := self.databaseAfter now call }

/-- A router on its own: it starts with no packets, and is called at some times. -/
def router (shortestPath : ShortestPath) (pseudonym : Bytes) (neighborhood : Neighborhood) :
    Machine LinkStateNetwork (ℤ × Call) (Py Unit) where
  init := { pseudonym, neighborhood }
  step self event :=
    match event with
    | (now, .update lsp) =>
      let (self, result) := self.update shortestPath now lsp
      (self, (fun _ => ()) <$> result)
    | (now, .removeExpired) => self.removeExpired shortestPath now

/-- An unexpired packet lists a neighbor of the router, or the router as a neighbor. -/
def OnEdge (self : LinkStateNetwork) (now : ℤ) : Prop :=
  ∃ other, self.Lists now self.pseudonym other ∨ self.Lists now other self.pseudonym

/-- The router knows that it reaches no other one. -/
def Alone (self : LinkStateNetwork) : Prop :=
  self.routingTable = [] ∧ ∀ p, p ∈ self.reachablePseudonyms ↔ p = self.pseudonym

/-- **When a call leaves the table right**: the packets can be read, and the router is on an edge
or has known before that it reaches no other one. Where a packet has no router or no list of
neighbors the call raises, and the table was right for the new database before. -/
def Refreshes (self : LinkStateNetwork) (now : ℤ) (call : Call) : Prop :=
  ((∃ edges, (self.stored now call).edges now = .ok edges) ∧
    ((self.stored now call).OnEdge now ∨ self.Alone)) ∨
  ((∃ e, (self.stored now call).edges now = .error e) ∧ (self.stored now call).Describes now)

theorem hasNode_iff (run : self.edges now = .ok edges) :
    hasNode edges self.pseudonym ↔ self.OnEdge now := by
  constructor
  · rintro (source | target)
    · obtain ⟨⟨_, other⟩, mem, rfl⟩ := List.mem_map.mp source
      exact ⟨other, .inl ((lists_iff run _ _).mp mem)⟩
    · obtain ⟨⟨other, _⟩, mem, rfl⟩ := List.mem_map.mp target
      exact ⟨other, .inr ((lists_iff run _ _).mp mem)⟩
  · rintro ⟨other, source | target⟩
    · exact .inl (List.mem_map.mpr ⟨_, (lists_iff run _ _).mpr source, rfl⟩)
    · exact .inr (List.mem_map.mpr ⟨_, (lists_iff run _ _).mpr target, rfl⟩)

/-- A router that is on no edge reaches itself only. -/
theorem reaches_of_off_edge (off : ¬ self.OnEdge now) (target : Bytes) :
    self.Reaches now target ↔ target = self.pseudonym := by
  constructor
  · rintro ⟨n, walk⟩
    cases walk with
    | nil => rfl
    | cons edge _ => exact absurd ⟨_, .inl edge⟩ off
  · rintro rfl
    exact ⟨0, .nil _⟩

/-- The table of a router that is on no edge. -/
theorem describes_of_off_edge (off : ¬ self.OnEdge now) : self.Describes now ↔ self.Alone := by
  constructor
  · rintro ⟨table, -, reachable⟩
    constructor
    · by_contra ne
      obtain ⟨⟨target, next⟩, rest, eq⟩ := List.exists_cons_of_ne_nil ne
      have has : (self.routingTable.lookup target).isSome := by
        rw [eq, List.lookup_cons_self]
        rfl
      obtain ⟨other, reaches⟩ := (table target).mp has
      exact other ((reaches_of_off_edge off target).mp reaches)
    · intro target
      rw [reachable target, reaches_of_off_edge off, or_self]
  · rintro ⟨table, reachable⟩
    refine ⟨fun target => ?_, fun target next at_target => ?_, fun target => ?_⟩
    · rw [table, reaches_of_off_edge off]
      simp
    · rw [table] at at_target
      cases at_target
    · rw [reachable target, reaches_of_off_edge off, or_self]

variable {shortestPath : ShortestPath} {pseudonym : Bytes} {neighborhood : Neighborhood}

/-- A call that changes the database computes the table from the new one. -/
theorem step_of_changed {before : LinkStateNetwork} {call : Call}
    (changed : ((router shortestPath pseudonym neighborhood).step before (now, call)).1.database ≠
      before.database) :
    ((router shortestPath pseudonym neighborhood).step before (now, call)).1 =
      match (before.stored now call).updateRoutingTable shortestPath now with
      | .ok after => after
      | .error _ => before.stored now call := by
  cases call with
  | update lsp =>
      simp only [router, update, stored, databaseAfter] at changed ⊢
      split_ifs at changed ⊢ with old
      · exact absurd rfl changed
      · generalize LinkStateNetwork.updateRoutingTable shortestPath now
          { before with database := dictSet before.database lsp.pseudonym lsp } = result
        cases result with
        | ok after => rfl
        | error e => rfl
  | removeExpired =>
      simp only [router, removeExpired, stored, databaseAfter] at changed ⊢
      split_ifs at changed ⊢ with expired
      · generalize LinkStateNetwork.updateRoutingTable shortestPath now
          { before with
            database := before.database.filter
              (fun e => !decide (e.2.microTimestamp + e.2.ttl * 10 ^ 6 < now)) } = result
        cases result with
        | ok after => rfl
        | error e => rfl
      · exact absurd rfl changed

/-- A table that is computed, or not computed, from the database. -/
theorem updated_describes_iff {stored : LinkStateNetwork}
    (shortest : ∀ edges, stored.edges now = .ok edges → hasNode edges stored.pseudonym →
      ShortestPaths edges stored.pseudonym (shortestPath edges stored.pseudonym)) :
    (match stored.updateRoutingTable shortestPath now with
      | .ok after => after
      | .error _ => stored).Describes now ↔
      ((∃ edges, stored.edges now = .ok edges) ∧ (stored.OnEdge now ∨ stored.Alone)) ∨
      ((∃ e, stored.edges now = .error e) ∧ stored.Describes now) := by
  cases run : stored.edges now with
  | error e => simp [updateRoutingTable, run]
  | ok edges =>
      have updated : stored.updateRoutingTable shortestPath now = .ok
          (if hasNode edges stored.pseudonym then
            stored.withTable (shortestPath edges stored.pseudonym) else stored) :=
        (updateRoutingTable_ok _ _).mpr ⟨edges, run, rfl⟩
      rw [updated]
      simp only [Except.ok.injEq, exists_eq', true_and, reduceCtorEq, exists_false, false_and,
        or_false]
      by_cases node : hasNode edges stored.pseudonym
      · rw [if_pos node]
        have on := (hasNode_iff run).mp node
        exact ⟨fun _ => .inl on, fun _ => withTable_describes run (shortest edges run node)⟩
      · rw [if_neg node]
        have off : ¬ stored.OnEdge now := fun on => node ((hasNode_iff run).mpr on)
        rw [describes_of_off_edge off, or_iff_right off]

/-- A router keeps its pseudonym. -/
theorem run_pseudonym (events : List (ℤ × Call)) :
    ((router shortestPath pseudonym neighborhood).run events).1.pseudonym = pseudonym := by
  have updated : ∀ {self self' : LinkStateNetwork} {now : ℤ},
      self.updateRoutingTable shortestPath now = .ok self' → self'.pseudonym = self.pseudonym := by
    intro self self' now run
    obtain ⟨edges, -, rfl⟩ := (updateRoutingTable_ok _ _).mp run
    split_ifs <;> rfl
  have step : ∀ (self : LinkStateNetwork) (event : ℤ × Call),
      ((router shortestPath pseudonym neighborhood).step self event).1.pseudonym =
        self.pseudonym := by
    rintro self ⟨now, lsp | _⟩
    · simp only [router, update]
      split_ifs
      · rfl
      · split
        · next after run =>
            have same := updated run
            exact same
        · rfl
    · simp only [router, removeExpired]
      split_ifs
      · split
        · next after run =>
            have same := updated run
            exact same
        · rfl
      · rfl
  exact @Machine.run_induction _ _ _ (router shortestPath pseudonym neighborhood)
    (fun _ _ _ => True) (fun self _ => self.pseudonym = pseudonym) rfl
    (fun self _ event same _ => (step self event).trans same) events fun _ _ _ _ => trivial

/-- **When the routing table describes the current network.** After any run, a call that changes
the database leaves the table right exactly when the packets can be read and the router is on an
edge, or has known that it reaches no other router; where the call raises, exactly when the table
was right already. -/
theorem describes_iff (events : List (ℤ × Call)) (now : ℤ) (call : Call)
    (shortest : ∀ edges,
      (((router shortestPath pseudonym neighborhood).run events).1.stored now call).edges now =
        .ok edges → hasNode edges pseudonym →
      ShortestPaths edges pseudonym (shortestPath edges pseudonym))
    (changed : ((router shortestPath pseudonym neighborhood).run
        (events ++ [(now, call)])).1.database ≠
      ((router shortestPath pseudonym neighborhood).run events).1.database) :
    ((router shortestPath pseudonym neighborhood).run (events ++ [(now, call)])).1.Describes now ↔
      ((router shortestPath pseudonym neighborhood).run events).1.Refreshes now call := by
  rw [Machine.run_concat] at changed ⊢
  change ((router _ _ _).step _ _).1.Describes now ↔ _
  rw [step_of_changed changed]
  refine updated_describes_iff fun edges run node => ?_
  have name := @run_pseudonym shortestPath pseudonym neighborhood events
  rw [stored, name] at node ⊢
  exact shortest edges run node

/-! ### A router whose packets have expired -/

/-- The shortest paths from the router 1, which lists the router 2. -/
def pairPaths : ShortestPath := fun _ _ => [([1], [[1]]), ([2], [[1], [2]])]

theorem pairPaths_shortest : ShortestPaths [([1], [2])] [1] (pairPaths [([1], [2])] [1]) := by
  have nodes : ∀ a b : Bytes, a ∈ [([1] : Bytes), [2]] → Adjacent [([1], [2])] a b →
      b ∈ [([1] : Bytes), [2]] := by
    intro a b _ edge
    obtain ⟨-, rfl⟩ := Prod.mk.inj (List.mem_singleton.mp edge)
    decide
  refine ⟨by decide, fun target path mem => ?_, fun target n walk => walk.carry nodes (by decide)⟩
  simp only [pairPaths, List.mem_cons, Prod.mk.injEq, List.not_mem_nil, or_false] at mem
  rcases mem with ⟨rfl, rfl⟩ | ⟨rfl, rfl⟩
  · exact ⟨[], rfl, by decide, rfl, fun n _ => n.zero_le⟩
  · refine ⟨[[2]], rfl, by decide, rfl, fun n walk => ?_⟩
    cases n with
    | zero => exact absurd (walk_zero.mp walk) (by decide)
    | succ n => exact Nat.le_add_left 1 n

/-- The packet of the router 1, good for a minute. -/
def pairUpdate : ℤ × Call := (0, .update (linePacket [1] [2]).2)

/-- A router that has just sent its packet describes the network. -/
theorem describes_after_update :
    ((router pairPaths [1] []).run ([] ++ [pairUpdate])).1.Describes 0 := by
  refine (describes_iff [] 0 (.update (linePacket [1] [2]).2) ?_ ?_).mpr
    (.inl ⟨⟨[([1], [2])], rfl⟩, .inl ⟨[2], .inl ?_⟩⟩)
  · intro edges run _
    obtain rfl : [([1], [2])] = edges := Except.ok.inj run
    exact pairPaths_shortest
  · exact List.cons_ne_nil _ _
  · exact ⟨_, List.mem_singleton_self _, by decide, _, rfl, 1, List.mem_singleton_self _⟩

/-- **The table outlives the packets**: a minute later the packet is removed, and the router on no
edge still has an entry for the neighbor, although it reaches no one. -/
theorem table_outlives_packets :
    ((router pairPaths [1] []).run [pairUpdate, (61 * 10 ^ 6, .removeExpired)]).1.database ≠
      ((router pairPaths [1] []).run [pairUpdate]).1.database ∧
    ¬ ((router pairPaths [1] []).run [pairUpdate, (61 * 10 ^ 6, .removeExpired)]).1.Describes
      (61 * 10 ^ 6) := by
  have database : ((router pairPaths [1] []).run
      [pairUpdate, (61 * 10 ^ 6, .removeExpired)]).1.database = [] := by rfl
  refine ⟨?_, fun describes => ?_⟩
  · rw [database]
    exact (List.cons_ne_nil _ _).symm
  · obtain ⟨-, n, walk⟩ := (describes.table [2]).mp (by decide)
    cases walk with
    | cons edge _ =>
        obtain ⟨lsp, mem, -⟩ := edge
        rw [database] at mem
        cases mem

end LinkStateNetwork

end Prism.Routing
