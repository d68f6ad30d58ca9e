import Prism.Lib.Distance
import Prism.Routing.Network

/-!
Forwarding hop by hop (`prism/server/routing/network.py`, `prism/server/routing/router_ls.py`).

Every router computes its own table from the packets that it has, and among paths of the same
length each one may pick another. A message is delivered at its target, and everywhere else
it is sent on to the next hop of the router that it is at: to the target where that is an
online neighbor, and as the table says otherwise.

* `ShortestPaths`: what `networkx.shortest_path` is relied on for.
* `Computed.hop_closer`: the next hop is closer to the target, or is the target.
* `Shared.forwarded`: the target is reached within its distance, without a loop, and in as
  many hops as its distance unless a router on the way has the target as an online neighbor
  that the packets do not list.
* `forwarded_shorter`: such a neighbor is reached in fewer hops.
-/

namespace Prism.Routing

open Prism.Lib

namespace LinkStateNetwork

/-! ### Shared packets -/

/-- There is an edge. -/
def Adjacent (edges : Edges) (u v : Bytes) : Prop := (u, v) ∈ edges

instance (edges : Edges) (u v : Bytes) : Decidable (Adjacent edges u v) :=
  inferInstanceAs (Decidable (_ ∈ _))

/-- **What `shortest_path` is relied on for**: to every node that can be reached, and to no
other, a path with the fewest edges. -/
structure ShortestPaths (edges : Edges) (source : Bytes) (paths : List (Bytes × List Bytes)) :
    Prop where
  nodup : (paths.map Prod.fst).Nodup
  path : ∀ target path, (target, path) ∈ paths → ∃ rest, path = source :: rest ∧
    (source :: rest).IsChain (Adjacent edges) ∧ (source :: rest).getLast? = some target ∧
    ∀ n, Walk (Adjacent edges) n source target → rest.length ≤ n
  reached : ∀ target n, Walk (Adjacent edges) n source target → target ∈ paths.map Prod.fst

/-- A router whose table was computed, at some time, from unexpired edges that are those of
`adj`. -/
structure Computed (shortestPath : ShortestPath) (adj : Bytes → Bytes → Prop) (u : Bytes)
    (self : LinkStateNetwork) : Prop where
  pseudonym : self.pseudonym = u
  computed : ∃ old edges now, LinkStateNetwork.edges old now = .ok edges ∧
    old.updateRoutingTable shortestPath now = .ok self ∧
    (∀ a b, (a, b) ∈ edges ↔ adj a b) ∧
    (hasNode edges u → ShortestPaths edges u (shortestPath edges u))

/-- A router that keeps a packet computes its table from the edges that it has then. -/
theorem update_computed {shortestPath : ShortestPath} {now : ℤ} {self self' : LinkStateNetwork}
    {lsp : Lsp} {edges : Edges} (kept : self.update shortestPath now lsp = (self', .ok true))
    (current : self'.edges now = .ok edges)
    (shortest : hasNode edges self.pseudonym →
      ShortestPaths edges self.pseudonym (shortestPath edges self.pseudonym)) :
    Computed shortestPath (Adjacent edges) self.pseudonym self' := by
  unfold update at kept
  split_ifs at kept with known
  · cases kept
  · set stored : LinkStateNetwork :=
      { self with database := dictSet self.database lsp.pseudonym lsp } with hstored
    dsimp only at kept
    rcases updated : stored.updateRoutingTable shortestPath now with e | after
    · rw [updated] at kept
      exact absurd (congrArg Prod.snd kept) (by simp)
    rw [updated] at kept
    obtain rfl : after = self' := congrArg Prod.fst kept
    obtain ⟨edges', hedges', result⟩ := (updateRoutingTable_ok _ _).mp updated
    have same : after.edges now = stored.edges now := by
      rw [result]
      split_ifs <;> rfl
    obtain rfl : edges' = edges := Except.ok.inj (hedges'.symm.trans (same.symm.trans current))
    refine ⟨?_, stored, edges', now, hedges', updated, fun _ _ => Iff.rfl, shortest⟩
    rw [result]
    split_ifs <;> rfl

/-- All routers that have an edge computed their tables from the same edges, each with its own
`shortest_path`. -/
structure Shared (shortestPath : Bytes → ShortestPath) (adj : Bytes → Bytes → Prop)
    (routers : Bytes → LinkStateNetwork) : Prop where
  pseudonym : ∀ u, (routers u).pseudonym = u
  computed : ∀ u w, adj u w → Computed (shortestPath u) adj u (routers u)

/-! ### One hop -/

section Hop

variable {shortestPath : ShortestPath} {adj : Bytes → Bytes → Prop} {u t : Bytes} {d : ℕ}
  {self : LinkStateNetwork} {now timeout : ℤ}

/-- The table leads to what is reachable, one step closer. -/
theorem Computed.table_closer (computed : Computed shortestPath adj u self)
    (dist : IsDist adj u t (d + 1)) :
    ∃ w, self.routingTable.lookup t = some w ∧ adj u w ∧ IsDist adj w t d := by
  obtain ⟨name, old, edges, time, hedges, update, same, shortest⟩ := computed
  have same : Adjacent edges = adj := by
    ext a b
    exact same a b
  obtain ⟨edges', hedges', result⟩ := (updateRoutingTable_ok _ _).mp update
  obtain rfl : edges' = edges := Except.ok.inj (hedges'.symm.trans hedges)
  obtain rfl : old.pseudonym = u := by
    rw [← name, result]
    split_ifs <;> rfl
  obtain ⟨next, edge, -⟩ := dist.step
  have node : hasNode edges' old.pseudonym := by
    rw [← same] at edge
    exact .inl (List.mem_map_of_mem edge)
  obtain ⟨nodup, paths, reached⟩ := shortest node
  rw [if_pos node] at result
  subst same
  obtain ⟨entry, mem, rfl⟩ := List.mem_map.mp (reached t (d + 1) dist.walk)
  obtain ⟨rest, shape, chain, last, least⟩ := paths entry.1 entry.2 mem
  have walk := walk_of_chain chain last
  obtain length : rest.length = d + 1 :=
    Nat.le_antisymm (least (d + 1) dist.walk) (dist.least rest.length walk)
  obtain _ | ⟨w, rest⟩ := rest
  · exact absurd length (Nat.succ_ne_zero d).symm
  rw [List.isChain_cons_cons] at chain
  rw [List.getLast?_cons_cons] at last
  have rest_walk := walk_of_chain chain.2 last
  rw [Nat.succ.inj length] at rest_walk
  refine ⟨w, ?_, chain.1, dist.rest chain.1 rest_walk⟩
  rw [result]
  apply (lookup_tableOf nodup).mpr
  exact ⟨dist.ne.symm, old.pseudonym, rest, shape ▸ mem⟩

/-- **The next hop is closer to the target**, or it is the target itself because that is an
online neighbor. -/
theorem Computed.hop_closer (computed : Computed shortestPath adj u self)
    (dist : IsDist adj u t (d + 1)) :
    ∃ w, self.hop now timeout t = some w ∧
      ((adj u w ∧ IsDist adj w t d) ∨ (w = t ∧ self.nearby now timeout t)) := by
  by_cases near : self.nearby now timeout t
  · exact ⟨t, hop_of_nearby now timeout near, .inr ⟨rfl, near⟩⟩
  · obtain ⟨w, found, closer⟩ := computed.table_closer dist
    rw [hop_of_away now timeout near]
    exact ⟨w, found, .inl closer⟩

/-- The message is sent to the next hop where that is a neighbor. -/
theorem handleForward_next {w : Bytes} (away : u ≠ t) (name : self.pseudonym = u)
    (hop : self.hop now timeout t = some w) (known : (self.neighborhood.lookup w).isSome) :
    (self.handleForward now timeout t).next = some w := by
  have here : ¬ t = self.pseudonym := fun same => away (name.symm.trans same.symm)
  simp [handleForward, here, sendTarget, hop, known, Forwarded.next]

/-- An online neighbor is a neighbor. -/
theorem known_of_nearby (near : self.nearby now timeout t) :
    (self.neighborhood.lookup t).isSome := by
  unfold nearby at near
  rcases found : self.neighborhood.lookup t with _ | neighbor
  · simp [found] at near
  · rfl

end Hop

/-! ### All hops -/

section Forwarded

variable {shortestPath : Bytes → ShortestPath} {adj : Bytes → Bytes → Prop}
  {routers : Bytes → LinkStateNetwork} {now : Bytes → ℤ} {timeout : ℤ} {s t : Bytes} {n : ℕ}

/-- A way that follows the hops is one that the messages take, where every next hop is a
neighbor. -/
theorem Shared.handleForward_route (shared : Shared shortestPath adj routers)
    (known : ∀ u w, adj u w → ((routers u).neighborhood.lookup w).isSome) {path : List Bytes}
    (route : Route (fun u => (routers u).hop (now u) timeout t) t s path) {d : ℕ}
    (dist : IsDist adj s t d) :
    Route (fun u => ((routers u).handleForward (now u) timeout t).next) t s path := by
  induction route generalizing d with
  | arrived => exact .arrived
  | @hop u w rest away chosen route ih =>
      obtain _ | d := d
      · exact absurd (isDist_zero.mp dist) away
      obtain ⟨next, edge, -⟩ := dist.step
      obtain ⟨w', chosen', closer⟩ := (shared.computed u next edge).hop_closer dist
      obtain rfl : w' = w := Option.some.inj (chosen'.symm.trans chosen)
      rcases closer with ⟨edge', dist'⟩ | ⟨rfl, near⟩
      · exact .hop away (handleForward_next away (shared.pseudonym u) chosen (known u w' edge'))
          (ih dist')
      · exact .hop away (handleForward_next away (shared.pseudonym u) chosen
          (known_of_nearby near)) (ih (isDist_self w'))

/-- **A message is forwarded to its target**: where there is a directed path, following the
hops of the routers reaches the target within the distance and visits no router twice. It
takes as many hops as the distance, unless a router on the way has the target as an online
neighbor without an edge to it. Where the edges of a router lead to neighbors of it, the
messages take this way, and the target hands the message over. -/
theorem Shared.forwarded (shared : Shared shortestPath adj routers) (walk : Walk adj n s t) :
    ∃ d path, IsDist adj s t d ∧
      Route (fun u => (routers u).hop (now u) timeout t) t s path ∧
      path.Nodup ∧ path.length ≤ d + 1 ∧
      (path.length = d + 1 ∨
        ∃ u ∈ path, (routers u).nearby (now u) timeout t ∧ ¬ adj u t) ∧
      ((∀ u w, adj u w → ((routers u).neighborhood.lookup w).isSome) →
        Route (fun u => ((routers u).handleForward (now u) timeout t).next) t s path) ∧
      (routers t).handleForward (now t) timeout t = .here := by
  obtain ⟨d, -, dist⟩ := walk.exists_isDist
  have closer : ∀ u d, IsDist adj u t (d + 1) →
      ∃ w, (routers u).hop (now u) timeout t = some w ∧ (IsDist adj w t d ∨ w = t) := by
    intro u d far
    obtain ⟨next, edge, -⟩ := far.step
    obtain ⟨w, chosen, closer⟩ := (shared.computed u next edge).hop_closer far
    exact ⟨w, chosen, closer.imp And.right And.left⟩
  obtain ⟨path, route, nodup, short, dists, exact⟩ := exists_route closer dist
  refine ⟨d, path, dist, route, nodup, short, ?_, ?_, ?_⟩
  · rcases exact with length | ⟨u, mem, other, jumps, away⟩
    · exact .inl length
    · obtain ⟨_ | k, -, far⟩ := dists u mem
      · exact absurd (isDist_zero.mp far) other
      obtain ⟨next, edge, -⟩ := far.step
      obtain ⟨w, chosen, near⟩ := (shared.computed u next edge).hop_closer far
      obtain rfl : w = t := Option.some.inj (chosen.symm.trans jumps)
      rcases near with ⟨edge', -⟩ | ⟨-, near⟩
      · exact absurd edge' away
      · exact .inr ⟨u, mem, near, away⟩
  · exact fun known => shared.handleForward_route known route dist
  · exact if_pos (shared.pseudonym t).symm

end Forwarded

/-! ### A neighbor that is not in the packets -/

section Shortcut

/-- A neighbor that is online at the time 0. -/
def onlineNeighbor (pseudonym : Bytes) : Bytes × Neighbor :=
  (pseudonym, { pseudonym, dataLinks := [true], lastReceived := 0 })

/-- The packet of a router, good for a minute. -/
def linePacket (pseudonym neighbor : Bytes) : Option Bytes × Lsp :=
  (pseudonym,
    { pseudonym, microTimestamp := 0, ttl := 60, neighbors := some [some ⟨neighbor, 1⟩] })

/-- The packets list the neighbor 2 of the router 1 and the neighbor 3 of the router 2. The
router 3 has just come online for the router 1. -/
def lineNetwork (u : Bytes) : LinkStateNetwork where
  pseudonym := u
  neighborhood :=
    if u = [1] then [onlineNeighbor [2], onlineNeighbor [3]] else [onlineNeighbor [3]]
  database := [linePacket [1] [2], linePacket [2] [3]]

/-- The shortest paths in a line of three routers. -/
def linePaths : ShortestPath := fun _ source =>
  if source = [1] then [([1], [[1]]), ([2], [[1], [2]]), ([3], [[1], [2], [3]])]
  else if source = [2] then [([2], [[2]]), ([3], [[2], [3]])]
  else [([3], [[3]])]

/-- The routers with their tables. -/
def lineRouter (u : Bytes) : LinkStateNetwork :=
  { lineNetwork u with
    routingTable := if u = [1] then [([2], [2]), ([3], [2])]
      else if u = [2] then [([3], [3])] else []
    reachablePseudonyms := if u = [1] then [[1], [2], [3]]
      else if u = [2] then [[2], [3]] else [] }

/-- The edges of the line. -/
def lineEdges : Edges := [([1], [2]), ([2], [3])]

theorem linePaths_shortest {u w : Bytes} (edge : Adjacent lineEdges u w) :
    ShortestPaths lineEdges u (linePaths lineEdges u) := by
  have nodes : ∀ a b, a ∈ [u, [2], [3]] → Adjacent lineEdges a b → b ∈ [u, [2], [3]] := by
    intro a b _
    simp only [Adjacent, lineEdges, List.mem_cons, Prod.mk.injEq, List.not_mem_nil, or_false]
    rintro (⟨-, rfl⟩ | ⟨-, rfl⟩) <;> simp
  have far : ∀ n, Walk (Adjacent lineEdges) n [1] [3] → 2 ≤ n := fun n walk =>
    walk.two_le (by decide) (by decide)
  have near : ∀ a b : Bytes, a ≠ b → ∀ n, Walk (Adjacent lineEdges) n a b → 1 ≤ n := by
    rintro a b ne (_ | n) walk
    · exact absurd (walk_zero.mp walk) ne
    · exact Nat.le_add_left 1 n
  have reached : ∀ target n, Walk (Adjacent lineEdges) n u target →
      target ∈ [u, [2], [3]] := fun target n walk => walk.carry nodes (by simp)
  simp only [Adjacent, lineEdges, List.mem_cons, Prod.mk.injEq, List.not_mem_nil, or_false]
    at edge
  rcases edge with ⟨rfl, -⟩ | ⟨rfl, -⟩
  · refine ⟨by decide, ?_, reached⟩
    intro target path mem
    simp only [linePaths, if_pos, List.mem_cons, Prod.mk.injEq, List.not_mem_nil, or_false]
      at mem
    rcases mem with ⟨rfl, rfl⟩ | ⟨rfl, rfl⟩ | ⟨rfl, rfl⟩
    · exact ⟨[], rfl, by decide, rfl, fun n _ => n.zero_le⟩
    · exact ⟨[[2]], rfl, by decide, rfl, near _ _ (by decide)⟩
    · exact ⟨[[2], [3]], rfl, by decide, rfl, far⟩
  · refine ⟨by decide, fun target path mem => ?_, fun target n walk => ?_⟩
    · have mem : (target, path) ∈ [([2], [[2]]), ([3], [[2], [3]])] := mem
      simp only [List.mem_cons, Prod.mk.injEq, List.not_mem_nil, or_false] at mem
      rcases mem with ⟨rfl, rfl⟩ | ⟨rfl, rfl⟩
      · exact ⟨[], rfl, by decide, rfl, fun n _ => n.zero_le⟩
      · exact ⟨[[3]], rfl, by decide, rfl, near _ _ (by decide)⟩
    · have mem := reached target n walk
      simp only [List.mem_cons, List.not_mem_nil, or_false, or_self_left] at mem
      rcases mem with rfl | rfl <;> decide

theorem lineRouter_shared :
    Shared (fun _ => linePaths) (Adjacent lineEdges) lineRouter := by
  refine ⟨fun u => rfl, fun u w edge => ?_⟩
  refine ⟨rfl, lineNetwork u, lineEdges, 0, rfl, ?_, fun _ _ => Iff.rfl,
    fun _ => linePaths_shortest edge⟩
  simp only [Adjacent, lineEdges, List.mem_cons, Prod.mk.injEq, List.not_mem_nil, or_false]
    at edge
  rcases edge with ⟨rfl, -⟩ | ⟨rfl, -⟩ <;> rfl

theorem line_walk : Walk (Adjacent lineEdges) 2 [1] [3] :=
  .cons (w := [2]) (by decide) (.cons (by decide) (.nil [3]))

theorem forwarded_line : ∃ d path, IsDist (Adjacent lineEdges) [1] [3] d ∧
    Route (fun u => (lineRouter u).hop 0 1 [3]) [3] [1] path ∧
    path.Nodup ∧ path.length ≤ d + 1 ∧
    (path.length = d + 1 ∨
      ∃ u ∈ path, (lineRouter u).nearby 0 1 [3] ∧ ¬ Adjacent lineEdges u [3]) ∧
    ((∀ u w, Adjacent lineEdges u w → ((lineRouter u).neighborhood.lookup w).isSome) →
      Route (fun u => ((lineRouter u).handleForward 0 1 [3]).next) [3] [1] path) ∧
    (lineRouter [3]).handleForward 0 1 [3] = .here :=
  @Shared.forwarded _ _ _ (fun _ => 0) 1 _ _ _ lineRouter_shared line_walk

/-- **A neighbor that the packets do not list yet is reached in one hop**, although its
distance is two. -/
theorem forwarded_shorter : Shared (fun _ => linePaths) (Adjacent lineEdges) lineRouter ∧
    IsDist (Adjacent lineEdges) [1] [3] 2 ∧
    ∀ path, Route (fun u => (lineRouter u).hop 0 1 [3]) [3] [1] path → path.length ≠ 2 + 1 := by
  refine ⟨lineRouter_shared, ⟨line_walk, fun n walk => walk.two_le (by decide) (by decide)⟩, ?_⟩
  intro path route
  have short : Route (fun u => (lineRouter u).hop 0 1 [3]) [3] [1] [[1], [3]] :=
    .hop (by decide) (by decide) .arrived
  rw [route.unique short]
  decide

end Shortcut

end LinkStateNetwork

end Prism.Routing
