import Prism.Routing.CurrentTable

/-!
What the routes of a router cost (`_update_routing_table` in `prism/server/routing/network.py`).

The costs that the packets announce are collected by edge, and the edges are added to the graph with
them. The shortest paths are then asked for without a weight, so that they are those with the fewest
edges, whatever they cost.

* `lookup_costs`: every edge of the graph has a cost, the one that was announced last.
* `cheapest_iff`: the networks in which every route is a cheapest one.
* `dear_edge`: a network in which a route goes over one dear edge instead of two cheap ones.
-/

namespace Prism.Routing

open Prism.Lib

namespace LinkStateNetwork

/-! ### Costs -/

/-- The edges of one packet, with their costs: an expired one is not read. -/
def costsOf (now : ℤ) (source : Option Bytes) (lsp : Lsp) :
    Py (List ((Option Bytes × Bytes) × ℤ)) :=
  match lsp.neighbors with
  | none => .error .typeError
  | some neighbors =>
    if lsp.unexpired now then
      neighbors.mapM fun neighbor =>
        match neighbor with
        | some neighbor => .ok ((source, neighbor.pseudonym), neighbor.cost)
        | none => .error .attributeError
    else .ok []

/-- `cost_by_directional_edges`: the last cost of an edge counts. -/
def costByDirectionalEdges (self : LinkStateNetwork) (now : ℤ) :
    Py (List ((Option Bytes × Bytes) × ℤ)) := do
  let costs ← self.database.mapM fun (source, lsp) => costsOf now source lsp
  return dictOf costs.flatten

/-- The cost that is announced for an edge. -/
def announcedCost (self : LinkStateNetwork) (now : ℤ) (u v : Bytes) : ℤ :=
  match self.costByDirectionalEdges now with
  | .ok costs => (costs.lookup (some u, v)).getD 0
  | .error _ => 0

variable {now : ℤ} {self : LinkStateNetwork} {edges : Edges}
  {costs : List ((Option Bytes × Bytes) × ℤ)}

/-- The last item of a key is the one that is found. -/
theorem lookup_dictOf {κ β : Type} [DecidableEq κ] [BEq κ] [LawfulBEq κ] (items : List (κ × β))
    (k : κ) :
    (dictOf items).lookup k = items.reverse.lookup k := by
  induction items using List.reverseRecOn with
  | nil => rfl
  | append_singleton items e ih =>
      have last : dictOf (items ++ [e]) = dictSet (dictOf items) e.1 e.2 := by
        rw [dictOf, List.foldl_append]
        rfl
      rw [last, lookup_dictSet, ih, List.reverse_append, List.reverse_singleton,
        List.singleton_append, List.lookup_cons]
      by_cases same : k = e.1
      · simp [same]
      · rw [if_neg same, beq_eq_false_iff_ne.mpr same]

theorem mem_costsOf {source : Option Bytes} {lsp : Lsp}
    {found : List ((Option Bytes × Bytes) × ℤ)} (run : costsOf now source lsp = .ok found)
    (edge : Option Bytes × Bytes) (cost : ℤ) :
    (edge, cost) ∈ found ↔ edge.1 = source ∧ lsp.unexpired now ∧
      ∃ neighbors, lsp.neighbors = some neighbors ∧ some ⟨edge.2, cost⟩ ∈ neighbors := by
  unfold costsOf at run
  split at run
  · cases run
  · next neighbors listed =>
      split_ifs at run with unexpired
      · obtain ⟨called, returned⟩ := mem_mapM run
        constructor
        · intro mem
          obtain ⟨neighbor, inList, eq⟩ := returned _ mem
          cases neighbor with
          | none => cases eq
          | some neighbor =>
              cases eq
              exact ⟨rfl, unexpired, neighbors, listed, inList⟩
        · rintro ⟨rfl, -, neighbors', listed', inList⟩
          obtain rfl := Option.some.inj (listed.symm.trans listed')
          obtain ⟨entry, mem, eq⟩ := called _ inList
          obtain rfl := Except.ok.inj eq
          exact mem
      · obtain rfl := Except.ok.inj run
        simp [unexpired]

/-- **The edges that packets list are those with a cost.** -/
theorem lookup_costs (run : self.costByDirectionalEdges now = .ok costs) (u v : Bytes) :
    self.Lists now u v ↔ ∃ cost, costs.lookup (some u, v) = some cost := by
  obtain ⟨found, each, run⟩ := bind_eq_ok.mp run
  obtain rfl := Except.ok.inj run
  obtain ⟨called, returned⟩ := mem_mapM each
  rw [lookup_dictOf]
  constructor
  · rintro ⟨lsp, inDatabase, unexpired, neighbors, listed, cost, inList⟩
    obtain ⟨items, mem, eq⟩ := called _ inDatabase
    have inside : ((some u, v), cost) ∈ items :=
      (mem_costsOf eq _ cost).mpr ⟨rfl, unexpired, neighbors, listed, inList⟩
    have item := List.mem_reverse.mpr (List.mem_flatten.mpr ⟨items, mem, inside⟩)
    rw [← Option.isSome_iff_exists, List.lookup_isSome_iff]
    exact ⟨_, item, by simp⟩
  · rintro ⟨cost, at_key⟩
    have item := List.mem_reverse.mp (mem_of_lookup at_key)
    obtain ⟨items, mem, inside⟩ := List.mem_flatten.mp item
    obtain ⟨⟨source, lsp⟩, inDatabase, eq⟩ := returned items mem
    obtain ⟨rfl, unexpired, neighbors, listed, inList⟩ := (mem_costsOf eq _ cost).mp inside
    exact ⟨lsp, inDatabase, unexpired, neighbors, listed, cost, inList⟩

/-! ### Paths that can be found -/

/-- **Every path with the fewest edges can be found**, together with paths to all other nodes. -/
theorem exists_shortestPaths {source target : Bytes} {rest : List Bytes}
    (path : IsPath (Adjacent edges) source target rest)
    (least : ∀ n, Walk (Adjacent edges) n source target → rest.length ≤ n) :
    ∃ paths, ShortestPaths edges source paths ∧ (target, source :: rest) ∈ paths := by
  classical
  have each : ∀ v, (∃ n, Walk (Adjacent edges) n source v) → ∃ found,
      IsPath (Adjacent edges) source v found ∧
        ∀ n, Walk (Adjacent edges) n source v → found.length ≤ n := by
    rintro v ⟨n, walk⟩
    obtain ⟨d, -, dist⟩ := walk.exists_isDist
    obtain ⟨found, isPath, rfl⟩ := dist.walk.exists_path
    exact ⟨found, isPath, dist.least⟩
  choose! found isPath fewest using each
  set chosen := fun v => if v = target then rest else found v with hchosen
  set nodes := (source :: edges.map Prod.snd).dedup.filter
    fun v => ∃ n, Walk (Adjacent edges) n source v with hnodes
  have known : ∀ v n, Walk (Adjacent edges) n source v → v ∈ nodes := by
    intro v n walk
    rw [hnodes, List.mem_filter, List.mem_dedup]
    refine ⟨?_, by simpa using ⟨n, walk⟩⟩
    cases n with
    | zero => rw [walk_zero.mp walk]; exact List.mem_cons_self
    | succ n =>
        obtain ⟨w, -, edge⟩ := walk.last
        exact List.mem_cons_of_mem _ (List.mem_map.mpr ⟨(w, v), edge, rfl⟩)
  have right : ∀ v ∈ nodes, IsPath (Adjacent edges) source v (chosen v) ∧
      ∀ n, Walk (Adjacent edges) n source v → (chosen v).length ≤ n := by
    intro v mem
    have reached : ∃ n, Walk (Adjacent edges) n source v := by
      simpa using (List.mem_filter.mp mem).2
    by_cases same : v = target
    · subst same
      simpa [hchosen] using ⟨path, least⟩
    · simpa [hchosen, same] using ⟨isPath v reached, fewest v reached⟩
  refine ⟨nodes.map fun v => (v, source :: chosen v), ⟨?_, ?_, ?_⟩, ?_⟩
  · rw [List.map_map]
    simpa [Function.comp_def] using (List.nodup_dedup _).filter _
  · intro v route mem
    obtain ⟨v', inside, same⟩ := List.mem_map.mp mem
    cases same
    obtain ⟨⟨chain, last⟩, few⟩ := right _ inside
    exact ⟨_, rfl, chain, last, few⟩
  · intro v n walk
    exact List.mem_map.mpr ⟨_, List.mem_map_of_mem (known v n walk), rfl⟩
  · exact List.mem_map.mpr ⟨target, known target _ path.walk, by simp [hchosen]⟩

/-! ### Cheapest routes -/

/-- **What the routing table should be**, whatever paths with the fewest edges are found: the first
hop to a target begins a path of least cost. -/
def StoresCheapest (self : LinkStateNetwork) (now : ℤ) (edges : Edges) : Prop :=
  ∀ shortestPath : ShortestPath,
    ShortestPaths edges self.pseudonym (shortestPath edges self.pseudonym) →
    ∀ after, self.updateRoutingTable shortestPath now = .ok after →
    ∀ target next, after.routingTable.lookup target = some next →
      BeginsLeast (pathCost (self.announcedCost now)) (Adjacent edges) self.pseudonym target next

/-- **The routes cost the least** exactly when, for every other router, each neighbor that begins a
path with the fewest edges begins a path of least cost. -/
theorem cheapest_iff (run : self.edges now = .ok edges) (node : hasNode edges self.pseudonym) :
    self.StoresCheapest now edges ↔
      ∀ target next, target ≠ self.pseudonym →
        BeginsLeast edgeCount (Adjacent edges) self.pseudonym target next →
        BeginsLeast (pathCost (self.announcedCost now)) (Adjacent edges) self.pseudonym target
          next := by
  have computed : ∀ shortestPath, self.updateRoutingTable shortestPath now =
      .ok (self.withTable (shortestPath edges self.pseudonym)) := by
    intro shortestPath
    rw [updateRoutingTable, run, ok_bind, if_pos node]
    rfl
  constructor
  · intro stores target next other begins
    obtain ⟨rest, path, least⟩ := beginsLeast_edgeCount.mp begins
    obtain ⟨paths, shortest, mem⟩ := exists_shortestPaths path least
    refine stores (fun _ _ => paths) shortest _ (computed _) target next ?_
    exact (lookup_tableOf shortest.nodup).mpr ⟨other, self.pseudonym, rest, mem⟩
  · intro least shortestPath shortest after updated target next found
    rw [computed] at updated
    cases updated
    obtain ⟨other, first, rest, mem⟩ := (lookup_tableOf shortest.nodup).mp found
    obtain ⟨rest', shape, chain, last, few⟩ := shortest.path target _ mem
    cases shape
    exact least target next other (beginsLeast_edgeCount.mpr ⟨rest, ⟨chain, last⟩, few⟩)

/-! ### A dear edge -/

/-- A packet with the neighbors of a router and their costs. -/
def pricedPacket (source : Bytes) (neighbors : List NeighborInfo) : Option Bytes × Lsp :=
  (some source, { pseudonym := some source, microTimestamp := 0, ttl := 60,
                  neighbors := some (neighbors.map some) })

/-- The router 1 reaches the router 2 over an edge, and over the router 3. -/
def triangle (direct : ℤ) : LinkStateNetwork where
  pseudonym := [1]
  neighborhood := []
  database := [pricedPacket [1] [⟨[2], direct⟩, ⟨[3], 1⟩], pricedPacket [3] [⟨[2], 1⟩]]

/-- Its edges. -/
def triangleEdges : Edges := [([1], [2]), ([1], [3]), ([3], [2])]

/-- Where every edge costs the same, the routes cost the least. -/
theorem even_edges : (triangle 1).StoresCheapest 0 triangleEdges := by
  refine (cheapest_iff rfl (by decide)).mpr fun target next _ begins => ?_
  refine beginsLeast_of_uniform (c := 1) (by decide) (fun u v edge => ?_) begins
  simp only [Adjacent, triangleEdges, List.mem_cons, Prod.mk.injEq, List.not_mem_nil,
    or_false] at edge
  rcases edge with ⟨rfl, rfl⟩ | ⟨rfl, rfl⟩ | ⟨rfl, rfl⟩ <;> rfl

/-- **A dear edge**: the router 2 is reached over the edge that costs ten, although the way over
the router 3 costs two. -/
theorem dear_edge : (triangle 10).edges 0 = .ok triangleEdges ∧
    ¬ (triangle 10).StoresCheapest 0 triangleEdges := by
  refine ⟨rfl, fun stores => ?_⟩
  have direct : IsPath (Adjacent triangleEdges) [1] [2] [[2]] := ⟨by simp; decide, rfl⟩
  have least : ∀ n, Walk (Adjacent triangleEdges) n [1] [2] → 1 ≤ n := by
    intro n walk
    refine Nat.one_le_iff_ne_zero.mpr ?_
    rintro rfl
    exact absurd (walk_zero.mp walk) (by decide)
  obtain ⟨paths, shortest, mem⟩ := exists_shortestPaths direct least
  have computed : (triangle 10).updateRoutingTable (fun _ _ => paths) 0 =
      .ok ((triangle 10).withTable paths) := rfl
  obtain ⟨rest, path, cheapest⟩ := stores (fun _ _ => paths) shortest _ computed [2] [2]
    ((lookup_tableOf shortest.nodup).mpr ⟨by decide, [1], [], mem⟩)
  have around := cheapest [[3], [2]] ⟨by simp; decide, rfl⟩
  cases rest with
  | nil => exact absurd around (by decide)
  | cons w rest =>
      -- no edge leads away from the router 2
      have edge := (List.isChain_cons_cons.mp (List.isChain_cons_cons.mp path.chain).2).1
      simp [Adjacent, triangleEdges] at edge

end LinkStateNetwork

end Prism.Routing
