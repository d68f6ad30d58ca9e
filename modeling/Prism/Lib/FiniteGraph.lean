import Prism.Lib.Bfs
import Prism.Lib.Undirected

/-!
Finite undirected graphs that are built edge by edge, and whether they are connected.

Every node is in the graph once, and every edge, whichever of its ends is named first. A graph is
connected when a search from its first node finds all nodes.

* `FiniteGraph.mem_pairs_addEdge`, `FiniteGraph.mem_nodes_addEdge`: what an edge adds.
* `FiniteGraph.isConnected_iff`: the search decides whether the graph is connected.
-/

namespace Prism.Lib

/-- A finite undirected graph. -/
structure FiniteGraph (α : Type) where
  nodes : List α
  edges : List (α × α)
  nodup : nodes.Nodup
  closed : ∀ e ∈ edges, e.1 ∈ nodes ∧ e.2 ∈ nodes

namespace FiniteGraph

variable {α : Type}

/-- The graph without nodes. -/
def empty : FiniteGraph α := ⟨[], [], List.nodup_nil, fun _ mem => absurd mem List.not_mem_nil⟩

/-- The edges, without an order of their ends. -/
def pairs (self : FiniteGraph α) : List (Sym2 α) := self.edges.map fun e => s(e.1, e.2)

/-- Edges in both directions. -/
def toDigraph (self : FiniteGraph α) : FiniteDigraph α where
  nodes := self.nodes
  edges := self.edges ++ self.edges.map Prod.swap
  nodup := self.nodup
  closed e mem := by
    rcases List.mem_append.mp mem with forth | back
    · exact self.closed e forth
    · obtain ⟨e', isEdge, rfl⟩ := List.mem_map.mp back
      exact (self.closed e' isEdge).symm

section Walks

variable {self : FiniteGraph α} {x y : α}

theorem mem_nodes_of_pair (edge : s(x, y) ∈ self.pairs) : x ∈ self.nodes ∧ y ∈ self.nodes := by
  obtain ⟨e, mem, same⟩ := List.mem_map.mp edge
  rcases Sym2.eq_iff.mp same with ⟨rfl, rfl⟩ | ⟨rfl, rfl⟩
  · exact self.closed e mem
  · exact (self.closed e mem).symm

theorem adj_iff : self.toDigraph.Adj x y ↔ s(x, y) ∈ self.pairs := by
  unfold FiniteDigraph.Adj toDigraph pairs
  rw [List.mem_append, List.mem_map, List.mem_map]
  constructor
  · rintro (mem | ⟨e, mem, same⟩)
    · exact ⟨(x, y), mem, rfl⟩
    · refine ⟨e, mem, ?_⟩
      rw [← Prod.swap_swap e, same]
      exact Sym2.eq_swap
  · rintro ⟨e, mem, same⟩
    rcases Sym2.eq_iff.mp same with ⟨rfl, rfl⟩ | ⟨rfl, rfl⟩
    · exact .inl mem
    · exact .inr ⟨e, mem, rfl⟩

/-- Walks of edges in both directions connect the same nodes. -/
theorem exists_walk_iff :
    (∃ n, Walk self.toDigraph.Adj n x y) ↔ (graphOf self.pairs).Reachable x y := by
  constructor
  · rintro ⟨n, walk⟩
    exact walk.carry (fun a b reached edge => reached.trans (reachable_of_edge (adj_iff.mp edge)))
      (SimpleGraph.Reachable.refl x)
  · rintro ⟨walk⟩
    induction walk with
    | nil => exact ⟨0, .nil _⟩
    | cons edge _ ih =>
        obtain ⟨n, rest⟩ := ih
        have pair := ((SimpleGraph.fromEdgeSet_adj _).mp edge).1
        exact ⟨n + 1, .cons (adj_iff.mpr pair) rest⟩

/-- What is connected with a node of the graph is one. -/
theorem mem_nodes_of_reachable (reached : (graphOf self.pairs).Reachable x y)
    (mem : x ∈ self.nodes) : y ∈ self.nodes := by
  obtain ⟨n, walk⟩ := exists_walk_iff.mpr reached
  exact walk.carry (fun a b _ edge => (mem_nodes_of_pair (adj_iff.mp edge)).2) mem

end Walks

variable [DecidableEq α] (self : FiniteGraph α)

/-- One more node. -/
def addNode (x : α) : FiniteGraph α :=
  if inside : x ∈ self.nodes then self
  else
    { nodes := self.nodes ++ [x]
      edges := self.edges
      nodup := List.nodup_append.mpr ⟨self.nodup, List.nodup_singleton x, by
        rintro y mem _ isNew rfl
        exact inside (List.mem_singleton.mp isNew ▸ mem)⟩
      closed := fun e mem => (self.closed e mem).imp (List.mem_append_left _)
        (List.mem_append_left _) }

/-- Some more nodes. -/
def addNodes (xs : List α) : FiniteGraph α := xs.foldl addNode self

theorem mem_nodes_addNode {x y : α} : y ∈ (self.addNode x).nodes ↔ y ∈ self.nodes ∨ y = x := by
  unfold addNode
  split_ifs with inside
  · constructor
    · exact .inl
    · rintro (mem | rfl)
      · exact mem
      · exact inside
  · rw [List.mem_append, List.mem_singleton]

theorem edges_addNode (x : α) : (self.addNode x).edges = self.edges := by
  unfold addNode
  split_ifs <;> rfl

/-- One more edge, with its ends. -/
def addEdge (x y : α) : FiniteGraph α :=
  if s(x, y) ∈ self.pairs then self
  else
    { (self.addNode x).addNode y with
      edges := self.edges ++ [(x, y)]
      closed := by
        intro e mem
        simp only [mem_nodes_addNode]
        rcases List.mem_append.mp mem with old | isNew
        · exact (self.closed e old).imp (fun h => .inl (.inl h)) (fun h => .inl (.inl h))
        · rw [List.mem_singleton.mp isNew]
          exact ⟨.inl (.inr rfl), .inr rfl⟩ }

/-- Edges from one node to some others. -/
def addStar (x : α) (ys : List α) : FiniteGraph α :=
  ys.foldl (fun graph y => graph.addEdge x y) self

/-- A search from the first node finds all nodes. -/
def isConnected : Bool :=
  match self.nodes with
  | [] => false
  | x :: _ => (self.toDigraph.eccentricity x).isSome

/-! ### Nodes and edges -/

variable {self} {x y z : α}

theorem mem_nodes_addEdge : z ∈ (self.addEdge x y).nodes ↔ z ∈ self.nodes ∨ z = x ∨ z = y := by
  unfold addEdge
  split_ifs with old
  · obtain ⟨isX, isY⟩ := mem_nodes_of_pair old
    constructor
    · exact .inl
    · rintro (mem | rfl | rfl)
      · exact mem
      · exact isX
      · exact isY
  · simp only [mem_nodes_addNode, or_assoc]

theorem mem_pairs_addEdge {e : Sym2 α} :
    e ∈ (self.addEdge x y).pairs ↔ e ∈ self.pairs ∨ e = s(x, y) := by
  unfold addEdge
  split_ifs with old
  · constructor
    · exact .inl
    · rintro (mem | rfl)
      · exact mem
      · exact old
  · simp only [pairs, List.map_append, List.mem_append, List.map_cons, List.map_nil,
      List.mem_singleton]

theorem mem_pairs_addStar {ys : List α} {e : Sym2 α} :
    e ∈ (self.addStar x ys).pairs ↔ e ∈ self.pairs ∨ ∃ y ∈ ys, e = s(x, y) := by
  induction ys generalizing self with
  | nil => simp [addStar]
  | cons y ys ih =>
      rw [addStar, List.foldl_cons, ← addStar, ih, mem_pairs_addEdge, or_assoc]
      simp

theorem mem_nodes_addNodes {xs : List α} :
    z ∈ (self.addNodes xs).nodes ↔ z ∈ self.nodes ∨ z ∈ xs := by
  induction xs generalizing self with
  | nil => simp [addNodes]
  | cons x xs ih =>
      rw [addNodes, List.foldl_cons, ← addNodes, ih, mem_nodes_addNode, List.mem_cons, or_assoc]

theorem edges_addNodes (xs : List α) : (self.addNodes xs).edges = self.edges := by
  induction xs generalizing self with
  | nil => rfl
  | cons x xs ih => rw [addNodes, List.foldl_cons, ← addNodes, ih, edges_addNode]

/-! ### Connected graphs -/

/-- **The search decides** whether there are nodes and all are connected. -/
theorem isConnected_iff : self.isConnected = true ↔
    self.nodes ≠ [] ∧ ∀ x ∈ self.nodes, ∀ y ∈ self.nodes, (graphOf self.pairs).Reachable x y := by
  unfold isConnected
  cases nodes : self.nodes with
  | nil => simp
  | cons first rest =>
      have isFirst : first ∈ self.toDigraph.nodes := by
        change first ∈ self.nodes
        rw [nodes]
        exact List.mem_cons_self
      have found : (self.toDigraph.eccentricity first).isSome = true ↔
          ∀ x ∈ first :: rest, (graphOf self.pairs).Reachable first x := by
        have all := FiniteDigraph.length_flatten_levels isFirst
        unfold FiniteDigraph.eccentricity
        rw [← nodes]
        constructor
        · intro some_ecc x isNode
          split_ifs at some_ecc with whole
          · obtain ⟨d, dist⟩ := all.mp whole x isNode
            exact exists_walk_iff.mp ⟨d, dist.walk⟩
          · cases some_ecc
        · intro reached
          rw [if_pos (all.mpr fun x isNode => ?_)]
          · rfl
          · obtain ⟨n, walk⟩ := exists_walk_iff.mpr (reached x isNode)
            obtain ⟨d, -, dist⟩ := walk.exists_isDist
            exact ⟨d, dist⟩
      rw [found, and_iff_right (List.cons_ne_nil first rest)]
      constructor
      · intro reached x isX y isY
        exact (reached x isX).symm.trans (reached y isY)
      · intro connected x isX
        exact connected first List.mem_cons_self x isX

end FiniteGraph

end Prism.Lib
