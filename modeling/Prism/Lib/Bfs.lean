import Mathlib.Data.List.Dedup
import Mathlib.Data.List.FinRange
import Mathlib.Data.List.Perm.Subperm
import Prism.Lib.Distance

/-!
Breadth-first search in finite directed graphs, and the diameter.

A `FiniteDigraph` has finitely many nodes, and its edges are between them. A search goes level by
level:
the next level are the successors of the last one that were not seen before.

* `FiniteDigraph.mem_levels`: the levels of a search are the nodes by their distances.
* `FiniteDigraph.eccentricity_eq_some`: the farthest node, when all nodes can be reached.
* `FiniteDigraph.diameter_eq_some`: the largest distance, when every node can be reached from every
  node.
-/

namespace Prism.Lib

/-! ### Graphs -/

/-- A finite directed graph. -/
structure FiniteDigraph (α : Type) where
  nodes : List α
  edges : List (α × α)
  nodup : nodes.Nodup
  closed : ∀ e ∈ edges, e.1 ∈ nodes ∧ e.2 ∈ nodes

namespace FiniteDigraph

variable {α : Type} (self : FiniteDigraph α)

/-- There is an edge. -/
def Adj (u v : α) : Prop := (u, v) ∈ self.edges

section Distances

variable {self} {u v : α} {d k n : ℕ}

theorem mem_of_walk (walk : Walk self.Adj n u v) (mem : u ∈ self.nodes) : v ∈ self.nodes :=
  walk.carry (fun _ _ _ edge => (self.closed _ edge).2) mem

/-- A shortest walk passes all distances. -/
theorem exists_isDist_before {i : ℕ} (dist : IsDist self.Adj u v (k + i)) :
    ∃ w, IsDist self.Adj u w k := by
  induction i generalizing v with
  | zero => exact ⟨v, dist⟩
  | succ i ih =>
      obtain ⟨w, before, -⟩ := dist.last
      exact ih before

/-- In a finite graph, distances are below the number of nodes. -/
theorem isDist_lt (mem : u ∈ self.nodes) (dist : IsDist self.Adj u v d) : d < self.nodes.length := by
  have passes : ∀ i : Fin (d + 1), ∃ w, IsDist self.Adj u w i := fun i =>
    exists_isDist_before (show IsDist self.Adj u v (i + (d - i)) by
      rwa [Nat.add_sub_cancel' (Nat.le_of_lt_succ i.isLt)])
  choose nodeAt reached using passes
  have distinct : Function.Injective nodeAt := fun i j same =>
    Fin.ext ((same ▸ reached i).unique (reached j))
  have nodup : (List.ofFn nodeAt).Nodup := List.nodup_ofFn.mpr distinct
  have inside : List.ofFn nodeAt ⊆ self.nodes := by
    intro w isAt
    obtain ⟨i, rfl⟩ := List.mem_ofFn.mp isAt
    exact mem_of_walk (reached i).walk mem
  have le := (List.subperm_of_subset nodup inside).length_le
  rw [List.length_ofFn] at le
  exact le

/-- The search from a node has come to a distance. -/
structure Searched (graph : FiniteDigraph α) (u : α) (k : ℕ) (seen level : List α) : Prop where
  seen_iff : ∀ v, v ∈ seen ↔ ∃ d ≤ k, IsDist graph.Adj u v d
  level_iff : ∀ v, v ∈ level ↔ IsDist graph.Adj u v k
  nodup : level.Nodup

theorem searched_start (self : FiniteDigraph α) (u : α) : Searched self u 0 [u] [u] := by
  refine ⟨fun v => ?_, fun v => ?_, List.nodup_singleton u⟩
  · simp only [Nat.le_zero, exists_eq_left, isDist_zero, List.mem_singleton, eq_comm]
  · rw [isDist_zero, List.mem_singleton, eq_comm]

end Distances

/-! ### Searches -/

variable [DecidableEq α]

/-- The nodes that the edges from a node lead to. -/
def successors (u : α) : List α := (self.edges.filter (·.1 = u)).map Prod.snd

/-- The successors of a level that were not seen before. -/
def nextLevel (seen level : List α) : List α :=
  ((level.flatMap self.successors).filter (· ∉ seen)).dedup

/-- The levels of a search, from one level on. -/
def levelsFrom : ℕ → List α → List α → List (List α)
  | 0, _, _ => []
  | n + 1, seen, level =>
      match level with
      | [] => []
      | _ :: _ =>
          let next := self.nextLevel seen level
          level :: levelsFrom n (seen ++ next) next

/-- The levels of the search from a node. -/
def levels (u : α) : List (List α) := self.levelsFrom self.nodes.length [u] [u]

/-- The distance of the farthest node, if all nodes can be reached. -/
def eccentricity (u : α) : Option ℕ :=
  if ((self.levels u).map List.length).sum = self.nodes.length then
    some ((self.levels u).length - 1)
  else none

/-- The largest distance, if every node can be reached from every node. -/
def diameter : Option ℕ :=
  if self.nodes.all fun u => (self.eccentricity u).isSome then
    (self.nodes.filterMap self.eccentricity).max?
  else none

/-! ### Levels and distances -/

variable {self} {u v w : α} {d k n : ℕ} {seen level : List α}

theorem mem_successors : v ∈ self.successors u ↔ self.Adj u v := by
  simp [successors, Adj]

theorem mem_nextLevel :
    v ∈ self.nextLevel seen level ↔ (∃ w ∈ level, self.Adj w v) ∧ v ∉ seen := by
  simp [nextLevel, mem_successors]

/-- **One level further**, the distance is greater by one. -/
theorem Searched.next (searched : Searched self u k seen level) :
    Searched self u (k + 1) (seen ++ self.nextLevel seen level) (self.nextLevel seen level) := by
  have far : ∀ v, v ∈ self.nextLevel seen level ↔ IsDist self.Adj u v (k + 1) := by
    intro v
    rw [mem_nextLevel, searched.seen_iff]
    constructor
    · rintro ⟨⟨w, mem, edge⟩, unseen⟩
      have walk := ((searched.level_iff w).mp mem).walk.concat edge
      obtain ⟨d, le, dist⟩ := walk.exists_isDist
      have gt : k < d := not_le.mp fun le => unseen ⟨d, le, dist⟩
      rwa [show d = k + 1 by omega] at dist
    · intro dist
      obtain ⟨w, before, edge⟩ := dist.last
      refine ⟨⟨w, (searched.level_iff w).mpr before, edge⟩, ?_⟩
      rintro ⟨d, le, other⟩
      have := dist.unique other
      omega
  refine ⟨fun v => ?_, far, List.nodup_dedup _⟩
  rw [List.mem_append, searched.seen_iff, far]
  constructor
  · rintro (⟨d, le, dist⟩ | dist)
    · exact ⟨d, by omega, dist⟩
    · exact ⟨k + 1, le_rfl, dist⟩
  · rintro ⟨d, le, dist⟩
    rcases Nat.lt_or_eq_of_le le with lt | rfl
    · exact .inl ⟨d, by omega, dist⟩
    · exact .inr dist

theorem levelsFrom_sound (searched : Searched self u k seen level) {i : ℕ} {xs : List α}
    (found : (self.levelsFrom n seen level)[i]? = some xs) :
    xs.Nodup ∧ xs ≠ [] ∧ ∀ v, v ∈ xs ↔ IsDist self.Adj u v (k + i) := by
  induction n generalizing k i seen level with
  | zero => cases found
  | succ n ih =>
      rcases level with _ | ⟨x, level⟩
      · cases found
      · cases i with
        | zero =>
            obtain rfl := Option.some.inj found
            exact ⟨searched.nodup, List.cons_ne_nil x level, searched.level_iff⟩
        | succ i =>
            rw [Nat.add_comm i, ← Nat.add_assoc]
            exact ih searched.next found

theorem levelsFrom_complete (searched : Searched self u k seen level) {i : ℕ} (lt : i < n)
    (dist : IsDist self.Adj u v (k + i)) :
    ∃ xs, (self.levelsFrom n seen level)[i]? = some xs ∧ v ∈ xs := by
  induction n generalizing k i seen level with
  | zero => exact absurd lt (Nat.not_lt_zero i)
  | succ n ih =>
      obtain ⟨w, before⟩ := exists_isDist_before dist
      rcases level with _ | ⟨x, level⟩
      · cases (searched.level_iff w).mpr before
      · cases i with
        | zero => exact ⟨_, rfl, (searched.level_iff v).mpr dist⟩
        | succ i =>
            rw [Nat.add_comm i, ← Nat.add_assoc] at dist
            exact ih searched.next (Nat.lt_of_succ_lt_succ lt) dist

/-- **The levels are the nodes by their distances.** -/
theorem mem_levels (mem : u ∈ self.nodes) :
    (∃ xs, (self.levels u)[d]? = some xs ∧ v ∈ xs) ↔ IsDist self.Adj u v d := by
  constructor
  · rintro ⟨xs, found, inside⟩
    rw [← Nat.zero_add d]
    exact ((levelsFrom_sound (searched_start self u) found).2.2 v).mp inside
  · intro dist
    rw [← Nat.zero_add d] at dist
    have lt := isDist_lt mem dist
    rw [Nat.zero_add] at lt
    exact levelsFrom_complete (searched_start self u) lt dist

theorem mem_flatten_levels (mem : u ∈ self.nodes) :
    v ∈ (self.levels u).flatten ↔ ∃ d, IsDist self.Adj u v d := by
  rw [List.mem_flatten]
  constructor
  · rintro ⟨xs, isLevel, inside⟩
    obtain ⟨d, found⟩ := List.mem_iff_getElem?.mp isLevel
    exact ⟨d, (mem_levels mem).mp ⟨xs, found, inside⟩⟩
  · rintro ⟨d, dist⟩
    obtain ⟨xs, found, inside⟩ := (mem_levels mem).mpr dist
    exact ⟨xs, List.mem_of_getElem? found, inside⟩

theorem nodup_flatten_levels (self : FiniteDigraph α) (u : α) : (self.levels u).flatten.Nodup := by
  rw [List.nodup_flatten, List.pairwise_iff_getElem]
  constructor
  · intro xs inside
    obtain ⟨i, found⟩ := List.mem_iff_getElem?.mp inside
    exact (levelsFrom_sound (searched_start self u) found).1
  · intro i j hi hj lt v first second
    have near := levelsFrom_sound (searched_start self u) (List.getElem?_eq_getElem hi)
    have far := levelsFrom_sound (searched_start self u) (List.getElem?_eq_getElem hj)
    have := ((near.2.2 v).mp first).unique ((far.2.2 v).mp second)
    omega

/-- All nodes are counted in the levels exactly when all nodes can be reached. -/
theorem length_flatten_levels (mem : u ∈ self.nodes) :
    ((self.levels u).map List.length).sum = self.nodes.length ↔
      ∀ v ∈ self.nodes, ∃ d, IsDist self.Adj u v d := by
  have inside : (self.levels u).flatten ⊆ self.nodes := by
    intro v found
    obtain ⟨d, dist⟩ := (mem_flatten_levels mem).mp found
    exact mem_of_walk dist.walk mem
  have sub := List.subperm_of_subset (nodup_flatten_levels self u) inside
  rw [← List.length_flatten]
  constructor
  · intro all v isNode
    have same := sub.perm_of_length_le all.ge
    exact (mem_flatten_levels mem).mp (same.mem_iff.mpr isNode)
  · intro reached
    refine Nat.le_antisymm sub.length_le ?_
    exact (List.subperm_of_subset self.nodup fun v isNode =>
      (mem_flatten_levels mem).mpr (reached v isNode)).length_le

/-! ### Eccentricities and the diameter -/

theorem eccentricity_eq_some (mem : u ∈ self.nodes) : self.eccentricity u = some d ↔
    (∀ v ∈ self.nodes, ∃ k ≤ d, IsDist self.Adj u v k) ∧
      ∃ v ∈ self.nodes, IsDist self.Adj u v d := by
  have below {v : α} {k : ℕ} (dist : IsDist self.Adj u v k) : k < (self.levels u).length := by
    obtain ⟨xs, found, -⟩ := (mem_levels mem).mpr dist
    exact (List.getElem?_eq_some_iff.mp found).1
  have start := below (isDist_self u)
  obtain ⟨last, found⟩ : ∃ last, (self.levels u)[(self.levels u).length - 1]? = some last :=
    ⟨_, List.getElem?_eq_getElem (by omega)⟩
  obtain ⟨-, some_last, -⟩ := levelsFrom_sound (searched_start self u) found
  obtain ⟨v, inLast⟩ := List.exists_mem_of_ne_nil last some_last
  have farthest := (mem_levels mem).mp ⟨last, found, inLast⟩
  unfold eccentricity
  constructor
  · intro run
    split_ifs at run with all
    obtain rfl := Option.some.inj run
    refine ⟨fun w isNode => ?_, v, mem_of_walk farthest.walk mem, farthest⟩
    obtain ⟨k, dist⟩ := (length_flatten_levels mem).mp all w isNode
    have := below dist
    exact ⟨k, by omega, dist⟩
  · rintro ⟨all, w, isNode, dist⟩
    rw [if_pos ((length_flatten_levels mem).mpr fun x isNode => (all x isNode).imp fun k h => h.2)]
    obtain ⟨k, le, other⟩ := all v (mem_of_walk farthest.walk mem)
    have := other.unique farthest
    have := below dist
    rw [show (self.levels u).length - 1 = d by omega]

/-- **The diameter** is the largest distance of two nodes. There is one when there are nodes, and
every node can be reached from every node. -/
theorem diameter_eq_some : self.diameter = some d ↔
    (∀ u ∈ self.nodes, ∀ v ∈ self.nodes, ∃ k ≤ d, IsDist self.Adj u v k) ∧
      ∃ u ∈ self.nodes, ∃ v ∈ self.nodes, IsDist self.Adj u v d := by
  unfold diameter
  constructor
  · intro run
    split_ifs at run with all
    obtain ⟨isOne, greatest⟩ := List.max?_eq_some_iff.mp run
    have far : ∀ u ∈ self.nodes, ∃ e ≤ d, self.eccentricity u = some e := by
      intro u mem
      obtain ⟨e, found⟩ := Option.isSome_iff_exists.mp (List.all_eq_true.mp all u mem)
      exact ⟨e, greatest e (List.mem_filterMap.mpr ⟨u, mem, found⟩), found⟩
    constructor
    · intro u mem v isNode
      obtain ⟨e, le, found⟩ := far u mem
      obtain ⟨k, le', dist⟩ := ((eccentricity_eq_some mem).mp found).1 v isNode
      exact ⟨k, le'.trans le, dist⟩
    · obtain ⟨u, mem, found⟩ := List.mem_filterMap.mp isOne
      exact ⟨u, mem, ((eccentricity_eq_some mem).mp found).2⟩
  · rintro ⟨near, u, mem, v, isNode, dist⟩
    have far : ∀ w ∈ self.nodes, ∃ e ≤ d, self.eccentricity w = some e := by
      intro w here
      have some_far : ((self.levels w).map List.length).sum = self.nodes.length :=
        (length_flatten_levels here).mpr fun x there => (near w here x there).imp fun k h => h.2
      have found : self.eccentricity w = some ((self.levels w).length - 1) := if_pos some_far
      obtain ⟨x, there, farthest⟩ := ((eccentricity_eq_some here).mp found).2
      obtain ⟨k, le, other⟩ := near w here x there
      exact ⟨_, farthest.unique other ▸ le, found⟩
    rw [if_pos (List.all_eq_true.mpr fun w here => by
      obtain ⟨e, -, found⟩ := far w here
      rw [found]
      rfl)]
    refine List.max?_eq_some_iff.mpr ⟨List.mem_filterMap.mpr ⟨u, mem, ?_⟩, ?_⟩
    · refine (eccentricity_eq_some mem).mpr ⟨fun x there => near u mem x there, v, isNode, dist⟩
    · intro e isOne
      obtain ⟨w, here, found⟩ := List.mem_filterMap.mp isOne
      obtain ⟨e', le, found'⟩ := far w here
      rw [found] at found'
      exact (Option.some.inj found') ▸ le

end FiniteDigraph

end Prism.Lib
