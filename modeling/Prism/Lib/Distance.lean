import Mathlib.Algebra.Order.Ring.Int
import Mathlib.Data.List.Chain
import Mathlib.Data.List.Nodup
import Mathlib.Data.Nat.Find
import Mathlib.Order.Basic
import Mathlib.Tactic.Ring

/-!
Distances in directed graphs, and routes that are found hop by hop.

A graph is a relation `adj` on any type. `Walk adj n u v` is a walk of `n` edges, and
`IsDist adj u v d` says that the shortest walks from `u` to `v` have `d` edges. A routing
function gives the next node on the way to a fixed target; `Route` is the way that it leads,
up to the target.

* `IsDist.step`: some neighbor is closer to the target.
* `Walk.exists_path`: the nodes of a walk, as a list.
* `BeginsLeast`: the nodes at which a best path goes on, by its length, its cost or another measure.
* `IsDist.last`: what is farther away has a neighbor at the distance before.
* `exists_route`: where every hop comes closer, or jumps to the target, the target is reached
  within the distance, and no node is visited twice.
-/

namespace Prism.Lib

variable {α : Type} {adj : α → α → Prop} {u v w : α} {n m d e : ℕ}

/-! ### Walks and distances -/

/-- A walk with `n` edges. -/
inductive Walk (adj : α → α → Prop) : ℕ → α → α → Prop
  | nil (u : α) : Walk adj 0 u u
  | cons {n : ℕ} {u w v : α} (edge : adj u w) (rest : Walk adj n w v) : Walk adj (n + 1) u v

theorem Walk.append (first : Walk adj n u w) (second : Walk adj m w v) :
    Walk adj (n + m) u v := by
  induction first with
  | nil => rwa [Nat.zero_add]
  | cons edge _ ih =>
      rw [Nat.succ_add]
      exact .cons edge (ih second)

theorem Walk.concat (first : Walk adj n u w) (edge : adj w v) : Walk adj (n + 1) u v :=
  first.append (.cons edge (.nil v))

@[simp] theorem walk_zero : Walk adj 0 u v ↔ u = v := by
  constructor
  · rintro ⟨⟩
    rfl
  · rintro rfl
    exact .nil u

theorem walk_one : Walk adj 1 u v ↔ adj u v := by
  constructor
  · rintro (_ | ⟨edge, rest⟩)
    rw [walk_zero] at rest
    exact rest ▸ edge
  · exact fun edge => .cons edge (.nil v)

/-- The last edge of a walk. -/
theorem Walk.last (walk : Walk adj (n + 1) u v) : ∃ w, Walk adj n u w ∧ adj w v := by
  induction n generalizing u with
  | zero => exact ⟨u, .nil u, walk_one.mp walk⟩
  | succ n ih =>
      obtain _ | ⟨edge, rest⟩ := walk
      obtain ⟨w, before, last⟩ := ih rest
      exact ⟨w, .cons edge before, last⟩

/-- What the edges carry on, a walk carries on. -/
theorem Walk.carry {P : α → Prop} (closed : ∀ a b, P a → adj a b → P b)
    (walk : Walk adj n u v) (start : P u) : P v := by
  induction walk with
  | nil => exact start
  | cons edge _ ih => exact ih (closed _ _ start edge)

/-- Between nodes without an edge a walk takes two steps. -/
theorem Walk.two_le (walk : Walk adj n u v) (ne : u ≠ v) (none : ¬ adj u v) : 2 ≤ n := by
  match n with
  | 0 => exact absurd (walk_zero.mp walk) ne
  | 1 => exact absurd (walk_one.mp walk) none
  | n + 2 => exact Nat.le_add_left 2 n

/-- A walk is a walk of the images, where edges are edges of the images. -/
theorem Walk.map {β : Type} {adj' : β → β → Prop} {f : α → β}
    (edges : ∀ a b, adj a b → adj' (f a) (f b)) (walk : Walk adj n u v) :
    Walk adj' n (f u) (f v) := by
  induction walk with
  | nil u => exact .nil (f u)
  | cons edge _ ih => exact .cons (edges _ _ edge) ih

/-- A walk from an image is a walk of images, where all edges from images are. -/
theorem Walk.lift {β : Type} {adj' : β → β → Prop} {f : α → β} {P : α → Prop}
    (back : ∀ a y, P a → adj' (f a) y → ∃ b, P b ∧ f b = y ∧ adj a b) {x y : β}
    (walk : Walk adj' n x y) (start : P u) (here : f u = x) :
    ∃ v, P v ∧ f v = y ∧ Walk adj n u v := by
  induction walk generalizing u with
  | nil x => exact ⟨u, start, here, .nil u⟩
  | cons edge _ ih =>
      obtain ⟨b, inside, there, first⟩ := back u _ start (here ▸ edge)
      obtain ⟨v, last, isEnd, rest⟩ := ih inside there
      exact ⟨v, last, isEnd, .cons first rest⟩

/-- The shortest walks from `u` to `v` have `d` edges. -/
structure IsDist (adj : α → α → Prop) (u v : α) (d : ℕ) : Prop where
  walk : Walk adj d u v
  least : ∀ n, Walk adj n u v → d ≤ n

theorem IsDist.unique (first : IsDist adj u v d) (second : IsDist adj u v e) : d = e :=
  Nat.le_antisymm (first.least e second.walk) (second.least d first.walk)

/-- What can be reached has a distance. -/
theorem Walk.exists_isDist (walk : Walk adj n u v) : ∃ d ≤ n, IsDist adj u v d := by
  classical
  have reachable : ∃ n, Walk adj n u v := ⟨n, walk⟩
  exact ⟨Nat.find reachable, Nat.find_min' reachable walk, Nat.find_spec reachable,
    fun _ other => Nat.find_min' reachable other⟩

theorem isDist_self (u : α) : IsDist adj u u 0 := ⟨.nil u, fun n _ => n.zero_le⟩

theorem isDist_zero : IsDist adj u v 0 ↔ u = v := by
  constructor
  · exact fun dist => walk_zero.mp dist.walk
  · rintro rfl
    exact isDist_self u

theorem IsDist.ne (dist : IsDist adj u v (d + 1)) : u ≠ v := by
  rintro rfl
  exact absurd (dist.unique (isDist_self u)) (Nat.succ_ne_zero d)

/-- An edge is a shortest walk between different nodes. -/
theorem isDist_one (edge : adj u v) (ne : u ≠ v) : IsDist adj u v 1 := by
  refine ⟨walk_one.mpr edge, fun n walk => Nat.one_le_iff_ne_zero.mpr ?_⟩
  rintro rfl
  exact ne (walk_zero.mp walk)

/-- The end of a shortest walk is a shortest walk. -/
theorem IsDist.rest (dist : IsDist adj u v (d + 1)) (edge : adj u w) (walk : Walk adj d w v) :
    IsDist adj w v d :=
  ⟨walk, fun n other => Nat.le_of_succ_le_succ (dist.least (n + 1) (.cons edge other))⟩

/-- **Some neighbor is closer** to where a walk goes. -/
theorem IsDist.step (dist : IsDist adj u v (d + 1)) : ∃ w, adj u w ∧ IsDist adj w v d := by
  obtain _ | ⟨edge, rest⟩ := id dist.walk
  exact ⟨_, edge, dist.rest edge rest⟩

/-- The beginning of a shortest walk is a shortest walk. -/
theorem IsDist.last (dist : IsDist adj u v (d + 1)) : ∃ w, IsDist adj u w d ∧ adj w v := by
  obtain ⟨w, walk, edge⟩ := dist.walk.last
  exact ⟨w, ⟨walk, fun n other => Nat.le_of_succ_le_succ (dist.least (n + 1) (other.concat edge))⟩,
    edge⟩

/-- A list of nodes, each adjacent to the next, is a walk. -/
theorem walk_of_chain {rest : List α} (chain : (u :: rest).IsChain adj)
    (last : (u :: rest).getLast? = some v) : Walk adj rest.length u v := by
  induction rest generalizing u with
  | nil =>
      obtain rfl : u = v := by simpa using last
      exact .nil u
  | cons w rest ih =>
      rw [List.isChain_cons_cons] at chain
      rw [List.getLast?_cons_cons] at last
      exact .cons chain.1 (ih chain.2 last)

/-! ### Paths and their measures -/

/-- A path from `u` to `v`, by the nodes after the first one. -/
structure IsPath (adj : α → α → Prop) (u v : α) (rest : List α) : Prop where
  chain : (u :: rest).IsChain adj
  last : (u :: rest).getLast? = some v

theorem IsPath.walk {rest : List α} (path : IsPath adj u v rest) : Walk adj rest.length u v :=
  walk_of_chain path.chain path.last

/-- **The nodes of a walk** make a path. -/
theorem Walk.exists_path (walk : Walk adj n u v) :
    ∃ rest, IsPath adj u v rest ∧ rest.length = n := by
  induction walk with
  | nil u => exact ⟨[], ⟨List.isChain_singleton u, rfl⟩, rfl⟩
  | @cons _ _ w _ edge _ ih =>
      obtain ⟨rest, ⟨chain, last⟩, length⟩ := ih
      exact ⟨w :: rest, ⟨List.isChain_cons_cons.mpr ⟨edge, chain⟩,
        by rwa [List.getLast?_cons_cons]⟩, congrArg Nat.succ length⟩

/-- The costs of the edges of a path, added up. -/
def pathCost (cost : α → α → ℤ) : List α → ℤ
  | u :: v :: rest => cost u v + pathCost cost (v :: rest)
  | _ => 0

/-- At this node a path from `u` to `v` goes on for which the measure is least. -/
def BeginsLeast (measure : List α → ℤ) (adj : α → α → Prop) (u v next : α) : Prop :=
  ∃ rest, IsPath adj u v (next :: rest) ∧
    ∀ other, IsPath adj u v other → measure (u :: next :: rest) ≤ measure (u :: other)

/-- The number of edges of a path is a measure. -/
def edgeCount (path : List α) : ℤ := path.length - 1

/-- A path with the fewest edges has as many as the distance. -/
theorem beginsLeast_edgeCount {next : α} : BeginsLeast edgeCount adj u v next ↔
    ∃ rest, IsPath adj u v (next :: rest) ∧
      ∀ n, Walk adj n u v → (next :: rest).length ≤ n := by
  refine exists_congr fun rest => and_congr_right fun _ => ?_
  constructor
  · intro least n walk
    obtain ⟨other, path, rfl⟩ := walk.exists_path
    have le := least other path
    simp only [edgeCount, List.length_cons] at le ⊢
    omega
  · intro least other path
    have le := least _ path.walk
    simp only [edgeCount, List.length_cons] at le ⊢
    omega

/-- **Where all edges cost the same**, a path costs as much as it has edges. -/
theorem pathCost_of_uniform {cost : α → α → ℤ} {c : ℤ} (uniform : ∀ u v, adj u v → cost u v = c)
    {rest : List α} (path : IsPath adj u v rest) : pathCost cost (u :: rest) = c * rest.length := by
  induction rest generalizing u with
  | nil => simp [pathCost]
  | cons w rest ih =>
      obtain ⟨chain, last⟩ := path
      rw [List.isChain_cons_cons] at chain
      rw [List.getLast?_cons_cons] at last
      rw [pathCost, uniform u w chain.1, ih ⟨chain.2, last⟩, List.length_cons]
      push_cast
      ring

/-- So the fewest edges cost the least. -/
theorem beginsLeast_of_uniform {cost : α → α → ℤ} {c : ℤ} (pos : 0 ≤ c)
    (uniform : ∀ u v, adj u v → cost u v = c) {next : α}
    (fewest : BeginsLeast edgeCount adj u v next) : BeginsLeast (pathCost cost) adj u v next := by
  obtain ⟨rest, path, least⟩ := fewest
  refine ⟨rest, path, fun other path' => ?_⟩
  rw [pathCost_of_uniform uniform path, pathCost_of_uniform uniform path']
  have le := least other path'
  simp only [edgeCount, List.length_cons] at le
  refine mul_le_mul_of_nonneg_left ?_ pos
  rw [List.length_cons]
  omega

/-! ### Routes -/

/-- The nodes from `u` on to the target `t`, each the next one for the node before it. -/
inductive Route (next : α → Option α) (t : α) : α → List α → Prop
  | arrived : Route next t t [t]
  | hop {u w : α} {rest : List α} (away : u ≠ t) (chosen : next u = some w)
      (route : Route next t w rest) : Route next t u (u :: rest)

variable {next : α → Option α} {t s : α} {path : List α}

/-- There is one way at most. -/
theorem Route.unique {other : List α} (route : Route next t s path)
    (route' : Route next t s other) : path = other := by
  induction route generalizing other with
  | arrived =>
      cases route' with
      | arrived => rfl
      | hop away => exact absurd rfl away
  | hop away chosen _ ih =>
      cases route' with
      | arrived => exact absurd rfl away
      | hop _ chosen' rest =>
          obtain rfl := Option.some.inj (chosen.symm.trans chosen')
          rw [ih rest]

/-- **Hop by hop.** Where the next node is closer to the target, or is the target, the target
is reached within the distance and no node is visited twice. It takes as many hops as the
distance, unless some node jumps to the target without an edge. -/
theorem exists_route
    (closer : ∀ u d, IsDist adj u t (d + 1) → ∃ w, next u = some w ∧
      (IsDist adj w t d ∨ w = t)) (dist : IsDist adj s t d) :
    ∃ path, Route next t s path ∧ path.Nodup ∧ path.length ≤ d + 1 ∧
      (∀ u ∈ path, ∃ k ≤ d, IsDist adj u t k) ∧
      (path.length = d + 1 ∨ ∃ u ∈ path, u ≠ t ∧ next u = some t ∧ ¬ adj u t) := by
  induction d generalizing s with
  | zero =>
      obtain rfl := isDist_zero.mp dist
      refine ⟨[s], .arrived, List.nodup_singleton s, le_rfl, ?_, .inl rfl⟩
      rintro u mem
      rw [List.mem_singleton.mp mem]
      exact ⟨0, le_rfl, dist⟩
  | succ d ih =>
      obtain ⟨w, chosen, near⟩ := closer s d dist
      by_cases jump : w = t ∧ ¬ adj s t
      · obtain ⟨rfl, edge⟩ := jump
        refine ⟨[s, w], .hop dist.ne chosen .arrived, ?_, by simp, ?_,
          .inr ⟨s, by simp, dist.ne, chosen, edge⟩⟩
        · simpa using dist.ne
        · intro u mem
          rcases List.mem_cons.mp mem with rfl | last
          · exact ⟨d + 1, le_rfl, dist⟩
          · rw [List.mem_singleton.mp last]
            exact ⟨0, Nat.zero_le _, isDist_self w⟩
      · have rest : IsDist adj w t d := by
          rcases near with near | rfl
          · exact near
          · have edge : adj s w := not_not.mp fun none => jump ⟨rfl, none⟩
            obtain rfl : d = 0 := Nat.succ.inj (dist.unique (isDist_one edge dist.ne))
            exact isDist_self w
        obtain ⟨path, route, nodup, short, dists, exact⟩ := ih rest
        refine ⟨s :: path, .hop dist.ne chosen route, ?_, ?_, ?_, ?_⟩
        · refine List.nodup_cons.mpr ⟨fun mem => ?_, nodup⟩
          obtain ⟨k, le, other⟩ := dists s mem
          have := other.unique dist
          omega
        · rw [List.length_cons]
          omega
        · intro u mem
          rcases List.mem_cons.mp mem with rfl | mem
          · exact ⟨d + 1, le_rfl, dist⟩
          · obtain ⟨k, le, here⟩ := dists u mem
            exact ⟨k, le.trans d.le_succ, here⟩
        · rcases exact with length | ⟨u, mem, jumps⟩
          · exact .inl (by rw [List.length_cons, length])
          · exact .inr ⟨u, List.mem_cons_of_mem s mem, jumps⟩

end Prism.Lib
