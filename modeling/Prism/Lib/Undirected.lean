import Mathlib.Combinatorics.SimpleGraph.Connectivity.Connected
import Mathlib.Data.List.Rotate
import Mathlib.Data.List.Sym

/-!
Undirected graphs that are given by the lists of their edges.

A list can be closed to a ring, with an edge from every member to the one that comes `k` places
later. The pairs of a list are each of its members with each later one.

* `Connects.concat`: an edge connects one more node.
* `reachable_around`: a ring connects its members.
* `countP_around_le`: every member has two edges of a ring at most.
* `nodup_pairs`, `mem_pairs`: every two members of a list are one pair.
* `foldlM_pairs`: two nested loops go over the pairs.
-/

namespace Prism.Lib

/-- Edges are compared by their ends. -/
instance lawfulBEqSym2 {α : Type} [DecidableEq α] : LawfulBEq (Sym2 α) := inferInstance

variable {α : Type} {edges : List (Sym2 α)} {xs : List α} {x y : α} {k : ℕ}

/-! ### Edges -/

/-- The graph with some edges. An edge from a node to itself adds nothing. -/
def graphOf (edges : List (Sym2 α)) : SimpleGraph α := SimpleGraph.fromEdgeSet {e | e ∈ edges}

theorem reachable_of_edge (edge : s(x, y) ∈ edges) : (graphOf edges).Reachable x y := by
  by_cases same : x = y
  · rw [same]
  · exact ((SimpleGraph.fromEdgeSet_adj _).mpr ⟨edge, same⟩).reachable

/-- More edges connect more. -/
theorem reachable_mono {more : List (Sym2 α)} (sub : edges ⊆ more)
    (reached : (graphOf edges).Reachable x y) : (graphOf more).Reachable x y := by
  refine reached.mono ?_
  apply SimpleGraph.fromEdgeSet_mono
  exact fun e mem => sub mem

/-- The edges connect all the nodes of a list. -/
def Connects (edges : List (Sym2 α)) (xs : List α) : Prop :=
  ∀ x ∈ xs, ∀ y ∈ xs, (graphOf edges).Reachable x y

theorem Connects.mono {more : List (Sym2 α)} (connects : Connects edges xs) (sub : edges ⊆ more) :
    Connects more xs :=
  fun x isX y isY => reachable_mono sub (connects x isX y isY)

/-- Other nodes that are among them. -/
theorem Connects.sub {ys : List α} (connects : Connects edges xs) (sub : ys ⊆ xs) :
    Connects edges ys :=
  fun x isX y isY => connects x (sub isX) y (sub isY)

/-- An edge connects one more node. -/
theorem Connects.concat (connects : Connects edges xs) (old : y ∈ xs) (edge : s(x, y) ∈ edges) :
    Connects edges (xs ++ [x]) := by
  have reached : ∀ z ∈ xs ++ [x], (graphOf edges).Reachable z y := by
    intro z mem
    rcases List.mem_append.mp mem with isOld | isNew
    · exact connects z isOld y old
    · rw [List.mem_singleton.mp isNew]
      exact reachable_of_edge edge
  exact fun a isA b isB => (reached a isA).trans (reached b isB).symm

/-! ### Rings -/

/-- The edges from the members of a list to those `k` places later, around its end. -/
def around (k : ℕ) (xs : List α) : List (Sym2 α) :=
  (xs.zip (xs.rotate k)).map fun e => s(e.1, e.2)

theorem mem_around {e : Sym2 α} : e ∈ around k xs ↔
    ∃ (i : ℕ) (x y : α), xs[i]? = some x ∧ xs[(i + k) % xs.length]? = some y ∧ e = s(x, y) := by
  unfold around
  rw [List.mem_map]
  constructor
  · rintro ⟨⟨x, y⟩, mem, rfl⟩
    obtain ⟨i, found⟩ := List.mem_iff_getElem?.mp mem
    obtain ⟨here, there⟩ := List.getElem?_zip_eq_some.mp found
    rw [List.getElem?_rotate (List.getElem?_eq_some_iff.mp here).1] at there
    exact ⟨i, x, y, here, there, rfl⟩
  · rintro ⟨i, x, y, here, there, rfl⟩
    rw [← List.getElem?_rotate (List.getElem?_eq_some_iff.mp here).1] at there
    exact ⟨(x, y), List.mem_iff_getElem?.mpr ⟨i, List.getElem?_zip_eq_some.mpr ⟨here, there⟩⟩, rfl⟩

theorem mem_of_mem_around {e : Sym2 α} (mem : e ∈ around k xs) (inside : x ∈ e) : x ∈ xs := by
  obtain ⟨i, a, b, here, there, rfl⟩ := mem_around.mp mem
  rcases Sym2.mem_iff.mp inside with rfl | rfl
  · exact List.mem_of_getElem? here
  · exact List.mem_of_getElem? there

/-- **A ring connects its members**, also without the edges from a node to itself. -/
theorem reachable_around (ring : ∀ e ∈ around 1 xs, e.IsDiag ∨ e ∈ edges) :
    Connects edges xs := by
  have next : ∀ {i : ℕ} {x y : α}, xs[i]? = some x → xs[i + 1]? = some y →
      (graphOf edges).Reachable x y := by
    intro i x y here there
    have inside := (List.getElem?_eq_some_iff.mp there).1
    rw [← Nat.mod_eq_of_lt inside] at there
    rcases ring s(x, y) (mem_around.mpr ⟨i, x, y, here, there, rfl⟩) with same | edge
    · rw [Sym2.mk_isDiag_iff.mp same]
    · exact reachable_of_edge edge
  cases xs with
  | nil => exact fun x mem => absurd mem List.not_mem_nil
  | cons first rest =>
      have reached : ∀ (i : ℕ) (x : α), (first :: rest)[i]? = some x →
          (graphOf edges).Reachable first x := by
        intro i
        induction i with
        | zero =>
            intro x here
            rw [Option.some.inj here]
        | succ i ih =>
            intro y there
            have inside := Nat.lt_of_succ_lt (List.getElem?_eq_some_iff.mp there).1
            have here := List.getElem?_eq_getElem inside
            exact (ih _ here).trans (next here there)
      intro x isX y isY
      obtain ⟨i, here⟩ := List.mem_iff_getElem?.mp isX
      obtain ⟨j, there⟩ := List.mem_iff_getElem?.mp isY
      exact (reached i x here).symm.trans (reached j y there)

section Count

variable [DecidableEq α]

theorem countP_zip_le (xs ys : List α) (x : α) :
    ((xs.zip ys).map fun e => s(e.1, e.2)).countP (x ∈ ·) ≤ xs.count x + ys.count x := by
  induction xs generalizing ys with
  | nil => simp
  | cons a xs ih =>
      cases ys with
      | nil => simp
      | cons b ys =>
          have rest := ih ys
          rw [List.zip_cons_cons, List.map_cons, List.countP_cons, List.count_cons,
            List.count_cons]
          simp only [Sym2.mem_iff, decide_eq_true_eq, beq_iff_eq]
          split_ifs <;> grind

/-- **A member of a ring** has two edges at most. -/
theorem countP_around_le (nodup : xs.Nodup) (k : ℕ) (x : α) :
    (around k xs).countP (x ∈ ·) ≤ 2 := by
  have once := List.nodup_iff_count_le_one.mp nodup x
  have again : (xs.rotate k).count x ≤ 1 :=
    List.nodup_iff_count_le_one.mp (List.nodup_rotate.mpr nodup) x
  exact (countP_zip_le xs (xs.rotate k) x).trans (Nat.add_le_add once again)

end Count

/-! ### Pairs -/

/-- Each member of a list with each later one. -/
def pairs : List α → List (α × α)
  | [] => []
  | x :: xs => xs.map (fun y => (x, y)) ++ pairs xs

theorem mem_of_mem_pairs {e : α × α} (mem : e ∈ pairs xs) : e.1 ∈ xs ∧ e.2 ∈ xs := by
  induction xs with
  | nil => cases mem
  | cons x xs ih =>
      rcases List.mem_append.mp mem with first | later
      · obtain ⟨y, isY, rfl⟩ := List.mem_map.mp first
        exact ⟨List.mem_cons_self, List.mem_cons_of_mem x isY⟩
      · exact ⟨List.mem_cons_of_mem x (ih later).1, List.mem_cons_of_mem x (ih later).2⟩

/-- **Two members are a pair**, in one order. -/
theorem mem_pairs (isX : x ∈ xs) (isY : y ∈ xs) (ne : x ≠ y) :
    s(x, y) ∈ (pairs xs).map fun e => s(e.1, e.2) := by
  induction xs with
  | nil => cases isX
  | cons z xs ih =>
      rw [pairs, List.map_append, List.mem_append, List.map_map]
      rcases List.mem_cons.mp isX with rfl | laterX
      · have later := (List.mem_cons.mp isY).resolve_left ne.symm
        exact .inl (List.mem_map.mpr ⟨y, later, rfl⟩)
      · rcases List.mem_cons.mp isY with rfl | laterY
        · exact .inl (List.mem_map.mpr ⟨x, laterX, Sym2.eq_swap⟩)
        · exact .inr (ih laterX laterY)

/-- **No two members are a pair twice.** -/
theorem nodup_pairs (nodup : xs.Nodup) : ((pairs xs).map fun e => s(e.1, e.2)).Nodup := by
  refine nodup.sym2.sublist ?_
  clear nodup
  induction xs with
  | nil => exact .refl _
  | cons x xs ih =>
      rw [pairs, List.map_append, List.map_map, List.sym2]
      exact ((List.sublist_cons_self x xs).map _).append ih

/-- What holds for each member and each later one holds for the pairs. -/
theorem rel_of_mem_pairs {R : α → α → Prop} (ordered : xs.Pairwise R) {e : α × α}
    (mem : e ∈ pairs xs) : R e.1 e.2 := by
  induction xs with
  | nil => cases mem
  | cons x xs ih =>
      obtain ⟨first, ordered⟩ := List.pairwise_cons.mp ordered
      rcases List.mem_append.mp mem with here | later
      · obtain ⟨y, isY, rfl⟩ := List.mem_map.mp here
        exact first y isY
      · exact ih ordered later

/-- Two loops, one inside the other, go over the pairs. -/
theorem foldlM_pairs {m : Type → Type} [Monad m] [LawfulMonad m] {σ : Type} (f : α → σ → α → m σ)
    (before rest : List α) (state : σ) :
    (rest.zipIdx before.length).foldlM (fun state entry =>
      ((before ++ rest).drop (entry.2 + 1)).foldlM (f entry.1) state) state =
      (pairs rest).foldlM (fun state p => f p.1 state p.2) state := by
  induction rest generalizing before state with
  | nil => rfl
  | cons x rest ih =>
      have later := ih (before ++ [x])
      rw [List.length_append, List.length_singleton, List.append_assoc,
        List.singleton_append] at later
      rw [List.zipIdx_cons, List.foldlM_cons, pairs, List.foldlM_append, List.foldlM_map]
      have dropped : (before ++ x :: rest).drop (before.length + 1) = rest := by
        rw [← List.singleton_append, ← List.append_assoc, List.drop_left' (by simp)]
      rw [dropped]
      exact bind_congr later

end Prism.Lib
