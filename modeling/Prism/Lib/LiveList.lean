import Mathlib.Data.List.Basic
import Mathlib.Data.List.Nodup
import Mathlib.Data.List.TakeDrop
import Mathlib.Order.Lattice
import Mathlib.Order.MinMax

/-!
Walking through a list that may change meanwhile.

A walk by position keeps a cursor, the number of elements that it is past, and goes on with the
element at the cursor of the list as it is then. An element that is added at the end is still met.
When an element behind the cursor is removed, the others move up, and the one at the cursor gets
behind it.

* `nextFrom`: the next element that a predicate holds of, and the cursor past it.
* `nextFrom_eq_none`, `mem_take_of_nextFrom`, `mem_drop_of_nextFrom`: what has been met.
* `mem_take_erase`: what gets behind the cursor when an element is removed.
* `everyOther`: what is left when a walk removes each element that it meets.
-/

namespace Prism.Lib

variable {α : Type} {p : α → Bool} {xs : List α} {cursor next : ℕ} {x y : α}

/-- The next element that the predicate holds of, with the cursor past it. -/
def nextFrom (p : α → Bool) : List α → ℕ → Option (α × ℕ)
  | [], _ => none
  | x :: xs, 0 => if p x then some (x, 1) else (nextFrom p xs 0).map fun (y, n) => (y, n + 1)
  | _ :: xs, cursor + 1 => (nextFrom p xs cursor).map fun (y, n) => (y, n + 1)

theorem nextFrom_eq_none : nextFrom p xs cursor = none ↔ ∀ y ∈ xs.drop cursor, p y = false := by
  induction xs generalizing cursor with
  | nil => simp [nextFrom]
  | cons x xs ih =>
      cases cursor with
      | zero =>
          have rest := @ih 0
          rw [List.drop_zero] at rest
          unfold nextFrom
          split_ifs with holds
          · simp [holds]
          · rw [Option.map_eq_none_iff, rest]
            simp [holds]
      | succ cursor =>
          rw [nextFrom, Option.map_eq_none_iff, ih, List.drop_succ_cons]

/-- The list around the element that is found. -/
theorem split_of_nextFrom (found : nextFrom p xs cursor = some (x, next)) :
    ∃ before after, xs = before ++ x :: after ∧ next = before.length + 1 ∧
      cursor ≤ before.length ∧ p x = true ∧ ∀ y ∈ before.drop cursor, p y = false := by
  induction xs generalizing cursor next with
  | nil => cases found
  | cons head xs ih =>
      cases cursor with
      | zero =>
          unfold nextFrom at found
          split_ifs at found with holds
          · cases found
            exact ⟨[], xs, rfl, rfl, le_rfl, holds, by simp⟩
          · obtain ⟨⟨_, n⟩, later, eq⟩ := Option.map_eq_some_iff.mp found
            cases eq
            obtain ⟨before, after, rfl, rfl, -, px, none⟩ := ih later
            refine ⟨head :: before, after, rfl, rfl, Nat.zero_le _, px, ?_⟩
            rw [List.drop_zero] at none ⊢
            exact List.forall_mem_cons.mpr ⟨by simpa using holds, none⟩
      | succ cursor =>
          rw [nextFrom] at found
          obtain ⟨⟨_, n⟩, later, eq⟩ := Option.map_eq_some_iff.mp found
          cases eq
          obtain ⟨before, after, rfl, rfl, le, px, none⟩ := ih later
          exact ⟨head :: before, after, rfl, rfl, Nat.succ_le_succ le, px, none⟩

theorem holds_of_nextFrom (found : nextFrom p xs cursor = some (x, next)) : p x = true := by
  obtain ⟨before, after, -, -, -, px, -⟩ := split_of_nextFrom found
  exact px

theorem mem_of_nextFrom (found : nextFrom p xs cursor = some (x, next)) : x ∈ xs.drop cursor := by
  obtain ⟨before, after, rfl, -, le, -, -⟩ := split_of_nextFrom found
  rw [List.drop_append_of_le_length le]
  simp

/-- **Behind the new cursor** the predicate holds of the element found, and of what was there. -/
theorem mem_take_of_nextFrom (found : nextFrom p xs cursor = some (x, next))
    (mem : y ∈ xs.take next) (holds : p y = true) : y ∈ xs.take cursor ∨ y = x := by
  obtain ⟨before, after, rfl, rfl, le, -, none⟩ := split_of_nextFrom found
  have taken : (before ++ x :: after).take (before.length + 1) = before ++ [x] := by
    rw [List.take_length_add_append]
    rfl
  rw [taken, List.mem_append, List.mem_singleton] at mem
  rcases mem with mem | rfl
  · rw [← List.take_append_drop cursor before, List.mem_append] at mem
    rcases mem with mem | mem
    · rw [List.take_append_of_le_length le]
      exact .inl mem
    · rw [none y mem] at holds
      cases holds
  · exact .inr rfl

/-- Ahead of the new cursor is what was ahead of the old one, without the element found. -/
theorem mem_drop_of_nextFrom (nodup : xs.Nodup)
    (found : nextFrom p xs cursor = some (x, next)) (mem : y ∈ xs.drop next) :
    y ∈ xs.drop cursor ∧ y ≠ x := by
  obtain ⟨before, after, rfl, rfl, le, -, -⟩ := split_of_nextFrom found
  have dropped : (before ++ x :: after).drop (before.length + 1) = after := by
    rw [List.drop_length_add_append]
    rfl
  rw [dropped] at mem
  constructor
  · rw [List.drop_append_of_le_length le]
    simp [mem]
  · rintro rfl
    have tail := (List.nodup_append.mp nodup).2.1
    exact (List.nodup_cons.mp tail).1 mem

section Erase

variable [DecidableEq α] {a : α}

/-- **What gets behind the cursor** when an element is removed: the one that was at the cursor, if
the removed one was behind it. -/
theorem mem_take_erase (mem : x ∈ (xs.erase a).take cursor) :
    x ∈ xs.take cursor ∨ xs.idxOf a < cursor ∧ xs[cursor]? = some x := by
  induction xs generalizing cursor with
  | nil => simp at mem
  | cons head xs ih =>
      cases cursor with
      | zero => simp at mem
      | succ cursor =>
          by_cases here : head = a
          · subst here
            rw [List.erase_cons_head] at mem
            obtain ⟨i, lt, rfl⟩ := List.mem_take_iff_getElem.mp mem
            rw [lt_min_iff] at lt
            rcases (Nat.lt_succ_iff.mp lt.1).lt_or_eq with less | rfl
            · refine .inl (List.mem_cons_of_mem _ ?_)
              exact List.mem_take_iff_getElem.mpr ⟨i, lt_min_iff.mpr ⟨less, lt.2⟩, rfl⟩
            · refine .inr ⟨by simp, ?_⟩
              rw [List.getElem?_cons_succ, List.getElem?_eq_getElem lt.2]
          · rw [List.erase_cons_tail (by simpa using here), List.take_succ_cons] at mem
            rcases List.mem_cons.mp mem with rfl | mem
            · exact .inl List.mem_cons_self
            · refine (ih mem).imp (fun inside => List.mem_cons_of_mem _ inside) ?_
              rintro ⟨behind, at_cursor⟩
              rw [List.idxOf_cons_ne _ here, List.getElem?_cons_succ]
              exact ⟨Nat.succ_lt_succ behind, at_cursor⟩

theorem mem_drop_erase (mem : x ∈ (xs.erase a).drop cursor) : x ∈ xs.drop cursor := by
  induction xs generalizing cursor with
  | nil => simp at mem
  | cons head xs ih =>
      by_cases here : head = a
      · subst here
        rw [List.erase_cons_head] at mem
        cases cursor with
        | zero => exact List.mem_cons_of_mem _ mem
        | succ cursor =>
            rw [List.drop_succ_cons]
            exact List.drop_subset_drop_left xs (Nat.le_succ cursor) mem
      · rw [List.erase_cons_tail (by simpa using here)] at mem
        cases cursor with
        | zero =>
            rcases List.mem_cons.mp mem with rfl | mem
            · exact List.mem_cons_self
            · exact List.mem_cons_of_mem _ (List.mem_of_mem_erase mem)
        | succ cursor =>
            rw [List.drop_succ_cons] at mem ⊢
            exact ih mem

end Erase

/-- What is left of a list when a walk removes each element that it meets: the next one moves up
and is passed over. -/
def everyOther : List α → List α
  | [] => []
  | [_] => []
  | _ :: y :: xs => y :: everyOther xs

/-- Nothing is left only of a list with at most one element. -/
theorem everyOther_eq_nil : everyOther xs = [] ↔ xs.length ≤ 1 := by
  match xs with
  | [] => simp [everyOther]
  | [_] => simp [everyOther]
  | _ :: _ :: _ => simp [everyOther]

/-- The walk meets the element at the cursor. -/
theorem nextFrom_true (before : List α) (after : List α) (x : α) :
    nextFrom (fun _ => true) (before ++ x :: after) before.length =
      some (x, before.length + 1) := by
  induction before with
  | nil => rfl
  | cons y before ih =>
      rw [List.cons_append, List.length_cons, nextFrom, ih]
      rfl

end Prism.Lib
