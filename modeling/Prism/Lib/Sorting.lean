import Mathlib.Data.List.Sort
import Mathlib.Data.Prod.Lex

/-!
Sorting by a key. Entries with the same key keep their order.

Where the key is different for all entries, the place of an entry is its rank: how many entries have
a smaller key. So the sorted list is known from what is in it, in whatever order it was.

* `sortBy_congr`: the same entries are sorted to the same list.
* `getElem?_sortBy`: at each place is the entry with this rank.
* `sortBy_sortBy`, `filter_sortBy`: sorts one after another, and what is left out after a sort.
* `sortBy_eq_iff`: when two keys sort a list alike.
-/

namespace Prism.Lib

variable {α β κ : Type} [LinearOrder κ] (key : α → κ)

/-- The entries in the order of their keys. -/
def sortBy (xs : List α) : List α := xs.insertionSort fun a b => key a ≤ key b

/-- How many entries have a smaller key. -/
def rank (xs : List α) (x : α) : ℕ := (xs.filter fun y => key y < key x).length

variable {key} {xs ys : List α} {x : α}

theorem sortBy_perm (xs : List α) : (sortBy key xs).Perm xs := List.perm_insertionSort _ xs

theorem sortBy_pairwise (xs : List α) : (sortBy key xs).Pairwise fun a b => key a ≤ key b := by
  have total : Std.Total fun a b => key a ≤ key b := ⟨fun a b => le_total (key a) (key b)⟩
  have trans : IsTrans α fun a b => key a ≤ key b := ⟨fun _ _ _ ab bc => le_trans ab bc⟩
  exact List.pairwise_insertionSort _ xs

@[simp] theorem mem_sortBy : x ∈ sortBy key xs ↔ x ∈ xs := (sortBy_perm xs).mem_iff

@[simp] theorem length_sortBy (xs : List α) : (sortBy key xs).length = xs.length :=
  (sortBy_perm xs).length_eq

theorem map_sortBy {f : α → β} {key' : β → κ} (same : ∀ a, key' (f a) = key a) (xs : List α) :
    (sortBy key xs).map f = sortBy key' (xs.map f) :=
  List.map_insertionSort _ _ f xs fun a _ b _ => by rw [same, same]

/-- With different keys, the order is strict. -/
theorem sortBy_strict (distinct : (xs.map key).Nodup) :
    (sortBy key xs).Pairwise fun a b => key a < key b := by
  have different : (sortBy key xs).Pairwise fun a b => key a ≠ key b :=
    List.pairwise_map.mp (((sortBy_perm xs).map key).nodup_iff.mpr distinct)
  exact (sortBy_pairwise xs).imp₂ (fun a b le ne => lt_of_le_of_ne le ne) different

/-- **The same entries** are sorted to the same list. -/
theorem sortBy_congr (distinct : (xs.map key).Nodup) (distinct' : (ys.map key).Nodup)
    (same : ∀ x, x ∈ xs ↔ x ∈ ys) : sortBy key xs = sortBy key ys := by
  have perm : xs.Perm ys := (List.perm_ext_iff_of_nodup (.of_map key distinct)
    (.of_map key distinct')).mpr same
  have sorted : (sortBy key xs).Perm (sortBy key ys) :=
    (sortBy_perm xs).trans (perm.trans (sortBy_perm ys).symm)
  exact sorted.eq_of_pairwise (fun a b _ _ ab ba => absurd (ab.trans ba) (lt_irrefl _))
    (sortBy_strict distinct) (sortBy_strict distinct')

theorem rank_perm (perm : xs.Perm ys) (x : α) : rank key xs x = rank key ys x :=
  (perm.filter _).length_eq

/-- In a sorted list, the entries with smaller keys are those before. -/
theorem rank_of_strict (strict : xs.Pairwise fun a b => key a < key b) {i : ℕ}
    (found : xs[i]? = some x) : rank key xs x = i := by
  induction xs generalizing i with
  | nil => cases found
  | cons y xs ih =>
      obtain ⟨first, strict⟩ := List.pairwise_cons.mp strict
      cases i with
      | zero =>
          obtain rfl := Option.some.inj found
          refine List.length_eq_zero_iff.mpr (List.filter_eq_nil_iff.mpr fun z mem => ?_)
          rcases List.mem_cons.mp mem with rfl | mem
          · simp
          · simpa using (first z mem).le
      | succ i =>
          have rest := ih strict (show xs[i]? = some x from found)
          have less : key y < key x := first x (List.mem_of_getElem? found)
          rw [rank, List.filter_cons_of_pos (by simpa using less), List.length_cons]
          exact congrArg (· + 1) rest

/-- **Places are ranks.** -/
theorem getElem?_sortBy (distinct : (xs.map key).Nodup) {i : ℕ} :
    (sortBy key xs)[i]? = some x ↔ x ∈ xs ∧ rank key xs x = i := by
  have same : rank key (sortBy key xs) x = rank key xs x := rank_perm (sortBy_perm xs) x
  rw [← same]
  constructor
  · intro found
    exact ⟨mem_sortBy.mp (List.mem_of_getElem? found),
      rank_of_strict (sortBy_strict distinct) found⟩
  · rintro ⟨mem, rfl⟩
    have sorted : x ∈ sortBy key xs := mem_sortBy.mpr mem
    obtain ⟨i, found⟩ := List.mem_iff_getElem?.mp sorted
    rwa [rank_of_strict (sortBy_strict distinct) found]

/-! ### Sorts one after another -/

section Stable

variable {α κ μ : Type} [LinearOrder κ] [LinearOrder μ] {key : α → κ} {key' : α → μ} {xs ys : List α}
  {x y : α}

/-- An entry is inserted before those with the same key or a greater one. -/
def insertBy (key : α → κ) (x : α) (xs : List α) : List α :=
  xs.orderedInsert (fun a b => key a ≤ key b) x

theorem sortBy_cons (x : α) (xs : List α) :
    sortBy key (x :: xs) = insertBy key x (sortBy key xs) := rfl

theorem insertBy_nil : insertBy key x [] = [x] := rfl

theorem insertBy_of_le (le : key x ≤ key y) : insertBy key x (y :: xs) = x :: y :: xs :=
  List.orderedInsert_cons_of_le _ xs le

theorem insertBy_of_forall_le (least : ∀ y ∈ xs, key x ≤ key y) : insertBy key x xs = x :: xs := by
  cases xs with
  | nil => rfl
  | cons y xs => exact insertBy_of_le (least y List.mem_cons_self)

theorem insertBy_of_lt (lt : key y < key x) :
    insertBy key x (y :: xs) = y :: insertBy key x xs :=
  List.orderedInsert_of_not_le _ xs (not_le.mpr lt)

theorem insertBy_perm : (insertBy key x xs).Perm (x :: xs) := List.perm_orderedInsert _ x xs

/-- Two orders that agree on an entry insert it at the same place. -/
theorem insertBy_congr (same : ∀ y ∈ xs, key x ≤ key y ↔ key' x ≤ key' y) :
    insertBy key x xs = insertBy key' x xs := by
  induction xs with
  | nil => rfl
  | cons y xs ih =>
      have rest := ih fun z mem => same z (List.mem_cons_of_mem y mem)
      rcases le_or_gt (key x) (key y) with le | lt
      · rw [insertBy_of_le le, insertBy_of_le ((same y List.mem_cons_self).mp le)]
      · have lt' : key' y < key' x :=
          not_le.mp fun le => not_le.mpr lt ((same y List.mem_cons_self).mpr le)
        rw [insertBy_of_lt lt, insertBy_of_lt lt', rest]

/-- Entries with different keys can be inserted one after the other, in any order. -/
theorem insertBy_comm (lt : key x < key y) (xs : List α) :
    insertBy key x (insertBy key y xs) = insertBy key y (insertBy key x xs) := by
  induction xs with
  | nil => rw [insertBy_nil, insertBy_nil, insertBy_of_le lt.le, insertBy_of_lt lt, insertBy_nil]
  | cons z xs ih =>
      rcases le_or_gt (key y) (key z) with le | after
      · rw [insertBy_of_le le, insertBy_of_le lt.le, insertBy_of_le (lt.le.trans le),
          insertBy_of_lt lt, insertBy_of_le le]
      · rw [insertBy_of_lt after]
        rcases le_or_gt (key x) (key z) with le | before
        · rw [insertBy_of_le le, insertBy_of_le le, insertBy_of_lt lt, insertBy_of_lt after]
        · rw [insertBy_of_lt before, insertBy_of_lt before, insertBy_of_lt after, ih]

/-- An entry that is inserted into a list before it is sorted. -/
theorem sortBy_insertBy (sorted : ys.Pairwise fun a b => key' a ≤ key' b) :
    sortBy key (insertBy key' x ys) =
      insertBy (fun a => toLex (key a, key' a)) x (sortBy key ys) := by
  -- Entries of a sorted list are inserted for both keys as for the first one.
  have first : ∀ {a : α} {zs : List α}, (∀ z ∈ zs, key' a ≤ key' z) →
      insertBy key a zs = insertBy (fun a => toLex (key a, key' a)) a zs := by
    intro a zs least
    apply insertBy_congr
    intro z mem
    rw [Prod.Lex.toLex_le_toLex]
    have le := least z mem
    constructor
    · intro h
      exact h.lt_or_eq.imp id fun eq => ⟨eq, le⟩
    · rintro (lt | ⟨eq, -⟩)
      · exact lt.le
      · exact eq.le
  induction ys with
  | nil => rfl
  | cons y ys ih =>
      obtain ⟨least, sorted⟩ := List.pairwise_cons.mp sorted
      rcases le_or_gt (key' x) (key' y) with le | lt
      · rw [insertBy_of_le le, sortBy_cons]
        apply first
        intro z mem
        rcases List.mem_cons.mp (mem_sortBy.mp mem) with rfl | later
        · exact le
        · exact le.trans (least z later)
      · have least' : ∀ z ∈ insertBy key' x ys, key' y ≤ key' z := by
          intro z mem
          rcases List.mem_cons.mp (insertBy_perm.mem_iff.mp mem) with rfl | later
          · exact lt.le
          · exact least z later
        rw [insertBy_of_lt lt, sortBy_cons, first fun z mem => least' z (mem_sortBy.mp mem),
          ih sorted, sortBy_cons, first fun z mem => least z (mem_sortBy.mp mem)]
        have distinct : (fun a => toLex (key a, key' a)) y ≠ (fun a => toLex (key a, key' a)) x :=
          fun same => lt.ne (congrArg (fun k => (ofLex k).2) same)
        rcases lt_or_gt_of_ne distinct with before | after
        · exact @insertBy_comm _ _ _ (fun a => toLex (key a, key' a)) _ _ before _
        · exact (@insertBy_comm _ _ _ (fun a => toLex (key a, key' a)) _ _ after _).symm

/-- **Sorts one after another**: the last key counts first. -/
theorem sortBy_sortBy (xs : List α) :
    sortBy key (sortBy key' xs) = sortBy (fun a => toLex (key a, key' a)) xs := by
  induction xs with
  | nil => rfl
  | cons x xs ih => rw [sortBy_cons, sortBy_insertBy (sortBy_pairwise xs), ih, sortBy_cons]

/-- **When two orders sort a list alike**: they agree on all that come one after the other. -/
theorem sortBy_eq_iff : sortBy key xs = sortBy key' xs ↔
    ∀ a b, [a, b].Sublist xs → (key a ≤ key b ↔ key' a ≤ key' b) := by
  constructor
  · intro same a b before
    have sorted : (sortBy key xs).Pairwise fun a b => key a ≤ key b := sortBy_pairwise xs
    have sorted' : (sortBy key' xs).Pairwise fun a b => key' a ≤ key' b := sortBy_pairwise xs
    constructor
    · intro le
      have kept : [a, b].Sublist (sortBy key xs) := List.pair_sublist_insertionSort le before
      rw [same] at kept
      have pair : [a, b].Pairwise fun a b => key' a ≤ key' b := sorted'.sublist kept
      exact (List.pairwise_cons.mp pair).1 b List.mem_cons_self
    · intro le
      have kept : [a, b].Sublist (sortBy key' xs) := List.pair_sublist_insertionSort le before
      rw [← same] at kept
      have pair : [a, b].Pairwise fun a b => key a ≤ key b := sorted.sublist kept
      exact (List.pairwise_cons.mp pair).1 b List.mem_cons_self
  · intro same
    induction xs with
    | nil => rfl
    | cons x xs ih =>
        rw [sortBy_cons, sortBy_cons, ih fun a b before => same a b (before.cons x)]
        apply insertBy_congr
        intro y mem
        exact same x y (List.cons_sublist_cons.mpr (List.singleton_sublist.mpr (mem_sortBy.mp mem)))

/-- An entry is kept in its place, or left out. -/
theorem filter_insertBy (p : α → Bool) (sorted : xs.Pairwise fun a b => key a ≤ key b) :
    (insertBy key x xs).filter p = if p x then insertBy key x (xs.filter p) else xs.filter p := by
  induction xs with
  | nil => cases kept : p x <;> simp [insertBy_nil, kept]
  | cons y xs ih =>
      obtain ⟨least, sorted⟩ := List.pairwise_cons.mp sorted
      rcases le_or_gt (key x) (key y) with le | lt
      · have front : insertBy key x ((y :: xs).filter p) = x :: (y :: xs).filter p := by
          apply insertBy_of_forall_le
          intro z mem
          rcases List.mem_cons.mp (List.mem_of_mem_filter mem) with rfl | later
          · exact le
          · exact le.trans (least z later)
        rw [insertBy_of_le le, List.filter_cons, front]
      · rw [insertBy_of_lt lt, List.filter_cons, List.filter_cons, ih sorted]
        cases kept : p y
        · simp
        · simp [insertBy_of_lt lt, apply_ite (y :: ·)]

/-- What is left out may be left out before. -/
theorem filter_sortBy (p : α → Bool) (xs : List α) :
    (sortBy key xs).filter p = sortBy key (xs.filter p) := by
  induction xs with
  | nil => rfl
  | cons x xs ih =>
      rw [sortBy_cons, filter_insertBy p (sortBy_pairwise xs), ih, List.filter_cons]
      split_ifs
      · rw [sortBy_cons]
      · rfl

end Stable

end Prism.Lib
