import Prism.Lib.Sorting

/-!
Queues that are served from the front. Those that are served go to the back.

How many are served in a turn may depend on the queue. A turn serves nobody who is too large, and
it serves the first one where that is not. A queue may be the order of stamps: who is served gets a
new stamp, later than all others.

* `sortBy_restamp`: new stamps rotate the queue.
* `all_served`, `not_served_behind`: in as many turns as there are entries, all that are not too
  large are served if none of them is behind one that is; who is behind one that is never is.
-/

namespace Prism.Lib

section Rotation

variable {α : Type}

/-- A turn: those who are served go to the back. -/
def rotate (take : List α → ℕ) (queue : List α) : List α :=
  queue.drop (take queue) ++ queue.take (take queue)

theorem rotate_perm (take : List α → ℕ) (queue : List α) : (rotate take queue).Perm queue := by
  have split : (rotate take queue).Perm
      (queue.take (take queue) ++ queue.drop (take queue)) := List.perm_append_comm
  rwa [List.take_append_drop] at split

/-- One of some turns serves an entry. -/
def Served : List (List α → ℕ) → List α → α → Prop
  | [], _, _ => False
  | take :: takes, queue, x => x ∈ queue.take (take queue) ∨ Served takes (rotate take queue) x

/-- **A turn feeds** the first one if it fits, in whatever order the entries are. -/
def Feeds (pool : List α) (fits : α → Prop) (take : List α → ℕ) : Prop :=
  ∀ (x : α) (queue : List α), (x :: queue).Perm pool → fits x → 0 < take (x :: queue)

/-- **A turn blocks** who does not fit. -/
def Blocks (pool : List α) (fits : α → Prop) (take : List α → ℕ) : Prop :=
  ∀ queue : List α, queue.Perm pool → ∀ x ∈ queue.take (take queue), fits x

variable {pool queue : List α} {fits : α → Prop} {takes : List (List α → ℕ)} {x : α}

/-- **The front of the queue is served**, by one turn for each of its entries. -/
theorem served_of_front (feeds : ∀ take ∈ takes, Feeds pool fits take) {front rest : List α}
    (perm : (front ++ rest).Perm pool) (fit : ∀ y ∈ front, fits y) (mem : x ∈ front)
    (turns : front.length ≤ takes.length) : Served takes (front ++ rest) x := by
  induction takes generalizing front rest with
  | nil =>
      rw [List.length_nil, Nat.le_zero, List.length_eq_zero_iff] at turns
      rw [turns] at mem
      cases mem
  | cons take takes ih =>
      obtain ⟨here, later⟩ := List.forall_mem_cons.mp feeds
      by_cases served : x ∈ (front ++ rest).take (take (front ++ rest))
      · exact .inl served
      · have some : 0 < take (front ++ rest) := by
          obtain ⟨y, front, rfl⟩ := List.exists_cons_of_ne_nil (List.ne_nil_of_mem mem)
          exact here y _ perm (fit y List.mem_cons_self)
        have rotated := rotate_perm take (front ++ rest)
        generalize hk : take (front ++ rest) = k at *
        have few : k ≤ front.length := by
          by_contra many
          rw [List.take_append, List.take_of_length_le (by omega)] at served
          exact served (List.mem_append_left _ mem)
        have next : rotate take (front ++ rest) = front.drop k ++ (rest ++ front.take k) := by
          rw [rotate, hk, List.drop_append_of_le_length few, List.take_append_of_le_length few,
            List.append_assoc]
        rw [List.take_append_of_le_length few] at served
        have fit_rest : ∀ y ∈ front.drop k, fits y := fun y inFront =>
          fit y (List.mem_of_mem_drop inFront)
        refine .inr (next ▸ ih later ?_ fit_rest ?_ ?_)
        · rw [← next]
          exact rotated.trans perm
        · rw [← List.take_append_drop k front] at mem
          exact (List.mem_append.mp mem).resolve_left served
        · rw [List.length_drop]
          rw [List.length_cons] at turns
          omega

/-- **Who is behind one that does not fit** is never served. -/
theorem not_served_behind (blocks : ∀ take ∈ takes, Blocks pool fits take) (nodup : pool.Nodup)
    {front rest : List α} {y : α} (perm : (front ++ y :: rest).Perm pool) (large : ¬ fits y)
    (mem : x ∈ rest) : ¬ Served takes (front ++ y :: rest) x := by
  induction takes generalizing front rest with
  | nil => exact not_false
  | cons take takes ih =>
      obtain ⟨here, later⟩ := List.forall_mem_cons.mp blocks
      have rotated := rotate_perm take (front ++ y :: rest)
      have served_fits := here _ perm
      have distinct := perm.nodup_iff.mpr nodup
      rw [Served]
      generalize hk : take (front ++ y :: rest) = k at *
      have few : k ≤ front.length := by
        by_contra many
        refine large (served_fits y ?_)
        rw [List.take_append, List.take_of_length_le (by omega), List.mem_append]
        obtain ⟨j, left⟩ := Nat.exists_eq_add_of_lt (not_le.mp many)
        rw [show k - front.length = j + 1 by omega, List.take_succ_cons]
        exact .inr List.mem_cons_self
      have next : rotate take (front ++ y :: rest) =
          front.drop k ++ y :: (rest ++ front.take k) := by
        rw [rotate, hk, List.drop_append_of_le_length few, List.take_append_of_le_length few]
        simp
      rintro (served | served)
      · rw [List.take_append_of_le_length few] at served
        exact (List.nodup_append.mp distinct).2.2 x (List.mem_of_mem_take served) x
          (List.mem_cons_of_mem _ mem) rfl
      · rw [next] at served
        exact ih later (next ▸ rotated.trans perm) (List.mem_append_left _ mem) served

/-- **All that fit are served** in one turn for each entry, if none of them is behind one that
does not fit. -/
theorem all_served (feeds : ∀ take ∈ takes, Feeds pool fits take) (perm : queue.Perm pool)
    (turns : takes.length = queue.length)
    (clear : ∀ front y rest, queue = front ++ y :: rest → ¬ fits y → ∀ x ∈ rest, ¬ fits x)
    (mem : x ∈ queue) (fit : fits x) : Served takes queue x := by
  obtain ⟨front, rest, rfl⟩ := List.append_of_mem mem
  have split : front ++ x :: rest = (front ++ [x]) ++ rest := by simp
  have fits_front : ∀ y ∈ front ++ [x], fits y := by
    intro y inFront
    rcases List.mem_append.mp inFront with before | here
    · by_contra large
      obtain ⟨first, second, rfl⟩ := List.append_of_mem before
      exact clear first y (second ++ x :: rest) (by simp) large x (by simp) fit
    · rwa [List.mem_singleton.mp here]
  rw [split] at perm turns ⊢
  refine served_of_front feeds perm fits_front (by simp) ?_
  rw [turns]
  exact (List.sublist_append_left (front ++ [x]) rest).length_le

end Rotation

/-! ### Stamps -/

section Stamps

variable {α κ : Type} [LinearOrder κ] {key key' : α → κ} {xs batch rest : List α}

/-- A list whose entries of one kind come first. -/
theorem filter_append_filter_not {p : α → Bool} (first : xs.Pairwise fun a b => p b → p a) :
    xs.filter p ++ xs.filter (fun x => !p x) = xs := by
  induction xs with
  | nil => rfl
  | cons x xs ih =>
      obtain ⟨head, tail⟩ := List.pairwise_cons.mp first
      cases kind : p x with
      | true => simp [kind, ih tail]
      | false =>
          have none : xs.filter p = [] := List.filter_eq_nil_iff.mpr fun y mem isFirst => by
            simp [head y mem isFirst] at kind
          have rest := ih tail
          rw [none, List.nil_append] at rest
          simp [kind, none, rest]

/-- **New stamps** that are later than all others rotate the queue. -/
theorem sortBy_restamp [DecidableEq α] (nodup : xs.Nodup) (split : sortBy key xs = batch ++ rest)
    (kept : ∀ x ∈ rest, key' x = key x) (later : ∀ x ∈ rest, ∀ y ∈ batch, key' x < key' y)
    (ordered : batch.Pairwise fun a b => key' a < key' b) :
    sortBy key' xs = rest ++ batch := by
  have perm : (batch ++ rest).Perm xs := split ▸ sortBy_perm xs
  have apart := List.nodup_append.mp (perm.nodup_iff.mpr nodup)
  have mem : ∀ x, x ∈ sortBy key' xs ↔ x ∈ batch ∨ x ∈ rest := fun x => by
    rw [mem_sortBy, ← perm.mem_iff, List.mem_append]
  have front : (sortBy key' xs).filter (fun x => decide (x ∈ rest)) = rest := by
    have same : sortBy key' (xs.filter fun x => decide (x ∈ rest)) =
        sortBy key (xs.filter fun x => decide (x ∈ rest)) := by
      refine sortBy_eq_iff.mpr fun a b before => ?_
      have inRest : ∀ x ∈ [a, b], x ∈ rest := fun x mem => by
        simpa using (List.mem_filter.mp (before.subset mem)).2
      rw [kept a (inRest a (by simp)), kept b (inRest b (by simp))]
    rw [filter_sortBy, same, ← filter_sortBy, split, List.filter_append]
    have none : batch.filter (fun x => decide (x ∈ rest)) = [] :=
      List.filter_eq_nil_iff.mpr fun x inBatch inRest =>
        apart.2.2 x inBatch x (of_decide_eq_true inRest) rfl
    have all : rest.filter (fun x => decide (x ∈ rest)) = rest :=
      List.filter_eq_self.mpr fun x inRest => decide_eq_true inRest
    rw [none, all, List.nil_append]
  have back : (sortBy key' xs).filter (fun x => !decide (x ∈ rest)) = batch := by
    have others : (xs.filter fun x => !decide (x ∈ rest)).Perm batch := by
      have parts := perm.symm.filter fun x => !decide (x ∈ rest)
      have all : batch.filter (fun x => !decide (x ∈ rest)) = batch :=
        List.filter_eq_self.mpr fun x inBatch => by
          simpa using fun inRest => apart.2.2 x inBatch x inRest rfl
      have none : rest.filter (fun x => !decide (x ∈ rest)) = [] :=
        List.filter_eq_nil_iff.mpr fun x inRest => by simpa using inRest
      rwa [List.filter_append, all, none, List.append_nil] at parts
    have distinct : (batch.map key').Nodup := List.pairwise_map.mpr (ordered.imp ne_of_lt)
    have same := sortBy_congr ((others.map key').nodup_iff.mpr distinct) distinct
      fun x => others.mem_iff
    rw [filter_sortBy, same]
    exact (ordered.imp le_of_lt).insertionSort_eq
  have halves := @filter_append_filter_not _ (sortBy key' xs) (fun x => decide (x ∈ rest)) ?_
  · rw [front, back] at halves
    exact halves.symm
  · refine (sortBy_pairwise xs).imp_of_mem fun {a b} inA inB le => ?_
    simp only [decide_eq_true_eq]
    intro inRest
    by_contra other
    have inBatch := ((mem a).mp inA).resolve_right other
    exact absurd le (not_le.mpr (later b inRest a inBatch))

end Stamps

end Prism.Lib
