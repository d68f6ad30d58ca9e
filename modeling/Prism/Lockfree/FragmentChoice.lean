import Prism.Lockfree.Poll

/-!
The fragments that are checked next against a poll (`Poll.fragments_to_check` in
`prism/server/CS2/roles/lockfree/poll.py`).

A pivot is chosen among the fragments that were not checked yet and that enough peers store. What
is returned is a random sample of the fragments that all peers with the pivot store. The checked
ones are not taken out of that again, and an empty pivot is taken for none. Shuffles and samples
are arguments; what a poll has checked is one as well.

* `progresses_iff`: the choice makes progress whatever is drawn, exactly if no checked fragment is
  stored wherever a pivot is, and no pivot is empty.
-/

namespace Prism.Lockfree

/-! ### Random choices -/

/-- `random.shuffle` and `random.sample`. -/
structure Choices (α : Type) where
  shuffle : List α → List α
  shuffle_perm : ∀ xs, (shuffle xs).Perm xs
  sample : List α → ℕ → List α
  sample_subperm : ∀ xs k, (sample xs k).Subperm xs
  length_sample : ∀ xs k, k ≤ xs.length → (sample xs k).length = k

section Choices

variable {α : Type} [DecidableEq α]

/-- An element is moved to the front of a list. -/
def moveToFront (x : α) (xs : List α) : List α := if x ∈ xs then x :: xs.erase x else xs

theorem moveToFront_perm (x : α) (xs : List α) : (moveToFront x xs).Perm xs := by
  unfold moveToFront
  split_ifs with mem
  · exact (List.perm_cons_erase mem).symm
  · exact .refl xs

/-- What is drawn when one element comes first in every shuffle, and another in every sample. -/
def Choices.favouring (x y : α) : Choices α where
  shuffle := moveToFront x
  shuffle_perm := moveToFront_perm x
  sample xs k := (moveToFront y xs).take k
  sample_subperm xs k := (List.take_sublist k _).subperm.trans (moveToFront_perm y xs).subperm
  length_sample xs k le := by
    rw [List.length_take, (moveToFront_perm y xs).length_eq, min_eq_left le]

theorem find?_moveToFront {p : α → Bool} {x : α} {xs : List α} (mem : x ∈ xs) (holds : p x = true) :
    (moveToFront x xs).find? p = some x := by
  rw [moveToFront, if_pos mem, List.find?_cons, holds]

end Choices

/-! ### The choice -/

/-- The peers that store a fragment. -/
def holders (peers : List DropboxPeer) (fragment : Bytes) : List DropboxPeer :=
  peers.filter (fragment ∈ ·.storedFragments)

/-- The fragments that are stored and have not been checked. -/
def unchecked (checkedFragments : List Bytes) (peers : List DropboxPeer) : List Bytes :=
  (peers.flatMap (·.storedFragments)).dedup.filter (· ∉ checkedFragments)

/-- The fragments that all of some peers store. -/
def commonFragments : List DropboxPeer → List Bytes
  | [] => []
  | peer :: peers =>
    peers.foldl (fun acc other => acc.filter (· ∈ other.storedFragments)) peer.storedFragments.dedup

/-- `fragments_to_check`. -/
def Poll.fragmentsToCheck (checkedFragments : List Bytes) (peers : List DropboxPeer)
    (threshold limit : ℕ) (choices : Choices Bytes) : List Bytes :=
  let fragments := choices.shuffle (unchecked checkedFragments peers)
  match fragments.find? fun fragment => threshold ≤ (holders peers fragment).length with
  | none => []
  | some pivot =>
    if pivot = [] then []
    else
      let commons := commonFragments (holders peers pivot)
      choices.sample commons (min commons.length limit)

/-- A fragment that can be a pivot: it was not checked, and enough peers store it. -/
def IsPivot (checkedFragments : List Bytes) (peers : List DropboxPeer) (threshold : ℕ)
    (fragment : Bytes) : Prop :=
  fragment ∉ checkedFragments ∧ threshold ≤ (holders peers fragment).length

/-- The choice makes progress: it is of at most so many fragments, that were not checked and that
enough peers store together, and it is not empty as long as there are such. -/
structure Progresses (checkedFragments : List Bytes) (peers : List DropboxPeer)
    (threshold limit : ℕ) (chosen : List Bytes) : Prop where
  few : chosen.Nodup ∧ chosen.length ≤ limit
  fresh : ∀ fragment ∈ chosen, fragment ∉ checkedFragments
  together : chosen ≠ [] → ∃ group : List DropboxPeer, group.Sublist peers ∧
    threshold ≤ group.length ∧ ∀ peer ∈ group, ∀ fragment ∈ chosen, fragment ∈ peer.storedFragments
  empty_iff : chosen = [] ↔ ∀ fragment, ¬ IsPivot checkedFragments peers threshold fragment

section Choice

variable {checkedFragments : List Bytes} {peers : List DropboxPeer} {threshold limit : ℕ}
  {choices : Choices Bytes}

theorem mem_holders {fragment : Bytes} {peer : DropboxPeer} :
    peer ∈ holders peers fragment ↔ peer ∈ peers ∧ fragment ∈ peer.storedFragments := by
  rw [holders, List.mem_filter, decide_eq_true_eq]

theorem mem_unchecked {fragment : Bytes} :
    fragment ∈ unchecked checkedFragments peers ↔
      (∃ peer ∈ peers, fragment ∈ peer.storedFragments) ∧ fragment ∉ checkedFragments := by
  rw [unchecked, List.mem_filter, List.mem_dedup, List.mem_flatMap, decide_eq_true_eq]

theorem mem_foldl_filter {others : List DropboxPeer} {fragments : List Bytes} {fragment : Bytes} :
    fragment ∈ others.foldl (fun acc other => acc.filter (· ∈ other.storedFragments)) fragments ↔
      fragment ∈ fragments ∧ ∀ other ∈ others, fragment ∈ other.storedFragments := by
  induction others generalizing fragments with
  | nil => simp
  | cons other others ih =>
      rw [List.foldl_cons, ih, List.mem_filter, List.forall_mem_cons, decide_eq_true_eq, and_assoc]

/-- The common fragments are those that all store. -/
theorem mem_commonFragments {group : List DropboxPeer} (ne : group ≠ []) {fragment : Bytes} :
    fragment ∈ commonFragments group ↔ ∀ peer ∈ group, fragment ∈ peer.storedFragments := by
  obtain ⟨peer, others, rfl⟩ := List.exists_cons_of_ne_nil ne
  rw [commonFragments, mem_foldl_filter, List.mem_dedup, List.forall_mem_cons]

theorem nodup_commonFragments (group : List DropboxPeer) : (commonFragments group).Nodup := by
  cases group with
  | nil => exact List.nodup_nil
  | cons peer others =>
      have kept : ∀ (others : List DropboxPeer) (fragments : List Bytes), fragments.Nodup →
          (others.foldl (fun acc other => acc.filter (· ∈ other.storedFragments))
            fragments).Nodup := by
        intro others
        induction others with
        | nil => exact fun _ nodup => nodup
        | cons other others ih => exact fun fragments nodup => ih _ (nodup.filter _)
      exact kept others _ (List.nodup_dedup _)

/-- A pivot is stored somewhere. -/
theorem IsPivot.holders_ne_nil {fragment : Bytes} (pos : 1 ≤ threshold)
    (pivot : IsPivot checkedFragments peers threshold fragment) : holders peers fragment ≠ [] := by
  have enough := pivot.2
  exact List.ne_nil_of_length_pos (by omega)

theorem IsPivot.mem_unchecked {fragment : Bytes} (pos : 1 ≤ threshold)
    (pivot : IsPivot checkedFragments peers threshold fragment) :
    fragment ∈ unchecked checkedFragments peers := by
  obtain ⟨peer, mem⟩ := List.exists_mem_of_ne_nil _ (pivot.holders_ne_nil pos)
  exact Lockfree.mem_unchecked.mpr ⟨⟨peer, mem_holders.mp mem⟩, pivot.1⟩

/-- A pivot is stored with itself. -/
theorem IsPivot.mem_commonFragments {fragment : Bytes} (pos : 1 ≤ threshold)
    (pivot : IsPivot checkedFragments peers threshold fragment) :
    fragment ∈ commonFragments (holders peers fragment) :=
  (Lockfree.mem_commonFragments (pivot.holders_ne_nil pos)).mpr fun _ mem => (mem_holders.mp mem).2

/-- **What is chosen**: nothing without a pivot or with an empty one, and else a sample of what is
stored wherever the pivot is. -/
theorem fragmentsToCheck_cases (pos : 1 ≤ threshold) :
    (Poll.fragmentsToCheck checkedFragments peers threshold limit choices = [] ∧
      ∀ fragment, ¬ IsPivot checkedFragments peers threshold fragment) ∨
    ∃ pivot, IsPivot checkedFragments peers threshold pivot ∧
      Poll.fragmentsToCheck checkedFragments peers threshold limit choices =
        if pivot = [] then []
        else choices.sample (commonFragments (holders peers pivot))
          (min (commonFragments (holders peers pivot)).length limit) := by
  have shuffled := choices.shuffle_perm (unchecked checkedFragments peers)
  unfold Poll.fragmentsToCheck
  dsimp only
  cases found : (choices.shuffle (unchecked checkedFragments peers)).find?
      fun fragment => threshold ≤ (holders peers fragment).length with
  | none =>
      refine .inl ⟨rfl, fun fragment pivot => ?_⟩
      have none := List.find?_eq_none.mp found fragment
        (shuffled.mem_iff.mpr (pivot.mem_unchecked pos))
      exact none (decide_eq_true pivot.2)
  | some pivot =>
      have stored := List.mem_of_find?_eq_some found
      have enough : threshold ≤ (holders peers pivot).length :=
        of_decide_eq_true (List.find?_some (p := fun fragment => decide (threshold ≤
          (holders peers fragment).length)) found)
      exact .inr ⟨pivot, ⟨(mem_unchecked.mp (shuffled.mem_iff.mp stored)).2, enough⟩, rfl⟩

/-- The pivot that a shuffle puts first. -/
theorem fragmentsToCheck_of_front (pos : 1 ≤ threshold) {pivot : Bytes}
    (isPivot : IsPivot checkedFragments peers threshold pivot)
    (front : choices.shuffle = moveToFront pivot) :
    Poll.fragmentsToCheck checkedFragments peers threshold limit choices =
      if pivot = [] then []
      else choices.sample (commonFragments (holders peers pivot))
        (min (commonFragments (holders peers pivot)).length limit) := by
  have found : (moveToFront pivot (unchecked checkedFragments peers)).find?
      (fun fragment => threshold ≤ (holders peers fragment).length) = some pivot :=
    find?_moveToFront (isPivot.mem_unchecked pos) (decide_eq_true isPivot.2)
  rw [Poll.fragmentsToCheck]
  simp only [front, found]

/-- **The choice makes progress** whatever is drawn, exactly if no pivot is empty, and no checked
fragment is stored by all the peers that store a pivot. -/
theorem progresses_iff (pos : 1 ≤ threshold) (limited : 1 ≤ limit) :
    (∀ choices, Progresses checkedFragments peers threshold limit
      (Poll.fragmentsToCheck checkedFragments peers threshold limit choices)) ↔
    ∀ pivot, pivot ∉ checkedFragments → threshold ≤ (holders peers pivot).length →
      pivot ≠ [] ∧ ∀ fragment ∈ checkedFragments,
        ∃ peer ∈ holders peers pivot, fragment ∉ peer.storedFragments := by
  constructor
  · intro progresses pivot fresh enough
    have isPivot : IsPivot checkedFragments peers threshold pivot := ⟨fresh, enough⟩
    have ne : pivot ≠ [] := by
      intro empty
      have chosen := @fragmentsToCheck_of_front _ _ _ limit (.favouring pivot pivot) pos _ isPivot rfl
      rw [if_pos empty] at chosen
      exact (progresses (.favouring pivot pivot)).empty_iff.mp chosen pivot isPivot
    refine ⟨ne, fun fragment checked => ?_⟩
    by_contra everywhere
    push Not at everywhere
    have common : fragment ∈ commonFragments (holders peers pivot) :=
      (mem_commonFragments (isPivot.holders_ne_nil pos)).mpr everywhere
    have chosen := @fragmentsToCheck_of_front _ _ _ limit (.favouring pivot fragment) pos _ isPivot rfl
    obtain ⟨rest, front⟩ : ∃ rest, moveToFront fragment (commonFragments (holders peers pivot)) =
        fragment :: rest := ⟨_, if_pos common⟩
    rw [if_neg ne] at chosen
    change _ = (moveToFront fragment (commonFragments (holders peers pivot))).take _ at chosen
    rw [front] at chosen
    have mem : fragment ∈ Poll.fragmentsToCheck checkedFragments peers threshold limit
        (.favouring pivot fragment) := by
      have length := List.length_pos_of_mem common
      rw [chosen, show min (commonFragments (holders peers pivot)).length limit =
        min (commonFragments (holders peers pivot)).length limit - 1 + 1 by omega,
        List.take_succ_cons]
      exact List.mem_cons_self
    exact (progresses (.favouring pivot fragment)).fresh fragment mem checked
  · intro apart choices
    rcases @fragmentsToCheck_cases checkedFragments peers threshold limit choices pos with
      ⟨none, noPivot⟩ | ⟨pivot, isPivot, chosen⟩
    · rw [none]
      exact ⟨⟨List.nodup_nil, Nat.zero_le _⟩, by simp, fun ne => absurd rfl ne,
        iff_of_true rfl noPivot⟩
    · obtain ⟨ne, elsewhere⟩ := apart pivot isPivot.1 isPivot.2
      rw [if_neg ne] at chosen
      have sub := choices.sample_subperm (commonFragments (holders peers pivot))
        (min (commonFragments (holders peers pivot)).length limit)
      have length := choices.length_sample (commonFragments (holders peers pivot))
        (min (commonFragments (holders peers pivot)).length limit) (min_le_left _ _)
      rw [← chosen] at sub length
      have stored : ∀ fragment ∈ Poll.fragmentsToCheck checkedFragments peers threshold limit choices,
          ∀ peer ∈ holders peers pivot, fragment ∈ peer.storedFragments := fun fragment mem =>
        (mem_commonFragments (isPivot.holders_ne_nil pos)).mp (sub.subset mem)
      obtain ⟨sampled, perm, sublist⟩ := id sub
      refine ⟨⟨perm.nodup_iff.mp ((nodup_commonFragments _).sublist sublist), by omega⟩,
        fun fragment mem checked => ?_,
        fun _ => ⟨holders peers pivot, List.filter_sublist, isPivot.2, fun peer own fragment mem =>
          stored fragment mem peer own⟩, iff_of_false (fun none => ?_) fun none =>
            none pivot isPivot⟩
      · obtain ⟨peer, own, absent⟩ := elsewhere fragment checked
        exact absent (stored fragment mem peer own)
      · have some := List.length_pos_of_mem (isPivot.mem_commonFragments pos)
        rw [none, List.length_nil] at length
        omega

end Choice

/-! ### A fragment that is checked twice -/

/-- A peer that stores some fragments. -/
def examplePeer (partyId : ℤ) (storedFragments : List Bytes) : DropboxPeer :=
  { partyId, name := "peer", pseudonym := [], storedFragments }

/-- The checked fragment `3` is not stored along with the others. -/
theorem example_progresses : Progresses [[3]]
    [examplePeer 0 [[1], [2]], examplePeer 1 [[1], [2], [3]]] 2 10
    (Poll.fragmentsToCheck [[3]] [examplePeer 0 [[1], [2]], examplePeer 1 [[1], [2], [3]]] 2 10
      (.favouring [1] [2])) := by
  refine (progresses_iff (by decide) (by decide)).mpr (fun pivot _ enough => ?_) _
  have stored : pivot = [1] ∨ pivot = [2] := by
    by_contra absent
    have alone : (holders [examplePeer 0 [[1], [2]], examplePeer 1 [[1], [2], [3]]] pivot).length ≤
        1 := by
      have first : pivot ∉ (examplePeer 0 [[1], [2]]).storedFragments := by
        simpa [examplePeer] using absent
      rw [holders, List.filter_cons_of_neg (by simpa using first)]
      exact List.length_filter_le _ _
    omega
  rcases stored with rfl | rfl <;> decide

/-- The fragment `1` was checked, and is stored wherever the fragment `2` is. -/
theorem checked_twice :
    ¬ ∀ choices, Progresses [[1]] [examplePeer 0 [[1], [2]], examplePeer 1 [[1], [2]]] 2 10
      (Poll.fragmentsToCheck [[1]] [examplePeer 0 [[1], [2]], examplePeer 1 [[1], [2]]] 2 10
        choices) := by
  intro progresses
  have fresh := (progresses (.favouring [2] [2])).fresh [1] (by decide)
  exact fresh (by decide)

end Prism.Lockfree
