import Prism.Itertools
import Prism.Lockfree.EpochCommittee

/-!
The groups of peers that can generate preproducts (`preproduct_groups` in
`prism/server/CS2/roles/lockfree/mpc.py`).

A batch of triples takes as many peers as a polynomial of twice the degree of the sharing has
coefficients. The leader starts a task for every group of that size that it is in, and a claim of
preproducts waits until one of these tasks has generated some. A committee is formed with one
member more than the threshold, which is less for thresholds from 3 on.

* `preproductGroups_ne_nil_iff`: there are groups exactly if there are enough peers.
* `formed_can_work_iff`: a committee that was formed can work exactly if it has enough members.
-/

namespace Prism.Lockfree

open Lib (sortBy)
open Routing (Eark)
open Vrf (Setting Settings)

/-- `preprocessing_threshold`, of a sharing with this threshold. -/
def preprocessingThreshold (threshold : ℤ) : ℤ :=
  let degree := threshold - 1
  2 * degree + 1

/-- `preproduct_groups`. Peers are told apart by their party ids. -/
def LockFreeDropbox.preproductGroups (self : LockFreeDropbox) (threshold : ℤ) :
    Py (List (List DropboxPeer)) := do
  let counts := pyRange (preprocessingThreshold threshold) (self.peers.length + 1)
  let combos ← counts.mapM fun count => combinations self.peers count
  match combos.flatten, self.localPeer with
  | [], _ => return []
  | combos, some localPeer =>
    return combos.filter fun combo => combo.any (·.partyId = localPeer.partyId)
  | _, none => throw .indexError

/-- `preproduct_task`: the groups that a task is started for. -/
def LockFreeDropbox.preproductTask (self : LockFreeDropbox) (threshold : ℤ) :
    Py (List (List DropboxPeer)) :=
  if self.partyId > 0 then return [] else self.preproductGroups threshold

variable {self : LockFreeDropbox} {threshold : ℤ}

/-- The peers themselves are a group, if there are enough of them. -/
theorem mem_combos {combos : List (List (List DropboxPeer))}
    (run : (pyRange (preprocessingThreshold threshold) (self.peers.length + 1)).mapM
      (fun count => combinations self.peers count) = .ok combos)
    (enough : preprocessingThreshold threshold ≤ self.peers.length) :
    self.peers ∈ combos.flatten := by
  have inside : (self.peers.length : ℤ) ∈
      pyRange (preprocessingThreshold threshold) (self.peers.length + 1) :=
    mem_pyRange.mpr ⟨enough, by omega⟩
  obtain ⟨groups, mem, made⟩ := (mem_mapM run).1 _ inside
  exact List.mem_flatten.mpr
    ⟨groups, mem, (mem_combinations made).mpr ⟨List.Sublist.refl _, rfl⟩⟩

/-- **There are groups** exactly if there are enough peers. -/
theorem preproductGroups_ne_nil_iff (pos : 1 ≤ threshold) {localPeer : DropboxPeer}
    (own : self.localPeer = some localPeer) (mem : localPeer ∈ self.peers) :
    ∃ groups, self.preproductGroups threshold = .ok groups ∧
      (groups ≠ [] ↔ preprocessingThreshold threshold ≤ self.peers.length) := by
  have each : ∀ count ∈ pyRange (preprocessingThreshold threshold) (self.peers.length + 1),
      combinations self.peers count = .ok (List.sublistsLen count.toNat self.peers).reverse := by
    intro count inside
    have low : 2 * (threshold - 1) + 1 ≤ count := (mem_pyRange.mp inside).1
    exact if_pos (by omega)
  have run := mapM_ok each
  rw [LockFreeDropbox.preproductGroups, run, ok_bind, own]
  by_cases enough : preprocessingThreshold threshold ≤ self.peers.length
  · have whole := mem_combos run enough
    generalize (List.map _ _).flatten = combos at whole ⊢
    obtain ⟨first, rest, rfl⟩ := List.exists_cons_of_ne_nil (List.ne_nil_of_mem whole)
    refine ⟨_, rfl, iff_of_true (fun none => ?_) enough⟩
    have found := List.filter_eq_nil_iff.mp none self.peers whole
    exact found (List.any_eq_true.mpr ⟨localPeer, mem, decide_eq_true rfl⟩)
  · have empty : pyRange (preprocessingThreshold threshold) (self.peers.length + 1) = [] :=
      List.eq_nil_iff_forall_not_mem.mpr fun count inside => by
        have bounds := mem_pyRange.mp inside
        omega
    rw [empty]
    exact ⟨[], rfl, iff_of_false (fun ne => ne rfl) enough⟩

/-! ### A committee that was formed -/

section Formed

variable {configuration : Settings} {committeeName id : String} {nparties : ℤ}
  {payloads : List Eark} {formed : LockFreeDropbox}

theorem length_pySlice_zero {α : Type} (xs : List α) (stop : ℤ) :
    (pySlice xs 0 stop).length = sliceBound xs.length stop := by
  have start : sliceBound xs.length 0 = 0 := by simp [sliceBound]
  have stop_le := sliceBound_le xs.length stop
  rw [pySlice, start, List.drop_zero, Nat.sub_zero, List.length_take, min_eq_left stop_le]

/-- The committee has a peer for each active member. -/
theorem formed_peers (parties : configuration.get "mpc_nparties" .none = .int nparties)
    (needed : configuration.get "threshold" .none = .int threshold)
    (run : formEpochCommittee configuration committeeName id payloads self = .ok (formed, true)) :
    formed.peers.length =
        sliceBound (payloads.filter (·.isIn committeeName)).length nparties ∧
      threshold + 1 ≤ formed.peers.length := by
  rw [formEpochCommittee, needed, parties] at run
  simp only [Setting.plus, sliceTo, ok_bind] at run
  have length := length_pySlice_zero (sortBy (fun eark : Eark => hex eark.pseudonym)
    (payloads.filter (·.isIn committeeName))) nparties
  rw [Lib.length_sortBy] at length
  generalize pySlice (sortBy (fun eark : Eark => hex eark.pseudonym)
    (payloads.filter (·.isIn committeeName))) 0 nparties = active at run length
  split_ifs at run with few
  · cases run
  · obtain ⟨rfl, -⟩ := Prod.mk.inj (Except.ok.inj run)
    have count : (self.seat id (active.map Eark.member)).peers.length = active.length := by
      simp [LockFreeDropbox.seat]
    have enough : threshold + 1 ≤ active.length := by exact_mod_cast not_lt.mp few
    rw [count]
    exact ⟨length, enough⟩

/-- **A committee that was formed can work** exactly if enough of its members are known and
active. -/
theorem formed_can_work_iff (parties : configuration.get "mpc_nparties" .none = .int nparties)
    (needed : configuration.get "threshold" .none = .int threshold) (pos : 1 ≤ threshold)
    (run : formEpochCommittee configuration committeeName id payloads self = .ok (formed, true))
    (leader : formed.partyId = 0) :
    ∃ groups, formed.preproductTask threshold = .ok groups ∧
      formed.preproductGroups threshold = .ok groups ∧
      (groups ≠ [] ↔ 2 * (threshold - 1) + 1 ≤
        sliceBound (payloads.filter (·.isIn committeeName)).length nparties) := by
  obtain ⟨count, enough⟩ := formed_peers parties needed run
  obtain ⟨localPeer, first⟩ : ∃ peer, formed.peers[0]? = some peer :=
    ⟨_, List.getElem?_eq_getElem (by omega)⟩
  have own : formed.localPeer = some localPeer := by
    rw [LockFreeDropbox.localPeer, leader, pyPlace, if_pos le_rfl, if_pos (by omega)]
    exact first
  obtain ⟨groups, made, iff⟩ := preproductGroups_ne_nil_iff pos own (List.mem_of_getElem? first)
  refine ⟨groups, ?_, made, ?_⟩
  · rw [LockFreeDropbox.preproductTask, if_neg (by omega)]
    exact made
  · rw [iff, count]
    rfl

end Formed

/-- The announcements of a committee of four. -/
def exampleFour : List Eark :=
  [exampleEark "w" [1], exampleEark "x" [2], exampleEark "y" [3], exampleEark "z" [4]]

/-- Four members are enough for a threshold of 2. -/
theorem example_can_work :
    ∃ formed groups,
      formEpochCommittee [("mpc_nparties", .int 4), ("threshold", .int 2)] "c" "w" exampleFour {} =
        .ok (formed, true) ∧
      formed.partyId = 0 ∧ formed.preproductGroups 2 = .ok groups ∧ groups ≠ [] := by
  obtain ⟨groups, -, made, iff⟩ := @formed_can_work_iff {} 2
    [("mpc_nparties", .int 4), ("threshold", .int 2)] "c" "w" 4 exampleFour _ rfl rfl (by decide)
    rfl rfl
  exact ⟨_, groups, rfl, rfl, made, iff.mpr (by decide)⟩

/-- Four members form a committee with a threshold of 3, in which nothing can be generated. -/
theorem formed_cannot_work :
    ∃ formed,
      formEpochCommittee [("mpc_nparties", .int 4), ("threshold", .int 3)] "c" "w" exampleFour {} =
        .ok (formed, true) ∧
      formed.partyId = 0 ∧ formed.preproductGroups 3 = .ok [] := by
  refine ⟨_, rfl, ?_, ?_⟩
  · rfl
  · rfl

end Prism.Lockfree
