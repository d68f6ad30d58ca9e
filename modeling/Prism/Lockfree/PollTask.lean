import Prism.Lockfree.FragmentChoice
import Prism.Lockfree.Retrieve

/-!
The loop over the fragments of a one-shot poll (`poll_task`, `peers_for_fragments` and `check_task`
in `prism/server/CS2/roles/lockfree/dropbox.py`).

As long as fragments are chosen for a check, the leader asks itself and some of the other peers
that hold all of them, and marks those that could be opened. What happens in one turn of the loop
beyond that is a `Turn`: what is drawn, how many preproducts are claimed, and whose masked shares
every peer gathers when all of them answer.

* `checkTask_of_checkable`: what a turn marks, where the fragments can be checked.
* `polls_end_iff`: the loop ends for every sequence of turns, with everything checked that it
  should, exactly if every fragment with enough holders can be checked wherever it is the pivot.
-/

namespace Prism.Lockfree

open Crypto

variable {package : CryptoPackage}

/-- `online_peers`, given the pseudonyms that the router can reach. -/
def LockFreeDropbox.onlinePeers (self : LockFreeDropbox) (reachable : List Bytes) :
    List DropboxPeer :=
  self.peers.filter (online reachable)

/-- The poll has a share for the peer. -/
def Poll.carries (poll : Poll package) (peer : DropboxPeer) : Bool :=
  (poll.peerFragments.lookup (some peer.partyId)).isSome

/-- `poll.peer_fragments[peer.party_id]`. -/
def Poll.fragmentFor (poll : Poll package) (peer : DropboxPeer) : Py PrismMessage :=
  match poll.peerFragments.lookup (some peer.partyId) with
  | some fragment => .ok fragment
  | none => .error .keyError

/-! ### Turns -/

/-- What one turn of the loop is given: what is drawn, the size of the chunk of preproducts that
is claimed for so many fragments, and the peers whose masked shares each peer gathers first. Every
message arrives, so that a peer gathers `threshold` of them, and every claim is served with
`supply` preproducts or as many as were asked for. -/
structure Turn (threshold supply : ℕ) where
  fragments : Choices Bytes
  buddies : Choices DropboxPeer
  granted : ℕ → ℕ
  granted_le : ∀ n, granted n ≤ n
  supplied : ∀ n, min n supply ≤ granted n
  gathered : List DropboxPeer → DropboxPeer → List DropboxPeer
  gathered_subperm : ∀ opPeers peer, (gathered opPeers peer).Subperm opPeers
  length_gathered : ∀ opPeers peer, threshold ≤ opPeers.length →
    (gathered opPeers peer).length = threshold

/-- A committee with a poll without an end. The leader is online, and known to itself as the local
peer; fragments have ids. -/
structure PollSetting (package : CryptoPackage) where
  self : LockFreeDropbox
  reachable : List Bytes
  poll : Poll package
  threshold : ℕ
  limit : ℕ
  supply : ℕ
  leader : DropboxPeer
  local_eq : self.localPeer = some leader
  leader_mem : leader ∈ self.onlinePeers reachable
  isLocal_iff : ∀ peer ∈ self.onlinePeers reachable, peer.isLocal = true ↔ peer = leader
  distinct : (self.onlinePeers reachable).Nodup
  named : ∀ peer ∈ self.onlinePeers reachable, [] ∉ peer.storedFragments
  threshold_pos : 1 ≤ threshold
  limit_pos : 1 ≤ limit
  supply_pos : 1 ≤ supply

namespace PollSetting

variable (setting : PollSetting package)

/-- The peers that are online. -/
def peers : List DropboxPeer := setting.self.onlinePeers setting.reachable

/-- What can be asked along with the leader. -/
def buddies (fragments : List Bytes) : List DropboxPeer :=
  setting.peers.filter fun peer => !peer.isLocal &&
    fragments.all (· ∈ peer.storedFragments) && setting.poll.carries peer

variable (turn : Turn setting.threshold setting.supply)

/-- `peers_for_fragments`. -/
def peersForFragments (fragments : List Bytes) : List DropboxPeer :=
  let buddies := setting.buddies fragments
  setting.leader :: turn.buddies.sample buddies (min buddies.length setting.threshold)

/-- Enough of the peers that were asked have gathered only real shares of a target, so that their
own shares of the result are real. -/
def opens (opPeers : List DropboxPeer) (target : Bytes) : Bool :=
  setting.threshold ≤ (opPeers.filter fun peer =>
    (turn.gathered opPeers peer).all (target ∈ ·.storedFragments)).length

/-- `check_task`: the fragments that are marked as checked. A request carries the share that the
poll has for a peer. -/
def checkTask (fragments : List Bytes) : Py (List Bytes) := do
  let opPeers := setting.peersForFragments turn fragments
  if opPeers.length < setting.threshold then return []
  else
    let targets := fragments.take (turn.granted fragments.length)
    let _ ← opPeers.mapM setting.poll.fragmentFor
    return targets.filter (setting.opens turn opPeers)

/-- Where the loop stands. -/
inductive Status where
  | polling (checkedFragments : List Bytes)
  | ended (checkedFragments : List Bytes)
  | raised (e : PyError)

/-- One turn of the loop. -/
def iterate (checkedFragments : List Bytes) : Status :=
  let fragments := Poll.fragmentsToCheck checkedFragments setting.peers setting.threshold
    setting.limit turn.fragments
  if fragments = [] then .ended checkedFragments
  else
    match setting.checkTask turn fragments with
    | .ok marked => .polling (checkedFragments ++ marked)
    | .error e => .raised e

/-- The loop after so many turns. -/
def run (turns : ℕ → Turn setting.threshold setting.supply) : ℕ → Status
  | 0 => .polling []
  | n + 1 =>
    match run turns n with
    | .polling checkedFragments => setting.iterate (turns n) checkedFragments
    | status => status

/-- The loop ends, with every fragment checked that is stored on enough peers for which the poll
carries shares. -/
def Ends : Prop :=
  ∀ turns, ∃ n checkedFragments, setting.run turns n = .ended checkedFragments ∧
    ∀ fragment, setting.threshold ≤
        ((holders setting.peers fragment).filter setting.poll.carries).length →
      fragment ∈ checkedFragments

/-- A fragment can be checked whenever it is the pivot: the leader and enough other peers store it
and have a share in the poll, and what is stored along with it fits into one check. -/
def Checkable (fragment : Bytes) : Prop :=
  setting.poll.carries setting.leader = true ∧
    fragment ∈ setting.leader.storedFragments ∧
    setting.threshold ≤ ((holders setting.peers fragment).filter setting.poll.carries).length ∧
    (commonFragments (holders setting.peers fragment)).length ≤ min setting.limit setting.supply

variable {setting} {turn}

/-! ### One turn -/

/-- The peers that are asked hold the fragments and, apart from the leader, have shares. -/
theorem mem_buddies {fragments : List Bytes} {peer : DropboxPeer} :
    peer ∈ setting.buddies fragments ↔ peer ∈ setting.peers ∧ peer ≠ setting.leader ∧
      (∀ fragment ∈ fragments, fragment ∈ peer.storedFragments) ∧
      setting.poll.carries peer = true := by
  rw [buddies, List.mem_filter, and_congr_right_iff]
  intro mem
  have isLocal := setting.isLocal_iff peer mem
  simp only [Bool.and_eq_true, Bool.not_eq_true', List.all_eq_true, decide_eq_true_eq, ne_eq,
    ← isLocal, Bool.not_eq_true, and_assoc]

theorem mem_peersForFragments {fragments : List Bytes} {peer : DropboxPeer}
    (mem : peer ∈ setting.peersForFragments turn fragments) :
    peer = setting.leader ∨ peer ∈ setting.buddies fragments :=
  (List.mem_cons.mp mem).imp_right fun sampled =>
    (turn.buddies.sample_subperm _ _).subset sampled

theorem length_peersForFragments (fragments : List Bytes) :
    (setting.peersForFragments turn fragments).length =
      min (setting.buddies fragments).length setting.threshold + 1 := by
  rw [peersForFragments, List.length_cons, turn.buddies.length_sample _ _ (min_le_left _ _)]

theorem nodup_peersForFragments (fragments : List Bytes) :
    (setting.peersForFragments turn fragments).Nodup := by
  rw [peersForFragments, List.nodup_cons]
  have sub := turn.buddies.sample_subperm (setting.buddies fragments)
    (min (setting.buddies fragments).length setting.threshold)
  constructor
  · intro sampled
    exact (mem_buddies.mp (sub.subset sampled)).2.1 rfl
  · obtain ⟨sampled, perm, sublist⟩ := sub
    exact perm.nodup_iff.mp ((setting.distinct.filter _).sublist sublist)

/-- The requests are made if the poll has a share for the leader. -/
theorem requests_ok (fragments : List Bytes) (carried : setting.poll.carries setting.leader = true) :
    ∃ requests,
      (setting.peersForFragments turn fragments).mapM setting.poll.fragmentFor = .ok requests := by
  refine ⟨_, @mapM_ok _ _ _ (fun peer =>
    (setting.poll.peerFragments.lookup (some peer.partyId)).getD default) _ fun peer asked => ?_⟩
  have has : setting.poll.carries peer = true := by
    rcases mem_peersForFragments asked with rfl | buddy
    · exact carried
    · exact (mem_buddies.mp buddy).2.2.2
  obtain ⟨fragment, found⟩ := Option.isSome_iff_exists.mp has
  rw [Poll.fragmentFor, found, Option.getD_some]

theorem carries_of_requests {fragments : List Bytes} {requests : List PrismMessage}
    (made : (setting.peersForFragments turn fragments).mapM setting.poll.fragmentFor =
      .ok requests) : setting.poll.carries setting.leader = true := by
  obtain ⟨request, -, first⟩ := (mem_mapM made).1 setting.leader List.mem_cons_self
  unfold Poll.fragmentFor at first
  unfold Poll.carries
  split at first
  · next found => rw [found, Option.isSome_some]
  · cases first

/-- **What a turn marks**, where the fragments can be checked. -/
theorem checkTask_of_checkable {fragments : List Bytes} {pivot : Bytes}
    (checkable : setting.Checkable pivot)
    (stored : ∀ fragment ∈ fragments, ∀ peer ∈ holders setting.peers pivot,
      fragment ∈ peer.storedFragments) (fits : fragments.length ≤ setting.supply) :
    setting.checkTask turn fragments = .ok fragments := by
  obtain ⟨carried, own, enough, -⟩ := checkable
  have leading : setting.leader ∈ holders setting.peers pivot :=
    mem_holders.mpr ⟨setting.leader_mem, own⟩
  -- Whoever stores the pivot and has a share is the leader or can be asked with it.
  have asked : ((holders setting.peers pivot).filter setting.poll.carries).length ≤
      (setting.buddies fragments).length + 1 := by
    have distinct : ((holders setting.peers pivot).filter setting.poll.carries).Nodup :=
      (setting.distinct.filter _).filter _
    have among : (holders setting.peers pivot).filter setting.poll.carries ⊆
        setting.leader :: setting.buddies fragments := by
      intro peer mem
      obtain ⟨holds, has⟩ := List.mem_filter.mp mem
      by_cases leads : peer = setting.leader
      · rw [leads]
        exact List.mem_cons_self
      · exact List.mem_cons_of_mem _ (mem_buddies.mpr ⟨(mem_holders.mp holds).1, leads,
          fun fragment inside => stored fragment inside peer holds, has⟩)
    exact (List.subperm_of_subset distinct among).length_le
  have length := @length_peersForFragments _ setting turn fragments
  obtain ⟨requests, made⟩ := @requests_ok _ setting turn fragments carried
  have all : fragments.take (turn.granted fragments.length) = fragments := by
    have supplied := turn.supplied fragments.length
    exact List.take_of_length_le (by omega)
  have opened : ∀ fragment ∈ fragments,
      setting.opens turn (setting.peersForFragments turn fragments) fragment = true := by
    intro fragment inside
    have real : ∀ peer ∈ setting.peersForFragments turn fragments,
        fragment ∈ peer.storedFragments := by
      intro peer op
      rcases mem_peersForFragments op with rfl | buddy
      · exact stored fragment inside _ leading
      · exact (mem_buddies.mp buddy).2.2.1 fragment inside
    rw [opens, decide_eq_true_eq, List.filter_eq_self.mpr, length]
    · omega
    · intro peer _
      refine List.all_eq_true.mpr fun other gathered => decide_eq_true ?_
      exact real other ((turn.gathered_subperm _ peer).subset gathered)
  rw [checkTask, if_neg (by omega), made, ok_bind, all, List.filter_eq_self.mpr opened]
  rfl

/-- What must be so for a fragment to be marked. -/
theorem of_mem_checkTask {fragments marked : List Bytes} {target : Bytes}
    (run : setting.checkTask turn fragments = .ok marked) (mem : target ∈ marked) :
    setting.threshold ≤ (setting.peersForFragments turn fragments).length ∧
      setting.poll.carries setting.leader = true ∧
      target ∈ fragments.take (turn.granted fragments.length) ∧
      setting.opens turn (setting.peersForFragments turn fragments) target = true := by
  rw [checkTask] at run
  dsimp only at run
  split_ifs at run with few
  · obtain rfl := Except.ok.inj run
    exact absurd mem List.not_mem_nil
  · obtain ⟨requests, made, run⟩ := bind_eq_ok.mp run
    obtain rfl := Except.ok.inj run
    obtain ⟨inside, opened⟩ := List.mem_filter.mp mem
    exact ⟨not_lt.mp few, carries_of_requests made, inside, opened⟩

/-- **A turn makes progress**: it marks the pivot, or there is none. -/
theorem iterate_of_checkable {checkedFragments : List Bytes}
    (checkable : ∀ pivot, IsPivot checkedFragments setting.peers setting.threshold pivot →
      setting.Checkable pivot) :
    (setting.iterate turn checkedFragments = .ended checkedFragments ∧
      ∀ pivot, ¬ IsPivot checkedFragments setting.peers setting.threshold pivot) ∨
    ∃ pivot marked, IsPivot checkedFragments setting.peers setting.threshold pivot ∧
      pivot ∈ marked ∧
      setting.iterate turn checkedFragments = .polling (checkedFragments ++ marked) := by
  rcases @fragmentsToCheck_cases checkedFragments setting.peers setting.threshold setting.limit
      turn.fragments setting.threshold_pos with ⟨none, noPivot⟩ | ⟨pivot, isPivot, chosen⟩
  · refine .inl ⟨?_, noPivot⟩
    rw [iterate, none]
    exact if_pos rfl
  · right
    have holding := isPivot.holders_ne_nil setting.threshold_pos
    have ne : pivot ≠ [] := by
      rintro rfl
      obtain ⟨peer, holds⟩ := List.exists_mem_of_ne_nil _ holding
      exact setting.named peer (mem_holders.mp holds).1 (mem_holders.mp holds).2
    have fits := (checkable pivot isPivot).2.2.2
    rw [if_neg ne, min_eq_left (fits.trans (min_le_left _ _))] at chosen
    have length := turn.fragments.length_sample (commonFragments (holders setting.peers pivot)) _
      le_rfl
    have perm := (turn.fragments.sample_subperm (commonFragments (holders setting.peers pivot))
      (commonFragments (holders setting.peers pivot)).length).perm_of_length_le length.ge
    generalize turn.fragments.sample (commonFragments (holders setting.peers pivot))
      (commonFragments (holders setting.peers pivot)).length = fragments at *
    have mem : pivot ∈ fragments :=
      perm.mem_iff.mpr (isPivot.mem_commonFragments setting.threshold_pos)
    have marked := @checkTask_of_checkable _ setting turn fragments pivot (checkable pivot isPivot)
      (fun fragment inside peer holds =>
        (mem_commonFragments holding).mp (perm.mem_iff.mp inside) peer holds)
      (length.trans_le (fits.trans (min_le_right _ _)))
    refine ⟨pivot, fragments, isPivot, mem, ?_⟩
    rw [iterate, chosen, if_neg (List.ne_nil_of_mem mem), marked]

/-! ### Loops that end -/

/-- The fragments that are left to check, of those that can be a pivot. -/
def left (setting : PollSetting package) (checkedFragments : List Bytes) : List Bytes :=
  (unchecked checkedFragments setting.peers).filter fun fragment =>
    setting.threshold ≤ (holders setting.peers fragment).length

theorem mem_left {checkedFragments : List Bytes} {fragment : Bytes} :
    fragment ∈ setting.left checkedFragments ↔
      IsPivot checkedFragments setting.peers setting.threshold fragment := by
  rw [left, List.mem_filter, decide_eq_true_eq]
  exact ⟨fun mem => ⟨(mem_unchecked.mp mem.1).2, mem.2⟩,
    fun pivot => ⟨pivot.mem_unchecked setting.threshold_pos, pivot.2⟩⟩

/-- Marking a fragment that was left leaves fewer. -/
theorem length_left_lt {checkedFragments marked : List Bytes} {pivot : Bytes}
    (isPivot : IsPivot checkedFragments setting.peers setting.threshold pivot)
    (mem : pivot ∈ marked) :
    (setting.left (checkedFragments ++ marked)).length <
      (setting.left checkedFragments).length := by
  have distinct (checked : List Bytes) : (setting.left checked).Nodup :=
    ((List.nodup_dedup _).filter _).filter _
  have among : pivot :: setting.left (checkedFragments ++ marked) ⊆
      setting.left checkedFragments := by
    intro fragment inside
    rcases List.mem_cons.mp inside with rfl | inside
    · exact mem_left.mpr isPivot
    · obtain ⟨fresh, enough⟩ := mem_left.mp inside
      exact mem_left.mpr ⟨fun checked => fresh (List.mem_append_left _ checked), enough⟩
  have outside : pivot ∉ setting.left (checkedFragments ++ marked) := fun inside =>
    (mem_left.mp inside).1 (List.mem_append_right _ mem)
  have length := (List.subperm_of_subset (List.nodup_cons.mpr ⟨outside, distinct _⟩)
    among).length_le
  rw [List.length_cons] at length
  omega

/-- From every turn on the loop ends, without a pivot left. -/
theorem ends_of_checkable
    (checkable : ∀ fragment, setting.threshold ≤ (holders setting.peers fragment).length →
      setting.Checkable fragment)
    (turns : ℕ → Turn setting.threshold setting.supply) {n : ℕ} {checkedFragments : List Bytes}
    (now : setting.run turns n = .polling checkedFragments) :
    ∃ n' checkedFragments', setting.run turns n' = .ended checkedFragments' ∧
      ∀ pivot, ¬ IsPivot checkedFragments' setting.peers setting.threshold pivot := by
  -- Every turn leaves fewer fragments.
  induction count : (setting.left checkedFragments).length using Nat.strong_induction_on
    generalizing n checkedFragments with
  | _ count ih =>
      have next : setting.run turns (n + 1) = setting.iterate (turns n) checkedFragments := by
        rw [run, now]
      rcases @iterate_of_checkable _ setting (turns n) checkedFragments
          fun pivot isPivot => checkable pivot isPivot.2 with
        ⟨ended, noPivot⟩ | ⟨pivot, marked, isPivot, mem, polling⟩
      · exact ⟨n + 1, checkedFragments, next.trans ended, noPivot⟩
      · exact ih _ (count ▸ length_left_lt isPivot mem) (next.trans polling) rfl

/-! ### Loops that do not end -/

/-- The end of a list is the last to be taken. -/
theorem length_le_of_mem_take {xs : List Bytes} {x : Bytes} (distinct : xs.Nodup) (mem : x ∈ xs)
    {k : ℕ} (taken : x ∈ (xs.erase x ++ [x]).take k) : xs.length ≤ k := by
  by_contra few
  have length := List.length_erase_of_mem mem
  have positive := List.length_pos_of_mem mem
  rw [List.take_append_of_le_length (by omega)] at taken
  exact (distinct.mem_erase_iff.mp (List.mem_of_mem_take taken)).1 rfl

theorem head_mem_take {α : Type} {k : ℕ} (pos : 1 ≤ k) (x : α) (xs : List α) :
    x ∈ (x :: xs).take k := by
  obtain ⟨j, rfl⟩ := Nat.exists_eq_add_of_le' pos
  rw [List.take_succ_cons]
  exact List.mem_cons_self

/-- What is drawn when one element comes first in every shuffle, and last in every sample. -/
def avoiding (x : Bytes) : Choices Bytes where
  shuffle := moveToFront x
  shuffle_perm := moveToFront_perm x
  sample xs k := if x ∈ xs then (xs.erase x ++ [x]).take k else xs.take k
  sample_subperm xs k := by
    split_ifs with mem
    · have perm : (xs.erase x ++ [x]).Perm xs :=
        (List.perm_append_singleton x _).trans (List.perm_cons_erase mem).symm
      exact (List.take_sublist k _).subperm.trans perm.subperm
    · exact (List.take_sublist k xs).subperm
  length_sample xs k le := by
    split_ifs with mem
    · have length := List.length_erase_of_mem mem
      have positive := List.length_pos_of_mem mem
      rw [List.length_take, List.length_append, List.length_singleton]
      omega
    · rw [List.length_take, min_eq_left le]

/-- The first peers are taken. -/
def firstPeers : Choices DropboxPeer where
  shuffle := id
  shuffle_perm := .refl
  sample xs k := xs.take k
  sample_subperm xs k := (List.take_sublist k xs).subperm
  length_sample xs k le := by rw [List.length_take, min_eq_left le]

/-- The turn in which a fragment is the pivot, but the last to be checked, and in which every peer
gathers the share of the leader. -/
def avoidingTurn (setting : PollSetting package) (pivot : Bytes) :
    Turn setting.threshold setting.supply where
  fragments := avoiding pivot
  buddies := firstPeers
  granted n := min n setting.supply
  granted_le _ := min_le_left _ _
  supplied _ := le_rfl
  gathered opPeers _ := opPeers.take setting.threshold
  gathered_subperm opPeers _ := (List.take_sublist _ opPeers).subperm
  length_gathered opPeers _ le := by rw [List.length_take, min_eq_left le]

/-- **A fragment that is not checkable is never marked** in such a turn, and remains the pivot. -/
theorem iterate_avoidingTurn {checkedFragments : List Bytes} {pivot : Bytes}
    (isPivot : IsPivot checkedFragments setting.peers setting.threshold pivot)
    (uncheckable : ¬ setting.Checkable pivot) :
    (∃ e, setting.iterate (setting.avoidingTurn pivot) checkedFragments = .raised e) ∨
      ∃ marked, pivot ∉ marked ∧ setting.iterate (setting.avoidingTurn pivot) checkedFragments =
        .polling (checkedFragments ++ marked) := by
  have holding := isPivot.holders_ne_nil setting.threshold_pos
  have common := isPivot.mem_commonFragments setting.threshold_pos
  have distinct := nodup_commonFragments (holders setting.peers pivot)
  have ne : pivot ≠ [] := by
    rintro rfl
    obtain ⟨peer, holds⟩ := List.exists_mem_of_ne_nil _ holding
    exact setting.named peer (mem_holders.mp holds).1 (mem_holders.mp holds).2
  have chosen := @fragmentsToCheck_of_front checkedFragments setting.peers setting.threshold
    setting.limit (setting.avoidingTurn pivot).fragments setting.threshold_pos pivot isPivot rfl
  have sampled : (setting.avoidingTurn pivot).fragments.sample
      (commonFragments (holders setting.peers pivot))
        (min (commonFragments (holders setting.peers pivot)).length setting.limit) =
      ((commonFragments (holders setting.peers pivot)).erase pivot ++ [pivot]).take
        (min (commonFragments (holders setting.peers pivot)).length setting.limit) :=
    if_pos common
  rw [if_neg ne, sampled] at chosen
  generalize hfragments : ((commonFragments (holders setting.peers pivot)).erase pivot ++
    [pivot]).take (min (commonFragments (holders setting.peers pivot)).length setting.limit) =
      fragments at chosen
  have some : fragments ≠ [] := by
    have positive := List.length_pos_of_mem common
    have limited := setting.limit_pos
    rw [← hfragments]
    refine List.ne_nil_of_length_pos ?_
    rw [List.length_take, List.length_append, List.length_singleton]
    omega
  rw [iterate, chosen, if_neg some]
  cases run : setting.checkTask (setting.avoidingTurn pivot) fragments with
  | error e => exact .inl ⟨e, rfl⟩
  | ok marked =>
      refine .inr ⟨marked, fun mem => uncheckable ?_, rfl⟩
      obtain ⟨enough, carried, inside, opened⟩ := of_mem_checkTask run mem
      have mem_fragments : pivot ∈ fragments := List.mem_of_mem_take inside
      -- The leader's share is among those that each peer gathers, so that it must be real.
      have own : pivot ∈ setting.leader.storedFragments := by
        have positive := setting.threshold_pos
        have real : setting.threshold ≤ _ := of_decide_eq_true opened
        obtain ⟨peer, counted⟩ := List.exists_mem_of_length_pos (positive.trans real)
        have gathered := List.all_eq_true.mp (List.mem_filter.mp counted).2 setting.leader
        exact of_decide_eq_true (gathered (head_mem_take positive _ _))
      refine ⟨carried, own, ?_, ?_⟩
      · have among : setting.peersForFragments (setting.avoidingTurn pivot) fragments ⊆
            (holders setting.peers pivot).filter setting.poll.carries := by
          intro peer asked
          rcases mem_peersForFragments asked with rfl | buddy
          · exact List.mem_filter.mpr ⟨mem_holders.mpr ⟨setting.leader_mem, own⟩, carried⟩
          · obtain ⟨online, -, stores, has⟩ := mem_buddies.mp buddy
            exact List.mem_filter.mpr ⟨mem_holders.mpr ⟨online, stores pivot mem_fragments⟩, has⟩
        exact enough.trans
          (List.subperm_of_subset (nodup_peersForFragments fragments) among).length_le
      · rw [← hfragments, List.take_take] at inside
        have fits := length_le_of_mem_take distinct common inside
        have granted : (setting.avoidingTurn pivot).granted fragments.length ≤ setting.supply :=
          min_le_right _ _
        rw [hfragments] at fits
        omega

/-- A fragment that is not checkable stays a pivot, and the loop goes on or fails. -/
theorem not_ends_of_uncheckable {fragment : Bytes}
    (enough : setting.threshold ≤ (holders setting.peers fragment).length)
    (uncheckable : ¬ setting.Checkable fragment) : ¬ setting.Ends := by
  intro ends
  obtain ⟨n, checkedFragments, ended, -⟩ := ends fun _ => setting.avoidingTurn fragment
  have kept : ∀ n, (∃ e, setting.run (fun _ => setting.avoidingTurn fragment) n = .raised e) ∨
      ∃ checked, fragment ∉ checked ∧
        setting.run (fun _ => setting.avoidingTurn fragment) n = .polling checked := by
    intro n
    induction n with
    | zero => exact .inr ⟨[], List.not_mem_nil, rfl⟩
    | succ n ih =>
        rcases ih with ⟨e, raised⟩ | ⟨checked, fresh, polling⟩
        · exact .inl ⟨e, by rw [run, raised]⟩
        · rcases @iterate_avoidingTurn _ setting checked fragment ⟨fresh, enough⟩ uncheckable with
            ⟨e, raised⟩ | ⟨marked, absent, polling'⟩
          · exact .inl ⟨e, by rw [run, polling]; exact raised⟩
          · refine .inr ⟨checked ++ marked, ?_, by rw [run, polling]; exact polling'⟩
            exact fun mem => (List.mem_append.mp mem).elim fresh absent
  rcases kept n with ⟨e, raised⟩ | ⟨checked, -, polling⟩
  · rw [raised] at ended
    cases ended
  · rw [polling] at ended
    cases ended

/-- **A one-shot poll ends** for every sequence of turns, with everything checked that is stored on
enough peers with shares, exactly if every fragment that enough peers store is checkable. -/
theorem polls_end_iff (setting : PollSetting package) :
    setting.Ends ↔ ∀ fragment, setting.threshold ≤ (holders setting.peers fragment).length →
      setting.Checkable fragment := by
  constructor
  · intro ends fragment enough
    by_contra uncheckable
    exact not_ends_of_uncheckable enough uncheckable ends
  · intro checkable turns
    obtain ⟨n, checkedFragments, ended, noPivot⟩ :=
      @ends_of_checkable _ setting checkable turns 0 [] rfl
    refine ⟨n, checkedFragments, ended, fun fragment enough => ?_⟩
    by_contra fresh
    exact noPivot fragment ⟨fresh, enough.trans (List.length_filter_le _ _)⟩

/-- A committee of three, all of whom hold one fragment. -/
def exampleCommittee : LockFreeDropbox where
  partyId := 0
  peers := [{ examplePeer 0 [[1]] with isLocal := true },
    { examplePeer 1 [[1]] with pseudonym := [7], ready := true },
    { examplePeer 2 [[1]] with pseudonym := [8], ready := true }]

theorem onlinePeers_exampleCommittee :
    exampleCommittee.onlinePeers [[7], [8]] = exampleCommittee.peers :=
  List.filter_eq_self.mpr (by decide)

/-- A poll of it that carries a share for the leader alone. -/
def examplePoll : PollSetting .additive where
  self := exampleCommittee
  reachable := [[7], [8]]
  poll := { nonce := .none, halfKey := none, expiration := none, linkAddresses := .none,
            peerFragments := [(some 0, default)] }
  threshold := 2
  limit := 10
  supply := 10
  leader := { examplePeer 0 [[1]] with isLocal := true }
  local_eq := rfl
  leader_mem := by
    rw [onlinePeers_exampleCommittee]
    exact List.mem_cons_self
  isLocal_iff := by
    rw [onlinePeers_exampleCommittee]
    simp [exampleCommittee, examplePeer]
  distinct := by
    rw [onlinePeers_exampleCommittee]
    exact List.Nodup.of_map (·.partyId) (by decide)
  named := by
    rw [onlinePeers_exampleCommittee]
    decide
  threshold_pos := by decide
  limit_pos := by decide
  supply_pos := by decide

/-- Nobody is asked along with the leader, and nothing is ever checked. -/
theorem unending_poll : ¬ examplePoll.Ends :=
  @not_ends_of_uncheckable _ examplePoll [1] (by decide) fun checkable =>
    absurd checkable.2.2.1 (by decide)

end PollSetting

end Prism.Lockfree
