import Prism.Lockfree.Preproduct
import Mathlib.Logic.Relation

/-!
The committee that generates preproducts, as a system of peers and messages
(`prism/server/CS2/roles/lockfree/mpc.py`, over the hooks of the transport).

Every peer of the group runs `preproduct_op` once. Its messages are put in flight when a
round starts; a message in flight is delivered or lost; a delivered message waits at its
destination until the round that it belongs to takes it, or is dropped; a round is
answered by `collect` when enough messages are gathered or at any earlier time, which is
a timeout. No message is ever copied, so each peer's message of a round reaches each
other peer at most once.

* `Inv` is the invariant: which round every peer is in, and that every message around is
  one that its sender really sent, once.
* `Inv.step` preserves it, `inv_of_reachable` carries it over all runs.
* `preproducts_consistent` is the result: all batches that are ever stored are shares of
  the same random numbers and triples, and a peer that stored one has gathered every
  message of every round.
-/

namespace Prism.Lockfree

open Prism.Crypto Prism.Lib Sharing Preproduct

/-- One peer: its coroutine once it has started, the messages that wait for a round, the
ones that its pending round has gathered, and what its past rounds were answered with. -/
structure PeerState where
  proc : Option (Op (Option PreproductBatch)) := none
  inbox : List Message := []
  gathered : List Message := []
  answers : List (List Message) := []

/-- The peers and the messages in flight. -/
structure Committee where
  peer : ℕ → PeerState
  flight : List Message

namespace Committee

/-- Nothing has started. -/
def init : Committee := ⟨fun _ => {}, []⟩

/-- Peer `j` has handed `batch` to `add_batch`. -/
def Stored (s : Committee) (j : ℕ) (batch : PreproductBatch) : Prop :=
  (s.peer j).proc = some (.done (.ok (some batch)))

/-- The state with another state of peer `j` and other messages in flight. -/
def set (s : Committee) (j : ℕ) (state : PeerState) (flight : List Message) : Committee :=
  ⟨Function.update s.peer j state, flight⟩

/-- What a coroutine sends when it comes to a round. -/
def sends : Op (Option PreproductBatch) → List Message
  | .done _ => []
  | .ask asked _ => asked.sends

/-- The hook of a round at peer `j`. -/
def hook (pseudonym : ℕ → Bytes) (j : ℕ) (round : Round) : MPCResponseHook :=
  ⟨pseudonym j, j, round.opId, some round.action⟩

/-- One step of the committee. The list of peers has `committee` entries, and
`pseudonym` are the peers' pseudonyms. -/
inductive Step (pre : Preproduct) (committee : ℕ) (pseudonym : ℕ → Bytes) :
    Committee → Committee → Prop
  | start {s : Committee} {j : ℕ} (member : j ∈ pre.peers) (idle : (s.peer j).proc = none) :
      Step pre committee pseudonym s
        (s.set j { s.peer j with proc := some (pre.op j) } (s.flight ++ sends (pre.op j)))
  | deliver {s : Committee} {j : ℕ} {m : Message} {l r : List Message}
      (flight : s.flight = l ++ m :: r) (dest : m.destPartyId = some j) :
      Step pre committee pseudonym s
        (s.set j { s.peer j with inbox := (s.peer j).inbox ++ [m] } (l ++ r))
  | lose {s : Committee} {m : Message} {l r : List Message} (flight : s.flight = l ++ m :: r) :
      Step pre committee pseudonym s { s with flight := l ++ r }
  | drop {s : Committee} {j : ℕ} {m : Message} {l r : List Message}
      (inbox : (s.peer j).inbox = l ++ m :: r) :
      Step pre committee pseudonym s (s.set j { s.peer j with inbox := l ++ r } s.flight)
  | take {s : Committee} {j : ℕ} {round : Round} {next : List Message → Op (Option PreproductBatch)}
      {m : Message} {l r : List Message} (asks : (s.peer j).proc = some (.ask round next))
      (inbox : (s.peer j).inbox = l ++ m :: r)
      (matched : (hook pseudonym j round).matches m = true)
      (few : (s.peer j).gathered.length < round.count) :
      Step pre committee pseudonym s
        (s.set j { s.peer j with inbox := l ++ r, gathered := (s.peer j).gathered ++ [m] } s.flight)
  | answer {s : Committee} {j : ℕ} {round : Round}
      {next : List Message → Op (Option PreproductBatch)} {responses : List Message}
      (asks : (s.peer j).proc = some (.ask round next))
      (collected : collect committee round.count round.context (s.peer j).gathered =
        .ok responses) :
      Step pre committee pseudonym s
        (s.set j { s.peer j with proc := some (next responses), gathered := [],
                                  answers := (s.peer j).answers ++ [responses] }
          (s.flight ++ sends (next responses)))
  | raise {s : Committee} {j : ℕ} {round : Round}
      {next : List Message → Op (Option PreproductBatch)} {e : PyError}
      (asks : (s.peer j).proc = some (.ask round next))
      (collected : collect committee round.count round.context (s.peer j).gathered = .error e) :
      Step pre committee pseudonym s
        (s.set j { s.peer j with proc := some (.done (.error e)), gathered := [] } s.flight)

/-- The states that runs from `init` come to. -/
def Reachable (pre : Preproduct) (committee : ℕ) (pseudonym : ℕ → Bytes) (s : Committee) : Prop :=
  Relation.ReflTransGen (Step pre committee pseudonym) init s

/-! ### The invariant -/

/-- Where a peer is in the operation. -/
inductive Phase where
  | idle
  | «at» (stage : Stage)
  | ended

/-- A peer in this phase has sent the messages of that round. A peer that has ended may
have sent any. -/
def Phase.Sent : Phase → Stage → Prop
  | idle, _ => False
  | .at stage, sent => sent.index ≤ stage.index
  | ended, _ => True

/-- What holds of peer `j` in a phase. The rounds before the one that a peer is in were
answered in full, and so were all rounds of a peer that has stored a batch. -/
def PhaseInv (pre : Preproduct) (j : ℕ) : Phase → PeerState → Prop
  | .idle, state => state.proc = none ∧ state.gathered = [] ∧ state.answers = []
  | .at stage, state => j ∈ pre.peers ∧ (stage = .generate ∨ 0 < pre.size) ∧
      state.proc = some (pre.atStage j stage) ∧
      (∀ m ∈ state.gathered, ∃ i ∈ pre.peers, m = pre.message stage i j) ∧
      state.answers = stage.before.map (pre.genuine j)
  | .ended, state => state.gathered = [] ∧ ∃ result, state.proc = some (.done result) ∧
      ∀ batch, result = .ok (some batch) → j ∈ pre.peers ∧ batch = pre.batchOf j ∧
        state.answers = [.generate, .mask, .open].map (pre.genuine j)

/-- The messages that are around for peer `j`. -/
def around (s : Committee) (j : ℕ) : List Message :=
  s.flight ++ (s.peer j).inbox ++ (s.peer j).gathered

/-- The invariant of the committee, with the phase of every peer. -/
structure Inv (pre : Preproduct) (phase : ℕ → Phase) (s : Committee) : Prop where
  phases : ∀ j, PhaseInv pre j (phase j) (s.peer j)
  genuine : ∀ j, ∀ m ∈ s.around j, ∃ stage i dest, i ∈ pre.peers ∧
    m = pre.message stage i dest ∧ (phase i).Sent stage
  once : ∀ j, (s.around j).Nodup

/-! ### Small facts about states and messages -/

@[simp] theorem set_peer_self (s : Committee) (j : ℕ) (state : PeerState) (flight : List Message) :
    (s.set j state flight).peer j = state := Function.update_self ..

theorem set_peer_ne (s : Committee) {i j : ℕ} (ne : i ≠ j) (state : PeerState)
    (flight : List Message) : (s.set j state flight).peer i = s.peer i :=
  Function.update_of_ne ne ..

@[simp] theorem set_flight (s : Committee) (j : ℕ) (state : PeerState) (flight : List Message) :
    (s.set j state flight).flight = flight := rfl

variable {pre : Preproduct}

/-- A message of the operation names its round, its sender and its destination. -/
theorem message_injective {stage stage' : Stage} {i i' dest dest' : ℕ}
    (eq : pre.message stage i dest = pre.message stage' i' dest') :
    stage = stage' ∧ i = i' ∧ dest = dest' := by
  have action := congrArg (fun m => m.mpcMap.map MPCMap.action) eq
  have party := congrArg Message.partyId eq
  have destination := congrArg Message.destPartyId eq
  exact ⟨Stage.action_injective (Option.some.inj action), party, Option.some.inj destination⟩

/-- The hook of a round matches only messages of that round to its peer. -/
theorem stage_of_matches {pseudonym : ℕ → Bytes} {stage stage' : Stage} {i j dest : ℕ}
    (matched : (hook pseudonym j (pre.round stage j)).matches (pre.message stage' i dest) = true) :
    stage' = stage ∧ dest = j := by
  unfold MPCResponseHook.matches at matched
  split_ifs at matched with _ _ destination _ action
  have isDest : dest = j := by
    simpa [hook, message, Message.addressed] using destination
  refine ⟨?_, isDest⟩
  have sameAction : ¬ (stage.action.value ≠ 0 ∧ stage'.action ≠ stage.action) := by
    simpa [hook, Preproduct.round, message, Message.addressed, MPCRole.response] using action
  have nonzero : stage.action.value ≠ 0 := by cases stage <;> decide
  exact Stage.action_injective (not_not.mp (not_and.mp sameAction nonzero))

/-- What a phase says does not depend on the messages that wait. -/
theorem PhaseInv.inbox {j : ℕ} {phase : Phase} {state : PeerState} (inv : PhaseInv pre j phase state)
    (inbox : List Message) : PhaseInv pre j phase { state with inbox := inbox } := by
  cases phase <;> exact inv

/-- A peer that asks is in a round. -/
theorem PhaseInv.asking {j : ℕ} {phase : Phase} {state : PeerState} {round : Round}
    {next : List Message → Op (Option PreproductBatch)} (inv : PhaseInv pre j phase state)
    (valid : pre.Valid) (asks : state.proc = some (.ask round next)) :
    ∃ stage, phase = .at stage ∧ round = pre.round stage j ∧ next [] = .done (.ok none) ∧
      (next (pre.genuine j stage) = .done (.ok none) ∨
        (∃ stage', stage.next = some stage' ∧ 0 < pre.size ∧
          next (pre.genuine j stage) = pre.atStage j stage') ∨
        (stage = .open ∧ next (pre.genuine j stage) = .done (.ok (some (pre.batchOf j))))) := by
  cases phase with
  | idle => rw [inv.1] at asks; cases asks
  | ended =>
      obtain ⟨_, result, proc, _⟩ := inv
      rw [proc] at asks
      cases asks
  | «at» stage =>
      obtain ⟨_, reached, proc, _, _⟩ := inv
      obtain ⟨next', atStage, nil, full⟩ := valid.asks j reached
      rw [proc, atStage] at asks
      obtain ⟨rfl, rfl⟩ := Resumption.ask.inj (Option.some.inj asks)
      exact ⟨stage, rfl, rfl, nil, full⟩

/-! ### A full round -/

/-- Sorting the messages of the group puts them in the order of the group. -/
theorem sortByParty_group {stage : Stage} {j : ℕ} {l : List Message}
    (perm : l.Perm (pre.peers.map fun i => pre.message stage i j)) :
    sortByParty l = pre.genuine j stage := by
  set sorted := sortByParty l with hsorted
  have all : sorted.Perm (pre.peers.map fun i => pre.message stage i j) :=
    (sortByParty_perm l).trans perm
  have rebuilt : sorted = (sorted.map (·.partyId)).map fun i => pre.message stage i j := by
    rw [List.map_map]
    refine ((List.map_id _).symm.trans (List.map_congr_left fun m hm => ?_))
    obtain ⟨i, _, rfl⟩ := List.mem_map.mp (all.mem_iff.mp hm)
    rfl
  have ids : (sorted.map (·.partyId)).Perm pre.peers := by
    have mapped := all.map (·.partyId)
    rw [List.map_map] at mapped
    exact mapped.trans (List.Perm.of_eq (List.map_id _))
  have ordered : (sorted.map (·.partyId)).Pairwise (· ≤ ·) :=
    List.pairwise_map.mpr (List.pairwise_insertionSort _ l)
  have group : sorted.map (·.partyId) = pre.group :=
    (ids.trans pre.group_perm.symm).eq_of_pairwise (fun _ _ _ _ => Nat.le_antisymm) ordered
      (List.pairwise_insertionSort _ _)
  rw [rebuilt, group, Preproduct.genuine]

/-- **A full round**: distinct messages of one round, as many as there are peers, are one
message from each peer, and are gathered as such. -/
theorem collect_full {stage : Stage} {j committee : ℕ} {gathered : List Message}
    (nodup : gathered.Nodup)
    (messages : ∀ m ∈ gathered, ∃ i ∈ pre.peers, m = pre.message stage i j)
    (ne : pre.peers ≠ []) (full : pre.peers.length ≤ gathered.length) :
    collect committee pre.peers.length true gathered = .ok (pre.genuine j stage) := by
  have sub : gathered.Subperm (pre.peers.map fun i => pre.message stage i j) := by
    refine List.subperm_of_subset nodup fun m hm => ?_
    obtain ⟨i, hi, rfl⟩ := messages m hm
    exact List.mem_map.mpr ⟨i, hi, rfl⟩
  have perm : gathered.Perm (pre.peers.map fun i => pre.message stage i j) :=
    sub.perm_of_length_le (by simpa using full)
  have pos : 0 < pre.peers.length := List.length_pos_iff.mpr ne
  have exact_length : gathered.length = pre.peers.length := by simpa using perm.length_eq
  rw [collect_enough pos full, List.take_of_length_le exact_length.le, sortByParty_group perm]

/-! ### The steps -/

/-- The messages that peer `j` sends at a round, or none. -/
def FreshSends (pre : Preproduct) (j : ℕ) (old new : Phase) (messages : List Message) : Prop :=
  messages = [] ∨ ∃ stage, j ∈ pre.peers ∧ messages = pre.peers.map (pre.message stage j) ∧
    ¬ old.Sent stage ∧ new.Sent stage

/-- Going on from a round, with what is sent for the next one. -/
theorem Inv.advance {phase : ℕ → Phase} {s : Committee} (inv : Inv pre phase s)
    (nodup : pre.peers.Nodup) {j : ℕ} {phase' : Phase} {state' : PeerState} {new : List Message}
    (phaseInv : PhaseInv pre j phase' state') (inbox : state'.inbox = (s.peer j).inbox)
    (gathered : state'.gathered = [])
    (sent : ∀ stage, (phase j).Sent stage → phase'.Sent stage)
    (fresh : FreshSends pre j (phase j) phase' new) :
    Inv pre (Function.update phase j phase') (s.set j state' (s.flight ++ new)) := by
  -- what was around for a peer, less what peer `j` had gathered
  have old : ∀ i, (s.flight ++ ((s.set j state' (s.flight ++ new)).peer i).inbox ++
      ((s.set j state' (s.flight ++ new)).peer i).gathered).Sublist (s.around i) := by
    intro i
    rcases eq_or_ne i j with rfl | ne
    · rw [set_peer_self, inbox, gathered, List.append_nil]
      exact List.sublist_append_left _ _
    · rw [set_peer_ne s ne]
      exact List.Sublist.refl _
  have split : ∀ i, ((s.set j state' (s.flight ++ new)).around i).Perm
      (new ++ (s.flight ++ ((s.set j state' (s.flight ++ new)).peer i).inbox ++
        ((s.set j state' (s.flight ++ new)).peer i).gathered)) := by
    intro i
    simp only [around, set_flight, List.append_assoc]
    exact List.perm_append_comm_assoc ..
  have sentAt : ∀ i stage, (phase i).Sent stage → (Function.update phase j phase' i).Sent stage := by
    intro i stage h
    rcases eq_or_ne i j with rfl | ne
    · rw [Function.update_self]
      exact sent stage h
    · rwa [Function.update_of_ne ne]
  refine ⟨fun i => ?_, fun i m hm => ?_, fun i => ?_⟩
  · rcases eq_or_ne i j with rfl | ne
    · rw [Function.update_self, set_peer_self]
      exact phaseInv
    · rw [Function.update_of_ne ne, set_peer_ne s ne]
      exact inv.phases i
  · rcases List.mem_append.mp ((split i).mem_iff.mp hm) with isNew | isOld
    · rcases fresh with rfl | ⟨stage, member, rfl, _, sends⟩
      · cases isNew
      · obtain ⟨dest, _, rfl⟩ := List.mem_map.mp isNew
        exact ⟨stage, j, dest, member, rfl, by rwa [Function.update_self]⟩
    · obtain ⟨stage, k, dest, member, eq, wasSent⟩ := inv.genuine i m ((old i).mem isOld)
      exact ⟨stage, k, dest, member, eq, sentAt k stage wasSent⟩
  · refine (split i).nodup_iff.mpr (List.Nodup.append ?_ ((old i).nodup (inv.once i)) ?_)
    · rcases fresh with rfl | ⟨stage, _, rfl, _, _⟩
      · exact List.nodup_nil
      · exact nodup.map fun a b eq => (message_injective eq).2.2
    · intro m isNew isOld
      rcases fresh with rfl | ⟨stage, _, rfl, notSent, _⟩
      · cases isNew
      · obtain ⟨dest, _, rfl⟩ := List.mem_map.mp isNew
        obtain ⟨stage', k, dest', _, eq, wasSent⟩ := inv.genuine i _ ((old i).mem isOld)
        obtain ⟨rfl, rfl, _⟩ := message_injective eq
        exact notSent wasSent

/-- Losing messages, in flight or at a peer. -/
theorem Inv.shrink {phase : ℕ → Phase} {s t : Committee} (inv : Inv pre phase s)
    (phases : ∀ j, PhaseInv pre j (phase j) (t.peer j))
    (sub : ∀ j, (t.around j).Sublist (s.around j)) : Inv pre phase t where
  phases := phases
  genuine j m hm := inv.genuine j m ((sub j).mem hm)
  once j := (sub j).nodup (inv.once j)

/-- Moving a message towards a round: what is around stays the same. -/
theorem Inv.move {phase : ℕ → Phase} {s : Committee} (inv : Inv pre phase s) {j : ℕ}
    {state' : PeerState} {flight' : List Message} (phaseInv : PhaseInv pre j (phase j) state')
    (others : flight'.Sublist s.flight)
    (perm : (flight' ++ state'.inbox ++ state'.gathered).Perm (s.around j)) :
    Inv pre phase (s.set j state' flight') := by
  have cases : ∀ i, ((s.set j state' flight').around i).Subperm (s.around i) := by
    intro i
    rcases eq_or_ne i j with rfl | ne
    · simp only [around, set_flight, set_peer_self]
      exact perm.subperm
    · simp only [around, set_flight, set_peer_ne s ne]
      exact ((others.append_right _).append_right _).subperm
  refine ⟨fun i => ?_, fun i m hm => inv.genuine i m ((cases i).subset hm), fun i => ?_⟩
  · rcases eq_or_ne i j with rfl | ne
    · rw [set_peer_self]
      exact phaseInv
    · rw [set_peer_ne s ne]
      exact inv.phases i
  · obtain ⟨l, permL, subL⟩ := cases i
    exact permL.nodup_iff.mp (subL.nodup (inv.once i))

/-- A peer that comes to a round sends the messages of that round. -/
theorem sends_atStage (valid : pre.Valid) (j : ℕ) {stage : Stage}
    (reached : stage = .generate ∨ 0 < pre.size) :
    sends (pre.atStage j stage) = pre.peers.map (pre.message stage j) := by
  obtain ⟨next, eq, -⟩ := valid.asks j reached
  rw [eq]
  rfl

/-- The result of a gathering, for a peer in a round: with too few messages nothing, and
otherwise one message from each peer of the group. -/
theorem Inv.collected {phase : ℕ → Phase} {s : Committee} (inv : Inv pre phase s)
    (valid : pre.Valid) {j committee : ℕ} {stage : Stage} (inStage : phase j = .at stage)
    {responses : List Message}
    (collected : collect committee (pre.round stage j).count (pre.round stage j).context
      (s.peer j).gathered = .ok responses) :
    responses = [] ∨ responses = pre.genuine j stage := by
  have phaseInv := inv.phases j
  rw [inStage] at phaseInv
  obtain ⟨_, _, _, messages, _⟩ := phaseInv
  have nodup : (s.peer j).gathered.Nodup :=
    (List.sublist_append_right _ _).nodup (inv.once j)
  have ne : pre.peers ≠ [] := by
    intro empty
    have enough := valid.enough
    simp [empty] at enough
  rcases collect_eq_ok collected with ⟨_, _, none⟩ | ⟨enough, _⟩
  · exact .inl none
  · have full : pre.peers.length ≤ (s.peer j).gathered.length := by
      simpa [Preproduct.round] using enough
    exact .inr (Except.ok.inj (collected.symm.trans (collect_full nodup messages ne full)))

/-- What going on to the next round changes. -/
theorem Phase.sent_next {stage stage' : Stage} (next : stage.next = some stage') :
    (∀ st, (Phase.at stage).Sent st → (Phase.at stage').Sent st) ∧
      ¬ (Phase.at stage).Sent stage' ∧ stage'.before = stage.before ++ [stage] := by
  cases stage <;> cases next
  all_goals
    refine ⟨fun st => ?_, by simp [Phase.Sent, Stage.index], rfl⟩
    cases st <;> simp [Phase.Sent, Stage.index]

section Steps

variable {phase : ℕ → Phase} {s : Committee} (inv : Inv pre phase s) (valid : pre.Valid)
  {committee : ℕ} {pseudonym : ℕ → Bytes} {j : ℕ}
include inv

/-- A peer that has not started is idle. -/
theorem Inv.idle_of_none (idle : (s.peer j).proc = none) : phase j = .idle := by
  have phaseInv := inv.phases j
  cases eq : phase j with
  | idle => rfl
  | «at» stage =>
      rw [eq] at phaseInv
      obtain ⟨_, _, proc, _⟩ := phaseInv
      rw [proc] at idle
      cases idle
  | ended =>
      rw [eq] at phaseInv
      obtain ⟨_, result, proc, _⟩ := phaseInv
      rw [proc] at idle
      cases idle

include valid in
theorem Inv.start (member : j ∈ pre.peers) (idle : (s.peer j).proc = none) :
    Inv pre (Function.update phase j (.at .generate))
      (s.set j { s.peer j with proc := some (pre.op j) } (s.flight ++ sends (pre.op j))) := by
  have isIdle := inv.idle_of_none idle
  have phaseInv := inv.phases j
  rw [isIdle] at phaseInv
  have atStart : pre.op j = pre.atStage j .generate := (Resumption.feed_nil _).symm
  have started : PhaseInv pre j (.at .generate) { s.peer j with proc := some (pre.op j) } := by
    refine ⟨member, .inl rfl, by rw [atStart], ?_, phaseInv.2.2⟩
    rw [phaseInv.2.1]
    exact fun m hm => absurd hm List.not_mem_nil
  have fresh : FreshSends pre j (phase j) (.at .generate) (sends (pre.op j)) := by
    rw [isIdle, atStart, sends_atStage valid j (.inl rfl)]
    exact .inr ⟨.generate, member, rfl, id, le_refl _⟩
  refine inv.advance valid.nodup started rfl phaseInv.2.1 ?_ fresh
  rw [isIdle]
  exact fun _ h => h.elim

theorem Inv.deliver {m : Message} {l r : List Message} (flight : s.flight = l ++ m :: r) :
    Inv pre phase (s.set j { s.peer j with inbox := (s.peer j).inbox ++ [m] } (l ++ r)) := by
  refine inv.move ((inv.phases j).inbox _) ?_ ?_
  · rw [flight]
    exact (List.Sublist.refl l).append (List.sublist_cons_self m r)
  · simp only [around, flight, List.append_assoc]
    refine List.Perm.append_left l ?_
    have moved : ((r ++ (s.peer j).inbox) ++ [m]).Perm (m :: (r ++ (s.peer j).inbox)) :=
      List.perm_append_singleton _ _
    simpa using moved.append_right (s.peer j).gathered

theorem Inv.lose {m : Message} {l r : List Message} (flight : s.flight = l ++ m :: r) :
    Inv pre phase { s with flight := l ++ r } := by
  refine inv.shrink inv.phases fun j => ?_
  simp only [around, flight]
  exact (((List.Sublist.refl l).append (List.sublist_cons_self m r)).append_right _).append_right _

theorem Inv.drop {m : Message} {l r : List Message} (inbox : (s.peer j).inbox = l ++ m :: r) :
    Inv pre phase (s.set j { s.peer j with inbox := l ++ r } s.flight) := by
  refine inv.shrink (fun i => ?_) fun i => ?_
  · rcases eq_or_ne i j with rfl | ne
    · rw [set_peer_self]
      exact (inv.phases i).inbox _
    · rw [set_peer_ne s ne]
      exact inv.phases i
  · rcases eq_or_ne i j with rfl | ne
    · simp only [around, set_flight, set_peer_self, inbox]
      exact (((List.Sublist.refl l).append (List.sublist_cons_self m r)).append_left _).append_right _
    · simp only [around, set_flight, set_peer_ne s ne]
      exact List.Sublist.refl _

include valid in
theorem Inv.take {round : Round} {next : List Message → Op (Option PreproductBatch)} {m : Message}
    {l r : List Message} (asks : (s.peer j).proc = some (.ask round next))
    (inbox : (s.peer j).inbox = l ++ m :: r)
    (matched : (hook pseudonym j round).matches m = true) :
    Inv pre phase (s.set j { s.peer j with
      inbox := l ++ r, gathered := (s.peer j).gathered ++ [m] } s.flight) := by
  obtain ⟨stage, inStage, rfl, -, -⟩ := (inv.phases j).asking valid asks
  have phaseInv := inv.phases j
  rw [inStage] at phaseInv
  obtain ⟨member, reached, proc, messages, past⟩ := phaseInv
  have here : m ∈ s.around j := by simp [around, inbox]
  -- the message is genuine, and the hook tells its round
  obtain ⟨stage', i, dest, sender, rfl, -⟩ := inv.genuine j m here
  obtain ⟨rfl, rfl⟩ := stage_of_matches matched
  have moved : ((r ++ (s.peer dest).gathered) ++ [pre.message stage' i dest]).Perm
      (pre.message stage' i dest :: (r ++ (s.peer dest).gathered)) :=
    List.perm_append_singleton _ _
  refine inv.move ?_ (List.Sublist.refl _) ?_
  · rw [inStage]
    refine ⟨member, reached, proc, fun m' hm' => ?_, past⟩
    rcases List.mem_append.mp hm' with old | new
    · exact messages m' old
    · exact ⟨i, sender, List.mem_singleton.mp new⟩
  · simp only [around, inbox, List.append_assoc]
    refine List.Perm.append_left _ (List.Perm.append_left l ?_)
    simpa using moved

/-- A peer that ends without a batch. -/
theorem Inv.giveUp (nodup : pre.peers.Nodup) (j : ℕ) (result : Py (Option PreproductBatch))
    (noBatch : ∀ batch, result ≠ .ok (some batch)) (answers : List (List Message)) :
    Inv pre (Function.update phase j .ended)
      (s.set j { s.peer j with proc := some (.done result), gathered := [], answers := answers }
        (s.flight ++ [])) :=
  inv.advance nodup ⟨rfl, result, rfl, fun batch eq => absurd eq (noBatch batch)⟩ rfl rfl
    (fun _ _ => trivial) (.inl rfl)

include valid in
theorem Inv.answer {round : Round} {next : List Message → Op (Option PreproductBatch)}
    {responses : List Message} (asks : (s.peer j).proc = some (.ask round next))
    (collected : collect committee round.count round.context (s.peer j).gathered = .ok responses) :
    ∃ phase', Inv pre phase' (s.set j { s.peer j with
      proc := some (next responses), gathered := [], answers := (s.peer j).answers ++ [responses] }
        (s.flight ++ sends (next responses))) := by
  obtain ⟨stage, inStage, rfl, nil, full⟩ := (inv.phases j).asking valid asks
  have phaseInv := inv.phases j
  rw [inStage] at phaseInv
  obtain ⟨member, reached, proc, messages, past⟩ := phaseInv
  rcases inv.collected valid inStage collected with rfl | rfl
  · rw [nil]
    exact ⟨_, inv.giveUp valid.nodup j (.ok none) nofun _⟩
  rcases full with ended | ⟨stage', isNext, pos, eq⟩ | ⟨rfl, eq⟩
  · rw [ended]
    exact ⟨_, inv.giveUp valid.nodup j (.ok none) nofun _⟩
  · obtain ⟨monotone, notSent, before⟩ := Phase.sent_next isNext
    have entered : PhaseInv pre j (.at stage') { s.peer j with
        proc := some (pre.atStage j stage'), gathered := []
        answers := (s.peer j).answers ++ [pre.genuine j stage] } := by
      refine ⟨member, .inr pos, rfl, fun m hm => absurd hm List.not_mem_nil, ?_⟩
      rw [past, before, List.map_append]
      rfl
    have fresh : FreshSends pre j (phase j) (.at stage') (sends (pre.atStage j stage')) := by
      rw [inStage]
      exact .inr ⟨stage', member, sends_atStage valid j (.inr pos), notSent, le_refl _⟩
    rw [eq]
    refine ⟨_, inv.advance valid.nodup entered rfl rfl ?_ fresh⟩
    rw [inStage]
    exact monotone
  · have stored : PhaseInv pre j .ended { s.peer j with
        proc := some (.done (.ok (some (pre.batchOf j)))), gathered := []
        answers := (s.peer j).answers ++ [pre.genuine j .open] } := by
      refine ⟨rfl, _, rfl, fun batch same =>
        ⟨member, (Option.some.inj (Except.ok.inj same)).symm, ?_⟩⟩
      rw [past]
      rfl
    rw [eq]
    exact ⟨_, inv.advance valid.nodup stored rfl rfl (fun _ _ => trivial) (.inl rfl)⟩

/-- **Every step keeps the invariant.** -/
theorem Inv.step (valid : pre.Valid) {t : Committee} (step : Step pre committee pseudonym s t) :
    ∃ phase', Inv pre phase' t := by
  cases step with
  | start member idle => exact ⟨_, inv.start valid member idle⟩
  | deliver flight dest => exact ⟨_, inv.deliver flight⟩
  | lose flight => exact ⟨_, inv.lose flight⟩
  | drop inbox => exact ⟨_, inv.drop inbox⟩
  | take asks inbox matched few => exact ⟨_, inv.take valid asks inbox matched⟩
  | answer asks collected => exact inv.answer valid asks collected
  | @raise j round next e asks collected =>
      have gaveUp := inv.giveUp valid.nodup j (.error e) nofun (s.peer j).answers
      rw [List.append_nil] at gaveUp
      exact ⟨_, gaveUp⟩

end Steps

/-! ### Runs -/

theorem inv_init : Inv pre (fun _ => .idle) init where
  phases _ := ⟨rfl, rfl, rfl⟩
  genuine _ _ hm := absurd hm List.not_mem_nil
  once _ := List.nodup_nil

/-- The invariant holds in every state of every run. -/
theorem inv_of_reachable (valid : pre.Valid) {committee : ℕ} {pseudonym : ℕ → Bytes}
    {s : Committee} (reach : Reachable pre committee pseudonym s) : ∃ phase, Inv pre phase s := by
  induction reach with
  | refl => exact ⟨_, inv_init⟩
  | tail _ step ih =>
      obtain ⟨phase, inv⟩ := ih
      exact inv.step valid step

/-- A stored batch is determined by the draws, and its peer gathered one message from each
peer of the group in every round. -/
theorem stored_batch (valid : pre.Valid) {committee : ℕ} {pseudonym : ℕ → Bytes} {s : Committee}
    (reach : Reachable pre committee pseudonym s) {j : ℕ} {batch : PreproductBatch}
    (stored : s.Stored j batch) :
    j ∈ pre.peers ∧ batch = pre.batchOf j ∧
      (s.peer j).answers = [.generate, .mask, .open].map (pre.genuine j) := by
  obtain ⟨phase, inv⟩ := inv_of_reachable valid reach
  have phaseInv := inv.phases j
  cases eq : phase j with
  | idle => rw [eq] at phaseInv; rw [Stored, phaseInv.1] at stored; cases stored
  | «at» stage =>
      rw [eq] at phaseInv
      obtain ⟨_, reached, proc, _⟩ := phaseInv
      obtain ⟨next, asks, -⟩ := valid.asks j reached
      rw [Stored, proc, asks] at stored
      cases stored
  | ended =>
      rw [eq] at phaseInv
      obtain ⟨_, result, proc, batches⟩ := phaseInv
      rw [Stored, proc] at stored
      exact batches batch (Resumption.done.inj (Option.some.inj stored))

end Committee

/-- The polynomials behind one index of the batches: those of a triple and of a random
number, of degree at most `threshold - 1`. -/
structure SharedPreproduct (sharing : Sharing) where
  a : Polynomial (ZMod sharing.modulus)
  b : Polynomial (ZMod sharing.modulus)
  c : Polynomial (ZMod sharing.modulus)
  random : Polynomial (ZMod sharing.modulus)
  degree_a : a.natDegree ≤ sharing.threshold - 1
  degree_b : b.natDegree ≤ sharing.threshold - 1
  degree_c : c.natDegree ≤ sharing.threshold - 1
  degree_random : random.natDegree ≤ sharing.threshold - 1
  product : c.eval 0 = a.eval 0 * b.eval 0

/-- The share is the point of party `j` on the polynomial. -/
def PointOf {sharing : Sharing} (P : Polynomial (ZMod sharing.modulus)) (j : ℕ) (s : Share) : Prop :=
  s.x = j ∧ (s.share : ZMod sharing.modulus) = P.eval (point sharing.modulus j)

/-- The batch consists of party `j`'s points on the polynomials, one triple and one random
number for each index. -/
def PreproductBatch.OnPolynomials {sharing : Sharing} (batch : PreproductBatch) (size j : ℕ)
    (shared : ℕ → SharedPreproduct sharing) : Prop :=
  batch.triples.length = size ∧ batch.randomNumbers.length = size ∧
    ∀ k < size, ∃ triple random, batch.triples[k]? = some triple ∧
      batch.randomNumbers[k]? = some random ∧ PointOf (shared k).a j triple.a ∧
      PointOf (shared k).b j triple.b ∧ PointOf (shared k).c j triple.c ∧
      PointOf (shared k).random j random

/-- The peers in `is` open their `k`-th triples to integers with `c = a * b`. -/
def OpensToProduct (sharing : Sharing) (is : List ℕ) (batch : ℕ → PreproductBatch) (k : ℕ) : Prop :=
  ∃ a b c : ℤ,
    sharing.open (is.map fun i => ((batch i).triples.getD k default).a) = .ok (some a) ∧
    sharing.open (is.map fun i => ((batch i).triples.getD k default).b) = .ok (some b) ∧
    sharing.open (is.map fun i => ((batch i).triples.getD k default).c) = .ok (some c) ∧
    c = a * b % sharing.modulus

/-- A sharing below `n + 1` lies on a polynomial of degree at most `n`. -/
theorem polynomial_of_shares {sharing : Sharing} {S : Set ℕ} {n : ℕ} {v : ZMod sharing.modulus}
    {f : ℕ → Share} (shares : sharing.Shares S (n + 1) v f) :
    ∃ P : Polynomial (ZMod sharing.modulus), P.natDegree ≤ n ∧ P.eval 0 = v ∧
      ∀ i ∈ S, PointOf P i (f i) := by
  obtain ⟨P, degree, value, points⟩ := shares.shared
  refine ⟨P, Polynomial.natDegree_le_iff_coeff_eq_zero.mpr fun m lt => ?_, value,
    fun i hi => ⟨shares.x_eq i hi, points i hi⟩⟩
  exact Polynomial.degree_lt_iff_coeff_zero P (n + 1) |>.mp degree m lt

/-- The polynomials that the draws of a group fix. -/
theorem Preproduct.Valid.shared {pre : Preproduct} (valid : pre.Valid) :
    ∃ shared : ℕ → SharedPreproduct pre.sharing,
      ∀ j ∈ pre.Parties, (pre.batchOf j).OnPolynomials pre.size j shared := by
  choose R degR valR ptR using fun k => polynomial_of_shares (pre.random_shares k)
  choose C degC valC ptC using fun k => polynomial_of_shares (valid.product_shares k)
  refine ⟨fun k => ⟨R k, R (pre.size + k), C k, R (2 * pre.size + k), degR _, degR _, degC _,
    degR _, by rw [valC, valR, valR]⟩, fun j hj => ⟨?_, ?_, fun k lt => ?_⟩⟩
  · simp [batchOf]
  · simp [batchOf]
  · exact ⟨⟨pre.random j k, pre.random j (pre.size + k), pre.product j k⟩,
      pre.random j (2 * pre.size + k), by simp [batchOf, lt], by simp [batchOf, lt],
      ptR k j hj, ptR _ j hj, ptC k j hj, ptR _ j hj⟩

/-- The batches of the group open to products. -/
theorem Preproduct.Valid.opens {pre : Preproduct} (valid : pre.Valid) {is : List ℕ}
    (nodup : is.Nodup) (ne : is ≠ []) (enough : pre.sharing.threshold ≤ is.length)
    (members : ∀ i ∈ is, i ∈ pre.Parties) {k : ℕ} (lt : k < pre.size) :
    OpensToProduct pre.sharing is pre.batchOf k := by
  have pos : 0 < is.length := List.length_pos_iff.mpr ne
  have degree : pre.sharing.threshold - 1 + 1 ≤ is.length := by omega
  have entry : ∀ i, (pre.batchOf i).triples.getD k default =
      ⟨pre.random i k, pre.random i (pre.size + k), pre.product i k⟩ := by
    intro i
    simp [batchOf, lt]
  obtain ⟨a, openA, -, -, valA⟩ := open_real valid.prime valid.parties_lt (pre.random_shares k)
    members nodup members degree enough
  obtain ⟨b, openB, -, -, valB⟩ := open_real valid.prime valid.parties_lt
    (pre.random_shares (pre.size + k)) members nodup members degree enough
  obtain ⟨c, openC, low, high, valC⟩ := open_real valid.prime valid.parties_lt
    (valid.product_shares k) members nodup members degree enough
  refine ⟨a, b, c, by simpa only [entry] using openA, by simpa only [entry] using openB,
    by simpa only [entry] using openC, ?_⟩
  have product : OpensTo (some c) ((a * b : ℤ) : ZMod pre.sharing.modulus) := by
    rintro w eq
    obtain rfl := Option.some.inj eq
    exact ⟨low, high, by rw [valC, Int.cast_mul, valA, valB]⟩
  exact product.eq_emod rfl

/-- **Preproduct batches are consistent across the committee.** The draws of the group fix
the polynomials of every triple and every random number. In every state of every run:

* the batch that a peer has stored consists of that peer's points on these polynomials;
* any peers that have stored a batch, as many as the threshold, open the triples to
  integers with `c = a * b` modulo the modulus;
* every one of the three rounds of a peer that has stored a batch was answered with a
  message from each peer of the group, so a peer that missed one stores nothing. -/
theorem preproducts_consistent (pre : Preproduct) (valid : pre.Valid) (committee : ℕ)
    (pseudonym : ℕ → Bytes) :
    ∃ shared : ℕ → SharedPreproduct pre.sharing,
      ∀ s, Committee.Reachable pre committee pseudonym s →
        (∀ j batch, s.Stored j batch → batch.OnPolynomials pre.size j shared) ∧
        (∀ (is : List ℕ) (batch : ℕ → PreproductBatch), is.Nodup → is ≠ [] →
          pre.sharing.threshold ≤ is.length → (∀ i ∈ is, s.Stored i (batch i)) →
          ∀ k < pre.size, OpensToProduct pre.sharing is batch k) ∧
        ∀ j batch, s.Stored j batch → (s.peer j).answers.length = 3 ∧
          ∀ answer ∈ (s.peer j).answers, ∀ i ∈ pre.peers, ∃ m ∈ answer, m.partyId = i := by
  obtain ⟨shared, points⟩ := valid.shared
  refine ⟨shared, fun s reach => ⟨fun j batch stored => ?_, ?_, fun j batch stored => ?_⟩⟩
  · obtain ⟨member, rfl, -⟩ := Committee.stored_batch valid reach stored
    exact points j (valid.parties j member)
  · intro is batch nodup ne enough stored k lt
    have known : ∀ i ∈ is, i ∈ pre.peers ∧ batch i = pre.batchOf i :=
      fun i hi => ⟨(Committee.stored_batch valid reach (stored i hi)).1,
        (Committee.stored_batch valid reach (stored i hi)).2.1⟩
    have opens := valid.opens nodup ne enough (fun i hi => valid.parties i (known i hi).1) lt
    have same : ∀ f : Triple → Share, (is.map fun i => f ((batch i).triples.getD k default)) =
        is.map fun i => f ((pre.batchOf i).triples.getD k default) :=
      fun f => List.map_congr_left fun i hi => by rw [(known i hi).2]
    unfold OpensToProduct
    rw [same, same, same]
    exact opens
  · obtain ⟨-, -, answers⟩ := Committee.stored_batch valid reach stored
    rw [answers]
    refine ⟨rfl, fun answer mem i hi => ?_⟩
    obtain ⟨stage, -, rfl⟩ := List.mem_map.mp mem
    exact ⟨pre.message stage i j,
      List.mem_map.mpr ⟨i, pre.group_perm.mem_iff.mpr hi, rfl⟩, rfl⟩

/-- Three peers modulo 7 with threshold 2, each of which draws its party id plus one for
every number and 2 for every coefficient. -/
def examplePreproduct : Preproduct where
  sharing := ⟨⟨3, 2, 7, three_parties⟩⟩
  draws i := {
    number := fun _ => ⟨(i : ℤ) % 3 + 1, by simp only [Sharing.modulus]; omega⟩
    numberCoeffs := fun _ => ⟨[2], by decide⟩
    mask := fun _ => ⟨(i : ℤ) % 3 + 1, by simp only [Sharing.modulus]; omega⟩
    lowCoeffs := fun _ => ⟨[2], by decide⟩
    highCoeffs := fun _ => ⟨[2, 2], by decide⟩ }
  batchId := [7]
  size := 1
  peers := [2, 0, 1]
  owner := 0

theorem examplePreproduct_valid : examplePreproduct.Valid where
  prime := by decide
  parties_lt := by decide
  nodup := by decide
  parties := by decide
  enough := by decide

theorem examplePreproduct_consistent :
    ∃ shared : ℕ → SharedPreproduct examplePreproduct.sharing,
      ∀ s, Committee.Reachable examplePreproduct 3 (fun j => [UInt8.ofNat j]) s →
        (∀ j batch, s.Stored j batch → batch.OnPolynomials 1 j shared) ∧
        (∀ (is : List ℕ) (batch : ℕ → PreproductBatch), is.Nodup → is ≠ [] →
          2 ≤ is.length → (∀ i ∈ is, s.Stored i (batch i)) →
          ∀ k < 1, OpensToProduct examplePreproduct.sharing is batch k) ∧
        ∀ j batch, s.Stored j batch → (s.peer j).answers.length = 3 ∧
          ∀ answer ∈ (s.peer j).answers, ∀ i ∈ [2, 0, 1], ∃ m ∈ answer, m.partyId = i :=
  preproducts_consistent examplePreproduct examplePreproduct_valid 3 fun j => [UInt8.ofNat j]

end Prism.Lockfree
