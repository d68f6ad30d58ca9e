import Mathlib.Data.List.TakeWhile
import Prism.Client.Pseudonym
import Prism.Lib.Rotation
import Prism.Message.Sizes

/-!
Broadcasting the announcements that a server knows (`broadcast_message` in
`prism/server/CS2/ark_store.py`, `ark_broadcast_loop` in
`prism/server/CS2/roles/announcing_role.py`).

Those that were broadcast least recently come first. A message is made of the first one, of the
first two, and so on, until it is longer than the MTU; the one before that is sent, and its
announcements go to the back of the queue. When the message of the first one alone is too long,
nothing is sent, and the first one stays where it is.

* `growBatch_eq`: the loop returns the front of the queue, as far as it fits.
* `Sound.record`: what the store has to be like, and stays like when announcements are recorded.
* `broadcastMessage_proper`: what is sent fits the MTU and is the front of the queue, and just that
  is marked.
-/

namespace Prism.Routing

open Lib Client

/-! ### The source -/

/-- What the calls of a store have in common: the data of the server, the servers that it can reach,
and the size that a message may have. -/
structure Broadcasting where
  pseudonym : Option Bytes
  epoch : Option String
  currentEpoch : String
  reachablePseudonyms : List Bytes
  mtu : ℤ
  reachable : Bool := true

/-- What a call reads of the clocks: when it looks for valid servers and for dead ones, the times of
the message with so many announcements, and the marks of the announcements that are sent. -/
structure BroadcastClock where
  poolNow : ℤ
  deadNow : ℤ
  seconds : ℕ → ℤ
  micros : ℕ → ℤ
  marks : ℕ → ℤ

namespace ServerRecord

/-- `role != "DUMMY"`, the other way round. -/
def isDummy (self : ServerRecord) : Bool :=
  match self.ark.get .role with
  | .str role => role = "DUMMY"
  | _ => false

/-- `ark.degraded`. -/
def isDegraded (self : ServerRecord) : Bool := (self.ark.get .degraded).truthy

/-- `pseudonym in reachable_pseudonyms`. -/
def isReachable (self : ServerRecord) (env : Broadcasting) : Bool :=
  match self.pseudonym with
  | some p => p ∈ env.reachablePseudonyms
  | none => false

end ServerRecord

/-- The message of some announcements. -/
def arksMessage (env : Broadcasting) (deadServers : List (Option Bytes)) (seconds micros : ℤ)
    (batch : List ServerRecord) : PrismMessage :=
  PrismMessage.create seconds .arks [
    (.pseudonym, (env.pseudonym.map Value.bytes).getD .none),
    (.epoch, (env.epoch.map Value.str).getD .none),
    (.microTimestamp, .int micros),
    (.submessages, .list (batch.map fun rec => rec.ark.toValue)),
    (.deadServers, .list (deadServers.map fun p => (p.map Value.bytes).getD .none))]

/-- The loop over the batch sizes, with the batch and the message so far. -/
def growBatch (mtu : ℤ) (queue : List ServerRecord)
    (messageOf : ℕ → List ServerRecord → PrismMessage) :
    List ℕ → List ServerRecord × Option PrismMessage →
      Py (List ServerRecord × Option PrismMessage)
  | [], best => .ok best
  | batchSize :: sizes, best => do
    let newBatch := queue.take batchSize
    let newMessage := messageOf batchSize newBatch
    let encoded ← newMessage.encode Cbor.package
    if encoded.length > mtu then return best
    else growBatch mtu queue messageOf sizes (newBatch, some newMessage)

namespace ArkStore

section

variable (env : Broadcasting) (self : ArkStore)

/-- `reachable_servers`. -/
def reachableServers (now : ℤ) : List ServerRecord :=
  (validServers now env.currentEpoch self.servers).filter (·.isReachable env)

/-- `unreachable_servers`. -/
def unreachableServers (now : ℤ) : List ServerRecord :=
  (validServers now env.currentEpoch self.servers).filter fun s => !s.isReachable env

/-- `server_pool`. -/
def serverPool (now : ℤ) : List ServerRecord :=
  if env.reachable then self.reachableServers env now
  else validServers now env.currentEpoch self.servers

/-- `non_dummy_servers`. -/
def nonDummyServers (now : ℤ) : List ServerRecord :=
  (self.serverPool env now).filter fun s => !s.isDummy && !s.isDegraded

/-- `dead_servers`, with the degraded ones. -/
def deadServers (clock : BroadcastClock) : List (Option Bytes) :=
  ((self.unreachableServers env clock.deadNow).filter fun s => !s.isDummy).map
      ServerRecord.pseudonym ++
    ((self.serverPool env clock.poolNow).filter ServerRecord.isDegraded).map ServerRecord.pseudonym

/-- `records_by_last_broadcast`. -/
def queue (now : ℤ) : List ServerRecord :=
  sortBy ServerRecord.lastBroadcast (self.nonDummyServers env now)

/-- The message of a call with so many announcements. -/
def message (clock : BroadcastClock) (batchSize : ℕ) (batch : List ServerRecord) : PrismMessage :=
  arksMessage env (self.deadServers env clock) (clock.seconds batchSize) (clock.micros batchSize)
    batch

end

/-- The marks of a batch, from the `i`-th on. -/
def markBroadcast (marks : ℕ → ℤ) : ℕ → List ServerRecord → ArkStore → ArkStore
  | _, [], self => self
  | i, rec :: batch, self =>
    markBroadcast marks (i + 1) batch (self.setLastBroadcast rec.pseudonym (marks i))

/-- `broadcast_message`. -/
def broadcastMessage (env : Broadcasting) (clock : BroadcastClock) (self : ArkStore) :
    Py (ArkStore × Option PrismMessage) := do
  let queue := self.queue env clock.poolNow
  let (batch, message) ← growBatch env.mtu queue (self.message env clock)
    (List.range' 1 queue.length) ([], none)
  return (self.markBroadcast clock.marks 0 batch, message)

/-- Some calls, one after another. -/
def broadcasts (env : Broadcasting) :
    List BroadcastClock → ArkStore → Py (ArkStore × List (Option PrismMessage))
  | [], self => .ok (self, [])
  | clock :: clocks, self => do
    let (self, message) ← self.broadcastMessage env clock
    let (self, messages) ← broadcasts env clocks self
    return (self, message :: messages)

end ArkStore

/-! ### A batch -/

/-- The length of a message on the wire. -/
def encodedLength (message : PrismMessage) : ℕ :=
  match message.encode Cbor.package with
  | .ok encoded => encoded.length
  | .error _ => 0

/-- The message of so many announcements fits. -/
def fitsMtu (mtu : ℤ) (messageOf : ℕ → List ServerRecord → PrismMessage)
    (queue : List ServerRecord) (batchSize : ℕ) : Bool :=
  decide ((encodedLength (messageOf batchSize (queue.take batchSize)) : ℤ) ≤ mtu)

/-- How many announcements a call sends: batches grow as long as their messages fit. -/
def grown (mtu : ℤ) (messageOf : ℕ → List ServerRecord → PrismMessage)
    (queue : List ServerRecord) : ℕ :=
  ((List.range' 1 queue.length).takeWhile (fitsMtu mtu messageOf queue)).length

section Batch

variable {mtu : ℤ} {queue : List ServerRecord} {messageOf : ℕ → List ServerRecord → PrismMessage}

/-- The loop from a batch size on. -/
theorem growBatch_range (encodes : ∀ k, ∃ encoded,
    (messageOf k (queue.take k)).encode Cbor.package = .ok encoded) (k m : ℕ)
    (best : List ServerRecord × Option PrismMessage) :
    ∃ t, t = ((List.range' k m).takeWhile (fitsMtu mtu messageOf queue)).length ∧
      growBatch mtu queue messageOf (List.range' k m) best = .ok (if t = 0 then best else
        (queue.take (k + t - 1), some (messageOf (k + t - 1) (queue.take (k + t - 1))))) := by
  induction m generalizing k best with
  | zero => exact ⟨0, rfl, rfl⟩
  | succ m ih =>
      obtain ⟨encoded, run⟩ := encodes k
      have length : encodedLength (messageOf k (queue.take k)) = encoded.length := by
        rw [encodedLength, run]
      rw [List.range'_succ, growBatch, run, ok_bind]
      by_cases fits : (encoded.length : ℤ) ≤ mtu
      · obtain ⟨t, same, grows⟩ := ih (k + 1) (queue.take k, some (messageOf k (queue.take k)))
        refine ⟨t + 1, ?_, ?_⟩
        · rw [List.takeWhile_cons_of_pos (by rw [fitsMtu, length]; exact decide_eq_true fits), same]
          rfl
        · rw [if_neg (not_lt.mpr fits), grows, if_neg (Nat.succ_ne_zero t)]
          have size : k + 1 + t - 1 = k + (t + 1) - 1 := by omega
          rw [size]
          split_ifs with none
          · subst none
            rfl
          · rfl
      · refine ⟨0, ?_, ?_⟩
        · rw [List.takeWhile_cons_of_neg (by rw [fitsMtu, length]; simpa using fits)]
          rfl
        · rw [if_pos (not_le.mp fits)]
          rfl

/-- **What the loop returns**: the front of the queue, as far as it fits. -/
theorem growBatch_eq (encodes : ∀ k, ∃ encoded,
    (messageOf k (queue.take k)).encode Cbor.package = .ok encoded) :
    growBatch mtu queue messageOf (List.range' 1 queue.length) ([], none) =
      .ok (queue.take (grown mtu messageOf queue),
        if grown mtu messageOf queue = 0 then none else
          some (messageOf (grown mtu messageOf queue)
            (queue.take (grown mtu messageOf queue)))) := by
  obtain ⟨t, same, run⟩ := growBatch_range encodes 1 queue.length ([], none)
  have count : t = grown mtu messageOf queue := same
  rw [run, ← count]
  split_ifs with none
  · rw [none]
    rfl
  · rw [Nat.add_sub_cancel_left]

theorem grown_le : grown mtu messageOf queue ≤ queue.length := by
  refine (List.takeWhile_sublist _).length_le.trans ?_
  rw [List.length_range']

/-- A first announcement that fits is sent. -/
theorem grown_pos {x : ServerRecord} {rest : List ServerRecord}
    (fits : (encodedLength (messageOf 1 [x]) : ℤ) ≤ mtu) : 0 < grown mtu messageOf (x :: rest) := by
  have first : fitsMtu mtu messageOf (x :: rest) 1 = true := decide_eq_true fits
  rw [grown, List.length_cons, List.range'_succ, List.takeWhile_cons_of_pos first,
    List.length_cons]
  exact Nat.succ_pos _

/-- What is sent fits. -/
theorem encodedLength_grown (pos : 0 < grown mtu messageOf queue) :
    (encodedLength (messageOf (grown mtu messageOf queue)
      (queue.take (grown mtu messageOf queue))) : ℤ) ≤ mtu := by
  have front := List.prefix_iff_eq_take.mp (List.takeWhile_prefix (fitsMtu mtu messageOf queue)
    (l := List.range' 1 queue.length))
  have last : grown mtu messageOf queue ∈
      (List.range' 1 queue.length).takeWhile (fitsMtu mtu messageOf queue) := by
    rw [front, ← grown, List.take_range'_of_length_ge grown_le, List.mem_range'_1]
    exact ⟨pos, Nat.lt_one_add_iff.mpr le_rfl⟩
  have fits : fitsMtu mtu messageOf queue (grown mtu messageOf queue) = true :=
    List.mem_takeWhile_imp last
  exact of_decide_eq_true fits

end Batch

/-! ### Stamps -/

/-- A record with another last broadcast. -/
def ServerRecord.restamp (stamp : Option Bytes → ℤ) (self : ServerRecord) : ServerRecord :=
  { self with lastBroadcast := stamp self.pseudonym }

namespace ArkStore

/-- A store whose records were last broadcast at other times. -/
def withStamps (self : ArkStore) (stamp : Option Bytes → ℤ) : ArkStore :=
  { self with servers := self.servers.map fun e => (e.1, e.2.restamp stamp) }

/-- When a server was last broadcast. -/
def stamp (self : ArkStore) (p : Option Bytes) : ℤ :=
  match self.servers.lookup p with
  | some known => known.lastBroadcast
  | none => 0

/-- The times after the marks of a batch. -/
def stampAfter (marks : ℕ → ℤ) :
    ℕ → List ServerRecord → (Option Bytes → ℤ) → Option Bytes → ℤ
  | _, [], stamp => stamp
  | i, rec :: batch, stamp =>
    stampAfter marks (i + 1) batch (Function.update stamp rec.pseudonym (marks i))

/-- **A store as `record` keeps it**: for every pseudonym there is one record, of a typed
announcement that names the pseudonym. -/
structure Sound (store : ArkStore) : Prop where
  keys : (store.servers.map Prod.fst).Nodup
  keyed : store.Keyed
  named : ∀ e ∈ store.servers, pseudonymOf e.2.ark = e.1
  typed : ∀ e ∈ store.servers, e.2.ark.Typed

/-- **Recording a typed announcement** keeps the store so. -/
theorem Sound.record {now : ℤ} {self after : ArkStore} {ark : PrismMessage} {rebroadcast : Bool}
    (sound : self.Sound) (typed : ark.Typed)
    (run : self.record now ark rebroadcast = .ok after) : after.Sound := by
  obtain ⟨-, keyed, held⟩ := mem_record sound.keyed run
  refine ⟨?_, keyed, fun e mem => ?_, fun e mem => ?_⟩
  · obtain ⟨⟨servers, recorded⟩, made, result⟩ := bind_eq_ok.mp run
    obtain ⟨-, rfl, -⟩ := recorded_cases made
    have stored : ((dictSet self.servers (pseudonymOf ark) recorded).map Prod.fst).Nodup :=
      nodup_dictSet sound.keys _ _
    have marked : ∀ (store : ArkStore) (p : Option Bytes) (t : ℤ),
        (store.setLastBroadcast p t).servers.map Prod.fst = store.servers.map Prod.fst := by
      intro store p t
      rw [setLastBroadcast, List.map_map]
      refine List.map_congr_left fun e _ => ?_
      rw [Function.comp_apply]
      split_ifs <;> rfl
    cases result
    split_ifs
    · rwa [marked]
    · rw [marked]
      exact stored.sublist (List.filter_sublist.map _)
    · exact stored
    · exact stored.sublist (List.filter_sublist.map _)
  · rcases held e mem with ⟨e', mem', key, same⟩ | ⟨key, same, -⟩
    · rw [← same, ← key, sound.named e' mem']
    · rw [same, key]
  · rcases held e mem with ⟨e', mem', -, same⟩ | ⟨-, same, -⟩
    · exact same ▸ sound.typed e' mem'
    · exact same ▸ typed

section

variable (env : Broadcasting) (self : ArkStore) (stamp : Option Bytes → ℤ)

theorem validServers_withStamps (now : ℤ) (epoch : String) :
    validServers now epoch (self.withStamps stamp).servers =
      (validServers now epoch self.servers).map (ServerRecord.restamp stamp) := by
  rw [validServers, validServers, withStamps, List.map_map, List.filter_map, List.filter_map,
    List.map_map]
  rfl

theorem serverPool_withStamps (now : ℤ) :
    (self.withStamps stamp).serverPool env now =
      (self.serverPool env now).map (ServerRecord.restamp stamp) := by
  unfold serverPool reachableServers
  rw [validServers_withStamps]
  split_ifs
  · rw [List.filter_map]
    rfl
  · rfl

theorem nonDummyServers_withStamps (now : ℤ) :
    (self.withStamps stamp).nonDummyServers env now =
      (self.nonDummyServers env now).map (ServerRecord.restamp stamp) := by
  rw [nonDummyServers, serverPool_withStamps, List.filter_map]
  rfl

theorem deadServers_withStamps (clock : BroadcastClock) :
    (self.withStamps stamp).deadServers env clock = self.deadServers env clock := by
  have names : ∀ xs : List ServerRecord, ∀ p : ServerRecord → Bool,
      (∀ r, p (r.restamp stamp) = p r) →
      ((xs.map (ServerRecord.restamp stamp)).filter p).map ServerRecord.pseudonym =
        (xs.filter p).map ServerRecord.pseudonym := by
    intro xs p same
    rw [List.filter_map, List.map_map]
    refine congrArg₂ _ rfl (List.filter_congr fun r _ => same r)
  rw [deadServers, deadServers, serverPool_withStamps, names _ _ fun _ => rfl,
    unreachableServers, unreachableServers, validServers_withStamps, List.filter_map,
    names _ _ fun _ => rfl]
  rfl

/-- The servers in the order of their stamps. -/
def order (stamp : Option Bytes → ℤ) (pool : List ServerRecord) : List ServerRecord :=
  sortBy (fun r => stamp r.pseudonym) pool

theorem queue_withStamps (now : ℤ) :
    (self.withStamps stamp).queue env now =
      (order stamp (self.nonDummyServers env now)).map (ServerRecord.restamp stamp) := by
  rw [queue, nonDummyServers_withStamps, order, ← map_sortBy fun _ => rfl]
  rfl

theorem message_withStamps (clock : BroadcastClock) (k : ℕ) (batch : List ServerRecord) :
    (self.withStamps stamp).message env clock k (batch.map (ServerRecord.restamp stamp)) =
      self.message env clock k batch := by
  rw [message, message, deadServers_withStamps, arksMessage, arksMessage, List.map_map]
  rfl

variable {self}

theorem withStamps_stamp (sound : self.Sound) : self.withStamps self.stamp = self := by
  have same : self.servers.map (fun e => (e.1, e.2.restamp self.stamp)) = self.servers := by
    refine (List.map_congr_left fun e mem => ?_).trans (List.map_id _)
    have found : self.stamp e.2.pseudonym = e.2.lastBroadcast := by
      rw [ArkStore.stamp, sound.keyed e mem, lookup_of_mem sound.keys mem]
    rw [ServerRecord.restamp, found]
    rfl
  rw [withStamps, same]

theorem setLastBroadcast_withStamps (keyed : self.Keyed) (p : Option Bytes) (t : ℤ) :
    (self.withStamps stamp).setLastBroadcast p t =
      self.withStamps (Function.update stamp p t) := by
  rw [setLastBroadcast, withStamps, withStamps, List.map_map]
  congr 1
  refine List.map_congr_left fun e mem => ?_
  have own := keyed e mem
  simp only [Function.comp_apply, ServerRecord.restamp, own]
  split_ifs with same
  · rw [same, Function.update_self]
  · rw [Function.update_of_ne same]

theorem markBroadcast_withStamps (keyed : self.Keyed) (marks : ℕ → ℤ) (i : ℕ)
    (batch : List ServerRecord) :
    markBroadcast marks i batch (self.withStamps stamp) =
      self.withStamps (stampAfter marks i batch stamp) := by
  induction batch generalizing i stamp with
  | nil => rfl
  | cons rec batch ih =>
      rw [markBroadcast, setLastBroadcast_withStamps stamp keyed, ih, stampAfter]

end

variable {marks : ℕ → ℤ} {batch : List ServerRecord} {stamp : Option Bytes → ℤ}

/-- Only the batch is marked. -/
theorem stampAfter_other (i : ℕ) {p : Option Bytes}
    (other : p ∉ batch.map ServerRecord.pseudonym) :
    stampAfter marks i batch stamp p = stamp p := by
  induction batch generalizing i stamp with
  | nil => rfl
  | cons rec batch ih =>
      rw [List.map_cons, List.mem_cons, not_or] at other
      rw [stampAfter, ih (i + 1) other.2, Function.update_of_ne other.1]

/-- Each of the batch gets its own mark. -/
theorem stampAfter_mem (distinct : (batch.map ServerRecord.pseudonym).Nodup) (i : ℕ)
    {p : Option Bytes} (mem : p ∈ batch.map ServerRecord.pseudonym) :
    stampAfter marks i batch stamp p =
      marks (i + (batch.map ServerRecord.pseudonym).idxOf p) := by
  induction batch generalizing i stamp with
  | nil => cases mem
  | cons rec batch ih =>
      rw [List.map_cons, List.nodup_cons] at distinct
      rw [List.map_cons, stampAfter]
      by_cases same : rec.pseudonym = p
      · subst same
        rw [stampAfter_other (i + 1) distinct.1, Function.update_self, List.idxOf_cons_self,
          Nat.add_zero]
      · have later : p ∈ batch.map ServerRecord.pseudonym :=
          (List.mem_cons.mp mem).resolve_left fun eq => same eq.symm
        rw [ih distinct.2 _ later, List.idxOf_cons_ne _ same, Nat.succ_eq_add_one,
          Nat.add_right_comm, Nat.add_assoc]

theorem stampAfter_getElem (distinct : (batch.map ServerRecord.pseudonym).Nodup) (j : ℕ)
    (lt : j < batch.length) : stampAfter marks 0 batch stamp batch[j].pseudonym = marks j := by
  have index := distinct.idxOf_getElem j (by rwa [List.length_map])
  rw [List.getElem_map] at index
  rw [stampAfter_mem distinct 0 (List.mem_map_of_mem (List.getElem_mem lt)), index, Nat.zero_add]

theorem stampAfter_restamp (other : Option Bytes → ℤ) (i : ℕ) :
    stampAfter marks i (batch.map (ServerRecord.restamp other)) stamp =
      stampAfter marks i batch stamp := by
  induction batch generalizing i stamp with
  | nil => rfl
  | cons rec batch ih =>
      rw [List.map_cons, stampAfter, stampAfter, ih]
      rfl

/-! ### A call -/

section

variable {env : Broadcasting} {self : ArkStore} {clock : BroadcastClock} {now : ℤ}

theorem nonDummyServers_sublist :
    (self.nonDummyServers env now).Sublist (self.servers.map Prod.snd) := by
  refine List.filter_sublist.trans ?_
  unfold serverPool reachableServers
  split_ifs
  · exact List.filter_sublist.trans List.filter_sublist
  · exact List.filter_sublist

theorem mem_servers {r : ServerRecord} (mem : r ∈ self.nonDummyServers env now) :
    ∃ e ∈ self.servers, e.2 = r :=
  List.mem_map.mp (nonDummyServers_sublist.subset mem)

theorem distinct_nonDummyServers (sound : self.Sound) :
    ((self.nonDummyServers env now).map ServerRecord.pseudonym).Nodup := by
  have names : (self.servers.map Prod.snd).map ServerRecord.pseudonym =
      self.servers.map Prod.fst := by
    rw [List.map_map]
    exact List.map_congr_left sound.keyed
  exact (names ▸ sound.keys).sublist (nonDummyServers_sublist.map _)

/-- A message of known announcements can be encoded. -/
theorem message_encodes (sound : self.Sound) (k : ℕ) {batch : List ServerRecord}
    (known : ∀ r ∈ batch, ∃ e ∈ self.servers, e.2 = r) :
    ∃ encoded, (self.message env clock k batch).encode Cbor.package = .ok encoded := by
  have typed : (self.message env clock k batch).Typed := by
    refine PrismMessage.typed_create fun arg mem => ?_
    simp only [List.mem_cons, List.not_mem_nil, or_false] at mem
    rcases mem with rfl | rfl | rfl | rfl | rfl
    · cases env.pseudonym <;> rfl
    · cases env.epoch <;> rfl
    · rfl
    · have arks : batch.map (fun rec => rec.ark.toValue) =
          (batch.map ServerRecord.ark).map PrismMessage.toValue := by
        rw [List.map_map]
        rfl
      rw [arks]
      refine argumentTyped_list rfl (hasElements_messages fun m mem => ?_)
      obtain ⟨r, inBatch, rfl⟩ := List.mem_map.mp mem
      obtain ⟨e, inStore, rfl⟩ := known r inBatch
      exact sound.typed e inStore
    · refine argumentTyped_list rfl ?_
      induction self.deadServers env clock with
      | nil => rfl
      | cons p dead ih => cases p <;> exact ih
  obtain ⟨encoded, run, -⟩ := PrismMessage.decode_encode Cbor.package Builtins.strict 0 typed
  exact ⟨encoded, run⟩

theorem submessages_message (k : ℕ) (batch : List ServerRecord) :
    (self.message env clock k batch).get .submessages =
      .list (batch.map fun rec => rec.ark.toValue) := rfl

variable (env self clock)

/-- How many announcements a call sends of a queue. -/
def sends (queue : List ServerRecord) : ℕ := grown env.mtu (self.message env clock) queue

variable {self}

/-- **What a call does**: it sends the front of the queue, as far as that fits, and marks it. -/
theorem broadcastMessage_withStamps (sound : self.Sound) (stamp : Option Bytes → ℤ)
    {queue : List ServerRecord}
    (ordered : queue = order stamp (self.nonDummyServers env clock.poolNow)) :
    (self.withStamps stamp).broadcastMessage env clock =
      .ok (self.withStamps
          (stampAfter clock.marks 0 (queue.take (self.sends env clock queue)) stamp),
        if self.sends env clock queue = 0 then none else
          some (self.message env clock (self.sends env clock queue)
            (queue.take (self.sends env clock queue)))) := by
  have parts : ∀ k, (self.withStamps stamp).message env clock k
      ((queue.map (ServerRecord.restamp stamp)).take k) =
        self.message env clock k (queue.take k) := fun k => by
    rw [← List.map_take, message_withStamps]
  have known : ∀ r ∈ queue, ∃ e ∈ self.servers, e.2 = r := fun r mem =>
    mem_servers (mem_sortBy.mp (ordered ▸ mem))
  have encodes : ∀ k, ∃ encoded, ((self.withStamps stamp).message env clock k
      ((queue.map (ServerRecord.restamp stamp)).take k)).encode Cbor.package = .ok encoded :=
    fun k => by
      rw [parts]
      exact message_encodes sound k fun r mem => known r (List.mem_of_mem_take mem)
  have count : grown env.mtu ((self.withStamps stamp).message env clock)
      (queue.map (ServerRecord.restamp stamp)) = self.sends env clock queue := by
    have fits : fitsMtu env.mtu ((self.withStamps stamp).message env clock)
        (queue.map (ServerRecord.restamp stamp)) =
          fitsMtu env.mtu (self.message env clock) queue := by
      funext k
      rw [fitsMtu, fitsMtu, parts]
    rw [grown, sends, grown, fits, List.length_map]
  have run := @growBatch_eq env.mtu _ _ encodes
  rw [count, parts, ← List.map_take] at run
  rw [broadcastMessage, queue_withStamps, ← ordered]
  dsimp only
  rw [run, ok_bind]
  dsimp only
  rw [markBroadcast_withStamps stamp sound.keyed, stampAfter_restamp]
  rfl

end

section

variable {env : Broadcasting} {self : ArkStore} {now : ℤ}

/-- **A proper call**: its message fits the MTU and has the announcements of a batch that was
broadcast least recently, and those records, and no others, are marked. -/
def Proper (env : Broadcasting) (self : ArkStore) (clock : BroadcastClock) (after : ArkStore)
    (sent : Option PrismMessage) : Prop :=
  ∃ batch rest, (batch ++ rest).Perm (self.nonDummyServers env clock.poolNow) ∧
    (∀ x ∈ batch, ∀ y ∈ rest, x.lastBroadcast ≤ y.lastBroadcast) ∧
    (sent = none → batch = []) ∧
    (∀ message, sent = some message → batch ≠ [] ∧
      message.get .submessages = .list (batch.map fun rec => rec.ark.toValue) ∧
      ∃ encoded, message.encode Cbor.package = .ok encoded ∧ encoded.length ≤ env.mtu) ∧
    after = { self with servers := self.servers.map fun e =>
      if e.1 ∈ batch.map ServerRecord.pseudonym then
        (e.1, { e.2 with
          lastBroadcast := clock.marks ((batch.map ServerRecord.pseudonym).idxOf e.1) })
      else e }

theorem Sound.withStamps (sound : self.Sound) (stamp : Option Bytes → ℤ) :
    (self.withStamps stamp).Sound := by
  have each : ∀ {P : Option Bytes × ServerRecord → Prop}, (∀ e ∈ self.servers,
      P (e.1, e.2.restamp stamp)) → ∀ e ∈ (self.withStamps stamp).servers, P e := by
    intro P holds e mem
    obtain ⟨e', mem', rfl⟩ := List.mem_map.mp mem
    exact holds e' mem'
  refine ⟨?_, each sound.keyed, each sound.named, each sound.typed⟩
  rw [ArkStore.withStamps, List.map_map]
  exact sound.keys

theorem stamp_of_mem (sound : self.Sound) {r : ServerRecord}
    (mem : r ∈ self.nonDummyServers env now) : self.stamp r.pseudonym = r.lastBroadcast := by
  obtain ⟨e, inStore, rfl⟩ := mem_servers mem
  rw [stamp, sound.keyed e inStore, lookup_of_mem sound.keys inStore]

theorem order_stamp (sound : self.Sound) :
    order self.stamp (self.nonDummyServers env now) = self.queue env now :=
  sortBy_eq_iff.mpr fun a b before => by
    rw [stamp_of_mem sound (before.subset (by simp)), stamp_of_mem sound (before.subset (by simp))]

/-- The records after the marks of a batch. -/
theorem withStamps_stampAfter (sound : self.Sound) (marks : ℕ → ℤ) {batch : List ServerRecord}
    (own : (batch.map ServerRecord.pseudonym).Nodup) :
    self.withStamps (stampAfter marks 0 batch self.stamp) =
      { self with servers := self.servers.map fun e =>
        if e.1 ∈ batch.map ServerRecord.pseudonym then
          (e.1, { e.2 with
            lastBroadcast := marks ((batch.map ServerRecord.pseudonym).idxOf e.1) })
        else e } := by
  have same : self.servers.map (fun e =>
      (e.1, e.2.restamp (stampAfter marks 0 batch self.stamp))) =
        self.servers.map fun e =>
          if e.1 ∈ batch.map ServerRecord.pseudonym then
            (e.1, { e.2 with
              lastBroadcast := marks ((batch.map ServerRecord.pseudonym).idxOf e.1) })
          else e := by
    refine List.map_congr_left fun e mem => ?_
    have key := sound.keyed e mem
    split_ifs with inBatch
    · have marked : stampAfter marks 0 batch self.stamp e.2.pseudonym =
          marks ((batch.map ServerRecord.pseudonym).idxOf e.1) := by
        rw [key, stampAfter_mem own 0 inBatch, Nat.zero_add]
      rw [ServerRecord.restamp, marked]
    · have kept : stampAfter marks 0 batch self.stamp e.2.pseudonym = e.2.lastBroadcast := by
        rw [key, stampAfter_other 0 inBatch, stamp, lookup_of_mem sound.keys mem]
      rw [ServerRecord.restamp, kept]
  exact congrArg (fun servers => { self with servers }) same

/-- **Every call is proper.** -/
theorem broadcastMessage_proper (sound : self.Sound) (env : Broadcasting)
    (clock : BroadcastClock) :
    ∃ after sent, self.broadcastMessage env clock = .ok (after, sent) ∧
      self.Proper env clock after sent ∧ after.Sound := by
  obtain ⟨k, count⟩ : ∃ k, k = self.sends env clock (self.queue env clock.poolNow) := ⟨_, rfl⟩
  have call := broadcastMessage_withStamps env clock sound self.stamp (order_stamp sound).symm
  rw [withStamps_stamp sound, ← count] at call
  have perm : (self.queue env clock.poolNow).Perm (self.nonDummyServers env clock.poolNow) :=
    sortBy_perm _
  have sorted : (self.queue env clock.poolNow).Pairwise fun a b =>
      a.lastBroadcast ≤ b.lastBroadcast := sortBy_pairwise _
  have known : ∀ r ∈ (self.queue env clock.poolNow).take k, ∃ e ∈ self.servers, e.2 = r :=
    fun r mem => mem_servers (perm.subset (List.mem_of_mem_take mem))
  have own : (((self.queue env clock.poolNow).take k).map ServerRecord.pseudonym).Nodup :=
    ((perm.map _).nodup_iff.mpr (distinct_nonDummyServers sound)).sublist
      ((List.take_sublist _ _).map _)
  refine ⟨_, _, call, ⟨(self.queue env clock.poolNow).take k,
    (self.queue env clock.poolNow).drop k, ?_, ?_, ?_, ?_, withStamps_stampAfter sound _ own⟩,
      sound.withStamps _⟩
  · rwa [List.take_append_drop]
  · rw [← List.take_append_drop k (self.queue env clock.poolNow)] at sorted
    exact (List.pairwise_append.mp sorted).2.2
  · intro nothing
    split_ifs at nothing with zero
    rw [zero, List.take_zero]
  · intro message sent
    split_ifs at sent with zero
    obtain rfl := Option.some.inj sent
    have few : k ≤ (self.queue env clock.poolNow).length := by
      rw [count]
      exact grown_le
    have fits : (encodedLength (self.message env clock k
        ((self.queue env clock.poolNow).take k)) : ℤ) ≤ env.mtu := by
      subst count
      exact encodedLength_grown (Nat.pos_of_ne_zero zero)
    obtain ⟨encoded, run⟩ := message_encodes sound k known
    refine ⟨fun empty => ?_, submessages_message k _, encoded, run, ?_⟩
    · have length := congrArg List.length empty
      rw [List.length_take, List.length_nil] at length
      omega
    · rwa [encodedLength, run] at fits

end

end ArkStore

end Prism.Routing
