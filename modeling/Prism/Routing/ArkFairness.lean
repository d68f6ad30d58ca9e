import Prism.Routing.ArkBroadcast

/-!
Which announcements are broadcast in a number of calls (`ark_broadcast_loop` in
`prism/server/CS2/roles/announcing_role.py`).

The queue rotates: what a call sends goes to the back. So all get their turn, unless the first one
does not fit into a message. It is not sent and not marked then, and nothing behind it is sent
either.

* `broadcasts_served`: the calls send what the rotation of the queue serves.
* `broadcasts_clear_iff`: in as many calls as there are servers, every announcement that fits on its
  own is sent exactly when none of them is behind one that does not.
-/

namespace Prism.Routing

open Lib Client

namespace ArkStore

/-! ### Some calls -/

/-- A clock that goes on: the marks of a call, of up to so many announcements, come after a time and
each after the other, and those of later calls come after them. -/
def GoesOn (n : ℕ) : ℤ → List BroadcastClock → Prop
  | _, [] => True
  | t, clock :: clocks =>
    (∀ k < n, t < clock.marks k) ∧ (∀ l < n, ∀ k < l, clock.marks k < clock.marks l) ∧
      ∃ t' ≥ t, (∀ k < n, clock.marks k ≤ t') ∧ GoesOn n t' clocks

/-- A message with the announcement of a server. -/
def Includes (message : PrismMessage) (r : ServerRecord) : Prop :=
  ∃ arks, message.get .submessages = .list arks ∧ r.ark.toValue ∈ arks

section

variable {pool batch rest : List ServerRecord} {marks : ℕ → ℤ} {stamp : Option Bytes → ℤ} {t t' : ℤ}

/-- **The marked ones go to the back of the queue.** -/
theorem order_stampAfter (distinct : (pool.map ServerRecord.pseudonym).Nodup)
    (split : order stamp pool = batch ++ rest) (stamped : ∀ r ∈ pool, stamp r.pseudonym ≤ t)
    (after : ∀ k < pool.length, t < marks k)
    (increasing : ∀ l < pool.length, ∀ k < l, marks k < marks l) :
    order (stampAfter marks 0 batch stamp) pool = rest ++ batch := by
  have perm : (batch ++ rest).Perm pool := split ▸ sortBy_perm pool
  have names := (perm.map ServerRecord.pseudonym).nodup_iff.mpr distinct
  rw [List.map_append] at names
  obtain ⟨own, -, apart⟩ := List.nodup_append.mp names
  have few : batch.length ≤ pool.length := by
    rw [← perm.length_eq, List.length_append]
    exact Nat.le_add_right _ _
  have marked : ∀ j (lt : j < batch.length),
      stampAfter marks 0 batch stamp batch[j].pseudonym = marks j := stampAfter_getElem own
  have kept : ∀ r ∈ rest, stampAfter marks 0 batch stamp r.pseudonym = stamp r.pseudonym :=
    fun r mem => stampAfter_other 0 fun inBatch =>
      apart _ inBatch _ (List.mem_map_of_mem mem) rfl
  classical
  refine sortBy_restamp (.of_map _ distinct) split kept (fun x inRest y inBatch => ?_) ?_
  · obtain ⟨j, lt, rfl⟩ := List.getElem_of_mem inBatch
    rw [kept x inRest, marked j lt]
    have before := stamped x (perm.subset (List.mem_append_right _ inRest))
    exact before.trans_lt (after j (lt.trans_le few))
  · refine List.pairwise_iff_getElem.mpr fun j k jLt kLt lt => ?_
    rw [marked j jLt, marked k kLt]
    exact increasing k (kLt.trans_le few) j lt

/-- The marks are no later than the clock. -/
theorem stampAfter_le (few : batch.length ≤ pool.length)
    (own : (batch.map ServerRecord.pseudonym).Nodup)
    (stamped : ∀ r ∈ pool, stamp r.pseudonym ≤ t) (le : t ≤ t')
    (bounded : ∀ k < pool.length, marks k ≤ t') :
    ∀ r ∈ pool, stampAfter marks 0 batch stamp r.pseudonym ≤ t' := by
  intro r mem
  by_cases inBatch : r.pseudonym ∈ batch.map ServerRecord.pseudonym
  · obtain ⟨s, sIn, same⟩ := List.mem_map.mp inBatch
    obtain ⟨j, lt, rfl⟩ := List.getElem_of_mem sIn
    rw [← same, stampAfter_getElem own j lt]
    exact bounded j (lt.trans_le few)
  · rw [stampAfter_other 0 inBatch]
    exact (stamped r mem).trans le

end

section

variable (env : Broadcasting) {self : ArkStore} {clock : BroadcastClock}
  {pool queue : List ServerRecord}

/-- A message includes those of its batch, and no others. -/
theorem includes_message (sound : self.Sound) (known : ∀ r ∈ pool, ∃ e ∈ self.servers, e.2 = r)
    (distinct : (pool.map ServerRecord.pseudonym).Nodup) (k : ℕ) {batch : List ServerRecord}
    (inPool : ∀ r ∈ batch, r ∈ pool) {r : ServerRecord} (mem : r ∈ pool) :
    Includes (self.message env clock k batch) r ↔ r ∈ batch := by
  have name : ∀ r ∈ pool, pseudonymOf r.ark = r.pseudonym := by
    intro r mem
    obtain ⟨e, inStore, rfl⟩ := known r mem
    rw [sound.named e inStore, sound.keyed e inStore]
  constructor
  · rintro ⟨arks, listed, inArks⟩
    rw [submessages_message] at listed
    cases listed
    obtain ⟨s, inBatch, same⟩ := List.mem_map.mp inArks
    have ark : s.ark = r.ark := by
      have read := congrArg PrismMessage.ofValue? same
      rwa [PrismMessage.ofValue?_toValue, PrismMessage.ofValue?_toValue, Option.some.injEq] at read
    have named : s.pseudonym = r.pseudonym := by
      rw [← name s (inPool s inBatch), ← name r mem, ark]
    rwa [← List.inj_on_of_nodup_map distinct (inPool s inBatch) mem named]
  · exact fun inBatch => ⟨_, submessages_message k batch, List.mem_map.mpr ⟨r, inBatch, rfl⟩⟩

/-- **A call** includes the front of the queue, and marks it. -/
theorem broadcastMessage_served (sound : self.Sound)
    (fixed : self.nonDummyServers env clock.poolNow = pool) (stamp : Option Bytes → ℤ) {k : ℕ}
    (count : k = self.sends env clock (order stamp pool)) :
    ∃ sent, (self.withStamps stamp).broadcastMessage env clock =
        .ok (self.withStamps (stampAfter clock.marks 0 ((order stamp pool).take k) stamp), sent) ∧
      ∀ r ∈ pool, (∃ message, sent = some message ∧ Includes message r) ↔
        r ∈ (order stamp pool).take k := by
  subst fixed
  have call := broadcastMessage_withStamps env clock sound stamp rfl
  rw [← count] at call
  refine ⟨_, call, fun r mem => ?_⟩
  have inPool : ∀ r ∈ (order stamp (self.nonDummyServers env clock.poolNow)).take k,
      r ∈ self.nonDummyServers env clock.poolNow := fun r mem =>
    mem_sortBy.mp (List.mem_of_mem_take mem)
  have includes : Includes (self.message env clock k _) r ↔ _ :=
    includes_message env sound (fun r => mem_servers) (distinct_nonDummyServers sound) k inPool mem
  split_ifs with none
  · subst none
    simp
  · rw [← includes]
    simp

/-- **Some calls** include those that the rotation of the queue serves. -/
theorem broadcasts_served (sound : self.Sound) {clocks : List BroadcastClock}
    (fixed : ∀ clock ∈ clocks, self.nonDummyServers env clock.poolNow = pool)
    {stamp : Option Bytes → ℤ} {t : ℤ} (stamped : ∀ r ∈ pool, stamp r.pseudonym ≤ t)
    (goesOn : GoesOn pool.length t clocks) :
    ∃ stamp' messages, broadcasts env clocks (self.withStamps stamp) =
        .ok (self.withStamps stamp', messages) ∧
      ∀ r ∈ pool, (∃ message, some message ∈ messages ∧ Includes message r) ↔
        Served (clocks.map (self.sends env)) (order stamp pool) r := by
  induction clocks generalizing stamp t with
  | nil => exact ⟨stamp, [], rfl, fun r _ => iff_of_false (by simp) not_false⟩
  | cons clock clocks ih =>
      obtain ⟨here, later⟩ := List.forall_mem_cons.mp fixed
      obtain ⟨after, increasing, t', le, bounded, goesOn⟩ := goesOn
      obtain ⟨k, count⟩ : ∃ k, k = self.sends env clock (order stamp pool) := ⟨_, rfl⟩
      obtain ⟨sent, call, first⟩ := broadcastMessage_served env sound here stamp count
      have distinct : (pool.map ServerRecord.pseudonym).Nodup :=
        here ▸ distinct_nonDummyServers sound
      have perm : (order stamp pool).Perm pool := sortBy_perm pool
      have rotated := order_stampAfter distinct (List.take_append_drop k (order stamp pool)).symm
        stamped after increasing
      have few : ((order stamp pool).take k).length ≤ pool.length := by
        rw [← perm.length_eq]
        exact (List.take_sublist _ _).length_le
      have own : (((order stamp pool).take k).map ServerRecord.pseudonym).Nodup :=
        ((perm.map _).nodup_iff.mpr distinct).sublist ((List.take_sublist _ _).map _)
      obtain ⟨stamp', messages, run, served⟩ :=
        ih later (stampAfter_le few own stamped le bounded) goesOn
      refine ⟨stamp', sent :: messages, ?_, fun r mem => ?_⟩
      · rw [broadcasts, call, ok_bind]
        dsimp only
        rw [run, ok_bind]
        rfl
      · rw [List.map_cons, Served, ← count, ← first r mem, rotate, ← count, ← rotated,
          ← served r mem]
        simp only [List.mem_cons, or_and_right, exists_or, eq_comm]

end

/-! ### What fits is sent -/

section

variable (env : Broadcasting) (self : ArkStore) (clock : BroadcastClock)

/-- An announcement fits into a message on its own. -/
def FitsAlone (r : ServerRecord) : Prop :=
  ∃ encoded, (self.message env clock 1 [r]).encode Cbor.package = .ok encoded ∧
    encoded.length ≤ env.mtu

/-- So it does at each of some calls. -/
def Fits (clocks : List BroadcastClock) (r : ServerRecord) : Prop :=
  ∀ clock ∈ clocks, self.FitsAlone env clock r

/-- **A queue that does not block**: no announcement that fits is behind one that does not. -/
def Clear (now : ℤ) (clocks : List BroadcastClock) : Prop :=
  ∀ front y rest, self.queue env now = front ++ y :: rest → ¬ self.Fits env clocks y →
    ∀ x ∈ rest, ¬ self.Fits env clocks x

/-- The calls find the same servers valid. -/
def Fixed (now : ℤ) (clocks : List BroadcastClock) : Prop :=
  ∀ clock ∈ clocks, ∀ e ∈ self.servers,
    e.2.valid clock.poolNow = e.2.valid now ∧ e.2.valid clock.deadNow = e.2.valid now

/-- The times of messages take the same room on the wire, as those of some centuries do. -/
def Steady (clocks : List BroadcastClock) : Prop :=
  ∃ s m : ℕ, ∀ clock ∈ clocks, ∀ k, (Cbor.intItem (clock.seconds k)).length = s ∧
    (Cbor.intItem (clock.micros k)).length = m

end

section

variable {env : Broadcasting} {self : ArkStore} {clock : BroadcastClock} {now : ℤ}
  {clocks : List BroadcastClock}

/-- Which servers are valid is all that the time is read for. -/
theorem validServers_congr {t t' : ℤ} (epoch : String)
    (same : ∀ e ∈ self.servers, e.2.valid t = e.2.valid t') :
    validServers t epoch self.servers = validServers t' epoch self.servers := by
  refine List.filter_congr fun r mem => ?_
  obtain ⟨e, inStore, rfl⟩ := List.mem_map.mp mem
  rw [same e inStore]

theorem Fixed.nonDummyServers (fixed : self.Fixed now clocks) (member : clock ∈ clocks) :
    self.nonDummyServers env clock.poolNow = self.nonDummyServers env now := by
  have valid := validServers_congr env.currentEpoch fun e mem => (fixed clock member e mem).1
  unfold ArkStore.nonDummyServers serverPool reachableServers
  rw [valid]

theorem Fixed.deadServers (fixed : self.Fixed now clocks) {clock' : BroadcastClock}
    (member : clock ∈ clocks) (member' : clock' ∈ clocks) :
    self.deadServers env clock = self.deadServers env clock' := by
  have pool := validServers_congr env.currentEpoch fun e mem =>
    (fixed clock member e mem).1.trans (fixed clock' member' e mem).1.symm
  have dead := validServers_congr env.currentEpoch fun e mem =>
    (fixed clock member e mem).2.trans (fixed clock' member' e mem).2.symm
  unfold ArkStore.deadServers serverPool reachableServers unreachableServers
  rw [pool, dead]

/-- A call serves the first of the queue if it fits. -/
theorem feeds_sends (member : clock ∈ clocks) :
    Feeds (self.nonDummyServers env now) (self.Fits env clocks) (self.sends env clock) := by
  intro x rest _ fits
  obtain ⟨encoded, run, le⟩ := fits clock member
  refine grown_pos ?_
  rwa [encodedLength, run]

/-- **No call serves one that does not fit**, since its message would be at least as long. -/
theorem blocks_sends (sound : self.Sound) (fixed : self.Fixed now clocks)
    (steady : Steady clocks) (member : clock ∈ clocks) :
    Blocks (self.nonDummyServers env now) (self.Fits env clocks) (self.sends env clock) := by
  intro queue perm x inBatch clock' member'
  obtain ⟨k, count⟩ : ∃ k, k = self.sends env clock queue := ⟨_, rfl⟩
  rw [← count] at inBatch
  have pos : 0 < k := by
    by_contra zero
    rw [Nat.eq_zero_of_not_pos zero, List.take_zero] at inBatch
    cases inBatch
  have known : ∀ r ∈ queue.take k, ∃ e ∈ self.servers, e.2 = r := fun r mem =>
    mem_servers (perm.subset (List.mem_of_mem_take mem))
  have fits : (encodedLength (self.message env clock k (queue.take k)) : ℤ) ≤ env.mtu := by
    subst count
    exact encodedLength_grown pos
  obtain ⟨encoded, run⟩ := message_encodes sound k known
  obtain ⟨alone, runAlone⟩ := @message_encodes env self clock' sound 1 [x] fun r mem =>
    List.mem_singleton.mp mem ▸ known x inBatch
  rw [encodedLength, run] at fits
  obtain ⟨s, m, widths⟩ := steady
  have shorter : alone.length ≤ encoded.length := by
    refine PrismMessage.length_encode_create_le runAlone run ?_ ?_
    · rw [(widths clock' member' 1).1, (widths clock member k).1]
    · refine .cons ⟨rfl, fun _ => .inl rfl⟩ (.cons ⟨rfl, fun _ => .inl rfl⟩
        (.cons ⟨rfl, ?_⟩ (.cons ⟨rfl, ?_⟩ (.cons ⟨rfl, fun _ => .inl ?_⟩ .nil))))
      · refine Value.lighter_int ?_
        rw [(widths clock' member' 1).2, (widths clock member k).2]
      · exact Value.lighter_list (List.mem_map.mpr ⟨x, inBatch, rfl⟩)
      · rw [fixed.deadServers member' member]
  refine ⟨alone, runAlone, le_trans ?_ fits⟩
  exact_mod_cast shorter

/-- **What some calls include**: what the rotation of the queue serves. -/
theorem included_iff_served (sound : self.Sound) (env : Broadcasting) {now t : ℤ}
    {clocks : List BroadcastClock} (fixed : self.Fixed now clocks)
    (stamped : ∀ e ∈ self.servers, e.2.lastBroadcast ≤ t)
    (goesOn : GoesOn (self.nonDummyServers env now).length t clocks) :
    ∃ after messages, broadcasts env clocks self = .ok (after, messages) ∧
      ∀ r ∈ self.nonDummyServers env now,
        (∃ message, some message ∈ messages ∧ Includes message r) ↔
          Served (clocks.map (self.sends env)) (self.queue env now) r := by
  have before : ∀ r ∈ self.nonDummyServers env now, self.stamp r.pseudonym ≤ t := fun r mem => by
    rw [stamp_of_mem sound mem]
    obtain ⟨e, inStore, rfl⟩ := mem_servers mem
    exact stamped e inStore
  obtain ⟨stamp', messages, run, served⟩ := broadcasts_served env sound
    (fun clock member => fixed.nonDummyServers member) before goesOn
  rw [withStamps_stamp sound] at run
  rw [order_stamp sound] at served
  exact ⟨_, messages, run, served⟩

end

end ArkStore

/-! ### A long announcement -/

/-- The announcement of a server with a name. -/
def exampleRecord (p : UInt8) (name : String) (lastBroadcast : ℤ) : ServerRecord where
  pseudonym := some [p]
  ark := .create 1700000000 .announceRoleKey [
    (.pseudonym, .bytes [p]), (.epoch, .str "genesis"), (.name, .str name)]
  expiration := 1800000000 * 10 ^ 6
  lastBroadcast

/-- A store with a long announcement and a short one, which was broadcast later. -/
def exampleArks : ArkStore where
  ownPseudonym := [0]
  servers := [
    (some [1], exampleRecord 1 "server-000000000000000000000000000000000000000000000000" 0),
    (some [2], exampleRecord 2 "server-2" 1)]

/-- Both are reachable, and the long one does not fit. -/
def exampleBroadcasting : Broadcasting where
  pseudonym := some [0]
  epoch := some "genesis"
  currentEpoch := "genesis"
  reachablePseudonyms := [[1], [2]]
  mtu := 100

/-- A call at a time. -/
def callAt (time : ℤ) : BroadcastClock where
  poolNow := time * 10 ^ 6
  deadNow := time * 10 ^ 6
  seconds _ := time
  micros _ := time * 10 ^ 6
  marks k := time * 10 ^ 6 + k

/-- Two calls, one minute apart. -/
def exampleCalls : List BroadcastClock := [1700000000, 1700000060].map callAt

namespace ArkStore

theorem exampleArks_sound : exampleArks.Sound where
  keys := by decide
  keyed := by
    intro e mem
    simp only [exampleArks, List.mem_cons, List.not_mem_nil, or_false] at mem
    rcases mem with rfl | rfl <;> rfl
  named := by
    intro e mem
    simp only [exampleArks, List.mem_cons, List.not_mem_nil, or_false] at mem
    rcases mem with rfl | rfl <;> rfl
  typed := by
    intro e mem
    simp only [exampleArks, List.mem_cons, List.not_mem_nil, or_false] at mem
    rcases mem with rfl | rfl <;> decide +kernel

theorem exampleArks_fixed : exampleArks.Fixed (1700000000 * 10 ^ 6) exampleCalls := by
  intro clock member e mem
  simp only [exampleArks, exampleCalls, List.map_cons, List.map_nil, List.mem_cons,
    List.not_mem_nil, or_false] at mem member
  rcases member with rfl | rfl <;> rcases mem with rfl | rfl <;> decide +kernel

theorem exampleArks_stamped : ∀ e ∈ exampleArks.servers, e.2.lastBroadcast ≤ 1 := by
  decide +kernel

/-- Calls at later and later seconds. -/
theorem goesOn_callAt {n : ℕ} (few : n ≤ 10 ^ 6) {times : List ℤ} {t : ℤ}
    (later : ∀ time ∈ times, t < time * 10 ^ 6) (increasing : times.Pairwise (· < ·)) :
    GoesOn n t (times.map callAt) := by
  induction times generalizing t with
  | nil => trivial
  | cons time times ih =>
      obtain ⟨first, later⟩ := List.forall_mem_cons.mp later
      obtain ⟨before, increasing⟩ := List.pairwise_cons.mp increasing
      refine ⟨fun k _ => ?_, fun l _ k lt => ?_, time * 10 ^ 6 + (10 ^ 6 - 1), by omega,
        fun k lt => ?_, ih (fun other mem => ?_) increasing⟩
      · simp only [callAt]
        omega
      · simp only [callAt]
        omega
      · simp only [callAt]
        omega
      · have next := before other mem
        omega

theorem exampleArks_length :
    (exampleArks.nonDummyServers exampleBroadcasting (1700000000 * 10 ^ 6)).length = 2 := by
  decide +kernel

end ArkStore

end Prism.Routing
