import Prism.Client.ServerStatus
import Prism.Datetime
import Prism.Lib.Base64
import Prism.Lockfree.Saved

/-!
The saved form of the server database (`prism/common/server_db.py`, `prism/client/server_db.py`).

Times without a time zone are UTC everywhere in the database. They are saved with `timestamp`, which
takes them for local times, and loaded with `utcfromtimestamp`. So every save and load moves all times
by the offset of the host.

* `record_undone_iff`, `status_undone_iff`: the entries that are loaded as they were.
* `restart_eq_iff`: the databases that survive a restart.
* `restarts_eq_iff`: they survive any number of restarts, and no others do.
* `AreRecords.record`, `ServerDB.Sound.update`: announcements and reports keep the form of a database.
-/

namespace Prism.Client

open Lockfree (hex fromHex fromHex_hex hex_injective)
open Routing (ServerRecord Servers pseudonymOf)
open Crypto (isArk)

/-! ### Saved forms -/

/-- What `ServerRecord.to_json` makes. -/
structure RecordJson where
  ark : String
  lastBroadcast : ℚ
deriving DecidableEq, Repr

/-- What `StatusEvent.to_json` makes. -/
structure EventJson where
  reachable : Bool
  timestamp : ℚ
deriving DecidableEq, Repr

/-- What `ServerStatus.to_json` makes. -/
structure StatusJson where
  pseudonym : String
  events : List (String × EventJson)
deriving DecidableEq, Repr

/-- What `ServerDB.to_json` of a client makes. -/
structure DbJson where
  servers : List RecordJson
  statusDb : List StatusJson
deriving DecidableEq, Repr

section Saving

variable (cbor : Cbor2) (builtins : Builtins) (now offset : ℤ)

/-- `to_b64`. -/
def toB64 (m : PrismMessage) : Py String :=
  (m.encode cbor).map fun data => String.ofList (Lib.Base64.encode data)

/-- `from_b64`. -/
def fromB64 (b64 : String) : Py (Option PrismMessage) :=
  match Lib.Base64.decode b64.toList with
  | some data => PrismMessage.decode cbor builtins now data
  | none => .error (.valueError "Incorrect padding")

/-- `ServerRecord.to_json`. -/
def recordToJson (record : ServerRecord) : Py RecordJson := do
  let ark ← toB64 cbor record.ark
  let lastBroadcast ← timestamp offset record.lastBroadcast
  return { ark, lastBroadcast }

/-- `ServerRecord(ark)`, of what was decoded. -/
def createRecord : Option PrismMessage → Py ServerRecord
  | some ark => ServerRecord.create ark
  | none => .error .attributeError

/-- `ServerRecord.from_json`. -/
def recordFromJson (j : RecordJson) : Py ServerRecord := do
  let ark ← fromB64 cbor builtins now j.ark
  let record ← createRecord ark
  let lastBroadcast ← utcfromtimestamp j.lastBroadcast
  return { record with lastBroadcast }

/-- `pseudonym.hex()`. -/
def hexOf : Option Bytes → Py String
  | some pseudonym => .ok (hex pseudonym)
  | none => .error .attributeError

/-- `StatusEvent.to_json`, with the source. -/
def eventToJson (event : Option Bytes × StatusEvent) : Py (String × EventJson) := do
  let source ← hexOf event.1
  let time ← timestamp offset event.2.timestamp
  return (source, ⟨event.2.reachable, time⟩)

/-- `StatusEvent.from_json`, with the source. -/
def eventFromJson (j : String × EventJson) : Py (Option Bytes × StatusEvent) := do
  let source ← fromHex j.1
  let time ← utcfromtimestamp j.2.timestamp
  return (some source, ⟨j.2.reachable, time⟩)

/-- `ServerStatus.to_json`. -/
def statusToJson (status : ServerStatus) : Py StatusJson := do
  let pseudonym ← hexOf status.pseudonym
  let events ← status.events.mapM (eventToJson offset)
  return { pseudonym, events := dictOf events }

/-- `ServerStatus.from_json`. -/
def statusFromJson (j : StatusJson) : Py ServerStatus := do
  let pseudonym ← fromHex j.pseudonym
  let events ← j.events.mapM eventFromJson
  return { pseudonym := some pseudonym, events := dictOf events }

/-- `ServerDB.to_json` of `prism/common/server_db.py`. -/
def serversToJson (servers : Servers) : Py (List RecordJson) :=
  (servers.map Prod.snd).mapM (recordToJson cbor offset)

/-- `ServerDB.load` of `prism/common/server_db.py`. -/
def loadServers (state : List RecordJson) : Py Servers :=
  (state.mapM (recordFromJson cbor builtins now)).map fun records =>
    dictOf (records.map fun record => (record.pseudonym, record))

/-- The statuses, in `ServerDB.load` of a client. -/
def loadStatuses (state : List StatusJson) : Py (List (Option Bytes × ServerStatus)) :=
  (state.mapM statusFromJson).map fun statuses =>
    dictOf (statuses.map fun status => (status.pseudonym, status))

/-- `ServerDB.to_json` of a client. -/
def ServerDB.toJson (db : ServerDB) : Py DbJson := do
  let servers ← serversToJson cbor offset db.servers
  let statusDb ← (db.statusDb.map Prod.snd).mapM (statusToJson offset)
  return { servers, statusDb }

/-- `ServerDB.load` of a client. -/
def ServerDB.load (state : DbJson) : Py ServerDB := do
  let servers ← loadServers cbor builtins now state.servers
  let statusDb ← loadStatuses state.statusDb
  return { servers, statusDb }

/-- The records of a server are saved and loaded. -/
def restartServers (servers : Servers) : Py Servers := do
  let state ← serversToJson cbor offset servers
  loadServers cbor builtins now state

/-- The database of a client is saved and loaded. -/
def restart (db : ServerDB) : Py ServerDB := do
  let state ← db.toJson cbor offset
  ServerDB.load cbor builtins now state

/-- A step is taken so many times. -/
def steps {α : Type} (step : α → Py α) : ℕ → α → Py α
  | 0, a => .ok a
  | n + 1, a => do
      let a ← step a
      steps step n a

end Saving

/-! ### Entries -/

/-- The time is not moved by saving and loading it. -/
def KeptTime (offset t : ℤ) : Prop :=
  offset = 0 ∧ (minSecond + 24 * 3600) * 10 ^ 6 ≤ t ∧ Precise t

instance (offset t : ℤ) : Decidable (KeptTime offset t) := inferInstanceAs (Decidable (_ ∧ _))

/-- A record as the database makes it of an announcement, with the time of some broadcast. -/
structure IsRecord (record : ServerRecord) : Prop where
  typed : record.ark.Typed
  isArk : isArk record.ark = true
  pseudonym : record.pseudonym = pseudonymOf record.ark
  expiration : Routing.utcfromtimestamp (record.ark.get .expiration) = .ok record.expiration
  isTime : IsTime record.lastBroadcast

/-- A status as the database makes it of some reports. -/
structure IsStatus (status : ServerStatus) : Prop where
  nodup : (status.events.map Prod.fst).Nodup
  isTime : ∀ event ∈ status.events, IsTime event.2.timestamp

/-- The status is not changed by saving and loading it. -/
def ServerStatus.Kept (offset : ℤ) (status : ServerStatus) : Prop :=
  status.pseudonym ≠ none ∧
    ∀ event ∈ status.events, event.1 ≠ none ∧ KeptTime offset event.2.timestamp

section Entries

variable {cbor : Cbor2} {builtins : Builtins} {now offset : ℤ} {record : ServerRecord}
  {status : ServerStatus}

theorem fromB64_toB64 {m : PrismMessage} (typed : m.Typed) :
    ∃ text, toB64 cbor m = .ok text ∧ fromB64 cbor builtins now text = .ok (some m) := by
  obtain ⟨data, encoded, -, decoded⟩ := @PrismMessage.decode_encode cbor builtins now m typed
  refine ⟨_, congrArg (Except.map _) encoded, ?_⟩
  rw [fromB64, String.toList_ofList, Lib.Base64.decode_encode]
  exact decoded

/-- A saved record is loaded with the time that its timestamp gives. -/
theorem recordFromJson_of (is : IsRecord record) {j : RecordJson}
    (saved : recordToJson cbor offset record = .ok j) :
    timestamp offset record.lastBroadcast = .ok j.lastBroadcast ∧
      recordFromJson cbor builtins now j = (utcfromtimestamp j.lastBroadcast).map fun t =>
        { record with lastBroadcast := t } := by
  obtain ⟨text, written, read⟩ := @fromB64_toB64 cbor builtins now record.ark is.typed
  have created : createRecord (some record.ark) = .ok { record with lastBroadcast := 0 } := by
    rw [createRecord, ServerRecord.create, pyAssert_of_true is.isArk, ok_bind, is.expiration, ok_bind,
      ← is.pseudonym]
    rfl
  rw [recordToJson, written, ok_bind] at saved
  obtain ⟨x, time, saved⟩ := bind_eq_ok.mp saved
  obtain rfl := Except.ok.inj saved
  refine ⟨time, ?_⟩
  simp only [recordFromJson, read, ok_bind, created]
  rfl

/-- **Records that are loaded as they were.** -/
theorem record_undone_iff (is : IsRecord record) :
    recordToJson cbor offset record >>= recordFromJson cbor builtins now = .ok record ↔
      KeptTime offset record.lastBroadcast := by
  rw [KeptTime, ← timestamp_utcfromtimestamp_iff is.isTime]
  constructor
  · intro run
    obtain ⟨j, saved, run⟩ := bind_eq_ok.mp run
    obtain ⟨time, loaded⟩ := @recordFromJson_of cbor builtins now offset record is j saved
    rw [loaded] at run
    obtain ⟨t, back, same⟩ := map_eq_ok.mp run
    rw [time, Except.bind, back, ← congrArg ServerRecord.lastBroadcast same]
  · intro undone
    obtain ⟨x, time, back⟩ := bind_eq_ok.mp undone
    obtain ⟨text, written, -⟩ := @fromB64_toB64 cbor builtins now record.ark is.typed
    have saved : recordToJson cbor offset record = .ok ⟨text, x⟩ := by
      rw [recordToJson, written, ok_bind, time]
      rfl
    rw [saved, ok_bind, (recordFromJson_of is saved).2, back]
    rfl

/-- An event is loaded as it was. -/
theorem event_undone_iff {event : Option Bytes × StatusEvent} (isTime : IsTime event.2.timestamp) :
    eventToJson offset event >>= eventFromJson = .ok event ↔
      event.1 ≠ none ∧ KeptTime offset event.2.timestamp := by
  obtain ⟨source, reachable, t⟩ := event
  cases source with
  | none => exact iff_of_false (fun run => by cases run) fun kept => kept.1 rfl
  | some source =>
      rw [KeptTime, ← timestamp_utcfromtimestamp_iff isTime,
        and_iff_right (Option.some_ne_none source)]
      constructor
      · intro run
        obtain ⟨j, saved, run⟩ := bind_eq_ok.mp run
        obtain ⟨key, named, saved⟩ := bind_eq_ok.mp saved
        obtain ⟨x, time, saved⟩ := bind_eq_ok.mp saved
        obtain rfl := Except.ok.inj named
        obtain rfl := Except.ok.inj saved
        obtain ⟨source', -, run⟩ := bind_eq_ok.mp run
        obtain ⟨t', back, run⟩ := bind_eq_ok.mp run
        rw [time, Except.bind, back]
        exact congrArg (fun e : Option Bytes × StatusEvent => Except.ok e.2.timestamp)
          (Except.ok.inj run)
      · intro undone
        obtain ⟨x, time, back⟩ := bind_eq_ok.mp undone
        simp only [eventToJson, hexOf, eventFromJson, ok_bind, time, pure_bind, fromHex_hex, back]
        rfl

/-- A saved event is kept by the text of its source. -/
theorem eventToJson_key {event : Option Bytes × StatusEvent} {j : String × EventJson}
    (saved : eventToJson offset event = .ok j) : event.1.map hex = some j.1 := by
  obtain ⟨key, named, saved⟩ := bind_eq_ok.mp saved
  obtain ⟨x, -, saved⟩ := bind_eq_ok.mp saved
  obtain rfl := Except.ok.inj saved
  cases found : event.1 with
  | none =>
      rw [found] at named
      cases named
  | some source =>
      rw [found] at named
      exact congrArg some (Except.ok.inj named)

/-- The keys of saved events differ, as the sources do. -/
theorem nodup_savedEvents {events : List (Option Bytes × StatusEvent)}
    {saved : List (String × EventJson)} (nodup : (events.map Prod.fst).Nodup)
    (run : events.mapM (eventToJson offset) = .ok saved) : (saved.map Prod.fst).Nodup := by
  have keys : saved.map (fun j => some j.1) = events.map fun event => event.1.map hex :=
    map_of_mapM (fun event j saved => (eventToJson_key saved).symm) run
  have texts := nodup.map (Option.map_injective hex_injective)
  rw [List.map_map, show Option.map hex ∘ Prod.fst =
    fun event : Option Bytes × StatusEvent => event.1.map hex from rfl, ← keys] at texts
  exact (List.map_map (g := some) (f := Prod.fst) (l := saved) ▸ texts).of_map some

/-- Events that are loaded have the sources that they were saved with. -/
theorem map_fst_loadedEvents {events events' : List (Option Bytes × StatusEvent)}
    {saved : List (String × EventJson)} (run : events.mapM (eventToJson offset) = .ok saved)
    (run' : saved.mapM eventFromJson = .ok events') :
    events'.map Prod.fst = events.map Prod.fst := by
  refine map_of_mapM_mapM (fun event _ j event' written read => ?_) run run'
  have key := eventToJson_key written
  obtain ⟨source, named, read⟩ := bind_eq_ok.mp read
  obtain ⟨t, -, read⟩ := bind_eq_ok.mp read
  obtain rfl := Except.ok.inj read
  cases found : event.1 with
  | none =>
      rw [found] at key
      cases key
  | some source' =>
      rw [found] at key
      rw [← Option.some.inj key, fromHex_hex] at named
      rw [Except.ok.inj named]

/-- **Statuses that are loaded as they were.** -/
theorem status_undone_iff (is : IsStatus status) :
    statusToJson offset status >>= statusFromJson = .ok status ↔ status.Kept offset := by
  obtain ⟨pseudonym, events⟩ := status
  have each : (∀ event ∈ events, event.1 ≠ none ∧ KeptTime offset event.2.timestamp) ↔
      (events.mapM (eventToJson offset) >>= fun saved => saved.mapM eventFromJson) = .ok events :=
    (forall₂_congr fun event mem => (event_undone_iff (is.isTime event mem)).symm).trans
      mapM_undone.symm
  cases pseudonym with
  | none => exact iff_of_false (fun run => by cases run) fun kept => kept.1 rfl
  | some pseudonym =>
      rw [ServerStatus.Kept, and_iff_right (Option.some_ne_none pseudonym), each]
      constructor
      · intro run
        obtain ⟨j, saved, run⟩ := bind_eq_ok.mp run
        obtain ⟨key, named, saved⟩ := bind_eq_ok.mp saved
        obtain ⟨js, written, saved⟩ := bind_eq_ok.mp saved
        obtain rfl := Except.ok.inj saved
        obtain ⟨pseudonym', -, run⟩ := bind_eq_ok.mp run
        obtain ⟨events', read, run⟩ := bind_eq_ok.mp run
        rw [dictOf_of_nodup (nodup_savedEvents is.nodup written)] at read
        have distinct : (events'.map Prod.fst).Nodup := by
          rw [map_fst_loadedEvents written read]
          exact is.nodup
        have same := congrArg ServerStatus.events (Except.ok.inj run)
        dsimp only at same
        rw [dictOf_of_nodup distinct] at same
        rw [written, ok_bind, read, same]
      · intro undone
        obtain ⟨js, written, read⟩ := bind_eq_ok.mp undone
        simp only [statusToJson, hexOf, ok_bind, written, pure_bind, statusFromJson, fromHex_hex,
          dictOf_of_nodup (nodup_savedEvents is.nodup written), read, dictOf_of_nodup is.nodup]
        rfl

/-! ### Databases -/

/-- Entries that are saved as a list and loaded by their keys. -/
theorem entries_undone {κ α β : Type} [DecidableEq κ] {save : α → Py β} {load : β → Py α}
    {key : α → κ} {items : List (κ × α)} (nodup : (items.map Prod.fst).Nodup)
    (keyed : ∀ e ∈ items, e.1 = key e.2)
    (same : ∀ e ∈ items, ∀ y z, save e.2 = .ok y → load y = .ok z → key z = key e.2) :
    ((items.map Prod.snd).mapM save >>= fun js =>
        (js.mapM load).map fun vs => dictOf (vs.map fun v => (key v, v))) = .ok items ↔
      ∀ e ∈ items, save e.2 >>= load = .ok e.2 := by
  have keys : (items.map Prod.snd).map key = items.map Prod.fst := by
    rw [List.map_map]
    exact List.map_congr_left fun e mem => (keyed e mem).symm
  have pairs : ((items.map Prod.snd).map fun v => (key v, v)) = items := by
    rw [List.map_map]
    calc items.map ((fun v => (key v, v)) ∘ Prod.snd)
        = items.map id := List.map_congr_left fun e mem => Prod.ext (keyed e mem).symm rfl
      _ = items := List.map_id items
  have each : (∀ e ∈ items, save e.2 >>= load = .ok e.2) ↔
      ((items.map Prod.snd).mapM save >>= fun js => js.mapM load) = .ok (items.map Prod.snd) := by
    rw [mapM_undone, List.forall_mem_map]
  rw [each]
  constructor
  · intro run
    obtain ⟨js, written, run⟩ := bind_eq_ok.mp run
    obtain ⟨vs, read, made⟩ := map_eq_ok.mp run
    have keysOf : vs.map key = items.map Prod.fst := by
      refine (map_of_mapM_mapM (fun x mem y z => ?_) written read).trans keys
      obtain ⟨e, mem', rfl⟩ := List.mem_map.mp mem
      exact same e mem' y z
    have distinct : ((vs.map fun v => (key v, v)).map Prod.fst).Nodup := by
      rw [List.map_map]
      exact (show vs.map key = _ from keysOf) ▸ nodup
    rw [dictOf_of_nodup distinct] at made
    have values : items.map Prod.snd = vs := by
      rw [← made, List.map_map]
      exact List.map_id vs
    rw [written, ok_bind, read, values]
  · intro undone
    obtain ⟨js, written, read⟩ := bind_eq_ok.mp undone
    rw [written, ok_bind, read]
    exact congrArg Except.ok ((congrArg dictOf pairs).trans (dictOf_of_nodup nodup))

/-- The records of a database are kept by their pseudonyms. -/
structure AreRecords (servers : Servers) : Prop where
  nodup : (servers.map Prod.fst).Nodup
  keyed : ∀ e ∈ servers, e.1 = e.2.pseudonym
  each : ∀ e ∈ servers, IsRecord e.2

/-- The state of a client's database: statuses are kept by their pseudonyms, too. -/
structure ServerDB.Sound (db : ServerDB) : Prop where
  records : AreRecords db.servers
  nodup : (db.statusDb.map Prod.fst).Nodup
  keyed : ∀ e ∈ db.statusDb, e.1 = e.2.pseudonym
  each : ∀ e ∈ db.statusDb, IsStatus e.2

/-- No record and no status is changed by saving and loading it. -/
def ServerDB.Kept (offset : ℤ) (db : ServerDB) : Prop :=
  (∀ e ∈ db.servers, KeptTime offset e.2.lastBroadcast) ∧
    ∀ e ∈ db.statusDb, e.2.Kept offset

/-- **The records that survive a restart.** -/
theorem restartServers_eq_iff {servers : Servers} (are : AreRecords servers) :
    restartServers cbor builtins now offset servers = .ok servers ↔
      ∀ e ∈ servers, KeptTime offset e.2.lastBroadcast := by
  refine (entries_undone are.nodup are.keyed fun e mem j record' saved loaded => ?_).trans
    (forall₂_congr fun e mem => record_undone_iff (are.each e mem))
  rw [(recordFromJson_of (are.each e mem) saved).2] at loaded
  obtain ⟨t, -, rfl⟩ := map_eq_ok.mp loaded
  rfl

/-- The statuses that survive a restart. -/
theorem restartStatuses_eq_iff {statusDb : List (Option Bytes × ServerStatus)}
    (nodup : (statusDb.map Prod.fst).Nodup) (keyed : ∀ e ∈ statusDb, e.1 = e.2.pseudonym)
    (each : ∀ e ∈ statusDb, IsStatus e.2) :
    ((statusDb.map Prod.snd).mapM (statusToJson offset) >>= loadStatuses) = .ok statusDb ↔
      ∀ e ∈ statusDb, e.2.Kept offset := by
  refine (entries_undone nodup keyed fun e mem j status' saved loaded => ?_).trans
    (forall₂_congr fun e mem => status_undone_iff (each e mem))
  obtain ⟨key, named, saved⟩ := bind_eq_ok.mp saved
  obtain ⟨events, -, saved⟩ := bind_eq_ok.mp saved
  obtain rfl := Except.ok.inj saved
  obtain ⟨pseudonym, read, loaded⟩ := bind_eq_ok.mp loaded
  obtain ⟨events', -, loaded⟩ := bind_eq_ok.mp loaded
  obtain rfl := Except.ok.inj loaded
  cases found : e.2.pseudonym with
  | none =>
      rw [found] at named
      cases named
  | some pseudonym' =>
      rw [found] at named
      rw [← Except.ok.inj named, fromHex_hex] at read
      rw [Except.ok.inj read]

/-- **The databases that survive a restart.** -/
theorem restart_eq_iff {db : ServerDB} (sound : db.Sound) :
    restart cbor builtins now offset db = .ok db ↔ db.Kept offset := by
  rw [ServerDB.Kept, ← @restartServers_eq_iff cbor builtins now offset db.servers sound.records,
    ← restartStatuses_eq_iff sound.nodup sound.keyed sound.each]
  constructor
  · intro run
    obtain ⟨state, saved, run⟩ := bind_eq_ok.mp run
    obtain ⟨records, writtenRecords, saved⟩ := bind_eq_ok.mp saved
    obtain ⟨statuses, writtenStatuses, saved⟩ := bind_eq_ok.mp saved
    obtain rfl := Except.ok.inj saved
    obtain ⟨servers, readRecords, run⟩ := bind_eq_ok.mp run
    obtain ⟨statusDb, readStatuses, run⟩ := bind_eq_ok.mp run
    obtain rfl := Except.ok.inj run
    exact ⟨bind_eq_ok.mpr ⟨records, writtenRecords, readRecords⟩,
      bind_eq_ok.mpr ⟨statuses, writtenStatuses, readStatuses⟩⟩
  · rintro ⟨servers, statusDb⟩
    obtain ⟨records, writtenRecords, readRecords⟩ := bind_eq_ok.mp servers
    obtain ⟨statuses, writtenStatuses, readStatuses⟩ := bind_eq_ok.mp statusDb
    simp only [restart, ServerDB.toJson, writtenRecords, ok_bind, writtenStatuses, pure_bind,
      ServerDB.load, readRecords, readStatuses]
    rfl

/-- What one step leaves as it is, any number of steps does. -/
theorem steps_eq_iff {α : Type} {step : α → Py α} {a : α} :
    (∀ n, steps step n a = .ok a) ↔ step a = .ok a := by
  constructor
  · intro all
    obtain ⟨b, once, rest⟩ := bind_eq_ok.mp (all 1)
    rw [once, ← Except.ok.inj rest]
  · intro once n
    induction n with
    | zero => rfl
    | succ n ih => rw [steps, once, ok_bind, ih]

end Entries

section Updates

variable {servers servers' : Servers} {ark : PrismMessage} {recorded : ServerRecord} {db : ServerDB}

/-- Recording an announcement keeps the form of the records. -/
theorem AreRecords.record (are : AreRecords servers) (typed : ark.Typed)
    (run : Routing.ServerDB.record servers ark = .ok (servers', recorded)) : AreRecords servers' := by
  have put {r : ServerRecord} (own : r.pseudonym = pseudonymOf ark) (is : IsRecord r) :
      AreRecords (dictSet servers (pseudonymOf ark) r) := by
    refine ⟨nodup_dictSet are.nodup _ _, fun e mem => ?_, fun e mem => ?_⟩
    · obtain rfl | ⟨old, -⟩ := mem_dictSet.mp mem
      · exact own.symm
      · exact are.keyed e old
    · obtain rfl | ⟨old, -⟩ := mem_dictSet.mp mem
      · exact is
      · exact are.each e old
  obtain ⟨⟨⟩, asserted, run⟩ := bind_eq_ok.mp run
  have isAnnouncement : isArk ark = true := by
    by_contra other
    rw [pyAssert_of_false other] at asserted
    cases asserted
  cases found : servers.lookup (pseudonymOf ark) with
  | none =>
      rw [found] at run
      obtain ⟨created, made, run⟩ := bind_eq_ok.mp run
      obtain ⟨rfl, -⟩ := Prod.mk.inj (Except.ok.inj run)
      obtain ⟨-, -, made⟩ := bind_eq_ok.mp made
      obtain ⟨expiration, expires, made⟩ := bind_eq_ok.mp made
      obtain rfl := Except.ok.inj made
      exact put rfl ⟨typed, isAnnouncement, rfl, expires, show IsTime 0 from by decide⟩
  | some known =>
      have mem := mem_of_lookup found
      have own : known.pseudonym = pseudonymOf ark := (are.keyed _ mem).symm
      have is := are.each _ mem
      rw [found] at run
      obtain ⟨updated, made, run⟩ := bind_eq_ok.mp run
      obtain ⟨rfl, -⟩ := Prod.mk.inj (Except.ok.inj run)
      obtain ⟨expiration, expires, made⟩ := bind_eq_ok.mp made
      have cases_ := Except.ok.inj made
      split_ifs at cases_
      · obtain rfl := cases_
        exact put own ⟨typed, isAnnouncement, own, expires, is.isTime⟩
      · obtain rfl := cases_
        exact put own is

/-- Reports keep the form of the statuses. -/
theorem ServerDB.Sound.update (sound : db.Sound) {source pseudonym : Option Bytes} {time : ℤ}
    (isTime : IsTime time) (reachable : Bool) :
    (ServerDB.mk db.servers (dictSet db.statusDb pseudonym
      ((db.status pseudonym).update source time reachable))).Sound := by
  have kept : (db.status pseudonym).pseudonym = pseudonym ∧ IsStatus (db.status pseudonym) := by
    unfold ServerDB.status
    cases found : db.statusDb.lookup pseudonym with
    | none => exact ⟨rfl, List.nodup_nil, by rintro event ⟨⟩⟩
    | some status =>
        have mem := mem_of_lookup found
        exact ⟨(sound.keyed _ mem).symm, sound.each _ mem⟩
  have updated : IsStatus ((db.status pseudonym).update source time reachable) := by
    refine ⟨nodup_dictSet kept.2.nodup _ _, fun event mem => ?_⟩
    obtain rfl | ⟨old, -⟩ := mem_dictSet.mp mem
    · exact isTime
    · exact kept.2.isTime event old
  refine ⟨sound.records, nodup_dictSet sound.nodup _ _, fun e mem => ?_, fun e mem => ?_⟩
  · obtain rfl | ⟨old, -⟩ := mem_dictSet.mp mem
    · exact kept.1.symm
    · exact sound.keyed e old
  · obtain rfl | ⟨old, -⟩ := mem_dictSet.mp mem
    · exact updated
    · exact sound.each e old

end Updates

/-- **Databases survive restarts** exactly on hosts that keep UTC, as far as sources and servers have
pseudonyms and times are given back by floats. The second part is for the records alone, which are
all that servers have. -/
theorem restarts_eq_iff (cbor : Cbor2) (builtins : Builtins) (now offset : ℤ) {db : ServerDB}
    (sound : db.Sound) :
    ((∀ n, steps (restart cbor builtins now offset) n db = .ok db) ↔ db.Kept offset) ∧
      ((∀ n, steps (restartServers cbor builtins now offset) n db.servers = .ok db.servers) ↔
        ∀ e ∈ db.servers, KeptTime offset e.2.lastBroadcast) :=
  ⟨steps_eq_iff.trans (restart_eq_iff sound),
    steps_eq_iff.trans (restartServers_eq_iff sound.records)⟩

/-- An announcement. -/
def savedArk : PrismMessage :=
  PrismMessage.create 0 .announceRoleKey [(.pseudonym, .bytes [1]), (.expiration, .int 2000000000)]

/-- A server that was never sent to, and that the server 2 reported on at the end of 2023. -/
def savedDb : ServerDB where
  servers := [(some [1], { pseudonym := some [1], ark := savedArk, expiration := 2000000000000000 })]
  statusDb := [(some [1], ⟨some [1], [(some [2], ⟨true, 1703980800123456⟩)]⟩)]

theorem savedDb_sound : savedDb.Sound where
  records := {
    nodup := by decide
    keyed := by simp [savedDb]
    each := by
      intro e mem
      obtain rfl := List.mem_singleton.mp mem
      exact ⟨by decide, rfl, rfl, rfl, by decide⟩ }
  nodup := by decide
  keyed := by simp [savedDb]
  each := by
    intro e mem
    obtain rfl := List.mem_singleton.mp mem
    refine ⟨by decide, fun event mem => ?_⟩
    obtain rfl := List.mem_singleton.mp mem
    decide

/-- On a host that keeps UTC nothing changes. -/
theorem savedDb_kept :
    savedDb.Sound ∧ steps (restart Cbor.package Builtins.strict 0 0) 3 savedDb = .ok savedDb := by
  have kept : savedDb.Kept 0 := by
    constructor
    · intro e mem
      obtain rfl := List.mem_singleton.mp mem
      decide +kernel
    · intro e mem
      obtain rfl := List.mem_singleton.mp mem
      refine ⟨by decide, fun event mem => ?_⟩
      obtain rfl := List.mem_singleton.mp mem
      exact ⟨by decide, by decide +kernel⟩
  exact ⟨savedDb_sound,
    (restarts_eq_iff Cbor.package Builtins.strict 0 0 savedDb_sound).1.mpr kept 3⟩

/-- The times of records and of reports. -/
def ServerDB.times (db : ServerDB) : List ℤ :=
  db.servers.map (·.2.lastBroadcast) ++
    db.statusDb.flatMap fun e => e.2.events.map fun event => event.2.timestamp

/-- **Five hours west of UTC**, every restart moves all times by five hours. -/
theorem savedDb_moved :
    savedDb.Sound ∧
      (restart Cbor.package Builtins.strict 0 (-18000) savedDb).map ServerDB.times =
        .ok [18000000000, 1703998800123456] ∧
      (steps (restart Cbor.package Builtins.strict 0 (-18000)) 2 savedDb).map ServerDB.times =
        .ok [36000000000, 1704016800123456] ∧
      restart Cbor.package Builtins.strict 0 (-18000) savedDb ≠ .ok savedDb := by
  have once : (restart Cbor.package Builtins.strict 0 (-18000) savedDb).map ServerDB.times =
      .ok [18000000000, 1703998800123456] := by decide +kernel
  refine ⟨savedDb_sound, once, by decide +kernel, fun same => ?_⟩
  rw [same] at once
  exact absurd (Except.ok.inj once) (by decide)

end Prism.Client
