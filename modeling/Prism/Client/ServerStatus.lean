import Prism.Lib.Handler
import Prism.Routing.ArkStore

/-!
What a client believes about the servers (`prism/client/server_db.py`, with `process_arks`,
`process_ark` and `process_nark` of `prism/client/client.py`).

Servers report on each other: that a server is reachable, by passing on its announcement, or that
it is dead. For each server the client keeps the report of each source that it processed last, with
the time that the report gives, and takes the server for alive while the newest report of life is
newer than the newest one of death by some interval. A report of death counts as five seconds
newer than it is.

* `reports_processArks`: a message is a list of reports.
* `alive_iff`: the judgement, from the report of each source that came last.
* `orderFree_iff`: the sets of reports for which the order does not matter.
* `older_report_overrides`: two reports of one source for which it does.
-/

namespace Prism.Client

open Lib

/-! ### The status of a server -/

/-- `StatusEvent`. -/
structure StatusEvent where
  reachable : Bool
  timestamp : ℤ
deriving DecidableEq, Repr

/-- `ServerStatus`. -/
structure ServerStatus where
  pseudonym : Option Bytes
  events : List (Option Bytes × StatusEvent) := []
deriving DecidableEq, Repr

namespace ServerStatus

/-- `update`. -/
def update (self : ServerStatus) (source : Option Bytes) (timestamp : ℤ) (reachable : Bool) :
    ServerStatus :=
  { self with events := dictSet self.events source ⟨reachable, timestamp⟩ }

/-- The times of the events of one kind. -/
def times (self : ServerStatus) (reachable : Bool) : List ℤ :=
  ((self.events.map Prod.snd).filter fun event => event.reachable = reachable).map
    StatusEvent.timestamp

/-- `alive`, with `client_believe_alive_interval_sec` in microseconds. -/
def alive (interval : ℤ) (self : ServerStatus) : Bool :=
  match (self.times false).max?, (self.times true).max? with
  | none, _ => true
  | some _, none => false
  | some newestDead, some newestAlive => newestAlive - interval > newestDead

end ServerStatus

/-! ### Processing messages -/

/-- `ServerDB` of a client. -/
structure ServerDB where
  servers : Routing.Servers := []
  statusDb : List (Option Bytes × ServerStatus) := []

/-- The status that is kept for a server, or a new one. -/
def ServerDB.status (self : ServerDB) (pseudonym : Option Bytes) : ServerStatus :=
  (self.statusDb.lookup pseudonym).getD ⟨pseudonym, []⟩

/-- The time of a report as it is kept, in microseconds. -/
def adjustDeath (timestamp : ℤ) (reachable : Bool) : ℤ :=
  if reachable then timestamp else timestamp + 5 * 10 ^ 6

/-- What the client does with messages. -/
abbrev Processing := Handler ServerDB PyError PUnit

section Processing

variable (interval : ℤ) (verify : PrismMessage → Py Bool)

/-- `update_status`. A change of mind is logged with the pseudonyms. -/
def updateStatus (source pseudonym : Option Bytes) (timestamp : ℤ) (reachable : Bool) :
    Processing := do
  let db ← get
  let status := db.status pseudonym
  let updated := status.update source (adjustDeath timestamp reachable) reachable
  modify fun db => { db with statusDb := dictSet db.statusDb pseudonym updated }
  if status.alive interval ≠ updated.alive interval ∧ (source = none ∨ pseudonym = none) then
    throw .attributeError
  else return

/-- `datetime.utcfromtimestamp(message.micro_timestamp / 1e6)`. -/
def microTime (message : PrismMessage) : Py ℤ :=
  match message.get .microTimestamp with
  | .int time =>
    if -62135596800 * 10 ^ 6 ≤ time ∧ time ≤ 253402300799 * 10 ^ 6 then .ok time
    else .error (.valueError "year is out of range")
  | _ => .error .typeError

/-- `process_ark`. A source counts if it is not empty. -/
def processArk (source : Option Bytes) (timestamp : Option ℤ) (ark : PrismMessage) :
    Processing := do
  if ← Handler.lift (verify ark) then
    let db ← get
    let (servers, server) ← Handler.lift (Routing.ServerDB.record db.servers ark)
    modify fun db => { db with servers }
    match source, timestamp with
    | some (b :: bs), some timestamp =>
      updateStatus interval (some (b :: bs)) server.pseudonym timestamp true
    | _, _ => return
  else return

/-- `process_nark`. -/
def processNark (nark : PrismMessage) : Processing := do
  let timestamp ← Handler.lift (microTime nark)
  match nark.get .deadServers with
  | .list servers =>
    servers.forM fun server =>
      updateStatus interval (Routing.pseudonymOf nark) server.bytes? timestamp false
  | _ => throw .typeError

/-- One announcement of a list. -/
def processElement (arks : PrismMessage) (timestamp : ℤ) (ark : Value) : Processing :=
  match PrismMessage.ofValue? ark with
  | some ark => processArk interval verify (Routing.pseudonymOf arks) (some timestamp) ark
  | none => throw .attributeError

/-- `process_arks`. The first announcement is looked at before any of them is processed. -/
def processArks (arks : PrismMessage) : Processing := do
  match arks.get .submessages with
  | .list [] => throw .indexError
  | .list (sample :: rest) =>
    if (PrismMessage.ofValue? sample).isNone then throw .attributeError
    else
      let timestamp ← Handler.lift (microTime arks)
      (sample :: rest).forM (processElement interval verify arks timestamp)
      if (arks.get .deadServers).truthy then processNark interval arks else return
  | _ => throw .typeError

end Processing

/-! ### Reports -/

/-- What a source says about a server. -/
structure Report where
  source : Option Bytes
  timestamp : ℤ
  reachable : Bool
deriving DecidableEq, Repr

/-- The time of the event that a report makes. -/
def Report.moment (report : Report) : ℤ := adjustDeath report.timestamp report.reachable

/-- A status after another report. -/
def ServerStatus.report (self : ServerStatus) (report : Report) : ServerStatus :=
  self.update report.source report.moment report.reachable

/-- What a client that knows nothing of a server keeps after some reports on it. -/
def ServerStatus.after (pseudonym : Option Bytes) (reports : List Report) : ServerStatus :=
  reports.foldl ServerStatus.report ⟨pseudonym, []⟩

/-- The reports on one server. -/
def reportsOn (server : Option Bytes) (reports : List (Option Bytes × Report)) : List Report :=
  (reports.filter fun entry => entry.1 = server).map Prod.snd

/-- The report that an announcement in a message makes, if it is verified. -/
def arkReport (verify : PrismMessage → Py Bool) (source : Option Bytes) (timestamp : ℤ)
    (element : Value) : List (Option Bytes × Report) :=
  match PrismMessage.ofValue? element, source with
  | some ark, some (b :: bs) =>
    match verify ark with
    | .ok true => [(Routing.pseudonymOf ark, ⟨some (b :: bs), timestamp, true⟩)]
    | _ => []
  | _, _ => []

/-- The reports on dead servers in a message. -/
def deathReports (message : PrismMessage) (timestamp : ℤ) : List (Option Bytes × Report) :=
  match message.get .deadServers with
  | .list servers =>
    servers.map fun server => (server.bytes?, ⟨Routing.pseudonymOf message, timestamp, false⟩)
  | _ => []

/-- The reports in an ARKS message. -/
def arksReports (verify : PrismMessage → Py Bool) (message : PrismMessage) (timestamp : ℤ) :
    List (Option Bytes × Report) :=
  (match message.get .submessages with
    | .list elements =>
      elements.flatMap (arkReport verify (Routing.pseudonymOf message) timestamp)
    | _ => []) ++ deathReports message timestamp

/-- **What a handler reports**: where it returns, the status of each server is what the reports on
it make of the one before, and the records are still kept under their pseudonyms. -/
def Reports (handler : Processing) (reports : List (Option Bytes × Report)) : Prop :=
  ∀ db after, (∀ e ∈ db.servers, e.2.pseudonym = e.1) → handler.exec db = (after, .ok ⟨⟩) →
    (∀ e ∈ after.servers, e.2.pseudonym = e.1) ∧
    ∀ server, after.status server =
      (reportsOn server reports).foldl ServerStatus.report (db.status server)

section Processed

variable {interval : ℤ} {verify : PrismMessage → Py Bool}

theorem reportsOn_append (server : Option Bytes) (reports later : List (Option Bytes × Report)) :
    reportsOn server (reports ++ later) = reportsOn server reports ++ reportsOn server later := by
  rw [reportsOn, List.filter_append, List.map_append, reportsOn, reportsOn]

theorem reports_pure : Reports (pure ⟨⟩) [] := by
  rintro db after keyed run
  cases run
  exact ⟨keyed, fun server => rfl⟩

theorem reports_throw (e : PyError) (reports : List (Option Bytes × Report)) :
    Reports (throw e) reports := by
  rintro db after - run
  cases run

/-- One handler after the other. -/
theorem Reports.andThen {first second : Processing} {reports later : List (Option Bytes × Report)}
    (one : Reports first reports) (two : Reports second later) :
    Reports (first >>= fun _ => second) (reports ++ later) := by
  intro db after keyed run
  rw [Handler.exec_bind] at run
  rcases between : first.exec db with ⟨found, e | ⟨⟩⟩
  · rw [between] at run
    cases run
  · rw [between] at run
    obtain ⟨keyedBetween, changed⟩ := one db found keyed between
    obtain ⟨keyedAfter, changedAgain⟩ := two found after keyedBetween run
    refine ⟨keyedAfter, fun server => ?_⟩
    rw [changedAgain, changed, reportsOn_append, List.foldl_append]

/-- A loop of handlers. -/
theorem Reports.loop {α : Type} (xs : List α) {body : α → Processing}
    {reports : α → List (Option Bytes × Report)} (each : ∀ x ∈ xs, Reports (body x) (reports x)) :
    Reports (xs.forM body) (xs.flatMap reports) := by
  induction xs with
  | nil => exact reports_pure
  | cons x xs ih =>
      have rest := ih fun y mem => each y (List.mem_cons_of_mem _ mem)
      rw [List.flatMap_cons]
      exact (each x List.mem_cons_self).andThen rest

/-- A computation that changes nothing comes first. -/
theorem Reports.lift {α : Type} {x : Py α} {body : α → Processing}
    {reports : List (Option Bytes × Report)} (each : ∀ a, x = .ok a → Reports (body a) reports) :
    Reports (Handler.lift x >>= body) reports := by
  intro db after keyed run
  rw [Handler.exec_bind, Handler.exec_lift] at run
  cases result : x with
  | error e =>
      rw [result] at run
      cases run
  | ok a =>
      rw [result] at run
      exact each a result db after keyed run

variable (interval) (verify)

/-- `update_status` is one report. -/
theorem reports_updateStatus (source pseudonym : Option Bytes) (timestamp : ℤ) (reachable : Bool) :
    Reports (updateStatus interval source pseudonym timestamp reachable)
      [(pseudonym, ⟨source, timestamp, reachable⟩)] := by
  intro db after keyed run
  set updated := (db.status pseudonym).report ⟨source, timestamp, reachable⟩ with hupdated
  have changed : ∀ server,
      ServerDB.status { db with statusDb := dictSet db.statusDb pseudonym updated } server =
      (reportsOn server [(pseudonym, ⟨source, timestamp, reachable⟩)]).foldl ServerStatus.report
        (db.status server) := by
    intro server
    rw [ServerDB.status, lookup_dictSet]
    by_cases same : server = pseudonym
    · subst same
      simpa [reportsOn] using hupdated
    · rw [if_neg same, reportsOn, List.filter_cons_of_neg (by simpa using Ne.symm same)]
      rfl
  unfold updateStatus at run
  rw [Handler.exec_bind_of_ok (Handler.exec_get db)] at run
  dsimp only at run
  rw [Handler.exec_bind_of_ok (Handler.exec_modify _ db)] at run
  split_ifs at run
  · cases run
  · cases run
    exact ⟨keyed, changed⟩

/-- `process_ark` reports the server of the announcement, if that is verified. -/
theorem reports_processElement (arks : PrismMessage) (timestamp : ℤ) (element : Value) :
    Reports (processElement interval verify arks timestamp element)
      (arkReport verify (Routing.pseudonymOf arks) timestamp element) := by
  unfold processElement
  cases read : PrismMessage.ofValue? element with
  | none => exact reports_throw _ _
  | some ark =>
      refine Reports.lift fun verified result => ?_
      cases verified with
      | false =>
          have silent : arkReport verify (Routing.pseudonymOf arks) timestamp element = [] := by
            unfold arkReport
            split
            · next other _ _ same _ =>
                obtain rfl : ark = other := Option.some.inj (read.symm.trans same)
                rw [result]
            · rfl
          rw [silent]
          exact reports_pure
      | true =>
          rintro db after keyed run
          rw [if_pos rfl, Handler.exec_bind_of_ok (Handler.exec_get db), Handler.exec_bind,
            Handler.exec_lift] at run
          rcases recorded : Routing.ServerDB.record db.servers ark with e | ⟨servers, server⟩
          · rw [recorded] at run
            cases run
          · rw [recorded] at run
            dsimp only at run
            rw [Handler.exec_bind_of_ok (Handler.exec_modify _ db)] at run
            obtain ⟨name, keyedAfter⟩ := Routing.ArkStore.recorded_keyed keyed recorded
            rcases source : Routing.pseudonymOf arks with _ | _ | ⟨b, bs⟩
            · rw [source] at run
              cases run
              simp only [arkReport, read]
              exact ⟨keyedAfter, fun server => rfl⟩
            · rw [source] at run
              cases run
              simp only [arkReport, read]
              exact ⟨keyedAfter, fun server => rfl⟩
            · rw [source] at run
              simp only [arkReport, read, result, ← name]
              exact reports_updateStatus _ _ _ _ _ ⟨servers, db.statusDb⟩ after keyedAfter run

/-- `process_nark` reports the dead servers. -/
theorem reports_processNark {nark : PrismMessage} {timestamp : ℤ}
    (time : microTime nark = .ok timestamp) :
    Reports (processNark interval nark) (deathReports nark timestamp) := by
  refine Reports.lift fun timestamp' time' => ?_
  obtain rfl : timestamp = timestamp' := Except.ok.inj (time.symm.trans time')
  rw [deathReports]
  cases nark.get .deadServers with
  | list servers =>
      have each := Reports.loop servers fun server _ =>
        reports_updateStatus interval (Routing.pseudonymOf nark) server.bytes? timestamp false
      rwa [← List.map_eq_flatMap] at each
  | _ => exact reports_throw _ _

/-- The end of `process_arks`. -/
theorem reports_dead {arks : PrismMessage} {timestamp : ℤ}
    (time : microTime arks = .ok timestamp) :
    Reports (if (arks.get .deadServers).truthy then processNark interval arks else return)
      (deathReports arks timestamp) := by
  by_cases dead : (arks.get .deadServers).truthy = true
  · rw [if_pos dead]
    exact reports_processNark interval time
  · have none : deathReports arks timestamp = [] := by
      rw [deathReports]
      cases listed : arks.get .deadServers with
      | list servers =>
          rw [listed] at dead
          cases servers with
          | nil => rfl
          | cons => exact absurd rfl dead
      | _ => rfl
    rw [if_neg dead, none]
    exact reports_pure

/-- **A message is a list of reports**: `process_arks` updates the statuses with the reports in the
message, from its source and of its time. -/
theorem reports_processArks {arks : PrismMessage} {timestamp : ℤ}
    (time : microTime arks = .ok timestamp) :
    Reports (processArks interval verify arks) (arksReports verify arks timestamp) := by
  rw [processArks, arksReports]
  cases arks.get .submessages with
  | list elements =>
      cases elements with
      | nil => exact reports_throw _ _
      | cons sample rest =>
          dsimp only
          by_cases broken : (PrismMessage.ofValue? sample).isNone = true
          · rw [if_pos broken]
            exact reports_throw _ _
          · rw [if_neg broken]
            refine Reports.lift fun timestamp' time' => ?_
            obtain rfl : timestamp = timestamp' := Except.ok.inj (time.symm.trans time')
            have arrived := Reports.loop (sample :: rest) fun element _ =>
              reports_processElement interval verify arks timestamp element
            exact arrived.andThen (reports_dead interval time)
  | _ => exact reports_throw _ _

end Processed

/-! ### The report of each source that came last -/

/-- The report is the last one of its source. -/
def IsLast (reports : List Report) (report : Report) : Prop :=
  ∃ before after, reports = before ++ report :: after ∧
    ∀ later ∈ after, later.source ≠ report.source

section Last

variable {reports : List Report} {report : Report}

theorem IsLast.mem (last : IsLast reports report) : report ∈ reports := by
  obtain ⟨before, after, rfl, -⟩ := last
  simp

theorem isLast_concat {newest : Report} :
    IsLast (reports ++ [newest]) report ↔
      report = newest ∨ (IsLast reports report ∧ report.source ≠ newest.source) := by
  constructor
  · rintro ⟨before, after, split, later⟩
    rcases List.eq_nil_or_concat after with rfl | ⟨after, x, rfl⟩
    · obtain ⟨-, single⟩ := List.append_inj' split rfl
      exact .inl (List.head_eq_of_cons_eq single).symm
    · rw [List.concat_eq_append, ← List.cons_append, ← List.append_assoc] at split
      obtain ⟨rfl, single⟩ := List.append_inj' split rfl
      obtain rfl := List.head_eq_of_cons_eq single
      refine .inr ⟨⟨before, after, rfl, fun other mem => later other (by simp [mem])⟩, ?_⟩
      exact (later newest (by simp)).symm
  · rintro (rfl | ⟨⟨before, after, rfl, later⟩, ne⟩)
    · exact ⟨reports, [], rfl, by simp⟩
    · refine ⟨before, after ++ [newest], by simp, fun other mem => ?_⟩
      rcases List.mem_append.mp mem with mem | mem
      · exact later other mem
      · rw [List.mem_singleton.mp mem]
        exact ne.symm

/-- A source that reported has a last report. -/
theorem exists_isLast (mem : report ∈ reports) :
    ∃ last, IsLast reports last ∧ last.source = report.source := by
  induction reports using List.reverseRecOn with
  | nil => cases mem
  | append_singleton reports newest ih =>
      by_cases same : report.source = newest.source
      · exact ⟨newest, isLast_concat.mpr (.inl rfl), same.symm⟩
      · rcases List.mem_append.mp mem with mem | mem
        · obtain ⟨last, isLast, source⟩ := ih mem
          exact ⟨last, isLast_concat.mpr (.inr ⟨isLast, source.trans_ne same⟩), source⟩
        · exact absurd (congrArg Report.source (List.mem_singleton.mp mem)) same

/-- **The events** are the last reports of the sources. -/
theorem mem_events (server : Option Bytes) (reports : List Report)
    (entry : Option Bytes × StatusEvent) :
    entry ∈ (ServerStatus.after server reports).events ↔
      ∃ report, IsLast reports report ∧
        entry = (report.source, ⟨report.reachable, report.moment⟩) := by
  induction reports using List.reverseRecOn with
  | nil =>
      constructor
      · intro mem
        cases mem
      · rintro ⟨report, last, -⟩
        exact absurd last.mem List.not_mem_nil
  | append_singleton reports newest ih =>
      rw [ServerStatus.after, List.foldl_append, List.foldl_cons, List.foldl_nil,
        ServerStatus.report, ServerStatus.update, mem_dictSet]
      rw [ServerStatus.after] at ih
      simp only [ih, isLast_concat]
      constructor
      · rintro (rfl | ⟨⟨report, last, rfl⟩, ne⟩)
        · exact ⟨newest, .inl rfl, rfl⟩
        · exact ⟨report, .inr ⟨last, ne⟩, rfl⟩
      · rintro ⟨report, rfl | ⟨last, ne⟩, rfl⟩
        · exact .inl rfl
        · exact .inr ⟨⟨report, last, rfl⟩, ne⟩

theorem mem_times {server : Option Bytes} {reachable : Bool} {time : ℤ} :
    time ∈ (ServerStatus.after server reports).times reachable ↔
      ∃ report, IsLast reports report ∧ report.reachable = reachable ∧ report.moment = time := by
  simp only [ServerStatus.times, List.mem_map, List.mem_filter, Prod.exists, mem_events]
  constructor
  · rintro ⟨event, ⟨⟨source, _, ⟨report, last, eq⟩, rfl⟩, kind⟩, rfl⟩
    obtain ⟨rfl, rfl⟩ := Prod.mk.inj eq
    exact ⟨report, last, by simpa using kind, rfl⟩
  · rintro ⟨report, last, rfl, rfl⟩
    exact ⟨⟨report.reachable, report.moment⟩, ⟨⟨report.source, _, ⟨report, last, rfl⟩, rfl⟩,
      by simp⟩, rfl⟩

/-- **When a server is taken for alive**: no source reported its death last, or one reported life
last that is newer by the interval than all last reports of death. -/
theorem alive_iff (interval : ℤ) (server : Option Bytes) (reports : List Report) :
    (ServerStatus.after server reports).alive interval = true ↔
      (∀ report, IsLast reports report → report.reachable = true) ∨
      ∃ life, IsLast reports life ∧ life.reachable = true ∧
        ∀ death, IsLast reports death → death.reachable = false →
          death.moment < life.moment - interval := by
  set status := ServerStatus.after server reports with hstatus
  rw [ServerStatus.alive]
  rcases dead : (status.times false).max? with _ | newestDead
  · refine iff_of_true rfl (.inl fun report last => ?_)
    by_contra died
    have mem : report.moment ∈ status.times false :=
      mem_times.mpr ⟨report, last, by simpa using died, rfl⟩
    rw [List.max?_eq_none_iff.mp dead] at mem
    cases mem
  obtain ⟨deadMem, deadMax⟩ := List.max?_eq_some_iff.mp dead
  obtain ⟨death, deathLast, died, rfl⟩ := mem_times.mp deadMem
  rcases living : (status.times true).max? with _ | newestAlive
  · refine iff_of_false (by simp) ?_
    rintro (all | ⟨life, lifeLast, lives, -⟩)
    · rw [all death deathLast] at died
      cases died
    · have mem : life.moment ∈ status.times true := mem_times.mpr ⟨life, lifeLast, lives, rfl⟩
      rw [List.max?_eq_none_iff.mp living] at mem
      cases mem
  obtain ⟨aliveMem, aliveMax⟩ := List.max?_eq_some_iff.mp living
  obtain ⟨life, lifeLast, lives, rfl⟩ := mem_times.mp aliveMem
  simp only [decide_eq_true_eq]
  constructor
  · intro newer
    refine .inr ⟨life, lifeLast, lives, fun other last kind => ?_⟩
    have le := deadMax other.moment (mem_times.mpr ⟨other, last, kind, rfl⟩)
    omega
  · rintro (all | ⟨other, last, kind, newer⟩)
    · rw [all death deathLast] at died
      cases died
    · have le := aliveMax other.moment (mem_times.mpr ⟨other, last, kind, rfl⟩)
      have lt := newer death deathLast died
      omega

end Last

/-! ### Orders -/

/-- What a client that processes reports on a server in some order takes the server for. -/
def judge (interval : ℤ) (server : Option Bytes) (order : List Report) : Bool :=
  (ServerStatus.after server order).alive interval

/-- The newest reports of the sources. -/
def newestOf (reports : List Report) : List Report :=
  reports.filter fun report =>
    reports.all fun other => other.source ≠ report.source || other.timestamp ≤ report.timestamp

/-- **The order does not matter**: every two orders of the reports lead to the same judgement, and
it is that of the newest report of each source, so no older one overrides a newer one. -/
structure OrderFree (interval : ℤ) (server : Option Bytes) (reports : List Report) : Prop where
  same : ∀ order order', order.Perm reports → order'.Perm reports →
    judge interval server order = judge interval server order'
  newest : ∀ order, order.Perm reports →
    judge interval server order = judge interval server (newestOf reports)

/-- Some source reports only life, and each time it is newer by the interval than all reports of
death. -/
def SurelyAlive (interval : ℤ) (reports : List Report) : Prop :=
  ∃ witness ∈ reports, ∀ report ∈ reports, report.source = witness.source →
    report.reachable = true ∧ ∀ death ∈ reports, death.reachable = false →
      death.moment < report.moment - interval

/-- Some source reports only death, and no report of life is newer by the interval than any of
them. -/
def SurelyDead (interval : ℤ) (reports : List Report) : Prop :=
  ∃ witness ∈ reports, ∀ report ∈ reports, report.source = witness.source →
    report.reachable = false ∧ ∀ life ∈ reports, life.reachable = true →
      life.moment - interval ≤ report.moment

/-- **The reports settle the judgement**: there is none of death, or some source settles it
whichever of its reports comes last. -/
def Settled (interval : ℤ) (reports : List Report) : Prop :=
  (∀ report ∈ reports, report.reachable = true) ∨ SurelyAlive interval reports ∨
    SurelyDead interval reports

section Orders

variable {interval : ℤ} {server : Option Bytes} {reports : List Report}

/-- The sources of some of the reports are all of the sources. -/
def Covers (order reports : List Report) : Prop :=
  (∀ report ∈ order, report ∈ reports) ∧
    ∀ report ∈ reports, ∃ other ∈ order, other.source = report.source

theorem Covers.of_perm {order : List Report} (perm : order.Perm reports) : Covers order reports :=
  ⟨fun _ mem => perm.subset mem, fun report mem => ⟨report, perm.symm.subset mem, rfl⟩⟩

/-- Every source has a newest report. -/
theorem Covers.newestOf (reports : List Report) : Covers (newestOf reports) reports := by
  refine ⟨fun report mem => (List.mem_filter.mp mem).1, fun report mem => ?_⟩
  have some : ((reports.filter fun other => other.source = report.source).toFinset).Nonempty :=
    ⟨report, by simp [mem]⟩
  obtain ⟨newest, isIn, newer⟩ := Finset.exists_max_image _ Report.timestamp some
  simp only [List.mem_toFinset, List.mem_filter, decide_eq_true_eq] at isIn newer
  refine ⟨newest, List.mem_filter.mpr ⟨isIn.1, ?_⟩, isIn.2⟩
  rw [List.all_eq_true]
  intro other otherMem
  by_cases same : other.source = newest.source
  · simpa [same] using newer other ⟨otherMem, same.trans isIn.2⟩
  · simp [same]

/-- A source that settles the judgement for the reports does so for the last ones. -/
theorem judge_of_settled (settled : Settled interval reports) {order : List Report}
    (covers : Covers order reports) :
    judge interval server order = true ↔
      (∀ report ∈ reports, report.reachable = true) ∨ SurelyAlive interval reports := by
  have last_of : ∀ witness ∈ reports, ∃ last, IsLast order last ∧ last ∈ reports ∧
      last.source = witness.source := by
    intro witness mem
    obtain ⟨other, otherMem, source⟩ := covers.2 witness mem
    obtain ⟨last, isLast, source'⟩ := exists_isLast otherMem
    exact ⟨last, isLast, covers.1 last isLast.mem, source'.trans source⟩
  rw [judge, alive_iff]
  rcases settled with all | ⟨witness, mem, settles⟩ | ⟨witness, mem, settles⟩
  · exact iff_of_true (.inl fun report last => all report (covers.1 report last.mem)) (.inl all)
  · obtain ⟨last, isLast, lastMem, source⟩ := last_of witness mem
    obtain ⟨lives, newer⟩ := settles last lastMem source
    refine iff_of_true (.inr ⟨last, isLast, lives, fun death deathLast => ?_⟩)
      (.inr ⟨witness, mem, settles⟩)
    exact newer death (covers.1 death deathLast.mem)
  · obtain ⟨last, isLast, lastMem, source⟩ := last_of witness mem
    obtain ⟨died, older⟩ := settles last lastMem source
    refine iff_of_false ?_ ?_
    · rintro (all | ⟨life, lifeLast, lives, newer⟩)
      · rw [all last isLast] at died
        cases died
      · have le := older life (covers.1 life lifeLast.mem) lives
        have lt := newer last isLast died
        omega
    · rintro (all | ⟨other, otherMem, settlesOther⟩)
      · rw [all last lastMem] at died
        cases died
      · obtain ⟨lives, newer⟩ := settlesOther other otherMem rfl
        have lt := newer last lastMem died
        have le := older other otherMem lives
        omega

/-- The reports of one kind from the newest to the oldest, and then those of the other kind from the
oldest to the newest. -/
def favouring (reachable : Bool) (reports : List Report) : List Report :=
  (reports.filter fun report => report.reachable = !reachable).insertionSort
      (fun report other => other.moment ≤ report.moment) ++
    (reports.filter fun report => report.reachable = reachable).insertionSort
      (fun report other => report.moment ≤ other.moment)

theorem favouring_perm (reachable : Bool) (reports : List Report) :
    (favouring reachable reports).Perm reports := by
  have split :=
    List.filter_append_perm (fun report : Report => report.reachable = !reachable) reports
  have other : (fun report : Report => !decide (report.reachable = !reachable)) =
      fun report => decide (report.reachable = reachable) := by
    funext report
    cases report.reachable <;> cases reachable <;> rfl
  rw [other] at split
  exact ((List.perm_insertionSort _ _).append (List.perm_insertionSort _ _)).trans split

/-- The reports of the other kind come first and get older, those of the kind get newer. -/
def Favours (reachable : Bool) (earlier later : Report) : Prop :=
  (later.reachable = (!reachable) →
    earlier.reachable = (!reachable) ∧ later.moment ≤ earlier.moment) ∧
  (earlier.reachable = reachable → later.reachable = reachable → earlier.moment ≤ later.moment)

theorem favouring_pairwise (reachable : Bool) (reports : List Report) :
    (favouring reachable reports).Pairwise (Favours reachable) := by
  have kind : ∀ {relation : Report → Report → Prop} [DecidableRel relation] {b : Bool}
      {report : Report}, report ∈ (reports.filter fun report =>
        report.reachable = b).insertionSort relation → report.reachable = b := by
    intro relation _ b report mem
    simpa using (List.mem_filter.mp ((List.perm_insertionSort relation _).subset mem)).2
  have ne : ∀ b : Bool, b ≠ !b := by decide
  refine List.pairwise_append.mpr ⟨?_, ?_, fun earlier first later second => ?_⟩
  · refine (List.pairwise_insertionSort _ _).imp_of_mem fun {earlier later} first _ older => ?_
    exact ⟨fun _ => ⟨kind first, older⟩, fun same => absurd (same.symm.trans (kind first)) (ne _)⟩
  · refine (List.pairwise_insertionSort _ _).imp_of_mem fun {earlier later} _ second newer => ?_
    exact ⟨fun other => absurd ((kind second).symm.trans other) (ne _), fun _ _ => newer⟩
  · exact ⟨fun other => absurd ((kind second).symm.trans other) (ne _),
      fun same => absurd (same.symm.trans (kind first)) (ne _)⟩

/-- **What comes last** of a source: of one that reported the other kind only its oldest report, and
of another one its newest report of the kind. -/
theorem last_of_favouring {reachable : Bool} {report other : Report}
    (last : IsLast (favouring reachable reports) report) (mem : other ∈ reports)
    (source : other.source = report.source) :
    (report.reachable = (!reachable) →
      other.reachable = (!reachable) ∧ report.moment ≤ other.moment) ∧
    (report.reachable = reachable → other.reachable = reachable →
      other.moment ≤ report.moment) := by
  obtain ⟨before, after, split, later⟩ := last
  have sorted := favouring_pairwise reachable reports
  have among := (favouring_perm reachable reports).symm.subset mem
  rw [split] at sorted among
  rcases List.mem_append.mp among with inBefore | rest
  · have favours := (List.pairwise_append.mp sorted).2.2 other inBefore report List.mem_cons_self
    exact ⟨favours.1, fun kind same => favours.2 same kind⟩
  · rcases List.mem_cons.mp rest with rfl | inAfter
    · exact ⟨fun kind => ⟨kind, le_rfl⟩, fun _ _ => le_rfl⟩
    · exact absurd source (later other inAfter)

/-- Where nothing settles the judgement, the reports of death can come last. -/
theorem judge_favouring_false (unsettled : ¬ Settled interval reports) :
    judge interval server (favouring false reports) = false := by
  rw [Settled, not_or, not_or] at unsettled
  obtain ⟨notAll, notAlive, -⟩ := unsettled
  have covered := Covers.of_perm (favouring_perm false reports)
  -- the last report of a source that reported a death is a death, and no older one
  have last_death : ∀ death ∈ reports, death.reachable = false →
      ∃ last, IsLast (favouring false reports) last ∧ last.reachable = false ∧
        death.moment ≤ last.moment := by
    intro death mem died
    obtain ⟨last, isLast, source⟩ := exists_isLast ((favouring_perm false reports).symm.subset mem)
    obtain ⟨pure, newest⟩ := last_of_favouring isLast mem source.symm
    cases kind : last.reachable with
    | false => exact ⟨last, isLast, kind, newest kind died⟩
    | true =>
        rw [(pure kind).1] at died
        cases died
  rw [judge, ← Bool.not_eq_true, alive_iff]
  rintro (all | ⟨life, lifeLast, lives, newer⟩)
  · push Not at notAll
    obtain ⟨death, mem, died⟩ := notAll
    obtain ⟨last, isLast, kind, -⟩ := last_death death mem (by simpa using died)
    rw [all last isLast] at kind
    cases kind
  · refine notAlive ⟨life, covered.1 life lifeLast.mem, fun report mem source => ?_⟩
    obtain ⟨kind, oldest⟩ := (last_of_favouring lifeLast mem source).1 lives
    refine ⟨kind, fun death deathMem died => ?_⟩
    obtain ⟨last, isLast, lastKind, le⟩ := last_death death deathMem died
    have lt := newer last isLast lastKind
    omega

/-- Where nothing settles the judgement, the reports of life can come last. -/
theorem judge_favouring_true (unsettled : ¬ Settled interval reports) :
    judge interval server (favouring true reports) = true := by
  rw [Settled, not_or, not_or] at unsettled
  obtain ⟨-, -, notDead⟩ := unsettled
  have covered := Covers.of_perm (favouring_perm true reports)
  rw [judge, alive_iff]
  by_cases all : ∀ report, IsLast (favouring true reports) report → report.reachable = true
  · exact .inl all
  right
  have older : ∀ death, IsLast (favouring true reports) death → death.reachable = false →
      ∃ life ∈ reports, life.reachable = true ∧ death.moment < life.moment - interval := by
    intro death deathLast died
    by_contra none
    push Not at none
    refine notDead ⟨death, covered.1 death deathLast.mem, fun report mem source => ?_⟩
    obtain ⟨kind, oldest⟩ := (last_of_favouring deathLast mem source).1 died
    refine ⟨kind, fun life lifeMem lives => ?_⟩
    have le := none life lifeMem lives
    omega
  push Not at all
  obtain ⟨death, deathLast, died⟩ := all
  obtain ⟨life, lifeMem, lives, -⟩ := older death deathLast (by simpa using died)
  -- the newest report of life comes last of its source
  have some : ((reports.filter fun report => report.reachable).toFinset).Nonempty :=
    ⟨life, by simp [lifeMem, lives]⟩
  obtain ⟨newest, isIn, newer⟩ := Finset.exists_max_image _ Report.moment some
  simp only [List.mem_toFinset, List.mem_filter] at isIn newer
  obtain ⟨last, isLast, source⟩ :=
    exists_isLast ((favouring_perm true reports).symm.subset isIn.1)
  obtain ⟨pure, le⟩ := last_of_favouring isLast isIn.1 source.symm
  have lastLives : last.reachable = true := by
    cases kind : last.reachable with
    | true => rfl
    | false =>
        have died := (pure kind).1
        rw [isIn.2] at died
        cases died
  refine ⟨last, isLast, lastLives, fun other otherLast otherDied => ?_⟩
  obtain ⟨life', lifeMem', lives', lt⟩ := older other otherLast otherDied
  have le' := newer life' ⟨lifeMem', lives'⟩
  have le'' := le lastLives isIn.2
  omega

/-- **When the order does not matter**: exactly when the reports settle the judgement. -/
theorem orderFree_iff (interval : ℤ) (server : Option Bytes) (reports : List Report) :
    OrderFree interval server reports ↔ Settled interval reports := by
  constructor
  · intro free
    by_contra unsettled
    have same := free.same _ _ (favouring_perm true reports) (favouring_perm false reports)
    rw [judge_favouring_true unsettled, judge_favouring_false unsettled] at same
    cases same
  · intro settled
    have judged : ∀ {order order' : List Report}, Covers order reports → Covers order' reports →
        judge interval server order = judge interval server order' := fun covers covers' =>
      Bool.eq_iff_iff.mpr
        ((judge_of_settled settled covers).trans (judge_of_settled settled covers').symm)
    exact ⟨fun order order' perm perm' => judged (.of_perm perm) (.of_perm perm'),
      fun order perm => judged (.of_perm perm) (.newestOf reports)⟩

end Orders

/-- **An older report overrides a newer one**: of one source, which reported a death at first and
life 100 seconds later, the report that is processed last decides. -/
theorem older_report_overrides :
    let older : Report := ⟨some [1], 0, false⟩
    let newer : Report := ⟨some [1], 100 * 10 ^ 6, true⟩
    newer.source = older.source ∧ older.timestamp < newer.timestamp ∧
    judge (60 * 10 ^ 6) (some [2]) [older, newer] = true ∧
    judge (60 * 10 ^ 6) (some [2]) [newer, older] = false ∧
    ¬ OrderFree (60 * 10 ^ 6) (some [2]) [older, newer] := by
  refine ⟨rfl, by decide, by decide, by decide, fun free => ?_⟩
  have same := free.same _ _ (List.Perm.refl _) (List.Perm.swap _ _ _)
  exact absurd same (by decide)

end Prism.Client
