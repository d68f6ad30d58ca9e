import Prism.Client.Onion
import Prism.Lib.Machine

/-!
The send log of a client (`prism/client/send_log.py`, with `attempt_send` and `send_task` of
`prism/client/client.py` and `MessageRoute.is_dead`).

A message that the client accepts is an entry of the log. The entry waits in the backlog, is sent
over a few routes, and is kept as complete for a while: when a server on one of its routes dies it
goes back to the backlog, and when its routes have been good for long enough it is left out. The
send task is cut where it waits, so messages are added and servers die in the middle of an attempt.

Records of servers are known by reference: what becomes of them is in the answers of `can_reach`,
which are asked for anew at every check, as is `dropbox_send_redundancy`.

* `cleanupComplete_ok`, `cleanupComplete_error`: one pass over the complete entries.
* `run_keeps_messages`: in every run each added message is in exactly one place, or it was
  retired, and then it had enough good routes that were old enough.
-/

namespace Prism.Client

open Lib

variable {Server Message : Type}

/-! ### Entries -/

/-- `MessageRoute.is_dead`, by what `can_reach` answers. -/
def MessageRoute.isDead (canReach : Server → Bool) (self : MessageRoute Server) : Bool :=
  (self.route ++ [self.target]).any fun server => !canReach server

/-- `SendLogEntry`. -/
structure SendLogEntry (Server Message : Type) where
  message : Message
  routesSent : List (MessageRoute Server) := []

namespace SendLogEntry

def dropboxesSent (self : SendLogEntry Server Message) : List Server :=
  self.routesSent.map fun route => route.target

/-- `sends_remaining`, with `dropbox_send_redundancy` as it is configured. -/
def sendsRemaining (redundancy : ℤ) (self : SendLogEntry Server Message) : ℤ :=
  redundancy - self.dropboxesSent.length

def finished (redundancy : ℤ) (self : SendLogEntry Server Message) : Bool :=
  self.sendsRemaining redundancy < 1

def lastSent (self : SendLogEntry Server Message) : Option ℤ :=
  (self.routesSent.map fun route => route.timestamp).max?

def targets [DecidableEq Server] (self : SendLogEntry Server Message) (candidates : List Server) :
    List Server :=
  candidates.filter fun candidate => candidate ∉ self.dropboxesSent

def sent (self : SendLogEntry Server Message) (route : MessageRoute Server) :
    SendLogEntry Server Message :=
  { self with routesSent := self.routesSent ++ [route] }

def invalidateRoutes (canReach : Server → Bool) (self : SendLogEntry Server Message) :
    SendLogEntry Server Message :=
  { self with routesSent := self.routesSent.filter fun route => !route.isDead canReach }

/-- `safe`, with `client_retain_message_sec`. The time of an entry that was never sent cannot be
subtracted. -/
def safe (redundancy retain now : ℤ) (self : SendLogEntry Server Message) : Py Bool :=
  if self.finished redundancy then
    match self.lastSent with
    | some last => .ok (retain < now - last)
    | none => .error .typeError
  else .ok false

theorem sendsRemaining_eq (self : SendLogEntry Server Message) (redundancy : ℤ) :
    self.sendsRemaining redundancy = redundancy - self.routesSent.length := by
  rw [sendsRemaining, dropboxesSent, List.length_map]

theorem finished_iff {redundancy : ℤ} {self : SendLogEntry Server Message} :
    self.finished redundancy = true ↔ redundancy ≤ self.routesSent.length := by
  rw [finished, sendsRemaining_eq, decide_eq_true_eq]
  omega

/-- Without a time of sending there is no route. -/
theorem routesSent_of_lastSent {self : SendLogEntry Server Message} (none : self.lastSent = none) :
    self.routesSent = [] := by
  rwa [lastSent, List.max?_eq_none_iff, List.map_eq_nil_iff] at none

end SendLogEntry

/-! ### The complete entries -/

/-- What one pass over the complete entries finds: the settings, and the answers of `can_reach`
and the time when it comes to the entry at a place. -/
structure CleanupPass (Server : Type) where
  redundancy : ℤ
  retain : ℤ
  canReach : ℕ → Server → Bool
  now : ℕ → ℤ

/-- `SendLog`. -/
structure SendLog (Server Message : Type) where
  backlog : List (SendLogEntry Server Message) := []
  complete : List (SendLogEntry Server Message) := []

/-- An entry that was left out of the complete ones, and what the pass found. -/
structure Retirement (Server Message : Type) where
  entry : SendLogEntry Server Message
  redundancy : ℤ
  retain : ℤ
  canReach : Server → Bool
  now : ℤ

/-- **A message is retired for a reason**: it had enough routes, none of them with a dead server,
and the last of them is old enough. -/
structure Retirement.Justified (self : Retirement Server Message) : Prop where
  enough : self.redundancy ≤ self.entry.routesSent.length
  alive : ∀ route ∈ self.entry.routesSent, route.isDead self.canReach = false
  old : ∃ last, self.entry.lastSent = some last ∧ self.retain < self.now - last

section Cleanup

variable (pass : CleanupPass Server)

/-- The complete entries, from place `k` on, without their dead routes. -/
def invalidate : ℕ → List (SendLogEntry Server Message) → List (SendLogEntry Server Message)
  | _, [] => []
  | k, entry :: entries => entry.invalidateRoutes (pass.canReach k) :: invalidate (k + 1) entries

/-- `entry.finished and not entry.safe`, of the entry at place `k`. -/
def stays (k : ℕ) (entry : SendLogEntry Server Message) : Py Bool := do
  if entry.finished pass.redundancy then
    return !(← entry.safe pass.redundancy pass.retain (pass.now k))
  else return false

/-- The entries that stay complete. -/
def keep : ℕ → List (SendLogEntry Server Message) → Py (List (SendLogEntry Server Message))
  | _, [] => .ok []
  | k, entry :: entries => do
    let staying ← stays pass k entry
    let rest ← keep (k + 1) entries
    return if staying then entry :: rest else rest

/-- The entries that are neither put back nor kept. -/
def leftOut : ℕ → List (SendLogEntry Server Message) → List (Retirement Server Message)
  | _, [] => []
  | k, entry :: entries =>
    match entry.finished pass.redundancy, stays pass k entry with
    | true, .ok false =>
      ⟨entry, pass.redundancy, pass.retain, pass.canReach k, pass.now k⟩ :: leftOut (k + 1) entries
    | _, _ => leftOut (k + 1) entries

/-- `cleanup_complete`: the log afterwards, and what is raised. The entries that have lost a route
are put back before the others are looked at again. -/
def SendLog.cleanupComplete (self : SendLog Server Message) :
    SendLog Server Message × Py Unit :=
  let entries := invalidate pass 0 self.complete
  let backlog := self.backlog ++ entries.filter fun entry => !entry.finished pass.redundancy
  match keep pass 0 entries with
  | .ok complete => ({ backlog, complete }, .ok ())
  | .error e => ({ backlog, complete := entries }, .error e)

/-- The entries that `cleanup_complete` drops. -/
def SendLog.retired (self : SendLog Server Message) : List (Retirement Server Message) :=
  leftOut pass 0 (invalidate pass 0 self.complete)

variable {pass}

theorem invalidate_messages (k : ℕ) (entries : List (SendLogEntry Server Message)) :
    (invalidate pass k entries).map (fun entry => entry.message) =
      entries.map fun entry => entry.message := by
  induction entries generalizing k with
  | nil => rfl
  | cons entry entries ih =>
      rw [invalidate, List.map_cons, List.map_cons, ih, SendLogEntry.invalidateRoutes]

/-- What is put back, what stays and what is left out are all the entries. -/
theorem keep_perm {k : ℕ} {entries kept : List (SendLogEntry Server Message)}
    (run : keep pass k entries = .ok kept) :
    entries.Perm ((entries.filter fun entry => !entry.finished pass.redundancy) ++ kept ++
      (leftOut pass k entries).map fun retirement => retirement.entry) := by
  induction entries generalizing k kept with
  | nil =>
      cases run
      exact List.Perm.refl []
  | cons entry entries ih =>
      obtain ⟨staying, looked, run⟩ := bind_eq_ok.mp run
      obtain ⟨rest, runRest, run⟩ := bind_eq_ok.mp run
      cases run
      have others := (ih runRest).cons entry
      by_cases done : entry.finished pass.redundancy = true
      · rw [List.filter_cons_of_neg (by simp [done]), leftOut, done, looked]
        cases staying with
        | true =>
            refine others.trans ?_
            rw [if_pos rfl, List.append_assoc, List.append_assoc]
            exact List.perm_middle.symm
        | false =>
            refine others.trans ?_
            exact List.perm_middle.symm
      · have putBack : staying = false := by
          rw [stays, if_neg done] at looked
          cases looked
          rfl
        subst putBack
        rw [Bool.not_eq_true] at done
        rw [List.filter_cons_of_pos (by simp [done]), leftOut, done]
        exact others

/-- The pass raises only where an entry without any route counts as finished, and then every entry
does. -/
theorem finished_of_keep_error {k : ℕ} {entries : List (SendLogEntry Server Message)} {e : PyError}
    (run : keep pass k entries = .error e) (entry : SendLogEntry Server Message) :
    entry.finished pass.redundancy = true := by
  induction entries generalizing k with
  | nil => cases run
  | cons head entries ih =>
      rw [keep] at run
      rcases looked : stays pass k head with error | staying
      · unfold stays SendLogEntry.safe at looked
        split_ifs at looked with done
        · cases none : head.lastSent with
          | some last =>
              rw [none] at looked
              cases looked
          | none =>
              rw [SendLogEntry.finished_iff, SendLogEntry.routesSent_of_lastSent none] at done
              rw [SendLogEntry.finished_iff]
              simp only [List.length_nil, Nat.cast_zero] at done
              omega
        · cases looked
      · rcases runRest : keep pass (k + 1) entries with error | rest
        · rw [looked, ok_bind, runRest] at run
          cases run
          exact ih runRest
        · rw [looked, ok_bind, runRest] at run
          cases run

/-- **One pass**: the entries of the log are distributed, and none is lost or doubled. -/
theorem cleanupComplete_ok {self log : SendLog Server Message} {u : Unit}
    (run : self.cleanupComplete pass = (log, .ok u)) :
    ((self.backlog ++ self.complete).map fun entry => entry.message).Perm
      (((log.backlog ++ log.complete).map fun entry => entry.message) ++
        (self.retired pass).map fun retirement => retirement.entry.message) := by
  rw [SendLog.cleanupComplete] at run
  rcases kept : keep pass 0 (invalidate pass 0 self.complete) with e | complete
  · rw [kept] at run
    cases run
  · rw [kept] at run
    cases run
    have distributed := ((keep_perm kept).map fun entry => entry.message).append_left
      (self.backlog.map fun entry => entry.message)
    rw [invalidate_messages] at distributed
    simpa [SendLog.retired, List.map_append, List.append_assoc, Function.comp_def] using distributed

/-- A pass that raises leaves the messages where they are. -/
theorem cleanupComplete_error {self log : SendLog Server Message} {e : PyError}
    (run : self.cleanupComplete pass = (log, .error e)) :
    ((log.backlog ++ log.complete).map fun entry => entry.message) =
      (self.backlog ++ self.complete).map fun entry => entry.message := by
  rw [SendLog.cleanupComplete] at run
  rcases kept : keep pass 0 (invalidate pass 0 self.complete) with e' | complete
  · rw [kept] at run
    cases run
    have none : (invalidate pass 0 self.complete).filter
        (fun entry => !entry.finished pass.redundancy) = [] := by
      rw [List.filter_eq_nil_iff]
      intro entry _
      rw [finished_of_keep_error kept entry]
      simp
    rw [none, List.append_nil, List.map_append, List.map_append, invalidate_messages]
  · rw [kept] at run
    cases run

/-- What is left out is left out for a reason. -/
theorem justified_of_leftOut {k : ℕ} {entries : List (SendLogEntry Server Message)}
    {retirement : Retirement Server Message}
    (mem : retirement ∈ leftOut pass k (invalidate pass k entries)) : retirement.Justified := by
  induction entries generalizing k with
  | nil => cases mem
  | cons entry entries ih =>
      rw [invalidate, leftOut] at mem
      split at mem
      next done looked =>
        rcases List.mem_cons.mp mem with rfl | mem
        · rw [stays, if_pos done, SendLogEntry.safe, if_pos done] at looked
          refine ⟨SendLogEntry.finished_iff.mp done, fun route sent => ?_, ?_⟩
          · simpa using (List.mem_filter.mp sent).2
          · cases last : (entry.invalidateRoutes (pass.canReach k)).lastSent with
            | none =>
                rw [last] at looked
                cases looked
            | some time =>
                rw [last] at looked
                have old := Except.ok.inj looked
                rw [Bool.not_eq_false', decide_eq_true_eq] at old
                exact ⟨time, rfl, old⟩
        · exact ih mem
      next => exact ih mem

end Cleanup

/-! ### Sending -/

/-- An entry that is attempted, and the dropboxes that it is still offered to, once they were
chosen. -/
structure Attempt (Server Message : Type) where
  entry : SendLogEntry Server Message
  offered : Option (List Server) := none

/-- The log, and the attempt of the send task. -/
structure SendTask (Server Message : Type) where
  log : SendLog Server Message := {}
  attempt : Option (Attempt Server Message) := none

/-- What comes of a dropbox that an entry is offered to: no route to it is found, or the message is
not posted, or it is posted over a route of some Emixes, or an exception is raised. -/
inductive Offer (Server : Type) where
  | noRoute
  | notPosted
  | posted (route : List Server) (timestamp : ℤ)
  | raised

namespace SendTask

section Steps

variable [DecidableEq Server]

/-- `attempt`, up to its `yield`: the complete entries are looked at, and the first entry of the
backlog is taken. -/
def begin (pass : CleanupPass Server) (canReach : Server → Bool) (self : SendTask Server Message) :
    SendTask Server Message × List (Retirement Server Message) :=
  match self.attempt with
  | some _ => (self, [])
  | none =>
    match self.log.cleanupComplete pass with
    | (log, .error _) => ({ self with log }, [])
    | (log, .ok _) =>
      match log.backlog with
      | [] => ({ self with log }, self.log.retired pass)
      | entry :: backlog =>
        ({ log := { log with backlog }, attempt := some ⟨entry.invalidateRoutes canReach, none⟩ },
          self.log.retired pass)

/-- The beginning of `attempt_send`: the dropboxes of the recipient that have no route yet, in some
order, and as many of them as there are sends remaining. -/
def choose (redundancy : ℤ) (candidates shuffled : List Server) (self : SendTask Server Message) :
    SendTask Server Message :=
  match self.attempt with
  | some ⟨entry, none⟩ =>
    if shuffled.Perm (entry.targets candidates) then
      let offered := pySlice shuffled 0 (entry.sendsRemaining redundancy)
      { self with attempt := some ⟨entry, some offered⟩ }
    else self
  | _ => self

/-- One turn of the loop of `attempt_send`. -/
def offer (outcome : Offer Server) (self : SendTask Server Message) : SendTask Server Message :=
  match self.attempt with
  | some ⟨entry, some (target :: offered)⟩ =>
    match outcome with
    | .noRoute | .notPosted => { self with attempt := some ⟨entry, some offered⟩ }
    | .posted route timestamp =>
      { self with attempt := some ⟨entry.sent ⟨route, target, timestamp⟩, some offered⟩ }
    | .raised => { self with attempt := some ⟨entry, some []⟩ }
  | _ => self

/-- `attempt`, from its `yield` on. -/
def finish (redundancy : ℤ) (self : SendTask Server Message) : SendTask Server Message :=
  match self.attempt with
  | some ⟨entry, none⟩ | some ⟨entry, some []⟩ =>
    if entry.finished redundancy then
      { log := { self.log with complete := self.log.complete ++ [entry] } }
    else { log := { self.log with backlog := self.log.backlog ++ [entry] } }
  | _ => self

/-- What happens to the send log. Between any two of these, servers die, revive and expire, and the
configuration changes. -/
inductive Step (Server Message : Type) where
  | add (message : Message)
  | begin (pass : CleanupPass Server) (canReach : Server → Bool)
  | choose (redundancy : ℤ) (candidates shuffled : List Server)
  | offer (outcome : Offer Server)
  | finish (redundancy : ℤ)

/-- `SendLog.add`. -/
def add (message : Message) (self : SendTask Server Message) : SendTask Server Message :=
  { self with log := { self.log with backlog := self.log.backlog ++ [⟨message, []⟩] } }

/-- **The send task** of a client, which answers with what it retires. -/
def machine (Server Message : Type) [DecidableEq Server] :
    Machine (SendTask Server Message) (Step Server Message) (List (Retirement Server Message)) where
  init := {}
  step self step :=
    match step with
    | .add message => (self.add message, [])
    | .begin pass canReach => self.begin pass canReach
    | .choose redundancy candidates shuffled => (self.choose redundancy candidates shuffled, [])
    | .offer outcome => (self.offer outcome, [])
    | .finish redundancy => (self.finish redundancy, [])

end Steps

/-! ### Where the messages are -/

/-- The entry that is attempted. -/
def current (self : SendTask Server Message) : List (SendLogEntry Server Message) :=
  (self.attempt.map fun attempt => attempt.entry).toList

/-- The messages in the backlog, in the attempt and among the complete entries. -/
def messages (self : SendTask Server Message) : List Message :=
  (self.log.backlog ++ self.current ++ self.log.complete).map fun entry => entry.message

/-- The message that a step adds. -/
def Step.added : Step Server Message → List Message
  | .add message => [message]
  | .begin _ _ | .choose _ _ _ | .offer _ | .finish _ => []

theorem begin_messages (pass : CleanupPass Server) (canReach : Server → Bool)
    (self : SendTask Server Message) :
    self.messages.Perm ((self.begin pass canReach).1.messages ++
      (self.begin pass canReach).2.map fun retirement => retirement.entry.message) := by
  obtain ⟨log, attempt⟩ := self
  cases attempt with
  | some attempt => simp [begin]
  | none =>
      rcases run : log.cleanupComplete pass with ⟨after, e | u⟩
      · have same := cleanupComplete_error run
        simp only [begin, run]
        simpa [messages, current] using (List.Perm.of_eq same).symm
      · have distributed := cleanupComplete_ok run
        simp only [begin, run]
        rcases waiting : after.backlog with _ | ⟨entry, backlog⟩
        · simpa [messages, current, waiting] using distributed
        · rw [waiting] at distributed
          refine List.Perm.trans (by simpa [messages, current] using distributed) ?_
          -- the first entry moves from the backlog behind it
          simp only [messages, current, SendLogEntry.invalidateRoutes, List.map_append,
            List.map_cons, List.cons_append, List.append_assoc, Option.map_some,
            Option.toList_some, List.nil_append]
          exact List.perm_middle.symm

theorem offer_messages (outcome : Offer Server) (self : SendTask Server Message) :
    (self.offer outcome).messages = self.messages := by
  unfold offer
  split
  next entry target offered eq => cases outcome <;> simp [messages, current, eq, SendLogEntry.sent]
  next => rfl

theorem finish_messages (redundancy : ℤ) (self : SendTask Server Message) :
    self.messages.Perm (self.finish redundancy).messages := by
  have completed : ∀ entry offered, self.attempt = some ⟨entry, offered⟩ → self.messages.Perm
      (messages { log := { self.log with complete := self.log.complete ++ [entry] } }) := by
    intro entry offered eq
    simp only [messages, current, eq, List.map_append, List.append_assoc, Option.map_some,
      Option.toList_some, Option.map_none, Option.toList_none, List.nil_append]
    exact List.perm_append_comm.append_left _
  have putBack : ∀ entry offered, self.attempt = some ⟨entry, offered⟩ → self.messages.Perm
      (messages { log := { self.log with backlog := self.log.backlog ++ [entry] } }) := by
    intro entry offered eq
    simp [messages, current, eq]
  unfold finish
  split
  next entry eq =>
    split_ifs
    · exact completed entry none eq
    · exact putBack entry none eq
  next entry eq =>
    split_ifs
    · exact completed entry (some []) eq
    · exact putBack entry (some []) eq
  next => exact List.Perm.refl _

variable [DecidableEq Server]

theorem choose_messages (redundancy : ℤ) (candidates shuffled : List Server)
    (self : SendTask Server Message) :
    (self.choose redundancy candidates shuffled).messages = self.messages := by
  unfold choose
  split
  next entry eq =>
    split_ifs
    · simp [messages, current, eq]
    · rfl
  next => rfl

/-- **One step** neither loses nor doubles a message. -/
theorem step_messages (self : SendTask Server Message) (step : Step Server Message) :
    (self.messages ++ step.added).Perm (((machine Server Message).step self step).1.messages ++
      ((machine Server Message).step self step).2.map fun retirement =>
        retirement.entry.message) := by
  cases step with
  | add message =>
      simp only [machine, add, messages, Step.added, current, List.map_append, List.map_cons,
        List.map_nil, List.append_assoc, List.append_nil]
      refine List.Perm.append_left _ ?_
      rw [← List.append_assoc]
      exact List.perm_append_comm
  | begin pass canReach =>
      rw [Step.added, List.append_nil]
      exact begin_messages pass canReach self
  | choose redundancy candidates shuffled =>
      rw [Step.added, List.append_nil]
      exact List.Perm.of_eq (by
        rw [machine, choose_messages, List.map_nil, List.append_nil])
  | offer outcome =>
      rw [Step.added, List.append_nil]
      exact List.Perm.of_eq (by rw [machine, offer_messages, List.map_nil, List.append_nil])
  | finish redundancy =>
      rw [Step.added, List.append_nil, machine, List.map_nil, List.append_nil]
      exact finish_messages redundancy self

/-- What a step retires is retired for a reason. -/
theorem step_justified (self : SendTask Server Message) (step : Step Server Message) :
    ∀ retirement ∈ ((machine Server Message).step self step).2, retirement.Justified := by
  intro retirement mem
  cases step with
  | begin pass canReach =>
      change retirement ∈ (self.begin pass canReach).2 at mem
      unfold begin at mem
      split at mem
      · cases mem
      · split at mem
        · cases mem
        · split at mem
          · exact justified_of_leftOut mem
          · exact justified_of_leftOut mem
  | _ => cases mem

/-- The messages that were added in a run. -/
def addedIn (steps : List (Step Server Message)) : List Message := steps.flatMap Step.added

/-- What was retired in a run. -/
def retiredIn (steps : List (Step Server Message)) : List (Retirement Server Message) :=
  ((machine Server Message).run steps).2.flatMap Prod.snd

/-- **The client loses no message.** After every sequence of steps, the messages that were added
are exactly those in the backlog, in the current attempt, among the complete entries and among the
retired ones, each as often as it was added; and what was retired had enough routes, none with a
dead server and the last of them old enough. -/
theorem run_keeps_messages (steps : List (Step Server Message)) :
    (addedIn steps).Perm (((machine Server Message).run steps).1.messages ++
      (retiredIn steps).map fun retirement => retirement.entry.message) ∧
    ∀ retirement ∈ retiredIn steps, retirement.Justified := by
  induction steps using List.reverseRecOn with
  | nil => exact ⟨List.Perm.refl _, by simp [retiredIn]⟩
  | append_singleton steps step ih =>
      obtain ⟨kept, justified⟩ := ih
      have retired : retiredIn (steps ++ [step]) = retiredIn steps ++
          ((machine Server Message).step ((machine Server Message).run steps).1 step).2 := by
        simp [retiredIn, Machine.run_concat, Machine.record]
      constructor
      · have one := step_messages ((machine Server Message).run steps).1 step
        have added : addedIn (steps ++ [step]) = addedIn steps ++ step.added := by
          rw [addedIn, List.flatMap_append, List.flatMap_singleton, addedIn]
        rw [added, Machine.run_concat, Machine.record, retired, List.map_append]
        refine (kept.append_right _).trans ?_
        -- what was retired before is set aside for the step
        rw [List.append_assoc]
        refine (List.perm_append_comm.append_left _).trans ?_
        rw [← List.append_assoc]
        refine (one.append_right _).trans ?_
        rw [List.append_assoc]
        exact List.perm_append_comm.append_left _
      · rw [retired]
        intro retirement mem
        rcases List.mem_append.mp mem with before | now
        · exact justified retirement before
        · exact step_justified _ step retirement now

end SendTask

end Prism.Client
