import Prism.Client.SendLog
import Prism.Client.Pseudonym

/-!
How many routes a message is sent over (`attempt_send` in `prism/client/client.py`, with
`sends_remaining` and `targets` in `prism/client/send_log.py` and `update_config` in
`prism/common/epoch/command.py`).

An attempt takes as many of the dropboxes that have no route as there are sends remaining. That is
a bound of a slice: where the limit was lowered under the number of the live routes it is negative,
and the slice leaves out that many dropboxes at its end, and takes all the others.

* `nodup_dropboxesForRecipient`: the dropboxes of a recipient are distinct.
* `Sound.step`: what one step does to an attempt.
* `limit_iff`: the runs in which every attempt keeps to the limit, and the routes of an entry while
  the limit stays the same.
-/

namespace Prism.Client

open Lib

/-! ### The dropboxes of a recipient -/

/-- What is kept stands in the order of the list. -/
theorem pyFilter_sublist {α : Type} {p : α → Py Bool} {xs ys : List α}
    (run : pyFilter p xs = .ok ys) : ys.Sublist xs := by
  induction xs generalizing ys with
  | nil =>
      cases run
      exact List.Sublist.refl []
  | cons x xs ih =>
      obtain ⟨holds, -, run⟩ := bind_eq_ok.mp run
      obtain ⟨rest, runRest, run⟩ := bind_eq_ok.mp run
      cases run
      cases holds with
      | true => exact (ih runRest).cons_cons x
      | false => exact (ih runRest).cons x

/-- **The dropboxes of a recipient are distinct**, where the database has each server once. -/
theorem nodup_dropboxesForRecipient {now : ℤ} {currentEpoch epoch : String}
    {servers : Routing.Servers} {pseudonym : Bytes} {dropboxCount dropboxesPerClient : ℕ}
    {chosen : List Routing.ServerRecord}
    (run : dropboxesForRecipient now currentEpoch servers pseudonym dropboxCount
      dropboxesPerClient epoch = .ok chosen)
    (once : (servers.map fun entry => entry.2.pseudonym).Nodup) :
    (chosen.map fun server => server.pseudonym).Nodup := by
  obtain ⟨indices, -, run⟩ := bind_eq_ok.mp run
  have valid : (validServers now currentEpoch servers).Sublist (servers.map Prod.snd) :=
    List.filter_sublist
  have part := ((pyFilter_sublist run).trans valid).map fun server => server.pseudonym
  rw [List.map_map] at part
  exact once.sublist part

variable {Server Message : Type}

/-! ### Attempts -/

/-- An attempt since its dropboxes were chosen: the limit and the entry at that time, and what came
of the dropboxes so far. -/
structure Sending (Server Message : Type) where
  redundancy : ℤ
  entry : SendLogEntry Server Message
  offers : List (Server × Offer Server) := []

/-- Sending to a dropbox is started where a route to it is found. -/
def Offer.started : Offer Server → Bool
  | .noRoute => false
  | .notPosted | .posted _ _ | .raised => true

/-- The route over which a message is posted. -/
def Offer.route? (target : Server) : Offer Server → Option (MessageRoute Server)
  | .posted route timestamp => some ⟨route, target, timestamp⟩
  | .noRoute | .notPosted | .raised => none

namespace Sending

variable (sending : Sending Server Message)

/-- The dropboxes to which sending was started. -/
def started : List Server := (sending.offers.filter fun offer => offer.2.started).map Prod.fst

/-- The entry with the routes over which it was posted. -/
def recorded : SendLogEntry Server Message where
  message := sending.entry.message
  routesSent := sending.entry.routesSent ++
    sending.offers.filterMap fun offer => offer.2.route? offer.1

/-- **What an attempt should keep to.** -/
structure Limited : Prop where
  few : (sending.started.length : ℤ) ≤ max 0 (sending.redundancy - sending.entry.routesSent.length)
  distinct : sending.started.Nodup
  fresh : ∀ server ∈ sending.started, server ∉ sending.entry.dropboxesSent

/-- The dropboxes of an attempt, with those that it is still to be offered to, keep to it. -/
structure Ahead (offered : List Server) : Prop where
  few : ((sending.offers.map Prod.fst ++ offered).length : ℤ) ≤
    max 0 (sending.redundancy - sending.entry.routesSent.length)
  distinct : (sending.offers.map Prod.fst ++ offered).Nodup
  fresh : ∀ server ∈ sending.offers.map Prod.fst ++ offered, server ∉ sending.entry.dropboxesSent

variable {sending}

/-- What keeps to the limit with its dropboxes ahead keeps to it now. -/
theorem Ahead.limited {offered : List Server} (ahead : sending.Ahead offered) :
    sending.Limited := by
  have part : sending.started.Sublist (sending.offers.map Prod.fst ++ offered) :=
    (List.filter_sublist.map Prod.fst).trans (List.sublist_append_left _ _)
  refine ⟨?_, ahead.distinct.sublist part, fun server mem => ahead.fresh server (part.mem mem)⟩
  exact (Nat.cast_le.mpr part.length_le).trans ahead.few

/-- Fewer dropboxes ahead keep to the limit as well. -/
theorem Ahead.of_sublist {offered fewer : List Server} (ahead : sending.Ahead offered)
    (part : fewer.Sublist offered) : sending.Ahead fewer := by
  have whole := part.append_left (sending.offers.map Prod.fst)
  refine ⟨?_, ahead.distinct.sublist whole, fun server mem => ahead.fresh server (whole.mem mem)⟩
  exact (Nat.cast_le.mpr whole.length_le).trans ahead.few

/-- The attempt after one more dropbox. -/
def offer (target : Server) (outcome : Offer Server) (sending : Sending Server Message) :
    Sending Server Message :=
  { sending with offers := sending.offers ++ [(target, outcome)] }

/-- The first dropbox ahead is the next one of the attempt. -/
theorem Ahead.offer {target : Server} {offered : List Server}
    (ahead : sending.Ahead (target :: offered)) (outcome : Offer Server) :
    (sending.offer target outcome).Ahead offered := by
  have same : (sending.offer target outcome).offers.map Prod.fst ++ offered =
      sending.offers.map Prod.fst ++ target :: offered := by simp [Sending.offer]
  constructor
  · rw [same]
    exact ahead.few
  · rw [same]
    exact ahead.distinct
  · rw [same]
    exact ahead.fresh

theorem recorded_offer (target : Server) (outcome : Offer Server) :
    (sending.offer target outcome).recorded.routesSent =
      sending.recorded.routesSent ++ (outcome.route? target).toList := by
  rw [recorded, recorded, Sending.offer, List.filterMap_append, ← List.append_assoc]
  cases outcome <;> rfl

end Sending

/-! ### The slice of the dropboxes -/

/-- The length of a slice from the start. -/
theorem length_pySlice_zero {α : Type} (xs : List α) (stop : ℤ) :
    (pySlice xs 0 stop).length = sliceBound xs.length stop := by
  have start : sliceBound xs.length 0 = 0 := by simp [sliceBound]
  rw [pySlice, start, List.drop_zero, Nat.sub_zero, List.length_take]
  exact min_eq_left (sliceBound_le _ _)

/-- **As many dropboxes are taken as sends remain**, unless their number is negative, and then
unless no more dropboxes are there than are left out. -/
theorem length_pySlice_le_iff {α : Type} (xs : List α) (stop : ℤ) :
    ((pySlice xs 0 stop).length : ℤ) ≤ max 0 stop ↔ 0 ≤ stop ∨ (xs.length : ℤ) ≤ -stop := by
  rw [length_pySlice_zero, sliceBound]
  split_ifs <;> omega

theorem pySlice_sublist {α : Type} (xs : List α) (start stop : ℤ) :
    (pySlice xs start stop).Sublist xs :=
  (List.take_sublist _ _).trans (List.drop_sublist _ _)

namespace SendTask

/-! ### The attempt of the send task -/

/-- Taking an entry from the backlog offers it to no dropbox yet. -/
theorem attempt_begin {self : SendTask Server Message} {pass : CleanupPass Server}
    {canReach : Server → Bool} {entry : SendLogEntry Server Message} {offered : List Server}
    (attempted : (self.begin pass canReach).1.attempt = some ⟨entry, some offered⟩) :
    self.attempt = some ⟨entry, some offered⟩ := by
  unfold begin at attempted
  split at attempted
  · exact attempted
  · split at attempted
    · exact attempted
    · split at attempted
      · exact attempted
      · cases attempted

/-- The end of an attempt leaves none. -/
theorem attempt_finish {self : SendTask Server Message} {redundancy : ℤ}
    {entry : SendLogEntry Server Message} {offered : List Server}
    (attempted : (self.finish redundancy).attempt = some ⟨entry, some offered⟩) :
    self.attempt = some ⟨entry, some offered⟩ := by
  unfold finish at attempted
  split at attempted
  · split_ifs at attempted
  · split_ifs at attempted
  · exact attempted

/-- What is left to be offered after one dropbox. -/
def left (offered : List Server) : Offer Server → List Server
  | .noRoute | .notPosted | .posted _ _ => offered
  | .raised => []

/-- One turn of the loop: the entry records the route, if there is one. -/
theorem attempt_offer {self : SendTask Server Message} {entry : SendLogEntry Server Message}
    {target : Server} {offered : List Server}
    (attempted : self.attempt = some ⟨entry, some (target :: offered)⟩) (outcome : Offer Server) :
    (self.offer outcome).attempt = some
      ⟨{ entry with routesSent := entry.routesSent ++ (outcome.route? target).toList },
        some (left offered outcome)⟩ := by
  unfold offer
  rw [attempted]
  cases outcome <;> simp [Offer.route?, left, SendLogEntry.sent]

/-- Without a dropbox ahead there is no turn of the loop. -/
theorem offer_of_not {self : SendTask Server Message}
    (none : ∀ entry target offered, self.attempt ≠ some ⟨entry, some (target :: offered)⟩)
    (outcome : Offer Server) : self.offer outcome = self := by
  unfold offer
  split
  next attempted => exact absurd attempted (none _ _ _)
  next => rfl

/-! ### The routes of the entries -/

/-- **No entry has more live routes than the limit**, nor will it after its attempt. -/
structure Within (redundancy : ℤ) (task : SendTask Server Message) : Prop where
  waiting : ∀ entry ∈ task.log.backlog ++ task.log.complete,
    (entry.routesSent.length : ℤ) ≤ max 0 redundancy
  attempted : ∀ entry offered, task.attempt = some ⟨entry, offered⟩ →
    ((entry.routesSent.length + (offered.getD []).length : ℕ) : ℤ) ≤ max 0 redundancy

/-- An entry that was looked at has no more routes than before. -/
theorem mem_invalidate {pass : CleanupPass Server} {k : ℕ}
    {entries : List (SendLogEntry Server Message)} {entry : SendLogEntry Server Message}
    (mem : entry ∈ invalidate pass k entries) :
    ∃ earlier ∈ entries, entry.routesSent.length ≤ earlier.routesSent.length := by
  induction entries generalizing k with
  | nil => cases mem
  | cons head entries ih =>
      rcases List.mem_cons.mp mem with rfl | mem
      · exact ⟨head, List.mem_cons_self, List.length_filter_le _ _⟩
      · obtain ⟨earlier, isIn, le⟩ := ih mem
        exact ⟨earlier, List.mem_cons_of_mem _ isIn, le⟩

/-- After a pass over the complete entries each entry is an earlier one, with no more routes. -/
theorem mem_cleanupComplete {pass : CleanupPass Server} {log : SendLog Server Message}
    {entry : SendLogEntry Server Message}
    (mem : entry ∈ (log.cleanupComplete pass).1.backlog ++ (log.cleanupComplete pass).1.complete) :
    ∃ earlier ∈ log.backlog ++ log.complete,
      entry.routesSent.length ≤ earlier.routesSent.length := by
  have later : entry ∈ log.backlog ++ invalidate pass 0 log.complete := by
    rw [SendLog.cleanupComplete] at mem
    rcases kept : keep pass 0 (invalidate pass 0 log.complete) with e | complete
    · simp only [kept, List.mem_append, List.mem_filter] at mem
      rw [List.mem_append]
      tauto
    · have all : ∀ other ∈ complete, other ∈ invalidate pass 0 log.complete := by
        intro other isIn
        refine (keep_perm kept).mem_iff.mpr ?_
        simp [isIn]
      simp only [kept, List.mem_append, List.mem_filter] at mem
      rw [List.mem_append]
      rcases mem with (mem | mem) | mem
      · exact .inl mem
      · exact .inr mem.1
      · exact .inr (all entry mem)
  rcases List.mem_append.mp later with mem | mem
  · exact ⟨entry, List.mem_append_left _ mem, le_rfl⟩
  · obtain ⟨earlier, isIn, le⟩ := mem_invalidate mem
    exact ⟨earlier, List.mem_append_right _ isIn, le⟩

theorem Within.begin {redundancy : ℤ} {task : SendTask Server Message}
    (within : Within redundancy task) (pass : CleanupPass Server) (canReach : Server → Bool) :
    Within redundancy (task.begin pass canReach).1 := by
  have idle : ∀ (log : SendLog Server Message) entry offered,
      (⟨log, none⟩ : SendTask Server Message).attempt = some ⟨entry, offered⟩ →
        ((entry.routesSent.length + (offered.getD []).length : ℕ) : ℤ) ≤ max 0 redundancy := by
    intro log entry offered attempted
    cases attempted
  obtain ⟨log, _ | attempt⟩ := task
  · have entries : ∀ entry ∈ (log.cleanupComplete pass).1.backlog ++
        (log.cleanupComplete pass).1.complete,
        (entry.routesSent.length : ℤ) ≤ max 0 redundancy := by
      intro entry mem
      obtain ⟨earlier, isIn, le⟩ := mem_cleanupComplete mem
      exact (Nat.cast_le.mpr le).trans (within.waiting earlier isIn)
    rcases run : log.cleanupComplete pass with ⟨after, e | u⟩
    · rw [run] at entries
      simp only [SendTask.begin, run]
      exact ⟨entries, idle after⟩
    · rw [run] at entries
      simp only [SendTask.begin, run]
      rcases waiting : after.backlog with _ | ⟨entry, backlog⟩
      · exact ⟨entries, idle after⟩
      · rw [waiting] at entries
        refine ⟨fun other mem => entries other (List.mem_cons_of_mem entry mem), ?_⟩
        intro other offered same
        cases same
        have fewer : (entry.invalidateRoutes canReach).routesSent.length ≤
            entry.routesSent.length := List.length_filter_le _ _
        exact (Nat.cast_le.mpr fewer).trans (entries entry List.mem_cons_self)
  · exact within

theorem Within.finish {redundancy : ℤ} {task : SendTask Server Message}
    (within : Within redundancy task) (limit : ℤ) : Within redundancy (task.finish limit) := by
  have ended : ∀ entry offered, task.attempt = some ⟨entry, offered⟩ →
      (entry.routesSent.length : ℤ) ≤ max 0 redundancy := by
    intro entry offered attempted
    have bound := within.attempted entry offered attempted
    omega
  have completed : ∀ entry offered, task.attempt = some ⟨entry, offered⟩ → Within redundancy
      { log := { task.log with complete := task.log.complete ++ [entry] } } := by
    intro entry offered attempted
    refine ⟨fun other mem => ?_, nofun⟩
    rw [← List.append_assoc, List.mem_append, List.mem_singleton] at mem
    rcases mem with mem | rfl
    · exact within.waiting other mem
    · exact ended _ offered attempted
  have putBack : ∀ entry offered, task.attempt = some ⟨entry, offered⟩ → Within redundancy
      { log := { task.log with backlog := task.log.backlog ++ [entry] } } := by
    intro entry offered attempted
    refine ⟨fun other mem => ?_, nofun⟩
    rw [List.append_assoc, List.mem_append, List.mem_append, List.mem_singleton] at mem
    rcases mem with mem | rfl | mem
    · exact within.waiting other (List.mem_append_left _ mem)
    · exact ended _ offered attempted
    · exact within.waiting other (List.mem_append_right _ mem)
  unfold SendTask.finish
  split
  next entry attempted =>
    split_ifs
    · exact completed entry none attempted
    · exact putBack entry none attempted
  next entry attempted =>
    split_ifs
    · exact completed entry (some []) attempted
    · exact putBack entry (some []) attempted
  next => exact within

/-! ### Watching the send task -/

variable [DecidableEq Server]

/-- The attempt after one step of the send task. -/
def watch (self : SendTask Server Message) (sending : Option (Sending Server Message)) :
    Step Server Message → Option (Sending Server Message)
  | .choose redundancy candidates shuffled =>
    match self.attempt with
    | some ⟨entry, none⟩ =>
      if shuffled.Perm (entry.targets candidates) then some { redundancy, entry } else sending
    | _ => sending
  | .offer outcome =>
    match self.attempt with
    | some ⟨_, some (target :: _)⟩ => sending.map (Sending.offer target outcome)
    | _ => sending
  | .add _ | .begin _ _ | .finish _ => sending

/-- The send task with its last attempt. -/
def watchMachine (Server Message : Type) [DecidableEq Server] :
    Machine (SendTask Server Message × Option (Sending Server Message)) (Step Server Message)
      (List (Retirement Server Message)) where
  init := ({}, none)
  step state step :=
    let (task, retired) := (machine Server Message).step state.1 step
    ((task, state.1.watch state.2 step), retired)

/-- Watching does not change the send task. -/
theorem run_watchMachine (steps : List (Step Server Message)) :
    ((watchMachine Server Message).run steps).1.1 = ((machine Server Message).run steps).1 := by
  induction steps using List.reverseRecOn with
  | nil => rfl
  | append_singleton steps step ih =>
      rw [Machine.run_concat, Machine.run_concat, Machine.record, Machine.record, ← ih]
      rfl

/-- The attempts of a run, each up to its end or to the end of the run. -/
def lastSending (steps : List (Step Server Message)) : Option (Sending Server Message) :=
  ((watchMachine Server Message).run steps).1.2

theorem lastSending_concat (steps : List (Step Server Message)) (step : Step Server Message) :
    lastSending (steps ++ [step]) =
      ((machine Server Message).run steps).1.watch (lastSending steps) step := by
  rw [lastSending, Machine.run_concat, Machine.record, ← run_watchMachine]
  rfl

/-- **The last attempt of a run** keeps to the limit, and the entry that is attempted records
exactly the routes over which it was posted. -/
structure KeepsLimit (steps : List (Step Server Message)) : Prop where
  limited : ∀ sending, lastSending steps = some sending → sending.Limited
  recorded : ∀ entry offered,
    ((machine Server Message).run steps).1.attempt = some ⟨entry, some offered⟩ →
      ∃ sending, lastSending steps = some sending ∧ entry = sending.recorded

/-- The candidates of an attempt are distinct. -/
def Step.Distinct : Step Server Message → Prop
  | .choose _ candidates _ => candidates.Nodup
  | .add _ | .begin _ _ | .offer _ | .finish _ => True

/-- **When an attempt keeps to the limit**: it is no less than the number of the live routes, or no
more dropboxes are without a route than the limit is below that number. -/
def Step.Limited (self : SendTask Server Message) : Step Server Message → Prop
  | .choose redundancy candidates shuffled => ∀ entry, self.attempt = some ⟨entry, none⟩ →
      shuffled.Perm (entry.targets candidates) →
      (entry.routesSent.length : ℤ) ≤ redundancy ∨
        ((entry.targets candidates).length : ℤ) ≤ entry.routesSent.length - redundancy
  | .add _ | .begin _ _ | .offer _ | .finish _ => True

/-! ### One step -/

/-- The dropboxes of an attempt are chosen. -/
theorem attempt_choose {self : SendTask Server Message} {entry : SendLogEntry Server Message}
    {candidates shuffled : List Server} (attempted : self.attempt = some ⟨entry, none⟩)
    (redundancy : ℤ) (perm : shuffled.Perm (entry.targets candidates)) :
    (self.choose redundancy candidates shuffled).attempt =
      some ⟨entry, some (pySlice shuffled 0 (entry.sendsRemaining redundancy))⟩ := by
  simp only [choose, attempted, if_pos perm]

/-- What holds of the send task and its last attempt. -/
structure Sound (state : SendTask Server Message × Option (Sending Server Message)) : Prop where
  limited : ∀ sending, state.2 = some sending → sending.Limited
  offering : ∀ entry offered, state.1.attempt = some ⟨entry, some offered⟩ →
    ∃ sending, state.2 = some sending ∧ entry = sending.recorded ∧ sending.Ahead offered

/-- The dropboxes that an attempt takes keep to the limit, where they are few enough. -/
theorem ahead_slice {redundancy : ℤ} {entry : SendLogEntry Server Message}
    {candidates shuffled : List Server} (distinct : candidates.Nodup)
    (perm : shuffled.Perm (entry.targets candidates))
    (few : (entry.routesSent.length : ℤ) ≤ redundancy ∨
      ((entry.targets candidates).length : ℤ) ≤ entry.routesSent.length - redundancy) :
    Sending.Ahead { redundancy, entry } (pySlice shuffled 0 (entry.sendsRemaining redundancy)) := by
  have part : (pySlice shuffled 0 (entry.sendsRemaining redundancy)).Sublist shuffled :=
    pySlice_sublist _ _ _
  have remaining := entry.sendsRemaining_eq redundancy
  refine ⟨?_, ?_, fun server mem => ?_⟩
  · rw [List.map_nil, List.nil_append, remaining, length_pySlice_le_iff, perm.length_eq]
    omega
  · exact (perm.nodup_iff.mpr (distinct.filter _)).sublist part
  · have target := perm.mem_iff.mp (part.mem mem)
    exact of_decide_eq_true (List.mem_filter.mp target).2

/-- **One step** of the send task, whose candidates are distinct and few enough. -/
theorem Sound.step {state : SendTask Server Message × Option (Sending Server Message)}
    (sound : Sound state) {step : Step Server Message} (distinct : step.Distinct)
    (limited : step.Limited state.1) : Sound ((watchMachine Server Message).step state step).1 := by
  obtain ⟨self, last⟩ := state
  cases step with
  | add message => exact ⟨sound.limited, sound.offering⟩
  | begin pass canReach =>
      exact ⟨sound.limited, fun entry offered attempted =>
        sound.offering entry offered (attempt_begin attempted)⟩
  | finish redundancy =>
      exact ⟨sound.limited, fun entry offered attempted =>
        sound.offering entry offered (attempt_finish attempted)⟩
  | choose redundancy candidates shuffled =>
      change Sound (self.choose redundancy candidates shuffled,
        self.watch last (.choose redundancy candidates shuffled))
      rcases waiting : self.attempt with _ | ⟨entry, _ | offered⟩
      · simpa only [choose, watch, waiting] using sound
      · simp only [choose, watch, waiting]
        by_cases perm : shuffled.Perm (entry.targets candidates)
        · have ahead := ahead_slice distinct perm (limited entry waiting perm)
          rw [if_pos perm, if_pos perm]
          refine ⟨fun sending same => ?_, fun entry' offered same => ?_⟩
          · obtain rfl := Option.some.inj same
            exact ahead.limited
          · cases same
            exact ⟨_, rfl, by simp [Sending.recorded], ahead⟩
        · rw [if_neg perm, if_neg perm]
          exact sound
      · simpa only [choose, watch, waiting] using sound
  | offer outcome =>
      change Sound (self.offer outcome, self.watch last (.offer outcome))
      simp only [watch]
      split
      next entry target offered attempted =>
        obtain ⟨sending, found, recorded, ahead⟩ := sound.offering _ _ attempted
        obtain rfl : last = some sending := found
        have rest : (left offered outcome).Sublist offered := by
          cases outcome <;> simp [left]
        have later := (ahead.offer outcome).of_sublist rest
        refine ⟨fun other same => ?_, fun entry' offered' same => ?_⟩
        · obtain rfl := Option.some.inj same
          exact later.limited
        · rw [attempt_offer attempted] at same
          cases same
          refine ⟨_, rfl, ?_, later⟩
          rw [recorded, ← Sending.recorded_offer]
          rfl
      next none =>
        rw [offer_of_not none]
        exact sound

/-! ### Runs -/

/-- **A run** whose attempts have few enough candidates is sound. -/
theorem sound_run {steps : List (Step Server Message)}
    (admits : (machine Server Message).Admits
      (fun task _ step => step.Distinct ∧ step.Limited task) steps) :
    Sound ((watchMachine Server Message).run steps).1 := by
  induction steps using List.reverseRecOn with
  | nil => exact ⟨nofun, nofun⟩
  | append_singleton steps step ih =>
      obtain ⟨before, distinct, limited⟩ := (machine Server Message).admits_concat.mp admits
      rw [Machine.run_concat, Machine.record]
      rw [← run_watchMachine] at limited
      exact (ih before).step distinct limited

theorem KeepsLimit.of_sound {steps : List (Step Server Message)}
    (sound : Sound ((watchMachine Server Message).run steps).1) : KeepsLimit steps := by
  refine ⟨sound.limited, fun entry offered attempted => ?_⟩
  rw [← run_watchMachine] at attempted
  obtain ⟨sending, last, recorded, -⟩ := sound.offering entry offered attempted
  exact ⟨sending, last, recorded⟩


/-- The steps in which an entry is posted to some dropboxes. -/
def postings (offered : List Server) : List (Step Server Message) :=
  (offered.map fun _ => Offer.posted [] 0).map Step.offer

/-- **Where every dropbox ahead is posted to**, sending was started to all of them. -/
theorem started_postings {steps : List (Step Server Message)}
    {entry : SendLogEntry Server Message} {offered : List Server}
    {sending : Sending Server Message}
    (attempted : ((machine Server Message).run steps).1.attempt = some ⟨entry, some offered⟩)
    (last : lastSending steps = some sending) :
    ∃ final, lastSending (steps ++ postings offered) = some final ∧
      final.redundancy = sending.redundancy ∧ final.entry = sending.entry ∧
      final.started = sending.started ++ offered := by
  induction offered generalizing steps entry sending with
  | nil => exact ⟨sending, by simpa [postings] using last, rfl, rfl, (List.append_nil _).symm⟩
  | cons target offered ih =>
      have split : steps ++ postings (target :: offered) =
          steps ++ [.offer (.posted [] 0)] ++ postings offered := by simp [postings]
      have next : lastSending (steps ++ [.offer (.posted [] 0)]) =
          some (sending.offer target (.posted [] 0)) := by
        rw [lastSending_concat, last]
        simp only [watch, attempted, Option.map_some]
      have attempt : ((machine Server Message).run
          (steps ++ [.offer (.posted [] 0)])).1.attempt =
          some ⟨entry.sent ⟨[], target, 0⟩, some offered⟩ := by
        rw [Machine.run_concat]
        exact attempt_offer attempted (.posted [] 0)
      obtain ⟨final, found, limit, entries, started⟩ := ih attempt next
      refine ⟨final, by rw [split, found], limit, entries, ?_⟩
      rw [started]
      simp [Sending.started, Sending.offer, Offer.started]

/-- **An attempt with too few sends remaining** starts more of them than it should, where every
dropbox is posted to. -/
theorem limited_of_keeps {steps : List (Step Server Message)} {step : Step Server Message}
    (keeps : ∀ outcomes : List (Offer Server),
      KeepsLimit (steps ++ [step] ++ outcomes.map Step.offer)) :
    step.Limited ((machine Server Message).run steps).1 := by
  cases step with
  | choose redundancy candidates shuffled =>
      intro entry attempted perm
      have next : lastSending (steps ++ [.choose redundancy candidates shuffled]) =
          some { redundancy, entry } := by
        rw [lastSending_concat]
        simp only [watch, attempted, if_pos perm]
      have attempt : ((machine Server Message).run
          (steps ++ [.choose redundancy candidates shuffled])).1.attempt =
          some ⟨entry, some (pySlice shuffled 0 (entry.sendsRemaining redundancy))⟩ := by
        rw [Machine.run_concat]
        exact attempt_choose attempted redundancy perm
      obtain ⟨final, found, limit, entries, started⟩ := started_postings attempt next
      have few := ((keeps _).limited final found).few
      have remaining := entry.sendsRemaining_eq redundancy
      rw [started, limit, entries, ← remaining] at few
      have slice := (length_pySlice_le_iff shuffled (entry.sendsRemaining redundancy)).mp few
      rw [← perm.length_eq]
      omega
  | add _ | begin _ _ | offer _ | finish _ => trivial

/-! ### The routes of an entry while the limit stays the same -/

/-- The limit is the same at every attempt. -/
def Step.Constant (redundancy : ℤ) : Step Server Message → Prop
  | .choose limit _ _ => limit = redundancy
  | .add _ | .begin _ _ | .offer _ | .finish _ => True

/-- **One step with the same limit** keeps the routes of all entries within it. -/
theorem Within.step {redundancy : ℤ} {task : SendTask Server Message}
    (within : Within redundancy task) {step : Step Server Message}
    (constant : step.Constant redundancy) (limited : 0 ≤ redundancy ∨ step.Limited task) :
    Within redundancy ((machine Server Message).step task step).1 := by
  cases step with
  | add message =>
      refine ⟨fun entry mem => ?_, within.attempted⟩
      change entry ∈ (task.log.backlog ++ [⟨message, []⟩]) ++ task.log.complete at mem
      rw [List.append_assoc, List.mem_append, List.mem_append, List.mem_singleton] at mem
      rcases mem with mem | rfl | mem
      · exact within.waiting entry (List.mem_append_left _ mem)
      · simp
      · exact within.waiting entry (List.mem_append_right _ mem)
  | begin pass canReach => exact within.begin pass canReach
  | finish limit => exact within.finish limit
  | choose limit candidates shuffled =>
      obtain rfl : limit = redundancy := constant
      change Within limit (task.choose limit candidates shuffled)
      unfold choose
      split
      next entry attempted =>
        by_cases perm : shuffled.Perm (entry.targets candidates)
        · rw [if_pos perm]
          refine ⟨within.waiting, fun other offered same => ?_⟩
          cases same
          have few := within.attempted entry none attempted
          have remaining := entry.sendsRemaining_eq limit
          have taken : ((pySlice shuffled 0 (entry.sendsRemaining limit)).length : ℤ) ≤
              max 0 (entry.sendsRemaining limit) := by
            rw [length_pySlice_le_iff, perm.length_eq]
            rcases limited with pos | limited
            · simp only [Option.getD_none, List.length_nil] at few
              omega
            · have enough := limited entry attempted perm
              omega
          simp only [Option.getD_none, List.length_nil, Option.getD_some] at few ⊢
          omega
        · rw [if_neg perm]
          exact within
      next => exact within
  | offer outcome =>
      change Within redundancy (task.offer outcome)
      by_cases next : ∃ entry target offered,
        task.attempt = some ⟨entry, some (target :: offered)⟩
      · obtain ⟨entry, target, offered, attempted⟩ := next
        have few := within.attempted entry _ attempted
        have log : (task.offer outcome).log = task.log := by
          unfold offer
          rw [attempted]
          cases outcome <;> rfl
        refine ⟨by rw [log]; exact within.waiting, fun other rest same => ?_⟩
        rw [attempt_offer attempted] at same
        cases same
        cases outcome with
        | noRoute | notPosted | posted _ _ | raised =>
            simp only [Option.getD_some, List.length_cons, Offer.route?, left, Option.toList_none,
              Option.toList_some, List.length_append, List.length_nil] at few ⊢
            omega
      · rw [offer_of_not fun entry target offered attempted =>
          next ⟨entry, target, offered, attempted⟩]
        exact within

/-- **A run with the same limit** keeps the routes of all entries within it. -/
theorem Within.run {redundancy : ℤ} {before : List (Step Server Message)}
    (within : Within redundancy ((machine Server Message).run before).1)
    {after : List (Step Server Message)} (constant : ∀ step ∈ after, step.Constant redundancy)
    (limited : 0 ≤ redundancy ∨ (machine Server Message).Admits
      (fun task _ step => step.Limited task) (before ++ after)) :
    Within redundancy ((machine Server Message).run (before ++ after)).1 := by
  induction after using List.reverseRecOn with
  | nil => rwa [List.append_nil]
  | append_singleton after step ih =>
      rw [← List.append_assoc] at limited ⊢
      rw [Machine.run_concat]
      rw [(machine Server Message).admits_concat] at limited
      have earlier := ih (fun step mem => constant step (List.mem_append_left _ mem))
        (limited.imp_right And.left)
      exact earlier.step (constant step (by simp)) (limited.imp_right And.right)

theorem within_init (redundancy : ℤ) :
    Within redundancy ((machine Server Message).run []).1 :=
  ⟨nofun, nofun⟩

/-- **A limit that stays the same** is never below the number of the live routes. -/
theorem admits_of_constant {redundancy : ℤ} (pos : 0 ≤ redundancy)
    {steps : List (Step Server Message)} (constant : ∀ step ∈ steps, step.Constant redundancy) :
    (machine Server Message).Admits (fun task _ step => step.Limited task) steps := by
  rintro before step after rfl
  have start : Within redundancy ((machine Server Message).run []).1 := within_init redundancy
  have within := start.run
    (fun step mem => constant step (List.mem_append_left _ mem)) (.inl pos)
  have same := constant step (by simp)
  cases step with
  | choose limit candidates shuffled =>
      obtain rfl : limit = redundancy := same
      intro entry attempted _
      have few := within.attempted entry none attempted
      simp only [Option.getD_none, List.length_nil] at few
      omega
  | add _ | begin _ _ | offer _ | finish _ => trivial

/-- A run with few enough candidates keeps to the limit. -/
theorem keepsLimit_run {steps : List (Step Server Message)}
    (distinct : ∀ step ∈ steps, step.Distinct)
    (admits : (machine Server Message).Admits (fun task _ step => step.Limited task) steps)
    (outcomes : List (Offer Server)) : KeepsLimit (steps ++ outcomes.map Step.offer) := by
  refine KeepsLimit.of_sound (sound_run ?_)
  induction outcomes using List.reverseRecOn with
  | nil =>
      rintro before step after split
      rw [List.map_nil, List.append_nil] at split
      exact ⟨distinct step (by simp [split]), admits before step after split⟩
  | append_singleton outcomes outcome ih =>
      rw [List.map_append, ← List.append_assoc]
      exact (machine Server Message).admits_concat.mpr ⟨ih, trivial, trivial⟩

/-- **Sending keeps to the limit** in a run, whatever becomes of the dropboxes, exactly when at
every attempt the limit is no less than the number of the live routes, or no more dropboxes are
without a route than the limit is below that number. While the limit stays the same, no entry has
more live routes than that. -/
theorem limit_iff (steps : List (Step Server Message)) (distinct : ∀ step ∈ steps, step.Distinct) :
    ((machine Server Message).Admits (fun task _ step => step.Limited task) steps ↔
        ∀ (before after : List (Step Server Message)) (outcomes : List (Offer Server)),
          steps = before ++ after → KeepsLimit (before ++ outcomes.map Step.offer)) ∧
      ∀ (redundancy : ℤ) (before after : List (Step Server Message)), steps = before ++ after →
        Within redundancy ((machine Server Message).run before).1 →
        (∀ step ∈ after, step.Constant redundancy) →
        0 ≤ redundancy ∨
          (machine Server Message).Admits (fun task _ step => step.Limited task) steps →
        Within redundancy ((machine Server Message).run steps).1 := by
  constructor
  · constructor
    · rintro admits before after outcomes rfl
      refine keepsLimit_run (fun step mem => distinct step (List.mem_append_left _ mem)) ?_ outcomes
      rintro early step late rfl
      exact admits early step (late ++ after) (by simp)
    · rintro keeps before step after rfl
      exact limited_of_keeps fun outcomes => keeps (before ++ [step]) after outcomes (by simp)
  · rintro redundancy before after rfl within constant limited
    exact within.run constant limited

/-- A message that is posted over two of three routes, and attempted again with a limit of one. -/
def loweredLimit : List (Step ℕ Unit) :=
  [.add (), .begin ⟨3, 60, fun _ _ => true, fun _ => 0⟩ fun _ => true,
    .choose 3 [0, 1, 2, 3, 4] [0, 1, 2, 3, 4], .offer (.posted [5] 0), .offer (.posted [6] 0),
    .offer .notPosted, .finish 3, .begin ⟨1, 60, fun _ _ => true, fun _ => 0⟩ fun _ => true,
    .choose 1 [0, 1, 2, 3, 4] [2, 3, 4], .offer (.posted [5] 0), .offer (.posted [6] 0)]

/-- A message with a limit that stays. -/
def stayingLimit : List (Step ℕ Unit) := loweredLimit.take 7

/-- Its attempt keeps to the limit, and so do its routes. -/
theorem staying_limited : KeepsLimit stayingLimit ∧
    Within 3 ((machine ℕ Unit).run stayingLimit).1 := by
  have distinct : ∀ step ∈ stayingLimit, step.Distinct := by
    simp [stayingLimit, loweredLimit, Step.Distinct]
  have constant : ∀ step ∈ stayingLimit, step.Constant 3 := by
    simp [stayingLimit, loweredLimit, Step.Constant]
  obtain ⟨keeps, routes⟩ := limit_iff stayingLimit distinct
  have admits := admits_of_constant (by decide) constant
  exact ⟨by simpa using keeps.mp admits stayingLimit [] [] (List.append_nil _).symm,
    routes 3 [] stayingLimit rfl (within_init 3) constant (.inl (by decide))⟩

/-- **Where the limit was lowered** under the number of the live routes, sending is started to two
of the three other dropboxes, and should be to none. -/
theorem lowered_limit : ¬ KeepsLimit loweredLimit := by
  intro keeps
  have few := (keeps.limited _ rfl).few
  exact absurd few (by decide)

end SendTask

end Prism.Client
