import Prism.Lib.Machine
import Prism.Routing.Network

/-!
How long a flood takes (`send_flood_task` in `prism/server/routing/router_ls.py`, `Neighbor.dead`
and `dead_neighbors` in `prism/server/routing/neighborhood.py`).

The task of a flood starts a send to every neighbor that has not got the message, looks which ones
are left, sleeps, and goes on while there are some and it is not too late. Dead neighbors should not
be waited for. But `dead` has no `return True`, so that nothing is dead; and what is taken out of
the pseudonyms that are left are neighbors, which are no pseudonyms.

* `dead_ne_true`, `toSend_eq`: what is dead, and what is left.
* `flood_ends_iff`: when a neighbor is classified right, and when the loop ends as it should.
* `dead_neighbor_waited_for`: a flood that goes on for a dead neighbor.
-/

namespace Prism.Routing

open Prism.Lib

/-! ### Dead neighbors -/

/-- `DATE_MIN`: no message was received yet. -/
def dateMin : ℤ := 0

/-- `dead`, where `deadTimeout` is `ls_hello_timeout_ms * ls_alive_factor * ls_dead_factor`. The end
of the function is reached without a `return`. -/
def Neighbor.dead (self : Neighbor) (now timeout deadTimeout : ℤ) : Option Bool :=
  if self.online now timeout then some false
  else if self.lastReceived = dateMin then some false
  else if now - self.lastReceived < deadTimeout then some false
  else none

/-- **What is dead**: a neighbor that was heard from, is not online and has been silent for long
enough. -/
structure Neighbor.IsDead (neighbor : Neighbor) (now timeout deadTimeout : ℤ) : Prop where
  heard : neighbor.lastReceived ≠ dateMin
  offline : neighbor.online now timeout = false
  silent : deadTimeout ≤ now - neighbor.lastReceived

/-- Nothing is found to be dead. -/
theorem Neighbor.dead_ne_true (self : Neighbor) (now timeout deadTimeout : ℤ) :
    self.dead now timeout deadTimeout ≠ some true := by
  unfold dead
  split_ifs <;> simp

/-- **A neighbor is classified right** exactly when it is not dead. -/
theorem Neighbor.classified_iff (self : Neighbor) (now timeout deadTimeout : ℤ) :
    (self.dead now timeout deadTimeout = some true ↔ self.IsDead now timeout deadTimeout) ↔
      ¬ self.IsDead now timeout deadTimeout := by
  rw [iff_false_left (self.dead_ne_true now timeout deadTimeout)]

/-- What the task of a flood reads at some time. -/
structure FloodView where
  now : ℤ
  neighborhood : Neighborhood
  timeout : ℤ
  deadTimeout : ℤ
  floodTimeout : ℤ

/-- What stands in sets: pseudonyms, and neighbors. -/
inductive Element where
  | pseudonym (pseudonym : Bytes)
  | neighbor (neighbor : Neighbor)
deriving DecidableEq

namespace FloodView

variable (view : FloodView)

/-- `dead_neighbors`. -/
def deadNeighbors : List Neighbor :=
  (view.neighborhood.map Prod.snd).filter fun neighbor =>
    neighbor.dead view.now view.timeout view.deadTimeout = some true

/-- `neighbors.keys() - sent_to`. -/
def unsent (sentTo : List Bytes) : List Bytes :=
  (view.neighborhood.map Prod.fst).filter fun key => key ∉ sentTo

/-- `neighbors.keys() - sent_to - dead_neighbors`. -/
def toSend (sentTo : List Bytes) : List Bytes :=
  (view.unsent sentTo).filter fun key =>
    Element.pseudonym key ∉ view.deadNeighbors.map Element.neighbor

/-- Nothing is taken out for being dead. -/
theorem toSend_eq (sentTo : List Bytes) : view.toSend sentTo = view.unsent sentTo := by
  rw [toSend, List.filter_eq_self]
  intro key _
  simp

/-- Every neighbor has been sent the message or is dead. -/
def Settled (sentTo : List Bytes) : Prop :=
  ∀ e ∈ view.neighborhood, e.1 ∈ sentTo ∨ e.2.IsDead view.now view.timeout view.deadTimeout

/-- Every neighbor has been sent the message. -/
def AllSent (sentTo : List Bytes) : Prop := ∀ e ∈ view.neighborhood, e.1 ∈ sentTo

theorem toSend_eq_nil {sentTo : List Bytes} : view.toSend sentTo = [] ↔ view.AllSent sentTo := by
  rw [toSend_eq, unsent, List.filter_eq_nil_iff]
  simp [AllSent]

end FloodView

/-! ### The task -/

/-- `send_flood_task`, at its loop: when it started, the `sent_to` of the envelope, what is left and
the sends under way. -/
structure FloodTask where
  timeStart : ℤ
  sentTo : List Bytes
  toSend : List Bytes
  nowSending : List Bytes := []
  ended : Bool := false

namespace FloodTask

/-- The beginning of `send_flood_task`. -/
def start (view : FloodView) (sentTo : List Bytes) : FloodTask :=
  { timeStart := view.now, sentTo, toSend := view.unsent sentTo }

/-- The condition of the loop. -/
def goesOn (self : FloodTask) (view : FloodView) : Prop :=
  self.toSend ≠ [] ∧ view.now < self.timeStart + view.floodTimeout

instance (self : FloodTask) (view : FloodView) : Decidable (self.goesOn view) :=
  inferInstanceAs (Decidable (_ ∧ _))

/-- The condition of the loop, and its body up to the sleep. -/
def turn (self : FloodTask) (view : FloodView) : FloodTask :=
  if self.ended then self
  else if self.goesOn view then
    { self with
      nowSending := self.nowSending ++ self.toSend.filter fun target => target ∉ self.nowSending
      toSend := view.toSend self.sentTo }
  else { self with ended := true }

/-- The end of `flood_send_neighbor`, for a send under way. Nothing is under way after the loop. -/
def done (self : FloodTask) (target : Bytes) (sent : Bool) : FloodTask :=
  if self.ended ∨ target ∉ self.nowSending then self
  else
    { self with
      sentTo := if sent then self.sentTo ++ [target] else self.sentTo
      nowSending := self.nowSending.erase target }

/-- What happens to the task. -/
inductive Step where
  | turn (view : FloodView)
  | done (target : Bytes) (sent : Bool)

/-- **The task of a flood.** -/
def machine (view : FloodView) (sentTo : List Bytes) : Machine FloodTask Step Unit where
  init := start view sentTo
  step self step :=
    match step with
    | .turn view => (self.turn view, ())
    | .done target sent => (self.done target sent, ())

/-! ### Runs -/

/-- The ends of some sends. -/
def ends (outcomes : List (Bytes × Bool)) : List Step :=
  outcomes.map fun outcome => .done outcome.1 outcome.2

/-- **The loop ends as it should**: after a look at the neighbors that finds every one sent the
message or dead, the loop is left at its next check, whatever comes of the sends under way and
however early that is. -/
def EndsPromptly (view : FloodView) (sentTo : List Bytes) (steps : List Step) : Prop :=
  ∀ before look after, steps = before ++ .turn look :: after →
    look.Settled ((machine view sentTo).run before).1.sentTo →
    ∀ outcomes next, ((machine view sentTo).run
      (before ++ [.turn look] ++ ends outcomes ++ [.turn next])).1.ended = true

/-- **No neighbor is left that is dead**: where the loop goes on and every neighbor was sent the
message or is dead, every one was sent the message. -/
def Step.LeavesNoDead (task : FloodTask) : Step → Prop
  | .turn look => task.ended = false → task.goesOn look → look.Settled task.sentTo →
      look.AllSent task.sentTo
  | .done _ _ => True

/-- A loop without a neighbor left is over. -/
theorem ended_turn {task : FloodTask} (finished : task.ended = true ∨ task.toSend = [])
    (view : FloodView) : (task.turn view).ended = true := by
  unfold turn
  split_ifs with ended on
  · exact ended
  · exact absurd (finished.resolve_left ended) on.1
  · rfl

section Run

variable {view : FloodView} {sentTo : List Bytes}

/-- The ends of sends change neither what is left nor the end of the loop. -/
theorem run_ends (steps : List Step) (outcomes : List (Bytes × Bool)) :
    ((machine view sentTo).run (steps ++ ends outcomes)).1.toSend =
        ((machine view sentTo).run steps).1.toSend ∧
      ((machine view sentTo).run (steps ++ ends outcomes)).1.ended =
        ((machine view sentTo).run steps).1.ended := by
  induction outcomes using List.reverseRecOn with
  | nil => simp [ends]
  | append_singleton outcomes outcome ih =>
      have split : steps ++ ends (outcomes ++ [outcome]) =
          steps ++ ends outcomes ++ [.done outcome.1 outcome.2] := by simp [ends]
      rw [split, Machine.run_concat]
      change (done _ _ _).toSend = _ ∧ (done _ _ _).ended = _
      unfold done
      split_ifs <;> exact ih

/-- **One turn** that finds everything settled. -/
theorem ends_iff (before : List Step) (look : FloodView)
    (settled : look.Settled ((machine view sentTo).run before).1.sentTo) :
    (∀ outcomes next, ((machine view sentTo).run
        (before ++ [.turn look] ++ ends outcomes ++ [.turn next])).1.ended = true) ↔
      Step.LeavesNoDead ((machine view sentTo).run before).1 (.turn look) := by
  set task := ((machine view sentTo).run before).1 with htask
  have after : ((machine view sentTo).run (before ++ [.turn look])).1 = task.turn look := by
    rw [Machine.run_concat]
    rfl
  have last : ∀ outcomes next, ((machine view sentTo).run
      (before ++ [.turn look] ++ ends outcomes ++ [.turn next])).1 =
      ((machine view sentTo).run (before ++ [.turn look] ++ ends outcomes)).1.turn next := by
    intro outcomes next
    rw [Machine.run_concat]
    rfl
  constructor
  · intro finished running on _
    by_contra some
    have left : look.toSend task.sentTo ≠ [] := fun none => some (look.toSend_eq_nil.mp none)
    have ended := finished [] look
    rw [last, ends, List.map_nil, List.append_nil, after] at ended
    -- the loop is checked again at the time of its look, and something is left
    have notEnded : ¬ task.ended = true := by simp [running]
    have again : (task.turn look).goesOn look := by
      rw [turn, if_neg notEnded, if_pos on]
      exact ⟨left, on.2⟩
    have still : ¬ (task.turn look).ended = true := by
      rw [turn, if_neg notEnded, if_pos on]
      exact notEnded
    rw [turn, if_neg still, if_pos again] at ended
    exact still ended
  · intro leaves outcomes next
    obtain ⟨toSend, ended⟩ := @run_ends view sentTo (before ++ [.turn look]) outcomes
    rw [after] at toSend ended
    rw [last]
    refine ended_turn ?_ next
    rw [toSend, ended]
    unfold turn
    split_ifs with done on
    · exact .inl done
    · exact .inr (look.toSend_eq_nil.mpr (leaves (by simpa using done) on settled))
    · exact .inl rfl

end Run

/-- **Dead neighbors and floods.** A neighbor is classified right exactly when it is not dead. The
loop of a flood ends as it should in a run exactly when it never goes on with all neighbors sent the
message or dead, but not all of them sent it. -/
theorem flood_ends_iff (view : FloodView) (sentTo : List Bytes) (steps : List Step) :
    (∀ (neighbor : Neighbor) (now timeout deadTimeout : ℤ),
      (neighbor.dead now timeout deadTimeout = some true ↔
          neighbor.IsDead now timeout deadTimeout) ↔
        ¬ neighbor.IsDead now timeout deadTimeout) ∧
    (EndsPromptly view sentTo steps ↔
      (machine view sentTo).Admits (fun task _ step => step.LeavesNoDead task) steps) := by
  refine ⟨Neighbor.classified_iff, fun prompt => ?_, fun admits => ?_⟩
  · intro before step after split
    cases step with
    | turn look =>
        intro running on settled
        exact (ends_iff before look settled).mp (prompt before look after split settled)
          running on settled
    | done target sent => trivial
  · intro before look after split settled
    exact (ends_iff before look settled).mpr (admits before (.turn look) after split)

/-! ### A neighbor that has gone silent -/

/-- Two neighbors, the second of which was last heard from long ago. -/
def silentNeighbor : FloodView where
  now := 100
  neighborhood := [([1], ⟨[1], [true], 99⟩), ([2], ⟨[2], [true], 1⟩)]
  timeout := 10
  deadTimeout := 30
  floodTimeout := 60

/-- A flood that was sent to the first one. -/
def sentToFirst : List Step := [.turn silentNeighbor, .done [1] true, .turn silentNeighbor]

/-- **A dead neighbor is waited for**: it is not found to be dead, and the loop goes on although the
other neighbor was sent the message. -/
theorem dead_neighbor_waited_for :
    Neighbor.IsDead ⟨[2], [true], 1⟩ 100 10 30 ∧
      Neighbor.dead ⟨[2], [true], 1⟩ 100 10 30 ≠ some true ∧
      ¬ EndsPromptly silentNeighbor [] sentToFirst := by
  have dead : Neighbor.IsDead ⟨[2], [true], 1⟩ 100 10 30 := ⟨by decide, by decide, by decide⟩
  refine ⟨dead, by decide, fun prompt => ?_⟩
  have settled : silentNeighbor.Settled
      ((machine silentNeighbor []).run [.turn silentNeighbor, .done [1] true]).1.sentTo := by
    intro e mem
    rcases List.mem_pair.mp mem with rfl | rfl
    · exact .inl (by decide)
    · exact .inr dead
  have ended := prompt _ silentNeighbor [] rfl settled [] silentNeighbor
  exact absurd ended (by decide)

end FloodTask

end Prism.Routing
