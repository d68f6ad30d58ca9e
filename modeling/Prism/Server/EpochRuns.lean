import Prism.Server.Epochs

/-!
What commands make of the epochs of a server, over its whole life
(`prism/server/newserver.py`, `prism/server/epoch/epoch.py`).

OFF shuts an epoch down and leaves its state as it was, so the next NEXT advances an epoch that
has ended. NEW with the name of an epoch that has not ended takes its place in the table. NEXT
ends an epoch whose run still loads its links without cancelling that run. A run of the server
whose steps avoid these three keeps its epochs in order.

* `PrismServer.epochs_end_for_good`: over careful runs, epochs only move forward, end for good
  and stay within reach.
* `PrismServer.off_epoch_advances`: after OFF, an epoch still advances.
-/

namespace Prism.Server

open Prism.Lib

/-! ### One epoch -/

namespace Epoch

/-- Nothing of the epoch runs any more. -/
def Idle (e : Epoch) : Prop := ∀ phase ∈ e.runs, phase = .ended

/-- What holds of an epoch at any time. -/
structure Sound (e : Epoch) : Prop where
  off_of_shut : e.shut = true → e.state = .off
  idle_of_off : e.state = .off → e.Idle
  fresh : e.state = .preRun ∨ e.start = .pending → e.runs = []
  /-- It runs at most once, and its scope is that of its run. -/
  runs : e.runs = [] ∨ ∃ phase, e.runs = [phase] ∧ (phase = .main → e.runScope = some 0)

/-- An epoch moved forward by at most one state, and did not open its transport again. -/
structure Forward (e e' : Epoch) : Prop where
  name : e'.name = e.name
  state : e'.state = e.state ∨ e.state.Next e'.state
  shut : e.shut = true → e'.shut = true

theorem Forward.refl (e : Epoch) : e.Forward e := ⟨rfl, .inl rfl, id⟩

/-- An epoch that ended stays where it is. -/
theorem Forward.off {e e' : Epoch} (forward : e.Forward e') (off : e.state = .off) :
    e'.state = .off := by
  rcases forward.state with same | next
  · rw [same, off]
  · rw [off] at next
    cases next

/-- The epoch may be advanced: it does not end while it loads its links, and does not run before
it has started. -/
structure Ready (e : Epoch) : Prop where
  of_handoff : e.state = .handoff → ∀ phase ∈ e.runs, phase = .main ∨ phase = .ended
  of_preRun : e.state = .preRun → e.start ≠ .pending

variable {e : Epoch}

theorem Sound.open_of_ne (sound : e.Sound) (ne : e.state ≠ .off) : e.shut = false :=
  Bool.eq_false_iff.mpr fun shut => ne (sound.off_of_shut shut)

/-- Shutting an epoch down ends its run, if that run is inside its scope. -/
theorem Sound.idle_shutdown (sound : e.Sound)
    (entered : ∀ phase ∈ e.runs, phase = .main ∨ phase = .ended) : e.shutdown.Idle := by
  intro phase mem
  rw [shutdown] at mem
  dsimp only at mem
  rcases sound.runs with runs | ⟨only, runs, scope⟩
  · cases found : e.runScope <;> simp [runs, found] at mem
  · rcases entered only (by rw [runs]; exact List.mem_singleton_self _) with rfl | rfl
    · rw [scope rfl, runs] at mem
      exact List.mem_singleton.mp mem
    · rcases found : e.runScope with _ | k
      · rw [found, runs] at mem
        exact List.mem_singleton.mp mem
      · rw [found, runs] at mem
        rcases List.mem_or_eq_of_mem_set mem with old | new
        · exact List.mem_singleton.mp old
        · exact new

/-- A shutdown ends runs; it starts none. -/
theorem Sound.runs_shutdown (sound : e.Sound) :
    e.shutdown.runs = [] ∨
      ∃ phase, e.shutdown.runs = [phase] ∧ (phase = .main → e.shutdown.runScope = some 0) := by
  rw [shutdown]
  dsimp only
  rcases sound.runs with runs | ⟨only, runs, scope⟩
  · exact .inl (by cases e.runScope <;> simp [runs])
  · right
    rcases found : e.runScope with _ | k
    · exact ⟨only, runs, found ▸ scope⟩
    · rcases k with _ | k
      · exact ⟨.ended, by simp [runs], fun main => nomatch main⟩
      · exact ⟨only, by simp [runs], found ▸ scope⟩

/-- **NEXT keeps a ready epoch sound**: when it ends, its run is cancelled. -/
theorem Sound.nextState (sound : e.Sound) (ready : e.Ready) : e.nextState.Sound := by
  rw [Epoch.nextState]
  rcases state : e.state
  case preRun =>
    have runs := sound.fresh (.inl state)
    have opened := sound.open_of_ne (by simp [state])
    exact
      { off_of_shut := fun shut => absurd (opened ▸ shut) Bool.false_ne_true
        idle_of_off := fun off => nomatch off
        fresh := fun fresh => absurd (fresh.resolve_left (nomatch ·)) (ready.of_preRun state)
        runs := .inr ⟨.scheduled, by simp [runs], fun main => nomatch main⟩ }
  case running =>
    have opened := sound.open_of_ne (by simp [state])
    exact
      { off_of_shut := fun shut => absurd (opened ▸ shut) Bool.false_ne_true
        idle_of_off := fun off => nomatch off
        fresh := fun fresh => sound.fresh (.inr (fresh.resolve_left (nomatch ·)))
        runs := sound.runs }
  case handoff =>
    exact
      { off_of_shut := fun _ => rfl
        idle_of_off := fun _ => sound.idle_shutdown (ready.of_handoff state)
        fresh := fun fresh => by
          have runs := sound.fresh (.inr (fresh.resolve_left (nomatch ·)))
          cases e.runScope <;> simp [shutdown, runs]
        runs := sound.runs_shutdown }
  case off => exact sound

theorem forward_nextState (e : Epoch) : e.Forward e.nextState := by
  rw [Epoch.nextState]
  rcases state : e.state
  case preRun => exact ⟨rfl, .inr (by rw [state]; exact .run), id⟩
  case running => exact ⟨rfl, .inr (by rw [state]; exact .handOff), id⟩
  case handoff => exact ⟨rfl, .inr (by rw [state]; exact .finish), fun _ => rfl⟩
  case off => exact .refl e

theorem forward_shutdown (e : Epoch) : e.Forward e.shutdown :=
  ⟨rfl, .inl rfl, fun _ => rfl⟩

/-- OFF keeps an epoch sound that has ended already. -/
theorem Sound.shutdown (sound : e.Sound) (off : e.state = .off) : e.shutdown.Sound where
  off_of_shut _ := off
  idle_of_off _ := sound.idle_shutdown fun phase mem => .inr (sound.idle_of_off off phase mem)
  fresh fresh := by
    have runs : e.runs = [] := sound.fresh fresh
    cases scope : e.runScope <;> simp [Epoch.shutdown, runs, scope]
  runs := sound.runs_shutdown

/-! ### Tasks of one epoch -/

/-- A run that has not ended is the only one, and its epoch is not `OFF`. -/
theorem Sound.at_place (sound : e.Sound) {k : ℕ} {phase : RunPhase}
    (here : e.runs[k]? = some phase) (goesOn : phase ≠ .ended) :
    k = 0 ∧ e.runs = [phase] ∧ e.state ≠ .off := by
  have mem := List.mem_of_getElem? here
  rcases sound.runs with runs | ⟨only, runs, -⟩
  · rw [runs] at mem
    cases mem
  · rw [runs] at mem
    obtain rfl := List.mem_singleton.mp mem
    refine ⟨?_, runs, fun off => goesOn (sound.idle_of_off off phase (List.mem_of_getElem? here))⟩
    have bound := (List.getElem?_eq_some_iff.mp here).1
    rw [runs, List.length_singleton] at bound
    omega

/-- The only run of an epoch that is not `OFF` may go on to any phase that does not need the
scope, and to `main` with its scope. -/
theorem Sound.goOn (sound : e.Sound) {old new : RunPhase} {scope : Option ℕ}
    (one : e.runs = [old]) (ne : e.state ≠ .off) (entered : new = .main → scope = some 0) :
    ({ e with runs := [new], runScope := scope } : Epoch).Sound where
  off_of_shut := sound.off_of_shut
  idle_of_off off := absurd off ne
  fresh fresh := absurd (sound.fresh fresh) (by simp [one])
  runs := .inr ⟨new, rfl, entered⟩

theorem Sound.enters (sound : e.Sound) {phase : RunPhase} (one : e.runs = [phase])
    (ne : e.state ≠ .off) : (e.enters 0).Sound := by
  rw [Epoch.enters, one]
  exact sound.goOn one ne fun _ => rfl

theorem Sound.begins (sound : e.Sound) (one : e.runs = [.scheduled]) (ne : e.state ≠ .off) :
    (e.begins 0).Sound := by
  rw [Epoch.begins]
  split_ifs with loads
  · rw [one]
    exact @Sound.goOn e sound _ .loading e.runScope one ne fun main => nomatch main
  · exact sound.enters one ne

theorem forward_begins (e : Epoch) (k : ℕ) : e.Forward (e.begins k) := by
  rw [Epoch.begins]
  split_ifs
  · exact ⟨rfl, .inl rfl, id⟩
  · exact ⟨rfl, .inl rfl, id⟩

/-- `Epoch.start` begins once, when its epoch has no run yet. -/
theorem Sound.starts (sound : e.Sound) (pending : e.start = .pending) : e.starts.Sound := by
  have runs := sound.fresh (.inr pending)
  rw [Epoch.starts]
  split
  case h_1 state =>
    exact
      { off_of_shut := sound.off_of_shut
        idle_of_off := sound.idle_of_off
        fresh := fun _ => runs
        runs := .inl runs }
  case h_2 state =>
    have begun : ({ e with start := .done, runs := [.scheduled] } : Epoch).Sound :=
      { off_of_shut := sound.off_of_shut
        idle_of_off := fun off => absurd (state.symm.trans off) (by decide)
        fresh := fun fresh => by simp [state] at fresh
        runs := .inr ⟨.scheduled, rfl, fun main => nomatch main⟩ }
    rw [runs]
    exact begun.begins rfl (by simp [state])
  case h_3 =>
    exact
      { off_of_shut := sound.off_of_shut
        idle_of_off := sound.idle_of_off
        fresh := fun _ => runs
        runs := .inl runs }

theorem forward_starts (e : Epoch) : e.Forward e.starts := by
  rw [Epoch.starts]
  split
  · exact ⟨rfl, .inl rfl, id⟩
  · have forward :=
      forward_begins { e with start := .done, runs := e.runs ++ [.scheduled] } e.runs.length
    exact ⟨forward.name, forward.state, forward.shut⟩
  · exact ⟨rfl, .inl rfl, id⟩

/-- **A task of an epoch keeps it sound.** -/
theorem Sound.goes (sound : e.Sound) (task : Task) : (e.goes task).Sound := by
  cases task with
  | starts =>
      rw [Epoch.goes]
      split_ifs with pending
      · exact sound.starts pending
      · exact sound
  | preRan =>
      rw [Epoch.goes]
      split_ifs with preRun
      · exact
          { off_of_shut := sound.off_of_shut
            idle_of_off := sound.idle_of_off
            fresh := fun fresh => sound.fresh (.inl (fresh.resolve_right (nomatch ·)))
            runs := sound.runs }
      · exact sound
  | runs k =>
      rw [Epoch.goes]
      split_ifs with here
      · obtain ⟨rfl, one, ne⟩ := sound.at_place here (by decide)
        exact sound.begins one ne
      · exact sound
  | loaded k =>
      rw [Epoch.goes]
      split_ifs with here
      · obtain ⟨rfl, one, ne⟩ := sound.at_place here (by decide)
        exact sound.enters one ne
      · exact sound
  | returns k =>
      rw [Epoch.goes]
      split_ifs with here
      · obtain ⟨rfl, one, ne⟩ := sound.at_place here (by decide)
        rw [one]
        exact @Sound.goOn e sound _ .ended e.runScope one ne fun main => nomatch main
      · exact sound

/-- A task does not change the state of its epoch. -/
theorem forward_goes (e : Epoch) (task : Task) : e.Forward (e.goes task) := by
  cases task with
  | starts =>
      rw [Epoch.goes]
      split_ifs
      · exact forward_starts e
      · exact .refl e
  | preRan =>
      rw [Epoch.goes]
      split_ifs
      · exact ⟨rfl, .inl rfl, id⟩
      · exact .refl e
  | runs k =>
      rw [Epoch.goes]
      split_ifs
      · exact forward_begins e k
      · exact .refl e
  | loaded k =>
      rw [Epoch.goes]
      split_ifs
      · exact ⟨rfl, .inl rfl, id⟩
      · exact .refl e
  | returns k =>
      rw [Epoch.goes]
      split_ifs
      · exact ⟨rfl, .inl rfl, id⟩
      · exact .refl e

end Epoch

/-! ### A server -/

namespace PrismServer

/-- What holds of a server at any time: of its epochs, and every epoch that is not `OFF` is the
one that the table has under its name. -/
structure Sound (s : PrismServer) : Prop where
  epochs : ∀ (i : ℕ) (e : Epoch), s.epochs[i]? = some e → e.Sound
  reachable : ∀ (i : ℕ) (e : Epoch), s.epochs[i]? = some e → e.state ≠ .off →
    s.table.lookup e.name = some i

/-- Every epoch moved forward by at most one state. -/
def Forward (s s' : PrismServer) : Prop :=
  ∀ (i : ℕ) (e : Epoch), s.epochs[i]? = some e → ∃ e', s'.epochs[i]? = some e' ∧ e.Forward e'

/-- **The condition on a step.** NEW does not take the name of an epoch that has not ended, NEXT
finds its targets ready, and OFF finds them `OFF`. -/
def Careful (s : PrismServer) : Event → Prop
  | .command command made => ¬ s.Diverted → command.commandType = .new → made.isSome →
      ∀ seed ∈ command.epochSeed, ∀ i ∈ s.table.lookup seed, ∀ e ∈ s.epochs[i]?, e.state = .off
  | .turn => ∀ i ∈ s.todo.2.head?, ∀ e ∈ s.epochs[i]?,
      (s.todo.1 = .next → e.Ready) ∧ (s.todo.1 = .off → e.state = .off)
  | _ => True

variable {s s' : PrismServer}

/-- What a step does to the epochs and their table is all that matters. -/
theorem Sound.of_same (sound : s.Sound) (epochs : s'.epochs = s.epochs)
    (table : s'.table = s.table) : s'.Sound ∧ s.Forward s' := by
  constructor
  · constructor
    · rw [epochs]
      exact sound.epochs
    · rw [epochs, table]
      exact sound.reachable
  · intro i e here
    exact ⟨e, epochs ▸ here, .refl e⟩

/-- An epoch may change in any way that keeps it sound and moves it forward. -/
theorem Sound.change (sound : s.Sound) {i : ℕ} {f : Epoch → Epoch}
    (keeps : ∀ e, s.epochs[i]? = some e → (f e).Sound) (forward : ∀ e : Epoch, e.Forward (f e)) :
    (s.change i f).Sound ∧ s.Forward (s.change i f) := by
  have moved (j : ℕ) (e : Epoch) (here : s.epochs[j]? = some e) :
      (s.change i f).epochs[j]? = some (if i = j then f e else e) := by
    rw [PrismServer.change, List.getElem?_modify, here]
    rfl
  have origin {j : ℕ} {e' : Epoch} (here : (s.change i f).epochs[j]? = some e') :
      ∃ e, s.epochs[j]? = some e ∧ e' = if i = j then f e else e := by
    rcases found : s.epochs[j]? with _ | e
    · rw [PrismServer.change, List.getElem?_modify, found] at here
      cases here
    · exact ⟨e, rfl, Option.some_inj.mp (here.symm.trans (moved j e found))⟩
  refine ⟨⟨fun j e' here => ?_, fun j e' here live => ?_⟩, fun j e here => ?_⟩
  · obtain ⟨e, before, rfl⟩ := origin here
    split_ifs with same
    · subst same
      exact keeps e before
    · exact sound.epochs j e before
  · obtain ⟨e, before, rfl⟩ := origin here
    split_ifs at live ⊢ with same
    · rw [(forward e).name]
      exact sound.reachable j e before fun off => live ((forward e).off off)
    · exact sound.reachable j e before live
  · refine ⟨_, moved j e here, ?_⟩
    split_ifs
    · exact forward e
    · exact .refl e

/-- A new epoch, whose name no epoch has that has not ended. -/
theorem Sound.launchEpoch (sound : s.Sound) {e : Epoch} (fresh : e.Sound)
    (free : ∀ i ∈ s.table.lookup e.name, ∀ old ∈ s.epochs[i]?, old.state = .off) :
    (s.launchEpoch e).Sound ∧ s.Forward (s.launchEpoch e) := by
  have split {i : ℕ} {e' : Epoch} (here : (s.launchEpoch e).epochs[i]? = some e') :
      s.epochs[i]? = some e' ∨ i = s.epochs.length ∧ e' = e := by
    rw [PrismServer.launchEpoch, List.getElem?_append] at here
    split_ifs at here with old
    · exact .inl here
    · rw [List.getElem?_singleton] at here
      split_ifs at here with last
      exact .inr ⟨by omega, (Option.some_inj.mp here).symm⟩
  refine ⟨⟨fun i e' here => ?_, fun i e' here live => ?_⟩, fun i e' here => ?_⟩
  · rcases split here with old | ⟨-, rfl⟩
    · exact sound.epochs i e' old
    · exact fresh
  · rw [PrismServer.launchEpoch, lookup_dictSet]
    rcases split here with old | ⟨rfl, rfl⟩
    · have found := sound.reachable i e' old live
      split_ifs with same
      · rw [same] at found
        exact absurd (free i found e' old) live
      · exact found
    · exact if_pos rfl
  · exact ⟨e', List.getElem?_append_left (List.getElem?_eq_some_iff.mp here).1 ▸ here, .refl e'⟩

/-- The epochs that a server makes have not been shut down, and do not run before they start. -/
theorem sound_fromSeed (s : PrismServer) (previous : Option ℕ) (seed : String) (client : Bool) :
    (s.fromSeed previous seed client).Sound ∧ (s.fromSeed previous seed client).name = seed := by
  have fresh {e : Epoch} (shut : e.shut = false) (ne : e.state ≠ .off) (runs : e.runs = []) :
      e.Sound :=
    { off_of_shut := fun h => absurd (shut ▸ h) Bool.false_ne_true
      idle_of_off := fun off => absurd off ne
      fresh := fun _ => runs
      runs := .inl runs }
  rw [fromSeed]
  split_ifs
  · exact ⟨fresh rfl (fun off => nomatch off) rfl, rfl⟩
  · exact ⟨fresh rfl (fun off => nomatch off) rfl, rfl⟩
  · exact ⟨fresh rfl (fun off => nomatch off) rfl, rfl⟩

theorem sound_boot (stored : List String) (currentEpoch : Option String) (client : Bool) :
    (boot stored currentEpoch client).Sound := by
  obtain ⟨fresh, -⟩ := sound_fromSeed { stored } none (currentEpoch.getD "genesis") client
  have empty : ({ stored } : PrismServer).Sound :=
    { epochs := fun i e here => nomatch here
      reachable := fun i e here => nomatch here }
  exact (empty.launchEpoch fresh fun i found => nomatch found).1

/-- **A command that is taken**: only NEW changes the epochs at once. -/
theorem Sound.obey (sound : s.Sound) {command : EpochCommand} {made : Option Bool}
    (careful : s.Careful (.command command made)) :
    (s.obey command made).Sound ∧ s.Forward (s.obey command made) := by
  unfold PrismServer.obey
  by_cases diverted : s.Diverted
  · rw [if_pos diverted]
    exact sound.of_same rfl rfl
  rw [if_neg diverted]
  split
  · exact sound.of_same rfl rfl
  split
  case h_1 commandType =>
    split
    case h_1 seed client chosen =>
      obtain ⟨fresh, name⟩ := s.sound_fromSeed (some s.current) seed client
      obtain ⟨launched, forward⟩ := sound.launchEpoch fresh (by
        rw [name]
        exact careful diverted commandType rfl seed chosen)
      exact ⟨⟨launched.epochs, launched.reachable⟩, forward⟩
    case h_2 => exact sound.of_same rfl rfl
  case h_2 =>
    split_ifs
    · exact sound.of_same rfl rfl
    · exact sound.of_same rfl rfl
  case h_3 => exact sound.of_same rfl rfl

/-- **A command that reaches a target.** -/
theorem Sound.turn (sound : s.Sound) (careful : s.Careful .turn) :
    s.turn.Sound ∧ s.Forward s.turn := by
  rw [PrismServer.turn]
  split
  case h_1 => exact sound.of_same rfl rfl
  case h_2 commandType i rest todo =>
    have ready := careful i (by rw [todo]; rfl)
    rw [todo] at ready
    obtain ⟨here, -⟩ := @Sound.of_same s { s with todo := (commandType, rest) } sound rfl rfl
    unfold reach
    split
    case h_1 =>
      exact here.change (fun e at_i => (here.epochs i e at_i).nextState ((ready e at_i).1 rfl))
        Epoch.forward_nextState
    case h_2 =>
      exact here.change (fun e at_i => (here.epochs i e at_i).shutdown ((ready e at_i).2 rfl))
        Epoch.forward_shutdown
    case h_3 =>
      split_ifs
      · exact sound.of_same rfl rfl
      · exact sound.of_same rfl rfl
    case h_4 => exact sound.of_same rfl rfl

theorem Sound.taskGoes (sound : s.Sound) (i : ℕ) (task : Epoch.Task) :
    (s.taskGoes i task).Sound ∧ s.Forward (s.taskGoes i task) := by
  rw [PrismServer.taskGoes]
  split
  · exact sound.of_same rfl rfl
  · obtain ⟨changed, forward⟩ := sound.change (i := i)
      (fun e here => (sound.epochs i e here).goes task) fun e => e.forward_goes task
    exact ⟨⟨changed.epochs, changed.reachable⟩, forward⟩

/-- **A careful step** keeps a server sound and moves its epochs forward. -/
theorem Sound.step (sound : s.Sound) {event : Event} (careful : s.Careful event) :
    (s.step event).Sound ∧ s.Forward (s.step event) := by
  unfold PrismServer.step
  by_cases died : s.died = true
  · rw [if_pos died]
    exact sound.of_same rfl rfl
  rw [if_neg died]
  cases event with
  | command command made =>
      dsimp only
      split_ifs
      · exact sound.obey careful
      · exact sound.of_same rfl rfl
  | turn => exact sound.turn careful
  | task i task => exact sound.taskGoes i task
  | raises => exact sound.of_same rfl rfl
  | idle =>
      dsimp only
      split_ifs
      · exact sound.of_same rfl rfl
      · exact sound.of_same rfl rfl
  | slept =>
      dsimp only
      split_ifs
      · exact sound.of_same rfl rfl
      · exact sound.of_same rfl rfl

/-! ### Runs -/

/-- Every step of the run is careful. -/
def CarefulRun (init : PrismServer) (events : List Event) : Prop :=
  (machine init).Admits (fun s _ event => s.Careful event) events

/-- The server after some events. -/
def after (init : PrismServer) (events : List Event) : PrismServer := ((machine init).run events).1

@[simp] theorem after_nil (init : PrismServer) : init.after [] = init := rfl

@[simp] theorem after_concat (init : PrismServer) (events : List Event) (event : Event) :
    init.after (events ++ [event]) = (init.after events).step event := by
  rw [after, Machine.run_concat]
  rfl

theorem carefulRun_concat {init : PrismServer} {events : List Event} {event : Event} :
    CarefulRun init (events ++ [event]) ↔
      CarefulRun init events ∧ (init.after events).Careful event :=
  Machine.admits_concat _

/-- What was careful from the start to the end was careful up to any moment. -/
theorem CarefulRun.before {init : PrismServer} {events later : List Event}
    (careful : CarefulRun init (events ++ later)) : CarefulRun init events := by
  rintro before event rest rfl
  exact careful before event (rest ++ later) (by simp)

theorem Sound.run {init : PrismServer} (sound : init.Sound) {events : List Event}
    (careful : CarefulRun init events) : (init.after events).Sound :=
  (machine init).run_induction (P := fun s _ => s.Sound) sound
    (fun _ _ _ sound careful => (sound.step careful).1) careful

/-- An epoch at one moment and at a later one: it passed through its states in their order, and
if its transport was shut down, then it is `OFF` and nothing of it runs. -/
structure Passes (e e' : Epoch) : Prop where
  name : e'.name = e.name
  states : Relation.ReflTransGen EpochState.Next e.state e'.state
  shut : e.shut = true → e'.shut = true ∧ e'.state = .off ∧ e'.Idle

/-- What happened to the epochs of a server between two moments of a careful run. -/
theorem Sound.passes {init : PrismServer} (sound : init.Sound) {events : List Event}
    (later : List Event) (careful : CarefulRun init (events ++ later)) {i : ℕ} {e : Epoch}
    (here : (init.after events).epochs[i]? = some e) :
    ∃ e', (init.after (events ++ later)).epochs[i]? = some e' ∧ Passes e e' := by
  induction later using List.reverseRecOn with
  | nil =>
      rw [List.append_nil] at careful ⊢
      have now := (sound.run careful).epochs i e here
      exact ⟨e, here, rfl, .refl, fun shut =>
        ⟨shut, now.off_of_shut shut, now.idle_of_off (now.off_of_shut shut)⟩⟩
  | append_singleton later event ih =>
      rw [← List.append_assoc] at careful ⊢
      obtain ⟨before, step⟩ := carefulRun_concat.mp careful
      obtain ⟨e₁, there, passes⟩ := ih before
      obtain ⟨next, forward⟩ := (sound.run before).step step
      obtain ⟨e', at_end, moved⟩ := forward i e₁ there
      rw [after_concat]
      refine ⟨e', at_end, moved.name.trans passes.name, ?_, fun shut => ?_⟩
      · rcases moved.state with same | advanced
        · rw [same]
          exact passes.states
        · exact passes.states.tail advanced
      · have now := next.epochs i e' at_end
        have still := moved.shut (passes.shut shut).1
        exact ⟨still, now.off_of_shut still, now.idle_of_off (now.off_of_shut still)⟩

/-- **Epochs only move forward and end for good**, in a run of a server: a step takes an epoch at
most to its next state; between any two moments it passes through its states in order, and stays
`OFF` and idle once its transport was shut down; and the table has every epoch that is not
`OFF`. -/
def EndForGood (init : PrismServer) (events : List Event) : Prop :=
  ∀ before later : List Event, events = before ++ later →
    (∀ event ∈ later.head?, (init.after before).Forward ((init.after before).step event)) ∧
    (∀ (i : ℕ) (e : Epoch), (init.after before).epochs[i]? = some e →
      ∃ e', (init.after events).epochs[i]? = some e' ∧ Passes e e') ∧
    ∀ (i : ℕ) (e : Epoch), (init.after before).epochs[i]? = some e → e.state ≠ .off →
      (init.after before).table.lookup e.name = some i

/-- **Over careful runs, epochs end for good.** -/
theorem epochs_end_for_good (stored : List String) (currentEpoch : Option String) (client : Bool)
    {events : List Event} (careful : CarefulRun (boot stored currentEpoch client) events) :
    EndForGood (boot stored currentEpoch client) events := by
  have sound := sound_boot stored currentEpoch client
  rintro before later rfl
  refine ⟨fun event next => ?_, fun i e here => sound.passes later careful here,
    (sound.run careful.before).reachable⟩
  obtain ⟨rest, rfl⟩ := List.head?_eq_some_iff.mp next
  rw [List.append_cons] at careful
  obtain ⟨before, step⟩ := carefulRun_concat.mp careful.before
  exact ((sound.run before).step step).2

/-- The genesis runs, hands off to a second epoch and ends; OFF is for an epoch that has ended. -/
def exampleEvents : List Event :=
  [.idle, .task 0 .starts, .task 0 (.loaded 0), .slept,
   .command { commandType := .new, payload := ["e2"] } (some false),
   .task 1 .starts, .task 1 .preRan, .slept,
   .command { commandType := .next } none, .turn, .turn, .task 1 (.runs 0), .slept,
   .command { commandType := .next } none, .turn, .turn, .slept,
   .command { commandType := .off, targetEpochName := some "genesis" } none, .turn]

instance (e : Epoch) : Decidable e.Ready :=
  decidable_of_iff ((e.state = .handoff → ∀ phase ∈ e.runs, phase = .main ∨ phase = .ended) ∧
      (e.state = .preRun → e.start ≠ .pending))
    ⟨fun h => ⟨h.1, h.2⟩, fun h => ⟨h.of_handoff, h.of_preRun⟩⟩

instance (s : PrismServer) (event : Event) : Decidable (s.Careful event) := by
  cases event <;> unfold Careful <;> infer_instance

theorem genesis_ends : EndForGood (boot [] none false) exampleEvents := by
  exact epochs_end_for_good [] none false ((machine _).admits_iff_getElem.mpr (by decide))

/-- **After OFF, an epoch still advances**: it is shut down, and then it hands off. -/
theorem off_epoch_advances :
    ¬ EndForGood (boot [] none false)
      [.idle, .task 0 .starts, .task 0 (.loaded 0), .slept,
       .command { commandType := .off, targetEpochName := some "genesis" } none, .turn, .slept,
       .command { commandType := .next } none, .turn] := by
  intro ends
  obtain ⟨-, passes, -⟩ := ends _ [] (List.append_nil _).symm
  obtain ⟨e', here, passed⟩ := passes 0 _ rfl
  obtain rfl := Option.some_inj.mp here
  exact absurd (passed.shut rfl).2.1 (by decide)

end PrismServer

end Prism.Server
