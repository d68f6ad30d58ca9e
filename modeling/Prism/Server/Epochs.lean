import Mathlib.Logic.Relation
import Prism.Lib.Machine
import Prism.Python

/-!
The epochs of a server, and the main loop that launches, advances and ends them
(`prism/server/newserver.py`, `prism/server/epoch/epoch.py`).

The tasks of a server are `Epoch.start` and `Epoch.run` of its epochs and the main loop. The
loop handles a command and sleeps. It handles the targets of a command one after another, and
other tasks may go on in between. What a task waits for comes as an event.

* `Epoch.nextState`, `Epoch.shutdown`: the two ways in which commands change an epoch.
* `PrismServer.machine`: a server over time.
-/

namespace Prism.Server

open Prism.Lib

/-! ### Epochs -/

/-- `EpochState`. -/
inductive EpochState where
  | preRun | running | handoff | off
deriving DecidableEq, Repr

/-- The order in which an epoch passes through its states. -/
inductive EpochState.Next : EpochState → EpochState → Prop
  | run : Next .preRun .running
  | handOff : Next .running .handoff
  | finish : Next .handoff .off

/-- How far a call of `Epoch.run` is. -/
inductive RunPhase where
  /-- In the nursery, but not begun. -/
  | scheduled
  /-- Waiting for the links of the genesis or of the saved router. -/
  | loading
  /-- In `role.main`, inside its own cancel scope. -/
  | main
  | ended
deriving DecidableEq, Repr

/-- How far the call of `Epoch.start` is. -/
inductive StartPhase where
  | pending | preRun | done
deriving DecidableEq, Repr

/-- `SavedEpoch`, `GenesisEpoch` and `VRFEpoch`. -/
inductive EpochKind where
  | saved | genesis | vrf
deriving DecidableEq, Repr

/-- `Epoch`: `client` says that its role is `ClientRegistration`, and `shut` that its transport
was shut down. The previous epoch is given by its place. -/
structure Epoch where
  name : String
  kind : EpochKind
  client : Bool
  previous : Option ℕ
  state : EpochState
  start : StartPhase := .pending
  epochArk : Bool := false
  runs : List RunPhase := []
  runScope : Option ℕ := none
  shut : Bool := false
deriving Repr

namespace Epoch

/-- `Epoch.shutdown`: it cancels the scope of the run that entered its scope last. -/
def shutdown (e : Epoch) : Epoch :=
  { e with
    runs := match e.runScope with
      | some k => e.runs.set k .ended
      | none => e.runs
    shut := true }

/-- `Epoch.next_state`. -/
def nextState (e : Epoch) : Epoch :=
  match e.state with
  | .preRun => { e with state := .running, runs := e.runs ++ [.scheduled] }
  | .running => { e with state := .handoff }
  | .handoff => { e with state := .off }.shutdown
  | .off => e

/-- `with trio.CancelScope()` in `Epoch.run`. -/
def enters (e : Epoch) (k : ℕ) : Epoch :=
  { e with runs := e.runs.set k .main, runScope := some k }

/-- A run begins. `SavedEpoch.run` and `GenesisEpoch.run` load links first, where the role is
not that of a client. -/
def begins (e : Epoch) (k : ℕ) : Epoch :=
  if e.kind ≠ .vrf ∧ e.client = false then { e with runs := e.runs.set k .loading }
  else e.enters k

/-- `Epoch.start` begins. -/
def starts (e : Epoch) : Epoch :=
  match e.state with
  | .preRun => { e with start := .preRun }
  | .running =>
    ({ e with start := .done, runs := e.runs ++ [.scheduled] } : Epoch).begins e.runs.length
  -- only an error is logged
  | _ => { e with start := .done }

/-- What a task of an epoch does next. -/
inductive Task where
  /-- `Epoch.start` begins. -/
  | starts
  /-- `Epoch.pre_run` has its link. -/
  | preRan
  /-- A run that was put into the nursery begins. -/
  | runs (k : ℕ)
  /-- A run has loaded its links. -/
  | loaded (k : ℕ)
  /-- The `role.main` of a run returns. -/
  | returns (k : ℕ)
deriving DecidableEq, Repr

/-- A task goes on, where there is such a task. -/
def goes (e : Epoch) : Task → Epoch
  | .starts => if e.start = .pending then e.starts else e
  | .preRan => if e.start = .preRun then { e with start := .done, epochArk := true } else e
  | .runs k => if e.runs[k]? = some .scheduled then e.begins k else e
  | .loaded k => if e.runs[k]? = some .loading then e.enters k else e
  | .returns k => if e.runs[k]? = some .main then { e with runs := e.runs.set k .ended } else e

/-- Nothing in the nursery waits for its first turn. -/
def Begun (e : Epoch) : Prop := e.start ≠ .pending ∧ RunPhase.scheduled ∉ e.runs

instance (e : Epoch) : Decidable e.Begun := by
  unfold Begun
  infer_instance

end Epoch

/-! ### Commands -/

/-- `EpochCommandType`. -/
inductive EpochCommandType where
  | new | next | off | floodEpoch | floodLsp | poll | config | debug
deriving DecidableEq, Repr

/-- `EpochCommand`. -/
structure EpochCommand where
  commandType : EpochCommandType
  targetEpochName : Option String := none
  payload : List String := []
deriving Repr

/-- `EpochCommand.epoch_seed`; without a payload it raises. -/
def EpochCommand.epochSeed (command : EpochCommand) : Option String := command.payload.head?

/-! ### Servers -/

/-- `PrismServer`: the names of the epochs in its state store, the epochs it launched, the
table `self.epochs`, and the places of epochs that the command being handled still has to
reach. The loop is `awake` between two sleeps. -/
structure PrismServer where
  stored : List String
  epochs : List Epoch := []
  table : List (String × ℕ) := []
  current : ℕ := 0
  todo : EpochCommandType × List ℕ := (.poll, [])
  awake : Bool := true
  died : Bool := false
deriving Repr

namespace PrismServer

/-- `Epoch.from_seed`, for a role that is or is not that of a client. -/
def fromSeed (s : PrismServer) (previous : Option ℕ) (seed : String) (client : Bool) : Epoch :=
  if seed ∈ s.stored then
    { name := seed, kind := .saved, client, previous := none, state := .running }
  else if seed = "genesis" then
    { name := seed, kind := .genesis, client, previous, state := .running }
  else { name := seed, kind := .vrf, client, previous, state := .preRun }

/-- `launch_epoch`. -/
def launchEpoch (s : PrismServer) (e : Epoch) : PrismServer :=
  { s with
    epochs := s.epochs ++ [e]
    table := dictSet s.table e.name s.epochs.length
    current := s.epochs.length }

/-- The server when `main_loop` begins to wait for commands: `load_epoch` takes the epoch that
the state store calls the current one. -/
def boot (stored : List String) (currentEpoch : Option String) (client : Bool) : PrismServer :=
  let s : PrismServer := { stored }
  s.launchEpoch (s.fromSeed none (currentEpoch.getD "genesis") client)

/-- The epochs that a command is for; an unknown name raises. -/
def targetEpochs (s : PrismServer) (command : EpochCommand) : Option (List ℕ) :=
  match command.targetEpochName.filter (· ≠ "") with
  | some name => (s.table.lookup name).map fun i => [i]
  | none => some ((s.table.map Prod.snd).filter fun i =>
      (s.epochs[i]?.map Epoch.state) ≠ some .off)

/-- A task raised: the nursery cancels the others, and the server ends. -/
def dies (s : PrismServer) : PrismServer := { s with died := true }

/-- A client has a queue of commands of its own. -/
def Diverted (s : PrismServer) : Prop := ∃ e ∈ s.epochs[s.current]?, e.client = true

instance (s : PrismServer) : Decidable s.Diverted :=
  inferInstanceAs (Decidable (∃ e ∈ s.epochs[s.current]?, e.client = true))

/-- The main loop takes a command. `made` is what the constructor of an epoch does: it raises,
or the epoch has a role that is or is not that of a client. -/
def obey (s : PrismServer) (command : EpochCommand) (made : Option Bool) : PrismServer :=
  if s.Diverted then { s with awake := false }
  else
    match s.targetEpochs command with
    | none => s.dies
    | some targets =>
      match command.commandType with
      | .new =>
        match command.epochSeed, made with
        | some seed, some client =>
          { s.launchEpoch (s.fromSeed (some s.current) seed client) with awake := false }
        | _, _ => s.dies
      | .config => if command.payload.length < 2 then s.dies else { s with awake := false }
      | commandType => { s with todo := (commandType, targets), awake := false }

/-- An epoch changes. -/
def change (s : PrismServer) (i : ℕ) (f : Epoch → Epoch) : PrismServer :=
  { s with epochs := s.epochs.modify i f }

/-- A command reaches one epoch. -/
def reach (s : PrismServer) (commandType : EpochCommandType) (i : ℕ) : PrismServer :=
  match commandType with
  | .next => s.change i Epoch.nextState
  | .off => s.change i Epoch.shutdown
  | .floodEpoch =>
    -- `EARKStore.initiate` asserts that there is an ARK to flood
    if s.epochs[i]?.any fun e => e.state = .preRun ∧ e.previous.isSome ∧ e.epochArk = false
    then s.dies else s
  | _ => s

/-- The command goes on to its next target. -/
def turn (s : PrismServer) : PrismServer :=
  match s.todo with
  | (_, []) => s
  | (commandType, i :: rest) => { s with todo := (commandType, rest) }.reach commandType i

/-- The names in the state store, after a task of an epoch went on: a run saves its epoch before
it enters its scope. -/
def saves (stored : List String) (e : Epoch) : List String :=
  if RunPhase.main ∈ e.runs then e.name :: stored else stored

/-- A task of an epoch goes on. -/
def taskGoes (s : PrismServer) (i : ℕ) (task : Epoch.Task) : PrismServer :=
  match s.epochs[i]? with
  | none => s
  | some e => { s.change i fun e => e.goes task with stored := saves s.stored (e.goes task) }

/-- What happens to a server. -/
inductive Event where
  /-- The queue is empty. -/
  | idle
  | command (command : EpochCommand) (made : Option Bool)
  | turn
  /-- The main loop wakes up again: all others had a turn meanwhile. -/
  | slept
  | task (i : ℕ) (task : Epoch.Task)
  /-- A task raises. -/
  | raises
deriving Repr

/-- The main loop is done with the last command. -/
def Done (s : PrismServer) : Prop := s.todo.2 = []

instance (s : PrismServer) : Decidable s.Done := by
  unfold Done
  infer_instance

/-- One event. What cannot happen changes nothing. -/
def step (s : PrismServer) (event : Event) : PrismServer :=
  if s.died then s
  else
    match event with
    | .idle => if s.awake then { s with awake := false } else s
    | .command command made => if s.awake then s.obey command made else s
    | .turn => s.turn
    | .slept => if s.Done ∧ ∀ e ∈ s.epochs, e.Begun then { s with awake := true } else s
    | .task i task => s.taskGoes i task
    | .raises => s.dies

/-- A server over time. -/
def machine (init : PrismServer) : Machine PrismServer Event Unit where
  init := init
  step s event := (s.step event, ())

end PrismServer

end Prism.Server
