import Prism.Server.Epochs

/-!
The texts of epoch commands, and what a server makes of them (`EpochCommand.parse_request` in
`prism/common/epoch/command.py`, `notifyEpoch` of the plugins, `main_loop` in
`prism/server/newserver.py`).

A text is split at white space, its first word names the command, and the rest are the target and
the payload. An unknown name is answered with `None`, but a text without any word raises. Commands
wait in a queue for the main loop, which ends with the first exception of a command.

* `returns_parseRequest`: the texts that are parsed.
* `PrismServer.obey_alive_iff`, `PrismServer.turn_alive_iff`: the commands that a server survives.
* `DebugView.returns_debugDump`: the epochs that `DEBUG` can print.
* `CommandedServer.commanded_iff`: the runs of a server that no command ends.
-/

namespace Prism.Server

open Prism.Lib

/-! ### Texts -/

/-- White space, as `str.split` knows it. -/
def isSpace (c : Char) : Bool :=
  (9 ≤ c.toNat && c.toNat ≤ 13) || (28 ≤ c.toNat && c.toNat ≤ 32) || c.toNat = 0x85 ||
    c.toNat = 0xa0 || c.toNat = 0x1680 || (0x2000 ≤ c.toNat && c.toNat ≤ 0x200a) ||
    c.toNat = 0x2028 || c.toNat = 0x2029 || c.toNat = 0x202f || c.toNat = 0x205f ||
    c.toNat = 0x3000

/-- `str.split()`: the words between white space. -/
def pySplit (text : String) : List String :=
  ((text.toList.splitOnP isSpace).filter fun word => word ≠ []).map String.ofList

/-- A text has a word where it has anything but white space. -/
theorem filter_splitOnP_eq_nil {p : Char → Bool} {xs : List Char} :
    ((xs.splitOnP p).filter fun word => word ≠ []) = [] ↔ ∀ x ∈ xs, p x = true := by
  induction xs with
  | nil => simp
  | cons x xs ih =>
      rw [List.splitOnP_cons_eq_if_modifyHead, List.forall_mem_cons]
      by_cases space : p x = true
      · rw [if_pos space, List.filter_cons_of_neg (by simp), ih]
        exact ⟨fun all => ⟨space, all⟩, And.right⟩
      · rw [if_neg space]
        refine iff_of_false ?_ fun all => space all.1
        obtain ⟨word, words, split⟩ := List.exists_cons_of_ne_nil (List.splitOnP_ne_nil p xs)
        rw [split, List.modifyHead_cons, List.filter_cons_of_pos (by simp)]
        exact List.cons_ne_nil _ _

/-- The text is blank. -/
def Blank (text : String) : Prop := ∀ c ∈ text.toList, isSpace c = true

theorem pySplit_eq_nil {text : String} : pySplit text = [] ↔ Blank text := by
  rw [pySplit, List.map_eq_nil_iff, filter_splitOnP_eq_nil]
  rfl

/-- `EpochCommandType[...]`; another name raises. -/
def EpochCommandType.ofName? : String → Option EpochCommandType
  | "NEW" => some .new
  | "NEXT" => some .next
  | "OFF" => some .off
  | "FLOOD_EPOCH" => some .floodEpoch
  | "FLOOD_LSP" => some .floodLsp
  | "POLL" => some .poll
  | "CONFIG" => some .config
  | "DEBUG" => some .debug
  | _ => none

section Parse

variable (upper : String → String)

/-- `EpochCommand.parse_request`: the first word is asked for before its name is looked up, and of
the two exceptions only that of the name is caught. -/
def parseRequest (epochData : String) : Py (Option EpochCommand) :=
  match pySplit epochData with
  | [] => .error .indexError
  | first :: rest =>
    match EpochCommandType.ofName? (upper first) with
    | none => .ok none
    | some commandType =>
      if commandType ∈ [.new, .config] then
        .ok (some { commandType, payload := rest })
      else
        match rest with
        | target :: payload =>
          .ok (some { commandType, targetEpochName := some target, payload })
        | [] => .ok (some { commandType })

/-- **A text is parsed** exactly when it is not blank. -/
theorem returns_parseRequest (epochData : String) :
    Returns (parseRequest upper epochData) ↔ ¬ Blank epochData := by
  rw [← pySplit_eq_nil]
  unfold parseRequest
  split
  next empty => simp [empty]
  next first rest split =>
    refine iff_of_true ?_ (by simp [split])
    split
    · exact ⟨_, rfl⟩
    · split_ifs
      · exact ⟨_, rfl⟩
      · split <;> exact ⟨_, rfl⟩

end Parse

/-! ### One command -/

namespace PrismServer

/-- **When a server survives a command**: a client has a queue of its own; else the target must be
known, a new epoch be named and made, and a setting have a name and a value. -/
structure Obeyable (s : PrismServer) (command : EpochCommand) (made : Option Bool) : Prop where
  target : (s.targetEpochs command).isSome
  new : command.commandType = .new → command.payload ≠ [] ∧ made.isSome
  config : command.commandType = .config → 2 ≤ command.payload.length

/-- **A command is survived** exactly when it can be obeyed. -/
theorem obey_alive_iff {s : PrismServer} (alive : s.died = false) (command : EpochCommand)
    (made : Option Bool) :
    (s.obey command made).died = false ↔ (¬ s.Diverted → s.Obeyable command made) := by
  unfold obey
  by_cases diverted : s.Diverted
  · rw [if_pos diverted]
    exact iff_of_true alive fun direct => absurd diverted direct
  · rw [if_neg diverted]
    cases targets : s.targetEpochs command with
    | none =>
        refine iff_of_false (by simp [dies]) fun obeyable => ?_
        have known := (obeyable diverted).target
        simp [targets] at known
    | some found =>
        dsimp only
        split
        next isNew =>
          split
          next seed client named =>
            refine iff_of_true alive fun _ => ⟨by simp [targets], fun _ => ?_, by simp [isNew]⟩
            rw [EpochCommand.epochSeed, List.head?_eq_some_iff] at named
            obtain ⟨rest, payload⟩ := named
            simp [payload]
          next fails =>
            refine iff_of_false (by simp [dies]) fun obeyable => ?_
            obtain ⟨named, known⟩ := (obeyable diverted).new isNew
            obtain ⟨seed, rest, payload⟩ := List.exists_cons_of_ne_nil named
            obtain ⟨client, made⟩ := Option.isSome_iff_exists.mp known
            exact fails seed client (by simp [EpochCommand.epochSeed, payload]) made
        next isConfig =>
          split_ifs with short
          · refine iff_of_false (by simp [dies]) fun obeyable => ?_
            exact absurd ((obeyable diverted).config isConfig) (by omega)
          · exact iff_of_true alive fun _ =>
              ⟨by simp [targets], by simp [isConfig], fun _ => by omega⟩
        next notNew notConfig =>
          exact iff_of_true alive fun _ =>
            ⟨by simp [targets], fun isNew => (notNew isNew).elim,
              fun isConfig => (notConfig isConfig).elim⟩

/-- The next target of `FLOOD_EPOCH` has an ARK to flood, where it would flood one. -/
def FloodReady (s : PrismServer) : Prop :=
  ∀ i rest, s.todo = (.floodEpoch, i :: rest) → ∀ e, s.epochs[i]? = some e →
    e.state = .preRun → e.previous.isSome → e.epochArk = true

/-- **A turn of a command is survived** exactly when a flood has its ARK. -/
theorem turn_alive_iff {s : PrismServer} (alive : s.died = false) :
    s.turn.died = false ↔ s.FloodReady := by
  unfold turn
  split
  next idle =>
    refine iff_of_true alive fun i rest todo => ?_
    rw [todo] at idle
    cases idle
  next commandType i rest todo =>
    cases commandType with
    | floodEpoch =>
        rw [reach]
        dsimp only
        cases target : s.epochs[i]? with
        | none =>
            refine iff_of_true (by simpa using alive) fun j others todo' e atJ => ?_
            rw [todo, Prod.mk.injEq, List.cons.injEq] at todo'
            rw [← todo'.2.1, target] at atJ
            cases atJ
        | some e =>
            rw [Option.any_some]
            by_cases dead : e.state = .preRun ∧ e.previous.isSome ∧ e.epochArk = false
            · rw [if_pos (by simpa using dead)]
              refine iff_of_false (by simp [dies]) fun ready => ?_
              have has := ready i rest todo e target dead.1 dead.2.1
              simp [dead.2.2] at has
            · rw [if_neg (by simpa using dead)]
              refine iff_of_true alive fun j others todo' e' atJ pre previous => ?_
              rw [todo, Prod.mk.injEq, List.cons.injEq] at todo'
              rw [← todo'.2.1, target, Option.some.injEq] at atJ
              subst atJ
              by_contra without
              exact dead ⟨pre, previous, by simpa using without⟩
    | _ => exact iff_of_true alive fun j others todo' => by simp [todo] at todo'

end PrismServer

/-! ### Dumps -/

/-- What the dump of an epoch reads: the pseudonyms of its records, the names of the epoch ARKs
flooded to it, and the pseudonyms in its routing table and its link state database. -/
structure DebugView where
  records : List (Option Bytes)
  earks : List (Option String)
  routes : List (Option Bytes × Option Bytes)
  database : List (Option Bytes × Option Bytes)
deriving Repr

/-- `pseudonym.hex()`, for what is printed of it. -/
def pyHex : Option Bytes → Py Unit
  | some _ => .ok ()
  | none => .error .attributeError

@[simp] theorem returns_pyHex (pseudonym : Option Bytes) :
    Returns (pyHex pseudonym) ↔ pseudonym.isSome := by
  cases pseudonym <;> simp [pyHex]

namespace DebugView

/-- A missing name cannot be compared, and a sort compares each of two or more. -/
def Sortable (names : List (Option String)) : Prop := names.length ≤ 1 ∨ none ∉ names

instance (names : List (Option String)) : Decidable (Sortable names) := by
  unfold Sortable
  infer_instance

/-- `sorted`, by name. -/
def sortNames (names : List (Option String)) : Py Unit :=
  if Sortable names then .ok () else .error .typeError

theorem returns_sortNames (names : List (Option String)) :
    Returns (sortNames names) ↔ Sortable names := by
  unfold sortNames
  split_ifs with sortable <;> simp [sortable]

/-- `Epoch.debug_dump`: the record store, the flooded ARKs, and the router. -/
def debugDump (view : DebugView) : Py Unit := do
  let _ ← view.records.mapM pyHex
  sortNames view.earks
  let _ ← view.routes.mapM fun route => do
    pyHex route.1
    pyHex route.2
  let _ ← view.database.mapM fun entry => do
    pyHex entry.1
    pyHex entry.2
  return ()

/-- Every pseudonym is there, and the names can be sorted. -/
structure Printable (view : DebugView) : Prop where
  records : none ∉ view.records
  earks : Sortable view.earks
  routes : ∀ route ∈ view.routes, route.1.isSome ∧ route.2.isSome
  database : ∀ entry ∈ view.database, entry.1.isSome ∧ entry.2.isSome

/-- **A dump returns** exactly when all of it can be printed. -/
theorem returns_debugDump (view : DebugView) : Returns view.debugDump ↔ view.Printable := by
  have records : (∀ r ∈ view.records, r.isSome) ↔ none ∉ view.records := by
    constructor
    · intro all missing
      simpa using all none missing
    · intro present r mem
      exact Option.isSome_iff_ne_none.mpr fun missing => present (missing ▸ mem)
  simp only [debugDump, returns_then, returns_mapM, returns_pyHex, returns_sortNames,
    records]
  exact ⟨fun ⟨a, b, c, d, _⟩ => ⟨a, b, c, d⟩, fun ⟨a, b, c, d⟩ => ⟨a, b, c, d, ⟨_, rfl⟩⟩⟩

end DebugView

/-! ### Servers under command -/

/-- A server and the commands that wait for its main loop. -/
structure CommandedServer where
  server : PrismServer
  epochCommandQueue : List EpochCommand := []
deriving Repr

namespace CommandedServer

/-- What happens to a server under command. -/
inductive Event where
  /-- `notifyEpoch` brings a text. -/
  | notify (text : String)
  /-- The main loop looks into its queue. `made` is what the constructor of a new epoch does. -/
  | work (made : Option Bool)
  /-- The main loop goes on to the next target, whose dump is seen. -/
  | turn (view : DebugView)
  | slept
  | task (i : ℕ) (task : Epoch.Task)
  /-- Another task raises. -/
  | raises
deriving Repr

section Run

variable (upper : String → String)

/-- `notifyEpoch`: what is no command is only logged. -/
def notifyEpoch (s : CommandedServer) (text : String) : CommandedServer :=
  match parseRequest upper text with
  | .ok (some command) => { s with epochCommandQueue := s.epochCommandQueue ++ [command] }
  | _ => s

/-- `main_loop` takes the first command, if there is one. -/
def work (s : CommandedServer) (made : Option Bool) : CommandedServer :=
  if s.server.died ∨ s.server.awake = false then s
  else
    match s.epochCommandQueue with
    | [] => { s with server := s.server.step .idle }
    | command :: rest => { server := s.server.step (.command command made), epochCommandQueue := rest }

/-- `DEBUG` is at a target. -/
def Dumping (s : CommandedServer) : Prop := s.server.todo.1 = .debug ∧ s.server.todo.2 ≠ []

instance (s : CommandedServer) : Decidable s.Dumping := by
  unfold Dumping
  infer_instance

/-- The command reaches its next target. -/
def turn (s : CommandedServer) (view : DebugView) : CommandedServer :=
  if s.Dumping ∧ ¬ view.debugDump.isOk then { s with server := s.server.step .raises }
  else { s with server := s.server.step .turn }

/-- One event. -/
def step (s : CommandedServer) : Event → CommandedServer
  | .notify text => s.notifyEpoch upper text
  | .work made => s.work made
  | .turn view => s.turn view
  | .slept => { s with server := s.server.step .slept }
  | .task i task => { s with server := s.server.step (.task i task) }
  | .raises => { s with server := s.server.step .raises }

/-- A server under command, over time. -/
def machine (init : PrismServer) : Machine CommandedServer Event Unit where
  init := { server := init }
  step s event := (s.step upper event, ())

/-- No command raises: neither does its text, nor does the main loop die of it. -/
def Survives (s : CommandedServer) : Event → Prop
  | .notify text => Returns (parseRequest upper text)
  | .work made => s.server.died = false → (s.work made).server.died = false
  | .turn view => s.server.died = false → (s.turn view).server.died = false
  | _ => True

end Run

/-- A text is not blank, a command can be obeyed, a flood has its ARK, and a dump can be
printed. -/
def Safe (s : CommandedServer) : Event → Prop
  | .notify text => ¬ Blank text
  | .work made => s.server.died = false → s.server.awake = true →
      ∀ command ∈ s.epochCommandQueue.head?, ¬ s.server.Diverted → s.server.Obeyable command made
  | .turn view => s.server.died = false →
      s.server.FloodReady ∧ (s.Dumping → view.Printable)
  | _ => True

variable {upper : String → String}

theorem work_alive_iff {s : CommandedServer} (alive : s.server.died = false) (made : Option Bool) :
    (s.work made).server.died = false ↔
      (s.server.awake = true → ∀ command ∈ s.epochCommandQueue.head?,
        ¬ s.server.Diverted → s.server.Obeyable command made) := by
  unfold work
  cases awake : s.server.awake with
  | false => simp [alive]
  | true =>
      rw [if_neg (by simp [alive])]
      cases s.epochCommandQueue with
      | nil => simp [PrismServer.step, alive, awake]
      | cons command rest =>
          have takes : s.server.step (.command command made) = s.server.obey command made := by
            simp [PrismServer.step, alive, awake]
          dsimp only
          rw [takes, PrismServer.obey_alive_iff alive]
          simp

theorem turn_alive_iff {s : CommandedServer} (alive : s.server.died = false) (view : DebugView) :
    (s.turn view).server.died = false ↔
      s.server.FloodReady ∧ (s.Dumping → view.Printable) := by
  rw [← DebugView.returns_debugDump]
  have isOk : view.debugDump.isOk = true ↔ Returns view.debugDump :=
    ⟨exists_of_isOk, fun ⟨_, run⟩ => by rw [run]; rfl⟩
  unfold turn
  by_cases dies : s.Dumping ∧ ¬ view.debugDump.isOk
  · rw [if_pos dies]
    refine iff_of_false (by simp [PrismServer.step, PrismServer.dies, alive]) fun turns => ?_
    exact dies.2 (isOk.mpr (turns.2 dies.1))
  · rw [if_neg dies]
    have turns : s.server.step .turn = s.server.turn := by simp [PrismServer.step, alive]
    dsimp only
    rw [isOk] at dies
    rw [turns, PrismServer.turn_alive_iff alive]
    refine (and_iff_left fun dumping => ?_).symm
    by_contra raises
    exact dies ⟨dumping, raises⟩

/-- One event: what a server survives. -/
theorem survives_event_iff (s : CommandedServer) (event : Event) :
    s.Survives upper event ↔ s.Safe event := by
  cases event with
  | notify text => exact returns_parseRequest upper text
  | work made => exact forall_congr' fun alive => work_alive_iff alive made
  | turn view => exact forall_congr' fun alive => turn_alive_iff alive view
  | _ => exact Iff.rfl

/-- **When no command ends a server**: exactly if every event of the run is safe. -/
theorem commanded_iff (init : PrismServer) (events : List Event) :
    (machine upper init).Admits (fun s _ event => s.Survives upper event) events ↔
      (machine upper init).Admits (fun s _ event => s.Safe event) events :=
  forall_congr' fun _ => forall_congr' fun _ => forall_congr' fun _ => forall_congr' fun _ =>
    survives_event_iff _ _

end CommandedServer

end Prism.Server
