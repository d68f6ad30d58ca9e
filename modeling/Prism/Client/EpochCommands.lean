import Prism.Client.Pseudonym
import Prism.Server.CommandText

/-!
The epochs of a client, and the commands that change them (`epoch_command_task` and
`load_bootstrap_info` of `prism/client/client.py`).

`NEW` names the incoming epoch, `NEXT` makes it the current one and shuts the transport of the
outgoing one down, `OFF` shuts that one down without a change. The task ends with the first
exception. `NEXT` does not look whether there is an incoming epoch, and without one the current
epoch becomes `None`.

* `returns_myDropboxes`, `EpochClient.handle_iff`: the commands that raise nothing.
* `EpochClient.Sound.step`: what the epochs of a client are while commands are safe.
* `EpochClient.keeps_iff`: the runs in which no command raises or loses the epoch.
* `commands_survived_iff`: all three parties of a command.
-/

namespace Prism.Client

open Prism.Lib Prism.Server

/-! ### What commands read -/

/-- What a command of a client sees: the time, the server database with the pseudonyms that have
a status, and the settings. -/
structure ClientView where
  now : ℤ
  servers : Routing.Servers
  statuses : List (Option Bytes)
  pseudonym : Bytes
  dropboxCount : ℕ
  dropboxesPerClient : ℕ

/-- The role of a server is a text. -/
def HasRole (server : Routing.ServerRecord) : Prop := ∃ role, server.ark.get .role = .str role

section Views

variable (view : ClientView) (current : Option String)

/-- `valid_servers`, of the epoch that the server database has, if any. -/
def validIn : List Routing.ServerRecord :=
  (view.servers.map Prod.snd).filter fun server =>
    server.valid view.now && epochOf server = current

theorem validIn_some (epoch : String) :
    validIn view (some epoch) = validServers view.now epoch view.servers := rfl

/-- The condition of `dropboxes_for_recipient`. -/
def isDropboxIn (indices : List ℕ) (server : Routing.ServerRecord) : Py Bool :=
  match server.ark.get .role with
  | .str role => .ok ("DROPBOX".toList <:+: role.toList &&
      (match server.ark.get .dropboxIndex with
        | .int index => index ∈ indices.map Int.ofNat
        | _ => false) &&
      epochOf server = current)
  | _ => .error .typeError

theorem isDropboxIn_some (indices : List ℕ) (epoch : String) :
    isDropboxIn (some epoch) indices = isDropboxFor indices epoch := rfl

/-- `my_dropboxes`. -/
def myDropboxes (dbEpoch : Option String) : Py (List Routing.ServerRecord) := do
  let indices ← dropboxIndices view.pseudonym view.dropboxCount view.dropboxesPerClient
  pyFilter (isDropboxIn current indices) (validIn view dbEpoch)

/-- There are dropboxes to choose from, and the valid servers have a role. -/
structure Pollable (dbEpoch : Option String) : Prop where
  count : view.dropboxCount ≠ 0
  roles : ∀ server ∈ validIn view dbEpoch, HasRole server

theorem returns_isDropboxIn (indices : List ℕ) (server : Routing.ServerRecord) :
    Returns (isDropboxIn current indices server) ↔ HasRole server := by
  unfold isDropboxIn HasRole
  split
  next role eq => exact iff_of_true ⟨_, rfl⟩ ⟨role, eq⟩
  next none =>
    refine iff_of_false (not_returns_error _) ?_
    rintro ⟨role, eq⟩
    exact none role eq

/-- **The dropboxes of a client are found** exactly when there is a choice among servers with
roles. -/
theorem returns_myDropboxes (dbEpoch : Option String) :
    Returns (myDropboxes view current dbEpoch) ↔ Pollable view dbEpoch := by
  rw [myDropboxes, dropboxIndices]
  by_cases zero : view.dropboxCount = 0
  · rw [if_pos zero]
    exact iff_of_false (not_returns_error _) fun pollable => pollable.count zero
  · rw [if_neg zero]
    dsimp only
    rw [ok_bind, returns_pyFilter]
    simp only [returns_isDropboxIn]
    exact ⟨fun roles => ⟨zero, roles⟩, Pollable.roles⟩

/-- `debug_dump`: the dropboxes, the servers and their status. -/
def debugDump (dbEpoch : Option String) : Py Unit := do
  let dropboxes ← myDropboxes view current dbEpoch
  let _ ← dropboxes.mapM fun server => pyHex server.pseudonym
  let _ ← dropboxIndices view.pseudonym view.dropboxCount view.dropboxesPerClient
  let _ ← view.servers.mapM fun entry => pyHex entry.2.pseudonym
  let _ ← view.statuses.mapM pyHex
  return ()

/-- The dropboxes are found, and all servers have a pseudonym. -/
structure Printable (dbEpoch : Option String) : Prop where
  pollable : Pollable view dbEpoch
  servers : ∀ entry ∈ view.servers, entry.2.pseudonym.isSome
  statuses : ∀ pseudonym ∈ view.statuses, pseudonym.isSome

/-- **A client is printed** exactly when its dropboxes are found and all servers have a
pseudonym. -/
theorem returns_debugDump (dbEpoch : Option String) :
    Returns (debugDump view current dbEpoch) ↔ Printable view dbEpoch := by
  rw [debugDump, returns_bind]
  constructor
  · rintro ⟨dropboxes, found, later⟩
    simp only [returns_then, returns_mapM, returns_pyHex] at later
    obtain ⟨-, -, servers, statuses, -⟩ := later
    exact ⟨(returns_myDropboxes view current dbEpoch).mp ⟨_, found⟩, servers, statuses⟩
  · rintro ⟨pollable, servers, statuses⟩
    obtain ⟨dropboxes, found⟩ := (returns_myDropboxes view current dbEpoch).mpr pollable
    refine ⟨dropboxes, found, ?_⟩
    simp only [returns_then, returns_mapM, returns_pyHex]
    refine ⟨fun server mem => ?_, ?_, servers, statuses, _, rfl⟩
    · -- a dropbox is one of the servers
      obtain ⟨indices, -, chosen⟩ := bind_eq_ok.mp found
      have valid := List.mem_of_mem_filter (mem_pyFilter chosen mem).1
      obtain ⟨entry, inServers, rfl⟩ := List.mem_map.mp valid
      exact servers entry inServers
    · rw [dropboxIndices, if_neg pollable.count]
      exact ⟨_, rfl⟩

end Views

/-! ### Epochs -/

/-- The epochs of a `PrismClient`, of its server database and of its transports, and the commands
that wait for it. -/
structure EpochClient where
  currentEpoch : Option String := some "genesis"
  dbEpoch : Option String
  incomingEpoch : Option String := none
  outgoingEpoch : Option String := none
  currentTransport : Option String := some "genesis"
  outgoingTransport : Option (Option String) := none
  queue : List EpochCommand := []
  crashed : Bool := false
deriving Repr

namespace EpochClient

/-- A text is true in Python when it is not empty, and `None` is not. -/
def truthy (epoch : Option String) : Bool := epoch.any (· ≠ "")

/-- `if self.outgoing_epoch: await self.outgoing_transport.shutdown()`. -/
def shutdownOutgoing (self : EpochClient) : Py Unit :=
  if truthy self.outgoingEpoch ∧ self.outgoingTransport = none then .error .attributeError
  else .ok ()

/-- `NEXT`: the incoming epoch becomes the current one, whether there is one or not. -/
def switch (self : EpochClient) : EpochClient :=
  { self with
    outgoingEpoch := self.currentEpoch
    currentEpoch := self.incomingEpoch
    dbEpoch := self.incomingEpoch
    outgoingTransport := some self.currentTransport
    currentTransport := self.incomingEpoch
    incomingEpoch := none }

/-- The branches of `epoch_command_task`, one for each type of command. -/
def handle (self : EpochClient) (view : ClientView) (command : EpochCommand) : Py EpochClient :=
  match command.commandType with
  | .new => do
    let seed ← pyIndex command.payload 0
    return { self with incomingEpoch := some seed }
  | .next => do
    self.shutdownOutgoing
    return self.switch
  | .off => do
    self.shutdownOutgoing
    return { self with outgoingEpoch := none, outgoingTransport := none }
  | .poll => do
    let _ ← myDropboxes view self.currentEpoch self.dbEpoch
    return self
  | .config => do
    let _ ← pyIndex command.payload 0
    let _ ← pyIndex command.payload 1
    return self
  | .debug => do
    debugDump view self.currentEpoch self.dbEpoch
    return self
  | .floodEpoch | .floodLsp => .ok self

/-- What a command needs not to raise. -/
def Obeyable (self : EpochClient) (view : ClientView) (command : EpochCommand) : Prop :=
  match command.commandType with
  | .new => command.payload ≠ []
  | .poll => Pollable view self.dbEpoch
  | .config => 2 ≤ command.payload.length
  | .debug => Printable view self.dbEpoch
  | _ => True

/-- The outgoing transport is there while there is an outgoing epoch. -/
def HasTransport (self : EpochClient) : Prop :=
  truthy self.outgoingEpoch = true → self.outgoingTransport ≠ none

theorem shutdownOutgoing_eq {self : EpochClient} (has : self.HasTransport) :
    self.shutdownOutgoing = .ok () := by
  rw [shutdownOutgoing, if_neg]
  rintro ⟨outgoing, without⟩
  exact has outgoing without

/-- **A command raises nothing** exactly when it can be obeyed, where the outgoing transport is
there. -/
theorem handle_iff {self : EpochClient} (has : self.HasTransport) (view : ClientView)
    (command : EpochCommand) :
    Returns (self.handle view command) ↔ self.Obeyable view command := by
  unfold handle Obeyable
  cases command.commandType with
  | new =>
      dsimp only
      rw [returns_bind_of fun _ => returns_pure _, returns_pyIndex, List.length_pos_iff]
  | next | off =>
      dsimp only
      rw [shutdownOutgoing_eq has, ok_bind]
      exact iff_of_true (returns_pure _) trivial
  | poll =>
      dsimp only
      rw [returns_bind_of fun _ => returns_pure _, returns_myDropboxes]
  | config =>
      dsimp only
      rw [returns_then, returns_bind_of fun _ => returns_pure _, returns_pyIndex, returns_pyIndex]
      omega
  | debug =>
      dsimp only
      rw [returns_bind_of fun _ => returns_pure _, returns_debugDump]
  | floodEpoch | floodLsp => exact iff_of_true (returns_ok _) trivial

/-- What a command can do that raises nothing. -/
theorem handle_cases {self self' : EpochClient} {view : ClientView} {command : EpochCommand}
    (run : self.handle view command = .ok self') :
    (command.commandType = .new ∧
        ∃ seed, command.epochSeed = some seed ∧ self' = { self with incomingEpoch := some seed }) ∨
      (command.commandType = .next ∧ self' = self.switch) ∨
      (command.commandType = .off ∧
        self' = { self with outgoingEpoch := none, outgoingTransport := none }) ∨
      (command.commandType ≠ .next ∧ self' = self) := by
  unfold handle at run
  cases type : command.commandType with
  | new =>
      rw [type] at run
      obtain ⟨seed, first, run⟩ := bind_eq_ok.mp run
      refine .inl ⟨rfl, seed, ?_, (Except.ok.inj run).symm⟩
      unfold pyIndex at first
      split at first
      next x atPlace =>
        cases first
        rw [EpochCommand.epochSeed, List.head?_eq_getElem?, atPlace]
      next => cases first
  | next =>
      rw [type] at run
      obtain ⟨_, -, run⟩ := bind_eq_ok.mp run
      exact .inr (.inl ⟨rfl, (Except.ok.inj run).symm⟩)
  | off =>
      rw [type] at run
      obtain ⟨_, -, run⟩ := bind_eq_ok.mp run
      exact .inr (.inr (.inl ⟨rfl, (Except.ok.inj run).symm⟩))
  | poll | debug =>
      rw [type] at run
      obtain ⟨_, -, run⟩ := bind_eq_ok.mp run
      exact .inr (.inr (.inr ⟨by decide, (Except.ok.inj run).symm⟩))
  | config =>
      rw [type] at run
      obtain ⟨_, -, run⟩ := bind_eq_ok.mp run
      obtain ⟨_, -, run⟩ := bind_eq_ok.mp run
      exact .inr (.inr (.inr ⟨by decide, (Except.ok.inj run).symm⟩))
  | floodEpoch | floodLsp =>
      rw [type] at run
      exact .inr (.inr (.inr ⟨by decide, (Except.ok.inj run).symm⟩))

/-! ### Runs -/

/-- What happens to the epochs of a client. -/
inductive Event where
  /-- `notifyEpoch` brings a text, or the main loop of a server hands its command over. -/
  | notify (text : String)
  /-- `epoch_command_task` looks into its queue. -/
  | work (view : ClientView)
  /-- `load_bootstrap_info`, with a `bootstrap_epoch` of the configuration. -/
  | bootstrap (epoch : String)

section Run

variable (upper : String → String)

/-- `epoch_command`, for what is a command. -/
def notifyEpoch (self : EpochClient) (text : String) : EpochClient :=
  match parseRequest upper text with
  | .ok (some command) => { self with queue := self.queue ++ [command] }
  | _ => self

/-- One round of `epoch_command_task`. -/
def work (self : EpochClient) (view : ClientView) : EpochClient :=
  if self.crashed then self
  else
    match self.queue with
    | [] => self
    | command :: rest =>
      match ({ self with queue := rest } : EpochClient).handle view command with
      | .ok self' => self'
      | .error _ => { self with queue := rest, crashed := true }

/-- One event. -/
def step (self : EpochClient) : Event → EpochClient
  | .notify text => self.notifyEpoch upper text
  | .work view => self.work view
  | .bootstrap epoch =>
    { self with currentEpoch := some epoch, dbEpoch := some epoch, currentTransport := some epoch }

/-- A client over time, whose server database may have been made for another epoch. -/
def machine (dbEpoch : Option String) : Machine EpochClient Event Unit where
  init := { dbEpoch }
  step self event := (self.step upper event, ())

/-- An event names an epoch: a `NEW` announces it, or it is a bootstrap epoch. -/
def Event.Names (event : Event) (epoch : String) : Prop :=
  match event with
  | .notify text => ∃ command, parseRequest upper text = .ok (some command) ∧
      command.commandType = .new ∧ command.epochSeed = some epoch
  | .work _ => False
  | .bootstrap bootstrapEpoch => epoch = bootstrapEpoch

/-- An epoch that a client knows of: the genesis, or one that was named. -/
def Known (history : List (Event × Unit)) (epoch : String) : Prop :=
  epoch = "genesis" ∨ ∃ entry ∈ history, entry.1.Names upper epoch

/-- No command raises, and the client is in a known epoch. -/
structure Keeps (client : EpochClient) (history : List (Event × Unit)) (event : Event) : Prop where
  parsed : ∀ text, event = .notify text → Returns (parseRequest upper text)
  alive : (client.step upper event).crashed = false
  epoch : ∃ epoch, (client.step upper event).currentEpoch = some epoch ∧
    Known upper (history ++ [(event, ())]) epoch

/-- A text is not blank, a command can be obeyed, and `NEXT` has an incoming epoch. -/
def Safe (self : EpochClient) : Event → Prop
  | .notify text => ¬ Blank text
  | .work view => ∀ command ∈ self.queue.head?, self.Obeyable view command ∧
      (command.commandType = .next → self.incomingEpoch ≠ none)
  | .bootstrap _ => True

/-- **The epochs of a client**: the current one, the incoming one, and those of waiting commands are
known. -/
structure Sound (client : EpochClient) (history : List (Event × Unit)) : Prop where
  alive : client.crashed = false
  current : ∃ epoch, client.currentEpoch = some epoch ∧ Known upper history epoch
  incoming : ∀ epoch, client.incomingEpoch = some epoch → Known upper history epoch
  queued : ∀ command ∈ client.queue, command.commandType = .new →
    ∀ epoch, command.epochSeed = some epoch → Known upper history epoch
  transport : client.HasTransport

variable {upper} {self : EpochClient} {history : List (Event × Unit)}

theorem Known.later {epoch : String} (known : Known upper history epoch) (event : Event) :
    Known upper (history ++ [(event, ())]) epoch :=
  known.imp_right fun ⟨entry, mem, names⟩ => ⟨entry, List.mem_append_left _ mem, names⟩

theorem known_of_names {event : Event} {epoch : String} (names : event.Names upper epoch) :
    Known upper (history ++ [(event, ())]) epoch :=
  .inr ⟨(event, ()), List.mem_append_right _ (List.mem_singleton_self _), names⟩

theorem Sound.later (sound : self.Sound upper history) (event : Event) :
    self.Sound upper (history ++ [(event, ())]) where
  alive := sound.alive
  current := by
    obtain ⟨epoch, current, known⟩ := sound.current
    exact ⟨epoch, current, known.later event⟩
  incoming epoch incoming := (sound.incoming epoch incoming).later event
  queued command mem isNew epoch seed := (sound.queued command mem isNew epoch seed).later event
  transport := sound.transport

/-- A command that raises nothing keeps the epochs known, where `NEXT` has an incoming epoch. -/
theorem Sound.handled {self' : EpochClient} {view : ClientView} {command : EpochCommand}
    {rest : List EpochCommand} (sound : self.Sound upper history)
    (queue : self.queue = command :: rest)
    (incoming : command.commandType = .next → self.incomingEpoch ≠ none)
    (run : ({ self with queue := rest } : EpochClient).handle view command = .ok self') :
    self'.Sound upper history := by
  have queued : ∀ other ∈ rest, other.commandType = .new →
      ∀ epoch, other.epochSeed = some epoch → Known upper history epoch :=
    fun other mem => sound.queued other (queue ▸ List.mem_cons_of_mem _ mem)
  obtain ⟨isNew, seed, named, rfl⟩ | ⟨isNext, rfl⟩ | ⟨-, rfl⟩ | ⟨-, rfl⟩ := handle_cases run
  · refine ⟨sound.alive, sound.current, ?_, queued, sound.transport⟩
    rintro epoch ⟨⟩
    exact sound.queued command (queue ▸ List.mem_cons_self) isNew seed named
  · obtain ⟨epoch, eq⟩ := Option.ne_none_iff_exists'.mp (incoming isNext)
    exact ⟨sound.alive, ⟨epoch, eq, sound.incoming epoch eq⟩, nofun, queued, fun _ => nofun⟩
  · exact ⟨sound.alive, sound.current, sound.incoming, queued, nofun⟩
  · exact ⟨sound.alive, sound.current, sound.incoming, queued, sound.transport⟩

/-- **One step**: a safe event keeps the epochs known. -/
theorem Sound.step (sound : self.Sound upper history) {event : Event} (safe : self.Safe event) :
    (self.step upper event).Sound upper (history ++ [(event, ())]) := by
  cases event with
  | notify text =>
      change (self.notifyEpoch upper text).Sound _ _
      have later := sound.later (.notify text)
      unfold notifyEpoch
      split
      next command parsed =>
        refine ⟨later.alive, later.current, later.incoming, ?_, later.transport⟩
        intro other mem isNew epoch seed
        rcases List.mem_append.mp mem with mem | mem
        · exact later.queued other mem isNew epoch seed
        · obtain rfl := List.mem_singleton.mp mem
          exact known_of_names ⟨other, parsed, isNew, seed⟩
      next => exact later
  | work view =>
      change (self.work view).Sound _ _
      have later := sound.later (.work view)
      unfold work
      rw [if_neg (by simp [sound.alive])]
      split
      next => exact later
      next command rest queue =>
        have first : command ∈ self.queue.head? := by simp [queue]
        obtain ⟨obeyable, incoming⟩ := safe command first
        have has : ({ self with queue := rest } : EpochClient).HasTransport := sound.transport
        obtain ⟨self', run⟩ := (handle_iff has view command).mpr obeyable
        rw [run]
        exact later.handled queue incoming run
  | bootstrap epoch =>
      have later := sound.later (.bootstrap epoch)
      exact ⟨later.alive, ⟨epoch, rfl, known_of_names rfl⟩, later.incoming, later.queued,
        later.transport⟩

/-- What keeps the client in a known epoch is safe. -/
theorem safe_of_keeps (sound : self.Sound upper history) {event : Event}
    (keeps : self.Keeps upper history event) : self.Safe event := by
  cases event with
  | notify text => exact (returns_parseRequest upper text).mp (keeps.parsed text rfl)
  | bootstrap epoch => trivial
  | work view =>
      intro command first
      obtain ⟨rest, queue⟩ := List.head?_eq_some_iff.mp first
      have has : ({ self with queue := rest } : EpochClient).HasTransport := sound.transport
      have alive := keeps.alive
      have current := keeps.epoch
      change (self.work view).crashed = false at alive
      change ∃ epoch, (self.work view).currentEpoch = some epoch ∧ _ at current
      rw [work, if_neg (by simp [sound.alive]), queue] at alive current
      dsimp only at alive current
      cases run : ({ self with queue := rest } : EpochClient).handle view command with
      | error e =>
          rw [run] at alive
          cases alive
      | ok self' =>
          rw [run] at current
          refine ⟨(handle_iff has view command).mp ⟨self', run⟩, fun isNext missing => ?_⟩
          obtain ⟨isNew, -⟩ | ⟨-, rfl⟩ | ⟨isOff, -⟩ | ⟨other, -⟩ := handle_cases run
          · simp [isNext] at isNew
          · -- the current epoch is the incoming one
            obtain ⟨epoch, eq, -⟩ := current
            exact absurd (missing.symm.trans eq) nofun
          · simp [isNext] at isOff
          · exact other isNext

end Run

/-- **When a client keeps its epoch**: exactly if every event of the run is safe. -/
theorem keeps_iff (upper : String → String) (dbEpoch : Option String) (events : List Event) :
    (machine upper dbEpoch).Admits (fun self history event => self.Keeps upper history event)
        events ↔
      (machine upper dbEpoch).Admits (fun self _ event => self.Safe event) events := by
  refine Machine.admits_iff_of_invariant _
    (P := fun self history => self.Sound upper history) ?_ ?_ ?_
  · exact ⟨rfl, ⟨"genesis", rfl, .inl rfl⟩, nofun, nofun, nofun⟩
  · intro self history event sound
    refine ⟨safe_of_keeps sound, fun safe => ?_⟩
    have after := sound.step safe
    refine ⟨?_, after.alive, after.current⟩
    rintro text rfl
    exact (returns_parseRequest upper text).mpr safe
  · intro self history event sound safe
    exact sound.step safe

end EpochClient

/-- **Operator commands.** A text is parsed exactly when it is not blank. A server survives all
commands of a run exactly if every event is safe for it, and a client survives them in a known
epoch exactly if every event is safe for it. -/
theorem commands_survived_iff (upper : String → String) :
    (∀ text, Returns (parseRequest upper text) ↔ ¬ Blank text) ∧
      (∀ init events,
        (CommandedServer.machine upper init).Admits
            (fun s _ event => s.Survives upper event) events ↔
          (CommandedServer.machine upper init).Admits (fun s _ event => s.Safe event) events) ∧
      ∀ dbEpoch events,
        (EpochClient.machine upper dbEpoch).Admits
            (fun self history event => self.Keeps upper history event) events ↔
          (EpochClient.machine upper dbEpoch).Admits (fun self _ event => self.Safe event) events :=
  ⟨returns_parseRequest upper, CommandedServer.commanded_iff, EpochClient.keeps_iff upper⟩

/-! ### Commands that are not survived -/

/-- A client without servers. -/
def emptyView : ClientView where
  now := 0
  servers := []
  statuses := []
  pseudonym := []
  dropboxCount := 1
  dropboxesPerClient := 1

/-- A server in the genesis epoch. -/
def genesisServer : PrismServer := .boot [] none false

/-- **Three commands**: a blank text raises in the parser, `NEXT` takes the epoch of a new client
away, and an unknown target ends a server. -/
theorem next_loses_epoch :
    ¬ Returns (parseRequest id " ") ∧
      ((EpochClient.machine id none).run [.notify "NEXT", .work emptyView]).1.currentEpoch = none ∧
      ((CommandedServer.machine id genesisServer).run
        [.notify "NEXT nowhere", .work none]).1.server.died = true := by
  refine ⟨?_, by decide +kernel, by decide +kernel⟩
  rw [returns_parseRequest]
  exact not_not.mpr (by simp [Blank, isSpace])

end Prism.Client
