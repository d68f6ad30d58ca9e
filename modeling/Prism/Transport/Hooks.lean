import Prism.Lib.LiveList
import Prism.Lib.Machine
import Prism.Message.PrismMessage

/-!
Hooks and held packages, await by await (`prism/common/transport/transport.py`,
`prism/common/transport/epoch_transport.py`).

A package that is submitted is put into the channel of every registered hook that matches it, or
else held in a pool. A hook that registers takes the packages that it matches from the pool, and
the hook task offers the pool again from time to time. Sending into a channel hands the package
over and then gives way to the other tasks, so that these find the list of hooks walked halfway:
`for hook in self.hooks` walks the list itself by position, while the others append to it and
remove from it. What runs between two awaits is one event here.

* `checkHooks`, `hookLoop`, `registerLoop`: the three loops, up to the next await.
* `machine`: a transport, with the submissions and registrations that are waiting.
* `DeliversOnce`: hooks get the packages that they match, and get none twice.
-/

namespace Prism.Transport

open Lib

/-- `Package`: the message that was received, and when; each package is an object of its own. -/
structure Package where
  message : PrismMessage
  timestamp : ℤ
  serial : ℕ

/-- What a transport depends on: how hooks match, how messages are hashed, and
`dt_hold_package_sec`. -/
structure HookEnv (Hook Digest : Type) where
  hookMatches : Hook → Package → Bool
  hexdigest : PrismMessage → Digest
  dtHoldPackage : ℤ

/-- A hook in the list of a transport: itself, or the `EpochMessageHook` that an epoch's transport
wraps it in, each time in a new one. -/
structure Registration (Hook : Type) where
  hook : Hook
  epoch : Option String := none
  serial : ℕ
deriving DecidableEq

section

variable {Hook Digest : Type}

/-- `match` of a hook, or of an `EpochMessageHook`. -/
def Registration.matches (env : HookEnv Hook Digest) (self : Registration Hook)
    (package : Package) : Bool :=
  match self.epoch, package.message.get .epoch with
  | some epoch, .str given =>
    if given ≠ "" ∧ given ≠ epoch then false else env.hookMatches self.hook package
  | _, _ => env.hookMatches self.hook package

end

/-- `_check_hooks` between two of its turns: the position in the list of hooks. -/
structure Check where
  package : Package
  cursor : ℕ

/-- `register_hook` while it awaits `hook.put`: the key of the package that it has put, and the
keys that are left. -/
structure Registering (Hook Digest : Type) where
  registration : Registration Hook
  pid : Digest
  rest : List Digest

/-- `_hook_task`: it sleeps, it is at offering a package, or an exception has ended it. -/
inductive HookTask (Digest : Type) where
  | asleep
  | offering (now : ℤ) (pid : Digest) (check : Check) (rest : List Digest)
  | stopped

/-- A `Transport` with its `EpochTransport`s, and the tasks that are in a call of it. `handed` is
what was sent into the channels of the hooks, and `disposed` the hooks whose channels are closed.
`hookMap` is the `_hook_map` of all epochs. -/
structure TransportState (Hook Digest : Type) where
  hooks : List (Registration Hook) := []
  messagePool : List (Digest × Package) := []
  hookMap : List ((String × Hook) × Registration Hook) := []
  disposed : List Hook := []
  handed : List (Hook × Package) := []
  submits : List Check := []
  registering : List (Registering Hook Digest) := []
  hookTask : HookTask Digest := .asleep
  serial : ℕ := 0

/-- What happens at a transport: a call, or a task that goes on after an await. Those that wait are
named by their places. -/
inductive Event (Hook : Type) where
  | submitToHooks (message : PrismMessage) (timestamp : ℤ)
  | resumeSubmit (place : ℕ)
  | wakeHookTask (now : ℤ)
  | resumeHookTask
  | registerHook (hook : Hook) (epoch : Option String)
  | resumeRegister (place : ℕ)
  | removeHook (hook : Hook) (epoch : Option String)

namespace TransportState

variable {Hook Digest : Type}

/-- The call of `_check_hooks` in which the hook task waits. -/
def offering (self : TransportState Hook Digest) : Option Check :=
  match self.hookTask with
  | .offering _ _ check _ => some check
  | _ => none

/-- The package that the hook task is at offering. -/
def offered (self : TransportState Hook Digest) : Option Package :=
  self.offering.map Check.package

/-- The calls of `_check_hooks` that are waiting. -/
def checks (self : TransportState Hook Digest) : List Check :=
  self.offering.toList ++ self.submits

/-- The packages in the pool. -/
def held (self : TransportState Hook Digest) : List Package := self.messagePool.map Prod.snd

/-- The package is held, or being checked. -/
def InPlay (self : TransportState Hook Digest) (package : Package) : Prop :=
  package ∈ self.held ∨ package ∈ self.checks.map Check.package

/-- What a call of `_check_hooks` came to, up to the next await. -/
inductive Checked (Hook Digest : Type) where
  | done
  | waits (state : TransportState Hook Digest) (check : Check)
  | raised

variable [DecidableEq Hook] [DecidableEq Digest] (env : HookEnv Hook Digest)

/-- `hook.put`: a closed channel raises. -/
def put (self : TransportState Hook Digest) (registration : Registration Hook)
    (package : Package) : Option (TransportState Hook Digest) :=
  if registration.hook ∈ self.disposed then none
  else some { self with handed := self.handed ++ [(registration.hook, package)] }

/-- `_check_hooks` from the cursor on. -/
def checkHooks (self : TransportState Hook Digest) (check : Check) : Checked Hook Digest :=
  match nextFrom (fun r => r.matches env check.package) self.hooks check.cursor with
  | none => .done
  | some (registration, cursor) =>
    match self.put registration check.package with
    | some self => .waits self { check with cursor }
    | none => .raised

/-- `message_pool.pop(pid, None)`. -/
def pop (self : TransportState Hook Digest) (pid : Digest) : TransportState Hook Digest :=
  { self with messagePool := self.messagePool.filter fun e => e.1 ≠ pid }

/-- `submit_to_hooks`. -/
def submitToHooks (self : TransportState Hook Digest) (message : PrismMessage) (timestamp : ℤ) :
    TransportState Hook Digest :=
  let package : Package := { message, timestamp, serial := self.serial }
  let self := { self with serial := self.serial + 1 }
  match self.checkHooks env { package, cursor := 0 } with
  | .done =>
    { self with messagePool := dictSet self.messagePool (env.hexdigest message) package }
  | .waits self check => { self with submits := self.submits ++ [check] }
  | .raised => self

/-- `submit_to_hooks` goes on. Its package has matched. -/
def resumeSubmit (self : TransportState Hook Digest) (place : ℕ) : TransportState Hook Digest :=
  match self.submits[place]? with
  | none => self
  | some check =>
    match self.checkHooks env check with
    | .done | .raised => { self with submits := self.submits.eraseIdx place }
    | .waits self check => { self with submits := self.submits.set place check }

/-- A held package is dropped unoffered once it is this old. -/
def tooOld (now : ℤ) (package : Package) : Bool := now - package.timestamp ≥ env.dtHoldPackage

/-- The loop of `_hook_task` over the keys that are left. -/
def hookLoop (now : ℤ) : List Digest → TransportState Hook Digest → TransportState Hook Digest
  | [], self => { self with hookTask := .asleep }
  | pid :: rest, self =>
    match self.messagePool.lookup pid with
    | none => hookLoop now rest self
    | some package =>
      if tooOld env now package then hookLoop now rest (self.pop pid)
      else
        match self.checkHooks env { package, cursor := 0 } with
        | .done => hookLoop now rest self
        | .waits self check => { self with hookTask := .offering now pid check rest }
        | .raised => { self with hookTask := .stopped }

/-- The hook task has slept. -/
def wakeHookTask (self : TransportState Hook Digest) (now : ℤ) : TransportState Hook Digest :=
  match self.hookTask with
  | .asleep => hookLoop env now (self.messagePool.map Prod.fst) self
  | _ => self

/-- The hook task goes on. Its package has matched. -/
def resumeHookTask (self : TransportState Hook Digest) : TransportState Hook Digest :=
  match self.hookTask with
  | .offering now pid check rest =>
    match self.checkHooks env check with
    | .done => hookLoop env now rest ({ self with hookTask := .asleep }.pop pid)
    | .waits self check => { self with hookTask := .offering now pid check rest }
    | .raised => { self with hookTask := .stopped }
  | _ => self

/-- `self.hooks.append(hook)`, and `_hook_map` for the hook of an epoch. -/
def append (self : TransportState Hook Digest) (registration : Registration Hook) :
    TransportState Hook Digest :=
  { self with
    hooks := self.hooks ++ [registration]
    hookMap :=
      match registration.epoch with
      | some epoch => dictSet self.hookMap (epoch, registration.hook) registration
      | none => self.hookMap }

/-- The loop of `register_hook` over the keys that are left. -/
def registerLoop (registration : Registration Hook) :
    List Digest → TransportState Hook Digest → TransportState Hook Digest
  | [], self => self.append registration
  | pid :: rest, self =>
    match self.messagePool.lookup pid with
    | none => registerLoop registration rest self
    | some package =>
      if registration.matches env package then
        match self.put registration package with
        | some self =>
          { self with registering := self.registering ++ [{ registration, pid, rest }] }
        | none => self
      else registerLoop registration rest self

/-- `register_hook` of the transport, or of that of an epoch. -/
def registerHook (self : TransportState Hook Digest) (hook : Hook) (epoch : Option String) :
    TransportState Hook Digest :=
  registerLoop env { hook, epoch, serial := self.serial } (self.messagePool.map Prod.fst)
    { self with serial := self.serial + 1 }

/-- `register_hook` goes on. -/
def resumeRegister (self : TransportState Hook Digest) (place : ℕ) : TransportState Hook Digest :=
  match self.registering[place]? with
  | none => self
  | some waiting =>
    registerLoop env waiting.registration waiting.rest
      ({ self with registering := self.registering.eraseIdx place }.pop waiting.pid)

/-- What `remove_hook` takes from the list: the hook itself, or what `_hook_map` has for it. -/
def registrationOf (self : TransportState Hook Digest) (hook : Hook) :
    Option String → Option (Registration Hook)
  | none => self.hooks.find? fun r => r.hook = hook ∧ r.epoch = none
  | some epoch => self.hookMap.lookup (epoch, hook)

/-- `remove_hook` of the transport, or of that of an epoch, which raises when it does not know the
hook. -/
def removeHook (self : TransportState Hook Digest) (hook : Hook) (epoch : Option String) :
    TransportState Hook Digest :=
  match self.registrationOf hook epoch, epoch with
  | none, none => { self with disposed := hook :: self.disposed }
  | none, some _ => self
  | some registration, none =>
    { self with
      hooks := self.hooks.erase registration
      disposed := hook :: self.disposed }
  | some registration, some epoch =>
    { self with
      hooks := self.hooks.erase registration
      hookMap := self.hookMap.filter fun e => e.1 ≠ (epoch, hook)
      disposed := hook :: self.disposed }

/-- One event. -/
def step (self : TransportState Hook Digest) : Event Hook → TransportState Hook Digest
  | .submitToHooks message timestamp => self.submitToHooks env message timestamp
  | .resumeSubmit place => self.resumeSubmit env place
  | .wakeHookTask now => self.wakeHookTask env now
  | .resumeHookTask => self.resumeHookTask env
  | .registerHook hook epoch => self.registerHook env hook epoch
  | .resumeRegister place => self.resumeRegister env place
  | .removeHook hook epoch => self.removeHook hook epoch

end TransportState

/-! ### Runs -/

section Runs

variable {Hook Digest : Type} [DecidableEq Hook] [DecidableEq Digest] (env : HookEnv Hook Digest)

/-- **A transport**, from its start on. -/
def machine : Machine (TransportState Hook Digest) (Event Hook) Unit where
  init := {}
  step self event := (self.step env event, ())

/-- The transport after some events. -/
def after (events : List (Event Hook)) : TransportState Hook Digest := ((machine env).run events).1

/-- The first of the events submits the package. -/
def Submits (self : TransportState Hook Digest) (events : List (Event Hook)) (package : Package) :
    Prop :=
  ∃ message timestamp rest, events = .submitToHooks message timestamp :: rest ∧
    package = { message, timestamp, serial := self.serial }

/-- **Hooks receive each matching package exactly once.** No package is handed to a hook twice. A
hook that is registered when a package that it matches is submitted, held or checked, and stays so
until the package is neither held nor checked any more, has been handed it by then. -/
structure DeliversOnce (events : List (Event Hook)) : Prop where
  once : (after env events).handed.Nodup
  complete : ∀ before during, events = before ++ during → ∀ registration package,
    (∀ part, part <+: during → registration ∈ (after env (before ++ part)).hooks) →
    ((after env before).InPlay package ∨ Submits (after env before) during package) →
    registration.matches env package = true → ¬ (after env events).InPlay package →
    (registration.hook, package) ∈ (after env events).handed

end Runs

end Prism.Transport
