import Prism.Transport.Hooks

/-!
The invariant of a transport, and the events in which no hook misses a package.

Runs of a transport deliver once as long as no hook gets behind the cursor of a walk unseen, no
hook joins a walk whose package it has taken from the pool, no held package is dropped that a
registered hook matches, and hooks are registered once and removed where they were registered.

* `Orderly`: the events that are like this.
* `Sound`: what holds between two events. Hooks behind a cursor have been handed the package, and
  hooks ahead of it have not.
* `Keeps`: no package is left behind.
* `Sound.pop`, `Sound.advance`: dropping a package, and one turn of a walk.
-/

namespace Prism.Transport

open Lib

namespace TransportState

set_option linter.unusedSectionVars false

section

variable {Hook Digest : Type} [DecidableEq Hook] [DecidableEq Digest] (env : HookEnv Hook Digest)

/-! ### Orderly events -/

/-- A registered hook matches the package, and the hook task is not at offering it. -/
def Wanted (self : TransportState Hook Digest) (package : Package) : Prop :=
  self.offered ≠ some package ∧ ∃ r ∈ self.hooks, r.matches env package = true

/-- The hook is new to the transport. -/
def Fresh (self : TransportState Hook Digest) (hook : Hook) : Prop :=
  hook ∉ self.disposed ∧ (∀ r ∈ self.hooks, r.hook ≠ hook) ∧
    (∀ w ∈ self.registering, w.registration.hook ≠ hook) ∧
    ∀ package, (hook, package) ∉ self.handed

/-- No held package under the keys matches, so that the registration comes to its end. -/
def Finishes (self : TransportState Hook Digest) (registration : Registration Hook)
    (pids : List Digest) : Prop :=
  ∀ pid ∈ pids, ∀ held, self.messagePool.lookup pid = some held →
    registration.matches env held = false

/-- A hook that is appended will be met by each walk for a package that it matches, and has not
been handed that package. -/
def Joins (self : TransportState Hook Digest) (registration : Registration Hook) : Prop :=
  ∀ check ∈ self.checks, registration.matches env check.package = true →
    check.cursor ≤ self.hooks.length ∧ (registration.hook, check.package) ∉ self.handed

/-- When the hook is removed, one that matches the package of a walk gets behind its cursor. -/
def Skips (self : TransportState Hook Digest) (registration : Registration Hook) (check : Check) :
    Prop :=
  self.hooks.idxOf registration < check.cursor ∧
    ∃ next, self.hooks[check.cursor]? = some next ∧ next.matches env check.package = true

/-- **Events in which no hook misses a package or gets it twice.** -/
def Orderly (self : TransportState Hook Digest) : Event Hook → Prop
  -- a package that no hook matches takes the place of a held one with the same digest
  | .submitToHooks message timestamp =>
    (∀ r ∈ self.hooks, r.matches env { message, timestamp, serial := self.serial } = false) →
      ∀ held, self.messagePool.lookup (env.hexdigest message) = some held →
        ¬ self.Wanted env held
  | .resumeSubmit _ => True
  -- packages are dropped for their age
  | .wakeHookTask now => self.offered = none →
    ∀ pid held, self.messagePool.lookup pid = some held → tooOld env now held = true →
      ¬ self.Wanted env held
  -- so they are when the pass goes on, and the package under the key is dropped as delivered
  | .resumeHookTask => ∀ now pid check rest, self.hookTask = .offering now pid check rest →
    nextFrom (fun r => r.matches env check.package) self.hooks check.cursor = none →
      (∀ held, self.messagePool.lookup pid = some held → ¬ self.Wanted env held) ∧
      ∀ other ∈ rest, ∀ held, self.messagePool.lookup other = some held →
        tooOld env now held = true → ¬ self.Wanted env held
  | .registerHook hook epoch => self.Fresh hook ∧
    (self.Finishes env { hook, epoch, serial := self.serial } (self.messagePool.map Prod.fst) →
      self.Joins env { hook, epoch, serial := self.serial })
  -- the package that the hook has taken is dropped
  | .resumeRegister place => ∀ waiting, self.registering[place]? = some waiting →
    (∀ held, self.messagePool.lookup waiting.pid = some held → ¬ self.Wanted env held) ∧
      (self.Finishes env waiting.registration waiting.rest → self.Joins env waiting.registration)
  | .removeHook hook epoch => epoch = none ∨ (self.registrationOf hook epoch).isSome →
    (∀ r ∈ self.hooks, r.hook = hook → r.epoch = epoch) ∧
      (∀ w ∈ self.registering, w.registration.hook ≠ hook) ∧
      ∀ r, self.registrationOf hook epoch = some r →
        ∀ check ∈ self.checks, ¬ self.Skips env r check

/-! ### What holds between two events -/

/-- **The invariant** of orderly runs. -/
structure Sound (state : TransportState Hook Digest) : Prop where
  hooks : (state.hooks.map Registration.hook).Nodup
  live : ∀ r ∈ state.hooks, r.hook ∉ state.disposed
  mapped : ∀ r ∈ state.hooks, ∀ epoch, r.epoch = some epoch →
    state.hookMap.lookup (epoch, r.hook) = some r
  /-- Hooks that are being registered are not in the list yet. -/
  waiting : (state.registering.map fun w => w.registration.hook).Nodup
  apart : ∀ w ∈ state.registering, w.registration.hook ∉ state.disposed ∧
    ∀ r ∈ state.hooks, r.hook ≠ w.registration.hook
  /-- A registration comes to each key of the pool once. -/
  keys : ∀ w ∈ state.registering, (w.pid :: w.rest).Nodup
  taken : ∀ w ∈ state.registering, ∀ package, (w.registration.hook, package) ∈ state.handed →
    env.hexdigest package.message ∉ w.rest ∧
      (env.hexdigest package.message = w.pid ∨ package ∉ state.held)
  /-- Packages are numbered as they come. -/
  earlier : ∀ e ∈ state.handed, e.2.serial < state.serial
  young : ∀ package, state.InPlay package → package.serial < state.serial
  keyed : ∀ e ∈ state.messagePool, e.1 = env.hexdigest e.2.message
  pool : (state.messagePool.map Prod.fst).Nodup
  /-- What is held has been handed to registered hooks only while the hook task offers it. -/
  settled : ∀ r ∈ state.hooks, ∀ package, (r.hook, package) ∈ state.handed →
    package ∈ state.held → state.offered = some package
  /-- Behind a cursor all hooks have been handed the package, ahead of it none. -/
  seen : ∀ check ∈ state.checks, ∀ r ∈ state.hooks.take check.cursor,
    r.matches env check.package = true → (r.hook, check.package) ∈ state.handed
  ahead : ∀ check ∈ state.checks, ∀ r ∈ state.hooks.drop check.cursor,
    r.matches env check.package = true → (r.hook, check.package) ∉ state.handed
  /-- A submitted package that is being checked is nowhere else. -/
  checked : (state.checks.map Check.package).Nodup
  unheld : ∀ check ∈ state.submits, check.package ∉ state.held
  untaken : ∀ check ∈ state.submits, ∀ w ∈ state.registering,
    (w.registration.hook, check.package) ∉ state.handed
  atKey : ∀ now pid check rest, state.hookTask = .offering now pid check rest →
    pid = env.hexdigest check.package.message
  once : state.handed.Nodup

/-- From one state to another no package is left behind that one of the hooks matches. -/
structure Keeps (hooks : List (Registration Hook)) (state after : TransportState Hook Digest) :
    Prop where
  handed : state.handed ⊆ after.handed
  inPlay : ∀ r ∈ hooks, ∀ package, state.InPlay package → r.matches env package = true →
    after.InPlay package ∨ (r.hook, package) ∈ after.handed

end

variable {Hook Digest : Type} [DecidableEq Hook] [DecidableEq Digest] {env : HookEnv Hook Digest}
  {self after : TransportState Hook Digest} {registration : Registration Hook}
  {hooks : List (Registration Hook)}

theorem Keeps.trans {middle : TransportState Hook Digest} (first : Keeps env hooks self middle)
    (second : Keeps env hooks middle after) : Keeps env hooks self after where
  handed := fun _ mem => second.handed (first.handed mem)
  inPlay := by
    intro r mem package inPlay holds
    rcases first.inPlay r mem package inPlay holds with still | given
    · exact second.inPlay r mem package still holds
    · exact .inr (second.handed given)

/-- Nothing is left behind when all packages stay in play. -/
theorem Keeps.of_inPlay (handed : self.handed ⊆ after.handed)
    (inPlay : ∀ package, self.InPlay package → after.InPlay package) :
    Keeps env hooks self after :=
  ⟨handed, fun _ _ package mem _ => .inl (inPlay package mem)⟩

/-! ### The pool -/

theorem mem_held {package : Package} :
    package ∈ self.held ↔ ∃ pid, (pid, package) ∈ self.messagePool := by
  unfold held
  rw [List.mem_map]
  exact ⟨fun ⟨e, mem, eq⟩ => ⟨e.1, eq ▸ mem⟩, fun ⟨pid, mem⟩ => ⟨_, mem, rfl⟩⟩

theorem held_pop_subset {pid : Digest} : (self.pop pid).held ⊆ self.held := by
  intro package mem
  obtain ⟨other, mem⟩ := mem_held.mp mem
  exact mem_held.mpr ⟨other, (List.mem_filter.mp mem).1⟩

/-- What is dropped from the pool was held under the key. -/
theorem held_of_pop (pid : Digest) (nodup : (self.messagePool.map Prod.fst).Nodup)
    {package : Package} (mem : package ∈ self.held) :
    package ∈ (self.pop pid).held ∨ self.messagePool.lookup pid = some package := by
  obtain ⟨key, mem⟩ := mem_held.mp mem
  by_cases same : key = pid
  · exact .inr (same ▸ lookup_of_mem nodup mem)
  · exact .inl (mem_held.mpr ⟨key, List.mem_filter.mpr ⟨mem, by simpa using same⟩⟩)

/-- A package is held under its digest, and not after that has been dropped. -/
theorem Sound.not_held_pop (sound : Sound env self) {package : Package} :
    package ∉ (self.pop (env.hexdigest package.message)).held := by
  intro mem
  obtain ⟨key, mem⟩ := mem_held.mp mem
  obtain ⟨mem, other⟩ := List.mem_filter.mp mem
  rw [sound.keyed _ mem] at other
  simp at other

theorem Sound.pop (sound : Sound env self) (pid : Digest) : Sound env (self.pop pid) :=
  { sound with
    taken := fun w mem package given =>
      (sound.taken w mem package given).imp_right fun rest =>
        rest.imp_right fun absent still => absent (held_pop_subset still)
    young := fun package inPlay =>
      sound.young package (inPlay.imp_left fun still => held_pop_subset still)
    keyed := fun e mem => sound.keyed e (List.mem_filter.mp mem).1
    pool := sound.pool.sublist (List.filter_sublist.map _)
    settled := fun r mem package given still =>
      sound.settled r mem package given (held_pop_subset still)
    unheld := fun check mem still => sound.unheld check mem (held_pop_subset still) }

/-- A package that no registered hook wants may be dropped. -/
theorem Sound.keeps_pop (sound : Sound env self) {pid : Digest}
    (unwanted : ∀ held, self.messagePool.lookup pid = some held → ¬ self.Wanted env held) :
    Keeps env self.hooks self (self.pop pid) where
  handed := List.Subset.refl _
  inPlay := by
    rintro r mem package (still | inCheck) holds
    · rcases held_of_pop _ sound.pool still with still | dropped
      · exact .inl (.inl still)
      · left
        by_contra gone
        refine unwanted package dropped ⟨fun offered => gone (.inr ?_), r, mem, holds⟩
        obtain ⟨check, eq, rfl⟩ := Option.map_eq_some_iff.mp offered
        refine List.mem_map_of_mem (List.mem_append_left _ ?_)
        change check ∈ self.offering.toList
        rw [eq]
        exact List.mem_singleton_self _
    · exact .inl (.inr inCheck)

/-! ### Walks -/

/-- A hook in the list can be sent to. -/
theorem Sound.put (sound : Sound env self) {r : Registration Hook} (mem : r ∈ self.hooks)
    (package : Package) :
    self.put r package = some { self with handed := self.handed ++ [(r.hook, package)] } :=
  if_neg (sound.live r mem)

theorem Sound.nodup (sound : Sound env self) : self.hooks.Nodup := List.Nodup.of_map _ sound.hooks

/-- Two entries of the list for one hook are the same. -/
theorem Sound.hook_inj (sound : Sound env self) {r r' : Registration Hook} (mem : r ∈ self.hooks)
    (mem' : r' ∈ self.hooks) (same : r.hook = r'.hook) : r = r' :=
  List.inj_on_of_nodup_map sound.hooks mem mem' same

/-- `_check_hooks` goes on to the next hook that matches. -/
theorem Sound.checkHooks_waits (sound : Sound env self) (check : Check)
    {r : Registration Hook} {cursor : ℕ}
    (found : nextFrom (fun r => r.matches env check.package) self.hooks check.cursor =
      some (r, cursor)) :
    self.checkHooks env check =
      .waits { self with handed := self.handed ++ [(r.hook, check.package)] }
        { check with cursor } := by
  unfold checkHooks
  rw [found]
  dsimp only
  rw [sound.put (List.mem_of_mem_drop (mem_of_nextFrom found))]

theorem checkHooks_done (check : Check)
    (none : nextFrom (fun r => r.matches env check.package) self.hooks check.cursor = none) :
    self.checkHooks env check = .done := by
  unfold checkHooks
  rw [none]

/-- At the end of a walk all hooks that match have been handed the package. -/
theorem Sound.seen_all (sound : Sound env self) {check : Check} (mem : check ∈ self.checks)
    (none : nextFrom (fun r => r.matches env check.package) self.hooks check.cursor = none)
    {r : Registration Hook} (inList : r ∈ self.hooks)
    (holds : r.matches env check.package = true) : (r.hook, check.package) ∈ self.handed := by
  rw [← List.take_append_drop check.cursor self.hooks, List.mem_append] at inList
  rcases inList with behind | ahead
  · exact sound.seen check mem r behind holds
  · rw [nextFrom_eq_none.mp none r ahead] at holds
    cases holds

/-- **One turn of a walk** keeps the invariant: the hook ahead of the cursor is handed the package
and gets behind it. -/
theorem Sound.advance (sound : Sound env self) (check : Check) (mem : check ∈ self.checks)
    {r : Registration Hook} {cursor : ℕ}
    (found : nextFrom (fun r => r.matches env check.package) self.hooks check.cursor =
      some (r, cursor))
    {submits : List Check} {hookTask : HookTask Digest}
    (after_eq : after = { self with
      handed := self.handed ++ [(r.hook, check.package)], submits, hookTask })
    (sameSubmits : after.submits.map Check.package = self.submits.map Check.package)
    (sameOffered : after.offered = self.offered)
    (moved : ∀ c ∈ after.checks, c = { check with cursor } ∨
      c ∈ self.checks ∧ c.package ≠ check.package)
    (atKey : ∀ now pid check rest, hookTask = .offering now pid check rest →
      pid = env.hexdigest check.package.message) : Sound env after := by
  have samePackages : after.checks.map Check.package = self.checks.map Check.package := by
    unfold checks
    rw [List.map_append, List.map_append, sameSubmits, ← Option.toList_map, ← Option.toList_map]
    exact congrArg (fun o : Option Package => o.toList ++ _) sameOffered
  have holds := holds_of_nextFrom found
  have inList := mem_of_nextFrom found
  have inHooks := List.mem_of_mem_drop inList
  have fresh : (r.hook, check.package) ∉ self.handed := sound.ahead check mem r inList holds
  have mem_handed : ∀ e, e ∈ after.handed ↔ e ∈ self.handed ∨ e = (r.hook, check.package) := by
    intro e
    rw [after_eq]
    simp
  have inPlay : ∀ package, after.InPlay package ↔ self.InPlay package := by
    intro package
    unfold InPlay
    rw [samePackages, after_eq]
    rfl
  have unregistered : ∀ w ∈ self.registering, ∀ package,
      (w.registration.hook, package) ∈ after.handed →
        (w.registration.hook, package) ∈ self.handed := by
    intro w inside package given
    rcases (mem_handed _).mp given with given | eq
    · exact given
    · exact absurd (Prod.mk.inj eq).1.symm ((sound.apart w inside).2 r inHooks)
  have submitted : ∀ c ∈ after.submits, ∃ c' ∈ self.submits, c'.package = c.package := by
    intro c inside
    have mem := List.mem_map_of_mem inside (f := Check.package)
    rw [sameSubmits] at mem
    exact List.mem_map.mp mem
  subst after_eq
  exact {
    hooks := sound.hooks
    live := sound.live
    mapped := sound.mapped
    waiting := sound.waiting
    apart := sound.apart
    keys := sound.keys
    taken := fun w inside package given =>
      sound.taken w inside package (unregistered w inside package given)
    earlier := by
      intro e given
      rcases (mem_handed e).mp given with given | rfl
      · exact sound.earlier e given
      · exact sound.young _ (.inr (List.mem_map_of_mem mem))
    young := fun package still => sound.young package ((inPlay package).mp still)
    keyed := sound.keyed
    pool := sound.pool
    settled := by
      intro r' inside package given still
      refine sameOffered.trans ?_
      rcases (mem_handed _).mp given with given | eq
      · exact sound.settled r' inside package given still
      · obtain ⟨-, rfl⟩ := Prod.mk.inj eq
        rcases List.mem_append.mp mem with offered | submitted
        · unfold TransportState.offered
          rw [Option.mem_toList.mp offered]
          rfl
        · exact absurd still (sound.unheld check submitted)
    seen := by
      intro c inside r' behind holds'
      rcases moved c inside with rfl | ⟨inside, -⟩
      · rcases mem_take_of_nextFrom found behind holds' with behind | rfl
        · exact (mem_handed _).mpr (.inl (sound.seen check mem r' behind holds'))
        · exact (mem_handed _).mpr (.inr rfl)
      · exact (mem_handed _).mpr (.inl (sound.seen c inside r' behind holds'))
    ahead := by
      intro c inside r' ahead holds' given
      rcases (mem_handed _).mp given with given | eq
      · rcases moved c inside with rfl | ⟨inside, -⟩
        · have before := (mem_drop_of_nextFrom sound.nodup found ahead).1
          exact sound.ahead check mem r' before holds' given
        · exact sound.ahead c inside r' ahead holds' given
      · obtain ⟨sameHook, samePackage⟩ := Prod.mk.inj eq
        rcases moved c inside with rfl | ⟨-, other⟩
        · have same := sound.hook_inj (List.mem_of_mem_drop ahead) inHooks sameHook
          exact (mem_drop_of_nextFrom sound.nodup found ahead).2 same
        · exact other samePackage
    checked := samePackages ▸ sound.checked
    unheld := by
      intro c inside still
      obtain ⟨c', inside', same⟩ := submitted c inside
      exact sound.unheld c' inside' (same ▸ still)
    untaken := by
      intro c inside w inside' given
      obtain ⟨c', inside'', same⟩ := submitted c inside
      refine sound.untaken c' inside'' w inside' ?_
      rw [same]
      exact unregistered w inside' _ given
    atKey
    once := by
      refine List.nodup_append.mpr ⟨sound.once, List.nodup_singleton _, ?_⟩
      intro e given e' new same
      obtain rfl := List.mem_singleton.mp new
      exact fresh (same ▸ given) }

/-- The turn leaves no package behind. -/
theorem keeps_of_samePackages (handed : self.handed ⊆ after.handed)
    (pool : after.messagePool = self.messagePool)
    (samePackages : after.checks.map Check.package = self.checks.map Check.package) :
    Keeps env hooks self after := by
  refine .of_inPlay handed fun package inPlay => ?_
  unfold InPlay held
  rw [samePackages, pool]
  exact inPlay

end TransportState

end Prism.Transport
