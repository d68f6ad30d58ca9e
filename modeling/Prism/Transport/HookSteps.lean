import Prism.Transport.HookInvariant

/-!
What the events of a transport do to its invariant: submissions, the hook task, registrations and
removals (`prism/common/transport/transport.py`).

* `Sound.submitToHooks`, `Sound.resumeSubmit`: a package is checked as it comes.
* `Sound.hookLoop`, `Sound.resumeHookTask`: held packages are offered.
* `Sound.registerLoop`, `Sound.resumeRegister`: a hook takes held packages and is appended.
* `Sound.removeHook`: a hook is removed.
* `Sound.step`: orderly events keep the invariant, and leave no package behind.
-/

namespace Prism.Transport

open Lib

namespace TransportState

set_option linter.unusedSectionVars false

variable {Hook Digest : Type} [DecidableEq Hook] [DecidableEq Digest] {env : HookEnv Hook Digest}
  {self after : TransportState Hook Digest} {registration : Registration Hook}
  {hooks : List (Registration Hook)}

/-! ### Submissions -/

/-- A new package is numbered. -/
theorem Sound.count (sound : Sound env self) :
    Sound env { self with serial := self.serial + 1 } :=
  { sound with
    earlier := fun e mem => Nat.lt_succ_of_lt (sound.earlier e mem)
    young := fun package inPlay => Nat.lt_succ_of_lt (sound.young package inPlay) }

theorem Sound.new_not_inPlay (sound : Sound env self) (package : Package)
    (new : package.serial = self.serial) : ¬ self.InPlay package :=
  fun inPlay => absurd new (sound.young package inPlay).ne

theorem Sound.new_not_handed (sound : Sound env self) {package : Package}
    (new : package.serial = self.serial) (hook : Hook) : (hook, package) ∉ self.handed :=
  fun given => absurd new (sound.earlier _ given).ne

/-- The check of a new package begins. -/
theorem Sound.enter (sound : Sound env self) (package : Package)
    (new : package.serial = self.serial) :
    Sound env { self with
      serial := self.serial + 1
      submits := self.submits ++ [{ package, cursor := 0 }] } := by
  have checks : ∀ c, c ∈ self.offering.toList ++ (self.submits ++ [⟨package, 0⟩]) ↔
      c ∈ self.checks ∨ c = ⟨package, 0⟩ := by
    intro c
    rw [← List.append_assoc, List.mem_append, List.mem_singleton]
    rfl
  have packages : (self.offering.toList ++ (self.submits ++ [(⟨package, 0⟩ : Check)])).map
      Check.package = self.checks.map Check.package ++ [package] := by
    rw [← List.append_assoc, List.map_append]
    rfl
  refine { sound.count with
    young := ?_, seen := ?_, ahead := ?_, checked := ?_, unheld := ?_, untaken := ?_ }
  · rintro other (still | inCheck)
    · exact Nat.lt_succ_of_lt (sound.young other (.inl still))
    · change other ∈ (self.offering.toList ++ _).map Check.package at inCheck
      rw [packages, List.mem_append, List.mem_singleton] at inCheck
      rcases inCheck with inCheck | rfl
      · exact Nat.lt_succ_of_lt (sound.young other (.inr inCheck))
      · exact Nat.lt_succ_of_le new.le
  · intro c mem r behind holds
    rcases (checks c).mp mem with mem | rfl
    · exact sound.seen c mem r behind holds
    · simp at behind
  · intro c mem r ahead holds
    rcases (checks c).mp mem with mem | rfl
    · exact sound.ahead c mem r ahead holds
    · exact sound.new_not_handed new r.hook
  · change ((self.offering.toList ++ _).map Check.package).Nodup
    rw [packages]
    refine List.nodup_append.mpr ⟨sound.checked, List.nodup_singleton _, ?_⟩
    rintro a inCheck b isNew rfl
    obtain rfl := List.mem_singleton.mp isNew
    exact sound.new_not_inPlay _ new (.inr inCheck)
  · intro c mem
    rcases List.mem_append.mp mem with mem | isNew
    · exact sound.unheld c mem
    · obtain rfl := List.mem_singleton.mp isNew
      exact fun still => sound.new_not_inPlay _ new (.inl still)
  · intro c mem w inside
    rcases List.mem_append.mp mem with mem | isNew
    · exact sound.untaken c mem w inside
    · obtain rfl := List.mem_singleton.mp isNew
      exact sound.new_not_handed new _

/-- A new package is held. -/
theorem Sound.hold (sound : Sound env self) (package : Package)
    (new : package.serial = self.serial) :
    Sound env { self with
      serial := self.serial + 1
      messagePool := dictSet self.messagePool (env.hexdigest package.message) package } := by
  have held : ∀ other, other ∈ (dictSet self.messagePool (env.hexdigest package.message)
      package).map Prod.snd → other ∈ self.held ∨ other = package := by
    intro other mem
    obtain ⟨e, inDict, rfl⟩ := List.mem_map.mp mem
    rcases mem_dictSet.mp inDict with rfl | ⟨old, -⟩
    · exact .inr rfl
    · exact .inl (List.mem_map_of_mem old)
  refine { sound.count with
    taken := ?_, young := ?_, keyed := ?_, pool := nodup_dictSet sound.pool _ _
    settled := ?_, unheld := ?_ }
  · intro w mem other given
    refine (sound.taken w mem other given).imp_right fun rest => rest.imp_right ?_
    intro absent still
    rcases held other still with old | rfl
    · exact absent old
    · exact sound.new_not_handed new _ given
  · rintro other (still | inCheck)
    · rcases held other still with old | rfl
      · exact Nat.lt_succ_of_lt (sound.young other (.inl old))
      · exact Nat.lt_succ_of_le new.le
    · exact Nat.lt_succ_of_lt (sound.young other (.inr inCheck))
  · intro e mem
    rcases mem_dictSet.mp mem with rfl | ⟨old, -⟩
    · rfl
    · exact sound.keyed e old
  · intro r mem other given still
    rcases held other still with old | rfl
    · exact sound.settled r mem other given old
    · exact absurd given (sound.new_not_handed new _)
  · intro c mem still
    rcases held c.package still with old | isNew
    · exact sound.unheld c mem old
    · exact sound.new_not_inPlay _ new
        (.inr (isNew ▸ List.mem_map_of_mem (List.mem_append_right _ mem)))

/-- **A submission**: its package stays in play, and so do all others. -/
theorem Sound.submitToHooks (sound : Sound env self) (message : PrismMessage) (timestamp : ℤ)
    (orderly : self.Orderly env (.submitToHooks message timestamp)) :
    Sound env (self.submitToHooks env message timestamp) ∧
      Keeps env self.hooks self (self.submitToHooks env message timestamp) ∧
      (self.submitToHooks env message timestamp).InPlay
        { message, timestamp, serial := self.serial } := by
  set package : Package := { message, timestamp, serial := self.serial } with hpackage
  cases found : nextFrom (fun r => r.matches env package) self.hooks 0 with
  | none =>
      have done : ({ self with serial := self.serial + 1 } : TransportState Hook Digest).checkHooks
          env ⟨package, 0⟩ = .done := checkHooks_done _ found
      have run : self.submitToHooks env message timestamp = { self with
          serial := self.serial + 1
          messagePool := dictSet self.messagePool (env.hexdigest message) package } := by
        unfold TransportState.submitToHooks
        dsimp only
        rw [← hpackage, done]
      rw [run]
      have unmatched : ∀ r ∈ self.hooks, r.matches env package = false :=
        nextFrom_eq_none.mp found
      refine ⟨sound.hold package rfl, ⟨List.Subset.refl _, ?_⟩, .inl ?_⟩
      · rintro r mem other (still | inCheck) holds
        · obtain ⟨key, inPool⟩ := mem_held.mp still
          by_cases same : key = env.hexdigest message
          · subst same
            left
            right
            by_contra gone
            refine orderly unmatched other (lookup_of_mem sound.pool inPool) ⟨?_, r, mem, holds⟩
            intro offered
            obtain ⟨check, eq, rfl⟩ := Option.map_eq_some_iff.mp offered
            refine gone (List.mem_map_of_mem (List.mem_append_left _ ?_))
            exact Option.mem_toList.mpr eq
          · refine .inl (.inl (mem_held.mpr ⟨key, ?_⟩))
            exact mem_dictSet.mpr (.inr ⟨inPool, same⟩)
        · exact .inl (.inr inCheck)
      · exact mem_held.mpr ⟨env.hexdigest message, mem_dictSet.mpr (.inl rfl)⟩
  | some next =>
      obtain ⟨r, cursor⟩ := next
      have waits : ({ self with serial := self.serial + 1 } : TransportState Hook Digest).checkHooks
          env ⟨package, 0⟩ = .waits { self with
            serial := self.serial + 1, handed := self.handed ++ [(r.hook, package)] }
          ⟨package, cursor⟩ := sound.count.checkHooks_waits _ found
      have run : self.submitToHooks env message timestamp = { self with
          serial := self.serial + 1
          handed := self.handed ++ [(r.hook, package)]
          submits := self.submits ++ [⟨package, cursor⟩] } := by
        unfold TransportState.submitToHooks
        dsimp only
        rw [← hpackage, waits]
      rw [run]
      have inChecks : (⟨package, cursor⟩ : Check) ∈ self.checks ++ [⟨package, cursor⟩] :=
        List.mem_append_right _ (List.mem_singleton_self _)
      refine ⟨?_, ?_, .inr ?_⟩
      · have new : package ∉ self.checks.map Check.package :=
          fun inCheck => sound.new_not_inPlay package rfl (.inr inCheck)
        refine (sound.enter package rfl).advance ⟨package, 0⟩ ?_ found rfl
          ?_ rfl ?_ sound.atKey
        · exact List.mem_append_right _ (List.mem_append_right _ (List.mem_singleton_self _))
        · simp
        · intro c mem
          change c ∈ self.offering.toList ++ (self.submits ++ [⟨package, cursor⟩]) at mem
          rw [← List.append_assoc, List.mem_append, List.mem_singleton] at mem
          rcases mem with mem | rfl
          · right
            have inPlay := List.mem_map_of_mem (f := Check.package) mem
            refine ⟨?_, fun same => new ((show c.package = package from same) ▸ inPlay)⟩
            change c ∈ self.offering.toList ++ (self.submits ++ [⟨package, 0⟩])
            rw [← List.append_assoc]
            exact List.mem_append_left _ mem
          · exact .inl rfl
      · refine .of_inPlay (List.subset_append_left _ _) fun other inPlay => inPlay.imp_right ?_
        intro inCheck
        change other ∈
          (self.offering.toList ++ (self.submits ++ [(⟨package, cursor⟩ : Check)])).map _
        rw [← List.append_assoc, List.map_append]
        exact List.mem_append_left _ inCheck
      · change package ∈
          (self.offering.toList ++ (self.submits ++ [(⟨package, cursor⟩ : Check)])).map _
        rw [← List.append_assoc]
        exact List.mem_map_of_mem inChecks

/-- A check of a submission ends. -/
theorem Sound.finishSubmit (sound : Sound env self) (place : ℕ) :
    Sound env { self with submits := self.submits.eraseIdx place } := by
  have checks : (self.offering.toList ++ self.submits.eraseIdx place).Sublist self.checks :=
    (List.Sublist.refl _).append (List.eraseIdx_sublist _ _)
  exact { sound with
    young := fun package inPlay =>
      sound.young package (inPlay.imp_right fun mem => (checks.map _).mem mem)
    seen := fun c mem => sound.seen c (checks.mem mem)
    ahead := fun c mem => sound.ahead c (checks.mem mem)
    checked := sound.checked.sublist (checks.map _)
    unheld := fun c mem => sound.unheld c (List.mem_of_mem_eraseIdx mem)
    untaken := fun c mem => sound.untaken c (List.mem_of_mem_eraseIdx mem) }

/-- **A submission goes on.** -/
theorem Sound.resumeSubmit (sound : Sound env self) (place : ℕ) :
    Sound env (self.resumeSubmit env place) ∧
      Keeps env self.hooks self (self.resumeSubmit env place) := by
  unfold TransportState.resumeSubmit
  cases at_place : self.submits[place]? with
  | none => exact ⟨sound, .of_inPlay (List.Subset.refl _) fun _ inPlay => inPlay⟩
  | some check =>
      have inSubmits : check ∈ self.submits := List.mem_of_getElem? at_place
      have mem : check ∈ self.checks := List.mem_append_right _ inSubmits
      dsimp only
      cases found : nextFrom (fun r => r.matches env check.package) self.hooks check.cursor with
      | none =>
          rw [checkHooks_done _ found]
          refine ⟨sound.finishSubmit place, List.Subset.refl _, ?_⟩
          rintro r inHooks package (still | inCheck) holds
          · exact .inl (.inl still)
          · obtain ⟨c, inChecks, rfl⟩ := List.mem_map.mp inCheck
            by_cases same : c.package = check.package
            · right
              rw [same] at holds ⊢
              exact sound.seen_all mem found inHooks holds
            · refine .inl (.inr (List.mem_map_of_mem ?_))
              rcases List.mem_append.mp inChecks with offered | submitted
              · exact List.mem_append_left _ offered
              · refine List.mem_append_right _ (List.mem_eraseIdx_iff_getElem?.mpr ?_)
                obtain ⟨i, at_i⟩ := List.mem_iff_getElem?.mp submitted
                refine ⟨i, fun eq => same ?_, at_i⟩
                rw [eq, at_place] at at_i
                rw [Option.some.inj at_i]
      | some next =>
          obtain ⟨r, cursor⟩ := next
          rw [sound.checkHooks_waits _ found]
          have packages : (self.submits.set place { check with cursor }).map Check.package =
              self.submits.map Check.package := by
            refine List.ext_getElem? fun i => ?_
            rw [List.getElem?_map, List.getElem?_map, List.getElem?_set]
            split_ifs with here lt
            · subst here
              rw [at_place]
              rfl
            · subst here
              exact absurd (List.getElem?_eq_some_iff.mp at_place).1 lt
            · rfl
          constructor
          · refine sound.advance check mem found rfl packages rfl ?_ sound.atKey
            intro c inChecks
            rcases List.mem_append.mp inChecks with offered | submitted
            · refine .inr ⟨List.mem_append_left _ offered, fun same => ?_⟩
              have apart := sound.checked
              unfold checks at apart
              rw [List.map_append, List.nodup_append] at apart
              exact apart.2.2 _ (List.mem_map_of_mem offered) _ (List.mem_map_of_mem inSubmits) same
            · obtain ⟨i, at_i⟩ := List.mem_iff_getElem?.mp submitted
              rw [List.getElem?_set] at at_i
              split_ifs at at_i with here lt
              · exact .inl (Option.some.inj at_i).symm
              · have old : c ∈ self.submits := List.mem_of_getElem? at_i
                refine .inr ⟨List.mem_append_right _ old, fun same => here ?_⟩
                have apart := (List.nodup_append.mp
                  (List.map_append ▸ sound.checked : (self.offering.toList.map Check.package ++
                    self.submits.map Check.package).Nodup)).2.1
                have at_place' : (self.submits.map Check.package)[place]? =
                    some check.package := by
                  rw [List.getElem?_map, at_place]
                  rfl
                have at_i' : (self.submits.map Check.package)[i]? = some check.package := by
                  rw [List.getElem?_map, at_i, ← same]
                  rfl
                exact (List.getElem?_inj (List.getElem?_eq_some_iff.mp at_place').1 apart).mp
                  (at_place'.trans at_i'.symm)
          · refine keeps_of_samePackages (List.subset_append_left _ _) rfl ?_
            change (self.offering.toList ++ _).map _ = (self.offering.toList ++ _).map _
            rw [List.map_append, List.map_append, packages]

/-! ### The hook task -/

/-- The hook task begins to offer a held package. -/
theorem Sound.offer (sound : Sound env self) (asleep : self.hookTask = .asleep) (now : ℤ)
    {pid : Digest} {package : Package} (rest : List Digest)
    (found : self.messagePool.lookup pid = some package) :
    Sound env { self with hookTask := .offering now pid ⟨package, 0⟩ rest } := by
  have inPool := mem_of_lookup found
  have still : package ∈ self.held := mem_held.mpr ⟨pid, inPool⟩
  have resting : self.offered = none := by
    unfold offered offering
    rw [asleep]
    rfl
  have checks : self.checks = self.submits := by
    unfold checks offering
    rw [asleep]
    rfl
  have unoffered : ∀ r ∈ self.hooks, ∀ other, (r.hook, other) ∈ self.handed →
      other ∉ self.held := by
    intro r mem other given inHeld
    rw [sound.settled r mem other given inHeld] at resting
    cases resting
  refine { sound with
    young := ?_, settled := ?_, seen := ?_, ahead := ?_, checked := ?_, atKey := ?_ }
  · rintro other (inHeld | inCheck)
    · exact sound.young other (.inl inHeld)
    · rcases List.mem_cons.mp inCheck with same | inSubmits
      · exact sound.young other (.inl ((show other = package from same) ▸ still))
      · exact sound.young other (.inr (checks ▸ inSubmits))
  · intro r mem other given inHeld
    exact absurd inHeld (unoffered r mem other given)
  · intro c mem r behind holds
    rcases List.mem_cons.mp mem with rfl | inSubmits
    · simp at behind
    · exact sound.seen c (checks ▸ inSubmits) r behind holds
  · intro c mem r ahead holds given
    rcases List.mem_cons.mp mem with rfl | inSubmits
    · exact unoffered r (List.mem_of_mem_drop ahead) package given still
    · exact sound.ahead c (checks ▸ inSubmits) r ahead holds given
  · have distinct := sound.checked
    rw [checks] at distinct
    refine List.nodup_cons.mpr ⟨fun inCheck => ?_, distinct⟩
    obtain ⟨c, inSubmits, same⟩ := List.mem_map.mp inCheck
    exact sound.unheld c inSubmits (same ▸ still)
  · intro now' pid' check' rest' same
    cases same
    exact sound.keyed _ inPool

/-- The hook task goes on with the walk that it is at. -/
theorem Sound.advance_offering (sound : Sound env self) {now : ℤ} {pid : Digest} {check : Check}
    {rest : List Digest} (task : self.hookTask = .offering now pid check rest)
    {r : Registration Hook} {cursor : ℕ}
    (found : nextFrom (fun r => r.matches env check.package) self.hooks check.cursor =
      some (r, cursor)) :
    Sound env { self with
      handed := self.handed ++ [(r.hook, check.package)]
      hookTask := .offering now pid { check with cursor } rest } := by
  have offering : self.offering = some check := by
    unfold offering
    rw [task]
  have checks : self.checks = check :: self.submits := by
    unfold checks
    rw [offering]
    rfl
  refine sound.advance check (checks ▸ List.mem_cons_self) found rfl rfl ?_ ?_ ?_
  · unfold offered
    rw [offering]
    rfl
  · intro c mem
    rcases List.mem_cons.mp mem with rfl | inSubmits
    · exact .inl rfl
    · refine .inr ⟨checks ▸ List.mem_cons_of_mem _ inSubmits, fun same => ?_⟩
      have distinct := sound.checked
      rw [checks, List.map_cons, List.nodup_cons] at distinct
      exact distinct.1 (same ▸ List.mem_map_of_mem inSubmits)
  · intro now' pid' check' rest' same
    cases same
    exact sound.atKey now pid check rest task

/-- What the pool has under another key when an entry is dropped. -/
theorem lookup_of_pop {pid other : Digest} {package : Package}
    (found : (self.pop pid).messagePool.lookup other = some package) :
    other ≠ pid ∧ self.messagePool.lookup other = some package := by
  unfold TransportState.pop at found
  rw [lookup_filter_ne] at found
  split_ifs at found with same
  exact ⟨same, found⟩

/-- **A pass of the hook task**, from some keys on: it leaves no package behind when no hook
matches the packages that are too old. -/
theorem Sound.hookLoop {now : ℤ} {rest : List Digest} (sound : Sound env self)
    (asleep : self.hookTask = .asleep)
    (unwanted : ∀ pid ∈ rest, ∀ held, self.messagePool.lookup pid = some held →
      tooOld env now held = true → ¬ self.Wanted env held) :
    Sound env (hookLoop env now rest self) ∧
      Keeps env self.hooks self (hookLoop env now rest self) := by
  induction rest generalizing self with
  | nil =>
      have same : TransportState.hookLoop env now [] self = self := by
        unfold TransportState.hookLoop
        rw [← asleep]
      rw [same]
      exact ⟨sound, .of_inPlay (List.Subset.refl _) fun _ inPlay => inPlay⟩
  | cons pid rest ih =>
      have unwanted_rest : ∀ pid ∈ rest, ∀ held, self.messagePool.lookup pid = some held →
          tooOld env now held = true → ¬ self.Wanted env held :=
        fun other mem => unwanted other (List.mem_cons_of_mem _ mem)
      unfold TransportState.hookLoop
      cases found : self.messagePool.lookup pid with
      | none => exact ih sound asleep unwanted_rest
      | some package =>
          dsimp only
          split_ifs with old
          · have dropped := unwanted pid List.mem_cons_self package found old
            have rest := ih (sound.pop pid) asleep fun other mem held inPool =>
              unwanted_rest other mem held (lookup_of_pop inPool).2
            refine ⟨rest.1, .trans (sound.keeps_pop fun held inPool => ?_) rest.2⟩
            obtain rfl := Option.some.inj (found.symm.trans inPool)
            exact dropped
          · have offering := sound.offer asleep now rest found
            cases walk : nextFrom (fun r => r.matches env package) self.hooks 0 with
            | none =>
                rw [checkHooks_done ⟨package, 0⟩ walk]
                exact ih sound asleep unwanted_rest
            | some next =>
                obtain ⟨r, cursor⟩ := next
                rw [sound.checkHooks_waits ⟨package, 0⟩ walk]
                refine ⟨offering.advance_offering rfl walk, ?_⟩
                refine .of_inPlay (List.subset_append_left _ _) fun other inPlay => ?_
                refine inPlay.imp_right fun inCheck => List.mem_cons_of_mem _ ?_
                unfold checks TransportState.offering at inCheck
                rw [asleep] at inCheck
                exact inCheck

/-- **The hook task wakes up.** -/
theorem Sound.wakeHookTask (sound : Sound env self) {now : ℤ}
    (orderly : self.Orderly env (.wakeHookTask now)) :
    Sound env (self.wakeHookTask env now) ∧
      Keeps env self.hooks self (self.wakeHookTask env now) := by
  unfold TransportState.wakeHookTask
  cases task : self.hookTask with
  | asleep =>
      refine sound.hookLoop task fun pid mem held found old => ?_
      refine orderly ?_ pid held found old
      unfold offered TransportState.offering
      rw [task]
      rfl
  | offering now' pid check rest =>
      exact ⟨sound, .of_inPlay (List.Subset.refl _) fun _ inPlay => inPlay⟩
  | stopped => exact ⟨sound, .of_inPlay (List.Subset.refl _) fun _ inPlay => inPlay⟩

/-- The walk that the hook task is at ends, and the package is dropped from the pool. -/
theorem Sound.finishOffer (sound : Sound env self) {now : ℤ} {pid : Digest} {check : Check}
    {rest : List Digest} (task : self.hookTask = .offering now pid check rest) :
    Sound env ({ self with hookTask := .asleep }.pop pid) := by
  have checks : self.checks = check :: self.submits := by
    unfold checks TransportState.offering
    rw [task]
    rfl
  have popped := sound.pop pid
  refine { popped with
    young := ?_, settled := ?_, seen := ?_, ahead := ?_, checked := ?_, atKey := ?_ }
  · rintro other (inHeld | inCheck)
    · exact popped.young other (.inl inHeld)
    · exact sound.young other (.inr (checks ▸ List.mem_cons_of_mem _ inCheck))
  · intro r mem other given inHeld
    have offered := sound.settled r mem other given (held_pop_subset inHeld)
    unfold TransportState.offered TransportState.offering at offered
    rw [task] at offered
    obtain rfl := Option.some.inj offered
    rw [sound.atKey _ _ _ _ task] at inHeld
    exact absurd inHeld sound.not_held_pop
  · exact fun c mem => sound.seen c (checks ▸ List.mem_cons_of_mem _ mem)
  · exact fun c mem => sound.ahead c (checks ▸ List.mem_cons_of_mem _ mem)
  · have distinct := sound.checked
    rw [checks, List.map_cons, List.nodup_cons] at distinct
    exact distinct.2
  · intro now' pid' check' rest' same
    cases same

/-- **The hook task goes on.** -/
theorem Sound.resumeHookTask (sound : Sound env self) (orderly : self.Orderly env .resumeHookTask) :
    Sound env (self.resumeHookTask env) ∧
      Keeps env self.hooks self (self.resumeHookTask env) := by
  unfold TransportState.resumeHookTask
  cases task : self.hookTask with
  | asleep => exact ⟨sound, .of_inPlay (List.Subset.refl _) fun _ inPlay => inPlay⟩
  | stopped => exact ⟨sound, .of_inPlay (List.Subset.refl _) fun _ inPlay => inPlay⟩
  | offering now pid check rest =>
      have offering : self.offering = some check := by
        unfold TransportState.offering
        rw [task]
      have checks : self.checks = check :: self.submits := by
        unfold checks
        rw [offering]
        rfl
      have mem : check ∈ self.checks := checks ▸ List.mem_cons_self
      dsimp only
      cases found : nextFrom (fun r => r.matches env check.package) self.hooks check.cursor with
      | none =>
          rw [checkHooks_done _ found]
          dsimp only
          obtain ⟨dropped, unwanted⟩ := orderly now pid check rest task found
          have ended := sound.finishOffer task
          have rest_unwanted : ∀ other ∈ rest, ∀ held,
              (self.pop pid).messagePool.lookup other = some held → tooOld env now held = true →
              ¬ ({ self with hookTask := .asleep }.pop pid).Wanted env held := by
            intro other inRest held inPool old wanted
            obtain ⟨ne, inPool⟩ := lookup_of_pop inPool
            refine unwanted other inRest held inPool old ⟨fun offered => ne ?_, wanted.2⟩
            unfold TransportState.offered at offered
            rw [offering] at offered
            obtain rfl := Option.some.inj offered
            rw [sound.atKey _ _ _ _ task]
            exact sound.keyed _ (mem_of_lookup inPool)
          have later := ended.hookLoop rfl rest_unwanted
          have kept : Keeps env self.hooks _ _ := later.2
          have ends : Keeps env self.hooks self ({ self with hookTask := .asleep }.pop pid) := by
            refine ⟨List.Subset.refl _, ?_⟩
            intro r inHooks package inPlay holds
            by_cases same : package = check.package
            · subst same
              exact .inr (sound.seen_all mem found inHooks holds)
            · left
              rcases inPlay with still | inCheck
              · rcases held_of_pop pid sound.pool still with still | gone
                · exact .inl still
                · refine absurd ⟨fun offered => same ?_, r, inHooks, holds⟩ (dropped package gone)
                  unfold TransportState.offered at offered
                  rw [offering] at offered
                  exact (Option.some.inj offered).symm
              · rw [checks, List.map_cons, List.mem_cons] at inCheck
                exact .inr (inCheck.resolve_left same)
          exact ⟨later.1, ends.trans kept⟩
      | some next =>
          obtain ⟨r, cursor⟩ := next
          rw [sound.checkHooks_waits _ found]
          refine ⟨sound.advance_offering task found, ?_⟩
          refine keeps_of_samePackages (List.subset_append_left _ _) rfl ?_
          rw [checks]
          rfl

/-! ### Registrations -/

/-- A hook on its way into the list, with keys of the pool that it has not come to. What it has
taken is not held any more. -/
structure Entering (env : HookEnv Hook Digest) (state : TransportState Hook Digest)
    (registration : Registration Hook) (rest : List Digest) : Prop where
  opened : registration.hook ∉ state.disposed
  unlisted : ∀ r ∈ state.hooks, r.hook ≠ registration.hook
  alone : ∀ w ∈ state.registering, w.registration.hook ≠ registration.hook
  keys : rest.Nodup
  taken : ∀ package, (registration.hook, package) ∈ state.handed →
    env.hexdigest package.message ∉ rest ∧ package ∉ state.held
  untaken : ∀ check ∈ state.submits, (registration.hook, check.package) ∉ state.handed

/-- **The hook is appended.** -/
theorem Sound.append (sound : Sound env self) {rest : List Digest}
    (entering : Entering env self registration rest) (joins : self.Joins env registration) :
    Sound env (self.append registration) := by
  have listed : ∀ r, r ∈ (self.append registration).hooks ↔ r ∈ self.hooks ∨ r = registration := by
    intro r
    unfold TransportState.append
    rw [List.mem_append, List.mem_singleton]
  refine { sound with
    hooks := ?_, live := ?_, mapped := ?_, apart := ?_, settled := ?_, seen := ?_, ahead := ?_ }
  · unfold TransportState.append
    rw [List.map_append, List.nodup_append]
    refine ⟨sound.hooks, List.nodup_singleton _, ?_⟩
    intro hook mem hook' new
    obtain ⟨r, inList, rfl⟩ := List.mem_map.mp mem
    obtain rfl := List.mem_singleton.mp new
    exact entering.unlisted r inList
  · intro r mem
    rcases (listed r).mp mem with mem | rfl
    · exact sound.live r mem
    · exact entering.opened
  · intro r mem epoch ofEpoch
    unfold TransportState.append
    rcases (listed r).mp mem with mem | rfl
    · have old := sound.mapped r mem epoch ofEpoch
      cases registration.epoch with
      | none => exact old
      | some other =>
          dsimp only
          rw [lookup_dictSet, if_neg]
          · exact old
          · exact fun same => entering.unlisted r mem (Prod.mk.inj same).2
    · dsimp only
      rw [ofEpoch]
      dsimp only
      rw [lookup_dictSet, if_pos rfl]
  · intro w mem
    refine ⟨(sound.apart w mem).1, fun r inList => ?_⟩
    rcases (listed r).mp inList with inList | rfl
    · exact (sound.apart w mem).2 r inList
    · exact (entering.alone w mem).symm
  · intro r mem package given still
    rcases (listed r).mp mem with mem | rfl
    · exact sound.settled r mem package given still
    · exact absurd still (entering.taken package given).2
  · intro check mem r behind holds
    change r ∈ (self.hooks ++ [registration]).take check.cursor at behind
    rw [List.take_append, List.mem_append] at behind
    rcases behind with behind | new
    · exact sound.seen check mem r behind holds
    · obtain rfl := List.mem_singleton.mp (List.mem_of_mem_take new)
      rw [Nat.sub_eq_zero_of_le (joins check mem holds).1] at new
      cases new
  · intro check mem r ahead holds
    change r ∈ (self.hooks ++ [registration]).drop check.cursor at ahead
    rw [List.drop_append, List.mem_append] at ahead
    rcases ahead with ahead | new
    · exact sound.ahead check mem r ahead holds
    · obtain rfl := List.mem_singleton.mp (List.mem_of_mem_drop new)
      exact (joins check mem holds).2

/-- The hook takes a package from the pool. -/
theorem Sound.take (sound : Sound env self) {pid : Digest} {rest : List Digest}
    (entering : Entering env self registration (pid :: rest)) {package : Package}
    (found : self.messagePool.lookup pid = some package) :
    Sound env { self with
      handed := self.handed ++ [(registration.hook, package)]
      registering := self.registering ++ [{ registration, pid, rest }] } := by
  have inPool := mem_of_lookup found
  have still : package ∈ self.held := mem_held.mpr ⟨pid, inPool⟩
  have key : pid = env.hexdigest package.message := sound.keyed _ inPool
  have mem_handed : ∀ e, e ∈ self.handed ++ [(registration.hook, package)] →
      e ∈ self.handed ∨ e = (registration.hook, package) :=
    fun e mem => (List.mem_append.mp mem).imp_right List.mem_singleton.mp
  have other : ∀ hook, hook ≠ registration.hook → ∀ p,
      (hook, p) ∈ self.handed ++ [(registration.hook, package)] → (hook, p) ∈ self.handed := by
    intro hook ne p given
    refine (mem_handed _ given).resolve_right fun same => ne (Prod.mk.inj same).1
  have mem_registering : ∀ w, w ∈ self.registering ++ [⟨registration, pid, rest⟩] →
      w ∈ self.registering ∨ w = ⟨registration, pid, rest⟩ :=
    fun w mem => (List.mem_append.mp mem).imp_right List.mem_singleton.mp
  refine { sound with
    waiting := ?_, apart := ?_, keys := ?_, taken := ?_, earlier := ?_, settled := ?_, seen := ?_
    ahead := ?_, untaken := ?_, once := ?_ }
  · rw [List.map_append, List.nodup_append]
    refine ⟨sound.waiting, List.nodup_singleton _, ?_⟩
    intro hook mem hook' new
    obtain ⟨w, inside, rfl⟩ := List.mem_map.mp mem
    obtain rfl := List.mem_singleton.mp new
    exact entering.alone w inside
  · intro w mem
    rcases mem_registering w mem with mem | rfl
    · exact sound.apart w mem
    · exact ⟨entering.opened, entering.unlisted⟩
  · intro w mem
    rcases mem_registering w mem with mem | rfl
    · exact sound.keys w mem
    · exact entering.keys
  · intro w mem p given
    rcases mem_registering w mem with mem | rfl
    · exact sound.taken w mem p (other _ (entering.alone w mem) p given)
    · rcases mem_handed _ given with given | same
      · obtain ⟨away, gone⟩ := entering.taken p given
        exact ⟨fun inRest => away (List.mem_cons_of_mem _ inRest), .inr gone⟩
      · obtain ⟨-, rfl⟩ := Prod.mk.inj same
        exact ⟨key ▸ (List.nodup_cons.mp entering.keys).1, .inl key.symm⟩
  · intro e mem
    rcases mem_handed e mem with mem | rfl
    · exact sound.earlier e mem
    · exact sound.young package (.inl still)
  · intro r mem p given
    exact sound.settled r mem p (other _ (entering.unlisted r mem) p given)
  · intro check mem r behind holds
    exact List.mem_append_left _ (sound.seen check mem r behind holds)
  · intro check mem r ahead holds given
    have inHooks := List.mem_of_mem_drop ahead
    exact sound.ahead check mem r ahead holds (other _ (entering.unlisted r inHooks) _ given)
  · intro check mem w inside given
    rcases mem_registering w inside with inside | rfl
    · exact sound.untaken check mem w inside (other _ (entering.alone w inside) _ given)
    · rcases mem_handed _ given with given | same
      · exact entering.untaken check mem given
      · exact sound.unheld check mem ((Prod.mk.inj same).2 ▸ still)
  · refine List.nodup_append.mpr ⟨sound.once, List.nodup_singleton _, ?_⟩
    intro e given e' new same
    obtain rfl := List.mem_singleton.mp new
    refine (entering.taken package (same ▸ given)).1 ?_
    rw [← key]
    exact List.mem_cons_self

/-- **A registration**, from some keys on. -/
theorem Sound.registerLoop {rest : List Digest} (sound : Sound env self)
    (entering : Entering env self registration rest)
    (joins : self.Finishes env registration rest → self.Joins env registration) :
    Sound env (registerLoop env registration rest self) ∧
      Keeps env self.hooks self (registerLoop env registration rest self) := by
  induction rest with
  | nil =>
      refine ⟨sound.append entering (joins fun _ mem => absurd mem List.not_mem_nil), ?_⟩
      exact .of_inPlay (List.Subset.refl _) fun _ inPlay => inPlay
  | cons pid rest ih =>
      have tail : Entering env self registration rest :=
        { entering with
          keys := (List.nodup_cons.mp entering.keys).2
          taken := fun package given =>
            (entering.taken package given).imp_left fun away inRest =>
              away (List.mem_cons_of_mem _ inRest) }
      unfold TransportState.registerLoop
      cases found : self.messagePool.lookup pid with
      | none =>
          refine ih tail fun finishes => joins fun other mem held inPool => ?_
          rcases List.mem_cons.mp mem with rfl | mem
          · rw [found] at inPool
            cases inPool
          · exact finishes other mem held inPool
      | some package =>
          dsimp only
          split_ifs with holds
          · have put : self.put registration package =
                some { self with handed := self.handed ++ [(registration.hook, package)] } :=
              if_neg entering.opened
            rw [put]
            refine ⟨sound.take entering found, ?_⟩
            exact .of_inPlay (List.subset_append_left _ _) fun _ inPlay => inPlay
          · refine ih tail fun finishes => joins fun other mem held inPool => ?_
            rcases List.mem_cons.mp mem with rfl | mem
            · obtain rfl := Option.some.inj (found.symm.trans inPool)
              simpa using holds
            · exact finishes other mem held inPool

/-- **A registration begins.** -/
theorem Sound.registerHook (sound : Sound env self) {hook : Hook} {epoch : Option String}
    (orderly : self.Orderly env (.registerHook hook epoch)) :
    Sound env (self.registerHook env hook epoch) ∧
      Keeps env self.hooks self (self.registerHook env hook epoch) := by
  obtain ⟨⟨opened, unlisted, alone, never⟩, joins⟩ := orderly
  have entering : Entering env { self with serial := self.serial + 1 }
      ⟨hook, epoch, self.serial⟩ (self.messagePool.map Prod.fst) :=
    { opened, unlisted, alone
      keys := sound.pool
      taken := fun package given => absurd given (never package)
      untaken := fun check _ => never check.package }
  have looped := sound.count.registerLoop entering joins
  have same : Keeps env self.hooks self { self with serial := self.serial + 1 } :=
    .of_inPlay (List.Subset.refl _) fun _ inPlay => inPlay
  exact ⟨looped.1, same.trans looped.2⟩

/-- A registration that waits is taken up. -/
theorem Sound.leave (sound : Sound env self) (place : ℕ) :
    Sound env { self with registering := self.registering.eraseIdx place } :=
  { sound with
    waiting := sound.waiting.sublist ((List.eraseIdx_sublist _ _).map _)
    apart := fun w mem => sound.apart w (List.mem_of_mem_eraseIdx mem)
    keys := fun w mem => sound.keys w (List.mem_of_mem_eraseIdx mem)
    taken := fun w mem => sound.taken w (List.mem_of_mem_eraseIdx mem)
    untaken := fun check mem w inside =>
      sound.untaken check mem w (List.mem_of_mem_eraseIdx inside) }

/-- **A registration goes on.** -/
theorem Sound.resumeRegister (sound : Sound env self) {place : ℕ}
    (orderly : self.Orderly env (.resumeRegister place)) :
    Sound env (self.resumeRegister env place) ∧
      Keeps env self.hooks self (self.resumeRegister env place) := by
  unfold TransportState.resumeRegister
  cases at_place : self.registering[place]? with
  | none => exact ⟨sound, .of_inPlay (List.Subset.refl _) fun _ inPlay => inPlay⟩
  | some waiting =>
      obtain ⟨dropped, joins⟩ := orderly waiting at_place
      have mem : waiting ∈ self.registering := List.mem_of_getElem? at_place
      have left := sound.leave place
      have keys := List.nodup_cons.mp (sound.keys waiting mem)
      have same : Keeps env self.hooks self
          { self with registering := self.registering.eraseIdx place } :=
        .of_inPlay (List.Subset.refl _) fun _ inPlay => inPlay
      have kept := same.trans (left.keeps_pop dropped)
      have entering : Entering env
          ({ self with registering := self.registering.eraseIdx place }.pop waiting.pid)
          waiting.registration waiting.rest := by
        refine ⟨(sound.apart waiting mem).1, (sound.apart waiting mem).2, ?_, keys.2, ?_, ?_⟩
        · intro w inside same
          obtain ⟨i, ne, at_i⟩ := List.mem_eraseIdx_iff_getElem?.mp inside
          have here : (self.registering.map fun w => w.registration.hook)[place]? =
              some waiting.registration.hook := by
            rw [List.getElem?_map, at_place]
            rfl
          have there : (self.registering.map fun w => w.registration.hook)[i]? =
              some waiting.registration.hook := by
            rw [List.getElem?_map, at_i, ← same]
            rfl
          exact ne ((List.getElem?_inj (List.getElem?_eq_some_iff.mp there).1 sound.waiting).mp
            (there.trans here.symm))
        · intro package given
          obtain ⟨away, gone⟩ := sound.taken waiting mem package given
          refine ⟨away, fun still => ?_⟩
          rcases gone with key | gone
          · rw [← key] at still
            exact left.not_held_pop still
          · exact gone (held_pop_subset still)
        · exact fun check inside => sound.untaken check inside waiting mem
      have looped := (left.pop waiting.pid).registerLoop entering fun finishes => joins
        fun pid inRest held inPool => by
          have other : pid ≠ waiting.pid := fun same => keys.1 (same ▸ inRest)
          refine finishes pid inRest held ?_
          unfold TransportState.pop
          rw [lookup_filter_ne, if_neg other]
          exact inPool
      have kept' : Keeps env self.hooks _ _ := looped.2
      exact ⟨looped.1, kept.trans kept'⟩

/-! ### Removals -/

/-- **A hook is removed**, and no other gets behind a cursor unseen. -/
theorem Sound.dispose (sound : Sound env self) {hook : Hook} {hooks : List (Registration Hook)}
    {hookMap : List ((String × Hook) × Registration Hook)} (sub : hooks.Sublist self.hooks)
    (gone : ∀ r ∈ hooks, r.hook ≠ hook)
    (unregistered : ∀ w ∈ self.registering, w.registration.hook ≠ hook)
    (mapped : ∀ r ∈ hooks, ∀ epoch, r.epoch = some epoch →
      hookMap.lookup (epoch, r.hook) = some r)
    (behind : ∀ check ∈ self.checks, ∀ r ∈ hooks.take check.cursor,
      r.matches env check.package = true → r ∈ self.hooks.take check.cursor)
    (ahead : ∀ check ∈ self.checks, ∀ r ∈ hooks.drop check.cursor,
      r ∈ self.hooks.drop check.cursor) :
    Sound env { self with hooks, hookMap, disposed := hook :: self.disposed } :=
  { sound with
    hooks := sound.hooks.sublist (sub.map _)
    live := fun r mem closed => (List.mem_cons.mp closed).elim (gone r mem)
      (sound.live r (sub.mem mem))
    mapped
    apart := fun w mem => ⟨fun closed => (List.mem_cons.mp closed).elim (unregistered w mem)
      (sound.apart w mem).1, fun r inList => (sound.apart w mem).2 r (sub.mem inList)⟩
    settled := fun r mem => sound.settled r (sub.mem mem)
    seen := fun check mem r inTake holds =>
      sound.seen check mem r (behind check mem r inTake holds) holds
    ahead := fun check mem r inDrop => sound.ahead check mem r (ahead check mem r inDrop) }

theorem Sound.removeHook (sound : Sound env self) {hook : Hook} {epoch : Option String}
    (orderly : self.Orderly env (.removeHook hook epoch)) :
    Sound env (self.removeHook hook epoch) ∧
      Keeps env self.hooks self (self.removeHook hook epoch) := by
  have erased : ∀ r₀, self.registrationOf hook epoch = some r₀ →
      (∀ check ∈ self.checks, ¬ self.Skips env r₀ check) →
      ∀ check ∈ self.checks, ∀ r ∈ (self.hooks.erase r₀).take check.cursor,
        r.matches env check.package = true → r ∈ self.hooks.take check.cursor := by
    intro r₀ _ skips check mem r inTake holds
    rcases mem_take_erase inTake with old | ⟨before, at_cursor⟩
    · exact old
    · exact absurd ⟨before, r, at_cursor, holds⟩ (skips check mem)
  unfold TransportState.removeHook
  cases known : self.registrationOf hook epoch with
  | none =>
      cases epoch with
      | some epoch => exact ⟨sound, .of_inPlay (List.Subset.refl _) fun _ inPlay => inPlay⟩
      | none =>
          obtain ⟨there, unregistered, -⟩ := orderly (.inl rfl)
          refine ⟨?_, .of_inPlay (List.Subset.refl _) fun _ inPlay => inPlay⟩
          refine sound.dispose (List.Sublist.refl _) (fun r mem same => ?_) unregistered
            sound.mapped (fun _ _ _ mem _ => mem) fun _ _ _ mem => mem
          have none := List.find?_eq_none.mp known r mem
          exact none (by simpa using ⟨same, there r mem same⟩)
  | some r₀ =>
      obtain ⟨there, unregistered, skips⟩ := orderly (.inr (known ▸ rfl))
      have gone : ∀ r ∈ self.hooks.erase r₀, r.hook ≠ hook := by
        intro r mem same
        obtain ⟨ne, mem⟩ := (sound.nodup.mem_erase_iff).mp mem
        cases epoch with
        | none =>
            have named := List.find?_some known
            have isHook : r₀.hook = hook := by simpa using And.left (by simpa using named)
            exact ne (sound.hook_inj mem (List.mem_of_find?_eq_some known) (same.trans isHook.symm))
        | some epoch =>
            have found := sound.mapped r mem epoch (there r mem same)
            rw [same] at found
            exact ne (Option.some.inj (found.symm.trans known))
      have behind := erased r₀ known (skips r₀ known)
      have ahead : ∀ check ∈ self.checks, ∀ r ∈ (self.hooks.erase r₀).drop check.cursor,
          r ∈ self.hooks.drop check.cursor := fun _ _ _ mem => mem_drop_erase mem
      cases epoch with
      | none =>
          refine ⟨sound.dispose List.erase_sublist gone unregistered (fun r mem => ?_) behind ahead,
            .of_inPlay (List.Subset.refl _) fun _ inPlay => inPlay⟩
          exact sound.mapped r (List.mem_of_mem_erase mem)
      | some epoch =>
          refine ⟨sound.dispose List.erase_sublist gone unregistered (fun r mem other ofEpoch => ?_)
            behind ahead, .of_inPlay (List.Subset.refl _) fun _ inPlay => inPlay⟩
          rw [lookup_filter_ne, if_neg fun same => gone r mem (Prod.mk.inj same).2]
          exact sound.mapped r (List.mem_of_mem_erase mem) other ofEpoch

/-! ### All events -/

/-- **Orderly events** keep the invariant, and leave no package behind. -/
theorem Sound.step (sound : Sound env self) {event : Event Hook}
    (orderly : self.Orderly env event) :
    Sound env (self.step env event) ∧ Keeps env self.hooks self (self.step env event) := by
  cases event with
  | submitToHooks message timestamp =>
      have submitted := sound.submitToHooks message timestamp orderly
      exact ⟨submitted.1, submitted.2.1⟩
  | resumeSubmit place => exact sound.resumeSubmit place
  | wakeHookTask now => exact sound.wakeHookTask orderly
  | resumeHookTask => exact sound.resumeHookTask orderly
  | registerHook hook epoch => exact sound.registerHook orderly
  | resumeRegister place => exact sound.resumeRegister orderly
  | removeHook hook epoch => exact sound.removeHook orderly

theorem sound_init : Sound env ({} : TransportState Hook Digest) := by
  constructor <;> simp [TransportState.InPlay, held, checks, offering]

end TransportState

end Prism.Transport
