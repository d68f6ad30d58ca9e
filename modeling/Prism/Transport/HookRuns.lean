import Prism.Transport.HookSteps

/-!
When hooks receive each matching package exactly once (`prism/common/transport/transport.py`).

In a run of orderly events they do. In disorder a hook misses a package, or gets it twice: the list
of hooks is walked by position while it changes, and a hook that has taken a package from the pool
may then be met by the walk for it.

* `delivers_once`: the result about runs.
* `removal_skips_hook`, `registration_repeats_package`: what happens in disorder.
-/

namespace Prism.Transport

open Lib TransportState

section Runs

variable {Hook Digest : Type} [DecidableEq Hook] [DecidableEq Digest] {env : HookEnv Hook Digest}
  {events before during : List (Event Hook)}

/-- Every event is orderly in the state that it finds. -/
def OrderlyRun (env : HookEnv Hook Digest) (events : List (Event Hook)) : Prop :=
  (machine env).Admits (fun self _ event => self.Orderly env event) events

theorem after_concat (event : Event Hook) :
    after env (events ++ [event]) = (after env events).step env event := by
  unfold after
  rw [Machine.run_concat]
  rfl

theorem OrderlyRun.left (orderly : OrderlyRun env (before ++ during)) :
    OrderlyRun env before := by
  rintro first event rest rfl
  exact orderly first event (rest ++ during) (by simp)

theorem orderlyRun_concat {event : Event Hook} :
    OrderlyRun env (events ++ [event]) ↔
      OrderlyRun env events ∧ (after env events).Orderly env event :=
  (machine env).admits_concat

theorem OrderlyRun.concat {event : Event Hook} (orderly : OrderlyRun env events)
    (here : (after env events).Orderly env event) : OrderlyRun env (events ++ [event]) :=
  orderlyRun_concat.mpr ⟨orderly, here⟩

theorem OrderlyRun.last {event : Event Hook} (orderly : OrderlyRun env (events ++ [event])) :
    (after env events).Orderly env event :=
  (orderlyRun_concat.mp orderly).2

/-- The invariant holds after every orderly run. -/
theorem OrderlyRun.sound (orderly : OrderlyRun env events) : Sound env (after env events) :=
  (machine env).run_induction (P := fun self _ => Sound env self) sound_init
    (fun _ _ _ sound here => (sound.step here).1) orderly

/-- Step by step, a package stays in play until the hook has been handed it. -/
theorem OrderlyRun.kept {registration : Registration Hook} {package : Package}
    (orderly : OrderlyRun env (before ++ during))
    (throughout : ∀ part, part <+: during → registration ∈ (after env (before ++ part)).hooks)
    (starts : (after env before).InPlay package ∨ Submits (after env before) during package)
    (holds : registration.matches env package = true) :
    (after env (before ++ during)).InPlay package ∨
      (registration.hook, package) ∈ (after env (before ++ during)).handed := by
  induction during using List.reverseRecOn with
  | nil =>
      rw [List.append_nil]
      refine .inl (starts.resolve_right ?_)
      rintro ⟨message, timestamp, rest, none, -⟩
      cases none
  | append_singleton during event ih =>
      rw [← List.append_assoc] at orderly ⊢
      have sound := orderly.left.sound
      rw [after_concat]
      by_cases submitted : during = [] ∧ Submits (after env before) [event] package
      · -- the event itself submits the package
        obtain ⟨rfl, message, timestamp, rest, single, rfl⟩ := submitted
        obtain ⟨rfl, -⟩ := List.cons.inj single
        rw [List.append_nil] at sound orderly ⊢
        exact .inl (sound.submitToHooks message timestamp orderly.last).2.2
      · have started : (after env before).InPlay package ∨
            Submits (after env before) during package := by
          refine starts.imp_right ?_
          rintro ⟨message, timestamp, rest, split, rfl⟩
          cases during with
          | nil => exact absurd ⟨rfl, message, timestamp, rest, split, rfl⟩ submitted
          | cons first during =>
              obtain ⟨rfl, -⟩ := List.cons.inj split
              exact ⟨message, timestamp, during, rfl, rfl⟩
        have inList := throughout during (List.prefix_append _ _)
        obtain ⟨-, kept⟩ := sound.step orderly.last
        rcases ih orderly.left
            (fun part isPart => throughout part (isPart.trans (List.prefix_append _ _)))
            started with inPlay | given
        · exact kept.inPlay registration inList package inPlay holds
        · exact .inr (kept.handed given)

/-- **Hooks receive each matching package exactly once** in every orderly run. -/
theorem delivers_once (orderly : OrderlyRun env events) : DeliversOnce env events where
  once := orderly.sound.once
  complete := by
    rintro before during rfl registration package throughout starts holds settled
    exact (orderly.kept throughout starts holds).resolve_left settled

end Runs

/-! ### In order and in disorder -/

/-- Hooks that match everything, with origination timestamps for digests. -/
def exampleHooks : HookEnv ℕ ℤ where
  hookMatches _ _ := true
  hexdigest message :=
    match message.get .originationTimestamp with
    | .int n => n
    | _ => 0
  dtHoldPackage := 60 * 10 ^ 6

/-- A message of some instant. -/
def messageAt (now : ℤ) : PrismMessage := PrismMessage.create now .lsp []

/-- A package waits for a hook, and another one comes when the hook is registered. -/
def calmRun : List (Event ℕ) :=
  [.submitToHooks (messageAt 0) 0, .registerHook 1 none, .resumeRegister 0,
    .submitToHooks (messageAt 1) 1, .resumeSubmit 0]

theorem calmRun_delivers_once : DeliversOnce exampleHooks calmRun ∧
    (after exampleHooks calmRun).handed.map Prod.fst = [1, 1] := by
  refine ⟨delivers_once ?_, rfl⟩
  have first : (after exampleHooks []).Orderly exampleHooks (.submitToHooks (messageAt 0) 0) := by
    intro _ held found
    cases found
  have second : (after exampleHooks (calmRun.take 1)).Orderly exampleHooks
      (.registerHook 1 none) := by
    refine ⟨?_, fun _ _ mem => absurd mem List.not_mem_nil⟩
    exact ⟨List.not_mem_nil, fun _ mem => absurd mem List.not_mem_nil,
      fun _ mem => absurd mem List.not_mem_nil, fun _ => List.not_mem_nil⟩
  have third : (after exampleHooks (calmRun.take 2)).Orderly exampleHooks
      (.resumeRegister 0) := by
    refine fun _ _ => ⟨?_, fun _ _ mem => absurd mem List.not_mem_nil⟩
    rintro held - ⟨-, r, inList, -⟩
    exact absurd inList List.not_mem_nil
  have fourth : (after exampleHooks (calmRun.take 3)).Orderly exampleHooks
      (.submitToHooks (messageAt 1) 1) := by
    intro unmatched
    exact absurd (unmatched ⟨1, none, 1⟩ (List.mem_singleton_self _)) (by decide)
  have start : OrderlyRun exampleHooks [] := (machine exampleHooks).admits_nil _
  have four := (((start.concat first).concat second).concat third).concat fourth
  exact @OrderlyRun.concat _ _ _ _ _ _ (.resumeSubmit 0) four trivial

/-- Three hooks wait for a package. While the first one is handed it, it is removed. -/
def removalRun : List (Event ℕ) :=
  [.registerHook 1 none, .registerHook 2 none, .registerHook 3 none,
    .submitToHooks (messageAt 0) 0, .removeHook 1 none, .resumeSubmit 0, .resumeSubmit 0]

/-- **The removal of a hook skips the next one**: it never gets the package. -/
theorem removal_skips_hook : ¬ DeliversOnce exampleHooks removalRun := by
  intro delivers
  have missed := delivers.complete
    [.registerHook 1 none, .registerHook 2 none, .registerHook 3 none]
    [.submitToHooks (messageAt 0) 0, .removeHook 1 none, .resumeSubmit 0, .resumeSubmit 0] rfl
    ⟨2, none, 1⟩ ⟨messageAt 0, 0, 3⟩ ?_ (.inr ⟨_, _, _, rfl, rfl⟩) rfl ?_
  · have hooks : (after exampleHooks removalRun).handed.map Prod.fst = [1, 3] := rfl
    have given := List.mem_map_of_mem (f := Prod.fst) missed
    rw [hooks] at given
    simp at given
  · intro part isPart
    simp only [List.prefix_cons_iff, List.prefix_nil] at isPart
    rcases isPart with rfl | ⟨_, rfl, rfl | ⟨_, rfl, rfl | ⟨_, rfl, rfl | ⟨_, rfl, rfl⟩⟩⟩⟩
    all_goals decide
  · rintro (still | inCheck)
    · exact List.not_mem_nil still
    · have checks : (after exampleHooks removalRun).checks = [] := rfl
      rw [checks] at inCheck
      exact List.not_mem_nil inCheck

/-- A hook is registered while the hook task offers a package that it takes from the pool. -/
def registrationRun : List (Event ℕ) :=
  [.submitToHooks (messageAt 0) 0, .registerHook 1 none, .submitToHooks (messageAt 1) 1,
    .resumeRegister 0, .wakeHookTask 1, .registerHook 2 none, .resumeRegister 0, .resumeHookTask]

/-- **A hook may get a package twice**: from the pool, and then from the walk of the hook task,
which comes to the hook at the end of the list. -/
theorem registration_repeats_package : ¬ DeliversOnce exampleHooks registrationRun := by
  intro delivers
  have handed : ∃ first second package, (after exampleHooks registrationRun).handed =
      [first, second, (2, package), (2, package)] := ⟨_, _, _, rfl⟩
  obtain ⟨first, second, package, eq⟩ := handed
  have once := delivers.once
  rw [eq] at once
  simp at once

/-- So not every run delivers once. -/
theorem hooks_skip_and_repeat :
    ¬ DeliversOnce exampleHooks removalRun ∧ ¬ DeliversOnce exampleHooks registrationRun :=
  ⟨removal_skips_hook, registration_repeats_package⟩

end Prism.Transport
