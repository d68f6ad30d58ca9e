import Mathlib.Data.List.Induction

/-!
Machines that answer events, and the histories of their runs.

A machine has a state and answers each event with an output. `Machine.run` is the state
after a list of events and the history of what was answered, oldest first. An invariant is a
relation between the state and the history: `Machine.run_induction` reduces it to one event.
A condition on events, which may depend on the state and the history that an event finds,
is met by a run when it is met at every event (`Machine.Admits`).

* `Machine.run_induction`: what holds at the start and is kept by every admitted event holds
  after every admitted run.
* `Machine.admits_iff_of_invariant`: two conditions that an invariant makes the same admit the same
  runs.
-/

namespace Prism.Lib

/-- A machine with states `σ`, events `ε` and outputs `ω`. -/
structure Machine (σ ε ω : Type) where
  init : σ
  step : σ → ε → σ × ω

namespace Machine

variable {σ ε ω : Type} (m : Machine σ ε ω)

/-- One event of a run, with its place in the history. -/
def record (s : σ × List (ε × ω)) (event : ε) : σ × List (ε × ω) :=
  ((m.step s.1 event).1, s.2 ++ [(event, (m.step s.1 event).2)])

/-- The state and the history after some events. -/
def run (events : List ε) : σ × List (ε × ω) := events.foldl m.record (m.init, [])

@[simp] theorem run_nil : m.run [] = (m.init, []) := rfl

@[simp] theorem run_concat (events : List ε) (event : ε) :
    m.run (events ++ [event]) = m.record (m.run events) event := by
  rw [run, List.foldl_append]
  rfl

/-- The history has an entry for each event. -/
theorem length_history (events : List ε) : (m.run events).2.length = events.length := by
  induction events using List.reverseRecOn with
  | nil => rfl
  | append_singleton events event ih =>
      rw [run_concat, record, List.length_append, List.length_append, ih, List.length_singleton,
        List.length_singleton]

/-- Every event meets the condition in the state and after the history that it finds. -/
def Admits (ok : σ → List (ε × ω) → ε → Prop) (events : List ε) : Prop :=
  ∀ before event after, events = before ++ event :: after →
    ok (m.run before).1 (m.run before).2 event

@[simp] theorem admits_nil (ok : σ → List (ε × ω) → ε → Prop) : m.Admits ok [] := by
  intro before event after split
  exact absurd split (by simp)

theorem admits_concat {ok : σ → List (ε × ω) → ε → Prop} {events : List ε} {event : ε} :
    m.Admits ok (events ++ [event]) ↔
      m.Admits ok events ∧ ok (m.run events).1 (m.run events).2 event := by
  constructor
  · intro admits
    constructor
    · rintro before e after rfl
      exact admits before e (after ++ [event]) (by simp)
    · exact admits events event [] rfl
  · rintro ⟨admits, last⟩ before e after split
    rcases List.eq_nil_or_concat after with rfl | ⟨after, x, rfl⟩
    · obtain ⟨rfl, single⟩ := List.append_inj' split rfl
      obtain rfl := List.head_eq_of_cons_eq single
      exact last
    · rw [List.concat_eq_append, ← List.cons_append, ← List.append_assoc] at split
      exact admits before e after (List.append_inj' split rfl).1

/-- A run is admitted when each of its events is, by its place. -/
theorem admits_iff_getElem {ok : σ → List (ε × ω) → ε → Prop} {events : List ε} :
    m.Admits ok events ↔ ∀ i : Fin events.length,
      ok (m.run (events.take i)).1 (m.run (events.take i)).2 events[i] := by
  constructor
  · intro admits i
    exact admits _ _ (events.drop (i + 1)) (by simp)
  · rintro each before event after rfl
    simpa using each ⟨before.length, by simp⟩

/-- **Induction over runs.** -/
theorem run_induction {ok : σ → List (ε × ω) → ε → Prop} {P : σ → List (ε × ω) → Prop}
    (init : P m.init [])
    (step : ∀ s history event, P s history → ok s history event →
      P (m.step s event).1 (history ++ [(event, (m.step s event).2)]))
    {events : List ε} (admits : m.Admits ok events) : P (m.run events).1 (m.run events).2 := by
  induction events using List.reverseRecOn with
  | nil => exact init
  | append_singleton events event ih =>
      obtain ⟨before, here⟩ := m.admits_concat.mp admits
      rw [run_concat]
      exact step _ _ _ (ih before) here

/-- **Runs that meet a condition are those that meet another one**, where an invariant makes the
two the same for an event and is kept by it. -/
theorem admits_iff_of_invariant {ok ok' : σ → List (ε × ω) → ε → Prop}
    {P : σ → List (ε × ω) → Prop} (init : P m.init [])
    (same : ∀ s history event, P s history → (ok s history event ↔ ok' s history event))
    (keeps : ∀ s history event, P s history → ok' s history event →
      P (m.step s event).1 (history ++ [(event, (m.step s event).2)]))
    {events : List ε} : m.Admits ok events ↔ m.Admits ok' events := by
  have invariant : ∀ {events : List ε}, m.Admits ok' events → P (m.run events).1 (m.run events).2 :=
    fun admits => @run_induction _ _ _ m ok' P init keeps _ admits
  induction events using List.reverseRecOn with
  | nil => exact iff_of_true (m.admits_nil ok) (m.admits_nil ok')
  | append_singleton events event ih =>
      rw [admits_concat, admits_concat]
      constructor
      · rintro ⟨before, here⟩
        exact ⟨ih.mp before, (same _ _ _ (invariant (ih.mp before))).mp here⟩
      · rintro ⟨before, here⟩
        exact ⟨ih.mpr before, (same _ _ _ (invariant before)).mpr here⟩

end Machine

end Prism.Lib
