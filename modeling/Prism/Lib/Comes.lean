import Mathlib.Logic.Basic

/-!
Computations that return exactly under a condition.

A computation `Comes` to something when it returns if a condition holds, with a result that has a
property, and raises one of some errors if it does not hold. The condition speaks of the inputs, so
that a program of such steps returns exactly when all their conditions hold.

* `Comes.bind`, `Comes.andThen`: one step after another.
* `Comes.foldlM`: a loop with an invariant, which knows the items that are done.
-/

namespace Prism.Lib

variable {ε α β : Type}

/-- The computation returns under the condition `good`, with what has `post`, and otherwise raises
an error that is `bad`. -/
inductive Comes (bad : ε → Prop) (good : Prop) (post : α → Prop) : Except ε α → Prop where
  | returns {a : α} : good → post a → Comes bad good post (.ok a)
  | raises {e : ε} : ¬ good → bad e → Comes bad good post (.error e)

namespace Comes

variable {bad : ε → Prop} {good : Prop} {post : α → Prop} {x : Except ε α}

/-- Less is known about the result. -/
theorem mono (comes : Comes bad good post x) {post' : α → Prop}
    (weaker : ∀ a, good → post a → post' a) : Comes bad good post' x := by
  cases comes with
  | returns holds has => exact .returns holds (weaker _ holds has)
  | raises fails isBad => exact .raises fails isBad

/-- The condition in other words. -/
theorem congr (comes : Comes bad good post x) {good' : Prop} (same : good ↔ good') :
    Comes bad good' post x := by
  rwa [← propext same]

/-- **One step after another**: the conditions of both have to hold. -/
theorem bind (comes : Comes bad good post x) {f : α → Except ε β} {next : Prop}
    {post' : β → Prop} (goesOn : ∀ a, good → post a → Comes bad next post' (f a)) :
    Comes bad (good ∧ next) post' (x >>= f) := by
  cases comes with
  | returns holds has =>
      exact (goesOn _ holds has).congr (and_iff_right holds).symm
  | raises fails isBad => exact .raises (fun both => fails both.1) isBad

/-- A step that always returns adds no condition. -/
theorem andThen (comes : Comes bad good post x) {f : α → Except ε β} {post' : β → Prop}
    (goesOn : ∀ a, post a → ∃ b, f a = .ok b ∧ post' b) : Comes bad good post' (x >>= f) := by
  cases comes with
  | returns holds has =>
      obtain ⟨b, run, has'⟩ := goesOn _ has
      change Comes bad good post' (f _)
      rw [run]
      exact .returns holds has'
  | raises fails isBad => exact .raises fails isBad

/-- **A loop** has to go well for every item. -/
theorem foldlM {P : β → Prop} {I : List β → α → Prop} {step : α → β → Except ε α}
    {todo : List β} {a : α}
    (each : ∀ done, ∀ b ∈ todo, ∀ a, I done a →
      Comes bad (P b) (I (done ++ [b])) (step a b))
    (start : I [] a) :
    Comes bad (∀ b ∈ todo, P b) (I todo) (todo.foldlM step a) := by
  suffices rest : ∀ done a, I done a →
      Comes bad (∀ b ∈ todo, P b) (I (done ++ todo)) (todo.foldlM step a) from
    rest [] a start
  clear start
  induction todo with
  | nil =>
      intro done a holds
      rw [List.append_nil]
      exact .returns (fun b mem => absurd mem List.not_mem_nil) holds
  | cons b todo ih =>
      intro done a holds
      rw [List.foldlM_cons, ← List.singleton_append, ← List.append_assoc]
      refine (bind (each done b List.mem_cons_self a holds) fun a' _ holds' => ?_).congr
        List.forall_mem_cons.symm
      exact ih (fun done b mem => each done b (List.mem_cons_of_mem _ mem)) _ a' holds'

end Comes

end Prism.Lib
