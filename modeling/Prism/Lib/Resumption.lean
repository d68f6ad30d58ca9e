import Mathlib.Data.Nat.Notation
import Mathlib.Logic.Basic

/-!
Processes that talk to an environment.

A `Resumption Q R ε α` returns or raises, or asks its environment a question of type
`Q` and goes on with the answer of type `R`. It is what a coroutine is between two of
its suspensions. Three ways to drive one:

* `run env` answers every question by the function `env`;
* `feed answers` hands over a list of answers and stops at the next question, which
  is how a transition system moves a process on;
* `record answers` answers the questions one after another, each by its place, and keeps
  what was asked and answered.

The simp set goes through `bind`, and answers one question of each run at a time.
-/

namespace Prism.Lib

/-- A process: a result, or a question and what follows each answer. -/
inductive Resumption (Q R ε α : Type) where
  | done (result : Except ε α)
  | ask (question : Q) (next : R → Resumption Q R ε α)

namespace Resumption

variable {Q R ε α β : Type}

protected def bind : Resumption Q R ε α → (α → Resumption Q R ε β) → Resumption Q R ε β
  | done (.ok a), f => f a
  | done (.error e), _ => done (.error e)
  | ask q next, f => ask q fun r => (next r).bind f

instance : Monad (Resumption Q R ε) where
  pure a := done (.ok a)
  bind := Resumption.bind

/-- A step that asks nothing. -/
def lift (result : Except ε α) : Resumption Q R ε α := done result

instance : MonadLift (Except ε) (Resumption Q R ε) := ⟨lift⟩

/-- One question. -/
def query (q : Q) : Resumption Q R ε R := ask q pure

@[simp] theorem pure_eq (a : α) : (pure a : Resumption Q R ε α) = done (.ok a) := rfl

@[simp] theorem lift_eq (result : Except ε α) :
    (liftM result : Resumption Q R ε α) = done result := rfl

@[simp] theorem done_ok_bind (a : α) (f : α → Resumption Q R ε β) : done (.ok a) >>= f = f a := rfl

@[simp] theorem done_error_bind (e : ε) (f : α → Resumption Q R ε β) :
    (done (.error e) : Resumption Q R ε α) >>= f = done (.error e) := rfl

@[simp] theorem ask_bind (q : Q) (next : R → Resumption Q R ε α) (f : α → Resumption Q R ε β) :
    ask q next >>= f = ask q fun r => next r >>= f := rfl

@[simp] theorem query_bind (q : Q) (f : R → Resumption Q R ε β) : query q >>= f = ask q f := rfl

/-- The process raises before it asks anything. -/
def Raises (m : Resumption Q R ε α) : Prop := ∃ e, m = done (.error e)

theorem Raises.bind {m : Resumption Q R ε α} (raises : m.Raises)
    (f : α → Resumption Q R ε β) : (m >>= f).Raises := by
  obtain ⟨e, rfl⟩ := raises
  exact ⟨e, rfl⟩

/-- A step that asks nothing before a process that raises. -/
theorem Raises.done_bind (result : Except ε α) {f : α → Resumption Q R ε β}
    (raises : ∀ a, (f a).Raises) : (done result >>= f).Raises := by
  cases result with
  | error e => exact ⟨e, rfl⟩
  | ok a => exact raises a

/-! ### Running against a fixed environment -/

/-- The result when `env` answers every question. -/
def run (env : Q → R) : Resumption Q R ε α → Except ε α
  | done result => result
  | ask q next => (next (env q)).run env

@[simp] theorem run_done (env : Q → R) (result : Except ε α) :
    (done result : Resumption Q R ε α).run env = result := rfl

@[simp] theorem run_ask (env : Q → R) (q : Q) (next : R → Resumption Q R ε α) :
    (ask q next).run env = (next (env q)).run env := rfl

/-! ### Feeding answers one at a time -/

/-- What is left after the answers have been given. -/
def feed : Resumption Q R ε α → List R → Resumption Q R ε α
  | m, [] => m
  | done result, _ :: _ => done result
  | ask _ next, r :: rs => (next r).feed rs

@[simp] theorem feed_nil (m : Resumption Q R ε α) : m.feed [] = m := by
  cases m <;> rfl

@[simp] theorem feed_done (result : Except ε α) (rs : List R) :
    (done result : Resumption Q R ε α).feed rs = done result := by
  cases rs <;> rfl

@[simp] theorem feed_ask (q : Q) (next : R → Resumption Q R ε α) (r : R) (rs : List R) :
    (ask q next).feed (r :: rs) = (next r).feed rs := rfl

/-! ### The record of a run -/

/-- The result, and the questions with their answers in order, when the `i`-th question `q` is
answered by `answers i q`. -/
def record : Resumption Q R ε α → (ℕ → Q → R) → Except ε α × List (Q × R)
  | done result, _ => (result, [])
  | ask q next, answers =>
    let rest := (next (answers 0 q)).record fun i => answers (i + 1)
    (rest.1, (q, answers 0 q) :: rest.2)

@[simp] theorem record_done (result : Except ε α) (answers : ℕ → Q → R) :
    (done result).record answers = (result, []) := rfl

theorem record_ask (q : Q) (next : R → Resumption Q R ε α) (answers : ℕ → Q → R) :
    (ask q next).record answers =
      (((next (answers 0 q)).record fun i => answers (i + 1)).1,
        (q, answers 0 q) :: ((next (answers 0 q)).record fun i => answers (i + 1)).2) := rfl

/-- **One process after another**, with the answers that are left. -/
theorem record_bind {m : Resumption Q R ε α} {answers : ℕ → Q → R} {a : α} {asked : List (Q × R)}
    (run : m.record answers = (.ok a, asked)) (f : α → Resumption Q R ε β) :
    (m >>= f).record answers =
      (((f a).record fun i => answers (i + asked.length)).1,
        asked ++ ((f a).record fun i => answers (i + asked.length)).2) := by
  induction m generalizing answers asked with
  | done result =>
      obtain ⟨rfl, rfl⟩ := Prod.mk.inj run
      rfl
  | ask q next ih =>
      rw [record_ask] at run
      obtain ⟨result, rfl⟩ := Prod.mk.inj run
      rw [ask_bind, record_ask, ih _ (Prod.ext result rfl)]
      rfl

/-- Answers that are right for their questions are recorded with them. -/
theorem record_sound {right : Q → R → Prop} (m : Resumption Q R ε α) {answers : ℕ → Q → R}
    (sound : ∀ i q, right q (answers i q)) : ∀ e ∈ (m.record answers).2, right e.1 e.2 := by
  induction m generalizing answers with
  | done result => exact fun e mem => absurd mem List.not_mem_nil
  | ask q next ih =>
      rw [record_ask, List.forall_mem_cons]
      exact ⟨sound 0 q, ih _ fun i => sound (i + 1)⟩

end Resumption

end Prism.Lib
