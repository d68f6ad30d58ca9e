import Mathlib.Logic.Basic

/-!
Handlers: programs that change a state, may raise, and keep what they changed before.

`Handler.exec` runs a handler on a state. `Handler.Keeps P` says that a handler carries `P`
over from the state before to the state after, whether it returned or raised; there is one
lemma for each way to write a handler.

* `Handler.Keeps.bind`, `Handler.Keeps.forM`: handlers one after the other.
* `Handler.forM_induction`: a loop, where each turn may rely on the turns before it.
-/

namespace Prism.Lib

/-- Programs over states `σ` that may raise `ε`. -/
abbrev Handler (σ ε α : Type) := ExceptT ε (StateM σ) α

namespace Handler

variable {σ ε α β : Type}

/-- The state afterwards, and the result. -/
def exec (h : Handler σ ε α) (s : σ) : σ × Except ε α := ((h.run.run s).2, (h.run.run s).1)

/-- A computation that reads and changes no state. -/
def lift (x : Except ε α) : Handler σ ε α := ExceptT.mk (pure x)

@[simp] theorem exec_pure (a : α) (s : σ) : (pure a : Handler σ ε α).exec s = (s, .ok a) := rfl

@[simp] theorem exec_lift (x : Except ε α) (s : σ) : (lift x : Handler σ ε α).exec s = (s, x) :=
  rfl

@[simp] theorem exec_get (s : σ) : (get : Handler σ ε σ).exec s = (s, .ok s) := rfl

@[simp] theorem exec_modify (f : σ → σ) (s : σ) :
    (modify f : Handler σ ε PUnit).exec s = (f s, .ok ⟨⟩) := rfl

/-- The second handler runs where the first one returned. -/
theorem exec_bind (h : Handler σ ε α) (k : α → Handler σ ε β) (s : σ) :
    (h >>= k).exec s =
      match h.exec s with
      | (s', .ok a) => (k a).exec s'
      | (s', .error e) => (s', .error e) := by
  unfold exec
  rw [ExceptT.run_bind, StateT.run_bind]
  rcases StateT.run (ExceptT.run h) s with ⟨result, s'⟩
  cases result <;> rfl

theorem exec_bind_of_ok {h : Handler σ ε α} {k : α → Handler σ ε β} {s s' : σ} {a : α}
    (run : h.exec s = (s', .ok a)) : (h >>= k).exec s = (k a).exec s' := by
  rw [exec_bind, run]

/-- A handler carries a property over. -/
def Keeps (P : σ → Prop) (h : Handler σ ε α) : Prop := ∀ s, P s → P (h.exec s).1

variable {P : σ → Prop}

theorem Keeps.pure (a : α) : Keeps P (pure a : Handler σ ε α) := fun _ holds => holds

theorem Keeps.lift (x : Except ε α) : Keeps P (lift x : Handler σ ε α) := fun _ holds => holds

theorem Keeps.throw (e : ε) : Keeps P (throw e : Handler σ ε α) := fun _ holds => holds

theorem Keeps.get : Keeps P (get : Handler σ ε σ) := fun _ holds => holds

theorem Keeps.modify {f : σ → σ} (keeps : ∀ s, P s → P (f s)) :
    Keeps P (modify f : Handler σ ε PUnit) := keeps

theorem Keeps.bind {h : Handler σ ε α} {k : α → Handler σ ε β} (first : Keeps P h)
    (second : ∀ a, Keeps P (k a)) : Keeps P (h >>= k) := by
  intro s holds
  have between := first s holds
  rw [exec_bind]
  split
  · next s' a run =>
      rw [run] at between
      exact second a s' between
  · next s' e run =>
      rw [run] at between
      exact between

theorem Keeps.forM {xs : List α} {body : α → Handler σ ε PUnit}
    (each : ∀ x ∈ xs, Keeps P (body x)) : Keeps P (xs.forM body) := by
  induction xs with
  | nil => exact Keeps.pure _
  | cons x xs ih =>
      exact (each x List.mem_cons_self).bind fun _ =>
        ih fun y mem => each y (List.mem_cons_of_mem _ mem)

theorem exec_forM_cons (x : α) (xs : List α) (body : α → Handler σ ε PUnit) (s : σ) :
    ((x :: xs).forM body).exec s = (body x >>= fun _ => xs.forM body).exec s := rfl

/-- A loop carries a property over, when each turn does in the state that it finds. -/
theorem forM_induction {xs : List α} {body : α → Handler σ ε PUnit} {s : σ} (start : P s)
    (each : ∀ before x after, xs = before ++ x :: after → ∀ s',
      (before.forM body).exec s = (s', .ok ⟨⟩) → P s' → P ((body x).exec s').1) :
    P ((xs.forM body).exec s).1 := by
  induction xs generalizing s with
  | nil => exact start
  | cons x xs ih =>
      have first := each [] x xs rfl s rfl start
      rw [exec_forM_cons, exec_bind]
      rcases run : (body x).exec s with ⟨s', e | ⟨⟩⟩
      · rwa [run] at first
      · rw [run] at first
        refine ih first fun before y after split s'' turn => ?_
        refine each (x :: before) y after (by rw [split, List.cons_append]) s'' ?_
        rw [exec_forM_cons, exec_bind, run]
        exact turn

end Handler

end Prism.Lib
