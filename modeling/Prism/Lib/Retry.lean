import Mathlib.Data.Finset.Lattice.Fold
import Mathlib.Data.List.Range

/-!
Jobs that are tried again until all are done.

A pass tries every job that is not done yet, in order. An answer finishes a job; no answer leaves
it for the next pass; an error ends everything. Answers may depend on the pass and on the job.

* `tryAll_iff`: where every job is answered at some time, trying ends exactly when no job meets an
  error before it is answered.
* `tryAll_collects`: what was collected has one answer for each job.
-/

namespace Prism.Lib.Retry

variable {ε α : Type}

/-- One pass over jobs, from a number on, of which some are done: the flags after it, and the
answers in the order in which they came. -/
def pass (answer : ℕ → Except ε (Option α)) : ℕ → List Bool → Except ε (List Bool × List (ℕ × α))
  | _, [] => .ok ([], [])
  | k, true :: flags => (pass answer (k + 1) flags).map fun r => (true :: r.1, r.2)
  | k, false :: flags =>
    match answer k with
    | .error e => .error e
    | .ok none => (pass answer (k + 1) flags).map fun r => (false :: r.1, r.2)
    | .ok (some a) => (pass answer (k + 1) flags).map fun r => (true :: r.1, (k, a) :: r.2)

/-- Passes, until one leaves no job undone; `none` when the fuel does not suffice. -/
def tryAll (answers : ℕ → ℕ → Except ε (Option α)) :
    ℕ → ℕ → List Bool → Except ε (Option (List (ℕ × α)))
  | 0, _, _ => .ok none
  | fuel + 1, r, flags =>
    match pass (answers r) 0 flags with
    | .error e => .error e
    | .ok (flags', new) =>
      if flags'.all id then .ok (some new)
      else (tryAll answers fuel (r + 1) flags').map fun rest => rest.map (new ++ ·)

/-- The jobs that are not done. -/
def todo : ℕ → List Bool → List ℕ
  | _, [] => []
  | k, true :: flags => todo (k + 1) flags
  | k, false :: flags => k :: todo (k + 1) flags

/-! ### One pass -/

section Pass

variable {answer : ℕ → Except ε (Option α)}

/-- What a pass does with the first job that is not done. -/
theorem pass_false {k : ℕ} {flags flags' : List Bool} {new : List (ℕ × α)}
    (run : pass answer k (false :: flags) = .ok (flags', new)) :
    ∃ a rest new', answer k = .ok a ∧ pass answer (k + 1) flags = .ok (rest, new') ∧
      flags' = a.isSome :: rest ∧ new = (a.map fun a => (k, a)).toList ++ new' := by
  rw [pass] at run
  rcases answered : answer k with e | a | a
  · rw [answered] at run
    cases run
  all_goals
    rw [answered] at run
    dsimp only at run
    rcases passed : pass answer (k + 1) flags with e | ⟨rest, new'⟩
    · rw [passed] at run
      cases run
    · rw [passed] at run
      cases run
      exact ⟨_, rest, new', rfl, rfl, rfl, rfl⟩

theorem pass_true {k : ℕ} {flags flags' : List Bool} {new : List (ℕ × α)}
    (run : pass answer k (true :: flags) = .ok (flags', new)) :
    ∃ rest, pass answer (k + 1) flags = .ok (rest, new) ∧ flags' = true :: rest := by
  rw [pass] at run
  rcases passed : pass answer (k + 1) flags with e | ⟨rest, new'⟩
  · rw [passed] at run
    cases run
  · rw [passed] at run
    cases run
    exact ⟨rest, rfl, rfl⟩

/-- A pass answers some of the jobs and leaves the others. -/
theorem pass_todo {k : ℕ} {flags flags' : List Bool} {new : List (ℕ × α)}
    (run : pass answer k flags = .ok (flags', new)) :
    (new.map Prod.fst ++ todo k flags').Perm (todo k flags) ∧
      ∀ e ∈ new, answer e.1 = .ok (some e.2) := by
  induction flags generalizing k flags' new with
  | nil =>
      rw [pass] at run
      cases run
      exact ⟨.refl _, fun e mem => nomatch mem⟩
  | cons flag flags ih =>
      cases flag with
      | true =>
          obtain ⟨rest, passed, rfl⟩ := pass_true run
          exact ih passed
      | false =>
          obtain ⟨a, rest, new', answered, passed, rfl, rfl⟩ := pass_false run
          obtain ⟨perm, each⟩ := ih passed
          cases a with
          | none =>
              exact ⟨List.perm_middle.trans (perm.cons k), each⟩
          | some a =>
              exact ⟨perm.cons k, List.forall_mem_cons.mpr ⟨answered, each⟩⟩

/-- What a pass does with one job. -/
theorem pass_getElem {k i : ℕ} {flags flags' : List Bool} {new : List (ℕ × α)}
    (run : pass answer k flags = .ok (flags', new)) :
    (flags[i]? = some false → ∃ a, answer (k + i) = .ok a ∧ flags'[i]? = some a.isSome) ∧
      (flags[i]? ≠ some false → flags'[i]? = flags[i]?) := by
  induction flags generalizing k i flags' new with
  | nil =>
      rw [pass] at run
      cases run
      exact ⟨(fun h => nomatch h), fun _ => rfl⟩
  | cons flag flags ih =>
      cases flag with
      | true =>
          obtain ⟨rest, passed, rfl⟩ := pass_true run
          cases i with
          | zero => exact ⟨(fun h => nomatch h), fun _ => rfl⟩
          | succ i =>
              rw [← Nat.add_assoc, Nat.add_right_comm]
              exact ih passed
      | false =>
          obtain ⟨a, rest, new', answered, passed, rfl, rfl⟩ := pass_false run
          cases i with
          | zero => exact ⟨fun _ => ⟨a, answered, rfl⟩, fun h => absurd rfl h⟩
          | succ i =>
              rw [← Nat.add_assoc, Nat.add_right_comm]
              exact ih passed

theorem length_pass {k : ℕ} {flags flags' : List Bool} {new : List (ℕ × α)}
    (run : pass answer k flags = .ok (flags', new)) : flags'.length = flags.length := by
  have same (i : ℕ) : flags'[i]? = none ↔ flags[i]? = none := by
    obtain ⟨tried, kept⟩ := @pass_getElem _ _ _ k i _ _ _ run
    by_cases undone : flags[i]? = some false
    · obtain ⟨a, -, flag⟩ := tried undone
      simp [undone, flag]
    · rw [kept undone]
  have le := List.getElem?_eq_none_iff.mp ((same _).mpr (List.getElem?_eq_none le_rfl))
  have ge := List.getElem?_eq_none_iff.mp ((same _).mp (List.getElem?_eq_none le_rfl))
  omega

/-- A pass ends, where no job that it tries meets an error. -/
theorem exists_pass {k : ℕ} {flags : List Bool}
    (calm : ∀ i, flags[i]? = some false → ∃ a, answer (k + i) = .ok a) :
    ∃ flags' new, pass answer k flags = .ok (flags', new) := by
  induction flags generalizing k with
  | nil => exact ⟨[], [], rfl⟩
  | cons flag flags ih =>
      obtain ⟨flags', new, passed⟩ := ih fun i undone => by
        have := calm (i + 1) undone
        rwa [← Nat.add_assoc, Nat.add_right_comm] at this
      cases flag with
      | true => exact ⟨true :: flags', new, by rw [pass, passed]; rfl⟩
      | false =>
          obtain ⟨a, answered⟩ := calm 0 rfl
          rw [Nat.add_zero] at answered
          cases a with
          | none => exact ⟨false :: flags', new, by rw [pass, answered, passed]; rfl⟩
          | some a => exact ⟨true :: flags', (k, a) :: new, by rw [pass, answered, passed]; rfl⟩

end Pass

/-! ### Passes -/

theorem todo_eq_nil {k : ℕ} {flags : List Bool} (done : flags.all id = true) :
    todo k flags = [] := by
  induction flags generalizing k with
  | nil => rfl
  | cons flag flags ih =>
      rw [List.all_cons, Bool.and_eq_true] at done
      obtain ⟨rfl, rest⟩ := done
      exact ih rest

theorem todo_replicate (k n : ℕ) : todo k (List.replicate n false) = List.range' k n := by
  induction n generalizing k with
  | zero => rfl
  | succ n ih => rw [List.replicate_succ, todo, ih, List.range'_succ]

section Passes

variable {answers : ℕ → ℕ → Except ε (Option α)}

/-- How trying ends: with this pass, or with a later one. -/
theorem tryAll_ok {fuel r : ℕ} {flags : List Bool} {collected : List (ℕ × α)}
    (run : tryAll answers fuel r flags = .ok (some collected)) :
    ∃ fuel' flags' new, fuel = fuel' + 1 ∧ pass (answers r) 0 flags = .ok (flags', new) ∧
      (flags'.all id = true ∧ collected = new ∨
        ∃ rest, tryAll answers fuel' (r + 1) flags' = .ok (some rest) ∧
          collected = new ++ rest) := by
  cases fuel with
  | zero =>
      rw [tryAll] at run
      cases run
  | succ fuel =>
      rw [tryAll] at run
      rcases passed : pass (answers r) 0 flags with e | ⟨flags', new⟩
      · rw [passed] at run
        cases run
      · rw [passed] at run
        dsimp only at run
        refine ⟨fuel, flags', new, rfl, rfl, ?_⟩
        split_ifs at run with done
        · cases run
          exact .inl ⟨done, rfl⟩
        · right
          rcases tried : tryAll answers fuel (r + 1) flags' with e | rest | rest
          · rw [tried] at run
            cases run
          · rw [tried] at run
            cases run
          · rw [tried] at run
            cases run
            exact ⟨rest, rfl, rfl⟩

/-- **Induction over the passes**, from the last one back. -/
theorem tryAll_induction {P : ℕ → List Bool → List (ℕ × α) → Prop}
    (last : ∀ {r flags flags' new}, pass (answers r) 0 flags = .ok (flags', new) →
      flags'.all id = true → P r flags new)
    (step : ∀ {r flags flags' new rest}, pass (answers r) 0 flags = .ok (flags', new) →
      P (r + 1) flags' rest → P r flags (new ++ rest))
    {fuel r : ℕ} {flags : List Bool} {collected : List (ℕ × α)}
    (run : tryAll answers fuel r flags = .ok (some collected)) : P r flags collected := by
  induction fuel generalizing r flags collected with
  | zero =>
      rw [tryAll] at run
      cases run
  | succ fuel ih =>
      obtain ⟨fuel', flags', new, same, passed, ends⟩ := tryAll_ok run
      obtain rfl := Nat.succ.inj same
      rcases ends with ⟨done, rfl⟩ | ⟨rest, later, rfl⟩
      · exact last passed done
      · exact step passed (ih later)

/-- **Trying collects one answer for each job** that was not done. -/
theorem tryAll_collects {fuel r : ℕ} {flags : List Bool} {collected : List (ℕ × α)}
    (run : tryAll answers fuel r flags = .ok (some collected)) :
    (collected.map Prod.fst).Perm (todo 0 flags) ∧
      ∀ e ∈ collected, ∃ r', answers r' e.1 = .ok (some e.2) := by
  refine tryAll_induction (P := fun _ flags collected =>
    (collected.map Prod.fst).Perm (todo 0 flags) ∧
      ∀ e ∈ collected, ∃ r', answers r' e.1 = .ok (some e.2)) ?_ ?_ run
  · intro r flags flags' new passed done
    obtain ⟨perm, each⟩ := pass_todo passed
    rw [todo_eq_nil done, List.append_nil] at perm
    exact ⟨perm, fun e mem => ⟨r, each e mem⟩⟩
  · rintro r flags flags' new rest passed ⟨restPerm, restEach⟩
    obtain ⟨perm, each⟩ := pass_todo passed
    rw [List.map_append]
    refine ⟨(restPerm.append_left _).trans perm, fun e mem => ?_⟩
    rcases List.mem_append.mp mem with now | afterwards
    · exact ⟨r, each e now⟩
    · exact restEach e afterwards

/-- When trying ends, every job that was not done was only left alone until it was answered. -/
theorem tryAll_answered {fuel r i : ℕ} {flags : List Bool} {collected : List (ℕ × α)}
    (run : tryAll answers fuel r flags = .ok (some collected)) (undone : flags[i]? = some false) :
    ∃ r' ≥ r, (∃ a, answers r' i = .ok (some a)) ∧
      ∀ t, r ≤ t → t < r' → answers t i = .ok none := by
  refine tryAll_induction (P := fun r flags _ => flags[i]? = some false →
    ∃ r' ≥ r, (∃ a, answers r' i = .ok (some a)) ∧
      ∀ t, r ≤ t → t < r' → answers t i = .ok none) ?_ ?_ run undone
  · intro r flags flags' new passed done undone
    obtain ⟨a, answered, flag⟩ := (pass_getElem passed).1 undone
    rw [Nat.zero_add] at answered
    cases a with
    | some a => exact ⟨r, le_rfl, ⟨a, answered⟩, fun t le lt => absurd le lt.not_ge⟩
    | none =>
        exact absurd (List.all_eq_true.mp done _ (List.mem_of_getElem? flag)) (by simp)
  · intro r flags flags' new rest passed later undone
    obtain ⟨a, answered, flag⟩ := (pass_getElem passed).1 undone
    rw [Nat.zero_add] at answered
    cases a with
    | some a => exact ⟨r, le_rfl, ⟨a, answered⟩, fun t le lt => absurd le lt.not_ge⟩
    | none =>
        obtain ⟨r', le, last, before⟩ := later flag
        refine ⟨r', by omega, last, fun t from' lt => ?_⟩
        rcases Nat.eq_or_lt_of_le from' with rfl | more
        · exact answered
        · exact before t more lt

/-- No job meets an error before it is answered. -/
def Calm (answers : ℕ → ℕ → Except ε (Option α)) (n : ℕ) : Prop :=
  ∀ i < n, ∀ r e, answers r i = .error e → ∃ r' < r, ∃ a, answers r' i = .ok (some a)

/-- Trying ends by the time by which every job is answered. -/
theorem exists_tryAll {n bound : ℕ} (calm : Calm answers n)
    (answered : ∀ i < n, ∃ r < bound, ∃ a, answers r i = .ok (some a)) {fuel r : ℕ}
    {flags : List Bool} (length : flags.length ≤ n) (enough : bound ≤ r + fuel + 1)
    (fresh : ∀ i, flags[i]? = some false → ∀ t < r, ∀ a, answers t i ≠ .ok (some a)) :
    ∃ collected, tryAll answers (fuel + 1) r flags = .ok (some collected) := by
  have inside {i : ℕ} (undone : flags[i]? = some false) : i < n :=
    (List.getElem?_eq_some_iff.mp undone).1.trans_le length
  obtain ⟨flags', new, passed⟩ : ∃ flags' new, pass (answers r) 0 flags = .ok (flags', new) := by
    refine exists_pass fun i undone => ?_
    rw [Nat.zero_add]
    rcases now : answers r i with e | a
    · obtain ⟨t, lt, a, before⟩ := calm i (inside undone) r e now
      exact absurd before (fresh i undone t lt a)
    · exact ⟨a, rfl⟩
  -- what is undone after the pass got no answer in it
  have left {i : ℕ} (undone : flags'[i]? = some false) :
      flags[i]? = some false ∧ answers r i = .ok none := by
    obtain ⟨tried, kept⟩ := @pass_getElem _ _ _ 0 i _ _ _ passed
    by_cases before : flags[i]? = some false
    · obtain ⟨a, now, flag⟩ := tried before
      rw [Nat.zero_add] at now
      rw [undone] at flag
      cases a with
      | none => exact ⟨before, now⟩
      | some a => cases flag
    · rw [kept before] at undone
      exact absurd undone before
  rw [tryAll, passed]
  dsimp only
  by_cases done : flags'.all id = true
  · rw [if_pos done]
    exact ⟨new, rfl⟩
  rw [if_neg done]
  have fresh' (i : ℕ) (undone : flags'[i]? = some false) (t : ℕ) (lt : t < r + 1) (a : α) :
      answers t i ≠ .ok (some a) := by
    obtain ⟨before, now⟩ := left undone
    rcases Nat.lt_succ_iff_lt_or_eq.mp lt with earlier | rfl
    · exact fresh i before t earlier a
    · rw [now]
      exact fun h => nomatch h
  cases fuel with
  | zero =>
      -- the last job was answered in this pass
      rw [List.all_eq_true] at done
      push Not at done
      obtain ⟨flag, mem, undone⟩ := done
      obtain ⟨i, at_i⟩ := List.mem_iff_getElem?.mp mem
      rw [show flag = false from Bool.eq_false_iff.mpr undone] at at_i
      obtain ⟨t, lt, a, now⟩ := answered i (inside (left at_i).1)
      exact absurd now (fresh' i at_i t (by omega) a)
  | succ fuel =>
      obtain ⟨rest, tried⟩ := @exists_tryAll n bound calm answered fuel (r + 1) flags'
        (by rw [length_pass passed]; exact length) (by omega) fresh'
      exact ⟨new ++ rest, by rw [tried]; rfl⟩

/-- **Trying ends exactly when no job meets an error before it is answered**, where every job is
answered at some time. -/
theorem tryAll_iff {n : ℕ} (answered : ∀ i < n, ∃ r a, answers r i = .ok (some a)) :
    (∃ fuel collected, tryAll answers fuel 0 (List.replicate n false) = .ok (some collected)) ↔
      Calm answers n := by
  constructor
  · rintro ⟨fuel, collected, run⟩ i lt r e error
    obtain ⟨r', -, ⟨a, last⟩, before⟩ := tryAll_answered run
      (show (List.replicate n false)[i]? = some false by simp [lt])
    refine ⟨r', ?_, a, last⟩
    by_contra late
    rcases Nat.eq_or_lt_of_le (Nat.le_of_not_lt late) with rfl | early
    · rw [error] at last
      cases last
    · rw [before r (Nat.zero_le r) early] at error
      cases error
  · intro calm
    choose! time now using answered
    have bounded (i : ℕ) (lt : i < n) : time i < (Finset.range n).sup time + 1 :=
      Nat.lt_succ_of_le (Finset.le_sup (f := time) (Finset.mem_range.mpr lt))
    obtain ⟨collected, run⟩ := exists_tryAll calm
      (fun i lt => ⟨time i, bounded i lt, now i lt⟩) List.length_replicate.le
      (Nat.le_add_left _ _) fun i undone t lt => absurd lt (Nat.not_lt_zero t)
    exact ⟨_, collected, run⟩

end Passes

end Prism.Lib.Retry
