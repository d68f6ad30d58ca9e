import Mathlib.Data.Finset.Card
import Mathlib.Data.List.Dedup
import Prism.Client.Pseudonym
import Prism.Lib.Double

/-!
The salt of pseudonyms that spreads the clients over the dropboxes (`prism/config/salt.py`).

The search tries one number after another as the salt. A check goes through the dropboxes of all
clients, counts the loads, and ends as soon as a dropbox would get more than the load cap, or more
dropboxes than the overload cap have got more than the ideal load. Both caps grow with the time
that has passed.

* `addIndices_tally`: the loop keeps the counts of the indices so far, and ends early exactly when
  they are not within the caps.
* `check_iff_within`: a check returns True exactly when the loads that the clients will cause are
  within the caps.
* `optimizeSalt_within`: so it is for the salt that is returned.
-/

namespace Prism.Config

open Lib Vrf Client

/-! ### The search -/

/-- The order in which the numbers of a set are gone through. -/
structure SetOrder where
  list : List ℕ → List ℕ
  nodup : ∀ xs, (list xs).Nodup
  mem_list : ∀ xs x, x ∈ list xs ↔ x ∈ xs

/-- What a check goes by. -/
structure Caps where
  idealLoad : ℕ
  loadCap : ℕ
  overloadCap : ℕ

/-- The loads so far, and how many of them are above the ideal one. -/
structure Loads where
  dropboxLoads : List ℕ
  overloaded : ℕ

/-- The inner loop of `check`, over the dropboxes of a client: nothing when it returns False. -/
def addIndices (caps : Caps) : List ℕ → Loads → Py (Option Loads)
  | [], loads => .ok (some loads)
  | i :: indices, loads => do
    let load ← pyIndex loads.dropboxLoads i
    let overloaded := if load = caps.idealLoad then loads.overloaded + 1 else loads.overloaded
    if load = caps.loadCap ∨ overloaded > caps.overloadCap then return none
    else addIndices caps indices ⟨loads.dropboxLoads.set i (load + 1), overloaded⟩

section

variable (sha : Sha256) (order : SetOrder) (dropboxCount dropboxesPerClient : ℕ)

/-- The outer loop of `check`, over the clients and the times at which it comes to them. -/
def addClients (caps : Caps) (salt : String) : List (String × UtcTime) → Loads → Py Bool
  | [], _ => .ok true
  | (name, now) :: clients, loads => do
    let indices ← dropboxIndices (fromAddress sha now name salt) dropboxCount dropboxesPerClient
    match ← addIndices caps (order.list indices) loads with
    | some loads => addClients caps salt clients loads
    | none => return false

/-- `check`. -/
def check (caps : Caps) (clients : List (String × UtcTime)) (guess : ℕ) : Py Bool :=
  addClients sha order dropboxCount dropboxesPerClient caps (toString guess) clients
    ⟨List.replicate dropboxCount 0, 0⟩

/-- `ideal_load`, for a number of clients. -/
def idealLoad (clientCount : ℕ) : Py ℕ :=
  if dropboxCount = 0 then .error .zeroDivisionError
  else .ok ⌈double ((dropboxesPerClient * clientCount : ℕ) / dropboxCount)⌉₊

/-- `max_load`, after so many time steps. -/
def maxLoad (idealLoad timeSteps : ℕ) : ℕ :=
  ⌈double (double idealLoad * double (1 + double (double timeSteps * double (1 / 10))))⌉₊

/-- `max_overloaded`, after so many time steps. -/
def maxOverloaded (timeSteps : ℕ) : ℕ := ⌈double (double (dropboxCount / 10) * double timeSteps)⌉₊

/-- What a check reads of the clocks: the time steps for its two caps, and the times at which it
comes to the clients. -/
structure Readings where
  loadSteps : ℕ
  overloadSteps : ℕ
  now : ℕ → UtcTime

/-- The caps of a check. -/
def Readings.caps (readings : Readings) (idealLoad : ℕ) : Caps where
  idealLoad
  loadCap := maxLoad idealLoad readings.loadSteps
  overloadCap := maxOverloaded dropboxCount readings.overloadSteps

/-- The clients of a check. -/
def Readings.clients (readings : Readings) (clientNames : List String) : List (String × UtcTime) :=
  clientNames.zipIdx.map fun (name, i) => (name, readings.now i)

/-- The search from a candidate on, with so many checks at most. -/
def search (clientNames : List String) (idealLoad : ℕ) (readings : ℕ → Readings) :
    ℕ → ℕ → Py (Option String)
  | 0, _ => .ok none
  | fuel + 1, candidate => do
    let now := readings candidate
    if ← check sha order dropboxCount dropboxesPerClient (now.caps dropboxCount idealLoad)
        (now.clients clientNames) candidate then
      return some (toString candidate)
    else search clientNames idealLoad readings fuel (candidate + 1)

/-- `optimize_salt`, when a check of each candidate would read the clocks so. -/
def optimizeSalt (clientNames : List String) (readings : ℕ → Readings) (fuel : ℕ) :
    Py (Option String) := do
  let idealLoad ← idealLoad dropboxCount dropboxesPerClient clientNames.length
  search sha order dropboxCount dropboxesPerClient clientNames idealLoad readings fuel 1

end

/-! ### Loads within the caps -/

/-- No load is above the load cap, and not too many are above the ideal load. -/
structure Within (caps : Caps) (dropboxCount : ℕ) (load : ℕ → ℕ) : Prop where
  loadCap : ∀ d < dropboxCount, load d ≤ caps.loadCap
  overloadCap : ((Finset.range dropboxCount).filter (caps.idealLoad < load ·)).card ≤
    caps.overloadCap

theorem Within.mono {caps : Caps} {dropboxCount : ℕ} {load more : ℕ → ℕ}
    (within : Within caps dropboxCount more) (le : ∀ d, load d ≤ more d) :
    Within caps dropboxCount load where
  loadCap d lt := (le d).trans (within.loadCap d lt)
  overloadCap := (Finset.card_le_card (Finset.monotone_filter_right _ fun d _ above =>
    lt_of_lt_of_le above (le d))).trans within.overloadCap

section

variable (caps : Caps) (dropboxCount : ℕ)

/-- The loads after some indices. -/
def tally (done : List ℕ) : Loads where
  dropboxLoads := (List.range dropboxCount).map (done.count ·)
  overloaded := ((Finset.range dropboxCount).filter (caps.idealLoad < done.count ·)).card

variable {caps dropboxCount} {done : List ℕ} {i : ℕ}

theorem count_snoc (done : List ℕ) (i d : ℕ) :
    (done ++ [i]).count d = done.count d + if d = i then 1 else 0 := by
  rw [List.count_append, List.count_singleton]
  congr 1
  by_cases same : d = i
  · simp [same]
  · rw [if_neg same, if_neg (by simpa using Ne.symm same)]

theorem dropboxLoads_snoc :
    (tally caps dropboxCount done).dropboxLoads.set i (done.count i + 1) =
      (tally caps dropboxCount (done ++ [i])).dropboxLoads := by
  refine List.ext_getElem (by simp [tally]) fun d _ _ => ?_
  simp only [tally, List.getElem_set, List.getElem_map, List.getElem_range, count_snoc]
  split_ifs with same other other
  · rw [same]
  · exact absurd same.symm other
  · exact absurd other.symm same
  · rfl

/-- One more dropbox is overloaded when its load was the ideal one. -/
theorem overloaded_snoc (lt : i < dropboxCount) :
    (tally caps dropboxCount (done ++ [i])).overloaded =
      if done.count i = caps.idealLoad then (tally caps dropboxCount done).overloaded + 1
      else (tally caps dropboxCount done).overloaded := by
  split_ifs with ideal
  · have inserted : (Finset.range dropboxCount).filter (caps.idealLoad < (done ++ [i]).count ·) =
        insert i ((Finset.range dropboxCount).filter (caps.idealLoad < done.count ·)) := by
      ext d
      simp only [Finset.mem_filter, Finset.mem_insert, Finset.mem_range, count_snoc]
      split_ifs with same
      · subst same
        omega
      · simp [same]
    rw [tally, inserted, Finset.card_insert_of_notMem (by simp [ideal])]
    rfl
  · have same : (Finset.range dropboxCount).filter (caps.idealLoad < (done ++ [i]).count ·) =
        (Finset.range dropboxCount).filter (caps.idealLoad < done.count ·) := by
      refine Finset.filter_congr fun d _ => ?_
      rw [count_snoc]
      split_ifs with same
      · subst same
        omega
      · rw [Nat.add_zero]
    rw [tally, same]
    rfl

/-- **One more index** ends the check exactly when the loads are no longer within the caps. -/
theorem within_snoc_iff (lt : i < dropboxCount) (within : Within caps dropboxCount (done.count ·)) :
    ¬ Within caps dropboxCount ((done ++ [i]).count ·) ↔
      done.count i = caps.loadCap ∨
        (tally caps dropboxCount (done ++ [i])).overloaded > caps.overloadCap := by
  constructor
  · intro beyond
    by_contra neither
    push Not at neither
    refine beyond ⟨fun d dLt => ?_, neither.2⟩
    have before := within.loadCap d dLt
    rw [count_snoc]
    split_ifs with same
    · subst same
      have ne := neither.1
      omega
    · exact before
  · rintro (full | many) after
    · have above := after.loadCap i lt
      rw [count_snoc, if_pos rfl] at above
      omega
    · exact absurd after.overloadCap (Nat.not_le_of_lt many)

/-- **The loop keeps the counts** of the indices so far, as long as they are within the caps. -/
theorem addIndices_tally {indices : List ℕ} (inside : ∀ i ∈ indices, i < dropboxCount)
    (within : Within caps dropboxCount (done.count ·)) :
    (Within caps dropboxCount ((done ++ indices).count ·) →
      addIndices caps indices (tally caps dropboxCount done) =
        .ok (some (tally caps dropboxCount (done ++ indices)))) ∧
    (¬ Within caps dropboxCount ((done ++ indices).count ·) →
      addIndices caps indices (tally caps dropboxCount done) = .ok none) := by
  induction indices generalizing done with
  | nil =>
      rw [List.append_nil]
      exact ⟨fun _ => rfl, fun beyond => (beyond within).elim⟩
  | cons i indices ih =>
      obtain ⟨lt, inside⟩ := List.forall_mem_cons.mp inside
      have looked : pyIndex (tally caps dropboxCount done).dropboxLoads i = .ok (done.count i) :=
        pyIndex_map_range _ lt
      have stepped : addIndices caps (i :: indices) (tally caps dropboxCount done) =
          if done.count i = caps.loadCap ∨
            (tally caps dropboxCount (done ++ [i])).overloaded > caps.overloadCap then .ok none
          else addIndices caps indices (tally caps dropboxCount (done ++ [i])) := by
        rw [addIndices, looked, ok_bind, ← overloaded_snoc lt, dropboxLoads_snoc]
        rfl
      have all : done ++ i :: indices = done ++ [i] ++ indices := by
        rw [List.append_assoc, List.singleton_append]
      rw [stepped, all]
      by_cases next : Within caps dropboxCount ((done ++ [i]).count ·)
      · have goes := fun ends => (within_snoc_iff lt within).mpr ends next
        rw [if_neg goes]
        exact ih inside next
      · rw [if_pos ((within_snoc_iff lt within).mp next)]
        refine ⟨fun after => (next (after.mono fun d => ?_)).elim, fun _ => rfl⟩
        exact (List.sublist_append_left _ _).count_le d

end

/-! ### Clients -/

/-- The text of a number has no placeholder for the date. -/
theorem hasDate_toString (n : ℕ) : hasDate (toString n).toList = false := by
  have none : ∀ text : List Char, '\x7b' ∉ text → hasDate text = false := by
    intro text other
    fun_induction hasDate text with
    | case1 rest => exact absurd List.mem_cons_self other
    | case2 c rest _ ih => exact ih fun mem => other (List.mem_cons_of_mem _ mem)
    | case3 => rfl
  refine none _ fun mem => ?_
  have digit := Nat.isDigit_of_mem_toDigits (by decide) (by decide)
    (show '\x7b' ∈ Nat.toDigits 10 n by simpa using mem)
  exact absurd digit (by decide)

section

variable (sha : Sha256) (order : SetOrder) (config : ClientConfig)

/-- The load of a dropbox: how many clients have it when each has started at some time. -/
def clientLoad (clientNames : List String) (started : String → UtcTime) (d : ℕ) : ℕ :=
  clientNames.countP fun name =>
    match (PrismClient.start sha config (started name) name).myIndices config with
    | .ok indices => decide (d ∈ indices)
    | .error _ => false

variable {config}

/-- **The indices of a client** are the same at all times, with a salt that is a number. -/
theorem indices_of_salt {guess : ℕ} (salt : config.pseudonymSalt = toString guess)
    (started now : UtcTime) (name : String) :
    dropboxIndices (fromAddress sha now name (toString guess)) config.dropboxCount
        config.dropboxesPerClient =
      (PrismClient.start sha config started name).myIndices config := by
  have without := hasDate_toString guess
  rw [PrismClient.myIndices, PrismClient.start, salt, fromAddress, fromAddress, salted, salted,
    replaceDate_of_not without, replaceDate_of_not without]

theorem lt_of_mem_indices (pos : 1 ≤ config.dropboxCount) {pseudonym : Bytes} {indices : List ℕ}
    (computed : dropboxIndices pseudonym config.dropboxCount config.dropboxesPerClient =
      .ok indices) {i : ℕ} (mem : i ∈ indices) : i < config.dropboxCount := by
  obtain ⟨j, -, rfl⟩ := (mem_dropboxIndices computed).mp mem
  exact Nat.mod_lt _ pos

theorem indices_ok (pos : 1 ≤ config.dropboxCount) (pseudonym : Bytes) :
    ∃ indices, dropboxIndices pseudonym config.dropboxCount config.dropboxesPerClient =
      .ok indices := by
  rw [dropboxIndices, if_neg (by omega)]
  exact ⟨_, rfl⟩

/-- **The loops add up the loads** of the clients. -/
theorem addClients_tally (pos : 1 ≤ config.dropboxCount) {guess : ℕ}
    (salt : config.pseudonymSalt = toString guess) (caps : Caps) (started : String → UtcTime)
    (clients : List (String × UtcTime)) {done : List ℕ}
    (within : Within caps config.dropboxCount (done.count ·)) :
    ∃ passed, addClients sha order config.dropboxCount config.dropboxesPerClient caps
        (toString guess) clients (tally caps config.dropboxCount done) = .ok passed ∧
      (passed = true ↔ Within caps config.dropboxCount fun d =>
        done.count d + clientLoad sha config (clients.map Prod.fst) started d) := by
  induction clients generalizing done with
  | nil => exact ⟨true, rfl, by simpa [clientLoad] using within⟩
  | cons client clients ih =>
      obtain ⟨name, now⟩ := client
      obtain ⟨indices, computed⟩ := indices_ok pos (fromAddress sha now name (toString guess))
      have used := (indices_of_salt sha salt (started name) now name).symm.trans computed
      have inside : ∀ i ∈ order.list indices, i < config.dropboxCount := fun i mem =>
        lt_of_mem_indices pos computed ((order.mem_list _ _).mp mem)
      have loads : ∀ d, (done ++ order.list indices).count d +
          clientLoad sha config (clients.map Prod.fst) started d =
            done.count d + clientLoad sha config (((name, now) :: clients).map Prod.fst)
              started d := by
        intro d
        rw [List.count_append, clientLoad, clientLoad, List.map_cons, List.countP_cons, used]
        have once : (order.list indices).count d = if d ∈ indices then 1 else 0 := by
          split_ifs with mem
          · exact List.count_eq_one_of_mem (order.nodup _) ((order.mem_list _ _).mpr mem)
          · exact List.count_eq_zero.mpr fun found => mem ((order.mem_list _ _).mp found)
        rw [once]
        simp only [decide_eq_true_eq]
        omega
      rw [addClients, computed, ok_bind]
      obtain ⟨goes, ends⟩ := addIndices_tally inside within
      by_cases next : Within caps config.dropboxCount ((done ++ order.list indices).count ·)
      · rw [goes next, ok_bind]
        obtain ⟨passed, run, iff⟩ := ih next
        refine ⟨passed, run, iff.trans ?_⟩
        rw [funext loads]
      · rw [ends next, ok_bind]
        refine ⟨false, rfl, nofun, fun all => (next ?_).elim⟩
        rw [← funext loads] at all
        exact all.mono fun d => Nat.le_add_right _ _

end

section

variable (sha : Sha256) (order : SetOrder) {dropboxCount : ℕ} (dropboxesPerClient : ℕ)

theorem check_within (pos : 1 ≤ dropboxCount) (caps : Caps) (clients : List (String × UtcTime))
    (guess : ℕ) (started : String → UtcTime) :
    ∃ passed, check sha order dropboxCount dropboxesPerClient caps clients guess = .ok passed ∧
      (passed = true ↔ Within caps dropboxCount (clientLoad sha
        ⟨toString guess, dropboxCount, dropboxesPerClient⟩ (clients.map Prod.fst) started)) := by
  have none : (⟨List.replicate dropboxCount 0, 0⟩ : Loads) = tally caps dropboxCount [] := by
    simp [tally, List.map_const']
  have within : Within caps dropboxCount (([] : List ℕ).count ·) :=
    ⟨fun d _ => Nat.zero_le _, by simp⟩
  obtain ⟨passed, run, iff⟩ := @addClients_tally sha order
    ⟨toString guess, dropboxCount, dropboxesPerClient⟩ pos guess rfl caps started clients [] within
  refine ⟨passed, ?_, ?_⟩
  · rw [check, none, run]
  · simpa using iff

/-- **A check is exact.** For all clients, caps and guesses: with the guess as the salt, all clients
have at run time the indices that the check counts, on whichever day they start, and the check
returns True exactly when the loads that they cause are within the caps. -/
theorem check_iff_within (pos : 1 ≤ dropboxCount) (caps : Caps)
    (clients : List (String × UtcTime)) (guess : ℕ) (started : String → UtcTime) :
    (∃ passed, check sha order dropboxCount dropboxesPerClient caps clients guess = .ok passed ∧
      (passed = true ↔ Within caps dropboxCount (clientLoad sha
        ⟨toString guess, dropboxCount, dropboxesPerClient⟩ (clients.map Prod.fst) started))) ∧
    ∀ client ∈ clients,
      dropboxIndices (fromAddress sha client.2 client.1 (toString guess)) dropboxCount
          dropboxesPerClient =
        (PrismClient.start sha ⟨toString guess, dropboxCount, dropboxesPerClient⟩
          (started client.1) client.1).myIndices
            ⟨toString guess, dropboxCount, dropboxesPerClient⟩ :=
  ⟨check_within sha order dropboxesPerClient pos caps clients guess started, fun client _ =>
    @indices_of_salt sha ⟨toString guess, dropboxCount, dropboxesPerClient⟩ guess rfl
      (started client.1) client.2 client.1⟩

/-- Each number of a set where it is seen last. -/
def SetOrder.dedup : SetOrder where
  list := List.dedup
  nodup := List.nodup_dedup
  mem_list _ _ := List.mem_dedup

/-- Two clients that both use both dropboxes, checked on two days. -/
theorem check_of_two_clients :
    (∃ passed, check exampleSha .dedup 2 2 ⟨2, 2, 0⟩
        [("alice", beforeMidnight), ("bob", afterMidnight)] 1 = .ok passed ∧
      (passed = true ↔ Within ⟨2, 2, 0⟩ 2 (clientLoad exampleSha ⟨toString 1, 2, 2⟩
        ["alice", "bob"] fun _ => afterMidnight))) ∧
    ∀ client ∈ [("alice", beforeMidnight), ("bob", afterMidnight)],
      dropboxIndices (fromAddress exampleSha client.2 client.1 (toString 1)) 2 2 =
        (PrismClient.start exampleSha ⟨toString 1, 2, 2⟩ afterMidnight client.1).myIndices
          ⟨toString 1, 2, 2⟩ :=
  check_iff_within exampleSha .dedup 2 (by decide) ⟨2, 2, 0⟩
    [("alice", beforeMidnight), ("bob", afterMidnight)] 1 fun _ => afterMidnight

/-- **The salt that is returned** causes loads within the caps of its check. -/
theorem optimizeSalt_within (pos : 1 ≤ dropboxCount) (clientNames : List String)
    (readings : ℕ → Readings) (fuel : ℕ) (started : String → UtcTime) {salt : String}
    (found : optimizeSalt sha order dropboxCount dropboxesPerClient clientNames readings fuel =
      .ok (some salt)) :
    ∃ ideal candidate, idealLoad dropboxCount dropboxesPerClient clientNames.length = .ok ideal ∧
      salt = toString candidate ∧
      Within ((readings candidate).caps dropboxCount ideal) dropboxCount
        (clientLoad sha ⟨salt, dropboxCount, dropboxesPerClient⟩ clientNames started) := by
  obtain ⟨ideal, computed, found⟩ := bind_eq_ok.mp found
  have searched : ∀ fuel candidate, search sha order dropboxCount dropboxesPerClient clientNames
      ideal readings fuel candidate = .ok (some salt) →
      ∃ candidate, salt = toString candidate ∧
        Within ((readings candidate).caps dropboxCount ideal) dropboxCount
          (clientLoad sha ⟨salt, dropboxCount, dropboxesPerClient⟩ clientNames started) := by
    intro fuel
    induction fuel with
    | zero => nofun
    | succ fuel ih =>
        intro candidate found
        have names : ((readings candidate).clients clientNames).map Prod.fst = clientNames := by
          simp [Readings.clients, List.map_map, Function.comp_def]
        obtain ⟨passed, run, iff⟩ := check_within sha order dropboxesPerClient pos
          ((readings candidate).caps dropboxCount ideal) ((readings candidate).clients clientNames)
          candidate started
        rw [names] at iff
        rw [search, run, ok_bind] at found
        cases passed with
        | false => exact ih (candidate + 1) found
        | true =>
            cases found
            exact ⟨candidate, rfl, iff.mp rfl⟩
  obtain ⟨candidate, same, within⟩ := searched fuel 1 found
  exact ⟨ideal, candidate, computed, same, within⟩

end

end Prism.Config
