import Prism.Python
import Prism.Lib.JsonText

/-!
State files and crashes (`prism/common/state.py`, `prism/server/newserver.py`).

A `DirectoryStateStore` has a file for every name. `Path.write_text` empties the file and then
writes its text one character after another, and the process may end after each of these steps.
What a later process finds is what was written so far: nothing takes the place of a file only when
it is whole.

* `load_after_crash`: a name is loaded as it was last saved, unless the crash fell into the writing
  of its own file, which is then not read at all.
-/

namespace Prism.StateStore

open Lib JsonText

/-- A state: a dictionary, as JSON has it. -/
abbrev State := Members

/-- The files of a directory. -/
abbrev Directory := String → Option (List Char)

/-- What is done to a file at once. -/
inductive FileStep where
  | truncate (path : String)
  | append (path : String) (c : Char)

def FileStep.apply (files : Directory) : FileStep → Directory
  | .truncate path => Function.update files path (some [])
  | .append path c => Function.update files path ((files path).map (· ++ [c]))

/-- The files after some steps. -/
def write (files : Directory) (steps : List FileStep) : Directory :=
  steps.foldl FileStep.apply files

/-- `Path.write_text`. -/
def writeText (path : String) (text : List Char) : List FileStep :=
  .truncate path :: text.map (.append path)

namespace DirectoryStateStore

/-- `save_path`, in the directory of the store. -/
def savePath (name : String) : String := name ++ ".json"

/-- `save_state`. -/
def saveState (name : String) (state : State) : List FileStep :=
  writeText (savePath name) (dumps (.object state))

/-- `load_state`, with the messages of `json` and the setting `ignore_state`. -/
def loadState (decodeError : List Char → String) (ignoreState : Bool) (files : Directory)
    (name : String) : Py (Option JsonText.Value) :=
  if ignoreState then .ok none
  else
    match files (savePath name) with
    | none => .ok none
    | some text =>
      match loads text with
      | some value => .ok (some value)
      | none => .error (.valueError (decodeError text))

end DirectoryStateStore

namespace EpochStateStore

/-- `_transform_name`. -/
def transformName (epoch name : String) : String := s!"epoch_{epoch}_{name}"

/-- `save_state`. -/
def saveState (epoch name : String) (state : State) : List FileStep :=
  DirectoryStateStore.saveState (transformName epoch name) state

/-- `load_state`. -/
def loadState (decodeError : List Char → String) (ignoreState : Bool) (files : Directory)
    (epoch name : String) : Py (Option JsonText.Value) :=
  DirectoryStateStore.loadState decodeError ignoreState files (transformName epoch name)

end EpochStateStore

/-! ### Saves and a crash -/

/-- A call of `save_state`. -/
structure Save where
  name : String
  state : State

/-- What the call does. -/
def Save.steps (save : Save) : List FileStep := DirectoryStateStore.saveState save.name save.state

/-- What some calls do, one after another. -/
def steps (saves : List Save) : List FileStep := saves.flatMap Save.steps

/-- The files that a crash after `n` steps leaves in a new directory. -/
def crash (saves : List Save) (n : ℕ) : Directory := write (fun _ => none) ((steps saves).take n)

/-- Where a crash finds the saves: those that are complete, and the one that is being made, with
the number of its steps so far. -/
structure Interruption where
  complete : List Save
  current : Option (Save × ℕ)

def interruption : List Save → ℕ → Interruption
  | [], _ => ⟨[], none⟩
  | save :: saves, n =>
    if n < save.steps.length then ⟨[], some (save, n)⟩
    else
      let later := interruption saves (n - save.steps.length)
      ⟨save :: later.complete, later.current⟩

/-- The state of a name that was completely saved last. -/
def lastSaved (saves : List Save) (name : String) : Option State :=
  (saves.reverse.find? (·.name = name)).map Save.state

/-- The crash fell into the writing of the file of this name: after it was emptied, and before its
text was whole. -/
def Torn (saves : List Save) (n : ℕ) (name : String) : Prop :=
  ∃ save k, (interruption saves n).current = some (save, k) ∧ save.name = name ∧ 0 < k

/-- What is promised to be loaded after a crash. -/
def Recovers (saves : List Save) (n : ℕ) (name : String) : Py (Option JsonText.Value) → Prop
  | .ok found =>
    found = (lastSaved (interruption saves n).complete name).map JsonText.Value.object ∨
      ∃ save k, (interruption saves n).current = some (save, k) ∧ save.name = name ∧
        found = some (.object save.state)
  | .error _ => False

/-! ### Writing -/

theorem write_append (files : Directory) (before after : List FileStep) :
    write files (before ++ after) = write (write files before) after :=
  List.foldl_append

/-- Only its own file is written. -/
theorem write_other {path other : String} (ne : other ≠ path) (text : List Char)
    (files : Directory) : write files (text.map (.append path)) other = files other := by
  induction text generalizing files with
  | nil => rfl
  | cons c text ih =>
      rw [List.map_cons, write, List.foldl_cons]
      exact (ih _).trans (Function.update_of_ne ne _ _)

theorem write_own (path : String) (text written : List Char) {files : Directory}
    (own : files path = some written) :
    write files (text.map (.append path)) path = some (written ++ text) := by
  induction text generalizing files written with
  | nil => rw [List.append_nil, ← own]; rfl
  | cons c text ih =>
      have next : FileStep.apply files (.append path c) path = some (written ++ [c]) := by
        rw [FileStep.apply, Function.update_self, own]
        rfl
      rw [List.map_cons, write, List.foldl_cons]
      refine (ih _ next).trans ?_
      rw [List.append_assoc]
      rfl

/-- **What a part of the steps leaves**: the part of the text, in its own file. -/
theorem write_part (path : String) (text : List Char) (k : ℕ) (files : Directory) :
    write files ((writeText path text).take (k + 1)) =
      Function.update files path (some (text.take k)) := by
  have start : write files ((writeText path text).take (k + 1)) =
      write (Function.update files path (some [])) ((text.take k).map (.append path)) := by
    rw [writeText, List.take_succ_cons, ← List.map_take]
    rfl
  rw [start]
  funext other
  by_cases same : other = path
  · subst same
    rw [write_own _ _ [] (Function.update_self _ _ _), Function.update_self, List.nil_append]
  · rw [write_other same, Function.update_of_ne same, Function.update_of_ne same]

theorem write_writeText (path : String) (text : List Char) (files : Directory) :
    write files (writeText path text) = Function.update files path (some text) := by
  have whole := write_part path text text.length files
  rwa [List.take_of_length_le (by simp [writeText]), List.take_length] at whole

theorem savePath_injective : Function.Injective DirectoryStateStore.savePath := by
  intro name other same
  have texts := congrArg String.toList same
  rw [DirectoryStateStore.savePath, DirectoryStateStore.savePath, String.toList_append,
    String.toList_append] at texts
  exact String.toList_inj.mp (List.append_cancel_right texts)

/-! ### Interruptions -/

/-- The steps before a crash: those of the complete saves, and some of the next. -/
theorem take_steps (saves : List Save) (n : ℕ) :
    (steps saves).take n = steps (interruption saves n).complete ++
      (interruption saves n).current.elim [] fun (save, k) => save.steps.take k := by
  induction saves generalizing n with
  | nil => exact List.take_nil
  | cons save saves ih =>
      rw [steps, List.flatMap_cons, interruption]
      split_ifs with inside
      · rw [List.take_append_of_le_length (Nat.le_of_lt inside)]
        rfl
      · push Not at inside
        obtain ⟨m, rfl⟩ := Nat.exists_eq_add_of_le inside
        rw [List.take_length_add_append, Nat.add_sub_cancel_left]
        dsimp only
        rw [steps, List.flatMap_cons, List.append_assoc, ← steps, ← steps, ih]

theorem lt_of_current {saves : List Save} {n : ℕ} {save : Save} {k : ℕ}
    (current : (interruption saves n).current = some (save, k)) : k < save.steps.length := by
  induction saves generalizing n with
  | nil => cases current
  | cons other saves ih =>
      rw [interruption] at current
      split_ifs at current with inside
      · cases current
        exact inside
      · exact ih current

/-- **What complete saves leave**: in each file the state that was saved last. -/
theorem write_steps (saves : List Save) (name : String) :
    write (fun _ => none) (steps saves) (DirectoryStateStore.savePath name) =
      (lastSaved saves name).map fun state => dumps (.object state) := by
  induction saves using List.reverseRecOn with
  | nil => rfl
  | append_singleton saves save ih =>
      have written : write (fun _ => none) (steps (saves ++ [save])) =
          Function.update (write (fun _ => none) (steps saves))
            (DirectoryStateStore.savePath save.name) (some (dumps (.object save.state))) := by
        rw [steps, List.flatMap_append, List.flatMap_singleton, ← steps, write_append]
        exact write_writeText _ _ _
      have last : lastSaved (saves ++ [save]) name =
          if save.name = name then some save.state else lastSaved saves name := by
        rw [lastSaved, List.reverse_append, List.reverse_singleton, List.singleton_append,
          List.find?_cons]
        split_ifs with same
        · simp [same]
        · simp [same, lastSaved]
      rw [written, last]
      split_ifs with same
      · rw [same, Function.update_self]
        rfl
      · rw [Function.update_of_ne (fun eq => same (savePath_injective eq).symm), ih]

/-! ### Loading -/

section

variable (decodeError : List Char → String)

theorem loadState_whole {files : Directory} {name : String} {saved : Option State}
    (file : files (DirectoryStateStore.savePath name) =
      saved.map fun state => dumps (.object state)) :
    DirectoryStateStore.loadState decodeError false files name =
      .ok (saved.map JsonText.Value.object) := by
  rw [DirectoryStateStore.loadState, if_neg (by decide), file]
  cases saved with
  | none => rfl
  | some state =>
      dsimp only [Option.map_some]
      rw [loads_dumps]

/-- A file that was torn is not read. -/
theorem loadState_torn {files : Directory} {name : String} {state : State} {k : ℕ}
    (short : k < (dumps (.object state)).length)
    (file : files (DirectoryStateStore.savePath name) = some ((dumps (.object state)).take k)) :
    DirectoryStateStore.loadState decodeError false files name =
      .error (.valueError (decodeError ((dumps (.object state)).take k))) := by
  have text : dumps (.object state) =
      (dumps (.object state)).take k ++ (dumps (.object state)).drop k :=
    (List.take_append_drop k _).symm
  have missing : (dumps (.object state)).drop k ≠ [] := by
    rw [Ne, List.drop_eq_nil_iff]
    omega
  rw [DirectoryStateStore.loadState, if_neg (by decide), file]
  dsimp only
  rw [loads_torn text missing]

/-- **Loading after a crash.** A name is loaded as it was completely saved last, or as nothing if
it never was, unless the crash fell into the writing of its file; then `json` raises. With
`ignore_state`, nothing is loaded. -/
theorem load_after_crash (saves : List Save) (n : ℕ) (name : String) :
    (¬ Torn saves n name →
      DirectoryStateStore.loadState decodeError false (crash saves n) name =
        .ok ((lastSaved (interruption saves n).complete name).map JsonText.Value.object)) ∧
    (Torn saves n name → ∃ message,
      DirectoryStateStore.loadState decodeError false (crash saves n) name =
        .error (.valueError message)) ∧
    DirectoryStateStore.loadState decodeError true (crash saves n) name = .ok none := by
  have parted : crash saves n = write (write (fun _ => none)
      (steps (interruption saves n).complete))
        ((interruption saves n).current.elim [] fun (save, k) => save.steps.take k) := by
    rw [crash, take_steps, write_append]
  have complete := write_steps (interruption saves n).complete
  refine ⟨fun whole => ?_, fun torn => ?_, rfl⟩
  · refine loadState_whole decodeError ?_
    rw [parted, ← complete]
    cases current : (interruption saves n).current with
    | none => rfl
    | some being =>
        obtain ⟨save, k⟩ := being
        cases k with
        | zero => rfl
        | succ k =>
            have other : name ≠ save.name := fun same =>
              whole ⟨save, k + 1, current, same.symm, Nat.succ_pos k⟩
            have part := write_part (DirectoryStateStore.savePath save.name)
              (dumps (.object save.state)) k
              (write (fun _ => none) (steps (interruption saves n).complete))
            refine (congrFun part _).trans ?_
            rw [Function.update_of_ne (fun eq => other (savePath_injective eq))]
  · obtain ⟨save, k, current, rfl, begun⟩ := torn
    obtain ⟨k, rfl⟩ := Nat.exists_eq_add_of_le' begun
    have short : k < (dumps (.object save.state)).length := by
      have lt := lt_of_current current
      have length : save.steps.length = (dumps (.object save.state)).length + 1 := by
        rw [Save.steps, DirectoryStateStore.saveState, writeText, List.length_cons,
          List.length_map]
      omega
    refine ⟨_, loadState_torn decodeError short ?_⟩
    rw [parted, current]
    have part := write_part (DirectoryStateStore.savePath save.name)
      (dumps (.object save.state)) k
      (write (fun _ => none) (steps (interruption saves n).complete))
    refine (congrFun part _).trans ?_
    rw [Function.update_self]

end

/-- What a server saves of an epoch. -/
def exampleState (epoch : String) : State :=
  .cons "epoch".toList (.string epoch.toList) .nil

/-- Two epochs. -/
def exampleSaves : List Save :=
  [⟨"current-epoch", exampleState "genesis"⟩, ⟨"current-epoch", exampleState "next"⟩]

/-- The crash falls right after the file was emptied for the second epoch. -/
theorem emptied_not_recovered :
    ¬ Recovers exampleSaves 22 "current-epoch"
      (DirectoryStateStore.loadState (fun _ => "Expecting value: line 1 column 1 (char 0)") false
        (crash exampleSaves 22) "current-epoch") := by
  have emptied : crash exampleSaves 22 "current-epoch.json" = some [] := rfl
  have raises : DirectoryStateStore.loadState
      (fun _ => "Expecting value: line 1 column 1 (char 0)") false (crash exampleSaves 22)
      "current-epoch" = .error (.valueError "Expecting value: line 1 column 1 (char 0)") := by
    have file : crash exampleSaves 22 (DirectoryStateStore.savePath "current-epoch") = some [] :=
      emptied
    rw [DirectoryStateStore.loadState, if_neg (by decide), file]
    rfl
  rw [raises]
  exact id

end Prism.StateStore
