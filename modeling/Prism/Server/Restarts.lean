import Prism.Server.SavedEpochs

/-!
Which epochs survive a restart with their identity
(`prism/server/epoch/saved.py`, `prism/server/epoch/epoch.py`).

A restarted process counts its epochs from zero again: `SavedEpoch.__init__` sets a counter of its
own class, and `Epoch.__init__` takes the number from that of `Epoch`. So a restored epoch keeps
its number only when it had the number zero, and the numbers after it may be used already.

* `Life.survives_iff`: a restart keeps the current epoch and gives out new numbers exactly when
  no process has launched a second epoch.
-/

namespace Prism.Server

open Prism.Crypto Prism.Lib Prism.Lockfree Prism.Vrf

namespace Life

variable {packages : KeyPackages}

/-- A history: the changes, and the epochs that they made. -/
abbrev History (packages : KeyPackages) :=
  List (Change packages × Option (EpochData packages))

/-- The epochs that were ever made. -/
def made (history : History packages) : List (EpochData packages) := history.filterMap Prod.snd

/-- NEW made an epoch. -/
def Launched (history : History packages) : Prop :=
  ∃ seed given e, (Change.new seed given, some e) ∈ history

/-- **The current epoch survives a restart**: it was made before; the process that starts makes
it again, with a key that it fetches under the same serial number, unless it cannot fetch one;
and the next epoch gets a number that no epoch has had. -/
def Survives (host : Host packages) (s : Life packages) (history : History packages) : Prop :=
  ∀ name saved, s.currentEpoch = some name → s.savedEpochs.lookup name = some saved →
    ∀ given : Surroundings packages, given.ignoreState = false →
      ∃ e ∈ made history, ∃ state, saved = { e with state }.saveData ∧
        (s.boot host given).2 =
          (fetchKey host e.serialNumber given.out).toOption.map (e.restored e.serialNumber) ∧
        ∀ r ∈ (s.boot host given).2,
          r.saveData = { saved with state := EpochState.running.name } ∧
          ∀ old ∈ made history, (s.boot host given).1.serialNumIterator ≠ old.serialNumber

/-! ### Making epochs -/

section Making

variable {host : Host packages} {s : Life packages} {given : Surroundings packages}
  {seed : String} {e : EpochData packages}

/-- Every constructor takes the next number and fetches a key under it. -/
theorem fromSeed_ok (run : s.fromSeed host given seed = .ok e) :
    e.serialNumber = s.serialNumIterator ∧
      ∃ key, fetchKey host s.serialNumIterator given.out = .ok key := by
  rw [fromSeed] at run
  split at run
  · obtain ⟨privateText, -, run⟩ := bind_eq_ok.mp run
    obtain ⟨privateKey, -, run⟩ := bind_eq_ok.mp run
    obtain ⟨key, fetched, run⟩ := bind_eq_ok.mp run
    obtain ⟨pseudonym, -, run⟩ := bind_eq_ok.mp run
    obtain ⟨role, -, run⟩ := bind_eq_ok.mp run
    cases run
    exact ⟨rfl, key, fetched⟩
  · split_ifs at run
    · obtain ⟨key, fetched, run⟩ := bind_eq_ok.mp run
      obtain ⟨pseudonym, -, run⟩ := bind_eq_ok.mp run
      obtain ⟨role, -, run⟩ := bind_eq_ok.mp run
      cases run
      exact ⟨rfl, key, fetched⟩
    · obtain ⟨key, fetched, run⟩ := bind_eq_ok.mp run
      obtain ⟨args, -, run⟩ := bind_eq_ok.mp run
      obtain ⟨role, -, run⟩ := bind_eq_ok.mp run
      cases run
      exact ⟨rfl, key, fetched⟩

/-- What `launch_epoch` changes. -/
structure Launches (host : Host packages) (s : Life packages) (given : Surroundings packages)
    (seed : String) (s' : Life packages) (out : Option (EpochData packages)) : Prop where
  currentEpoch : s'.currentEpoch = s.currentEpoch
  savedEpochs : s'.savedEpochs = s.savedEpochs
  serialNumIterator : s'.serialNumIterator = s.serialNumIterator + 1
  epochs : s'.epochs = s.epochs ++ out.toList
  alive : s'.alive = true → s.alive = true ∧ out.isSome
  made : out = (s.fromSeed host given seed).toOption

theorem launch_launches (host : Host packages) (s : Life packages)
    (given : Surroundings packages) (seed : String) :
    Launches host s given seed (s.launch host given seed).1 (s.launch host given seed).2 := by
  rw [launch]
  dsimp only
  rcases run : s.fromSeed host given seed with error | e
  · exact
      { currentEpoch := rfl
        savedEpochs := rfl
        serialNumIterator := rfl
        epochs := (List.append_nil _).symm
        alive := fun alive => nomatch alive
        made := by rw [run]; rfl }
  · exact
      { currentEpoch := rfl
        savedEpochs := rfl
        serialNumIterator := rfl
        epochs := rfl
        alive := fun alive => ⟨alive, rfl⟩
        made := by rw [run]; rfl }

/-- A process that starts restores the epoch that was saved as the current one. -/
theorem boot_saved {name : String} {state : EpochState} (current : s.currentEpoch = some name)
    (saved : s.savedEpochs.lookup name = some { e with state }.saveData)
    (kept : given.ignoreState = false) :
    (s.boot host given).2 = (fetchKey host 0 given.out).toOption.map (e.restored 0) ∧
      (s.boot host given).1.serialNumIterator = 1 := by
  rw [boot]
  dsimp only
  rw [kept, current]
  have launched := launch_launches host
    { currentEpoch := some name, savedEpochs := s.savedEpochs, alive := true } given name
  refine ⟨launched.made.trans ?_, launched.serialNumIterator⟩
  rw [fromSeed, loadState, kept]
  dsimp only
  rw [if_neg Bool.false_ne_true, saved]
  dsimp only
  rw [savedEpoch_saveData]
  rcases fetchKey host 0 given.out with error | key
  · rfl
  · rfl

/-- Where a key was fetched, one can be fetched under every number. -/
theorem exists_fetchKey {n : ℕ} {out : Outside packages} {key : ServerKey packages}
    (run : fetchKey host n out = .ok key) (k : ℕ) :
    ∃ out' key', fetchKey host k out' = .ok key' := by
  unfold fetchKey ServerPKI.fetchKeyCertPseudonym at run ⊢
  rcases root : host.pki.rootCert with _ | rootCert
  · exact ⟨out, _, rfl⟩
  · simp only [root] at run
    obtain ⟨pair, found, -⟩ := map_eq_ok.mp run
    unfold ServerPKI.serverPair at found ⊢
    rcases rootKey : host.pki.rootKey with _ | rootKey
    · exact ⟨{ out with keysDir := some fun _ => some (.ok pair) }, _, rfl⟩
    · simp only [rootKey] at found
      exact ⟨out, _, congrArg (Except.map _) found⟩

end Making

/-! ### What holds at any time -/

@[simp] theorem made_concat (history : History packages) (change : Change packages)
    (out : Option (EpochData packages)) :
    made (history ++ [(change, out)]) = made history ++ out.toList := by
  cases out <;> simp [made]

theorem launched_concat {history : History packages} {change : Change packages}
    {out : Option (EpochData packages)} :
    Launched (history ++ [(change, out)]) ↔
      Launched history ∨ ∃ seed given e, change = .new seed given ∧ out = some e := by
  simp only [Launched, List.mem_append, List.mem_singleton, Prod.mk.injEq, exists_or]
  grind

/-- An epoch that was made, in some state. -/
def IsMade (history : History packages) (e : EpochData packages) : Prop :=
  ∃ made' ∈ made history, ∃ state, e = { made' with state }

/-- What holds of a server at any time. Numbers are given out from zero on in each process, so an
epoch of number one was made when a second one was made in some process. -/
structure Inv (host : Host packages) (s : Life packages) (history : History packages) : Prop where
  epochs : ∀ e ∈ s.epochs, IsMade history e
  saved : ∀ name saved, (name, saved) ∈ s.savedEpochs →
    ∃ e, IsMade history e ∧ saved = e.saveData
  fetched : ∀ e ∈ made history, ∃ n out key, fetchKey host n out = .ok key
  counted : s.alive = true → s.serialNumIterator ≠ 0
  second : Launched history ∨ s.alive = true ∧ s.serialNumIterator ≠ 1 →
    ∃ e ∈ made history, e.serialNumber = 1
  zero : ¬ Launched history → ∀ e ∈ made history, e.serialNumber = 0

variable {host : Host packages} {s : Life packages} {history : History packages}

theorem IsMade.concat {e : EpochData packages} (isMade : IsMade history e)
    (change : Change packages) (out : Option (EpochData packages)) :
    IsMade (history ++ [(change, out)]) e := by
  obtain ⟨e', mem, same⟩ := isMade
  exact ⟨e', by rw [made_concat]; exact List.mem_append_left _ mem, same⟩

/-- A change that makes no epoch. -/
theorem Inv.idle (inv : Inv host s history) (change : Change packages) {s' : Life packages}
    (epochs : ∀ e ∈ s'.epochs, IsMade history e)
    (saved : ∀ name saved, (name, saved) ∈ s'.savedEpochs →
      ∃ e, IsMade history e ∧ saved = e.saveData)
    (alive : s'.alive = s.alive) (counter : s'.serialNumIterator = s.serialNumIterator) :
    Inv host s' (history ++ [(change, none)]) where
  epochs e mem := (epochs e mem).concat change none
  saved name d mem := by
    obtain ⟨e, isMade, same⟩ := saved name d mem
    exact ⟨e, isMade.concat change none, same⟩
  fetched := by simpa using inv.fetched
  counted := by simpa only [alive, counter] using inv.counted
  second := by simpa [launched_concat, alive, counter] using inv.second
  zero := by simpa [launched_concat] using inv.zero

/-- A change that launches an epoch: the first one of a process, or one that NEW asks for. -/
theorem Inv.launches (inv : Inv host s history) {s₀ s' : Life packages}
    {given : Surroundings packages} {seed : String} {change : Change packages}
    {out : Option (EpochData packages)} (launches : Launches host s₀ given seed s' out)
    (epochs : ∀ e ∈ s₀.epochs, IsMade history e) (saved : s₀.savedEpochs = s.savedEpochs)
    (asked : (s₀.serialNumIterator = 0 ∧ ∀ seed given, change ≠ .new seed given) ∨
      (s₀.serialNumIterator = s.serialNumIterator ∧ s.alive = true ∧
        ∃ seed given, change = .new seed given)) :
    Inv host s' (history ++ [(change, out)]) := by
  have run {e : EpochData packages} (isOut : out = some e) : s₀.fromSeed host given seed = .ok e := by
    rw [launches.made] at isOut
    rcases run : s₀.fromSeed host given seed with error | e'
    · rw [run] at isOut
      cases isOut
    · rw [run] at isOut
      cases isOut
      rfl
  refine ⟨fun e mem => ?_, fun name d mem => ?_, fun e mem => ?_, fun _ => ?_, fun h => ?_,
    fun none e mem => ?_⟩
  · rw [launches.epochs, List.mem_append] at mem
    rcases mem with old | new
    · exact (epochs e old).concat change out
    · exact ⟨e, by rw [made_concat]; exact List.mem_append_right _ new, e.state, rfl⟩
  · rw [launches.savedEpochs, saved] at mem
    obtain ⟨e, isMade, same⟩ := inv.saved name d mem
    exact ⟨e, isMade.concat change out, same⟩
  · rw [made_concat, List.mem_append] at mem
    rcases mem with old | new
    · exact inv.fetched e old
    · obtain ⟨-, key, fetched⟩ := fromSeed_ok (run (Option.mem_toList.mp new))
      exact ⟨_, given.out, key, fetched⟩
  · rw [launches.serialNumIterator]
    exact Nat.succ_ne_zero _
  · rw [made_concat]
    rcases asked with ⟨first, notNew⟩ | ⟨same, alive, -⟩
    · rcases h with launched | ⟨-, more⟩
      · rcases launched_concat.mp launched with before | ⟨seed, given, e, isNew, -⟩
        · obtain ⟨e, mem, one⟩ := inv.second (.inl before)
          exact ⟨e, List.mem_append_left _ mem, one⟩
        · exact absurd isNew (notNew seed given)
      · rw [launches.serialNumIterator, first] at more
        exact absurd rfl more
    · by_cases before : Launched history ∨ s.serialNumIterator ≠ 1
      · obtain ⟨e, mem, one⟩ := inv.second (before.imp_right fun more => ⟨alive, more⟩)
        exact ⟨e, List.mem_append_left _ mem, one⟩
      · -- it is the second epoch of its process
        push Not at before
        have isOut : ∃ e, out = some e := by
          rcases h with launched | ⟨alive', -⟩
          · rcases launched_concat.mp launched with old | ⟨-, -, e, -, isOut⟩
            · exact absurd old before.1
            · exact ⟨e, isOut⟩
          · exact Option.isSome_iff_exists.mp (launches.alive alive').2
        obtain ⟨e, isOut⟩ := isOut
        obtain ⟨number, -⟩ := fromSeed_ok (run isOut)
        exact ⟨e, List.mem_append_right _ (Option.mem_toList.mpr isOut),
          number.trans (same.trans before.2)⟩
  · rw [made_concat, List.mem_append] at mem
    rcases mem with old | new
    · exact inv.zero (fun before => none (launched_concat.mpr (.inl before))) e old
    · rcases asked with ⟨first, -⟩ | ⟨-, -, seed', given', isNew⟩
      · obtain ⟨number, -⟩ := fromSeed_ok (run (Option.mem_toList.mp new))
        exact number.trans first
      · exact absurd (launched_concat.mpr
          (.inr ⟨seed', given', e, isNew, Option.mem_toList.mp new⟩)) none

theorem Inv.step (inv : Inv host s history) (change : Change packages) :
    Inv host (s.step host change).1 (history ++ [(change, (s.step host change).2)]) := by
  cases change with
  | boot given =>
      exact inv.launches (launch_launches host _ given _) (fun e mem => nomatch mem) rfl
        (.inl ⟨rfl, fun seed given isNew => nomatch isNew⟩)
  | new seed given =>
      rw [Life.step]
      split_ifs with alive
      · exact inv.launches (launch_launches host s given seed) inv.epochs rfl
          (.inr ⟨rfl, alive, seed, given, rfl⟩)
      · exact inv.idle _ inv.epochs inv.saved rfl rfl
  | advance i state =>
      refine inv.idle _ (fun e mem => ?_) inv.saved rfl rfl
      rw [Life.step] at mem
      obtain ⟨k, at_k⟩ := List.mem_iff_getElem?.mp mem
      rw [List.getElem?_modify] at at_k
      obtain ⟨old, here, rfl⟩ := Option.map_eq_some_iff.mp at_k
      obtain ⟨e', isMade, state', rfl⟩ := inv.epochs old (List.mem_of_getElem? here)
      split_ifs
      · exact ⟨e', isMade, state, rfl⟩
      · exact ⟨e', isMade, state', rfl⟩
  | run i =>
      rw [Life.step]
      split
      case h_1 e alive here =>
        refine inv.idle _ inv.epochs (fun name d mem => ?_) rfl rfl
        rcases mem_dictSet.mp mem with same | ⟨old, -⟩
        · cases same
          exact ⟨e, inv.epochs e (List.mem_of_getElem? here), rfl⟩
        · exact inv.saved name d old
      case h_2 => exact inv.idle _ inv.epochs inv.saved rfl rfl

theorem inv_init (host : Host packages) : Inv host (machine host).init [] where
  epochs _ mem := nomatch mem
  saved _ _ mem := nomatch mem
  fetched _ mem := nomatch mem
  counted alive := nomatch alive
  second h := by
    rcases h with ⟨seed, given, e, mem⟩ | ⟨alive, -⟩
    · cases mem
    · cases alive
  zero _ _ mem := nomatch mem

theorem inv_run (host : Host packages) (changes : List (Change packages)) :
    Inv host ((machine host).run changes).1 ((machine host).run changes).2 :=
  @Machine.run_induction _ _ _ (machine host) (fun _ _ _ => True) (Inv host) (inv_init host)
    (fun _ _ change inv _ => inv.step change) changes fun _ _ _ _ => trivial

/-- Without a second epoch, the restored epoch has the number of the one that was saved. -/
theorem Inv.survives (inv : Inv host s history) (none : ¬ Launched history) :
    Survives host s history := by
  intro name d current found given kept
  obtain ⟨_, ⟨e, isMade, state, rfl⟩, rfl⟩ := inv.saved name d (mem_of_lookup found)
  have zero := inv.zero none
  obtain ⟨boots, next⟩ := @boot_saved _ host s given e name state current found kept
  refine ⟨e, isMade, state, rfl, ?_, fun r restored => ⟨?_, fun old mem => ?_⟩⟩
  · rw [boots, zero e isMade]
  · rw [boots] at restored
    obtain ⟨key, -, rfl⟩ := Option.mem_map.mp restored
    simp only [EpochData.saveData, EpochData.restored, zero e isMade]
  · rw [next, zero old mem]
    exact one_ne_zero

/-- After a second epoch, a restart gives its number out again. -/
theorem Inv.not_survives (inv : Inv host s history) (launched : Launched history) {name : String}
    {saved : SavedState} (current : s.currentEpoch = some name)
    (found : s.savedEpochs.lookup name = some saved) : ¬ Survives host s history := by
  intro survives
  obtain ⟨second, mem, one⟩ := inv.second (.inl launched)
  obtain ⟨n, out, key, fetched⟩ := inv.fetched second mem
  obtain ⟨out', key', fetched'⟩ := exists_fetchKey fetched 0
  let given : Surroundings packages := { out := out', sorted := ⟨[], ⟨0, 0⟩, "", ""⟩ }
  obtain ⟨e, -, state, rfl, -, restored⟩ := survives name saved current found given rfl
  obtain ⟨boots, next⟩ := @boot_saved _ host s given e name state current found rfl
  rw [boots, fetched'] at restored
  exact (restored _ rfl).2 second mem (next.trans one.symm)

/-- **A restart keeps the current epoch and gives out new numbers exactly when no process has
launched a second epoch.** -/
theorem survives_iff (host : Host packages) (changes : List (Change packages)) {name : String}
    {saved : SavedState} (current : ((machine host).run changes).1.currentEpoch = some name)
    (found : ((machine host).run changes).1.savedEpochs.lookup name = some saved) :
    Survives host ((machine host).run changes).1 ((machine host).run changes).2 ↔
      ¬ Launched ((machine host).run changes).2 := by
  have inv := inv_run host changes
  exact ⟨fun survives launched => inv.not_survives launched current found survives,
    fun none => inv.survives none⟩

/-! ### A second epoch -/

/-- Keys for messages that are their own export, and no root key. -/
abbrev examplePackages : KeyPackages where
  EccKey := Bytes
  exportKey := id
  importKey := .ok
  import_export := ok_id
  x509 := exampleX509
  publicBytes key := [key]
  issue _ _ _ _ _ := .error .assertionError

/-- A server without a root certificate. -/
def exampleHost : Host examplePackages where
  name := "server-1"
  sha := exampleSha
  pki := { rootCert := none, rootKey := none }

/-- An epoch with the key 1 for messages and the key 2 for signatures; it is sorted to be an
emix. -/
def exampleSurroundings : Surroundings examplePackages where
  out := { eccKey := [1], rsaKey := (2 : UInt8), randomSerial := 0, now := 0, keysDir := none }
  sorted := { configuration := [], vrfConfig := ⟨1, 1⟩, committee := "EMIX", proof := "proof" }

theorem genesis_survives :
    let run := (machine exampleHost).run [.boot exampleSurroundings, .run 0]
    Survives exampleHost run.1 run.2 ↔ ¬ Launched run.2 :=
  @survives_iff _ exampleHost [.boot exampleSurroundings, .run 0] "genesis" _ rfl
    (Option.some_get rfl).symm

/-- **A second epoch does not survive a restart**: it comes back with the number of the first. -/
theorem second_epoch_lost :
    let run := (machine exampleHost).run [.boot exampleSurroundings, .run 0,
      .new "epoch-2" exampleSurroundings, .run 1]
    ¬ Survives exampleHost run.1 run.2 :=
  @Inv.not_survives _ exampleHost _ _ (inv_run _ _)
    ⟨"epoch-2", exampleSurroundings, _, List.mem_of_getElem? (i := 2) rfl⟩ "epoch-2" _ rfl
    (Option.some_get rfl).symm

end Life

end Prism.Server
