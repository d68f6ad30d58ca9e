import Prism.Lib.Calendar
import Prism.Routing.ArkStore
import Prism.Vrf.Uniqueness

/-!
Where a message is left and where it is looked for (`prism/common/pseudonym.py`,
`dropboxes_for_recipient` in `prism/common/server_db.py`, and the places in
`prism/client/client.py` that use them).

The pseudonym of an address is the digest of a salt and the address, and the salt may have a
placeholder for the date. A client computes its own pseudonym when it starts and polls for that one
ever after. Who sends to it computes its pseudonym twice: when it chooses dropboxes, and when it
writes the request.

* `windows_subset_iff`: when the dropboxes of one pseudonym are among those of another.
* `agrees_iff`: sender and receiver agree exactly while the date in the salt does not change.
* `midnight_between`: a message that is not found.
-/

namespace Prism.Client

open Lib Vrf

/-! ### Dates -/

/-- A time that `datetime` can represent, in microseconds from 1970 on. -/
structure UtcTime where
  micros : ℤ
  low : -62135596800 * 10 ^ 6 ≤ micros
  high : micros < 253402300800 * 10 ^ 6

namespace UtcTime

/-- The day, counted from the first of January of the year 1. -/
def day (now : UtcTime) : ℕ :=
  ((now.micros + 62135596800 * 10 ^ 6) / (86400 * 10 ^ 6)).toNat

/-- `datetime.utcnow().date().isoformat()`. -/
def dateStr (now : UtcTime) : List Char := (Date.ofOrdinal now.day).isoformat

theorem day_lt (now : UtcTime) : now.day < 3652059 := by
  have high := now.high
  rw [day]
  omega

@[simp] theorem length_dateStr (now : UtcTime) : now.dateStr.length = 10 :=
  Date.length_isoformat _

/-- The text of the date tells the day. -/
theorem dateStr_inj {now now' : UtcTime} : now.dateStr = now'.dateStr ↔ now.day = now'.day :=
  Date.isoformat_inj now.day_lt now'.day_lt

end UtcTime

/-! ### The salt -/

/-- `salt.replace("{date}", date_str)`. -/
def replaceDate (date : List Char) : List Char → List Char
  | '\x7b' :: 'd' :: 'a' :: 't' :: 'e' :: '\x7d' :: rest => date ++ replaceDate date rest
  | c :: rest => c :: replaceDate date rest
  | [] => []

/-- The salt has the placeholder. -/
def hasDate : List Char → Bool
  | '\x7b' :: 'd' :: 'a' :: 't' :: 'e' :: '\x7d' :: _ => true
  | _ :: rest => hasDate rest
  | [] => false

/-- Without the placeholder the date does not matter. -/
theorem replaceDate_of_not {salt : List Char} (without : hasDate salt = false)
    (date : List Char) : replaceDate date salt = salt := by
  fun_induction replaceDate date salt with
  | case1 rest ih => simp [hasDate] at without
  | case2 c rest other ih =>
      rw [hasDate.eq_2 _ _ other] at without
      rw [ih without]
  | case3 => rfl

/-- With it, the date can be read off the salt. -/
theorem replaceDate_inj {salt date date' : List Char} (has : hasDate salt = true)
    (length : date.length = date'.length)
    (same : replaceDate date salt = replaceDate date' salt) : date = date' := by
  fun_induction hasDate salt with
  | case1 rest =>
      rw [replaceDate, replaceDate] at same
      exact (List.append_inj same length).1
  | case2 c rest other ih =>
      rw [replaceDate.eq_2 _ _ _ other, replaceDate.eq_2 _ _ _ other] at same
      exact ih has (List.tail_eq_of_cons_eq same)
  | case3 => cases has

/-! ### Pseudonyms -/

section Pseudonyms

variable (sha : Sha256)

/-- The salt of a day and the address, encoded. -/
def salted (now : UtcTime) (address salt : String) : Bytes :=
  (String.ofList (replaceDate now.dateStr salt.toList ++ address.toList)).toUTF8.data.toList

/-- `Pseudonym.from_address`. -/
def fromAddress (now : UtcTime) (address salt : String) : Bytes :=
  sha.digest (salted now address salt)

/-- `Pseudonym.dropbox_indices`. -/
def dropboxIndices (pseudonym : Bytes) (dropboxCount dropboxesPerClient : ℕ) : Py (List ℕ) :=
  if dropboxCount = 0 then .error .zeroDivisionError
  else
    let baseIndex := intFromBytes pseudonym % dropboxCount
    .ok ((List.range dropboxesPerClient).map fun i => (baseIndex + i) % dropboxCount)

end Pseudonyms

/-! ### Dropboxes -/

/-- `[x for x in xs if p(x)]`, where the condition may raise. -/
def pyFilter {α : Type} (p : α → Py Bool) : List α → Py (List α)
  | [] => .ok []
  | x :: xs => do
    let holds ← p x
    let rest ← pyFilter p xs
    return if holds then x :: rest else rest

theorem mem_pyFilter {α : Type} {p : α → Py Bool} {xs ys : List α} (run : pyFilter p xs = .ok ys)
    {x : α} (mem : x ∈ ys) : x ∈ xs ∧ p x = .ok true := by
  induction xs generalizing ys with
  | nil =>
      cases run
      cases mem
  | cons head xs ih =>
      obtain ⟨holds, looked, run⟩ := bind_eq_ok.mp run
      obtain ⟨rest, runRest, run⟩ := bind_eq_ok.mp run
      cases run
      cases holds with
      | false => exact (ih runRest mem).imp_left (List.mem_cons_of_mem _)
      | true =>
          rcases List.mem_cons.mp mem with rfl | mem
          · exact ⟨List.mem_cons_self, looked⟩
          · exact (ih runRest mem).imp_left (List.mem_cons_of_mem _)

/-- Where the condition never raises, it filters the list. -/
theorem pyFilter_eq {α : Type} {p : α → Py Bool} {q : α → Bool} {xs : List α}
    (holds : ∀ x ∈ xs, p x = .ok (q x)) : pyFilter p xs = .ok (xs.filter q) := by
  induction xs with
  | nil => rfl
  | cons x xs ih =>
      rw [pyFilter, holds x List.mem_cons_self, ok_bind,
        ih fun other mem => holds other (List.mem_cons_of_mem _ mem), ok_bind, List.filter_cons]
      rfl

/-- A filter returns where its condition does for all elements. -/
theorem returns_pyFilter {α : Type} {p : α → Py Bool} {xs : List α} :
    Returns (pyFilter p xs) ↔ ∀ x ∈ xs, Returns (p x) := by
  induction xs with
  | nil => exact iff_of_true ⟨_, rfl⟩ nofun
  | cons head xs ih =>
      rw [List.forall_mem_cons, ← ih, pyFilter, returns_bind]
      constructor
      · rintro ⟨holds, looked, later⟩
        obtain ⟨rest, runRest, -⟩ := returns_bind.mp later
        exact ⟨⟨holds, looked⟩, rest, runRest⟩
      · rintro ⟨⟨holds, looked⟩, rest, runRest⟩
        exact ⟨holds, looked, returns_bind.mpr ⟨rest, runRest, _, rfl⟩⟩

/-- `rec.epoch`. -/
def epochOf (server : Routing.ServerRecord) : Option String :=
  match server.ark.get .epoch with
  | .str epoch => some epoch
  | _ => none

/-- `valid_servers`. -/
def validServers (now : ℤ) (currentEpoch : String) (servers : Routing.Servers) :
    List Routing.ServerRecord :=
  (servers.map Prod.snd).filter fun server =>
    server.valid now && epochOf server = some currentEpoch

/-- The condition of `dropboxes_for_recipient`. A server without a role cannot be asked. -/
def isDropboxFor (indices : List ℕ) (epoch : String) (server : Routing.ServerRecord) : Py Bool :=
  match server.ark.get .role with
  | .str role => .ok ("DROPBOX".toList <:+: role.toList &&
      (match server.ark.get .dropboxIndex with
        | .int index => index ∈ indices.map Int.ofNat
        | _ => false) &&
      epochOf server = some epoch)
  | _ => .error .typeError

/-- `dropboxes_for_recipient`. -/
def dropboxesForRecipient (now : ℤ) (currentEpoch : String) (servers : Routing.Servers)
    (pseudonym : Bytes) (dropboxCount dropboxesPerClient : ℕ) (epoch : String) :
    Py (List Routing.ServerRecord) := do
  let indices ← dropboxIndices pseudonym dropboxCount dropboxesPerClient
  pyFilter (isDropboxFor indices epoch) (validServers now currentEpoch servers)

/-- A dropbox that was chosen has one of the indices. -/
theorem index_of_chosen {now : ℤ} {currentEpoch epoch : String} {servers : Routing.Servers}
    {pseudonym : Bytes} {dropboxCount dropboxesPerClient : ℕ} {chosen : List Routing.ServerRecord}
    (run : dropboxesForRecipient now currentEpoch servers pseudonym dropboxCount
      dropboxesPerClient epoch = .ok chosen) {server : Routing.ServerRecord}
    (mem : server ∈ chosen) :
    ∃ indices index, dropboxIndices pseudonym dropboxCount dropboxesPerClient = .ok indices ∧
      index ∈ indices ∧ server.ark.get .dropboxIndex = .int (index : ℕ) := by
  obtain ⟨indices, computed, run⟩ := bind_eq_ok.mp run
  obtain ⟨-, holds⟩ := mem_pyFilter run mem
  unfold isDropboxFor at holds
  cases role : server.ark.get .role with
  | str role' =>
      rw [role] at holds
      have parts := Except.ok.inj holds
      simp only [Bool.and_eq_true] at parts
      cases at_index : server.ark.get .dropboxIndex with
      | int n =>
          rw [at_index] at parts
          obtain ⟨index, isIn, rfl⟩ := List.mem_map.mp (of_decide_eq_true parts.1.2)
          exact ⟨indices, index, computed, isIn, rfl⟩
      | _ =>
          rw [at_index] at parts
          exact absurd parts.1.2 Bool.false_ne_true
  | _ =>
      rw [role] at holds
      cases holds

/-- A dropbox with some index, in an epoch. -/
def dropboxWith (index : ℕ) (epoch : String) : Routing.ServerRecord where
  pseudonym := none
  ark := PrismMessage.create 0 .announceRoleKey
    [(.role, .str "DROPBOX"), (.dropboxIndex, .int index), (.epoch, .str epoch)]
  expiration := 1

/-- It is chosen for its index. -/
theorem dropboxWith_chosen {pseudonym : Bytes} {dropboxCount dropboxesPerClient : ℕ}
    {indices : List ℕ} (computed :
      dropboxIndices pseudonym dropboxCount dropboxesPerClient = .ok indices)
    {index : ℕ} (mem : index ∈ indices) (epoch : String) :
    dropboxesForRecipient 0 epoch [(none, dropboxWith index epoch)] pseudonym dropboxCount
      dropboxesPerClient epoch = .ok [dropboxWith index epoch] := by
  have current : epochOf (dropboxWith index epoch) = some epoch := rfl
  have valid : validServers 0 epoch [(none, dropboxWith index epoch)] =
      [dropboxWith index epoch] := by
    rw [validServers, List.map_singleton, List.filter_singleton, current]
    simp [Routing.ServerRecord.valid, dropboxWith]
  have holds : isDropboxFor indices epoch (dropboxWith index epoch) = .ok true := by
    have role : (dropboxWith index epoch).ark.get .role = .str "DROPBOX" := rfl
    have at_index : (dropboxWith index epoch).ark.get .dropboxIndex = .int index := rfl
    rw [isDropboxFor, role, at_index, current]
    simp [mem]
  rw [dropboxesForRecipient, computed, ok_bind, valid, pyFilter, holds]
  rfl

/-! ### Windows of indices -/

section Windows

variable {dropboxCount dropboxesPerClient : ℕ}

theorem mem_dropboxIndices {pseudonym : Bytes} {indices : List ℕ}
    (computed : dropboxIndices pseudonym dropboxCount dropboxesPerClient = .ok indices) {x : ℕ} :
    x ∈ indices ↔ ∃ i < dropboxesPerClient,
      (intFromBytes pseudonym % dropboxCount + i) % dropboxCount = x := by
  unfold dropboxIndices at computed
  split_ifs at computed
  cases computed
  simp [List.mem_map, List.mem_range]

/-- **When one window is inside another**: it is empty, or the windows hold all indices, or they
start at the same index. -/
theorem windows_subset_iff (pos : 0 < dropboxCount) (m n : ℕ) :
    (∀ i < dropboxesPerClient, ∃ j < dropboxesPerClient,
        (n % dropboxCount + j) % dropboxCount = (m % dropboxCount + i) % dropboxCount) ↔
      dropboxesPerClient = 0 ∨ dropboxCount ≤ dropboxesPerClient ∨
        m % dropboxCount = n % dropboxCount := by
  constructor
  · intro inside
    by_contra other
    push Not at other
    obtain ⟨some, few, ne⟩ := other
    -- the first index of the window is the `j`-th of the other one
    obtain ⟨j, jLt, first⟩ := inside 0 (by omega)
    rw [Nat.add_zero, Nat.mod_mod] at first
    have later : j ≠ 0 := by
      rintro rfl
      rw [Nat.add_zero, Nat.mod_mod] at first
      exact ne first.symm
    -- so the one that follows the other window is in this one
    obtain ⟨k, kLt, beyond⟩ := inside (dropboxesPerClient - j) (by omega)
    have shifted : (m % dropboxCount + (dropboxesPerClient - j)) % dropboxCount =
        (n % dropboxCount + dropboxesPerClient) % dropboxCount := by
      rw [← first, Nat.mod_add_mod]
      congr 1
      omega
    have congruent : n % dropboxCount + k ≡ n % dropboxCount + dropboxesPerClient
        [MOD dropboxCount] := beyond.trans shifted
    have same := (Nat.ModEq.add_left_cancel' _ congruent).eq_of_lt_of_lt (by omega) few
    omega
  · rintro (none | all | same)
    · intro i lt
      omega
    · intro i lt
      -- the window of all indices is reached from any start
      have startLt := Nat.mod_lt n pos
      refine ⟨(m % dropboxCount + i + (dropboxCount - n % dropboxCount)) % dropboxCount,
        (Nat.mod_lt _ pos).trans_le all, ?_⟩
      rw [Nat.add_mod_mod]
      have around : n % dropboxCount + (m % dropboxCount + i + (dropboxCount - n % dropboxCount)) =
          m % dropboxCount + i + dropboxCount := by omega
      rw [around, Nat.add_mod_right]
    · exact fun i lt => ⟨i, lt, by rw [same]⟩

end Windows

/-! ### Senders and receivers -/

/-- What the clients of a deployment have in common. -/
structure ClientConfig where
  pseudonymSalt : String
  dropboxCount : ℕ
  dropboxesPerClient : ℕ

/-- A client, by its name and the pseudonym that it computed when it started. -/
structure PrismClient where
  name : String
  pseudonym : Bytes

section Agreement

variable (sha : Sha256) (config : ClientConfig)

/-- `PrismClient.__init__`, at a time. -/
def PrismClient.start (started : UtcTime) (name : String) : PrismClient :=
  ⟨name, fromAddress sha started name config.pseudonymSalt⟩

/-- The pseudonym that a sender computes, in `attempt_send` and again in `wrap_message`. -/
def targetPseudonym (now : UtcTime) (receiver : String) : Bytes :=
  fromAddress sha now receiver config.pseudonymSalt

/-- `my_dropboxes`, by their indices. -/
def PrismClient.myIndices (self : PrismClient) : Py (List ℕ) :=
  dropboxIndices self.pseudonym config.dropboxCount config.dropboxesPerClient

/-- **Sender and receiver agree** on a message to an address, when the receiver started at one time
and the sender chooses dropboxes and writes the request at others: the pseudonym in the request is
the one that the receiver polls for, and each dropbox that is chosen from the servers that the
sender knows has an index that the receiver polls. -/
structure Agrees (address : String) (started chosen written : UtcTime) : Prop where
  pseudonym : targetPseudonym sha config written address =
    (PrismClient.start sha config started address).pseudonym
  dropboxes : ∀ now currentEpoch servers epoch found,
    dropboxesForRecipient now currentEpoch servers (targetPseudonym sha config chosen address)
      config.dropboxCount config.dropboxesPerClient epoch = .ok found →
    ∀ server ∈ found, ∃ indices index,
      (PrismClient.start sha config started address).myIndices config = .ok indices ∧
      index ∈ indices ∧ server.ark.get .dropboxIndex = .int (index : ℕ)

/-- The date in the salt is the same at two times: the salt has none, or it is the same day. -/
def SameDate (now now' : UtcTime) : Prop :=
  hasDate config.pseudonymSalt.toList = false ∨ now.day = now'.day

variable {sha config} {address : String} {started chosen written : UtcTime}

/-- The salted addresses tell whether the date is the same. -/
theorem salted_eq_iff {now now' : UtcTime} :
    salted now address config.pseudonymSalt = salted now' address config.pseudonymSalt ↔
      SameDate config now now' := by
  constructor
  · intro same
    have text := String.toByteArray_inj.mp (ByteArray.ext (Array.ext' same))
    have salts := List.append_cancel_right (String.ofList_injective text)
    by_cases has : hasDate config.pseudonymSalt.toList = true
    · exact .inr (UtcTime.dateStr_inj.mp (replaceDate_inj has (by simp) salts))
    · exact .inl (by simpa using has)
  · rintro (without | same)
    · rw [salted, salted, replaceDate_of_not without, replaceDate_of_not without]
    · rw [salted, salted, UtcTime.dateStr_inj.mpr same]

/-- **The dropboxes that are chosen** are polled exactly when one window is inside the other. -/
theorem dropboxes_polled_iff :
    (∀ now currentEpoch servers epoch found,
      dropboxesForRecipient now currentEpoch servers (targetPseudonym sha config chosen address)
        config.dropboxCount config.dropboxesPerClient epoch = .ok found →
      ∀ server ∈ found, ∃ indices index,
        (PrismClient.start sha config started address).myIndices config = .ok indices ∧
        index ∈ indices ∧ server.ark.get .dropboxIndex = .int (index : ℕ)) ↔
      config.dropboxesPerClient = 0 ∨ config.dropboxCount ≤ config.dropboxesPerClient ∨
        intFromBytes (targetPseudonym sha config chosen address) % config.dropboxCount =
          intFromBytes (targetPseudonym sha config started address) % config.dropboxCount := by
  rcases Nat.eq_zero_or_pos config.dropboxCount with zero | pos
  · -- no dropbox is chosen, for the indices cannot be computed
    refine iff_of_true (fun now currentEpoch servers epoch found run => ?_)
      (.inr (.inl (zero ▸ Nat.zero_le _)))
    rw [dropboxesForRecipient, dropboxIndices, if_pos zero] at run
    cases run
  · have computed : ∀ pseudonym, ∃ indices,
        dropboxIndices pseudonym config.dropboxCount config.dropboxesPerClient = .ok indices :=
      fun pseudonym => ⟨_, by rw [dropboxIndices, if_neg pos.ne']⟩
    obtain ⟨offered, sends⟩ := computed (targetPseudonym sha config chosen address)
    obtain ⟨polled, polls⟩ := computed (targetPseudonym sha config started address)
    rw [← windows_subset_iff pos]
    constructor
    · intro found i lt
      have mem := (mem_dropboxIndices sends).mpr ⟨i, lt, rfl⟩
      obtain ⟨indices, index, own, isIn, same⟩ := found _ _ _ _ _ (dropboxWith_chosen sends mem "") _
        (List.mem_singleton_self _)
      obtain rfl := Except.ok.inj (polls.symm.trans own)
      have number : ((intFromBytes (targetPseudonym sha config chosen address) %
          config.dropboxCount + i) % config.dropboxCount : ℕ) = index :=
        Int.ofNat_inj.mp (Value.int.inj same)
      obtain ⟨j, jLt, eq⟩ := (mem_dropboxIndices polls).mp isIn
      exact ⟨j, jLt, eq.trans number.symm⟩
    · intro inside now currentEpoch servers epoch found run server mem
      obtain ⟨indices, index, sends', isIn, same⟩ := index_of_chosen run mem
      obtain rfl := Except.ok.inj (sends.symm.trans sends')
      obtain ⟨i, lt, rfl⟩ := (mem_dropboxIndices sends).mp isIn
      obtain ⟨j, jLt, eq⟩ := inside i lt
      exact ⟨polled, _, polls, (mem_dropboxIndices polls).mpr ⟨j, jLt, eq⟩, same⟩

/-- **When sender and receiver agree**, for a hash function that does not take the salted addresses
of two days to one digest: exactly when the request is written with the date of the receiver's
start, and the dropboxes are chosen with that date too or the receiver's window of dropboxes has
them all the same: a window that is empty, or that holds all indices, or that starts at the same
index. -/
theorem agrees_iff (collisionFree :
      fromAddress sha written address config.pseudonymSalt =
        fromAddress sha started address config.pseudonymSalt →
      salted written address config.pseudonymSalt = salted started address config.pseudonymSalt) :
    Agrees sha config address started chosen written ↔
      SameDate config written started ∧
      (SameDate config chosen started ∨ config.dropboxesPerClient = 0 ∨
        config.dropboxCount ≤ config.dropboxesPerClient ∨
        intFromBytes (fromAddress sha chosen address config.pseudonymSalt) % config.dropboxCount =
          intFromBytes (fromAddress sha started address config.pseudonymSalt) %
            config.dropboxCount) := by
  constructor
  · intro agrees
    exact ⟨salted_eq_iff.mp (collisionFree agrees.pseudonym),
      .inr (dropboxes_polled_iff.mp agrees.dropboxes)⟩
  · rintro ⟨sameWritten, window⟩
    refine ⟨congrArg sha.digest (salted_eq_iff.mpr sameWritten), dropboxes_polled_iff.mpr ?_⟩
    rcases window with sameChosen | window
    · have digest : targetPseudonym sha config chosen address =
          targetPseudonym sha config started address :=
        congrArg sha.digest (salted_eq_iff.mpr sameChosen)
      rw [digest]
      exact .inr (.inr rfl)
    · exact window

end Agreement

/-! ### A message that is sent after midnight -/

/-- The configuration as it is shipped, with ten dropboxes of which each client uses two. -/
def exampleConfig : ClientConfig := ⟨"PRISM\x7bdate\x7d", 10, 2⟩

/-- Eleven in the evening of the first of January 2024. -/
def beforeMidnight : UtcTime := ⟨1704150000 * 10 ^ 6, by decide, by decide⟩

/-- One o'clock on the next day. -/
def afterMidnight : UtcTime := ⟨1704157200 * 10 ^ 6, by decide, by decide⟩

/-- On one day sender and receiver agree. -/
theorem agrees_on_one_day :
    Agrees exampleSha exampleConfig "client" beforeMidnight beforeMidnight beforeMidnight :=
  (agrees_iff (fun _ => rfl)).mpr ⟨.inr rfl, .inl (.inr rfl)⟩

/-- **The message is not found**: a receiver that started before midnight polls for another
pseudonym than the one that a sender writes after midnight. -/
theorem midnight_between :
    ¬ Agrees exampleSha exampleConfig "client" beforeMidnight afterMidnight afterMidnight := by
  intro agrees
  have same := agrees.pseudonym
  revert same
  decide +kernel

end Prism.Client
