import Mathlib.Order.WithBot
import Prism.Lib.Machine
import Prism.Lib.Hex
import Prism.Lib.Rounding
import Prism.Message.Cbor
import Prism.Message.PrismMessage

/-!
Messages that were seen before (`prism/common/deduplicate.py`).

Every message is stored under its hash with the time when it may be seen again, which is renewed
whenever it comes. A task deletes what has expired. It takes an entry for expired at the very instant
when the check still takes it for known.

Times are doubles after the start of 1970; the sum of a time and the time to live is rounded.

* `lookup_run`: what is stored after a run.
* `right_iff`: when an answer is that of a sliding window, and the same without purges.
* `sliding_window_iff`: the runs in which all answers are.
-/

namespace Prism.Client

open Lib

/-! ### The deduplicator -/

/-- A reading of `time.time()`. -/
structure Reading where
  value : ℚ
  pos : 0 < value
  isDouble : double value = value

/-- What is asked about: a message, or bytes. -/
inductive SeenMessage where
  | message (msg : PrismMessage)
  | bytes (data : Bytes)

/-- `not msg`. -/
def SeenMessage.isEmpty : SeenMessage → Bool
  | .message _ => false
  | .bytes data => data.isEmpty

section Model

variable (cbor : Cbor2) (sha256Hex : Bytes → String) (ttl : ℚ)

/-- The bytes that are hashed. -/
def SeenMessage.data : SeenMessage → Py Bytes
  | .message msg => msg.encode cbor
  | .bytes data => .ok data

/-- `MessageDeduplicator`: the times when messages expire, by their keys. -/
structure MessageDeduplicator where
  database : List (String × WithTop ℚ) := []

namespace MessageDeduplicator

/-- The key of a message. -/
def key (data : Bytes) : String := "MessageSeen:" ++ sha256Hex data

/-- When a message that is seen now expires. -/
def expires (now : ℚ) : WithTop ℚ := if 0 < ttl then (double (now + ttl) : ℚ) else ⊤

/-- `is_msg_new`. -/
def isMsgNew (self : MessageDeduplicator) (now : ℚ) (msg : SeenMessage) :
    MessageDeduplicator × Py Bool :=
  if msg.isEmpty then (self, .ok true)
  else
    match msg.data cbor with
    | .error e => (self, .error e)
    | .ok data =>
      let expirationTime := (self.database.lookup (key sha256Hex data)).getD 0
      ({ database := dictSet self.database (key sha256Hex data) (expires ttl now) },
        .ok (expirationTime < (now : WithTop ℚ)))

/-- One pass of `purge_task`. -/
def purge (self : MessageDeduplicator) (now : ℚ) : MessageDeduplicator :=
  { database := self.database.filter fun e => ¬ e.2 ≤ (now : WithTop ℚ) }

end MessageDeduplicator

/-- What happens to a deduplicator. -/
inductive DedupEvent where
  | isMsgNew (now : Reading) (msg : SeenMessage)
  | purge (now : Reading)

/-- When it happens. -/
def DedupEvent.time : DedupEvent → ℚ
  | .isMsgNew now _ => now.value
  | .purge now => now.value

/-- The runs of a deduplicator. A purge has no answer. -/
def deduplicator : Machine MessageDeduplicator DedupEvent (Option (Py Bool)) where
  init := {}
  step self
    | .isMsgNew now msg =>
      ((self.isMsgNew cbor sha256Hex ttl now.value msg).1,
        some (self.isMsgNew cbor sha256Hex ttl now.value msg).2)
    | .purge now => (self.purge now.value, none)

/-! ### The sliding window -/

/-- The event asks about these bytes. -/
def DedupEvent.Sees (data : Bytes) : DedupEvent → Prop
  | .isMsgNew _ msg => msg.isEmpty = false ∧ msg.data cbor = .ok data
  | .purge _ => False

instance (data : Bytes) (event : DedupEvent) : Decidable (event.Sees cbor data) := by
  cases event
  · exact inferInstanceAs (Decidable (_ ∧ _))
  · exact inferInstanceAs (Decidable False)

/-- When the bytes were last asked about. -/
def lastSeen (events : List DedupEvent) (data : Bytes) : Option ℚ :=
  events.foldl (fun last event => if event.Sees cbor data then some event.time else last) none

/-- The answer of a sliding window: false when the message was seen at most `ttl` before. -/
def windowAnswer (events : List DedupEvent) (now : ℚ) (msg : SeenMessage) : Py Bool :=
  if msg.isEmpty then .ok true
  else (msg.data cbor).map fun data =>
    match lastSeen cbor events data with
    | none => true
    | some seen => seen + ttl < now

/-- There was a purge at a time or later, after the bytes were last asked about. -/
def purgedSince (events : List DedupEvent) (data : Bytes) (time : ℚ) : Bool :=
  events.foldl (fun purged event =>
    if event.Sees cbor data then false
    else purged || match event with
      | .isMsgNew _ _ => false
      | .purge now => time ≤ now.value) false

/-- The answer after some events. -/
def answerAfter (events : List DedupEvent) (now : ℚ) (msg : SeenMessage) : Py Bool :=
  (((deduplicator cbor sha256Hex ttl).run events).1.isMsgNew cbor sha256Hex ttl now msg).2

/-- The events without the purges. -/
def withoutPurges (events : List DedupEvent) : List DedupEvent :=
  events.filter fun event => match event with
    | .isMsgNew _ _ => true
    | .purge _ => false

end Model

/-! ### What is stored -/

section Runs

variable {cbor : Cbor2} {sha256Hex : Bytes → String} {ttl : ℚ} {events : List DedupEvent}
  {event : DedupEvent} {data : Bytes} {time : ℚ}

@[simp] theorem lastSeen_concat : lastSeen cbor (events ++ [event]) data =
    if event.Sees cbor data then some event.time else lastSeen cbor events data := by
  rw [lastSeen, List.foldl_append]
  rfl

@[simp] theorem purgedSince_concat : purgedSince cbor (events ++ [event]) data time =
    if event.Sees cbor data then false
    else purgedSince cbor events data time || match event with
      | .isMsgNew _ _ => false
      | .purge now => time ≤ now.value := by
  rw [purgedSince, List.foldl_append]
  rfl

/-- Different bytes have different keys. -/
theorem key_inj (collisionFree : Function.Injective sha256Hex) {data data' : Bytes} :
    MessageDeduplicator.key sha256Hex data = MessageDeduplicator.key sha256Hex data' ↔
      data = data' := by
  constructor
  · intro same
    exact collisionFree (String.append_right_inj _ |>.mp same)
  · rintro rfl
    rfl

/-- What is stored for some bytes: the time when they expire, unless a purge came later. -/
def storedFor (cbor : Cbor2) (ttl : ℚ) (events : List DedupEvent) (data : Bytes) :
    Option (WithTop ℚ) :=
  match lastSeen cbor events data with
  | none => none
  | some seen =>
    if purgedSince cbor events data (double (seen + ttl)) then none
    else some (double (seen + ttl) : ℚ)

/-- A message that is asked about is stored. -/
theorem isMsgNew_of_sees {self : MessageDeduplicator} {now : ℚ} {msg : SeenMessage}
    (some_data : msg.isEmpty = false) (encoded : msg.data cbor = .ok data) :
    self.isMsgNew cbor sha256Hex ttl now msg =
      ({ database := dictSet self.database (MessageDeduplicator.key sha256Hex data)
          (MessageDeduplicator.expires ttl now) },
        .ok ((self.database.lookup (MessageDeduplicator.key sha256Hex data)).getD 0 <
          (now : WithTop ℚ))) := by
  rw [MessageDeduplicator.isMsgNew, some_data, if_neg (by decide), encoded]

/-- What is empty or cannot be encoded is not stored. -/
theorem isMsgNew_of_not_sees {self : MessageDeduplicator} {now : ℚ} {msg : SeenMessage}
    (unseen : ∀ data, ¬ (msg.isEmpty = false ∧ msg.data cbor = .ok data)) :
    (self.isMsgNew cbor sha256Hex ttl now msg).1 = self := by
  unfold MessageDeduplicator.isMsgNew
  cases empty : msg.isEmpty with
  | true => rfl
  | false =>
      rw [if_neg (by decide)]
      cases encoded : msg.data cbor with
      | error e => rfl
      | ok data => exact absurd ⟨empty, encoded⟩ (unseen data)

theorem expires_of_pos (positive : 0 < ttl) (now : ℚ) :
    MessageDeduplicator.expires ttl now = (double (now + ttl) : ℚ) := if_pos positive

/-- **What is stored** after a run. -/
theorem lookup_run (collisionFree : Function.Injective sha256Hex) (positive : 0 < ttl)
    (events : List DedupEvent) :
    (((deduplicator cbor sha256Hex ttl).run events).1.database.map Prod.fst).Nodup ∧
      ∀ data, ((deduplicator cbor sha256Hex ttl).run events).1.database.lookup
        (MessageDeduplicator.key sha256Hex data) = storedFor cbor ttl events data := by
  induction events using List.reverseRecOn with
  | nil => exact ⟨List.nodup_nil, fun _ => rfl⟩
  | append_singleton events event ih =>
      obtain ⟨nodup, stored⟩ := ih
      rw [Machine.run_concat]
      unfold storedFor at stored ⊢
      simp only [lastSeen_concat, purgedSince_concat]
      generalize (deduplicator cbor sha256Hex ttl).run events = run at *
      cases event with
      | isMsgNew now msg =>
          change ((run.1.isMsgNew cbor sha256Hex ttl now.value msg).1.database.map
            Prod.fst).Nodup ∧ ∀ data, (run.1.isMsgNew cbor sha256Hex ttl now.value
              msg).1.database.lookup _ = _
          by_cases seen : ∃ data, msg.isEmpty = false ∧ msg.data cbor = .ok data
          · obtain ⟨asked, some_data, encoded⟩ := seen
            rw [isMsgNew_of_sees some_data encoded, expires_of_pos positive]
            refine ⟨nodup_dictSet nodup _ _, fun data => ?_⟩
            rw [lookup_dictSet]
            by_cases same : data = asked
            · subst same
              have sees : (DedupEvent.isMsgNew now msg).Sees cbor data := ⟨some_data, encoded⟩
              simp [sees, DedupEvent.time]
            · have other : ¬ (DedupEvent.isMsgNew now msg).Sees cbor data := fun sees =>
                same (Except.ok.inj (sees.2.symm.trans encoded))
              rw [if_neg fun eq => same ((key_inj collisionFree).mp eq), stored]
              simp [other]
          · have unseen := not_exists.mp seen
            rw [isMsgNew_of_not_sees unseen]
            refine ⟨nodup, fun data => ?_⟩
            have other : ¬ (DedupEvent.isMsgNew now msg).Sees cbor data := unseen data
            rw [stored]
            simp [other]
      | purge now =>
          change ((run.1.purge now.value).database.map Prod.fst).Nodup ∧
            ∀ data, (run.1.purge now.value).database.lookup _ = _
          unfold MessageDeduplicator.purge
          refine ⟨nodup.sublist (List.filter_sublist.map _), fun data => ?_⟩
          have other : ¬ (DedupEvent.purge now).Sees cbor data := id
          rw [lookup_filter nodup, stored]
          cases lastSeen cbor events data with
          | none => simp [other]
          | some seen =>
              cases purged : purgedSince cbor events data (double (seen + ttl)) with
              | true => simp [other, purged]
              | false =>
                  rcases le_or_gt (double (seen + ttl)) now.value with expired | fresh
                  · simp [other, purged, expired]
                  · simp [other, purged, fresh, not_le.mpr fresh]

/-! ### Answers -/

theorem lastSeen_pos {seen : ℚ} (last : lastSeen cbor events data = some seen) : 0 < seen := by
  induction events using List.reverseRecOn with
  | nil => cases last
  | append_singleton events event ih =>
      rw [lastSeen_concat] at last
      split_ifs at last with sees
      · obtain rfl := Option.some.inj last
        cases event with
        | isMsgNew now msg => exact now.pos
        | purge now => exact now.pos
      · exact ih last

/-- A purge that came since was one of the events. -/
theorem le_of_purgedSince {now : ℚ} (ordered : ∀ event ∈ events, event.time ≤ now)
    (purged : purgedSince cbor events data time = true) : time ≤ now := by
  induction events using List.reverseRecOn with
  | nil => cases purged
  | append_singleton events event ih =>
      rw [purgedSince_concat] at purged
      split_ifs at purged with sees
      rcases Bool.or_eq_true_iff.mp purged with before | here
      · exact ih (fun event mem => ordered event (List.mem_append_left _ mem)) before
      · cases event with
        | isMsgNew now msg => cases here
        | purge at' =>
            have le : time ≤ at'.value := by simpa using here
            exact le.trans (ordered _ (List.mem_append_right _ List.mem_cons_self))

/-- Purges are not what is asked. -/
theorem lastSeen_withoutPurges : lastSeen cbor (withoutPurges events) data =
    lastSeen cbor events data := by
  induction events using List.reverseRecOn with
  | nil => rfl
  | append_singleton events event ih =>
      unfold withoutPurges at ih ⊢
      rw [List.filter_append]
      cases event with
      | isMsgNew now msg => simp [ih]
      | purge now =>
          have other : ¬ (DedupEvent.purge now).Sees cbor data := id
          simp [ih, other]

theorem purgedSince_withoutPurges : purgedSince cbor (withoutPurges events) data time = false := by
  induction events using List.reverseRecOn with
  | nil => rfl
  | append_singleton events event ih =>
      unfold withoutPurges at ih ⊢
      rw [List.filter_append]
      cases event with
      | isMsgNew now msg => simp [ih]
      | purge now => simp [ih]

/-- **The answer** says that a message is new when a purge took it or when it has expired. -/
theorem answerAfter_eq (collisionFree : Function.Injective sha256Hex) (positive : 0 < ttl)
    {now : ℚ} (past : 0 < now) {msg : SeenMessage} (some_data : msg.isEmpty = false)
    (encoded : msg.data cbor = .ok data) :
    answerAfter cbor sha256Hex ttl events now msg =
      .ok (match lastSeen cbor events data with
        | none => true
        | some seen => purgedSince cbor events data (double (seen + ttl)) ||
          decide (double (seen + ttl) < now)) := by
  rw [answerAfter, isMsgNew_of_sees some_data encoded, (lookup_run collisionFree positive events).2,
    storedFor]
  cases lastSeen cbor events data with
  | none => simp [past]
  | some seen =>
      cases purged : purgedSince cbor events data (double (seen + ttl)) with
      | true => simp [purged, past]
      | false => simp [purged]

end Runs

/-! ### When the answers are right -/

section Window

variable (cbor : Cbor2) (sha256Hex : Bytes → String) (ttl : ℚ)

/-- The answer is that of the sliding window, and the same as without any purge. -/
structure Right (before : List DedupEvent) (now : ℚ) (msg : SeenMessage) : Prop where
  window : answerAfter cbor sha256Hex ttl before now msg = windowAnswer cbor ttl before now msg
  purges : answerAfter cbor sha256Hex ttl before now msg =
    answerAfter cbor sha256Hex ttl (withoutPurges before) now msg

/-- The message is asked about at the very instant when it expires, and there was a purge at that
instant, or the sum of the times was rounded up. -/
def OnEdge (before : List DedupEvent) (now : ℚ) (msg : SeenMessage) : Prop :=
  msg.isEmpty = false ∧ ∃ data, msg.data cbor = .ok data ∧
    ∃ seen, lastSeen cbor before data = some seen ∧ double (seen + ttl) = now ∧
      (purgedSince cbor before data now = true ∨ seen + ttl < now)

variable {cbor sha256Hex ttl}

/-- Rounding does not pass a double. -/
theorem le_double_of_le {x y : ℚ} (nonneg : 0 ≤ x) (isDouble : double x = x) (le : x ≤ y) :
    x ≤ double y := by
  have mono := roundDigits_mono (d := 52) Nat.one_lt_two nonneg le
  rwa [← double_eq, ← double_eq, isDouble] at mono

theorem double_le_of_le {x y : ℚ} (nonneg : 0 ≤ x) (isDouble : double y = y) (le : x ≤ y) :
    double x ≤ y := by
  have mono := roundDigits_mono (d := 52) Nat.one_lt_two nonneg le
  rwa [← double_eq, ← double_eq, isDouble] at mono

/-- **When an answer is right**: when the message is not asked about on the edge. -/
theorem right_iff (collisionFree : Function.Injective sha256Hex) (positive : 0 < ttl)
    {before : List DedupEvent} {now : Reading}
    (ordered : ∀ event ∈ before, event.time ≤ now.value) (msg : SeenMessage) :
    Right cbor sha256Hex ttl before now.value msg ↔ ¬ OnEdge cbor ttl before now.value msg := by
  cases some_data : msg.isEmpty with
  | true =>
      refine iff_of_true ⟨?_, ?_⟩ fun edge => ?_
      · simp [answerAfter, MessageDeduplicator.isMsgNew, windowAnswer, some_data]
      · simp [answerAfter, MessageDeduplicator.isMsgNew, some_data]
      · exact absurd edge.1 (by rw [some_data]; decide)
  | false =>
      cases encoded : msg.data cbor with
      | error e =>
          refine iff_of_true ⟨?_, ?_⟩ fun edge => ?_
          · simp [answerAfter, MessageDeduplicator.isMsgNew, windowAnswer, some_data, encoded,
              Except.map]
          · simp [answerAfter, MessageDeduplicator.isMsgNew, some_data, encoded]
          · obtain ⟨-, data, encoded', -⟩ := edge
            rw [encoded] at encoded'
            cases encoded'
      | ok data =>
          have answer : ∀ events, _ := fun events =>
            @answerAfter_eq cbor sha256Hex ttl events data collisionFree positive now.value now.pos
              msg some_data encoded
          have window : windowAnswer cbor ttl before now.value msg =
              .ok (match lastSeen cbor before data with
                | none => true
                | some seen => seen + ttl < now.value) := by
            rw [windowAnswer, some_data, if_neg (by decide), encoded]
            rfl
          have edge : OnEdge cbor ttl before now.value msg ↔
              ∃ seen, lastSeen cbor before data = some seen ∧ double (seen + ttl) = now.value ∧
                (purgedSince cbor before data now.value = true ∨ seen + ttl < now.value) := by
            constructor
            · rintro ⟨-, data', encoded', rest⟩
              obtain rfl := Except.ok.inj (encoded.symm.trans encoded')
              exact rest
            · exact fun rest => ⟨some_data, data, encoded, rest⟩
          have parts : Right cbor sha256Hex ttl before now.value msg ↔ _ :=
            ⟨fun right => And.intro right.window right.purges, fun both => ⟨both.1, both.2⟩⟩
          rw [parts, edge, answer, answer, window, lastSeen_withoutPurges]
          cases last : lastSeen cbor before data with
          | none => simp
          | some seen =>
              have nonneg : 0 ≤ seen + ttl := (add_pos (lastSeen_pos last) positive).le
              have late : now.value ≤ seen + ttl → now.value ≤ double (seen + ttl) :=
                le_double_of_le now.pos.le now.isDouble
              have early : seen + ttl < now.value → double (seen + ttl) ≤ now.value :=
                fun lt => double_le_of_le nonneg now.isDouble lt.le
              have before_now : purgedSince cbor before data (double (seen + ttl)) = true →
                  double (seen + ttl) ≤ now.value := le_of_purgedSince ordered
              simp only [purgedSince_withoutPurges, Bool.false_or, Except.ok.injEq,
                Option.some.injEq, exists_eq_left']
              rcases lt_trichotomy (double (seen + ttl)) now.value with expired | same | fresh
              · -- The message has expired for the code and for the window.
                have gone : seen + ttl < now.value := not_le.mp fun le => not_le.mpr expired (late le)
                simp [expired, expired.ne, gone]
              · rw [same]
                cases purgedSince cbor before data now.value with
                | true => simp
                | false => simp
              · have known : ¬ seen + ttl < now.value := fun lt => not_le.mpr fresh (early lt)
                have unpurged : purgedSince cbor before data (double (seen + ttl)) = false :=
                  Bool.eq_false_iff.mpr fun purged => not_le.mpr fresh (before_now purged)
                simp [fresh.not_gt, fresh.ne', known, unpurged]

/-- **The runs of a sliding window**: all answers of a run are right exactly when no message is asked
about on the edge. -/
theorem sliding_window_iff (cbor : Cbor2) {sha256Hex : Bytes → String}
    (collisionFree : Function.Injective sha256Hex) {ttl : ℚ} (positive : 0 < ttl)
    {events : List DedupEvent} (ordered : (events.map DedupEvent.time).Pairwise (· ≤ ·)) :
    (∀ before now msg after, events = before ++ .isMsgNew now msg :: after →
        Right cbor sha256Hex ttl before now.value msg) ↔
      ∀ before now msg after, events = before ++ .isMsgNew now msg :: after →
        ¬ OnEdge cbor ttl before now.value msg := by
  refine forall₄_congr fun before now msg after => imp_congr_right fun split => ?_
  apply right_iff collisionFree positive
  intro event mem
  rw [split, List.map_append, List.map_cons, List.pairwise_append] at ordered
  exact ordered.2.2 _ (List.mem_map_of_mem mem) _ List.mem_cons_self

/-! ### A purge on the edge -/

/-- A second after the clock was set, and half an hour later. -/
def firstSecond : Reading := ⟨1, one_pos, by
  have kept := @double_intCast 1 (by norm_num)
  exact_mod_cast kept⟩

def halfAnHourLater : Reading := ⟨1801, by norm_num, by
  have kept := @double_intCast 1801 (by norm_num)
  exact_mod_cast kept⟩

/-- The hash is the hexadecimal form of the bytes. -/
def hexHash (data : Bytes) : String := String.ofList (Hex.toHex data)

theorem hexHash_injective : Function.Injective hexHash := fun _ _ same =>
  Hex.toHex_injective (String.ofList_injective same)

/-- The time to live, half an hour. -/
def halfAnHour : ℚ := 1800

/-- A message, and a purge at the instant when it expires. -/
def seenAndPurged : List DedupEvent :=
  [.isMsgNew firstSecond (.bytes [7]), .purge halfAnHourLater]

theorem lastSeen_seenAndPurged : lastSeen Cbor.package seenAndPurged [7] = some 1 := rfl

theorem double_expiry : double (1 + halfAnHour) = 1801 := by
  rw [halfAnHour, show (1 : ℚ) + 1800 = 1801 by norm_num]
  exact halfAnHourLater.isDouble

theorem purgedSince_seenAndPurged : purgedSince Cbor.package seenAndPurged [7] 1801 = true := by
  have other : ¬ (DedupEvent.purge halfAnHourLater).Sees Cbor.package [7] := id
  have late : (1801 : ℚ) ≤ halfAnHourLater.value := le_rfl
  simp [purgedSince, seenAndPurged, other, late]

/-- **A purge on the edge** makes a message new that the window knows. -/
theorem purge_on_edge :
    answerAfter Cbor.package hexHash halfAnHour seenAndPurged halfAnHourLater.value (.bytes [7]) =
        .ok true ∧
      windowAnswer Cbor.package halfAnHour seenAndPurged halfAnHourLater.value (.bytes [7]) =
        .ok false ∧
      answerAfter Cbor.package hexHash halfAnHour (withoutPurges seenAndPurged) halfAnHourLater.value
        (.bytes [7]) = .ok false := by
  have positive : 0 < halfAnHour := by norm_num [halfAnHour]
  have some_data : (SeenMessage.bytes [7]).isEmpty = false := rfl
  have encoded : (SeenMessage.bytes [7]).data Cbor.package = .ok [7] := rfl
  refine ⟨?_, ?_, ?_⟩
  · rw [answerAfter_eq hexHash_injective positive halfAnHourLater.pos some_data encoded,
      lastSeen_seenAndPurged]
    simp [double_expiry, purgedSince_seenAndPurged]
  · rw [windowAnswer, some_data, if_neg (by decide), encoded]
    simp [lastSeen_seenAndPurged, Except.map, halfAnHour, halfAnHourLater]
    norm_num
  · rw [answerAfter_eq hexHash_injective positive halfAnHourLater.pos some_data encoded,
      lastSeen_withoutPurges, lastSeen_seenAndPurged]
    simp [double_expiry, purgedSince_withoutPurges, halfAnHourLater]

theorem answers_until_purged :
    (∀ before now msg after, seenAndPurged = before ++ .isMsgNew now msg :: after →
        Right Cbor.package hexHash halfAnHour before now.value msg) ↔
      ∀ before now msg after, seenAndPurged = before ++ .isMsgNew now msg :: after →
        ¬ OnEdge Cbor.package halfAnHour before now.value msg :=
  sliding_window_iff Cbor.package hexHash_injective (by norm_num [halfAnHour]) (by
    simp [seenAndPurged, DedupEvent.time, firstSecond, halfAnHourLater])

end Window

end Prism.Client
