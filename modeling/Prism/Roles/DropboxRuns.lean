import Prism.Lib.Machine
import Prism.Message.Tracing
import Prism.Roles.Dropbox

/-!
The messages of a dropbox on a single server, from when they are written until they are handed out
(`MessageStore` and `DropboxSS` in `prism/server/CS2/roles/dropbox.py`).

A poll takes all messages of its pseudonym out of the store at once, and replies with one after the
other; those whose reply fails go back into the store. It awaits its links and every reply, and
other polls and writes run meanwhile. What runs between two awaits is one event here. A poll ends
when it is not live at the end of a turn, and never in the middle of one.

Messages that are written are numbered; a message in the store has the context of the span in which
it was stored last in its debug information.

* `entries_store`, `entries_retrieve`: what the store gains and loses.
* `Sound.step`: no event loses or doubles a message, and none raises halfway.
* `run_conserved`: every written message is in one place.
-/

namespace Prism.Roles

open Lib

/-! ### The store -/

/-- A message that was written, with its number. -/
structure Stored where
  serial : ℕ
  message : PrismMessage

/-- `MessageStore`. -/
abbrev MessageStore := List (Bytes × List Stored)

namespace MessageStore

variable (self : MessageStore)

/-- `store`, of a message that has the context. -/
def store (pseudonym : Bytes) (message : Stored) : MessageStore :=
  match self.lookup pseudonym with
  | some messages => dictSet self pseudonym (messages ++ [message])
  | none => dictSet self pseudonym [message]

/-- `retrieve`: what is found, and the store without it. Nothing is stored for a pseudonym that is
no byte string. -/
def retrieve (pseudonym : Value) : List Stored × MessageStore :=
  match pseudonym with
  | .bytes pseudonym =>
    ((self.lookup pseudonym).getD [], self.filter fun entry => entry.1 ≠ pseudonym)
  | _ => ([], self)

/-- The messages with their pseudonyms. -/
def entries : List (Bytes × Stored) :=
  self.flatMap fun entry => entry.2.map fun message => (entry.1, message)

end MessageStore

/-! ### Polls -/

/-- Where a `poll_task` is: `read_task` loads links or waits for the reply with the first of the
messages that are left, or there is nothing to read and it sleeps. -/
inductive PollPhase where
  | loading (messages : List Stored)
  | replying (messages : List Stored)
  | sleeping

/-- The messages that `read_task` still has. -/
def PollPhase.working : PollPhase → List Stored
  | .loading messages | .replying messages => messages
  | .sleeping => []

/-- A `poll_task`, and whether it has links. -/
structure PollTask where
  poll : Poll
  links : Bool
  phase : PollPhase

/-- How a `poll_task` goes on: up to its next await, or it is over. -/
inductive Next where
  | awaits (phase : PollPhase)
  | ended
  | raised (e : PyError)

def Next.working : Next → List Stored
  | .awaits phase => phase.working
  | _ => []

/-- `DropboxSS`: the store, the polls that are running, the messages with a reply that succeeded by
the pseudonym of the poll, and the messages that were written. -/
structure DropboxSS where
  store : MessageStore := []
  polls : List PollTask := []
  replied : List (Value × Stored) := []
  written : List (Bytes × PrismMessage) := []

namespace DropboxSS

variable {SpanContext : Type} (tracer : Tracer SpanContext) (builtins : Builtins)
  (self : DropboxSS)

/-- `poll_task` after a `read_task`. -/
def afterRead (poll : Poll) : Next :=
  if poll.expiration.isNone then .ended else .awaits .sleeping

/-- `read_task` with the messages that are left: the next reply begins. -/
def reply (poll : Poll) : List Stored → Next
  | [] => afterRead poll
  | message :: messages =>
    match extractSpanContext tracer message.message with
    | .error e => .raised e
    | .ok _ => .awaits (.replying (message :: messages))

/-- A turn of `poll_task`, with what `read_task` takes out of the store. -/
def turn (poll : Poll) (links : Bool) (now : ℤ) : DropboxSS × Next :=
  if poll.live now then
    let (messages, store) := self.store.retrieve poll.pseudonym
    let self := { self with store }
    match messages with
    | [] => (self, afterRead poll)
    | _ :: _ =>
      if poll.linkAddresses.truthy && !links then (self, .awaits (.loading messages))
      else (self, reply tracer poll messages)
  else (self, .ended)

/-- A `poll_task` that was woken goes on. -/
def proceed (k : ℕ) (task : PollTask) (next : Next) : DropboxSS :=
  match next with
  | .awaits phase => { self with polls := self.polls.set k { task with phase } }
  | _ => { self with polls := self.polls.eraseIdx k }

/-- A `poll_task` that is new. -/
def start (poll : Poll) (next : Next) : DropboxSS :=
  match next with
  | .awaits phase => { self with polls := self.polls ++ [{ poll, links := false, phase }] }
  | _ => self

/-- What `write` stores: the message inside. -/
def submessage (now : ℤ) (decrypted : PrismMessage) : Py PrismMessage := do
  let entries ← (decrypted.get .subMsg).asCborDict
  match PrismMessage.ofValue? (← Value.fromCborDict builtins now entries .prismMessage) with
  | some submessage => return submessage
  | none => throw .attributeError

/-- `write`, in a span with a context. -/
def write (now : ℤ) (decrypted : PrismMessage) (context : SpanContext) : Py DropboxSS :=
  match decrypted.get .pseudonym with
  | .bytes pseudonym => do
    let submessage ← submessage builtins now decrypted
    let message ← injectSpanContext tracer builtins now submessage (some context)
    return { self with
      store := self.store.store pseudonym { serial := self.written.length, message }
      written := self.written ++ [(pseudonym, submessage)] }
  | _ => throw .attributeError

/-- What becomes of a message after the reply with it: one that failed is stored again, in a span
with a context. -/
def settle (now : ℤ) (poll : Poll) (message : Stored) (success : Bool) (context : SpanContext) :
    Py DropboxSS :=
  if success then return { self with replied := self.replied ++ [(poll.pseudonym, message)] }
  else
    match poll.pseudonym with
    | .bytes pseudonym => do
      let traced ← injectSpanContext tracer builtins now message.message (some context)
      return { self with store := self.store.store pseudonym { message with message := traced } }
    | _ => throw .attributeError

end DropboxSS

/-! ### Runs -/

/-- What happens, on a dropbox that was given messages of declared types. A poll is named by its
position. -/
inductive DropboxEvent (SpanContext : Type) where
  | write (now : ℤ) (decrypted : PrismMessage) (typed : decrypted.Typed) (context : SpanContext)
  | poll (now : ℤ) (message : PrismMessage) (typed : message.Typed)
  | loaded (k : ℕ) (links : Bool)
  | replied (k : ℕ) (now : ℤ) (success : Bool) (context : SpanContext)
  | wakes (k : ℕ) (now : ℤ)

namespace DropboxSS

variable {SpanContext : Type} (tracer : Tracer SpanContext) (builtins : Builtins)
  (self : DropboxSS)

/-- One event. A request that raises changes nothing. -/
def step : DropboxEvent SpanContext → DropboxSS
  | .write now decrypted _ context =>
    match self.write tracer builtins now decrypted context with
    | .ok state => state
    | .error _ => self
  | .poll now message _ =>
    match Poll.fromMessage message with
    | .error _ => self
    | .ok poll =>
      match poll.nonce with
      | .bytes _ =>
        let (state, next) := self.turn tracer poll false now
        state.start poll next
      | _ => self
  | .loaded k links =>
    match self.polls[k]? with
    | some { poll, links := _, phase := .loading messages } =>
      self.proceed k { poll, links, phase := .sleeping } (reply tracer poll messages)
    | _ => self
  | .replied k now success context =>
    match self.polls[k]? with
    | some { poll, links, phase := .replying (message :: messages) } =>
      match self.settle tracer builtins now poll message success context with
      | .ok state =>
        state.proceed k { poll, links, phase := .sleeping } (reply tracer poll messages)
      | .error e => self.proceed k { poll, links, phase := .sleeping } (.raised e)
    | _ => self
  | .wakes k now =>
    match self.polls[k]? with
    | some { poll, links, phase := .sleeping } =>
      let (state, next) := self.turn tracer poll links now
      state.proceed k { poll, links, phase := .sleeping } next
    | _ => self

/-- The messages of all running `read_task`s, with the pseudonyms of their polls. -/
def working : List (Value × Stored) :=
  self.polls.flatMap fun task =>
    task.phase.working.map fun message => (task.poll.pseudonym, message)

/-- The message is one that was written for the pseudonym, but for its debug information. -/
def Wrote (pseudonym : Value) (message : Stored) : Prop :=
  ∃ written, self.written[message.serial]? = some written ∧ pseudonym = .bytes written.1 ∧
    PrismMessage.SameBut [.debugInfo] written.2 message.message

end DropboxSS

/-- **Every written message is in one place**: the store under its pseudonym, the messages of one
running `read_task` of a poll for it, or those with a reply that succeeded. -/
structure DropboxSS.Conserved (state : DropboxSS) : Prop where
  once : ∀ n < state.written.length,
    state.store.entries.countP (·.2.serial = n) + state.working.countP (·.2.serial = n) +
      state.replied.countP (·.2.serial = n) = 1
  stored : ∀ entry ∈ state.store.entries, state.Wrote (.bytes entry.1) entry.2
  working : ∀ entry ∈ DropboxSS.working state, state.Wrote entry.1 entry.2
  replied : ∀ entry ∈ state.replied, state.Wrote entry.1 entry.2

/-- The dropbox, from the start on. -/
def dropboxMachine {SpanContext : Type} (tracer : Tracer SpanContext) (builtins : Builtins) :
    Machine DropboxSS (DropboxEvent SpanContext) Unit where
  init := {}
  step state event := (state.step tracer builtins event, ())

/-! ### What the store gains and loses -/

section Dictionary

variable {κ β : Type} [DecidableEq κ] {d : List (κ × β)}

/-- An entry that is set takes the place of an old one. -/
theorem perm_dictSet (nodup : (d.map Prod.fst).Nodup) (k : κ) (v : β) :
    (dictSet d k v).Perm ((k, v) :: d.filter fun entry => entry.1 ≠ k) := by
  refine (List.perm_ext_iff_of_nodup (List.Nodup.of_map _ (nodup_dictSet nodup k v)) ?_).mpr
    fun entry => ?_
  · refine List.nodup_cons.mpr ⟨fun mem => ?_, (List.Nodup.of_map _ nodup).filter _⟩
    exact of_decide_eq_true (List.mem_filter.mp mem).2 rfl
  · rw [mem_dictSet, List.mem_cons, List.mem_filter, decide_eq_true_eq]

variable [BEq κ] [LawfulBEq κ]

/-- A dictionary is the entry of a key and those of the others. -/
theorem perm_of_lookup (nodup : (d.map Prod.fst).Nodup) {k : κ} {v : β}
    (found : d.lookup k = some v) : d.Perm ((k, v) :: d.filter fun entry => entry.1 ≠ k) := by
  have inside := mem_of_lookup found
  refine (List.perm_ext_iff_of_nodup (List.Nodup.of_map _ nodup) ?_).mpr fun entry => ?_
  · refine List.nodup_cons.mpr ⟨fun mem => ?_, (List.Nodup.of_map _ nodup).filter _⟩
    exact of_decide_eq_true (List.mem_filter.mp mem).2 rfl
  · rw [List.mem_cons, List.mem_filter, decide_eq_true_eq]
    constructor
    · intro mem
      by_cases same : entry.1 = k
      · have looked := lookup_of_mem nodup mem
        rw [same, found, Option.some.injEq] at looked
        exact .inl (Prod.ext same looked.symm)
      · exact .inr ⟨mem, same⟩
    · rintro (rfl | ⟨mem, -⟩)
      · exact inside
      · exact mem

theorem filter_of_absent {k : κ} (absent : d.lookup k = none) :
    (d.filter fun entry => entry.1 ≠ k) = d := by
  refine List.filter_eq_self.mpr fun entry mem => decide_eq_true ?_
  rintro rfl
  exact absurd (List.lookup_eq_none_iff.mp absent entry mem) (by simp)

end Dictionary

namespace MessageStore

variable {self : MessageStore}

theorem nodup_store (nodup : (self.map Prod.fst).Nodup) (pseudonym : Bytes) (message : Stored) :
    ((self.store pseudonym message).map Prod.fst).Nodup := by
  unfold store
  split <;> exact nodup_dictSet nodup _ _

/-- **The store gains the message.** -/
theorem entries_store (nodup : (self.map Prod.fst).Nodup) (pseudonym : Bytes) (message : Stored) :
    (self.store pseudonym message).entries.Perm ((pseudonym, message) :: self.entries) := by
  unfold store entries
  cases found : self.lookup pseudonym with
  | none =>
      have perm := perm_dictSet nodup pseudonym [message]
      rw [filter_of_absent found] at perm
      exact (perm.flatMap_right _).trans (by simp)
  | some messages =>
      have after := (perm_dictSet nodup pseudonym (messages ++ [message])).flatMap_right
        fun entry => entry.2.map fun message => (entry.1, message)
      have before := (perm_of_lookup nodup found).flatMap_right
        fun entry => entry.2.map fun message => (entry.1, message)
      refine after.trans (List.Perm.trans ?_ (before.symm.cons _))
      rw [List.flatMap_cons, List.flatMap_cons, List.map_append, List.map_singleton,
        List.append_assoc, List.singleton_append]
      exact List.perm_middle

theorem nodup_retrieve (nodup : (self.map Prod.fst).Nodup) (pseudonym : Value) :
    ((self.retrieve pseudonym).2.map Prod.fst).Nodup := by
  unfold retrieve
  split
  · exact nodup.sublist (List.filter_sublist.map _)
  · exact nodup

/-- **The store loses what is retrieved.** -/
theorem entries_retrieve (nodup : (self.map Prod.fst).Nodup) (pseudonym : Value) :
    (self.entries.map fun entry => (Value.bytes entry.1, entry.2)).Perm
      (((self.retrieve pseudonym).1.map fun message => (pseudonym, message)) ++
        (self.retrieve pseudonym).2.entries.map fun entry => (Value.bytes entry.1, entry.2)) := by
  unfold retrieve
  split
  · next name =>
      cases found : self.lookup name with
      | none =>
          rw [filter_of_absent found]
          exact .refl _
      | some messages =>
          have perm := ((perm_of_lookup nodup found).flatMap_right
            fun entry => entry.2.map fun message => (entry.1, message)).map
            fun entry => (Value.bytes entry.1, entry.2)
          rw [List.flatMap_cons, List.map_append, List.map_map] at perm
          exact perm
  · exact .refl _

end MessageStore

namespace DropboxSS

variable {SpanContext : Type} {tracer : Tracer SpanContext} {builtins : Builtins}
  {self : DropboxSS}

/-! ### Polls -/

/-- Messages with the pseudonym of a poll. -/
def handed (poll : Poll) (messages : List Stored) : List (Value × Stored) :=
  messages.map fun message => (poll.pseudonym, message)

/-- The messages of the other running `read_task`s. -/
def elsewhere (self : DropboxSS) (k : ℕ) : List (Value × Stored) :=
  (self.polls.eraseIdx k).flatMap fun task => handed task.poll task.phase.working

theorem working_perm {k : ℕ} {task : PollTask} (found : self.polls[k]? = some task) :
    self.working.Perm (handed task.poll task.phase.working ++ self.elsewhere k) := by
  obtain ⟨inside, rfl⟩ := List.getElem?_eq_some_iff.mp found
  exact (List.getElem_cons_eraseIdx_perm inside).symm.flatMap_right _

@[simp]
theorem proceed_store (k : ℕ) (task : PollTask) (next : Next) :
    (self.proceed k task next).store = self.store := by
  cases next <;> rfl

@[simp]
theorem proceed_written (k : ℕ) (task : PollTask) (next : Next) :
    (self.proceed k task next).written = self.written := by
  cases next <;> rfl

@[simp]
theorem start_store (poll : Poll) (next : Next) : (self.start poll next).store = self.store := by
  cases next <;> rfl

@[simp]
theorem start_written (poll : Poll) (next : Next) :
    (self.start poll next).written = self.written := by
  cases next <;> rfl

/-- A poll that goes on has what its next step leaves it. -/
theorem working_proceed {k : ℕ} (inside : k < self.polls.length) (task : PollTask) (next : Next) :
    (self.proceed k task next).working.Perm
      (handed task.poll next.working ++ self.elsewhere k) := by
  cases next with
  | awaits phase => exact (List.set_perm_cons_eraseIdx inside _).flatMap_right _
  | ended => exact .refl _
  | raised e => exact .refl _

theorem working_start (poll : Poll) (next : Next) :
    (self.start poll next).working = self.working ++ handed poll next.working := by
  cases next with
  | awaits phase =>
      refine List.flatMap_append.trans (congrArg (self.working ++ ·) ?_)
      exact List.flatMap_singleton _ _
  | ended => exact (List.append_nil _).symm
  | raised e => exact (List.append_nil _).symm

/-- A context can be extracted from every message that is left, so that the next reply begins. -/
theorem working_reply (poll : Poll) {messages : List Stored}
    (traceable : ∀ message ∈ messages, Traceable tracer message.message) :
    (reply tracer poll messages).working = messages := by
  cases messages with
  | nil =>
      unfold reply afterRead
      split_ifs <;> rfl
  | cons message messages =>
      obtain ⟨context, extracted⟩ := traceable message List.mem_cons_self
      rw [reply, extracted]
      rfl

/-- The messages of the store, with their pseudonyms as values. -/
def kept (self : DropboxSS) : List (Value × Stored) :=
  self.store.entries.map fun entry => (Value.bytes entry.1, entry.2)

/-- Where all messages are: in the store, with the polls, or replied. -/
def held (self : DropboxSS) : List (Value × Stored) :=
  self.kept ++ self.working ++ self.replied

/-- A message of the declared types, from which a context can be extracted, and which was written
for the pseudonym. -/
def Good (tracer : Tracer SpanContext) (self : DropboxSS) (entry : Value × Stored) : Prop :=
  entry.2.message.Typed ∧ Traceable tracer entry.2.message ∧ self.Wrote entry.1 entry.2

/-- **The invariant**: the messages that are held are those that were written. -/
structure Sound (tracer : Tracer SpanContext) (state : DropboxSS) : Prop where
  keys : (state.store.map Prod.fst).Nodup
  serials : (state.held.map fun entry => entry.2.serial).Perm (List.range state.written.length)
  good : ∀ entry ∈ state.held, state.Good tracer entry

/-- Messages that change places. -/
theorem Sound.of_perm (sound : self.Sound tracer) {state : DropboxSS}
    (written : state.written = self.written) (keys : (state.store.map Prod.fst).Nodup)
    (perm : state.held.Perm self.held) : state.Sound tracer where
  keys := keys
  serials := by
    rw [written]
    exact (perm.map _).trans sound.serials
  good entry mem := by
    unfold Good Wrote
    rw [written]
    exact sound.good entry (perm.mem_iff.mp mem)

/-- **A turn of a poll** takes messages out of the store that it keeps. -/
theorem turn_spec (sound : self.Sound tracer) (poll : Poll) (links : Bool) (now : ℤ) :
    ∃ store next, self.turn tracer poll links now = ({ self with store }, next) ∧
      (store.map Prod.fst).Nodup ∧
      self.kept.Perm (handed poll next.working ++ kept { self with store }) := by
  unfold turn
  by_cases live : poll.live now = true
  · rw [if_pos live]
    have nodup := MessageStore.nodup_retrieve sound.keys poll.pseudonym
    have perm := MessageStore.entries_retrieve sound.keys poll.pseudonym
    dsimp only
    generalize self.store.retrieve poll.pseudonym = retrieved at nodup perm
    obtain ⟨messages, store⟩ := retrieved
    have traceable : ∀ message ∈ messages, Traceable tracer message.message := by
      intro message mem
      refine (sound.good (poll.pseudonym, message) ?_).2.1
      refine List.mem_append_left _ (List.mem_append_left _ (perm.mem_iff.mpr ?_))
      exact List.mem_append_left _ (List.mem_map.mpr ⟨message, mem, rfl⟩)
    cases messages with
    | nil =>
        refine ⟨store, afterRead poll, rfl, nodup, ?_⟩
        unfold afterRead
        split_ifs <;> exact perm
    | cons message messages =>
        dsimp only
        split_ifs
        · exact ⟨store, _, rfl, nodup, perm⟩
        · refine ⟨store, _, rfl, nodup, ?_⟩
          rw [working_reply poll traceable]
          exact perm
  · rw [if_neg live]
    exact ⟨self.store, .ended, rfl, sound.keys, .refl _⟩

/-! ### Events -/

/-- What is held apart from the messages of one poll. -/
theorem held_perm {k : ℕ} {task : PollTask} (found : self.polls[k]? = some task) :
    self.held.Perm (handed task.poll task.phase.working ++
      (self.kept ++ self.elsewhere k ++ self.replied)) := by
  have perm := ((working_perm found).append_left self.kept).append_right self.replied
  refine perm.trans ?_
  rw [← List.append_assoc, ← List.append_assoc, ← List.append_assoc]
  exact (List.perm_append_comm.append_right _).append_right _

theorem held_proceed (self : DropboxSS) {k : ℕ} (inside : k < self.polls.length) (task : PollTask)
    (next : Next) :
    (self.proceed k task next).held.Perm (handed task.poll next.working ++
      (self.kept ++ self.elsewhere k ++ self.replied)) := by
  have same : (self.proceed k task next).held =
      self.kept ++ (self.proceed k task next).working ++ self.replied := by
    cases next <;> rfl
  rw [same]
  have perm := ((working_proceed inside task next).append_left self.kept).append_right self.replied
  refine perm.trans ?_
  rw [← List.append_assoc, ← List.append_assoc, ← List.append_assoc]
  exact (List.perm_append_comm.append_right _).append_right _

/-- A poll goes on with the messages that it has. -/
theorem Sound.proceed (sound : self.Sound tracer) {k : ℕ} {task : PollTask}
    (found : self.polls[k]? = some task) (task' : PollTask) (poll : task'.poll = task.poll)
    {next : Next} (working : next.working = task.phase.working) :
    (self.proceed k task' next).Sound tracer := by
  have inside := (List.getElem?_eq_some_iff.mp found).1
  refine sound.of_perm (by simp) (by simpa using sound.keys) ?_
  have perm := held_proceed self inside task' next
  rw [poll, working] at perm
  exact perm.trans (held_perm found).symm

/-- The message inside another one is of the declared types. -/
theorem submessage_typed {now : ℤ} {decrypted inner : PrismMessage} (typed : decrypted.Typed)
    (inside : submessage builtins now decrypted = .ok inner) : inner.Typed := by
  unfold submessage at inside
  rcases PrismMessage.hasType_of_valueTyped (PrismMessage.get_typed typed
      (show ClassName.prismMessage.info .subMsg = some
        ⟨.subMsg, .generic (some .prismMessage), .absent⟩ from rfl)) with none | fits
  · rw [none] at inside
    cases inside
  · obtain ⟨message, value⟩ :
        ∃ message : PrismMessage, decrypted.get .subMsg = message.toValue := by
      cases value : decrypted.get .subMsg with
      | object c fields =>
          rw [value] at fits
          simp only [Value.hasType, Bool.and_eq_true, decide_eq_true_eq] at fits
          obtain rfl := Option.some.inj fits.1
          exact ⟨⟨fields⟩, rfl⟩
      | _ =>
          rw [value] at fits
          cases fits
    rw [value] at fits inside
    have messageTyped := (message.typed_iff _ (.inr rfl)).mp fits
    obtain ⟨entries, encoded, back⟩ :=
      PrismMessage.fromCborDict_asCborDict builtins now messageTyped
    rw [encoded, ok_bind, back, ok_bind, PrismMessage.ofValue?_toValue] at inside
    obtain rfl := Except.ok.inj inside
    exact messageTyped

/-- A message that was written stays so when more are written. -/
theorem Wrote.mono {pseudonym : Value} {message : Stored} (wrote : self.Wrote pseudonym message)
    {state : DropboxSS} (written : self.written <+: state.written) :
    state.Wrote pseudonym message := by
  obtain ⟨original, at_serial, name, same⟩ := wrote
  obtain ⟨inside, found⟩ := List.getElem?_eq_some_iff.mp at_serial
  refine ⟨original, List.getElem?_eq_some_iff.mpr ⟨?_, ?_⟩, name, same⟩
  · exact inside.trans_le written.length_le
  · rw [← written.getElem inside, found]

/-- **A write** adds its message. -/
theorem Sound.write (sound : self.Sound tracer) {now : ℤ} {decrypted : PrismMessage}
    (typed : decrypted.Typed) {context : SpanContext} {state : DropboxSS}
    (run : self.write tracer builtins now decrypted context = .ok state) :
    state.Sound tracer := by
  unfold DropboxSS.write at run
  split at run
  · next pseudonym given =>
      obtain ⟨inner, inside, run⟩ := bind_eq_ok.mp run
      have innerTyped := submessage_typed typed inside
      obtain ⟨traced, injected, tracedTyped, same, traceable⟩ :=
        injectSpanContext_some tracer builtins now innerTyped context
      rw [injected, ok_bind] at run
      obtain rfl := Except.ok.inj run
      have perm : held { self with
          store := self.store.store pseudonym ⟨self.written.length, traced⟩
          written := self.written ++ [(pseudonym, inner)] } |>.Perm
          ((.bytes pseudonym, ⟨self.written.length, traced⟩) :: self.held) :=
        (((MessageStore.entries_store sound.keys pseudonym _).map _).append_right _).append_right _
      refine ⟨MessageStore.nodup_store sound.keys pseudonym _, ?_, fun entry mem => ?_⟩
      · refine (perm.map _).trans ?_
        rw [List.map_cons, List.length_append, List.length_singleton, List.range_succ]
        exact (sound.serials.cons _).trans (List.perm_append_singleton _ _).symm
      · rcases List.mem_cons.mp (perm.mem_iff.mp mem) with rfl | old
        · exact ⟨tracedTyped, traceable, _, List.getElem?_concat_length, rfl, same⟩
        · obtain ⟨oldTyped, oldTraceable, wrote⟩ := sound.good entry old
          exact ⟨oldTyped, oldTraceable, wrote.mono (List.prefix_append _ _)⟩
  · cases run

/-- **A reply that is over**: the message has a reply, or is stored again. -/
theorem Sound.settle (sound : self.Sound tracer) {k : ℕ} {poll : Poll} {links : Bool}
    {message : Stored} {messages : List Stored}
    (found : self.polls[k]? = some ⟨poll, links, .replying (message :: messages)⟩) (now : ℤ)
    (success : Bool) (context : SpanContext) (builtins : Builtins) :
    ∃ state, self.settle tracer builtins now poll message success context = .ok state ∧
      (state.proceed k ⟨poll, links, .sleeping⟩ (reply tracer poll messages)).Sound tracer := by
  have inside := (List.getElem?_eq_some_iff.mp found).1
  have before : self.held.Perm ((poll.pseudonym, message) :: (handed poll messages ++
      (self.kept ++ self.elsewhere k ++ self.replied))) := held_perm found
  obtain ⟨typed, -, wrote⟩ := sound.good _ (before.mem_iff.mpr List.mem_cons_self)
  have rest : (reply tracer poll messages).working = messages := by
    refine working_reply poll fun other mem => (sound.good (poll.pseudonym, other) ?_).2.1
    refine before.mem_iff.mpr (List.mem_cons_of_mem _ (List.mem_append_left _ ?_))
    exact List.mem_map.mpr ⟨other, mem, rfl⟩
  cases success with
  | true =>
      refine ⟨_, rfl, sound.of_perm ?_ ?_ ?_⟩
      · rw [proceed_written]
      · rw [proceed_store]
        exact sound.keys
      · have after := held_proceed
          { self with replied := self.replied ++ [(poll.pseudonym, message)] } inside
          ⟨poll, links, .sleeping⟩ (reply tracer poll messages)
        refine after.trans (List.Perm.trans ?_ before.symm)
        rw [rest]
        change (handed poll messages ++ (self.kept ++ self.elsewhere k ++
          (self.replied ++ [(poll.pseudonym, message)]))).Perm _
        rw [← List.append_assoc (self.kept ++ _), ← List.append_assoc (handed poll messages)]
        exact List.perm_append_singleton _ _
  | false =>
      obtain ⟨traced, injected, tracedTyped, same, traceable⟩ :=
        injectSpanContext_some tracer builtins now typed context
      obtain ⟨written, at_serial, name, kept⟩ := wrote
      dsimp only at name at_serial kept injected same
      have run : self.settle tracer builtins now poll message false context = .ok { self with
          store := self.store.store written.1 { message with message := traced } } := by
        unfold DropboxSS.settle
        rw [if_neg (by decide), name]
        dsimp only
        rw [injected]
        rfl
      refine ⟨_, run, ?_⟩
      -- The message is held once more, with another context.
      have after : (({ self with
          store := self.store.store written.1 { message with message := traced } } :
            DropboxSS).proceed k ⟨poll, links, .sleeping⟩ (reply tracer poll messages)).held.Perm
          ((poll.pseudonym, { message with message := traced }) :: (handed poll messages ++
            (self.kept ++ self.elsewhere k ++ self.replied))) := by
        have moved := held_proceed { self with
            store := self.store.store written.1 { message with message := traced } } inside
          ⟨poll, links, .sleeping⟩ (reply tracer poll messages)
        rw [rest] at moved
        refine moved.trans ?_
        have gained := (MessageStore.entries_store sound.keys written.1
          { message with message := traced }).map fun entry => (Value.bytes entry.1, entry.2)
        rw [name]
        exact (((gained.append_right (self.elsewhere k)).append_right self.replied).append_left
          (handed poll messages)).trans List.perm_middle
      refine ⟨?_, ?_, fun entry mem => ?_⟩
      · rw [proceed_store]
        exact MessageStore.nodup_store sound.keys written.1 _
      · rw [proceed_written]
        exact ((after.map _).trans (before.map fun entry => entry.2.serial).symm).trans
          sound.serials
      · rcases List.mem_cons.mp (after.mem_iff.mp mem) with rfl | old
        · refine ⟨tracedTyped, traceable, written, ?_, name, kept.trans same⟩
          rw [proceed_written]
          exact at_serial
        · obtain ⟨oldTyped, oldTraceable, wrote⟩ :=
            sound.good entry (before.mem_iff.mpr (List.mem_cons_of_mem _ old))
          refine ⟨oldTyped, oldTraceable, wrote.mono ?_⟩
          rw [proceed_written]

/-- **A turn of a new poll.** -/
theorem Sound.start (sound : self.Sound tracer) (poll : Poll) (now : ℤ) :
    ((self.turn tracer poll false now).1.start poll
      (self.turn tracer poll false now).2).Sound tracer := by
  obtain ⟨store, next, run, nodup, perm⟩ := turn_spec sound poll false now
  rw [run]
  refine sound.of_perm (by simp) (by simpa using nodup) ?_
  have same : (({ self with store } : DropboxSS).start poll next).held =
      kept { self with store } ++ (self.working ++ handed poll next.working) ++ self.replied := by
    rw [← working_start]
    cases next <;> rfl
  rw [same]
  refine List.Perm.append_right _ (List.Perm.trans ?_ (perm.symm.append_right self.working))
  refine (List.perm_append_comm.append_left _).trans ?_
  rw [← List.append_assoc]
  exact List.perm_append_comm.append_right _

/-- **A turn of a poll that wakes up.** -/
theorem Sound.wake (sound : self.Sound tracer) {k : ℕ} {poll : Poll} {links : Bool}
    (found : self.polls[k]? = some ⟨poll, links, .sleeping⟩) (now : ℤ) :
    ((self.turn tracer poll links now).1.proceed k ⟨poll, links, .sleeping⟩
      (self.turn tracer poll links now).2).Sound tracer := by
  obtain ⟨store, next, run, nodup, perm⟩ := turn_spec sound poll links now
  rw [run]
  refine sound.of_perm (by simp) (by simpa using nodup) ?_
  have inside := (List.getElem?_eq_some_iff.mp found).1
  have before := held_perm found
  have after := held_proceed { self with store } inside ⟨poll, links, .sleeping⟩ next
  refine after.trans (List.Perm.trans ?_ before.symm)
  have moved := (perm.symm.append_right (self.elsewhere k)).append_right self.replied
  rw [List.append_assoc, List.append_assoc] at moved
  refine List.Perm.trans ?_ moved
  rw [List.append_assoc]
  exact .refl _

/-- **One event** loses no message, and doubles none. -/
theorem Sound.step (sound : self.Sound tracer) (event : DropboxEvent SpanContext) :
    (self.step tracer builtins event).Sound tracer := by
  cases event with
  | write now decrypted typed context =>
      unfold DropboxSS.step
      dsimp only
      split
      · next state run => exact sound.write typed run
      · exact sound
  | poll now message typed =>
      unfold DropboxSS.step
      dsimp only
      split
      · exact sound
      · next poll _ =>
          split
          · exact sound.start poll now
          · exact sound
  | loaded k links =>
      unfold DropboxSS.step
      dsimp only
      split
      · next poll _ messages found =>
          refine sound.proceed found ⟨poll, links, .sleeping⟩ rfl
            (working_reply poll fun message mem => ?_)
          refine (sound.good (poll.pseudonym, message) ?_).2.1
          refine (held_perm found).mem_iff.mpr (List.mem_append_left _ ?_)
          exact List.mem_map.mpr ⟨message, mem, rfl⟩
      · exact sound
  | replied k now success context =>
      unfold DropboxSS.step
      dsimp only
      split
      · next poll links message messages found =>
          obtain ⟨state, run, after⟩ :=
            sound.settle found now success context builtins
          rw [run]
          exact after
      · exact sound
  | wakes k now =>
      unfold DropboxSS.step
      dsimp only
      split
      · next poll links found => exact sound.wake found now
      · exact sound

/-! ### Main result -/

/-- What is held is conserved. -/
theorem Sound.conserved (sound : self.Sound tracer) : self.Conserved where
  once n inside := by
    have counted := (sound.serials.countP_eq (· = n)).trans
      ((List.count_eq_one_of_mem List.nodup_range (List.mem_range.mpr inside)))
    rw [List.countP_map] at counted
    rw [← counted, held, kept, List.countP_append, List.countP_append, List.countP_map]
    rfl
  stored entry mem := by
    refine (sound.good (.bytes entry.1, entry.2) ?_).2.2
    exact List.mem_append_left _ (List.mem_append_left _ (List.mem_map.mpr ⟨entry, mem, rfl⟩))
  working entry mem :=
    (sound.good entry (List.mem_append_left _ (List.mem_append_right _ mem))).2.2
  replied entry mem := (sound.good entry (List.mem_append_right _ mem)).2.2

theorem sound_init : Sound tracer {} where
  keys := List.nodup_nil
  serials := .refl _
  good _ mem := nomatch mem

/-- The invariant holds after every run. -/
theorem sound_run (tracer : Tracer SpanContext) (builtins : Builtins)
    (events : List (DropboxEvent SpanContext)) :
    ((dropboxMachine tracer builtins).run events).1.Sound tracer := by
  apply @Machine.run_induction _ _ _ (dropboxMachine tracer builtins) (fun _ _ _ => True)
    (fun state _ => state.Sound tracer) sound_init
  · intro state history event sound _
    exact sound.step event
  · intro _ _ _ _
    trivial

/-- **The dropbox on a single server neither loses nor doubles messages**, and hands none to a poll
for another pseudonym, whatever is written and polled, whichever replies succeed and whenever polls
expire. -/
theorem run_conserved (tracer : Tracer SpanContext) (builtins : Builtins)
    (events : List (DropboxEvent SpanContext)) :
    ((dropboxMachine tracer builtins).run events).1.Conserved := by
  exact (sound_run tracer builtins events).conserved

end DropboxSS

end Prism.Roles
