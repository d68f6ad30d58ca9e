import Prism.Message.Cbor
import Prism.Transport.CommsLink
import Prism.Vrf.Uniqueness

/-!
The count of pending sends (`CommsLink.send` in `rib/prism/rib/connection/link.py`,
`EpochLink.send` in `prism/common/transport/epoch_transport.py`, `disposable` in
`prism/common/transport/transport.py`, `reaper_task` in
`rib/prism/rib/connection/CommsTransport.py`).

A link counts the sends that are under way, and so does every `EpochLink` around it; only a link
without any may be reaped. Both count by hand: one up at the start, and one down before each
`return`. A send gives way to other tasks while it waits for the status of its package. It is
resumed when a while has passed or its timeout is over, or it is cancelled from outside: the
exception goes through both layers, and none of them counts down.

* `accounted_step`: an event leaves a count behind, or it does not.
* `balanced_iff`: the counts are right in all states of a run exactly if no waiting send was
  cancelled and every message could be encoded.
-/

namespace Prism.Transport

open Lib Vrf

/-! ### Sends -/

/-- A send that waits for the status of its package: the link, the `EpochLink` that it goes
through, if any, and the handle of the package. -/
structure Sending where
  link : ℕ
  through : Option ℕ
  handle : ℤ
deriving DecidableEq, Repr

/-- How far a send has come. -/
inductive Progress where
  | returned (result : Bool)
  | raised (e : PyError)
  | waiting (handle : ℤ)
  | cancelled
  | absent
deriving DecidableEq, Repr

/-- What `sendEncryptedPackage` answers. -/
inductive SdkResponse where
  | ok (handle : ℤ)
  | refused
deriving DecidableEq, Repr

/-- An `EpochLink` with its `pending_sends`. -/
structure PendingEpochLink extends EpochLink where
  pendingSends : ℤ := 0
deriving DecidableEq, Repr

/-- The links with their `EpochLink`s, the packages with a status, and the sends that wait. -/
structure SendState where
  links : List CommsLink := []
  epochLinks : List PendingEpochLink := []
  successfulPackages : List ℤ := []
  failedPackages : List ℤ := []
  running : List Sending := []

/-- What `send` is given, on a host with a clock. -/
structure Outgoing where
  message : PrismMessage
  context : Option (ℕ × ℕ)
  offset : ℤ
  now : ℤ
  response : SdkResponse

/-- What `reaper_task` does with a link, with `transport_reaper` on. -/
def CommsLink.reap (reaperDelay now : ℤ) (self : CommsLink) : CommsLink × Option String :=
  if self.disposable reaperDelay now then self.close else (self, none)

/-- `send` goes on if the link has an open connection. -/
def CommsLink.sendable (self : CommsLink) : Bool := self.connected && self.active

namespace SendState

variable (self : SendState)

/-- `pending_sends` of a link. -/
def addPending (place : ℕ) (d : ℤ) : SendState :=
  { self with links := self.links.modify place fun link =>
      { link with pendingSends := link.pendingSends + d } }

/-- `pending_sends` of an `EpochLink`; nothing if the send does not go through one. -/
def addEpochPending (through : Option ℕ) (d : ℤ) : SendState :=
  match through with
  | none => self
  | some serial =>
    { self with epochLinks := self.epochLinks.modify serial fun link =>
        { link with pendingSends := link.pendingSends + d } }

/-- One turn of the loop that waits. -/
def checkSend (place : ℕ) (handle now : ℤ) : SendState × Progress :=
  if handle ∈ self.successfulPackages then
    ({ self with links := self.links.modify place fun link =>
        { link with lastSend := now, pendingSends := link.pendingSends - 1 } }, .returned true)
  else if handle ∈ self.failedPackages then (self.addPending place (-1), .returned false)
  else (self, .waiting handle)

/-- What is left to do for the caller: the `EpochLink` counts down when the link returns, and a
send that waits is kept. -/
def settle (place : ℕ) (through : Option ℕ) : SendState × Progress → SendState × Progress
  | (state, .returned result) => (state.addEpochPending through (-1), .returned result)
  | (state, .waiting handle) =>
    ({ state with running := state.running ++ [{ link := place, through, handle }] },
      .waiting handle)
  | (state, progress) => (state, progress)

section Send

variable (cbor : Cbor2) (builtins : Builtins) (checksum : Checksum) (epochOf : ℕ → String)

/-- `CommsLink.send` until it waits. -/
def beginSend (place : ℕ) (outgoing : Outgoing) : SendState × Progress :=
  if (self.links[place]?).any (·.sendable) then
    let state := self.addPending place 1
    match CommsLink.makePackage cbor builtins checksum outgoing.offset outgoing.now
        outgoing.message outgoing.context with
    | .error e => (state, .raised e)
    | .ok _ =>
      match outgoing.response with
      | .refused => (state.addPending place (-1), .returned false)
      | .ok handle => state.checkSend place handle outgoing.now
  else (self, .returned false)

/-- What an `EpochLink` makes of the message. -/
def inEpoch (link : EpochLink) (outgoing : Outgoing) : Py PrismMessage :=
  outgoing.message.clone builtins outgoing.now [(.epoch, .str (epochOf link.transport))]

/-- `EpochLink.send` until it waits. -/
def beginEpochSend (serial : ℕ) (link : EpochLink) (outgoing : Outgoing) :
    SendState × Progress :=
  let state := self.addEpochPending (some serial) 1
  match inEpoch builtins epochOf link outgoing with
  | .error e => (state, .raised e)
  | .ok message =>
    settle link.inner (some serial)
      (state.beginSend cbor builtins checksum link.inner { outgoing with message })

end Send

/-- A send without the one at a position. -/
def without (k : ℕ) : SendState := { self with running := self.running.eraseIdx k }

end SendState

/-! ### Runs -/

/-- What happens. A send that waits is named by its position. -/
inductive SendEvent where
  /-- A link is made, or changes otherwise. -/
  | creates (linkId : String) (endpoints : List String) (createTime : ℤ)
  | changes (place : ℕ) (connectionStatus : ConnectionStatus) (connectionId : Option String)
      (references : List EpochLink)
  | wraps (transport place : ℕ)
  | sends (place : ℕ) (outgoing : Outgoing)
  | epochSends (serial : ℕ) (outgoing : Outgoing)
  /-- `onPackageStatusChanged`. -/
  | packageStatus (handle : ℤ) (successful : Bool)
  | wakes (k : ℕ) (now : ℤ)
  | timesOut (k : ℕ)
  | cancelled (k : ℕ)
  | reaps (reaperDelay now : ℤ)

namespace SendState

variable (cbor : Cbor2) (builtins : Builtins) (checksum : Checksum) (epochOf : ℕ → String)
  (self : SendState)

/-- One event. -/
def step : SendEvent → SendState × Progress
  | .creates linkId endpoints createTime =>
    ({ self with links := self.links ++ [{ linkId, endpoints, createTime }] }, .absent)
  | .changes place connectionStatus connectionId references =>
    ({ self with links := self.links.modify place fun link =>
        { link with connectionStatus, connectionId, references } }, .absent)
  | .wraps transport place =>
    let link : EpochLink := { serial := self.epochLinks.length, inner := place, transport }
    if place < self.links.length then
      ({ self with
        links := self.links.modify place fun raw =>
          { raw with references := raw.references ++ [link] }
        epochLinks := self.epochLinks ++ [{ link with }] }, .absent)
    else (self, .absent)
  | .sends place outgoing =>
    settle place none (self.beginSend cbor builtins checksum place outgoing)
  | .epochSends serial outgoing =>
    match self.epochLinks[serial]? with
    | none => (self, .absent)
    | some link =>
      self.beginEpochSend cbor builtins checksum epochOf serial link.toEpochLink outgoing
  | .packageStatus handle successful =>
    if successful then
      ({ self with successfulPackages := handle :: self.successfulPackages }, .absent)
    else ({ self with failedPackages := handle :: self.failedPackages }, .absent)
  | .wakes k now =>
    match self.running[k]? with
    | none => (self, .absent)
    | some sending =>
      settle sending.link sending.through
        ((self.without k).checkSend sending.link sending.handle now)
  | .timesOut k =>
    match self.running[k]? with
    | none => (self, .absent)
    | some sending =>
      settle sending.link sending.through
        ((self.without k).addPending sending.link (-1), .returned false)
  | .cancelled k =>
    match self.running[k]? with
    | none => (self, .absent)
    | some _ => (self.without k, .cancelled)
  | .reaps reaperDelay now =>
    ({ self with links := self.links.map fun link => (link.reap reaperDelay now).1 }, .absent)

/-- A link on which a message raises that cannot be encoded. -/
def Raises (place : ℕ) (outgoing : Outgoing) : Prop :=
  (∃ link, self.links[place]? = some link ∧ link.sendable = true) ∧
    ∃ e, CommsLink.makePackage cbor builtins checksum outgoing.offset outgoing.now outgoing.message
      outgoing.context = .error e

/-- **A count is left behind**: a send is cancelled while it waits, or raises. -/
def Leaks : SendEvent → Prop
  | .cancelled k => k < self.running.length
  | .sends place outgoing => self.Raises cbor builtins checksum place outgoing
  | .epochSends serial outgoing =>
    ∃ link, self.epochLinks[serial]? = some link ∧
      ((∃ e, inEpoch builtins epochOf link.toEpochLink outgoing = .error e) ∨
        ∃ message, inEpoch builtins epochOf link.toEpochLink outgoing = .ok message ∧
          self.Raises cbor builtins checksum link.inner { outgoing with message })
  | _ => False

/-- The number of sends that are running on a link, and through an `EpochLink`. -/
def runningOn (place : ℕ) : ℕ := self.running.countP (·.link = place)

def runningThrough (serial : ℕ) : ℕ := self.running.countP (·.through = some serial)

end SendState

/-- **The counts are right**, and a link that is quiet and not referred to is reaped. -/
structure SendState.Balanced (state : SendState) : Prop where
  links : ∀ place (link : CommsLink), state.links[place]? = some link →
    link.pendingSends = state.runningOn place
  epochLinks : ∀ serial (link : PendingEpochLink), state.epochLinks[serial]? = some link →
    link.pendingSends = state.runningThrough serial
  reaped : ∀ place (link : CommsLink), state.links[place]? = some link →
    state.runningOn place = 0 → link.active = true → link.references = [] →
    ∀ reaperDelay now, link.quiet reaperDelay now = true →
      link.reap reaperDelay now = link.close

/-- The links and their sends, from the start on. -/
def sendMachine (cbor : Cbor2) (builtins : Builtins) (checksum : Checksum) (epochOf : ℕ → String) :
    Machine SendState SendEvent Progress where
  init := {}
  step := SendState.step cbor builtins checksum epochOf

/-! ### Accounts -/

namespace SendState

/-- One at a place of a list with `n` elements. -/
def hits (n : ℕ) (place : Option ℕ) (q : ℕ) : ℤ := if place = some q ∧ q < n then 1 else 0

@[simp] theorem hits_none (n q : ℕ) : hits n none q = 0 := if_neg fun h => nomatch h.1

/-- What a link counts beyond the sends that are running. -/
def surplus (self : SendState) (q : ℕ) : ℤ :=
  (self.links[q]?).elim 0 fun link => link.pendingSends - self.runningOn q

def epochSurplus (self : SendState) (q : ℕ) : ℤ :=
  (self.epochLinks[q]?).elim 0 fun link => link.pendingSends - self.runningThrough q

variable {self : SendState}

section Counted

variable {α : Type} {xs : List α} {count : α → ℤ}

/-- An element that changes its count. -/
theorem elim_modify {f : α → α} {d : ℤ} (counts : ∀ x, count (f x) = count x + d) (n : ℤ)
    (place q : ℕ) : ((xs.modify place f)[q]?).elim 0 (fun x => count x - n) =
      (xs[q]?).elim 0 (fun x => count x - n) + d * hits xs.length (some place) q := by
  rw [List.getElem?_modify]
  cases found : xs[q]? with
  | none =>
      have outside := List.getElem?_eq_none_iff.mp found
      rw [hits, if_neg (by omega), mul_zero]
      rfl
  | some x =>
      obtain ⟨inside, -⟩ := List.getElem?_eq_some_iff.mp found
      by_cases here : place = q
      · rw [hits, if_pos ⟨congrArg some here, inside⟩]
        simp only [here, if_true, Option.map_eq_map, Option.map_some, Option.elim_some, counts]
        ring
      · rw [hits, if_neg fun h => here (Option.some.inj h.1)]
        simp [here]

/-- Another number is taken from the count at a place. -/
theorem elim_sub {n m d : ℤ} {place : Option ℕ} {q : ℕ}
    (counts : m = n + d * if place = some q then 1 else 0) :
    (xs[q]?).elim 0 (fun x => count x - m) =
      (xs[q]?).elim 0 (fun x => count x - n) - d * hits xs.length place q := by
  unfold hits
  cases found : xs[q]? with
  | none =>
      have outside := List.getElem?_eq_none_iff.mp found
      rw [if_neg (by omega), mul_zero]
      rfl
  | some x =>
      obtain ⟨inside, -⟩ := List.getElem?_eq_some_iff.mp found
      simp only [Option.elim_some, inside, and_true, counts]
      ring

end Counted

/-- A link that changes its count. -/
theorem surplus_modify (place : ℕ) {f : CommsLink → CommsLink} {d : ℤ}
    (counts : ∀ link, (f link).pendingSends = link.pendingSends + d) (q : ℕ) :
    surplus { self with links := self.links.modify place f } q =
      self.surplus q + d * hits self.links.length (some place) q :=
  elim_modify counts (self.runningOn q) place q

theorem epochSurplus_modify (serial : ℕ) (d : ℤ) (q : ℕ) :
    epochSurplus { self with epochLinks := self.epochLinks.modify serial fun link =>
        { link with pendingSends := link.pendingSends + d } } q =
      self.epochSurplus q + d * hits self.epochLinks.length (some serial) q :=
  elim_modify (fun _ => rfl) (self.runningThrough q) serial q

@[simp] theorem length_addPending (place : ℕ) (d : ℤ) :
    (self.addPending place d).links.length = self.links.length := List.length_modify _ _ _

@[simp] theorem surplus_addPending (place : ℕ) (d : ℤ) (q : ℕ) :
    (self.addPending place d).surplus q =
      self.surplus q + d * hits self.links.length (some place) q :=
  surplus_modify place (fun _ => rfl) q

@[simp] theorem epochSurplus_addPending (place : ℕ) (d : ℤ) (q : ℕ) :
    (self.addPending place d).epochSurplus q = self.epochSurplus q := rfl

@[simp] theorem links_addEpochPending (through : Option ℕ) (d : ℤ) :
    (self.addEpochPending through d).links = self.links := by
  cases through <;> rfl

@[simp] theorem length_addEpochPending (through : Option ℕ) (d : ℤ) :
    (self.addEpochPending through d).epochLinks.length = self.epochLinks.length := by
  cases through with
  | none => rfl
  | some serial => exact List.length_modify _ _ _

@[simp] theorem running_addEpochPending (through : Option ℕ) (d : ℤ) :
    (self.addEpochPending through d).running = self.running := by
  cases through <;> rfl

@[simp] theorem surplus_addEpochPending (through : Option ℕ) (d : ℤ) (q : ℕ) :
    (self.addEpochPending through d).surplus q = self.surplus q := by
  cases through <;> rfl

@[simp] theorem epochSurplus_addEpochPending (through : Option ℕ) (d : ℤ) (q : ℕ) :
    (self.addEpochPending through d).epochSurplus q =
      self.epochSurplus q + d * hits self.epochLinks.length through q := by
  cases through with
  | none => rw [hits_none, mul_zero, add_zero]; rfl
  | some serial => exact epochSurplus_modify serial d q

/-- Other sends are running. -/
theorem surplus_running (running : List Sending) {q : ℕ} {place : Option ℕ} {d : ℤ}
    (counts : (running.countP (·.link = q) : ℤ) =
      self.runningOn q + d * if place = some q then 1 else 0) :
    surplus { self with running } q = self.surplus q - d * hits self.links.length place q :=
  elim_sub counts

theorem epochSurplus_running (running : List Sending) {q : ℕ} {through : Option ℕ} {d : ℤ}
    (counts : (running.countP (·.through = some q) : ℤ) =
      self.runningThrough q + d * if through = some q then 1 else 0) :
    epochSurplus { self with running } q =
      self.epochSurplus q - d * hits self.epochLinks.length through q :=
  elim_sub counts

/-- A send begins to wait. -/
theorem surplus_wait (sending : Sending) (q : ℕ) :
    surplus { self with running := self.running ++ [sending] } q =
        self.surplus q - hits self.links.length (some sending.link) q ∧
      epochSurplus { self with running := self.running ++ [sending] } q =
        self.epochSurplus q - hits self.epochLinks.length sending.through q := by
  constructor
  · rw [← one_mul (hits _ _ _)]
    refine surplus_running _ ?_
    rw [List.countP_append, List.countP_singleton, runningOn]
    push_cast
    simp
  · rw [← one_mul (hits _ _ _)]
    refine epochSurplus_running _ ?_
    rw [List.countP_append, List.countP_singleton, runningThrough]
    push_cast
    simp

/-- A send does not wait any more. -/
theorem surplus_without {k : ℕ} {sending : Sending} (found : self.running[k]? = some sending)
    (q : ℕ) :
    (self.without k).surplus q =
        self.surplus q + hits self.links.length (some sending.link) q ∧
      (self.without k).epochSurplus q =
        self.epochSurplus q + hits self.epochLinks.length sending.through q := by
  obtain ⟨inside, rfl⟩ := List.getElem?_eq_some_iff.mp found
  have perm := List.getElem_cons_eraseIdx_perm inside
  constructor
  · rw [← sub_neg_eq_add, ← neg_one_mul]
    refine surplus_running _ ?_
    rw [runningOn, ← perm.countP_eq, List.countP_cons]
    push_cast
    simp only [decide_eq_true_eq, Option.some.injEq]
    ring
  · rw [← sub_neg_eq_add, ← neg_one_mul]
    refine epochSurplus_running _ ?_
    rw [runningThrough, ← perm.countP_eq, List.countP_cons]
    push_cast
    simp only [decide_eq_true_eq]
    ring

/-- **What a link and an `EpochLink` are owed**: they count so many more than before. -/
structure Accounts (before after : SendState) (place : ℕ) (through : Option ℕ) (d d' : ℤ) :
    Prop where
  links : after.links.length = before.links.length
  epochLinks : after.epochLinks.length = before.epochLinks.length
  surplus : ∀ q, after.surplus q = before.surplus q + d * hits before.links.length (some place) q
  epochSurplus : ∀ q,
    after.epochSurplus q = before.epochSurplus q + d' * hits before.epochLinks.length through q

namespace Accounts

variable {s s' s'' : SendState} {place : ℕ} {through : Option ℕ} {d d' e e' : ℤ}

theorem trans (first : Accounts s s' place through d d')
    (second : Accounts s' s'' place through e e') :
    Accounts s s'' place through (d + e) (d' + e') where
  links := second.links.trans first.links
  epochLinks := second.epochLinks.trans first.epochLinks
  surplus q := by
    rw [second.surplus, first.surplus, first.links]
    ring
  epochSurplus q := by
    rw [second.epochSurplus, first.epochSurplus, first.epochLinks]
    ring

theorem refl : Accounts s s place through 0 0 where
  links := rfl
  epochLinks := rfl
  surplus q := by ring
  epochSurplus q := by ring

theorem addPending : Accounts s (s.addPending place d) place through d 0 where
  links := length_addPending place d
  epochLinks := rfl
  surplus q := surplus_addPending place d q
  epochSurplus q := by
    rw [epochSurplus_addPending]
    ring

theorem addEpochPending : Accounts s (s.addEpochPending through d) place through 0 d where
  links := by rw [links_addEpochPending]
  epochLinks := length_addEpochPending through d
  surplus q := by
    rw [surplus_addEpochPending]
    ring
  epochSurplus q := epochSurplus_addEpochPending through d q

theorem wait {handle : ℤ} :
    Accounts s { s with running := s.running ++ [⟨place, through, handle⟩] } place through
      (-1) (-1) where
  links := rfl
  epochLinks := rfl
  surplus q := by
    rw [(surplus_wait ⟨place, through, handle⟩ q).1]
    ring
  epochSurplus q := by
    rw [(surplus_wait ⟨place, through, handle⟩ q).2]
    ring

theorem without {k : ℕ} {sending : Sending} (found : s.running[k]? = some sending) :
    Accounts s (s.without k) sending.link sending.through 1 1 where
  links := rfl
  epochLinks := rfl
  surplus q := by
    rw [(surplus_without found q).1]
    ring
  epochSurplus q := by
    rw [(surplus_without found q).2]
    ring

end Accounts

theorem checkSend_accounts (place : ℕ) (through : Option ℕ) (handle now : ℤ) :
    (∃ result, (self.checkSend place handle now).2 = .returned result ∧
      Accounts self (self.checkSend place handle now).1 place through (-1) 0) ∨
    self.checkSend place handle now = (self, .waiting handle) := by
  unfold checkSend
  split_ifs
  · refine .inl ⟨true, rfl, List.length_modify _ _ _, rfl, fun q => surplus_modify place ?_ q,
      fun q => ?_⟩
    · exact fun link => sub_eq_add_neg _ _
    · rw [zero_mul, add_zero]
      rfl
  · exact .inl ⟨false, rfl, .addPending⟩
  · exact .inr rfl

theorem settle_accounts (place : ℕ) (through : Option ℕ) (progress : Progress) :
    Accounts self (settle place through (self, progress)).1 place through
      (match progress with | .waiting _ => -1 | _ => 0)
      (match progress with | .returned _ | .waiting _ => -1 | _ => 0) := by
  cases progress with
  | returned result => exact .addEpochPending
  | waiting handle => exact .wait
  | _ => exact .refl

section Send

variable {cbor : Cbor2} {builtins : Builtins} {checksum : Checksum} {epochOf : ℕ → String}

/-- **The start of a send**: it returns, or raises with a count left behind, or waits. -/
theorem beginSend_accounts (place : ℕ) (through : Option ℕ) (outgoing : Outgoing) :
    (∃ result, (self.beginSend cbor builtins checksum place outgoing).2 = .returned result ∧
      Accounts self (self.beginSend cbor builtins checksum place outgoing).1 place through 0 0 ∧
      ¬ self.Raises cbor builtins checksum place outgoing) ∨
    (∃ e, (self.beginSend cbor builtins checksum place outgoing).2 = .raised e ∧
      Accounts self (self.beginSend cbor builtins checksum place outgoing).1 place through 1 0 ∧
      self.Raises cbor builtins checksum place outgoing) ∨
    ∃ handle, (self.beginSend cbor builtins checksum place outgoing).2 = .waiting handle ∧
      Accounts self (self.beginSend cbor builtins checksum place outgoing).1 place through 1 0 ∧
      ¬ self.Raises cbor builtins checksum place outgoing ∧ place < self.links.length := by
  have counted : Accounts self (self.addPending place 1) place through 1 0 := .addPending
  unfold beginSend Raises
  by_cases sendable : (self.links[place]?).any (·.sendable) = true
  · obtain ⟨link, found, open_⟩ := (Option.any_eq_true _ _).mp sendable
    have inside := (List.getElem?_eq_some_iff.mp found).1
    rw [if_pos sendable]
    dsimp only
    cases made : CommsLink.makePackage cbor builtins checksum outgoing.offset outgoing.now
        outgoing.message outgoing.context with
    | error e => exact .inr (.inl ⟨e, rfl, counted, ⟨link, found, open_⟩, e, rfl⟩)
    | ok pkg =>
        have encodes : ¬ ((∃ link, self.links[place]? = some link ∧ link.sendable = true) ∧
            ∃ e, (Except.ok pkg : Py EncPkg) = .error e) := fun h => nomatch h.2
        dsimp only
        cases outgoing.response with
        | refused => exact .inl ⟨false, rfl, counted.trans .addPending, encodes⟩
        | ok handle =>
            rcases @checkSend_accounts (self.addPending place 1) place through handle outgoing.now
              with ⟨result, returned, accounts⟩ | waiting
            · exact .inl ⟨result, returned, counted.trans accounts, encodes⟩
            · dsimp only
              rw [waiting]
              exact .inr (.inr ⟨handle, rfl, counted, encodes, inside⟩)
  · rw [if_neg sendable]
    refine .inl ⟨false, rfl, .refl, ?_⟩
    rintro ⟨⟨link, found, open_⟩, -⟩
    exact sendable ((Option.any_eq_true _ _).mpr ⟨link, found, open_⟩)

theorem running_checkSend (place : ℕ) (handle now : ℤ) :
    (self.checkSend place handle now).1.running = self.running := by
  unfold checkSend
  split_ifs <;> rfl

theorem running_beginSend (place : ℕ) (outgoing : Outgoing) :
    (self.beginSend cbor builtins checksum place outgoing).1.running = self.running := by
  unfold beginSend
  split_ifs
  · dsimp only
    split
    · rfl
    · split
      · rfl
      · rw [running_checkSend]
        rfl
  · rfl

/-- **A send that has begun**: the link counts it as long as it waits, and if it raises. -/
theorem settle_beginSend (place : ℕ) (through : Option ℕ) (outgoing : Outgoing) :
    (¬ self.Raises cbor builtins checksum place outgoing ∧ Accounts self
      (settle place through (self.beginSend cbor builtins checksum place outgoing)).1
      place through 0 (-1)) ∨
    (self.Raises cbor builtins checksum place outgoing ∧ Accounts self
      (settle place through (self.beginSend cbor builtins checksum place outgoing)).1
      place through 1 0) := by
  have settled := @settle_accounts (self.beginSend cbor builtins checksum place outgoing).1 place
    through (self.beginSend cbor builtins checksum place outgoing).2
  rcases @beginSend_accounts self cbor builtins checksum place through outgoing with
    ⟨result, ended, accounts, encodes⟩ | ⟨e, ended, accounts, raises⟩ |
      ⟨handle, ended, accounts, encodes, -⟩
  · rw [Prod.mk.eta, ended] at settled
    exact .inl ⟨encodes, accounts.trans settled⟩
  · rw [Prod.mk.eta, ended] at settled
    exact .inr ⟨raises, accounts.trans settled⟩
  · rw [Prod.mk.eta, ended] at settled
    exact .inl ⟨encodes, accounts.trans settled⟩

/-- **A send that is resumed** is accounted for. -/
theorem settle_checkSend {k : ℕ} {sending : Sending} (found : self.running[k]? = some sending)
    (now : ℤ) : Accounts self (settle sending.link sending.through
      ((self.without k).checkSend sending.link sending.handle now)).1
      sending.link sending.through 0 0 := by
  have resumed := Accounts.without found
  rcases @checkSend_accounts (self.without k) sending.link sending.through sending.handle now with
    ⟨result, returned, accounts⟩ | waiting
  · have settled := @settle_accounts ((self.without k).checkSend sending.link sending.handle now).1
      sending.link sending.through
      ((self.without k).checkSend sending.link sending.handle now).2
    rw [Prod.mk.eta, returned] at settled
    exact (resumed.trans accounts).trans settled
  · rw [waiting]
    exact resumed.trans .wait

end Send

/-! ### Events -/

/-- Every send that waits is on a link that there is. -/
structure Ranged (state : SendState) : Prop where
  links : ∀ sending ∈ state.running, sending.link < state.links.length
  epochLinks : ∀ sending ∈ state.running, ∀ serial, sending.through = some serial →
    serial < state.epochLinks.length

/-- Nothing is counted beyond the sends that are running. -/
def Accounted (self : SendState) : Prop := ∀ q, self.surplus q = 0 ∧ self.epochSurplus q = 0

theorem balanced_iff_accounted : self.Balanced ↔ self.Accounted := by
  constructor
  · intro balanced q
    unfold surplus epochSurplus
    constructor
    · cases found : self.links[q]? with
      | none => rfl
      | some link => exact sub_eq_zero.mpr (balanced.links q link found)
    · cases found : self.epochLinks[q]? with
      | none => rfl
      | some link => exact sub_eq_zero.mpr (balanced.epochLinks q link found)
  · intro accounted
    have links : ∀ place (link : CommsLink), self.links[place]? = some link →
        link.pendingSends = self.runningOn place := by
      intro place link found
      have zero := (accounted place).1
      rw [surplus, found] at zero
      exact sub_eq_zero.mp zero
    refine ⟨links, fun serial link found => ?_, ?_⟩
    · have zero := (accounted serial).2
      rw [epochSurplus, found] at zero
      exact sub_eq_zero.mp zero
    · intro place link found none active unreferenced reaperDelay now quiet
      have zero : link.pendingSends = 0 := by
        rw [links place link found, none]
        rfl
      have disposable : link.disposable reaperDelay now = true := by
        rw [CommsLink.disposable, active, zero, unreferenced, quiet]
        rfl
      rw [CommsLink.reap, if_pos disposable]

namespace Accounts

variable {s s' : SendState} {place : ℕ} {through : Option ℕ} {d d' : ℤ}

theorem accounted (accounts : Accounts s s' place through 0 0) (before : s.Accounted) :
    s'.Accounted := by
  intro q
  rw [accounts.surplus, accounts.epochSurplus, (before q).1, (before q).2]
  simp

theorem not_accounted (accounts : Accounts s s' place through 1 d') (before : s.Accounted)
    (inside : place < s.links.length) : ¬ s'.Accounted := by
  intro after
  have one := (accounts.surplus place).symm.trans (after place).1
  rw [(before place).1, hits, if_pos ⟨rfl, inside⟩] at one
  omega

theorem not_accounted_through {serial : ℕ} (accounts : Accounts s s' place (some serial) d 1)
    (before : s.Accounted) (inside : serial < s.epochLinks.length) : ¬ s'.Accounted := by
  intro after
  have one := (accounts.epochSurplus serial).symm.trans (after serial).2
  rw [(before serial).2, hits, if_pos ⟨rfl, inside⟩] at one
  omega

/-- Without an `EpochLink` none is owed anything. -/
theorem direct (accounts : Accounts s s' place none d d') : Accounts s s' place none d 0 :=
  { accounts with
    epochSurplus := fun q => by
      rw [accounts.epochSurplus, hits_none]
      ring }

end Accounts

variable {cbor : Cbor2} {builtins : Builtins} {checksum : Checksum} {epochOf : ℕ → String}

theorem lt_of_raises {place : ℕ} {outgoing : Outgoing}
    (raises : self.Raises cbor builtins checksum place outgoing) : place < self.links.length := by
  obtain ⟨⟨link, found, -⟩, -⟩ := raises
  exact (List.getElem?_eq_some_iff.mp found).1

/-- What raises does not depend on the `EpochLink`s. -/
theorem raises_addEpochPending (through : Option ℕ) (d : ℤ) (place : ℕ) (outgoing : Outgoing) :
    (self.addEpochPending through d).Raises cbor builtins checksum place outgoing ↔
      self.Raises cbor builtins checksum place outgoing := by
  rw [Raises, links_addEpochPending]
  rfl

/-- **The start of a send through an `EpochLink`.** -/
theorem beginEpochSend_accounts (serial : ℕ) (link : EpochLink) (outgoing : Outgoing) :
    ((∃ e, inEpoch builtins epochOf link outgoing = .error e) ∧ Accounts self
      (self.beginEpochSend cbor builtins checksum epochOf serial link outgoing).1
      link.inner (some serial) 0 1) ∨
    ∃ message, inEpoch builtins epochOf link outgoing = .ok message ∧
      ((¬ self.Raises cbor builtins checksum link.inner { outgoing with message } ∧
        Accounts self (self.beginEpochSend cbor builtins checksum epochOf serial link outgoing).1
          link.inner (some serial) 0 0) ∨
      (self.Raises cbor builtins checksum link.inner { outgoing with message } ∧
        Accounts self (self.beginEpochSend cbor builtins checksum epochOf serial link outgoing).1
          link.inner (some serial) 1 1)) := by
  have counted : Accounts self (self.addEpochPending (some serial) 1) link.inner (some serial) 0 1 :=
    .addEpochPending
  unfold beginEpochSend
  dsimp only
  cases made : inEpoch builtins epochOf link outgoing with
  | error e => exact .inl ⟨⟨e, rfl⟩, counted⟩
  | ok message =>
      refine .inr ⟨message, rfl, ?_⟩
      have begun := @settle_beginSend (self.addEpochPending (some serial) 1) cbor builtins checksum
        link.inner (some serial) { outgoing with message }
      rw [raises_addEpochPending] at begun
      exact begun.imp (And.imp_right counted.trans) (And.imp_right counted.trans)

/-- A new link counts no sends, and none are running on it. -/
theorem surplus_append (ranged : self.Ranged) {link : CommsLink} (fresh : link.pendingSends = 0)
    (q : ℕ) : surplus { self with links := self.links ++ [link] } q = self.surplus q := by
  unfold surplus
  dsimp only
  by_cases inside : q < self.links.length
  · rw [List.getElem?_append_left inside]
    rfl
  · rw [List.getElem?_append_right (not_lt.mp inside),
      List.getElem?_eq_none_iff.mpr (not_lt.mp inside)]
    by_cases new : q = self.links.length
    · have idle : self.running.countP (·.link = q) = 0 := by
        refine List.countP_eq_zero.mpr fun sending mem => ?_
        rw [decide_eq_true_eq, new]
        exact (ranged.links sending mem).ne
      rw [new, Nat.sub_self]
      rw [new] at idle
      simp [runningOn, fresh, idle]
    · rw [List.getElem?_eq_none_iff.mpr (by rw [List.length_singleton]; omega)]
      rfl

theorem epochSurplus_append (ranged : self.Ranged) {link : PendingEpochLink}
    (fresh : link.pendingSends = 0) (q : ℕ) :
    epochSurplus { self with epochLinks := self.epochLinks ++ [link] } q =
      self.epochSurplus q := by
  unfold epochSurplus
  dsimp only
  by_cases inside : q < self.epochLinks.length
  · rw [List.getElem?_append_left inside]
    rfl
  · rw [List.getElem?_append_right (not_lt.mp inside),
      List.getElem?_eq_none_iff.mpr (not_lt.mp inside)]
    by_cases new : q = self.epochLinks.length
    · have idle : self.running.countP (·.through = some q) = 0 := by
        refine List.countP_eq_zero.mpr fun sending mem => ?_
        rw [decide_eq_true_eq, new]
        exact fun through => absurd (ranged.epochLinks sending mem _ through) (lt_irrefl _)
      rw [new, Nat.sub_self]
      rw [new] at idle
      simp [runningThrough, fresh, idle]
    · rw [List.getElem?_eq_none_iff.mpr (by rw [List.length_singleton]; omega)]
      rfl

/-- Links that keep their counts. -/
theorem surplus_map {f : CommsLink → CommsLink}
    (keeps : ∀ link, (f link).pendingSends = link.pendingSends) (q : ℕ) :
    surplus { self with links := self.links.map f } q = self.surplus q := by
  unfold surplus
  dsimp only
  rw [List.getElem?_map]
  cases self.links[q]? with
  | none => rfl
  | some link => exact congrArg (· - (self.runningOn q : ℤ)) (keeps link)

/-- **An event leaves a count behind or does not.** -/
theorem accounted_step (ranged : self.Ranged) (accounted : self.Accounted) (event : SendEvent) :
    (self.step cbor builtins checksum epochOf event).1.Accounted ↔
      ¬ self.Leaks cbor builtins checksum epochOf event := by
  have unchanged {place : ℕ} {f : CommsLink → CommsLink}
      (keeps : ∀ link, (f link).pendingSends = link.pendingSends + 0) (q : ℕ) :
      surplus { self with links := self.links.modify place f } q = 0 := by
    rw [surplus_modify place keeps, (accounted q).1]
    ring
  cases event with
  | creates linkId endpoints createTime =>
      refine iff_of_true (fun q => ⟨?_, (accounted q).2⟩) id
      exact (surplus_append ranged rfl q).trans (accounted q).1
  | changes place connectionStatus connectionId references =>
      refine iff_of_true (fun q => ⟨?_, (accounted q).2⟩) id
      refine unchanged (fun link => ?_) q
      exact (add_zero _).symm
  | wraps transport place =>
      refine iff_of_true ?_ id
      unfold step
      dsimp only
      split_ifs
      · refine fun q => ⟨unchanged (fun link => ?_) q, ?_⟩
        · exact (add_zero _).symm
        · exact (epochSurplus_append ranged rfl q).trans (accounted q).2
      · exact accounted
  | sends place outgoing =>
      rcases @settle_beginSend self cbor builtins checksum place none outgoing with
        ⟨encodes, accounts⟩ | ⟨raises, accounts⟩
      · exact iff_of_true (accounts.direct.accounted accounted) encodes
      · exact iff_of_false (accounts.not_accounted accounted (lt_of_raises raises))
          (not_not.mpr raises)
  | epochSends serial outgoing =>
      unfold step Leaks
      dsimp only
      cases found : self.epochLinks[serial]? with
      | none => exact iff_of_true accounted fun ⟨_, h, _⟩ => nomatch h
      | some link =>
          have inside := (List.getElem?_eq_some_iff.mp found).1
          rcases @beginEpochSend_accounts self cbor builtins checksum epochOf serial
              link.toEpochLink outgoing with
            ⟨unmade, accounts⟩ | ⟨message, made, ⟨encodes, accounts⟩ | ⟨raises, accounts⟩⟩
          · exact iff_of_false (accounts.not_accounted_through accounted inside)
              (not_not.mpr ⟨link, rfl, .inl unmade⟩)
          · refine iff_of_true (accounts.accounted accounted) ?_
            rintro ⟨link', same, ⟨e, unmade⟩ | ⟨message', made', raises⟩⟩
            · obtain rfl := Option.some.inj same
              exact nomatch made.symm.trans unmade
            · obtain rfl := Option.some.inj same
              obtain rfl := Except.ok.inj (made.symm.trans made')
              exact encodes raises
          · exact iff_of_false (accounts.not_accounted_through accounted inside)
              (not_not.mpr ⟨link, rfl, .inr ⟨message, made, raises⟩⟩)
  | packageStatus handle successful =>
      refine iff_of_true ?_ id
      cases successful <;> exact accounted
  | wakes k now =>
      refine iff_of_true ?_ id
      unfold step
      dsimp only
      cases found : self.running[k]? with
      | none => exact accounted
      | some sending => exact (settle_checkSend found now).accounted accounted
  | timesOut k =>
      refine iff_of_true ?_ id
      unfold step
      dsimp only
      cases found : self.running[k]? with
      | none => exact accounted
      | some sending =>
          have counted := (Accounts.without found).trans (Accounts.addPending (d := -1))
          exact (counted.trans (settle_accounts _ _ (.returned false))).accounted accounted
  | cancelled k =>
      unfold step Leaks
      dsimp only
      cases found : self.running[k]? with
      | none => exact iff_of_true accounted (not_lt.mpr (List.getElem?_eq_none_iff.mp found))
      | some sending =>
          have inside := ranged.links sending (List.mem_of_getElem? found)
          exact iff_of_false ((Accounts.without found).not_accounted accounted inside)
            (not_not.mpr (List.getElem?_eq_some_iff.mp found).1)
  | reaps reaperDelay now =>
      refine iff_of_true (fun q => ⟨?_, (accounted q).2⟩) id
      refine (surplus_map (fun link => ?_) q).trans (accounted q).1
      unfold CommsLink.reap
      split_ifs <;> rfl

namespace Ranged

variable {s s' : SendState}

/-- Fewer sends on more links. -/
theorem of_running (ranged : s.Ranged) (links : s.links.length ≤ s'.links.length)
    (epochLinks : s.epochLinks.length ≤ s'.epochLinks.length)
    (running : ∀ sending ∈ s'.running, sending ∈ s.running) : s'.Ranged :=
  ⟨fun sending mem => (ranged.links sending (running sending mem)).trans_le links,
    fun sending mem serial through =>
      (ranged.epochLinks sending (running sending mem) serial through).trans_le epochLinks⟩

theorem wait (ranged : s.Ranged) {sending : Sending} (link : sending.link < s.links.length)
    (through : ∀ serial, sending.through = some serial → serial < s.epochLinks.length) :
    Ranged { s with running := s.running ++ [sending] } := by
  constructor
  · intro other mem
    rcases List.mem_append.mp mem with mem | mem
    · exact ranged.links other mem
    · rwa [List.mem_singleton.mp mem]
  · intro other mem
    rcases List.mem_append.mp mem with mem | mem
    · exact ranged.epochLinks other mem
    · rwa [List.mem_singleton.mp mem]

theorem without (ranged : s.Ranged) (k : ℕ) : (s.without k).Ranged :=
  ranged.of_running le_rfl le_rfl fun _ mem => List.mem_of_mem_eraseIdx mem

theorem addEpochPending (ranged : s.Ranged) (through : Option ℕ) (d : ℤ) :
    (s.addEpochPending through d).Ranged := by
  refine ranged.of_running ?_ ?_ ?_
  · rw [links_addEpochPending]
  · rw [length_addEpochPending]
  · rw [running_addEpochPending]
    exact fun _ mem => mem

theorem settle (ranged : s.Ranged) {place : ℕ} {through : Option ℕ} {progress : Progress}
    (link : ∀ handle, progress = .waiting handle → place < s.links.length)
    (epochLink : ∀ serial, through = some serial → serial < s.epochLinks.length) :
    (SendState.settle place through (s, progress)).1.Ranged := by
  cases progress with
  | returned result => exact ranged.addEpochPending through (-1)
  | waiting handle => exact ranged.wait (link handle rfl) epochLink
  | _ => exact ranged

theorem beginSend (ranged : s.Ranged) (place : ℕ) (through : Option ℕ) (outgoing : Outgoing)
    (epochLink : ∀ serial, through = some serial → serial < s.epochLinks.length) :
    (SendState.settle place through
      (s.beginSend cbor builtins checksum place outgoing)).1.Ranged := by
  have kept {after : SendState} {d : ℤ} (accounts : Accounts s after place through d 0)
      (running : after.running = s.running) : after.Ranged :=
    ranged.of_running accounts.links.ge accounts.epochLinks.ge fun _ mem => by rwa [← running]
  have running := @running_beginSend s cbor builtins checksum place outgoing
  rcases @beginSend_accounts s cbor builtins checksum place through outgoing with
    ⟨result, ended, accounts, -⟩ | ⟨e, ended, accounts, -⟩ | ⟨handle, ended, accounts, -, inside⟩
  · refine settle (kept accounts running) (fun _ waiting => nomatch ended.symm.trans waiting) ?_
    rwa [accounts.epochLinks]
  · refine settle (kept accounts running) (fun _ waiting => nomatch ended.symm.trans waiting) ?_
    rwa [accounts.epochLinks]
  · refine settle (kept accounts running) (fun _ _ => inside.trans_le accounts.links.ge) ?_
    rwa [accounts.epochLinks]

theorem checkSend (ranged : s.Ranged) {k : ℕ} {sending : Sending}
    (found : s.running[k]? = some sending) (now : ℤ) :
    (SendState.settle sending.link sending.through
      ((s.without k).checkSend sending.link sending.handle now)).1.Ranged := by
  have mem := List.mem_of_getElem? found
  rcases @checkSend_accounts (s.without k) sending.link sending.through sending.handle now with
    ⟨result, returned, accounts⟩ | waiting
  · have kept : ((s.without k).checkSend sending.link sending.handle now).1.Ranged :=
      (ranged.without k).of_running accounts.links.ge accounts.epochLinks.ge fun _ mem => by
        rwa [running_checkSend] at mem
    refine settle kept (fun handle waiting => nomatch returned.symm.trans waiting) ?_
    rw [accounts.epochLinks]
    exact ranged.epochLinks sending mem
  · rw [waiting]
    exact settle (ranged.without k) (fun _ _ => ranged.links sending mem)
      (ranged.epochLinks sending mem)

end Ranged

/-- Every send that waits stays on a link that there is. -/
theorem ranged_step (ranged : self.Ranged) (event : SendEvent) :
    (self.step cbor builtins checksum epochOf event).1.Ranged := by
  cases event with
  | creates linkId endpoints createTime =>
      refine ranged.of_running ?_ le_rfl fun _ mem => mem
      exact (Nat.le_add_right _ _).trans_eq List.length_append.symm
  | changes place connectionStatus connectionId references =>
      exact ranged.of_running (List.length_modify _ _ _).ge le_rfl fun _ mem => mem
  | wraps transport place =>
      unfold step
      dsimp only
      split_ifs
      · refine ranged.of_running (List.length_modify _ _ _).ge ?_ fun _ mem => mem
        exact (Nat.le_add_right _ _).trans_eq List.length_append.symm
      · exact ranged
  | sends place outgoing => exact ranged.beginSend place none outgoing nofun
  | epochSends serial outgoing =>
      unfold step
      dsimp only
      cases found : self.epochLinks[serial]? with
      | none => exact ranged
      | some link =>
          have inside := (List.getElem?_eq_some_iff.mp found).1
          have counted := ranged.addEpochPending (some serial) 1
          dsimp only
          unfold beginEpochSend
          dsimp only
          split
          · exact counted
          · refine counted.beginSend _ _ _ fun serial' same => ?_
            obtain rfl := Option.some.inj same
            rwa [length_addEpochPending]
  | packageStatus handle successful =>
      cases successful <;> exact ranged.of_running le_rfl le_rfl fun _ mem => mem
  | wakes k now =>
      unfold step
      dsimp only
      cases found : self.running[k]? with
      | none => exact ranged
      | some sending => exact ranged.checkSend found now
  | timesOut k =>
      unfold step
      dsimp only
      cases found : self.running[k]? with
      | none => exact ranged
      | some sending =>
          have counted : ((self.without k).addPending sending.link (-1)).Ranged :=
            (ranged.without k).of_running (length_addPending _ _).ge le_rfl fun _ mem => mem
          exact counted.addEpochPending sending.through (-1)
  | cancelled k =>
      unfold step
      dsimp only
      cases found : self.running[k]? with
      | none => exact ranged
      | some sending => exact ranged.without k
  | reaps reaperDelay now =>
      exact ranged.of_running (List.length_map _).ge le_rfl fun _ mem => mem

end SendState

/-! ### Runs without a leak -/

/-- **When the counts are right.** In every run, every state has the right counts, and so has its
quiet and unreferenced links reaped, exactly if no send was cancelled while it waited and none
raised. -/
theorem balanced_iff (cbor : Cbor2) (builtins : Builtins) (checksum : Checksum)
    (epochOf : ℕ → String) (events : List SendEvent) :
    (sendMachine cbor builtins checksum epochOf).Admits
        (fun state _ event => (state.step cbor builtins checksum epochOf event).1.Balanced) events ↔
      (sendMachine cbor builtins checksum epochOf).Admits
        (fun state _ event => ¬ state.Leaks cbor builtins checksum epochOf event) events := by
  refine Machine.admits_iff_of_invariant _ (P := fun state _ => state.Ranged ∧ state.Accounted)
    ?_ ?_ ?_
  · exact ⟨⟨(fun _ mem => nomatch mem), (fun _ mem => nomatch mem)⟩, fun q => ⟨rfl, rfl⟩⟩
  · rintro state - event ⟨ranged, accounted⟩
    rw [SendState.balanced_iff_accounted]
    exact SendState.accounted_step ranged accounted event
  · rintro state - event ⟨ranged, accounted⟩ tight
    exact ⟨SendState.ranged_step ranged event,
      (SendState.accounted_step ranged accounted event).mpr tight⟩

/-- A link with an open connection and an `EpochLink`, and a send that is cancelled. -/
def exampleSends : List SendEvent :=
  [.creates "link" ["persona"] 0, .changes 0 .open (some "connection") [], .wraps 0 0,
    .epochSends 0 { message := .create 0 .lspFlood [], context := none, offset := 0,
                    now := 10 ^ 15, response := .ok 1 },
    .cancelled 0]

/-- The links once it is cancelled. -/
def exampleCancelled : SendState :=
  (((sendMachine Cbor.package Builtins.strict ⟨exampleSha, checksumBytes⟩ fun _ => "epoch").run
    (exampleSends.take 4)).1.step Cbor.package Builtins.strict ⟨exampleSha, checksumBytes⟩
      (fun _ => "epoch") (.cancelled 0)).1

/-- No send is running, but the link and the `EpochLink` count one. -/
theorem cancelled_send_counted :
    ¬ (sendMachine Cbor.package Builtins.strict ⟨exampleSha, checksumBytes⟩ fun _ => "epoch").Admits
      (fun state _ event => (state.step Cbor.package Builtins.strict ⟨exampleSha, checksumBytes⟩
        (fun _ => "epoch") event).1.Balanced) exampleSends := by
  intro admits
  have balanced : exampleCancelled.Balanced := admits (exampleSends.take 4) (.cancelled 0) [] rfl
  have counts : exampleCancelled.links.map (·.pendingSends) = [1] ∧
      exampleCancelled.epochLinks.map (·.pendingSends) = [1] ∧ exampleCancelled.running = [] := by
    decide +kernel
  obtain ⟨link, links, counted⟩ := List.map_eq_singleton_iff.mp counts.1
  have right := balanced.links 0 link (by rw [links]; rfl)
  rw [SendState.runningOn, counts.2.2, counted] at right
  cases right

end Prism.Transport
