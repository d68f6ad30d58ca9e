import Prism.Lib.Machine
import Prism.Routing.Network

/-!
Flooding (`prism/server/routing/router_ls.py`, `prism/server/routing/flood_db.py`).

The originator sends a message to all its neighbors with a hop count of zero. A router keeps
the smallest hop count that it has seen of every flood. A copy with a smaller one, or the
first copy, is handed over to the router itself and sent on to all neighbors but the one that
it came from, with the hop count increased, as long as that is within the limit.

* `FloodDB.update_accepts`, `FloodDB.update_ignores`: when a copy is accepted.
* `handleFlood_accepts`, `handleFlood_ignores`, `handleFlood_cases`: what a router does with a
  copy.
* `floodMachine`: the routers and the copies that are on the way between them.
-/

namespace Prism.Routing

open Prism.Lib

/-! ### One router -/

/-- What names a flood: its nonce, which a message may lack. -/
abbrev FloodId := Option Bytes

/-- An `LSP_FLOOD` message. -/
structure FloodMsg where
  hopCount : Option ℤ
  nonce : FloodId
  originator : Option Bytes
  microTimestamp : ℤ
  ttl : ℤ
  subMsg : Option PrismMessage
  sender : Option Bytes := none

/-- The flood in a message. Without its times, `validate_ttl` raises. -/
def FloodMsg.ofMessage (message : PrismMessage) : Py FloodMsg := do
  let microTimestamp ← asInt (message.get .microTimestamp)
  let ttl ← asInt (message.get .ttl)
  return {
    hopCount := (asInt (message.get .hopCount)).toOption
    nonce := (message.get .nonce).bytes?
    originator := (message.get .originator).bytes?
    microTimestamp
    ttl
    subMsg := PrismMessage.ofValue? (message.get .subMsg)
    sender := (message.get .sender).bytes? }

/-- `FloodDB`: the smallest hop counts by the floods. -/
abbrev FloodDB := List (FloodId × Option ℤ)

/-- `FloodDB.update`: whether the copy is accepted. A hop count that is missing is kept, and
cannot be compared. -/
def FloodDB.update (self : FloodDB) (floodId : FloodId) (hopCount : Option ℤ) :
    FloodDB × Py Bool :=
  match self.lookup floodId with
  | none => (dictSet self floodId hopCount, .ok true)
  | some seen =>
    match hopCount, seen with
    | some count, some least =>
      if count < least then (dictSet self floodId hopCount, .ok true) else (self, .ok false)
    | _, _ => (self, .error .typeError)

/-- The flood is new, or the hop count is smaller. -/
def FloodDB.News (self : FloodDB) (floodId : FloodId) (count : ℤ) : Prop :=
  ∀ seen, self.lookup floodId = some seen → ∃ least, seen = some least ∧ count < least

section Update

variable {self : FloodDB} {floodId : FloodId} {count : ℤ}

theorem FloodDB.update_accepts (news : self.News floodId count) :
    self.update floodId (some count) = (dictSet self floodId (some count), .ok true) := by
  unfold FloodDB.update
  rcases known : self.lookup floodId with _ | seen
  · rfl
  · obtain ⟨least, rfl, lt⟩ := news seen known
    exact if_pos lt

theorem FloodDB.update_ignores {least : ℤ} (known : self.lookup floodId = some (some least))
    (old : least ≤ count) : self.update floodId (some count) = (self, .ok false) := by
  unfold FloodDB.update
  rw [known]
  exact if_neg (not_lt.mpr old)

/-- Other floods are not touched. -/
theorem FloodDB.update_lookup (self : FloodDB) {floodId other : FloodId} (ne : floodId ≠ other)
    (hopCount : Option ℤ) : (self.update floodId hopCount).1.lookup other = self.lookup other := by
  have set : (dictSet self floodId hopCount).lookup other = self.lookup other := by
    rw [lookup_dictSet, if_neg ne.symm]
  unfold FloodDB.update
  rcases self.lookup floodId with _ | seen
  · exact set
  · rcases hopCount with _ | count <;> rcases seen with _ | least
    · rfl
    · rfl
    · rfl
    · dsimp only
      split_ifs
      · exact set
      · rfl

end Update

/-- An envelope for `*flood`: `sentTo` are the neighbors that need not get it. -/
structure FloodEnvelope where
  message : FloodMsg
  sentTo : List Bytes := []

/-- `tag_for`. -/
def FloodMsg.tagFor (pseudonym : Bytes) (message : FloodMsg) : FloodMsg :=
  { message with sender := some pseudonym }

/-- The copies that `send_flood_task` puts on the way: to every neighbor that has not got the
message, one for each link and each time that it is sent. The loop computes whom to send to
before it sleeps, and so it may send to a neighbor once more. -/
def sendFloodTask (pseudonym : Bytes) (neighbors : List Bytes) (copies : Bytes → ℕ)
    (envelope : FloodEnvelope) : List (Bytes × FloodMsg) :=
  (neighbors.filter fun target => target ∉ envelope.sentTo).flatMap fun target =>
    List.replicate (copies target) (target, envelope.message.tagFor pseudonym)

theorem mem_sendFloodTask {pseudonym : Bytes} {neighbors : List Bytes} {copies : Bytes → ℕ}
    {envelope : FloodEnvelope} {target : Bytes} {message : FloodMsg} :
    (target, message) ∈ sendFloodTask pseudonym neighbors copies envelope ↔
      target ∈ neighbors ∧ target ∉ envelope.sentTo ∧ copies target ≠ 0 ∧
        message = envelope.message.tagFor pseudonym := by
  simp only [sendFloodTask, List.mem_flatMap, List.mem_filter, decide_eq_true_eq,
    List.mem_replicate, Prod.mk.injEq]
  constructor
  · rintro ⟨other, ⟨mem, away⟩, some, rfl, rfl⟩
    exact ⟨mem, away, some, rfl⟩
  · rintro ⟨mem, away, some, rfl⟩
    exact ⟨target, ⟨mem, away⟩, some, rfl, rfl⟩

/-- What a router does with a copy: what it remembers, what it hands over to itself, and what
it sends on. -/
structure FloodHandled where
  db : FloodDB
  delivered : Option PrismMessage := none
  envelope : Option FloodEnvelope := none

section Handle

variable (lsHopsMax lsTtlMax now : ℤ)

/-- What a router sends on of a copy that it accepted. -/
def forwarded (message : FloodMsg) : Option FloodEnvelope :=
  match message.hopCount with
  | none => none
  | some count =>
    if count > lsHopsMax then none
    else some
      { message := { message with hopCount := some (count + 1) }
        sentTo := message.sender.toList }

/-- `handle_flood`: what raises on the way changes nothing more. -/
def handleFlood (db : FloodDB) (message : FloodMsg) : FloodHandled :=
  match validateTtl lsTtlMax now message.microTimestamp message.ttl with
  | none => { db }
  | some ttl =>
    match db.update message.nonce message.hopCount with
    | (db, .ok true) =>
      match message.subMsg with
      | none => { db }
      | some subMsg =>
        { db, delivered := some subMsg, envelope := forwarded lsHopsMax { message with ttl } }
    | (db, _) => { db }

variable {lsHopsMax lsTtlMax now} {db : FloodDB} {message : FloodMsg}

theorem handleFlood_accepts {count : ℤ} {subMsg : PrismMessage}
    (skew : message.microTimestamp ≤ now + 30 * 10 ^ 6) (hops : message.hopCount = some count)
    (content : message.subMsg = some subMsg) (news : db.News message.nonce count) :
    handleFlood lsHopsMax lsTtlMax now db message =
      { db := dictSet db message.nonce (some count)
        delivered := some subMsg
        envelope := forwarded lsHopsMax
          { message with ttl := max (min message.ttl lsTtlMax) 0 } } := by
  unfold handleFlood
  rw [validateTtl_isSome skew]
  dsimp only
  rw [hops, FloodDB.update_accepts news]
  dsimp only
  rw [content]

theorem handleFlood_ignores {count least : ℤ} (hops : message.hopCount = some count)
    (known : db.lookup message.nonce = some (some least)) (old : least ≤ count) :
    handleFlood lsHopsMax lsTtlMax now db message = { db } := by
  unfold handleFlood
  rcases validateTtl lsTtlMax now message.microTimestamp message.ttl with _ | ttl
  · rfl
  · dsimp only
    rw [hops, FloodDB.update_ignores known old]

/-- What is sent on has one hop more, within the limit. -/
theorem forwarded_some {envelope : FloodEnvelope}
    (passed : forwarded lsHopsMax message = some envelope) :
    ∃ count, message.hopCount = some count ∧ count ≤ lsHopsMax ∧ envelope =
      { message := { message with hopCount := some (count + 1) }
        sentTo := message.sender.toList } := by
  unfold forwarded at passed
  rcases hops : message.hopCount with _ | count
  · rw [hops] at passed
    cases passed
  · rw [hops] at passed
    dsimp only at passed
    split_ifs at passed with tooFar
    exact ⟨count, rfl, not_lt.mp tooFar, (Option.some.inj passed).symm⟩

/-- A router touches only the flood of the copy, and sends on only what it accepts. -/
theorem handleFlood_cases (lsHopsMax lsTtlMax now : ℤ) (db : FloodDB) (message : FloodMsg) :
    ((handleFlood lsHopsMax lsTtlMax now db message).db = db ∨
      (handleFlood lsHopsMax lsTtlMax now db message).db =
        (db.update message.nonce message.hopCount).1) ∧
    ∀ envelope, (handleFlood lsHopsMax lsTtlMax now db message).envelope = some envelope →
      ∃ ttl, forwarded lsHopsMax { message with ttl } = some envelope := by
  unfold handleFlood
  rcases validateTtl lsTtlMax now message.microTimestamp message.ttl with _ | ttl
  · exact ⟨.inl rfl, by rintro envelope ⟨⟩⟩
  · rcases db.update message.nonce message.hopCount with ⟨db', _ | _ | _⟩
    · exact ⟨.inr rfl, by rintro envelope ⟨⟩⟩
    · exact ⟨.inr rfl, by rintro envelope ⟨⟩⟩
    · rcases message.subMsg with _ | subMsg
      · exact ⟨.inr rfl, by rintro envelope ⟨⟩⟩
      · exact ⟨.inr rfl, fun envelope passed => ⟨ttl, passed⟩⟩

theorem handleFlood_lookup {nonce : FloodId} (other : message.nonce ≠ nonce) :
    (handleFlood lsHopsMax lsTtlMax now db message).db.lookup nonce = db.lookup nonce := by
  rcases (handleFlood_cases lsHopsMax lsTtlMax now db message).1 with same | updated
  · rw [same]
  · rw [updated, FloodDB.update_lookup db other]

end Handle

/-! ### All routers -/

/-- The routers and their neighbors. A send to a neighbor makes up to `copiesMax` copies. -/
structure FloodNet where
  routers : Finset Bytes
  neighbors : Bytes → List Bytes
  copiesMax : Bytes → Bytes → ℕ
  closed : ∀ u ∈ routers, ∀ v ∈ neighbors u, v ∈ routers

/-- The flood databases of the routers, the copies that are on their way, with the routers
that they go to, and the messages that routers handed over to themselves. -/
structure FloodState where
  db : Bytes → FloodDB
  flight : List (Bytes × FloodMsg) := []
  delivered : List (Bytes × PrismMessage) := []

/-- A router floods a message, or one of the copies on their way arrives. -/
inductive FloodEvent where
  | flood (originator : Bytes) (nonce : FloodId) (now ttl : ℤ) (message : PrismMessage)
      (copies : Bytes → ℕ)
  | deliver (place : ℕ) (now : ℤ) (copies : Bytes → ℕ)

/-- What an event did: the copy that arrived, if it was accepted, and the copies sent. -/
structure FloodOutput where
  received : Option (Bytes × FloodMsg) := none
  accepted : Bool := false
  sent : List (Bytes × FloodMsg) := []

namespace FloodNet

variable (net : FloodNet) (lsHopsMax lsTtlMax : ℤ)

/-- `flood`: the copies of a new message. -/
def floodSent (originator : Bytes) (nonce : FloodId) (now ttl : ℤ) (message : PrismMessage)
    (copies : Bytes → ℕ) : List (Bytes × FloodMsg) :=
  sendFloodTask originator (net.neighbors originator) copies
    { message :=
        { hopCount := some 0, nonce, originator, microTimestamp := now, ttl,
          subMsg := message } }

/-- A router floods a message, which it hands over to itself first. -/
def flood (originator : Bytes) (nonce : FloodId) (now ttl : ℤ) (message : PrismMessage)
    (copies : Bytes → ℕ) (self : FloodState) : FloodState × FloodOutput :=
  let sent := net.floodSent originator nonce now ttl message copies
  ({ self with
      flight := self.flight ++ sent
      delivered := self.delivered ++ [(originator, message)] }, { sent })

/-- The copies that a router sends on. -/
def passedOn (router : Bytes) (copies : Bytes → ℕ) (handled : FloodHandled) :
    List (Bytes × FloodMsg) :=
  match handled.envelope with
  | none => []
  | some envelope => sendFloodTask router (net.neighbors router) copies envelope

/-- A copy arrives at a router. -/
def receive (router : Bytes) (message : FloodMsg) (rest : List (Bytes × FloodMsg)) (now : ℤ)
    (copies : Bytes → ℕ) (self : FloodState) : FloodState × FloodOutput :=
  let handled := handleFlood lsHopsMax lsTtlMax now (self.db router) message
  let sent := net.passedOn router copies handled
  ({ db := Function.update self.db router handled.db
     flight := rest ++ sent
     delivered := self.delivered ++ (handled.delivered.map (router, ·)).toList },
    { received := some (router, message), accepted := handled.delivered.isSome, sent })

/-- One event. -/
def step (self : FloodState) : FloodEvent → FloodState × FloodOutput
  | .flood originator nonce now ttl message copies =>
    net.flood originator nonce now ttl message copies self
  | .deliver place now copies =>
    match self.flight[place]? with
    | none => (self, {})
    | some (router, message) =>
      net.receive lsHopsMax lsTtlMax router message (self.flight.eraseIdx place) now copies self

/-- **The routers**, from any state on. -/
def floodMachine (init : FloodState) : Machine FloodState FloodEvent FloodOutput where
  init
  step := net.step lsHopsMax lsTtlMax

end FloodNet

end Prism.Routing
