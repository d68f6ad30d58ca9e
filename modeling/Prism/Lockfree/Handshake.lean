import Mathlib.Data.List.OfFn
import Mathlib.Logic.Function.Basic
import Prism.Lockfree.DropboxRuns
import Prism.Lockfree.PeerMessages
import Prism.Lockfree.PreproductGroups
import Prism.Roles.Emix

/-!
The handshake of a committee (`handshake_task` and what goes with it in
`prism/server/CS2/roles/lockfree/mpc.py`).

A member says hello to every peer that has not acknowledged it since the member started, and
sends its half key along. A peer keeps the key, saves its committee and responds. From the
response on, messages to that peer are encrypted. Once a member knows enough keys, it tells its
peers that it is ready.

`Seating.committee` is the whole committee: its members, and all the messages that were ever sent
between them. Any of these may arrive at any time and any number of times, and members are
restarted at any time.
-/

namespace Prism.Lockfree

open Prism.Crypto Prism.Lib LockFreeDropbox

/-! ### A member -/

/-- The responses that a member gathers for an operation: how many it waits for, and those that
have come. -/
structure Gather where
  opId : Bytes
  count : ℕ
  responses : List PrismMessage := []

/-- How far `handshake_task` has come. -/
inductive Handshake where
  | sayHello
  | gatherHello (gather : Gather)
  | sayReady
  | gatherReady (gather : Gather)
  | asleep

/-- A member of a committee, with the party ids of the peers that have acknowledged a hello or
that it is ready since it started. -/
structure Member where
  life : Life := {}
  helloAcks : List ℤ := []
  readyAcks : List ℤ := []
  handshake : Handshake := .sayHello

/-- What one call of `send_to_peer` finds: the time, `mpc_lf_encrypt_peer`, and what is drawn at
random. -/
structure Sending (package : CryptoPackage) where
  now : ℤ
  encryptPeer : Bool
  fresh : Fresh package
  nonce : Bytes

/-- The members of a committee as they are formed. Every member lists all of them in the same
order, and the half key that a member tells is that of its private key. -/
structure Seating (package : CryptoPackage) where
  size : ℕ
  privateKey : Fin size → package.PrivateKey
  formation : Fin size → Formation
  partyId : ∀ i, (formation i).partyId = (i : ℕ)
  members : ∀ i, (formation i).members.map Prod.snd = List.ofFn fun j => (formation j).pseudonym
  distinct : ∀ i j, (formation i).pseudonym = (formation j).pseudonym → i = j
  nonempty : ∀ i, (formation i).pseudonym ≠ []
  key : ∀ i, toKey package (.object .halfKeyMap (formation i).halfKey.fields) =
    .ok (some (package.publicKey (privateKey i)))

/-- `ready`: enough peers have told their half keys. -/
def LockFreeDropbox.ready (self : LockFreeDropbox) (threshold : ℤ) : Bool :=
  preprocessingThreshold threshold ≤ (self.peers.filter (·.halfKey.isSome)).length

/-- A half key as an argument of a message. -/
def halfKeyArgument : Option HalfKey → Value
  | none => .none
  | some halfKey => .object .halfKeyMap halfKey.fields

/-- What `hello_op` reads from a message, after its assertions. -/
def readHello (message : PrismMessage) : Py (ℤ × HalfKey × Bytes) :=
  match message.get .partyId, message.get .sender, message.get .halfKey with
  | .none, _, _ | _, .none, _ | _, _, .none => .error .assertionError
  | .int partyId, .bytes sender, .object .halfKeyMap fields =>
    if typed : Value.hasFields fields ClassName.halfKeyMap.schema = true then
      .ok (partyId, ⟨fields, typed⟩, sender)
    else .error .typeError
  | _, _, _ => .error .typeError

/-- `MPCResponseHook.match`. -/
def Gather.matches (gather : Gather) (action : ActionEnum) (partyId : ℤ) (pseudonym : Bytes)
    (message : PrismMessage) : Bool :=
  match message.get .msgType, mpcField message .requestId, mpcField message .action with
  | .enum (.type .mpcResponse), .ok (.bytes requestId), .ok (.enum (.action messageAction)) =>
    (!(message.get .pseudonym).truthy || (message.get .pseudonym).bytes? = some pseudonym) &&
      (message.get .destPartyId).int? = some partyId && requestId = gather.opId &&
      messageAction = action
  | _, _, _ => false

namespace Member

/-- The peers that have not acknowledged. -/
def unacknowledged (member : Member) (acks : List ℤ) : List DropboxPeer :=
  member.life.memory.peers.filter fun peer => !peer.isLocal && peer.partyId ∉ acks

/-- The peers that have responded are marked. -/
def acknowledge (member : Member) (acks : List ℤ) (responses : List PrismMessage) : Py (List ℤ) :=
  responses.foldlM (fun acks response => do
    let peer ← peerAt member.life.memory.peers (response.get .partyId)
    return setAdd acks peer.partyId) acks

/-- What `say_hello` and `say_ready` do once the responses are gathered. -/
def gathered (member : Member) : Py Member :=
  match member.handshake with
  | .gatherHello gather => do
    let helloAcks ← member.acknowledge member.helloAcks gather.responses
    return { member with helloAcks, handshake := .sayReady }
  | .gatherReady gather => do
    let readyAcks ← member.acknowledge member.readyAcks gather.responses
    return { member with readyAcks, handshake := .asleep }
  | _ => .ok member

/-- `gather_responses`: one more response. -/
def gatherResponse (member : Member) (pseudonym : Bytes) (message : PrismMessage) : Py Member :=
  let gathers (action : ActionEnum) (gather : Gather) (handshake : Gather → Handshake) :=
    if gather.matches action member.life.memory.partyId pseudonym message then
      let gather := { gather with responses := gather.responses ++ [message] }
      let member := { member with handshake := handshake gather }
      if gather.count ≤ gather.responses.length then member.gathered else .ok member
    else .ok member
  match member.handshake with
  | .gatherHello gather => gathers .hello gather .gatherHello
  | .gatherReady gather => gathers .ready gather .gatherReady
  | _ => .ok member

section Member

variable {package : CryptoPackage} (cbor : Cbor2) (builtins : Builtins) (seating : Seating package)
  (threshold : ℤ) (i : Fin seating.size)

/-- An event at the dropbox of the member. -/
def act (member : Member) (event : Event) : Py Member :=
  match LockFreeDropbox.act cbor builtins (seating.formation i) member.life event with
  | (_, .raised e) => .error e
  | (life, _) => .ok { member with life }

/-- `send_to_peer`. -/
def sendTo (member : Member) (peer : DropboxPeer) (message : PrismMessage) (s : Sending package) :
    Py PrismMessage :=
  sendToPeer package cbor builtins s.now member.life.memory.partyId (seating.privateKey i)
    (peer.partyId ∈ member.helloAcks) s.encryptPeer peer message s.fresh s.nonce

/-- `say_hello`, up to the responses. -/
def sayHello (member : Member) (now : ℤ) (opId : Bytes) (sendings : ℤ → Sending package) :
    Py (Member × List PrismMessage) := do
  let peers := member.unacknowledged member.helloAcks
  if peers.isEmpty then return ({ member with handshake := .sayReady }, [])
  let memory := member.life.memory
  let localPeer ← peerAt memory.peers (.int memory.partyId)
  let hello := request now memory.partyId .hello opId
    [(.halfKey, halfKeyArgument localPeer.halfKey),
      (.sender, .bytes (seating.formation i).pseudonym)]
  let packets ← peers.mapM fun peer =>
    member.sendTo cbor builtins seating i peer hello (sendings peer.partyId)
  return ({ member with handshake := .gatherHello { opId, count := peers.length } }, packets)

/-- `say_ready`, up to the responses. -/
def sayReady (member : Member) (now : ℤ) (opId : Bytes) (sendings : ℤ → Sending package) :
    Py (Member × List PrismMessage) := do
  if !member.life.memory.ready threshold then return ({ member with handshake := .asleep }, [])
  let member ← member.act cbor builtins seating i .sayReady
  let peers := member.unacknowledged member.readyAcks
  if peers.isEmpty then return ({ member with handshake := .asleep }, [])
  let message := request now member.life.memory.partyId .ready opId []
  let packets ← peers.mapM fun peer =>
    member.sendTo cbor builtins seating i peer message (sendings peer.partyId)
  return ({ member with handshake := .gatherReady { opId, count := peers.length } }, packets)

/-- `handshake_task` goes on: it says hello or that it is ready, stops to wait for responses, or
wakes up. -/
def resume (member : Member) (now : ℤ) (opId : Bytes) (sendings : ℤ → Sending package) :
    Py (Member × List PrismMessage) :=
  match member.handshake with
  | .sayHello => member.sayHello cbor builtins seating i now opId sendings
  | .sayReady => member.sayReady cbor builtins seating threshold i now opId sendings
  | .gatherHello _ | .gatherReady _ => do return (← member.gathered, [])
  | .asleep => .ok ({ member with handshake := .sayHello }, [])

/-- The response to a request is sent. -/
def respond (member : Member) (message : PrismMessage) (s : Sending package) :
    Py (Member × List PrismMessage) := do
  let memory := member.life.memory
  let (peer, response) ← respondTo s.now memory.partyId memory.peers message
    [(.opSuccess, .bool true)]
  return (member, [← member.sendTo cbor builtins seating i peer response s])

/-- `hello_op`. -/
def helloOp (member : Member) (message : PrismMessage) (s : Sending package) :
    Py (Member × List PrismMessage) := do
  let (partyId, halfKey, sender) ← readHello message
  let member ← member.act cbor builtins seating i (.hello partyId halfKey sender)
  member.respond cbor builtins seating i message s

/-- `handle_ready`. -/
def handleReady (member : Member) (message : PrismMessage) (s : Sending package) :
    Py (Member × List PrismMessage) :=
  match message.get .partyId with
  | .int partyId => do
    let member ← member.act cbor builtins seating i (.ready partyId)
    member.respond cbor builtins seating i message s
  | _ => .error .typeError

/-- `mpc_op_task`, for the operations of the handshake. The others do not matter to it. -/
def mpcOpTask (member : Member) (message : PrismMessage) (s : Sending package) :
    Py (Member × List PrismMessage) := do
  match ← mpcField message .action with
  | .enum (.action .hello) => member.helloOp cbor builtins seating i message s
  | .enum (.action .ready) => member.handleReady cbor builtins seating i message s
  | _ => return (member, [])

/-- What the hooks of a member do with a message that is not encrypted. -/
def submit (member : Member) (message : PrismMessage) (s : Sending package) :
    Py (Member × List PrismMessage) := do
  let pseudonym := (seating.formation i).pseudonym
  if (Roles.MessageTypeHook.mk (some pseudonym) [.mpcRequest]).match message then
    match ← Roles.handlerMessage package cbor builtins s.now (seating.privateKey i) message with
    | some message => member.mpcOpTask cbor builtins seating i message s
    | none => return (member, [])
  else return (← member.gatherResponse pseudonym message, [])

/-- What the hooks of a member do with a message from the network. -/
def receive (member : Member) (message : PrismMessage) (s : Sending package) :
    Py (Member × List PrismMessage) := do
  let pseudonym := (seating.formation i).pseudonym
  if (Roles.MessageTypeHook.mk (some pseudonym) [.encryptPeerMessage]).match message then
    match ← Roles.handlerMessage package cbor builtins s.now (seating.privateKey i) message with
    | some message =>
      match ← handleEncPeer package cbor builtins s.now (seating.privateKey i)
          member.life.memory.peers message with
      | some decrypted => member.submit cbor builtins seating i decrypted s
      | none => return (member, [])
    | none => return (member, [])
  else member.submit cbor builtins seating i message s

end Member

end Member

/-! ### The committee -/

/-- A message of an operation other than the handshake, with arguments of the declared types. -/
structure Operation where
  sentAt : ℤ
  isRequest : Bool
  action : ActionEnum
  opId : Bytes
  kwargs : List (FieldName × Value)
  other : action ≠ .hello ∧ action ≠ .ready
  inMap : ∀ arg ∈ argumentsOf .mpcMap kwargs, argumentTyped .mpcMap arg = true
  inMessage : ∀ arg ∈ argumentsOf .prismMessage kwargs, argumentTyped .prismMessage arg = true
  noCiphertext : kwargs.lookup .ciphertext = none

/-- `request` and `response`. -/
def Operation.message (operation : Operation) (partyId : ℤ) : PrismMessage :=
  mpcMessage operation.sentAt partyId
    (if operation.isRequest then .mpcRequest else .mpcResponse)
    (.enum (.action operation.action)) (.bytes operation.opId) operation.kwargs

/-- The members, and all messages that were ever sent between them. -/
structure World (n : ℕ) where
  members : Fin n → Member
  packets : List PrismMessage := []

/-- What happens in a committee. A message may be traced on its way. The other events of a dropbox
are the work of its member; what they change before they raise stays. -/
inductive Move (package : CryptoPackage) (Context : Type) (n : ℕ) where
  | restart (i : Fin n) (now : ℤ)
  | resume (i : Fin n) (now : ℤ) (opId : Bytes) (sendings : ℤ → Sending package)
  | arrive (i : Fin n) (k : ℕ) (contexts : List Context) (s : Sending package)
  | send (i j : Fin n) (operation : Operation) (s : Sending package)
  | work (i : Fin n) (event : Event)

/-- The events of a dropbox that are no part of the handshake, and no restart. -/
def LockFreeDropbox.Event.isWork : Event → Bool
  | .hello .. | .sayReady | .ready _ | .restart _ => false
  | _ => true

namespace Seating

variable {package : CryptoPackage} {Context : Type} (cbor : Cbor2) (builtins : Builtins)
  (tracer : Tracer Context) (seating : Seating package) (threshold : ℤ)

/-- A message, traced by some contexts on its way. -/
def traced (now : ℤ) (message : PrismMessage) (contexts : List Context) : Py PrismMessage :=
  contexts.foldlM (fun message context =>
    injectSpanContext tracer builtins now message (some context)) message

/-- The member of a move, and what the move makes of it and sends. -/
def effect (w : World seating.size) (move : Move package Context seating.size) :
    Fin seating.size × Py (Member × List PrismMessage) :=
  match move with
  | .restart i now => (i, do
    let member ← Member.act cbor builtins seating i (w.members i) (.restart now)
    return ({ life := member.life }, []))
  | .resume i now opId sendings =>
    (i, (w.members i).resume cbor builtins seating threshold i now opId sendings)
  | .arrive i k contexts s => (i,
    match w.packets[k]? with
    | some packet => do
      (w.members i).receive cbor builtins seating i (← traced builtins tracer s.now packet contexts) s
    | none => .ok (w.members i, []))
  | .send i j operation s => (i, do
    let memory := (w.members i).life.memory
    let peer ← peerAt memory.peers (.int (j : ℕ))
    let packet ← (w.members i).sendTo cbor builtins seating i peer
      (operation.message memory.partyId) s
    return (w.members i, [packet]))
  | .work i event =>
    let member := w.members i
    let life := (LockFreeDropbox.act cbor builtins (seating.formation i) member.life event).1
    (i, .ok (if event.isWork then { member with life } else member, []))

/-- One move. Where it raises, nothing changes. -/
def step (w : World seating.size) (move : Move package Context seating.size) :
    World seating.size × Py Unit :=
  match seating.effect cbor builtins tracer threshold w move with
  | (i, .ok (member, packets)) =>
    (⟨Function.update w.members i member, w.packets ++ packets⟩, .ok ())
  | (_, .error e) => (w, .error e)

/-- A committee, from its formation on. -/
def committee (start : ℤ) :
    Machine (World seating.size) (Move package Context seating.size) (Py Unit) where
  init := ⟨fun i => { life := (LockFreeDropbox.life cbor builtins (seating.formation i) start).init }, []⟩
  step := seating.step cbor builtins tracer threshold

end Seating

end Prism.Lockfree
