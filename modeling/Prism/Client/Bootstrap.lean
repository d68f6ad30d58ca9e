import Mathlib.Logic.Function.Basic
import Prism.Client.UserMessages
import Prism.Lib.Machine
import Prism.Vrf.Committees

/-!
How a new client gets its private key (`bootstrap_task` and what goes with it in
`prism/client/client.py`, and `prism/server/CS2/roles/client_registration.py`).

A new client has the public parameters, but no private key. It asks every server of the registration
committee, each of which has one shard of the system. A request carries a nonce, which is another
one for each server, and a half key. The server answers with the private key that its shard has for
the name of the client, encrypted for the half key, and notes down the nonce: requests for the same
name with another nonce are not answered any more. When the client has an answer of every server, it
adds them up. Until then the user messages that arrive are queued.

A clear text that is accepted is sent any number of times, at any time (`Prism.Client.SendTask`), and
is delivered to the client with the name it is sent to. Whether a deduplicator takes it for new
(`Prism.Client.MessageDeduplicator`) is part of the move.

* `registrar`: a server of the committee, and everything that anybody may tell it.
* `Bootstrap.network`: new clients, the committee, and what was sent between them.
-/

namespace Prism.Client

open Bfibe Bfibe.BFPublicParameters Config Crypto Lib

namespace Bootstrap

section

variable {G T : Type} [AddCommGroup G] [CommGroup T] {pbc : Pbc G T} {package : CryptoPackage}
  {SpanContext : Type} (cbor : Cbor2) (builtins : Builtins)

/-! ### Messages of the protocol -/

/-- What a request or a response is made with: a new key pair, nonces, and the times. -/
structure ResponseDraws (package : CryptoPackage) where
  fresh : Fresh package
  clearNonce : Bytes
  timestamp : ℤ

/-- The request of `send_bootstrap_request`. -/
def bootstrapRequest (now : ℤ) (name : String) (nonce : Bytes) (halfKey : package.PrivateKey) :
    Py PrismMessage := do
  let halfKey ← fromKey package builtins (package.publicKey halfKey)
  return PrismMessage.create now .clientRegistrationRequest
    [(.name, .str name), (.nonce, .bytes nonce), (.halfKey, halfKey)]

/-- The clear text of `send_bootstrap_request`. -/
def bootstrapClearText (now : ℤ) (name serverName : String) (nonce : Bytes)
    (halfKey : package.PrivateKey) (clearNonce : Bytes) (timestamp : ℤ) :
    Py (ClearText SpanContext) := do
  let innerRequest ← bootstrapRequest builtins now name nonce halfKey
  return {
    receiver := serverName
    sender := some name
    messageBytes := some (← innerRequest.encode cbor)
    nonce := some clearNonce
    timestamp := some timestamp }

/-! ### A server of the committee -/

/-- `ClientRegistration`: its name and its shard. -/
structure ClientRegistration (pbc : Pbc G T) where
  name : String
  ibe : BonehFranklin pbc

/-- `distributed_keys`: the nonce for which a name was registered. -/
abbrev DistributedKeys := List (String × Option Bytes)

/-- `authorize`. -/
def authorize (distributedKeys : DistributedKeys) (request : PrismMessage) : Bool :=
  match (request.get .name).text? with
  | none => true
  | some name =>
    match distributedKeys.lookup name with
    | none => true
    | some nonce => (request.get .nonce).bytes? = nonce

/-- The response that is encrypted, with the key of the shard for a name. -/
def registrationResponse (self : ClientRegistration pbc) (now : ℤ) (clientName : String)
    (nonce : Value) : PrismMessage :=
  PrismMessage.create now .clientRegistrationResponse
    [(.name, .str self.name), (.nonce, nonce),
      (.messagetext, .str (String.ofList
        (self.ibe.params.generatePrivateKey self.ibe.secret (utf8 clientName))))]

/-- `register_client`: what is noted down, and the clear text that is sent. -/
def registerClient (self : ClientRegistration pbc) (distributedKeys : DistributedKeys)
    (request : PrismMessage) (draws : ResponseDraws package) :
    Py (DistributedKeys × ClearText SpanContext) :=
  match (request.get .name).text? with
  | none => .error .attributeError
  | some clientName => do
    match ← toKey package (request.get .halfKey) with
    | none => .error .attributeError
    | some clientHalfKey =>
      let fresh := draws.fresh
      let innerResponse := registrationResponse self fresh.now clientName (request.get .nonce)
      let encryptedResponse ←
        encrypt package cbor innerResponse fresh.privateKey clientHalfKey fresh.nonce
      let response := PrismMessage.create fresh.now .encryptRegistrationMessage
        [(.cipher, .enum (.cipher .aesGcm)), (.ciphertext, .bytes encryptedResponse),
          (.nonce, .bytes fresh.nonce),
          (.halfKey, ← fromKey package builtins (package.publicKey fresh.privateKey))]
      return (dictSet distributedKeys clientName (request.get .nonce).bytes?, {
        receiver := clientName
        sender := some self.name
        messageBytes := some (← response.encode cbor)
        nonce := some draws.clearNonce
        timestamp := some draws.timestamp
        useIbe := false })

/-- `message_received`: what is noted down afterwards, and what is to be sent. What is raised is
caught where user messages are processed. -/
def messageReceived (self : ClientRegistration pbc) (distributedKeys : DistributedKeys)
    (cleartext : ClearText SpanContext) (draws : ResponseDraws package) :
    DistributedKeys × Option (ClearText SpanContext) :=
  match cleartext.messageBytes.map (PrismMessage.decode cbor builtins draws.fresh.now) with
  | some (.ok (some request)) =>
    match request.get .msgType with
    | .enum (.type .clientRegistrationRequest) =>
      if authorize distributedKeys request then
        match registerClient cbor builtins self distributedKeys request draws with
        | .ok (distributedKeys, response) => (distributedKeys, some response)
        | .error _ => (distributedKeys, none)
      else (distributedKeys, none)
    | _ => (distributedKeys, none)
  | _ => (distributedKeys, none)

/-- A server of the committee, with all that it is told. -/
def registrar (self : ClientRegistration pbc) (known : DistributedKeys) :
    Machine DistributedKeys (ClearText SpanContext × ResponseDraws package)
      (Option (ClearText SpanContext)) where
  init := known
  step distributedKeys event := messageReceived cbor builtins self distributedKeys event.1 event.2

/-! ### A client -/

/-- A `PrismClient`, new or of a server of the committee. -/
structure PrismClient (G SpanContext : Type) where
  key : Option G
  registrationKeys : List (String × String) := []
  encryptedMessageQueue : List PrismMessage := []
  sendLog : List (ClearText SpanContext) := []
  messageStore : List (ClearText SpanContext) := []

/-- What a `PrismClient` is configured with, and what `bootstrap_task` draws: a half key and a nonce
for each server. -/
structure ClientConfig (package : CryptoPackage) where
  name : String
  maxPlaintextSize : ℕ
  registrationHalfkey : Option package.PrivateKey
  registrationNonces : List (String × Bytes)

/-- The answers of the two deduplicators, and the time. -/
structure Arrival where
  newMessage : Bool
  newNonce : Bool
  now : ℤ

section Client

variable [DecidableEq G] (tracer : Tracer SpanContext) (config : ClientConfig package)
  (system : BFPublicParameters pbc)

namespace PrismClient

/-- `self.ibe`. -/
def ibe (self : PrismClient G SpanContext) : UserIBE pbc := ⟨system, self.key⟩

/-- `process_clear_text`. -/
def processClearText (self : PrismClient G SpanContext) (clear : ClearText SpanContext) :
    PrismClient G SpanContext :=
  if config.maxPlaintextSize < clear.length then self
  else { self with
    sendLog := self.sendLog ++ [clear]
    messageStore := self.messageStore ++ [clear] }

/-- `process_encrypted_user_message`, and the clear text that the delegate gets. What is raised is
caught. -/
def processEncryptedUserMessage (self : PrismClient G SpanContext) (arrival : Arrival)
    (message : PrismMessage) : PrismClient G SpanContext × Option (ClearText SpanContext) :=
  match decryptUserMessage package cbor builtins tracer arrival.now (self.ibe system) message with
  | .ok (some inner) =>
    match ClearText.fromPrism tracer inner config.name with
    | .ok clear =>
      if arrival.newNonce then
        ({ self with messageStore := self.messageStore ++ [clear] }, some clear)
      else (self, none)
    | .error _ => (self, none)
  | _ => (self, none)

/-- `load_private_keys`. -/
def loadPrivateKeys (pbc : Pbc G T) : List String → Py G
  | [] => .error .typeError
  | first :: rest =>
    .ok (parsePrivateKey pbc (sumSecrets pbc first.toList (rest.map String.toList)))

/-- `process_encrypted_registration_message`. Without a half key nothing is decrypted. -/
def processEncryptedRegistrationMessage (pbc : Pbc G T) (self : PrismClient G SpanContext)
    (now : ℤ) (message : PrismMessage) : Py (PrismClient G SpanContext) :=
  match config.registrationHalfkey with
  | none => .error .attributeError
  | some halfkey => do
    match ← decrypt package cbor builtins now message halfkey none with
    | none => .error .attributeError
    | some innerResponse =>
      match innerResponse.get .msgType, (innerResponse.get .messagetext).text?,
        (innerResponse.get .name).text? with
      | .enum (.type .clientRegistrationResponse), some messagetext, some name =>
        match config.registrationNonces.lookup name with
        | none => .error .keyError
        | some nonce =>
          if (innerResponse.get .nonce).bytes? = some nonce then
            let registrationKeys := dictSet self.registrationKeys name messagetext
            if registrationKeys.length = config.registrationNonces.length then
              let key ← loadPrivateKeys pbc (registrationKeys.map Prod.snd)
              return { self with registrationKeys, key := some key }
            else return { self with registrationKeys }
          else .error .assertionError
      | .enum (.type .clientRegistrationResponse), some _, none => .error .keyError
      | _, _, _ => .error .assertionError

/-- `process_message`, of the types that matter to a bootstrap. -/
def processMessage (self : PrismClient G SpanContext) (arrival : Arrival) (message : PrismMessage) :
    Py (PrismClient G SpanContext × Option (ClearText SpanContext)) :=
  if arrival.newMessage then
    match message.get .msgType with
    | .enum (.type .encryptUserMessage) =>
      if self.key.isSome then
        .ok (self.processEncryptedUserMessage cbor builtins tracer config system arrival message)
      else
        .ok ({ self with encryptedMessageQueue := self.encryptedMessageQueue ++ [message] }, none)
    | .enum (.type .encryptRegistrationMessage) => do
      return (← self.processEncryptedRegistrationMessage cbor builtins config pbc arrival.now
        message, none)
    | _ => .ok (self, none)
  else .ok (self, none)

variable (package) in
/-- The message that `wrap_message` makes of a clear text for a dropbox. -/
def wrapClearText (self : PrismClient G SpanContext) (clear : ClearText SpanContext)
    (draws : UserDraws system.security.hashlen) : Py (Option PrismMessage) :=
  if clear.useIbe then
    some <$> encryptUserMessage package cbor (self.ibe system) clear.receiver clear.toPrism draws
  else
    match clear.messageBytes with
    | some data => PrismMessage.decode cbor builtins draws.now data
    | none => .error .typeError

end PrismClient

end Client

end

/-! ### The committee and its clients -/

section

variable {G T : Type} [AddCommGroup G] [CommGroup T]

/-- The name of a server of a committee. -/
def serverName (committeeName : String) (i : ℕ) : String :=
  committeeName ++ "-" ++ Nat.repr (i + 1)

/-- A registration committee and the clients that bootstrap from it. There is a server for each shard
of the system that was created; all load its public parameters, and each server is configured with
the private key for its name. The bytes of an element fit an `int`. -/
structure Committee (pbc : Pbc G T) (package : CryptoPackage) (ssl : OpenSsl) (gmp : SecretText)
    where
  ibe : GeneratedIBE pbc
  created : ∃ (_ : DecidableEq G) (shards : ℕ) (level : ℤ) (draws : SystemDraws pbc)
    (file : GeneratedIBE.PathFile),
      GeneratedIBE.create ssl gmp (some none) shards level draws = .ok (ibe, file)
  publicParams : CString
  publicParams_eq : ibe.publicParams = some publicParams
  system : BFPublicParameters pbc
  system_eq : UserIBE.load ssl none publicParams = .ok ⟨system, none⟩
  committeeName : String
  serverKey : Fin ibe.ibeShards.length → G
  serverKey_eq : ∀ i : Fin ibe.ibeShards.length, ∃ text,
    ibe.privateKey (utf8 (serverName committeeName i)) = .ok text ∧
      UserIBE.load ssl (some text) publicParams = .ok ⟨system, some (serverKey i)⟩
  clients : ℕ
  clientName : Fin clients → String
  halfkey : Fin clients → package.PrivateKey
  nonce : Fin clients → Fin ibe.ibeShards.length → Bytes
  distinct : Function.Injective clientName
  apart : ∀ c (i : Fin ibe.ibeShards.length), clientName c ≠ serverName committeeName i
  maxPlaintextSize : ℕ
  short : ∀ P, (pbc.elementToBytes P).length < 2 ^ 30

namespace Committee

variable {pbc : Pbc G T} {package : CryptoPackage} {ssl : OpenSsl} {gmp : SecretText}
  (committee : Committee pbc package ssl gmp)

/-- A server, by its index. -/
abbrev Server : Type := Fin committee.ibe.ibeShards.length

/-- A client or a server. -/
abbrev Party : Type := Fin committee.clients ⊕ committee.Server

def server (i : committee.Server) : String := serverName committee.committeeName i

def name : committee.Party → String
  | .inl c => committee.clientName c
  | .inr i => committee.server i

/-- The shard of a server. -/
def registration (i : committee.Server) : ClientRegistration pbc :=
  ⟨committee.server i, committee.ibe.ibeShards.get i⟩

def config : committee.Party → ClientConfig package
  | .inl c => {
      name := committee.clientName c
      maxPlaintextSize := committee.maxPlaintextSize
      registrationHalfkey := some (committee.halfkey c)
      registrationNonces := List.ofFn fun i => (committee.server i, committee.nonce c i) }
  | .inr i => {
      name := committee.server i
      maxPlaintextSize := committee.maxPlaintextSize
      registrationHalfkey := none
      registrationNonces := [] }

end Committee

/-- The clients and servers, and all messages that were ever sent, with the names they were sent
to. -/
structure World {pbc : Pbc G T} {package : CryptoPackage} {ssl : OpenSsl} {gmp : SecretText}
    (committee : Committee pbc package ssl gmp) (SpanContext : Type) where
  party : committee.Party → PrismClient G SpanContext
  distributedKeys : committee.Server → DistributedKeys
  packets : List (String × PrismMessage) := []

variable {pbc : Pbc G T} {package : CryptoPackage} {ssl : OpenSsl} {gmp : SecretText}
  {SpanContext : Type}

/-- What happens: a client asks a server, a user says something, a clear text is sent, a message
arrives after it was traced on its way, or a queued message is processed. -/
inductive Move (committee : Committee pbc package ssl gmp) (SpanContext : Type) where
  | request (c : Fin committee.clients) (i : committee.Server) (now : ℤ) (clearNonce : Bytes)
    (timestamp : ℤ)
  | say (c : Fin committee.clients) (receiver text : String) (nonce : Bytes) (timestamp : ℤ)
  | send (party : committee.Party) (k : ℕ) (draws : UserDraws committee.system.security.hashlen)
  | arrive (party : committee.Party) (k : ℕ) (contexts : List SpanContext) (arrival : Arrival)
    (draws : ResponseDraws package)
  | readQueue (c : Fin committee.clients) (k : ℕ) (arrival : Arrival)

section Network

variable [DecidableEq G] (cbor : Cbor2) (builtins : Builtins) (tracer : Tracer SpanContext)
  (committee : Committee pbc package ssl gmp)

/-- One client is another one. -/
def World.set (w : World committee SpanContext) (party : committee.Party)
    (client : PrismClient G SpanContext) : World committee SpanContext :=
  { w with party := Function.update w.party party client }

/-- What a party does with a message. A server tells its `ClientRegistration` of clear texts. -/
def receive (w : World committee SpanContext) (party : committee.Party) (arrival : Arrival)
    (draws : ResponseDraws package) (message : PrismMessage) :
    Py (World committee SpanContext) := do
  let config := committee.config party
  let (client, delivered) ←
    (w.party party).processMessage cbor builtins tracer config committee.system arrival message
  match party, delivered with
  | .inr i, some cleartext =>
    let (distributedKeys, response) := messageReceived cbor builtins (committee.registration i)
      (w.distributedKeys i) cleartext draws
    let client := response.elim client (client.processClearText config)
    return { w.set committee (.inr i) client with
      distributedKeys := Function.update w.distributedKeys i distributedKeys }
  | party, _ => return w.set committee party client

/-- What a move makes of the world. -/
def effect (w : World committee SpanContext) (move : Move committee SpanContext) :
    Py (World committee SpanContext) :=
  match move with
  | .request c i now clearNonce timestamp =>
    let client := w.party (.inl c)
    if client.key.isSome ∨ committee.server i ∈ client.registrationKeys.map Prod.fst then .ok w
    else do
      let clear ← bootstrapClearText cbor builtins now (committee.clientName c)
        (committee.server i) (committee.nonce c i) (committee.halfkey c) clearNonce timestamp
      return w.set committee (.inl c) (client.processClearText (committee.config (.inl c)) clear)
  | .say c receiver text nonce timestamp =>
    let clear : ClearText SpanContext :=
      { receiver, sender := some (committee.clientName c), message := some text,
        nonce := some nonce, timestamp := some timestamp }
    .ok (w.set committee (.inl c)
      ((w.party (.inl c)).processClearText (committee.config (.inl c)) clear))
  | .send party k draws =>
    match (w.party party).sendLog[k]? with
    | some clear => do
      match ← (w.party party).wrapClearText package cbor builtins committee.system clear draws with
      | some packet => return { w with packets := w.packets ++ [(clear.receiver, packet)] }
      | none => .error .attributeError
    | none => .ok w
  | .arrive party k contexts arrival draws =>
    match w.packets[k]? with
    | some (receiver, packet) =>
      if receiver = committee.name party then do
        let message ← contexts.foldlM (fun message context =>
          injectSpanContext tracer builtins arrival.now message (some context)) packet
        receive cbor builtins tracer committee w party arrival draws message
      else .ok w
    | none => .ok w
  | .readQueue c k arrival =>
    let client := w.party (.inl c)
    match client.encryptedMessageQueue[k]? with
    | some message =>
      if client.key.isSome then
        .ok (w.set committee (.inl c) (client.processEncryptedUserMessage cbor builtins tracer
          (committee.config (.inl c)) committee.system arrival message).1)
      else .ok w
    | none => .ok w

/-- The network, where the servers may know some names from before. -/
def network (known : committee.Server → DistributedKeys) :
    Machine (World committee SpanContext) (Move committee SpanContext) (Py Unit) where
  init := {
    party := Sum.elim (fun _ => { key := none }) fun i => { key := some (committee.serverKey i) }
    distributedKeys := known }
  step w move :=
    match effect cbor builtins tracer committee w move with
    | .ok w => (w, .ok ())
    | .error e => (w, .error e)

end Network

end

end Bootstrap

end Prism.Client
