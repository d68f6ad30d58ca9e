import Prism.Message.Cbor
import Prism.Roles.Emix

/-!
Onion routing (`MessageRoute` in `prism/client/routing.py`, `emix_forward` in
`prism/common/message_utils.py`).

A client wraps a message for a dropbox in one layer for each Emix of its route, from the last one
to the first. Each Emix takes off its own layer, which shows it nothing but the address of the
next server, and hands what is inside to its router.

* `onion_delivers`: the message arrives at the dropbox as it was, over the Emixes of the route in
  their order, and no Emix reads a pseudonym but that of its successor.
-/

namespace Prism.Client

open Crypto Roles

/-! ### Wrapping -/

section Wrap

variable (package : CryptoPackage) (cbor : Cbor2) (builtins : Builtins)

/-- What is drawn for a layer: the values of its encryption, and the time at which the message
inside is made. -/
structure Layer (package : CryptoPackage) extends Fresh package where
  made : ℤ

/-- The type of a message that an Emix sends to a server. -/
def forwardType (target : ServerRecord) : TypeEnum :=
  match target.ark.get .role with
  | .str role =>
    if role ∈ emixRoles then .sendToEmix
    else if role ∈ dropboxRoles then .sendToDropbox
    else .sendToEmix
  | _ => .sendToEmix

/-- The message inside a layer. -/
def layerMessage (target : ServerRecord) (message : PrismMessage) (made : ℤ) : PrismMessage :=
  PrismMessage.create made (forwardType target) [(.subMsg, message.toValue), (.hopCount, .int 1)]

/-- `emix_forward`. -/
def emixForward (emix target : ServerRecord) (message : PrismMessage) (layer : Layer package) :
    Py PrismMessage :=
  encryptMessage package cbor builtins emix (layerMessage target message layer.made) none true
    layer.toFresh

/-- A route: the Emixes in order, the server at the end, and the time at which it was found. -/
structure MessageRoute (Server : Type) where
  route : List Server
  target : Server
  timestamp : ℤ

/-- The loop of `wrap`: the message so far, and the server that it is for. -/
def MessageRoute.wrapLoop (self : MessageRoute ServerRecord) (layers : ℕ → Layer package)
    (message : PrismMessage) : Py (PrismMessage × ServerRecord) :=
  self.route.reverse.zipIdx.foldlM (fun (message, target) (emix, k) => do
    return (← emixForward package cbor builtins emix target message (layers k), emix))
    (message, self.target)

/-- `MessageRoute.wrap`. -/
def MessageRoute.wrap (self : MessageRoute ServerRecord) (layers : ℕ → Layer package)
    (message : PrismMessage) : Py PrismMessage :=
  Prod.fst <$> self.wrapLoop package cbor builtins layers message

/-- The layer of the first Emix is put on last. -/
theorem MessageRoute.wrapLoop_cons (emix : ServerRecord) (route : List ServerRecord)
    (target : ServerRecord) (timestamp : ℤ) (layers : ℕ → Layer package)
    (message : PrismMessage) :
    wrapLoop package cbor builtins ⟨emix :: route, target, timestamp⟩ layers message = do
      let (inner, next) ← wrapLoop package cbor builtins ⟨route, target, timestamp⟩ layers message
      return (← emixForward package cbor builtins emix next inner (layers route.length), emix) := by
  have reversed : (emix :: route).reverse.zipIdx =
      route.reverse.zipIdx ++ [(emix, route.length)] := by
    rw [List.reverse_cons, List.zipIdx_append, List.length_reverse]
    simp
  simp only [wrapLoop, reversed, List.foldlM_append, List.foldlM_cons, List.foldlM_nil, bind_pure]

end Wrap

/-! ### Byte strings in the clear -/

/-- The fields that hold what encryption makes. -/
def encryptionFields : List FieldName := [.ciphertext, .halfKey, .nonce]

mutual

/-- The byte strings that can be read in a value, at any depth, besides what encryption makes. -/
def clear : Value → List Bytes
  | .bytes bs => [bs]
  | .list xs => clearItems xs
  | .tuple xs => clearItems xs
  | .dict entries => clearEntries entries
  | .object c fields => clearFields fields c.schema
  | _ => []

def clearItems : List Value → List Bytes
  | [] => []
  | x :: xs => clear x ++ clearItems xs

def clearEntries : List (ℤ × Value) → List Bytes
  | [] => []
  | (_, x) :: entries => clear x ++ clearEntries entries

def clearFields : List Value → List FieldInfo → List Bytes
  | x :: xs, info :: infos =>
      (if info.name ∈ encryptionFields then [] else clear x) ++ clearFields xs infos
  | _, _ => []

end

/-- A byte string in the clear stands in some field. -/
theorem mem_clearFields {infos : List FieldInfo} {g : FieldInfo → Value} {bs : Bytes}
    (mem : bs ∈ clearFields (infos.map g) infos) :
    ∃ info ∈ infos, info.name ∉ encryptionFields ∧ bs ∈ clear (g info) := by
  induction infos with
  | nil => cases mem
  | cons info infos ih =>
      rw [List.map_cons, clearFields, List.mem_append] at mem
      rcases mem with here | later
      · split_ifs at here with hidden
        · cases here
        · exact ⟨info, List.mem_cons_self, hidden, here⟩
      · obtain ⟨other, inside, rest⟩ := ih later
        exact ⟨other, List.mem_cons_of_mem _ inside, rest⟩

/-- **What can be read in a new message** stands in an argument of its constructor. -/
theorem mem_clear_create {now : ℤ} {msgType : TypeEnum} {kwargs : List (FieldName × Value)}
    {bs : Bytes} (mem : bs ∈ clear (PrismMessage.create now msgType kwargs).toValue) :
    ∃ arg ∈ kwargs, arg.1 ∉ encryptionFields ∧ bs ∈ clear arg.2 := by
  rw [PrismMessage.toValue, clear, PrismMessage.create, initFields] at mem
  obtain ⟨info, -, visible, here⟩ := mem_clearFields mem
  cases given : ((FieldName.msgType, Value.enum (.type msgType)) :: kwargs).lookup info.name with
  | none =>
      rw [given] at here
      exfalso
      cases default : info.default <;> simp [Value.initField, default, clear] at here
  | some v =>
      rw [given] at here
      have value : bs ∈ clear v := by
        cases default : info.default with
        | fixed n => simp [Value.initField, default, clear] at here
        | _ => simpa [Value.initField, default] using here
      obtain ⟨before, after, split, -⟩ := List.lookup_eq_some_iff.mp given
      have arg : (info.name, v) ∈ (FieldName.msgType, Value.enum (.type msgType)) :: kwargs := by
        rw [split]
        simp
      rcases List.mem_cons.mp arg with type | arg
      · obtain ⟨-, rfl⟩ := Prod.mk.inj type
        cases value
      · exact ⟨_, arg, visible, value⟩

/-- A message that is encrypted for a server shows nothing but the pseudonym of the server. -/
theorem clear_encryptMessage {package : CryptoPackage} {cbor : Cbor2} {builtins : Builtins}
    {server : ServerRecord} {pseudonym : Bytes} {message m : PrismMessage} {partyId : Option ℕ}
    {includePseudonym : Bool} {fresh : Fresh package}
    (named : server.ark.get .pseudonym = .bytes pseudonym)
    (run : encryptMessage package cbor builtins server message partyId includePseudonym fresh =
      .ok m) : ∀ bs ∈ clear m.toValue, bs = pseudonym := by
  obtain ⟨ciphertext, halfKey, rfl⟩ := eq_of_encryptMessage run
  intro bs mem
  obtain ⟨arg, given, visible, here⟩ := mem_clear_create mem
  simp only [encryptedFields, List.mem_append, List.mem_cons, List.not_mem_nil, or_false] at given
  rcases given with ((rfl | rfl | rfl | rfl) | given) | given
  · cases here
  · simp [encryptionFields] at visible
  · simp [encryptionFields] at visible
  · simp [encryptionFields] at visible
  · split at given
    · rw [List.mem_singleton.mp given, named] at here
      exact List.mem_singleton.mp here
    · cases given
  · split at given
    · rw [List.mem_singleton.mp given] at here
      cases here
    · cases given

/-! ### Peeling -/

/-- A hop of a route: an Emix, with the announcement that a client has of it. -/
structure Hop (package : CryptoPackage) where
  record : ServerRecord
  emix : Emix package
  role : record.ark.get .role = .str "EMIX"
  pseudonym : record.ark.get .pseudonym = .bytes emix.pseudonym
  key : record.publicKey package none = .ok (some (package.publicKey emix.privateKey))

/-- The target of a route: a dropbox, by the announcement that a client has of it. -/
structure Target where
  record : ServerRecord
  pseudonym : Bytes
  role : ∃ role ∈ dropboxRoles, record.ark.get .role = .str role
  announced : record.ark.get .pseudonym = .bytes pseudonym

/-- A message for a dropbox, as it is given to `wrap`. -/
structure DropboxMessage (target : Target) (message : PrismMessage) : Prop where
  typed : message.Typed
  type : message.get .msgType = .enum (.type .encryptDropboxMessage)
  addressed : message.get .pseudonym = .bytes target.pseudonym

section Peeling

variable {package : CryptoPackage} (cbor : Cbor2) (builtins : Builtins) (target : Target)

/-- The pseudonym of the server that comes first on what is left of a route. -/
def nextPseudonym : List (Hop package) → Bytes
  | [] => target.pseudonym
  | hop :: _ => hop.emix.pseudonym

/-- **An Emix takes off its layer**: it decrypts the message that reaches it, the types are those
that it asserts, and every message that it hands to its router is the one inside, for the given
address. -/
structure PeelsTo (hop : Hop package) (address : Bytes) (onion plaintext inner : PrismMessage) :
    Prop where
  decrypts : ∀ now, handlerMessage package cbor builtins now hop.emix.privateKey onion =
    .ok (some plaintext)
  hands : ∀ now, mixHandler builtins now plaintext = .ok (.mixMessage plaintext inner)
  types : forwardable plaintext inner = true
  sends : ∀ env, hop.emix.receive cbor builtins env onion =
    .ok (List.replicate (sendAttempts env.sent 0 env.retryLimit) (.bytes address, inner))

/-- **An onion is delivered** over what is left of a route: each Emix takes off its layer and
sends what is inside to its successor, and what the target receives is the message. No Emix reads
a byte string in the clear but the pseudonym of its successor, and the last one what the message
itself shows. -/
def PassesRoute (message : PrismMessage) : List (Hop package) → PrismMessage → Prop
  | [], onion => onion = message
  | hop :: rest, onion => ∃ plaintext inner,
      PeelsTo cbor builtins hop (nextPseudonym target rest) onion plaintext inner ∧
      (∀ bs ∈ clear plaintext.toValue,
        bs = nextPseudonym target rest ∨ (rest = [] ∧ bs ∈ clear message.toValue)) ∧
      PassesRoute message rest inner

variable {cbor} {builtins} {target}

/-- The message inside a layer is of the type that goes with its own. -/
def TypesMatch (server : ServerRecord) (message : PrismMessage) : Prop :=
  (forwardType server = .sendToEmix ∧
    message.get .msgType = .enum (.type .encryptEmixMessage)) ∨
  (forwardType server = .sendToDropbox ∧
    message.get .msgType = .enum (.type .encryptDropboxMessage))

theorem Hop.encryptedType (hop : Hop package) :
    encryptedType hop.record = .encryptEmixMessage := by
  rw [Crypto.encryptedType, hop.role]
  exact if_pos (by decide)

theorem Hop.forwardType (hop : Hop package) : forwardType hop.record = .sendToEmix := by
  rw [Client.forwardType, hop.role]
  exact if_pos (by decide)

theorem Target.forwardType (target : Target) : forwardType target.record = .sendToDropbox := by
  obtain ⟨role, known, announced⟩ := target.role
  rw [Client.forwardType, announced]
  simp only [dropboxRoles, List.mem_cons, List.not_mem_nil, or_false] at known
  rcases known with rfl | rfl <;> decide

theorem layerMessage_typed (server : ServerRecord) {message : PrismMessage}
    (typed : message.Typed) (made : ℤ) : (layerMessage server message made).Typed := by
  refine PrismMessage.typed_create fun arg given => ?_
  simp only [List.mem_cons, List.not_mem_nil, or_false] at given
  rcases given with rfl | rfl
  · have fits :=
      (PrismMessage.typed_iff message (.generic (some .prismMessage)) (.inr rfl)).mpr typed
    change (message.toValue.hasType (.generic (some .prismMessage)) && true) = true
    rw [fits]
    rfl
  · rfl

/-- What is in a layer can be read in the message inside. -/
theorem clear_layerMessage {server : ServerRecord} {message : PrismMessage} {made : ℤ} {bs : Bytes}
    (mem : bs ∈ clear (layerMessage server message made).toValue) : bs ∈ clear message.toValue := by
  obtain ⟨arg, given, -, here⟩ := mem_clear_create mem
  simp only [List.mem_cons, List.not_mem_nil, or_false] at given
  rcases given with rfl | rfl
  · exact here
  · cases here

/-- **One layer**: what `emix_forward` makes is an onion that its Emix peels. -/
theorem emixForward_ok (hop : Hop package) (server : ServerRecord) {message : PrismMessage}
    {address : Bytes} (typed : message.Typed) (types : TypesMatch server message)
    (addressed : message.get .pseudonym = .bytes address) (layer : Layer package) :
    ∃ onion, emixForward package cbor builtins hop.record server message layer = .ok onion ∧
      onion.Typed ∧ onion.get .msgType = .enum (.type .encryptEmixMessage) ∧
      onion.get .pseudonym = .bytes hop.emix.pseudonym ∧
      PeelsTo cbor builtins hop address onion (layerMessage server message layer.made) message := by
  have announced :
      argumentTyped .prismMessage (.pseudonym, hop.record.ark.get .pseudonym) = true := by
    rw [hop.pseudonym]
    rfl
  obtain ⟨onion, data, run, onionTyped, encrypted, decoded, -, -⟩ := @encryptMessage_ok package cbor
    builtins hop.record (layerMessage server message layer.made) none true hop.emix.privateKey
    layer.toFresh hop.key (layerMessage_typed server typed layer.made) announced
  obtain ⟨ciphertext, halfKey, shape⟩ := eq_of_encryptMessage run
  have type : onion.get .msgType = .enum (.type .encryptEmixMessage) := by
    rw [shape, ← hop.encryptedType]
    rfl
  have pseudonym : onion.get .pseudonym = .bytes hop.emix.pseudonym := by
    rw [shape, ← hop.pseudonym]
    rfl
  have decrypts : ∀ now, handlerMessage package cbor builtins now hop.emix.privateKey onion =
      .ok (some (layerMessage server message layer.made)) :=
    fun now => handlerMessage_of_encrypted encrypted (decoded now)
  have outer : (layerMessage server message layer.made).get .msgType =
      .enum (.type (forwardType server)) := rfl
  have hands : ∀ now, mixHandler builtins now (layerMessage server message layer.made) =
      .ok (.mixMessage (layerMessage server message layer.made) message) := by
    intro now
    apply mixHandler_eq builtins now outer _ rfl typed
    rcases types with ⟨eq, -⟩ | ⟨eq, -⟩ <;> rw [eq] <;> decide
  have asserted : forwardable (layerMessage server message layer.made) message = true := by
    rcases types with ⟨eq, inside⟩ | ⟨eq, inside⟩ <;>
    · rw [forwardable, outer, eq, inside]
  refine ⟨onion, run, onionTyped, type, pseudonym, decrypts, hands, asserted, fun env => ?_⟩
  have taken : hop.emix.hook.match onion = true := by
    rw [MessageTypeHook.match, type, pseudonym, Emix.hook]
    cases hop.emix.pseudonym <;> simp [Value.bytes?]
  rw [Emix.receive, if_pos taken, decrypts, ok_bind]
  dsimp only
  rw [hands, ok_bind]
  dsimp only
  rw [mixMessage_eq asserted, addressed]

/-- **Onions of every length**, by induction on the route: the layers are put on from the inside,
and the first Emix takes off the last one. -/
theorem wrapLoop_passes (timestamp : ℤ) (layers : ℕ → Layer package) {message : PrismMessage}
    (dropbox : DropboxMessage target message) (route : List (Hop package)) :
    ∃ onion server, MessageRoute.wrapLoop package cbor builtins
        ⟨route.map Hop.record, target.record, timestamp⟩ layers message = .ok (onion, server) ∧
      onion.Typed ∧ TypesMatch server onion ∧
      onion.get .pseudonym = .bytes (nextPseudonym target route) ∧
      (∀ bs ∈ clear onion.toValue,
        bs = nextPseudonym target route ∨ (route = [] ∧ bs ∈ clear message.toValue)) ∧
      PassesRoute cbor builtins target message route onion := by
  induction route with
  | nil =>
      exact ⟨message, target.record, rfl, dropbox.typed, .inr ⟨target.forwardType, dropbox.type⟩,
        dropbox.addressed, fun bs mem => .inr ⟨rfl, mem⟩, rfl⟩
  | cons hop route ih =>
      obtain ⟨inner, server, run, typed, types, addressed, readable, delivered⟩ := ih
      obtain ⟨onion, forward, onionTyped, type, pseudonym, peels⟩ :=
        @emixForward_ok package cbor builtins hop server inner _ typed types addressed
          (layers (route.map Hop.record).length)
      refine ⟨onion, hop.record, ?_, onionTyped, .inl ⟨hop.forwardType, type⟩, pseudonym, ?_,
        _, inner, peels, fun bs mem => readable bs (clear_layerMessage mem), delivered⟩
      · rw [List.map_cons, MessageRoute.wrapLoop_cons, run, ok_bind]
        dsimp only
        rw [forward, ok_bind]
        rfl
      · exact fun bs mem => .inl (clear_encryptMessage hop.pseudonym forward bs mem)

/-- **Onion routing delivers.** For a route of any length with a dropbox as its target and for
every message to it, `wrap` makes an onion that is delivered over the Emixes of the route. What
`encrypt_message` makes for the dropbox shows nothing but the pseudonym of the dropbox, so then
the last Emix reads nothing else either. -/
theorem onion_delivers (route : List (Hop package)) (target : Target) (timestamp : ℤ)
    (layers : ℕ → Layer package) (message : PrismMessage)
    (dropbox : DropboxMessage target message) :
    (∃ onion, MessageRoute.wrap package cbor builtins
        ⟨route.map Hop.record, target.record, timestamp⟩ layers message = .ok onion ∧
      PassesRoute cbor builtins target message route onion) ∧
    ∀ request partyId (fresh : Fresh package),
      encryptMessage package cbor builtins target.record request partyId true fresh = .ok message →
      ∀ bs ∈ clear message.toValue, bs = target.pseudonym := by
  constructor
  · obtain ⟨onion, server, run, -, -, -, -, delivered⟩ :=
      wrapLoop_passes timestamp layers dropbox route
    refine ⟨onion, ?_, delivered⟩
    rw [MessageRoute.wrap, run]
    rfl
  · exact fun request partyId fresh run => clear_encryptMessage target.announced run

end Peeling

/-! ### An onion with two layers -/

/-- An Emix with a one-byte pseudonym. -/
def exampleHop (name : UInt8) : Hop CryptoPackage.additive where
  record := ⟨PrismMessage.create 0 .announceRoleKey [(.role, .str "EMIX"),
    (.pseudonym, .bytes [name]), (.halfKey, halfKeyMap CryptoPackage.additive [name])]⟩
  emix := ⟨[name], [name]⟩
  role := rfl
  pseudonym := rfl
  key := toKey_halfKeyMap _ _

/-- A dropbox. -/
def exampleTarget : Target where
  record := ⟨PrismMessage.create 0 .announceRoleKey [(.role, .str "DROPBOX_LF"),
    (.pseudonym, .bytes [9])]⟩
  pseudonym := [9]
  role := ⟨"DROPBOX_LF", by decide, rfl⟩
  announced := rfl

/-- What is drawn for a layer. -/
def exampleLayer (k : ℕ) : Layer CryptoPackage.additive where
  privateKey := [k.toUInt8]
  nonce := List.replicate 12 k.toUInt8
  now := k
  nonce_length := List.length_replicate
  made := k

/-- A message for the dropbox over two Emixes. -/
theorem two_layers_pass :
    ∃ onion, MessageRoute.wrap CryptoPackage.additive Cbor.package Builtins.strict
        ⟨[exampleHop 1, exampleHop 2].map Hop.record, exampleTarget.record, 0⟩ exampleLayer
        (PrismMessage.create 0 .encryptDropboxMessage [(.pseudonym, .bytes [9])]) = .ok onion ∧
      PassesRoute Cbor.package Builtins.strict exampleTarget
        (PrismMessage.create 0 .encryptDropboxMessage [(.pseudonym, .bytes [9])])
        [exampleHop 1, exampleHop 2] onion :=
  (onion_delivers [exampleHop 1, exampleHop 2] exampleTarget 0 exampleLayer
    (PrismMessage.create 0 .encryptDropboxMessage [(.pseudonym, .bytes [9])]) ⟨rfl, rfl, rfl⟩).1

end Prism.Client
