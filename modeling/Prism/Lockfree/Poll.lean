import Prism.Lockfree.PeerMessages
import Prism.Routing.ArkStore

/-!
Poll requests (`prism/server/CS2/roles/lockfree/poll.py`).

A poll keeps what a client asked for: the key to answer it with, and for each member of the
committee the message that the client encrypted for that member. The fragments that were
already checked, the open links and the trace of the poll are left out.

* `Poll.fromMessage_ok`: the poll of a request.
* `Poll.reply_ok`: the reply is encrypted for the client, and carries the fragments as they are.
-/

namespace Prism.Lockfree

open Crypto

/-- `Poll`. -/
structure Poll (package : CryptoPackage) where
  nonce : Value
  halfKey : Option package.PublicKey
  expiration : Option ℤ
  peerFragments : List (Option ℤ × PrismMessage)
  linkAddresses : Value

namespace Poll

variable {package : CryptoPackage}

/-- `live`, at a time. -/
def live (self : Poll package) (now : ℤ) : Bool :=
  match self.expiration with
  | none => true
  | some expiration => expiration > now

/-- When a request expires; 0 is no time. -/
def expirationOf (message : PrismMessage) : Py (Option ℤ) :=
  if (message.get .expiration).truthy then
    some <$> Routing.utcfromtimestamp (message.get .expiration)
  else .ok none

/-- `from_message`. -/
def fromMessage (package : CryptoPackage) (message : PrismMessage) : Py (Poll package) := do
  match message.get .msgType with
  | .enum (.type .readObliviousDropbox) => do
    let expiration ← expirationOf message
    let addresses := message.get .linkAddresses
    let halfKey ← toKey package (message.get .halfKey)
    let submessages ← listedMessages (message.get .submessages)
    return {
      nonce := message.get .nonce
      halfKey
      expiration
      peerFragments := dictOf (submessages.map fun m => ((m.get .partyId).int?, m))
      linkAddresses := if addresses.truthy then addresses else .list [] }
  | _ => throw .assertionError

section Reply

variable {SpanContext : Type} (cbor : Cbor2) (builtins : Builtins) (tracer : Tracer SpanContext)

/-- The context of a fragment, if it is a message. -/
def contextOf (submessage : Value) : Py (Option SpanContext) :=
  match PrismMessage.ofValue? submessage with
  | some message => extractSpanContext tracer message
  | none => .ok none

/-- `reply`, at two times: that of the message inside and that of the reply. The nonce of the
poll is logged. -/
def reply (self : Poll package) (submessages : List Value) (innerNow : ℤ)
    (fresh : Fresh package) : Py PrismMessage := do
  let inner := PrismMessage.create innerNow .readObliviousDropboxResponse
    [(.submessages, .list submessages)]
  let first ← pyIndex submessages 0
  let context ← contextOf tracer first
  match self.nonce.bytes?, self.halfKey with
  | some _, some halfKey =>
    let ciphertext ← encrypt package cbor inner fresh.privateKey halfKey fresh.nonce
    let myKey ← fromKey package builtins (package.publicKey fresh.privateKey)
    let rep := PrismMessage.create fresh.now .encryptedReadObliviousDropboxResponse
      [(.encDropboxResponseId, self.nonce), (.ciphertext, .bytes ciphertext), (.halfKey, myKey),
        (.nonce, .bytes fresh.nonce)]
    injectSpanContext tracer builtins fresh.now rep context
  | _, _ => throw .attributeError

end Reply

/-! ### What is replied -/

/-- The poll of a request to read. -/
theorem fromMessage_ok {message : PrismMessage} {owner : package.PublicKey}
    {subs : List PrismMessage}
    (type : message.get .msgType = .enum (.type .readObliviousDropbox))
    (halfKey : message.get .halfKey = halfKeyMap package owner)
    (submessages : message.get .submessages = .list (subs.map PrismMessage.toValue))
    (expires : ∃ expiration, expirationOf message = .ok expiration) :
    ∃ poll, fromMessage package message = .ok poll ∧ poll.nonce = message.get .nonce ∧
      poll.halfKey = some owner ∧
      poll.peerFragments = dictOf (subs.map fun m => ((m.get .partyId).int?, m)) := by
  obtain ⟨expiration, valid⟩ := expires
  let poll : Poll package := {
    nonce := message.get .nonce
    halfKey := some owner
    expiration
    peerFragments := dictOf (subs.map fun m => ((m.get .partyId).int?, m))
    linkAddresses :=
      if (message.get .linkAddresses).truthy then message.get .linkAddresses else .list [] }
  refine ⟨poll, ?_, rfl, rfl, rfl⟩
  rw [fromMessage, type]
  dsimp only
  rw [valid, ok_bind, halfKey, toKey_halfKeyMap, ok_bind, submessages, listedMessages_ok, ok_bind]
  rfl

/-- A poll expires when its request does. -/
theorem expiration_of_fromMessage {message : PrismMessage} {poll : Poll package}
    (run : fromMessage package message = .ok poll) :
    expirationOf message = .ok poll.expiration := by
  unfold fromMessage at run
  split at run
  case h_2 => cases run
  case h_1 =>
    obtain ⟨expiration, expires, run⟩ := bind_eq_ok.mp run
    obtain ⟨halfKey, -, run⟩ := bind_eq_ok.mp run
    obtain ⟨submessages, -, run⟩ := bind_eq_ok.mp run
    obtain rfl := Except.ok.inj run
    exact expires

variable {SpanContext : Type} {cbor : Cbor2} {builtins : Builtins} {tracer : Tracer SpanContext}

/-- **The reply is encrypted for the client**, and carries the fragments as they are. -/
theorem reply_ok {self : Poll package} {owner : package.PrivateKey} {requestId : Bytes}
    (nonce : self.nonce = .bytes requestId)
    (halfKey : self.halfKey = some (package.publicKey owner)) {subs : List PrismMessage}
    (ne : subs ≠ []) (typed : ∀ m ∈ subs, m.Typed) (traceable : ∀ m ∈ subs, Traceable tracer m)
    (innerNow : ℤ) (fresh : Fresh package) :
    ∃ reply inner data, self.reply cbor builtins tracer (subs.map PrismMessage.toValue) innerNow
        fresh = .ok reply ∧ reply.Typed ∧
      reply.get .encDropboxResponseId = .bytes requestId ∧ Encrypted package reply owner data ∧
      (∀ now, PrismMessage.decode cbor builtins now data = .ok (some inner)) ∧
      inner.get .submessages = .list (subs.map PrismMessage.toValue) := by
  obtain ⟨first, rest, rfl⟩ := List.exists_cons_of_ne_nil ne
  obtain ⟨context, extracted⟩ := traceable first List.mem_cons_self
  set inner := PrismMessage.create innerNow .readObliviousDropboxResponse
    [(.submessages, .list ((first :: rest).map PrismMessage.toValue))] with hinner
  have innerTyped : inner.Typed := by
    apply PrismMessage.typed_create
    intro arg mem
    rw [List.mem_singleton.mp mem]
    exact argumentTyped_list rfl (hasElements_messages typed)
  obtain ⟨data, ciphertext, run, ciphertext_ne, back, decoded⟩ := @encrypt_ok package cbor builtins
    inner innerTyped fresh.privateKey (package.publicKey owner) fresh.nonce fresh.nonce_ne_nil
  set rep := PrismMessage.create fresh.now .encryptedReadObliviousDropboxResponse
    [(.encDropboxResponseId, self.nonce), (.ciphertext, .bytes ciphertext),
      (.halfKey, halfKeyMap package (package.publicKey fresh.privateKey)),
      (.nonce, .bytes fresh.nonce)] with hrep
  have repTyped : rep.Typed := by
    apply PrismMessage.typed_create
    simp only [List.forall_mem_cons, List.not_mem_nil, false_implies, implies_true, and_true, nonce]
    exact ⟨rfl, rfl, rfl, rfl⟩
  have encrypted : Encrypted package rep owner data :=
    ⟨fresh.privateKey, fresh.nonce, ciphertext, fresh.nonce_ne_nil, ciphertext_ne, rfl, rfl, rfl,
      back⟩
  obtain ⟨reply, injected, replyTyped, same, -⟩ :=
    injectSpanContext_ok tracer builtins fresh.now repTyped context
  refine ⟨reply, inner, data, ?_, replyTyped, ?_, encrypted_of_traced same encrypted, decoded,
    rfl⟩
  · rw [Poll.reply]
    dsimp only
    rw [← hinner, List.map_cons, pyIndex, List.getElem?_cons_zero]
    dsimp only
    rw [ok_bind, contextOf, PrismMessage.ofValue?_toValue]
    dsimp only
    rw [extracted, ok_bind, halfKey, nonce]
    dsimp only [Value.bytes?]
    rw [run, ok_bind, fromKey_eq, ok_bind, ← nonce, ← hrep, injected]
  · rw [same _ (by decide) (by decide)]
    exact nonce

end Poll

end Prism.Lockfree
