import Prism.Crypto.ServerMessage

/-!
What an Emix does with a message (`handler_loop` in `prism/server/CS2/roles/abstract_role.py`,
`MessageTypeHook` in `prism/common/transport/hooks.py`, `prism/server/CS2/roles/emix.py`).

The loop takes a message from its hook, decrypts it if it is encrypted, and hands it to the
handler of the role, which starts a task for it. A mix strategy waits and leaves the message as it
is, so it does not appear here; `router.send` is given by what it returns, attempt by attempt.

* `mixMessage_eq`: what `mix_message` hands to the router.
-/

namespace Prism.Roles

open Crypto

/-! ### The handler loop -/

/-- `MessageTypeHook`. -/
structure MessageTypeHook where
  pseudonym : Option Bytes
  types : List TypeEnum

/-- `MessageTypeHook.match`. An empty pseudonym is false. -/
def MessageTypeHook.match (hook : MessageTypeHook) (message : PrismMessage) : Bool :=
  (match hook.pseudonym with
    | none | some [] => true
    | some pseudonym => (message.get .pseudonym).bytes? = some pseudonym) &&
  (match message.get .msgType with
    | .enum (.type msgType) => msgType ∈ hook.types
    | _ => false)

section HandlerLoop

variable (package : CryptoPackage) (cbor : Cbor2) (builtins : Builtins) (now : ℤ)

/-- What `handler_loop` hands to the handler: the message, or what is decrypted from it. Data that
is no message is skipped. -/
def handlerMessage (privateKey : package.PrivateKey) (message : PrismMessage) :
    Py (Option PrismMessage) :=
  if (message.get .ciphertext).truthy && (message.get .halfKey).truthy &&
      (message.get .nonce).truthy then
    decrypt package cbor builtins now message privateKey none
  else .ok (some message)

variable {package} {cbor} {builtins} {now}

/-- A message that is encrypted for the role is decrypted. -/
theorem handlerMessage_of_encrypted {message inner : PrismMessage} {owner : package.PrivateKey}
    {data : Bytes} (encrypted : Encrypted package message owner data)
    (decoded : PrismMessage.decode cbor builtins now data = .ok (some inner)) :
    handlerMessage package cbor builtins now owner message = .ok (some inner) := by
  have opened := encrypted.decrypt_eq decoded
  obtain ⟨sender, nonce, ciphertext, nonce_ne, ciphertext_ne, halfKey, atNonce, atCiphertext, -⟩ :=
    encrypted
  rw [handlerMessage, halfKey, atNonce, atCiphertext, if_pos, opened]
  simp [Value.truthy, halfKeyMap, nonce_ne, ciphertext_ne]

end HandlerLoop

/-! ### The handler of an Emix -/

/-- The tasks that `mix_handler` starts. -/
inductive MixTask where
  | handleClientLinkRequest (decrypted : PrismMessage)
  | mixMessage (decrypted submessage : PrismMessage)

/-- `mix_handler`. A message without another one inside has no attribute `as_cbor_dict`. -/
def mixHandler (builtins : Builtins) (now : ℤ) (message : PrismMessage) : Py MixTask :=
  match message.get .msgType with
  | .enum (.type .linkRequest) => .ok (.handleClientLinkRequest message)
  | _ => do
    let entries ← (message.get .subMsg).asCborDict
    match PrismMessage.ofValue? (← Value.fromCborDict builtins now entries .prismMessage) with
    | some submessage => return .mixMessage message submessage
    | none => throw .attributeError

/-- The types of a message and of the one inside it that `mix_message` asserts. -/
def forwardable (decrypted submessage : PrismMessage) : Bool :=
  match decrypted.get .msgType, submessage.get .msgType with
  | .enum (.type .sendToEmix), .enum (.type .encryptEmixMessage) => true
  | .enum (.type .sendToDropbox), .enum (.type .encryptDropboxMessage) => true
  | _, _ => false

/-- The number of calls of `router.send`, from call `k` on: until one returns true, and at most
`retries` more. -/
def sendAttempts (sent : ℕ → Bool) (k : ℕ) : ℕ → ℕ
  | 0 => 1
  | retries + 1 => if sent k then 1 else 1 + sendAttempts sent (k + 1) retries

/-- The surroundings of a message that is mixed: the time at which it is handled, what the router
answers, and `mix_forward_retry_limit`. -/
structure MixEnv where
  now : ℤ
  sent : ℕ → Bool
  retryLimit : ℕ

/-- `mix_message`: the calls of `router.send`, by the address and the message. -/
def mixMessage (env : MixEnv) (decrypted submessage : PrismMessage) :
    Py (List (Value × PrismMessage)) := do
  pyAssert (forwardable decrypted submessage = true)
  return List.replicate (sendAttempts env.sent 0 env.retryLimit)
    (submessage.get .pseudonym, submessage)

/-- **What `mix_message` hands to the router**, once its assertion holds. -/
theorem mixMessage_eq {decrypted submessage : PrismMessage}
    (types : forwardable decrypted submessage = true) (env : MixEnv) :
    mixMessage env decrypted submessage =
      .ok (List.replicate (sendAttempts env.sent 0 env.retryLimit)
        (submessage.get .pseudonym, submessage)) := by
  rw [mixMessage, pyAssert_of_true types, ok_bind]
  rfl

/-- A message inside another one is handed on as it is. -/
theorem mixHandler_eq (builtins : Builtins) (now : ℤ) {message submessage : PrismMessage}
    {msgType : TypeEnum} (type : message.get .msgType = .enum (.type msgType))
    (ne : msgType ≠ .linkRequest) (inside : message.get .subMsg = submessage.toValue)
    (typed : submessage.Typed) :
    mixHandler builtins now message = .ok (.mixMessage message submessage) := by
  obtain ⟨entries, encoded, back⟩ := PrismMessage.fromCborDict_asCborDict builtins now typed
  have decoded : (do
      let entries ← (message.get .subMsg).asCborDict
      match PrismMessage.ofValue? (← Value.fromCborDict builtins now entries .prismMessage) with
      | some submessage => return .mixMessage message submessage
      | none => throw .attributeError) = (.ok (.mixMessage message submessage) : Py MixTask) := by
    rw [inside, encoded, ok_bind, back, ok_bind, PrismMessage.ofValue?_toValue]
    rfl
  unfold mixHandler
  rw [type]
  cases msgType <;> first | exact decoded | exact absurd rfl ne

/-! ### An Emix -/

/-- An Emix, by its pseudonym and its key. -/
structure Emix (package : CryptoPackage) where
  pseudonym : Bytes
  privateKey : package.PrivateKey

section Receive

variable {package : CryptoPackage} (cbor : Cbor2) (builtins : Builtins)

/-- The hook of the handler loop of an Emix. -/
def Emix.hook (self : Emix package) : MessageTypeHook :=
  ⟨some self.pseudonym, [.encryptEmixMessage]⟩

/-- What an Emix hands to its router for a message from the network. A link request goes no
further. -/
def Emix.receive (self : Emix package) (env : MixEnv) (message : PrismMessage) :
    Py (List (Value × PrismMessage)) :=
  if self.hook.match message then do
    match ← handlerMessage package cbor builtins env.now self.privateKey message with
    | none => return []
    | some message =>
      match ← mixHandler builtins env.now message with
      | .handleClientLinkRequest _ => return []
      | .mixMessage decrypted submessage => mixMessage env decrypted submessage
  else .ok []

end Receive

end Prism.Roles
