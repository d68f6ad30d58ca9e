import Prism.Crypto.ServerMessage
import Prism.Lockfree.Peer
import Prism.Message.Tracing

/-!
Messages between the members of a committee (`prism/server/CS2/roles/lockfree/mpc.py`).

A request for an operation, and the response to it, carry the action and the id of the
operation in an `MPCMap`. A message to another member is encrypted with that member's key, if
the key is known, and every message is addressed before it is sent.

* `mpcMessage_typed`: typed arguments make a typed message.
* `Delivered`: what arrives is what was sent, but for the address and the trace.
* `delivered_of_send`: members that know each other's keys deliver their messages.
-/

namespace Prism.Lockfree

open Crypto

/-! ### Requests and responses -/

/-- The arguments that name a field of a class. -/
def argumentsOf (c : ClassName) (kwargs : List (FieldName × Value)) : List (FieldName × Value) :=
  kwargs.filter fun arg => Value.lookupFieldIndex c arg.1 ≠ -1

/-- `mpc_message`: an argument goes to the field of its name, of the message or of its
`MPCMap`. -/
def mpcMessage (now partyId : ℤ) (msgType : TypeEnum) (action opId : Value)
    (kwargs : List (FieldName × Value)) : PrismMessage :=
  let mpcMap := initFields now ClassName.mpcMap.schema
    ((.action, action) :: (.requestId, opId) :: argumentsOf .mpcMap kwargs)
  PrismMessage.create now msgType
    ((.partyId, .int partyId) :: (.mpcMap, .object .mpcMap mpcMap) ::
      argumentsOf .prismMessage kwargs)

/-- `request`, for the action of a handler. -/
def request (now partyId : ℤ) (action : ActionEnum) (opId : Bytes)
    (kwargs : List (FieldName × Value)) : PrismMessage :=
  mpcMessage now partyId .mpcRequest (.enum (.action action)) (.bytes opId) kwargs

/-- A field of `message.mpc_map`. -/
def mpcField (message : PrismMessage) (f : FieldName) : Py Value :=
  match message.get .mpcMap with
  | .object .mpcMap fields => .ok (fieldOf ClassName.mpcMap.schema fields f)
  | _ => .error .attributeError

/-- `self.peers[i]`. -/
def peerAt (peers : List DropboxPeer) (i : Value) : Py DropboxPeer :=
  match i with
  | .int i =>
    match (pyPlace peers.length i).bind fun k => peers[k]? with
    | some peer => .ok peer
    | none => .error .indexError
  | _ => .error .typeError

/-- `respond_to`: the requester, and the response that is sent to it. -/
def respondTo (now partyId : ℤ) (peers : List DropboxPeer) (message : PrismMessage)
    (kwargs : List (FieldName × Value)) : Py (DropboxPeer × PrismMessage) := do
  let peer ← peerAt peers (message.get .partyId)
  let action ← mpcField message .action
  let requestId ← mpcField message .requestId
  return (peer, mpcMessage now partyId .mpcResponse action requestId kwargs)

/-- The messages of a list, where each is asked for a field. -/
def listedMessages (v : Value) : Py (List PrismMessage) :=
  match v with
  | .list xs => xs.mapM fun x =>
    match PrismMessage.ofValue? x with
    | some m => .ok m
    | none => .error .attributeError
  | _ => .error .typeError

theorem listedMessages_ok (ms : List PrismMessage) :
    listedMessages (.list (ms.map PrismMessage.toValue)) = .ok ms := by
  rw [listedMessages, List.mapM_map]
  refine (mapM_ok (g := id) fun m _ => ?_).trans (by rw [List.map_id])
  rfl

/-- Typed arguments for a class whose fields may all be absent make a typed object. -/
theorem hasFields_initFields {c : ClassName} (optional : ∀ info ∈ c.schema, info.default = .absent)
    {now : ℤ} {kwargs : List (FieldName × Value)}
    (typed : ∀ arg ∈ kwargs, argumentTyped c arg = true) :
    Value.hasFields (initFields now c.schema kwargs) c.schema = true := by
  apply hasFields_map
  intro info mem
  cases given : kwargs.lookup info.name with
  | none => simp [Value.initField, optional info mem, valueTyped]
  | some v =>
      have argument := typed (info.name, v) (mem_of_lookup given)
      rw [argumentTyped, Value.info_iff.mpr ⟨mem, rfl⟩, Option.any_some] at argument
      simpa [Value.initField, optional info mem] using argument

/-- **Typed arguments make a typed message.** -/
theorem mpcMessage_typed {now partyId : ℤ} {msgType : TypeEnum} {action opId : Value}
    {kwargs : List (FieldName × Value)}
    (actionTyped : argumentTyped .mpcMap (.action, action) = true)
    (opIdTyped : argumentTyped .mpcMap (.requestId, opId) = true)
    (inMap : ∀ arg ∈ argumentsOf .mpcMap kwargs, argumentTyped .mpcMap arg = true)
    (inMessage : ∀ arg ∈ argumentsOf .prismMessage kwargs,
      argumentTyped .prismMessage arg = true) :
    (mpcMessage now partyId msgType action opId kwargs).Typed := by
  have mapTyped : Value.hasFields (initFields now ClassName.mpcMap.schema
      ((.action, action) :: (.requestId, opId) :: argumentsOf .mpcMap kwargs))
      ClassName.mpcMap.schema = true := by
    apply hasFields_initFields (by decide)
    simp only [List.forall_mem_cons]
    exact ⟨actionTyped, opIdTyped, inMap⟩
  apply PrismMessage.typed_create
  simp only [List.forall_mem_cons]
  refine ⟨rfl, ?_, inMessage⟩
  exact argumentTyped_of_hasType rfl (by simp [Value.hasType, mapTyped])

/-! ### Sending and receiving -/

section Links

variable (package : CryptoPackage) (cbor : Cbor2) (builtins : Builtins) (now : ℤ)

/-- `encrypt_peer_message`, where `acked` tells whether the peer has answered a hello. -/
def encryptPeerMessage (partyId : ℤ) (privateKey : package.PrivateKey) (acked encryptPeer : Bool)
    (peer : DropboxPeer) (message : PrismMessage) (fresh : Fresh package) : Py PrismMessage :=
  match peer.halfKey with
  | none => .ok message
  | some halfKey =>
    if acked && encryptPeer then do
      match ← toKey package (.object .halfKeyMap halfKey.fields) with
      | none => throw .attributeError
      | some peerKey =>
        let ciphertext ← encrypt package cbor message privateKey peerKey fresh.nonce
        if ciphertext = [] then return message
        return PrismMessage.create fresh.now .encryptPeerMessage
          [(.pseudonym, .bytes peer.pseudonym), (.ciphertext, .bytes ciphertext),
            (.nonce, .bytes fresh.nonce), (.partyId, .int partyId)]
    else .ok message

/-- `send_to_peer`: the addressed message. -/
def sendToPeer (partyId : ℤ) (privateKey : package.PrivateKey) (acked encryptPeer : Bool)
    (peer : DropboxPeer) (message : PrismMessage) (fresh : Fresh package) (nonce : Bytes) :
    Py PrismMessage := do
  let message ←
    if peer.isLocal then pure message
    else encryptPeerMessage package cbor partyId privateKey acked encryptPeer peer message fresh
  let nonce := if (message.get .nonce).truthy then message.get .nonce else .bytes nonce
  message.clone builtins now
    [(.destPartyId, .int peer.partyId), (.nonce, nonce), (.pseudonym, .bytes peer.pseudonym)]

/-- `handle_enc_peer`: the decrypted message, which goes to the local link. -/
def handleEncPeer (privateKey : package.PrivateKey) (peers : List DropboxPeer)
    (message : PrismMessage) : Py (Option PrismMessage) := do
  let sourcePeer ← peerAt peers (message.get .partyId)
  match sourcePeer.halfKey with
  | none => return none
  | some halfKey =>
    match ← decrypt package cbor builtins now message privateKey
      (← toKey package (.object .halfKeyMap halfKey.fields)) with
    | none => return none
    | some decrypted =>
      let pseudonym :=
        if (decrypted.get .pseudonym).truthy then decrypted.get .pseudonym
        else message.get .pseudonym
      return some (← decrypted.clone builtins now
        [(.destPartyId, message.get .destPartyId), (.pseudonym, pseudonym)])

/-- What a member makes of a message that arrives. -/
def receivePeer (privateKey : package.PrivateKey) (peers : List DropboxPeer)
    (message : PrismMessage) : Py (Option PrismMessage) :=
  match message.get .msgType with
  | .enum (.type .encryptPeerMessage) =>
    handleEncPeer package cbor builtins now privateKey peers message
  | _ => .ok (some message)

end Links

/-- An encrypted message may change in its other fields. -/
theorem encrypted_of_same {package : CryptoPackage} {m m' : PrismMessage}
    {owner : package.PrivateKey} {data : Bytes}
    (same : ∀ f ∈ [FieldName.halfKey, .nonce, .ciphertext], m'.get f = m.get f)
    (encrypted : Encrypted package m owner data) : Encrypted package m' owner data := by
  obtain ⟨sender, nonce, ciphertext, nonce_ne, ciphertext_ne, halfKey, atNonce, atCiphertext,
    back⟩ := encrypted
  refine ⟨sender, nonce, ciphertext, nonce_ne, ciphertext_ne, ?_, ?_, ?_, back⟩
  · rw [same .halfKey (by simp), halfKey]
  · rw [same .nonce (by simp), atNonce]
  · rw [same .ciphertext (by simp), atCiphertext]

/-- A trace is no part of what is encrypted. -/
theorem encrypted_of_traced {package : CryptoPackage} {m m' : PrismMessage}
    {owner : package.PrivateKey} {data : Bytes} (same : PrismMessage.SameBut [.debugInfo] m m')
    (encrypted : Encrypted package m owner data) : Encrypted package m' owner data := by
  refine encrypted_of_same ?_ encrypted
  simp only [List.forall_mem_cons, List.not_mem_nil, false_implies, implies_true, and_true]
  exact ⟨same _ (by decide) (by decide), same _ (by decide) (by decide),
    same _ (by decide) (by decide)⟩

/-- **What arrives**: the message that was sent, but for the address and the trace. -/
def Delivered (sent received : PrismMessage) : Prop :=
  received.Typed ∧
    PrismMessage.SameBut [.debugInfo, .destPartyId, .nonce, .pseudonym] sent received

theorem Delivered.get {sent received : PrismMessage} (delivered : Delivered sent received)
    {f : FieldName} (declared : f ∈ PrismMessage.names)
    (apart : f ∉ [FieldName.debugInfo, .destPartyId, .nonce, .pseudonym]) :
    received.get f = sent.get f :=
  delivered.2 f declared apart

theorem Delivered.mpcField {sent received : PrismMessage} (delivered : Delivered sent received)
    (f : FieldName) : mpcField received f = mpcField sent f := by
  unfold Lockfree.mpcField
  rw [delivered.get (by decide) (by decide)]

section Delivery

variable {package : CryptoPackage} (cbor : Cbor2) (builtins : Builtins) (now : ℤ)

/-- Addressing a message changes the address only. A message that has a nonce keeps it. -/
theorem addressed_ok {m : PrismMessage} (typed : m.Typed) (i : ℤ) (nonce pseudonym : Bytes) :
    ∃ sent, m.clone builtins now
        [(.destPartyId, .int i),
          (.nonce, if (m.get .nonce).truthy then m.get .nonce else .bytes nonce),
          (.pseudonym, .bytes pseudonym)] = .ok sent ∧
      sent.Typed ∧ PrismMessage.SameBut [.destPartyId, .nonce, .pseudonym] m sent ∧
      ((m.get .nonce).truthy = true → sent.get .nonce = m.get .nonce) := by
  have nonceTyped : (if (m.get .nonce).truthy then m.get .nonce else .bytes nonce) = Value.none ∨
      (if (m.get .nonce).truthy then m.get .nonce else .bytes nonce).isScalar .bytes = true := by
    split_ifs
    · exact PrismMessage.get_scalar typed rfl
    · exact .inr rfl
  obtain ⟨sent, cloned, sentTyped, same, given⟩ := PrismMessage.clone_sameBut builtins now typed
    [(.destPartyId, .int i), (.nonce, if (m.get .nonce).truthy then m.get .nonce else .bytes nonce),
      (.pseudonym, .bytes pseudonym)] (by simp) (by
        simp only [List.forall_mem_cons, List.not_mem_nil, false_implies, implies_true, and_true]
        exact ⟨PrismMessage.scalar_clonable rfl (.inr rfl),
          PrismMessage.scalar_clonable rfl nonceTyped,
          PrismMessage.scalar_clonable rfl (.inr rfl)⟩)
  refine ⟨sent, cloned, sentTyped, same, fun has => ?_⟩
  rw [given .nonce (by decide) _ rfl, if_pos has]

variable {partyId : ℤ} {senderKey receiverKey : package.PrivateKey} {peers : List DropboxPeer}
  {m : PrismMessage}

/-- A message that is not encrypted arrives as it was addressed. -/
theorem delivered_plain
    (plain : m.get .msgType ≠ .enum (.type .encryptPeerMessage)) {sent arrived : PrismMessage}
    (same : PrismMessage.SameBut [.destPartyId, .nonce, .pseudonym] m sent)
    (arrivedTyped : arrived.Typed) (traced : PrismMessage.SameBut [.debugInfo] sent arrived) :
    ∃ received, receivePeer package cbor builtins now receiverKey peers arrived =
      .ok (some received) ∧ Delivered m received := by
  have same' : PrismMessage.SameBut [.debugInfo, .destPartyId, .nonce, .pseudonym] m arrived :=
    (same.mono (by simp)).trans (traced.mono (by simp))
  have type : arrived.get .msgType = m.get .msgType := same' _ (by decide) (by decide)
  refine ⟨arrived, ?_, arrivedTyped, same'⟩
  unfold receivePeer
  split
  · next encrypted => exact absurd (type.symm.trans encrypted) plain
  · rfl

/-- The receiver knows the sender: at the party id of the sender it keeps the sender's key. -/
def Knows (peers : List DropboxPeer) (partyId : ℤ) (senderKey : package.PrivateKey) : Prop :=
  ∃ source halfKey, peerAt peers (.int partyId) = .ok source ∧ source.halfKey = some halfKey ∧
    toKey package (.object .halfKeyMap halfKey.fields) = .ok (some (package.publicKey senderKey))

/-- What `handle_enc_peer` makes of a message that carries another one, encrypted for the
receiver. -/
theorem handleEncPeer_ok (knows : Knows peers partyId senderKey) (typed : m.Typed)
    {arrived : PrismMessage} (arrivedTyped : arrived.Typed) {nonce ciphertext data : Bytes}
    (from_sender : arrived.get .partyId = .int partyId) (noKey : arrived.get .halfKey = .none)
    (nonce_ne : nonce ≠ []) (ciphertext_ne : ciphertext ≠ [])
    (atNonce : arrived.get .nonce = .bytes nonce)
    (atCiphertext : arrived.get .ciphertext = .bytes ciphertext)
    (back : package.aesDecrypt (exchange package receiverKey (package.publicKey senderKey) [])
      nonce ciphertext = .ok data)
    (decoded : PrismMessage.decode cbor builtins now data = .ok (some m)) :
    ∃ received, handleEncPeer package cbor builtins now receiverKey peers arrived =
      .ok (some received) ∧ Delivered m received := by
  obtain ⟨source, halfKey, atSource, sourceKey, toSender⟩ := knows
  have sender : Crypto.senderKey package arrived (some (package.publicKey senderKey)) =
      .ok (some (package.publicKey senderKey)) := by
    rw [Crypto.senderKey, noKey]
    rfl
  have decrypted : decrypt package cbor builtins now arrived receiverKey
      (some (package.publicKey senderKey)) = .ok (some m) :=
    decrypt_of_data
      (decryptData_of_key sender nonce_ne ciphertext_ne atNonce atCiphertext back) decoded
  have pseudonymTyped : (if (m.get .pseudonym).truthy then m.get .pseudonym
      else arrived.get .pseudonym) = Value.none ∨ (if (m.get .pseudonym).truthy then
        m.get .pseudonym else arrived.get .pseudonym).isScalar .bytes = true := by
    split_ifs
    · exact PrismMessage.get_scalar typed rfl
    · exact PrismMessage.get_scalar arrivedTyped rfl
  obtain ⟨received, cloned, receivedTyped, same, -⟩ := PrismMessage.clone_sameBut builtins now typed
    [(.destPartyId, arrived.get .destPartyId), (.pseudonym,
      if (m.get .pseudonym).truthy then m.get .pseudonym else arrived.get .pseudonym)]
    (by simp) (by
      simp only [List.forall_mem_cons, List.not_mem_nil, false_implies, implies_true, and_true]
      exact ⟨PrismMessage.scalar_clonable rfl (PrismMessage.get_scalar arrivedTyped rfl),
        PrismMessage.scalar_clonable rfl pseudonymTyped⟩)
  refine ⟨received, ?_, receivedTyped, same.mono (by simp)⟩
  rw [handleEncPeer, from_sender, atSource]
  simp only [ok_bind, sourceKey, toSender, decrypted]
  rw [cloned]
  rfl

/-- **Members that know each other's keys deliver their messages**, encrypted or not. The
message may be traced on its way. -/
theorem delivered_of_send {peer : DropboxPeer}
    (known : ∀ halfKey, peer.halfKey = some halfKey →
      toKey package (.object .halfKeyMap halfKey.fields) =
        .ok (some (package.publicKey receiverKey)))
    (knows : Knows peers partyId senderKey) (typed : m.Typed)
    (plain : m.get .msgType ≠ .enum (.type .encryptPeerMessage)) (acked encryptPeer : Bool)
    (fresh : Fresh package) (nonce : Bytes) :
    ∃ sent, sendToPeer package cbor builtins now partyId senderKey acked encryptPeer peer m fresh
        nonce = .ok sent ∧ sent.Typed ∧
      ∀ arrived, arrived.Typed → PrismMessage.SameBut [.debugInfo] sent arrived →
        ∃ received, receivePeer package cbor builtins now receiverKey peers arrived =
          .ok (some received) ∧ Delivered m received := by
  obtain ⟨sent, addressed, sentTyped, same, -⟩ :=
    addressed_ok builtins now typed peer.partyId nonce peer.pseudonym
  have unencrypted : ∀ arrived, arrived.Typed → PrismMessage.SameBut [.debugInfo] sent arrived →
      ∃ received, receivePeer package cbor builtins now receiverKey peers arrived =
        .ok (some received) ∧ Delivered m received :=
    fun arrived arrivedTyped traced =>
      delivered_plain cbor builtins now plain same arrivedTyped traced
  unfold sendToPeer
  by_cases isLocal : peer.isLocal = true
  · rw [if_pos isLocal]
    exact ⟨sent, addressed, sentTyped, unencrypted⟩
  rw [if_neg isLocal]
  unfold encryptPeerMessage
  cases key : peer.halfKey with
  | none => exact ⟨sent, addressed, sentTyped, unencrypted⟩
  | some halfKey =>
      dsimp only
      by_cases configured : (acked && encryptPeer) = true
      · obtain ⟨data, ciphertext, run, ciphertext_ne, back, decoded⟩ := @encrypt_ok package cbor
          builtins m typed senderKey (package.publicKey receiverKey) fresh.nonce fresh.nonce_ne_nil
        set packed := PrismMessage.create fresh.now .encryptPeerMessage
          [(.pseudonym, .bytes peer.pseudonym), (.ciphertext, .bytes ciphertext),
            (.nonce, .bytes fresh.nonce), (.partyId, .int partyId)] with hpacked
        have packedTyped : packed.Typed := by
          apply PrismMessage.typed_create
          simp only [List.forall_mem_cons, List.not_mem_nil, false_implies, implies_true, and_true]
          exact ⟨rfl, rfl, rfl, rfl⟩
        obtain ⟨sent, addressed, sentTyped, same, ownNonce⟩ :=
          addressed_ok builtins now packedTyped peer.partyId nonce peer.pseudonym
        refine ⟨sent, ?_, sentTyped, fun arrived arrivedTyped traced => ?_⟩
        · rw [if_pos configured, known halfKey key]
          simp only [ok_bind, run, if_neg ciphertext_ne]
          exact addressed
        · have keeps : PrismMessage.SameBut [.debugInfo, .destPartyId, .nonce, .pseudonym] packed
              arrived := (same.mono (by simp)).trans (traced.mono (by simp))
          have atNonce : arrived.get .nonce = .bytes fresh.nonce := by
            rw [traced _ (by decide) (by decide), ownNonce]
            · rfl
            · exact decide_eq_true fresh.nonce_ne_nil
          rw [receivePeer, keeps .msgType (by decide) (by decide)]
          apply handleEncPeer_ok cbor builtins now knows typed arrivedTyped _ _
            fresh.nonce_ne_nil ciphertext_ne atNonce _ _ (decoded now)
          · exact keeps .partyId (by decide) (by decide)
          · exact keeps .halfKey (by decide) (by decide)
          · exact keeps .ciphertext (by decide) (by decide)
          · rw [exchange_comm, back]
      · rw [if_neg configured]
        exact ⟨sent, addressed, sentTyped, unencrypted⟩

end Delivery

end Prism.Lockfree
