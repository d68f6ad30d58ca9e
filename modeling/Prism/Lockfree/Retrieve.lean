import Prism.Lockfree.Dropbox
import Prism.Lockfree.Poll

/-!
Storing and retrieving the fragments of a message
(`prism/server/CS2/roles/lockfree/dropbox.py`).

To store a message, the leader of the committee passes each member the part that the client
encrypted for it. To retrieve one, it asks the members that are known to hold a fragment of it,
each member encrypts its fragment for the client, and the leader collects the fragments of a
message from the responses. The two rounds of messages are those of `send_and_gather`: here the
requests and what is made of the responses.

* `handleStoreRequest_ok`: a member stores the part that was encrypted for it.
* `handleRetrieveOp_ok`: a member answers with the fragments that it holds.
* `collected_ok`: the leader finds the fragments of a message in the responses.
-/

namespace Prism.Lockfree

open Crypto

/-- `RetrievedMessage`. -/
structure RetrievedMessage where
  fragmentId : Bytes
  submessages : List Value

namespace LockFreeDropbox

/-! ### Storing -/

section Store

variable (package : CryptoPackage) (cbor : Cbor2) (builtins : Builtins)
  (tracer : Tracer SpanContext)

/-- The peer that a message names by its party id, where the code asks whether it is online. -/
def addressee (self : LockFreeDropbox) (message : PrismMessage) : Py DropboxPeer :=
  match message.get .partyId with
  | .int i => peerAt self.peers (.int i)
  | _ => .error .attributeError

/-- The request of `attempt_store_task` for one part, if its addressee is online and not known
to have stored the fragment. -/
def storeRequest (self : LockFreeDropbox) (reachable : List Bytes) (now : ℤ) (fragmentId : Bytes)
    (context : Option SpanContext) (m : PrismMessage) :
    Py (Option (DropboxPeer × PrismMessage)) := do
  let peer ← self.addressee m
  if online reachable peer && !peer.storedFragments.contains fragmentId then
    let traced ← injectSpanContext tracer builtins now m context
    return some (peer, request now self.partyId .storeFragment fragmentId
      [(.subMsg, traced.toValue)])
  else return none

/-- The requests of `attempt_store_task`. -/
def storeRequests (self : LockFreeDropbox) (reachable : List Bytes) (now : ℤ) (fragmentId : Bytes)
    (context : Option SpanContext) (submessages : Value) :
    Py (List (DropboxPeer × PrismMessage)) := do
  let requests ← (← listedMessages submessages).mapM
    (self.storeRequest builtins tracer reachable now fragmentId context)
  return requests.filterMap id

/-- What a request to store says: the fragment, what was decrypted, and the context. A decrypted
message without a share or a ciphertext is not stored. -/
def readStoreRequest (privateKey : package.PrivateKey) (now : ℤ) (message : PrismMessage) :
    Py (Bytes × Option SubMessage × Option SpanContext) := do
  let requestId ← mpcField message .requestId
  match requestId.bytes?, PrismMessage.ofValue? (message.get .subMsg) with
  | some fragmentId, some encrypted =>
    let context ← extractSpanContext tracer encrypted
    match ← decrypt package cbor builtins now encrypted privateKey none with
    | none => return (fragmentId, none, context)
    | some decrypted =>
      match (decrypted.get .pseudonymShare).int?, (decrypted.get .ciphertext).bytes? with
      | some share, some ciphertext => return (fragmentId, some ⟨share, ciphertext⟩, context)
      | _, _ => throw .attributeError
  | _, _ => throw .attributeError

/-- `handle_store_op`: the response, if the request was decrypted. -/
def handleStoreRequest (privateKey : package.PrivateKey) (now : ℤ) (message : PrismMessage) :
    Lib.Handler Life PyError (Option (DropboxPeer × PrismMessage)) := do
  let (fragmentId, decrypted, context) ←
    Lib.Handler.lift (readStoreRequest package cbor builtins tracer privateKey now message)
  handleStoreOp cbor fragmentId decrypted context
  if decrypted.isNone then return none
  let life ← get
  let response ← Lib.Handler.lift (respondTo now life.memory.partyId life.memory.peers message
    [(.opSuccess, .bool true)])
  return some response

end Store

/-! ### Retrieving -/

section Retrieve

variable (package : CryptoPackage) (cbor : Cbor2) (builtins : Builtins)
  (tracer : Tracer SpanContext)

/-- The peers that `retrieve_task` asks: those online that are known to hold one of the
fragments, and for which the client sent a message. -/
def retrievePeers (self : LockFreeDropbox) (reachable : List Bytes) (poll : Poll package)
    (fragments : List Bytes) : List DropboxPeer :=
  self.peers.filter fun peer => online reachable peer &&
    peer.storedFragments.any (fragments.contains ·) &&
    (poll.peerFragments.map Prod.fst).contains (some peer.partyId)

/-- The requests of `retrieve_task`. -/
def retrieveRequests (self : LockFreeDropbox) (reachable : List Bytes) (poll : Poll package)
    (fragments : List Bytes) (now : ℤ) (opId : Bytes) : Py (List (DropboxPeer × PrismMessage)) :=
  (self.retrievePeers package reachable poll fragments).mapM fun peer =>
    match poll.peerFragments.lookup (some peer.partyId) with
    | some fragment => return (peer, request now self.partyId .retrieve opId
        [(.targetFragments, .list (fragments.map Value.bytes)), (.subMsg, fragment.toValue)])
    | none => throw .keyError

/-- The message in which a member sends a fragment that it holds. -/
def fragmentMessage (partyId : ℤ) (clientKey : Option package.PublicKey) (fragment : KeptFragment)
    (fresh : Fresh package) : Py PrismMessage := do
  match clientKey with
  | none => throw .attributeError
  | some clientKey =>
    let halfKey ← fromKey package builtins (package.publicKey fresh.privateKey)
    let ciphertext ←
      encryptData package fragment.ciphertext fresh.privateKey clientKey fresh.nonce
    let message := PrismMessage.create fresh.now .encryptedMessageFragment
      [(.partyId, .int partyId), (.nonce, .bytes fresh.nonce), (.halfKey, halfKey),
        (.ciphertext, .bytes ciphertext)]
    injectSpanContext tracer builtins fresh.now message fragment.storeContext

/-- The targets that a member holds, with their fragments and their places. -/
def heldTargets (self : LockFreeDropbox) (targets : List Value) :
    List (Value × KeptFragment × ℕ) :=
  targets.zipIdx.filterMap fun (target, k) =>
    (target.bytes?.bind fun id => self.storedFragments.lookup id).map fun fragment =>
      (target, fragment, k)

/-- `handle_retrieve_op`: the response. The fragment in the `k`-th place is encrypted with the
`k`-th draw. -/
def handleRetrieveOp (self : LockFreeDropbox) (privateKey : package.PrivateKey) (now : ℤ)
    (fresh : ℕ → Fresh package) (message : PrismMessage) : Py (DropboxPeer × PrismMessage) := do
  match PrismMessage.ofValue? (message.get .subMsg) with
  | none => throw .attributeError
  | some subMsg =>
    match ← decrypt package cbor builtins now subMsg privateKey none with
    | none => throw .attributeError
    | some reqInfo =>
      let targets ← mpcField message .targetFragments
      let clientKey ← toKey package (reqInfo.get .halfKey)
      match targets with
      | .list targets =>
        let held := self.heldTargets targets
        let messages ← held.mapM fun (_, fragment, k) =>
          fragmentMessage package builtins tracer self.partyId clientKey fragment (fresh k)
        respondTo now self.partyId self.peers message
          [(.submessages, .list (messages.map PrismMessage.toValue)),
            (.targetFragments, .list (held.map Prod.fst)), (.opSuccess, .bool true)]
      | _ => throw .typeError

/-- `fragment_responses[fragment_id].append(submessage)`. -/
def addSubmessage (found : List (Bytes × List Value)) (fragmentId submessage : Value) :
    Py (List (Bytes × List Value)) :=
  match fragmentId.bytes? with
  | none => .error .keyError
  | some fragmentId =>
    match found.lookup fragmentId with
    | some submessages => .ok (dictSet found fragmentId (submessages ++ [submessage]))
    | none => .error .keyError

/-- The fragments of one response are added to those of their messages. -/
def addResponse (found : List (Bytes × List Value)) (response : PrismMessage) :
    Py (List (Bytes × List Value)) := do
  match ← mpcField response .targetFragments, response.get .submessages with
  | .list targets, .list submessages =>
    (targets.zip submessages).foldlM (fun found e => addSubmessage found e.1 e.2) found
  | _, _ => throw .typeError

/-- What `retrieve_task` makes of the responses: the messages of which enough fragments came,
cut down to the threshold if replies are to be minimal. -/
def collected (threshold : ℕ) (minimalReplies : Bool) (fragments : List Bytes)
    (responses : List PrismMessage) : Py (List RetrievedMessage) := do
  let found ← responses.foldlM addResponse (dictOf (fragments.map fun id => (id, [])))
  return found.filterMap fun (fragmentId, submessages) =>
    if submessages.length < threshold then none
    else some ⟨fragmentId, if minimalReplies then submessages.take threshold else submessages⟩

end Retrieve

/-! ### Members -/

/-- The dropbox is the one of the `j`-th of `n` members. -/
structure IsMember (n j : ℕ) (dropbox : LockFreeDropbox) : Prop where
  lt : j < n
  partyId : dropbox.partyId = j
  peers : dropbox.peers.map (fun peer => peer.partyId) = (List.range n).map Int.ofNat

section Members

variable {n j : ℕ} {self : LockFreeDropbox}

theorem IsMember.length (member : IsMember n j self) : self.peers.length = n := by
  have lengths := congrArg List.length member.peers
  rwa [List.length_map, List.length_map, List.length_range] at lengths

theorem pyPlace_of_lt {i : ℕ} (lt : i < n) : pyPlace n i = some i := by
  rw [pyPlace, if_pos (by omega), if_pos (by omega)]
  exact congrArg some (Int.toNat_natCast i)

theorem IsMember.place (member : IsMember n j self) :
    pyPlace self.peers.length self.partyId = some j := by
  rw [member.length, member.partyId, pyPlace_of_lt member.lt]

/-- The `i`-th peer has the party id `i`. -/
theorem IsMember.peerAt (member : IsMember n j self) {i : ℕ} (lt : i < n) :
    ∃ peer, peerAt self.peers (.int i) = .ok peer ∧ peer.partyId = i ∧ peer ∈ self.peers := by
  have inside : i < self.peers.length := by
    rw [member.length]
    exact lt
  have found : self.peers[i]? = some self.peers[i] := List.getElem?_eq_getElem inside
  refine ⟨self.peers[i], ?_, ?_, List.getElem_mem inside⟩
  · rw [Lockfree.peerAt, member.length, pyPlace_of_lt lt, Option.bind_some, found]
  · have ids := congrArg (fun ids : List ℤ => ids[i]?) member.peers
    simp only [List.getElem?_map, found, Option.map_some, List.getElem?_range lt] at ids
    exact Option.some.inj ids

/-- A member stays one where peers change in other fields. -/
theorem IsMember.modify (member : IsMember n j self) {f : DropboxPeer → DropboxPeer}
    (same : ∀ peer, (f peer).partyId = peer.partyId) (k : ℕ)
    (storedFragments : List (Bytes × KeptFragment)) :
    IsMember n j { self with peers := self.peers.modify k f, storedFragments } where
  lt := member.lt
  partyId := member.partyId
  peers := (map_modify same self.peers k).trans member.peers

/-- The response of a member to a request of another one. -/
theorem IsMember.respondTo (member : IsMember n j self) {i : ℕ} (requester : i < n)
    {sentAt : ℤ} {action : ActionEnum} {opId : Bytes} {given : List (FieldName × Value)}
    {message : PrismMessage} (delivered : Delivered (request sentAt i action opId given) message)
    (now : ℤ) (kwargs : List (FieldName × Value)) :
    ∃ peer, respondTo now self.partyId self.peers message kwargs = .ok (peer,
      mpcMessage now j .mpcResponse (.enum (.action action)) (.bytes opId) kwargs) := by
  obtain ⟨peer, atPeer, -, -⟩ := member.peerAt requester
  have source : message.get .partyId = .int i := delivered.get (by decide) (by decide)
  have atAction : mpcField message .action = .ok (.enum (.action action)) :=
    delivered.mpcField .action
  have atId : mpcField message .requestId = .ok (.bytes opId) := delivered.mpcField .requestId
  refine ⟨peer, ?_⟩
  rw [Lockfree.respondTo, source, atPeer, ok_bind, atAction, ok_bind, atId, ok_bind,
    member.partyId]
  rfl

end Members

/-! ### What a member stores -/

section Stored

variable {package : CryptoPackage} {cbor : Cbor2} {builtins : Builtins}
  {tracer : Tracer SpanContext} {n i j : ℕ} {owner : package.PrivateKey} {now : ℤ}
  {encrypted inner message : PrismMessage} {data : Bytes}

/-- **A member stores what was encrypted for it.** -/
theorem handleStoreRequest_ok {life : Life} (member : IsMember n j life.memory) (requester : i < n)
    (traceable : Traceable tracer encrypted) (sealed_ : Encrypted package encrypted owner data)
    (decoded : PrismMessage.decode cbor builtins now data = .ok (some inner)) {share : ℤ}
    {ciphertext : Bytes} (atShare : inner.get .pseudonymShare = .int share)
    (atCiphertext : inner.get .ciphertext = .bytes ciphertext) {sentAt : ℤ} {fragmentId : Bytes}
    (delivered : Delivered (request sentAt i .storeFragment fragmentId
      [(.subMsg, encrypted.toValue)]) message) :
    ∃ life' response context,
      (handleStoreRequest package cbor builtins tracer owner now message).exec life =
        (life', .ok (some response)) ∧
      life'.memory.storedFragments.lookup fragmentId =
        some ⟨⟨fragmentId, ⟨share, j⟩, ciphertext⟩, context⟩ ∧
      IsMember n j life'.memory := by
  obtain ⟨context, extracted⟩ := traceable
  have atId : mpcField message .requestId = .ok (.bytes fragmentId) :=
    delivered.mpcField .requestId
  have atSubMsg : message.get .subMsg = encrypted.toValue :=
    delivered.get (by decide) (by decide)
  have read : readStoreRequest package cbor builtins tracer owner now message =
      .ok (fragmentId, some ⟨share, ciphertext⟩, context) := by
    rw [readStoreRequest, atId, ok_bind, atSubMsg, PrismMessage.ofValue?_toValue]
    dsimp only [Value.bytes?]
    rw [extracted, ok_bind, sealed_.decrypt_eq decoded, ok_bind]
    dsimp only
    rw [atShare, atCiphertext]
    rfl
  obtain ⟨life', stored, memory, -⟩ := @exec_handleStoreOp cbor life j member.place fragmentId
    ⟨share, ciphertext⟩ context
  have member' : IsMember n j life'.memory := by
    rw [memory]
    exact member.modify (f := fun peer =>
      { peer with storedFragments := setAdd peer.storedFragments fragmentId }) (fun _ => rfl) j _
  obtain ⟨peer, response⟩ :=
    member'.respondTo requester delivered now [(.opSuccess, .bool true)]
  refine ⟨life', (peer, mpcMessage now j .mpcResponse (.enum (.action .storeFragment))
    (.bytes fragmentId) [(.opSuccess, .bool true)]), context, ?_, ?_, member'⟩
  · rw [handleStoreRequest, Lib.Handler.exec_bind, Lib.Handler.exec_lift, read]
    dsimp only
    rw [Lib.Handler.exec_bind_of_ok stored]
    simp only [Option.isNone_some, Bool.false_eq_true, if_false]
    rw [Lib.Handler.exec_bind_of_ok (Lib.Handler.exec_get _), Lib.Handler.exec_bind,
      Lib.Handler.exec_lift, response]
    rfl
  · rw [memory, lookup_dictSet, if_pos rfl, member.partyId]

end Stored

/-! ### What a member answers -/

/-- A fragment that a member sends to a client. -/
structure IsPart {package : CryptoPackage} (tracer : Tracer SpanContext) (j : ℕ)
    (client : package.PrivateKey) (fragment : KeptFragment) (m : PrismMessage) : Prop where
  typed : m.Typed
  traceable : Traceable tracer m
  partyId : m.get .partyId = .int j
  encrypted : fragment.ciphertext ≠ [] → Encrypted package m client fragment.ciphertext

/-- The response lists the fragments of some ids. -/
def Lists (response : PrismMessage) (entries : List (Bytes × PrismMessage)) : Prop :=
  mpcField response .targetFragments = .ok (.list (entries.map fun e => .bytes e.1)) ∧
    response.get .submessages = .list (entries.map fun e => e.2.toValue)

theorem Lists.delivered {response received : PrismMessage} {entries : List (Bytes × PrismMessage)}
    (lists : Lists response entries) (delivered : Delivered response received) :
    Lists received entries := by
  constructor
  · rw [delivered.mpcField]
    exact lists.1
  · rw [delivered.get (by decide) (by decide)]
    exact lists.2

section Answers

variable {package : CryptoPackage} {cbor : Cbor2} {builtins : Builtins}
  {tracer : Tracer SpanContext} {n i j : ℕ} {owner client : package.PrivateKey} {now : ℤ}
  {encrypted inner message : PrismMessage} {data : Bytes}

/-- The message with a fragment. -/
theorem fragmentMessage_ok (j : ℕ) (client : package.PrivateKey) (fragment : KeptFragment)
    (fresh : Fresh package) :
    ∃ m, fragmentMessage package builtins tracer j (some (package.publicKey client)) fragment
      fresh = .ok m ∧ IsPart tracer j client fragment m := by
  obtain ⟨ciphertext, run, length, back⟩ := package.decrypt_encrypt
    (exchange package fresh.privateKey (package.publicKey client) []) fresh.nonce
    fragment.ciphertext (package.hkdf_length _ _) fresh.nonce_ne_nil
  set m := PrismMessage.create fresh.now .encryptedMessageFragment
    [(.partyId, .int j), (.nonce, .bytes fresh.nonce),
      (.halfKey, halfKeyMap package (package.publicKey fresh.privateKey)),
      (.ciphertext, .bytes ciphertext)] with hm
  have typed : m.Typed := by
    apply PrismMessage.typed_create
    simp only [List.forall_mem_cons, List.not_mem_nil, false_implies, implies_true, and_true]
    exact ⟨rfl, rfl, rfl, rfl⟩
  obtain ⟨m', injected, typed', same, traceable⟩ :=
    injectSpanContext_ok tracer builtins fresh.now typed fragment.storeContext
  refine ⟨m', ?_, typed', traceable ⟨none, rfl⟩, ?_, fun ne => ?_⟩
  · rw [fragmentMessage]
    dsimp only
    rw [fromKey_eq, ok_bind, encryptData, run, ok_bind, ← hm, injected]
  · rw [same _ (by decide) (by decide)]
    rfl
  · have ciphertext_ne : ciphertext ≠ [] := by
      rintro rfl
      exact ne (List.eq_nil_of_length_eq_zero length.symm)
    have encrypted : Encrypted package m client fragment.ciphertext :=
      ⟨fresh.privateKey, fresh.nonce, ciphertext, fresh.nonce_ne_nil, ciphertext_ne, rfl, rfl, rfl,
        back⟩
    exact encrypted_of_traced same encrypted

/-- The targets that a member holds, of some ids. -/
theorem heldTargets_bytes (self : LockFreeDropbox) (ids : List Bytes) :
    ∃ held : List (Bytes × KeptFragment × ℕ),
      self.heldTargets (ids.map Value.bytes) = held.map (fun e => (Value.bytes e.1, e.2)) ∧
      (∀ e ∈ held, self.storedFragments.lookup e.1 = some e.2.1) ∧
      held.map Prod.fst = ids.filter fun id => (self.storedFragments.lookup id).isSome := by
  have from_place : ∀ k, ∃ held : List (Bytes × KeptFragment × ℕ),
      ((ids.map Value.bytes).zipIdx k).filterMap (fun (target, k) =>
        (target.bytes?.bind fun id => self.storedFragments.lookup id).map fun fragment =>
          (target, fragment, k)) = held.map (fun e => (Value.bytes e.1, e.2)) ∧
      (∀ e ∈ held, self.storedFragments.lookup e.1 = some e.2.1) ∧
      held.map Prod.fst = ids.filter fun id => (self.storedFragments.lookup id).isSome := by
    induction ids with
    | nil => exact fun k => ⟨[], rfl, by simp, rfl⟩
    | cons id ids ih =>
        intro k
        obtain ⟨held, rest, lookups, listed⟩ := ih (k + 1)
        rw [List.map_cons, List.zipIdx_cons, List.filterMap_cons]
        cases found : self.storedFragments.lookup id with
        | none =>
            refine ⟨held, ?_, lookups, ?_⟩
            · simpa [Value.bytes?, found] using rest
            · simpa [found] using listed
        | some fragment =>
            refine ⟨(id, fragment, k) :: held, ?_, ?_, ?_⟩
            · simpa [Value.bytes?, found] using rest
            · rw [List.forall_mem_cons]
              exact ⟨found, lookups⟩
            · simpa [found] using listed
  exact from_place 0

/-- The fields of a response that lists some fragments. -/
def listing (entries : List (Bytes × PrismMessage)) : List (FieldName × Value) :=
  [(.submessages, .list (entries.map fun e => e.2.toValue)),
    (.targetFragments, .list (entries.map fun e => .bytes e.1)), (.opSuccess, .bool true)]

theorem hasElements_ids (entries : List (Bytes × PrismMessage)) :
    Value.hasElements (entries.map fun e => Value.bytes e.1) (.scalar .bytes) = true := by
  induction entries with
  | nil => rfl
  | cons e entries ih => exact ih

theorem listing_typed {entries : List (Bytes × PrismMessage)} (typed : ∀ e ∈ entries, e.2.Typed)
    (now j : ℤ) (opId : Bytes) :
    (mpcMessage now j .mpcResponse (.enum (.action .retrieve)) (.bytes opId)
      (listing entries)).Typed := by
  have parts : Value.hasElements (entries.map fun e => e.2.toValue) (.generic .prismMessage) =
      true := by
    have split : (entries.map fun e => e.2.toValue) =
        (entries.map Prod.snd).map PrismMessage.toValue := by
      rw [List.map_map]
      rfl
    rw [split]
    apply hasElements_messages
    intro m mem
    obtain ⟨e, inEntries, rfl⟩ := List.mem_map.mp mem
    exact typed e inEntries
  apply mpcMessage_typed rfl rfl
  · change ∀ arg ∈ [(FieldName.targetFragments, Value.list (entries.map fun e => .bytes e.1)),
      (.opSuccess, .bool true)], argumentTyped .mpcMap arg = true
    simp only [List.forall_mem_cons, List.not_mem_nil, false_implies, implies_true, and_true]
    exact ⟨argumentTyped_list rfl (hasElements_ids entries), rfl⟩
  · change ∀ arg ∈ [(FieldName.submessages, Value.list (entries.map fun e => e.2.toValue))],
      argumentTyped .prismMessage arg = true
    simp only [List.forall_mem_cons, List.not_mem_nil, false_implies, implies_true, and_true]
    exact argumentTyped_list rfl parts

theorem listing_lists (entries : List (Bytes × PrismMessage)) (now j : ℤ) (opId : Bytes) :
    Lists (mpcMessage now j .mpcResponse (.enum (.action .retrieve)) (.bytes opId)
      (listing entries)) entries :=
  ⟨rfl, rfl⟩

/-- **A member answers with the fragments that it holds**, each encrypted for the client. -/
theorem handleRetrieveOp_ok {self : LockFreeDropbox} (member : IsMember n j self)
    (requester : i < n) (sealed_ : Encrypted package encrypted owner data)
    (decoded : PrismMessage.decode cbor builtins now data = .ok (some inner))
    (halfKey : inner.get .halfKey = halfKeyMap package (package.publicKey client)) {sentAt : ℤ}
    {opId : Bytes} {fragments : List Bytes}
    (delivered : Delivered (request sentAt i .retrieve opId
      [(.targetFragments, .list (fragments.map Value.bytes)), (.subMsg, encrypted.toValue)])
      message) (fresh : ℕ → Fresh package) :
    ∃ peer response entries, handleRetrieveOp package cbor builtins tracer self owner now fresh
        message = .ok (peer, response) ∧ response.Typed ∧
      response.get .msgType = .enum (.type .mpcResponse) ∧ Lists response entries ∧
      entries.map Prod.fst = fragments.filter (fun id => (self.storedFragments.lookup id).isSome) ∧
      ∀ e ∈ entries, ∃ fragment, self.storedFragments.lookup e.1 = some fragment ∧
        IsPart tracer j client fragment e.2 := by
  obtain ⟨held, targets, lookups, ids⟩ := heldTargets_bytes self fragments
  choose sub made part using fun e : Bytes × KeptFragment × ℕ =>
    @fragmentMessage_ok package builtins tracer j client e.2.1 (fresh e.2.2)
  obtain ⟨peer, responds⟩ :=
    member.respondTo requester delivered now (listing (held.map fun e => (e.1, sub e)))
  have atSubMsg : message.get .subMsg = encrypted.toValue := delivered.get (by decide) (by decide)
  have atTargets : mpcField message .targetFragments = .ok (.list (fragments.map Value.bytes)) :=
    delivered.mpcField .targetFragments
  have messages : (held.map fun e => (Value.bytes e.1, e.2)).mapM (fun e =>
      fragmentMessage package builtins tracer self.partyId (some (package.publicKey client)) e.2.1
        (fresh e.2.2)) = .ok (held.map sub) := by
    rw [List.mapM_map, member.partyId]
    exact mapM_ok fun e _ => made e
  have fields : [(FieldName.submessages, Value.list ((held.map sub).map PrismMessage.toValue)),
      (.targetFragments, .list ((held.map fun e => (Value.bytes e.1, e.2)).map Prod.fst)),
      (.opSuccess, .bool true)] = listing (held.map fun e => (e.1, sub e)) := by
    simp only [listing, List.map_map]
    rfl
  refine ⟨peer, _, held.map fun e => (e.1, sub e), ?_, listing_typed ?_ now j opId, rfl,
    listing_lists _ now j opId, ?_, ?_⟩
  · rw [handleRetrieveOp, atSubMsg, PrismMessage.ofValue?_toValue]
    dsimp only
    rw [sealed_.decrypt_eq decoded, ok_bind]
    dsimp only
    rw [atTargets, ok_bind, halfKey, toKey_halfKeyMap, ok_bind]
    dsimp only
    rw [targets, messages, ok_bind]
    rw [fields]
    exact responds
  · intro e mem
    obtain ⟨source, -, rfl⟩ := List.mem_map.mp mem
    exact (part source).typed
  · rw [List.map_map]
    exact ids
  · intro e mem
    obtain ⟨source, inHeld, rfl⟩ := List.mem_map.mp mem
    exact ⟨source.2.1, lookups source inHeld, part source⟩

end Answers

/-! ### What the leader collects -/

section Collected

variable {found : List (Bytes × List Value)}

/-- The fragments of one id among some entries. -/
def partsOf (entries : List (Bytes × PrismMessage)) (id : Bytes) : List PrismMessage :=
  (entries.filter fun e => e.1 = id).map Prod.snd

theorem partsOf_of_mem {entries : List (Bytes × PrismMessage)}
    (nodup : (entries.map Prod.fst).Nodup) {id : Bytes} {m : PrismMessage}
    (mem : (id, m) ∈ entries) : partsOf entries id = [m] := by
  induction entries with
  | nil => cases mem
  | cons e entries ih =>
      rw [List.map_cons, List.nodup_cons] at nodup
      obtain ⟨fresh, rest⟩ := nodup
      rcases List.mem_cons.mp mem with rfl | inRest
      · have others : entries.filter (fun e => e.1 = id) = [] := by
          rw [List.filter_eq_nil_iff]
          intro e inEntries same
          exact fresh (List.mem_map.mpr ⟨e, inEntries, of_decide_eq_true same⟩)
        simp [partsOf, others]
      · have ne : e.1 ≠ id := by
          rintro rfl
          exact fresh (List.mem_map.mpr ⟨(e.1, m), inRest, rfl⟩)
        simpa [partsOf, ne] using ih rest inRest

theorem partsOf_of_not_mem {entries : List (Bytes × PrismMessage)} {id : Bytes}
    (absent : id ∉ entries.map Prod.fst) : partsOf entries id = [] := by
  rw [partsOf, List.filter_eq_nil_iff.mpr]
  · rfl
  · intro e mem same
    exact absent (List.mem_map.mpr ⟨e, mem, of_decide_eq_true same⟩)

/-- Entries for known ids are added to what was found of them. -/
theorem addSubmessages_ok {entries : List (Bytes × PrismMessage)}
    (known : ∀ e ∈ entries, e.1 ∈ found.map Prod.fst) :
    ∃ found', (entries.map fun e => (Value.bytes e.1, e.2.toValue)).foldlM
        (fun found e => addSubmessage found e.1 e.2) found = .ok found' ∧
      found'.map Prod.fst = found.map Prod.fst ∧
      ∀ id, found'.lookup id =
        (found.lookup id).map (· ++ (partsOf entries id).map PrismMessage.toValue) := by
  induction entries generalizing found with
  | nil => exact ⟨found, rfl, rfl, fun id => by simp [partsOf]⟩
  | cons e entries ih =>
      obtain ⟨here, others⟩ := List.forall_mem_cons.mp known
      obtain ⟨before, inFound, same⟩ := List.mem_map.mp here
      obtain ⟨submessages, at_e⟩ : ∃ submessages, found.lookup e.1 = some submessages :=
        Option.isSome_iff_exists.mp (List.lookup_isSome_iff.mpr ⟨before, inFound, by simp [same]⟩)
      set next := dictSet found e.1 (submessages ++ [e.2.toValue]) with hnext
      have keys : next.map Prod.fst = found.map Prod.fst := by
        rw [hnext, keys_dictSet, if_pos here]
      obtain ⟨found', run, keys', lookups⟩ := @ih next fun other mem => keys ▸ others other mem
      refine ⟨found', ?_, keys'.trans keys, fun id => ?_⟩
      · rw [List.map_cons, List.foldlM_cons, addSubmessage]
        dsimp only [Value.bytes?]
        rw [at_e, ok_bind, run]
      · rw [lookups id, hnext, lookup_dictSet]
        by_cases this : e.1 = id
        · subst this
          simp [partsOf, at_e]
        · simp [partsOf, this, Ne.symm this]

/-- One response is added. -/
theorem addResponse_ok {response : PrismMessage} {entries : List (Bytes × PrismMessage)}
    (lists : Lists response entries) (known : ∀ e ∈ entries, e.1 ∈ found.map Prod.fst) :
    ∃ found', addResponse found response = .ok found' ∧
      found'.map Prod.fst = found.map Prod.fst ∧
      ∀ id, found'.lookup id =
        (found.lookup id).map (· ++ (partsOf entries id).map PrismMessage.toValue) := by
  obtain ⟨found', run, keys, lookups⟩ := addSubmessages_ok known
  refine ⟨found', ?_, keys, lookups⟩
  rw [addResponse, lists.1, ok_bind, lists.2]
  dsimp only
  rw [List.zip_map', run]

/-- All responses are added. -/
theorem addResponses_ok {ι : Type} {js : List ι} {response : ι → PrismMessage}
    {entries : ι → List (Bytes × PrismMessage)} (lists : ∀ j ∈ js, Lists (response j) (entries j))
    (known : ∀ j ∈ js, ∀ e ∈ entries j, e.1 ∈ found.map Prod.fst) :
    ∃ found', (js.map response).foldlM addResponse found = .ok found' ∧
      ∀ id, found'.lookup id = (found.lookup id).map
        (· ++ (js.flatMap fun j => partsOf (entries j) id).map PrismMessage.toValue) := by
  induction js generalizing found with
  | nil => exact ⟨found, rfl, fun id => by simp⟩
  | cons j js ih =>
      obtain ⟨listed, listedRest⟩ := List.forall_mem_cons.mp lists
      obtain ⟨knownHere, knownRest⟩ := List.forall_mem_cons.mp known
      obtain ⟨next, run, keys, lookups⟩ := addResponse_ok listed knownHere
      obtain ⟨found', rest, lookups'⟩ :=
        @ih next listedRest fun j mem e inEntries => keys ▸ knownRest j mem e inEntries
      refine ⟨found', ?_, fun id => ?_⟩
      · rw [List.map_cons, List.foldlM_cons, run, ok_bind, rest]
      · rw [lookups' id, lookups id, Option.map_map, List.flatMap_cons]
        simp [Function.comp_def]

/-- A message is retrieved if enough fragments of it were found. -/
theorem find?_retrieved {threshold : ℕ} {minimalReplies : Bool} {id : Bytes}
    {submessages : List Value} (at_id : found.lookup id = some submessages)
    (enough : threshold ≤ submessages.length) :
    (found.filterMap fun (fragmentId, submessages) =>
      if submessages.length < threshold then none
      else some (⟨fragmentId, if minimalReplies then submessages.take threshold
        else submessages⟩ : RetrievedMessage)).find? (fun result => result.fragmentId = id) =
      some ⟨id, if minimalReplies then submessages.take threshold else submessages⟩ := by
  induction found with
  | nil => cases at_id
  | cons e found ih =>
      rw [List.lookup_cons] at at_id
      by_cases here : id = e.1
      · subst here
        rw [beq_self_eq_true] at at_id
        obtain rfl := Option.some.inj at_id
        simp [Nat.not_lt.mpr enough]
      · rw [beq_false_of_ne here] at at_id
        rw [List.filterMap_cons]
        by_cases few : e.2.length < threshold
        · simpa [few] using ih at_id
        · simpa [few, Ne.symm here] using ih at_id

/-- **The leader finds the fragments of a message** in the responses, in the order in which the
responses came. -/
theorem collected_ok {ι : Type} {js : List ι} {response : ι → PrismMessage}
    {entries : ι → List (Bytes × PrismMessage)} (lists : ∀ j ∈ js, Lists (response j) (entries j))
    {fragments : List Bytes} (nodup : fragments.Nodup)
    (known : ∀ j ∈ js, ∀ e ∈ entries j, e.1 ∈ fragments) {id : Bytes} (target : id ∈ fragments)
    {threshold : ℕ} (enough : threshold ≤ (js.flatMap fun j => partsOf (entries j) id).length)
    (minimalReplies : Bool) :
    ∃ (results : List RetrievedMessage) (parts : List PrismMessage),
      collected threshold minimalReplies fragments (js.map response) = .ok results ∧
      results.find? (fun result => result.fragmentId = id) =
        some ⟨id, parts.map PrismMessage.toValue⟩ ∧
      parts.Sublist (js.flatMap fun j => partsOf (entries j) id) ∧ threshold ≤ parts.length := by
  set all := js.flatMap fun j => partsOf (entries j) id with hall
  have keys : ((fragments.map fun id => (id, ([] : List Value))).map Prod.fst) = fragments := by
    rw [List.map_map]
    exact List.map_id _
  have start : dictOf (fragments.map fun id => (id, ([] : List Value))) =
      fragments.map fun id => (id, []) := by
    apply dictOf_of_nodup
    rwa [keys]
  have empty : (fragments.map fun id => (id, ([] : List Value))).lookup id = some [] :=
    lookup_of_mem (by rwa [keys]) (List.mem_map.mpr ⟨id, target, rfl⟩)
  obtain ⟨found, run, lookups⟩ := @addResponses_ok (fragments.map fun id => (id, [])) ι js response
    entries lists fun j mem e inEntries => by
      rw [keys]
      exact known j mem e inEntries
  have at_id : found.lookup id = some (all.map PrismMessage.toValue) := by
    rw [lookups id, empty]
    rfl
  have retrieved := @find?_retrieved found threshold minimalReplies id _ at_id
    (by rwa [List.length_map])
  refine ⟨_, if minimalReplies then all.take threshold else all, ?_, retrieved.trans ?_, ?_, ?_⟩
  · rw [collected, start, run, ok_bind]
    rfl
  · cases minimalReplies with
    | false => rfl
    | true => simp [List.map_take]
  · cases minimalReplies with
    | false => exact List.Sublist.refl _
    | true => exact List.take_sublist _ _
  · cases minimalReplies with
    | false => exact enough
    | true => simp [List.length_take, enough]

end Collected

end LockFreeDropbox

end Prism.Lockfree
