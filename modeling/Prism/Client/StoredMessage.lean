import Prism.Client.Requests

/-!
A message on its way through the MPC dropbox.

The client writes a message, the leader of the committee passes the members their parts, and the
members store them. Later a client reads: the leader asks the members that hold a fragment of the
message, and replies to the client with the fragments that came back.

* `storeMessage_ok`: every member that is asked to stores its shares of the message.
* `Retrieval.Serves.answer_ok`: what a member that is asked answers.
* `fetch_ok`: the fragments of enough members give the client the message back.
* `stored_message_fetched`: from the request to write to the message that is read.
-/

namespace Prism.Client

open Crypto Lockfree

section Way

variable (package : CryptoPackage) (cbor : Cbor2) (builtins : Builtins)

/-- A committee, and the ways to it. A message may be traced between a client and the leader. The
members deliver messages to each other, encrypted or not. -/
structure Deployment where
  dropbox : MPCDropbox
  parties : List ℕ
  owner : ℕ → package.PrivateKey
  keyed : dropbox.Keyed package parties owner
  carry : PrismMessage → PrismMessage
  carried : ∀ m, m.Typed → (carry m).Typed ∧ PrismMessage.SameBut [.debugInfo] m (carry m)
  deliver : ℕ → ℕ → PrismMessage → PrismMessage
  delivered : ∀ i j m, m.Typed → m.get .msgType ≠ .enum (.type .encryptPeerMessage) →
    Delivered m (deliver i j m)

/-- The circumstances in which a message is stored: what the leader knows, whom it reaches, the
id and the context of the message, and the members and the times. -/
structure Storage where
  leader : LockFreeDropbox
  reachable : List Bytes
  fragmentId : Bytes
  context : Option SpanContext
  lives : ℕ → LockFreeDropbox.Life
  leaderNow : ℤ
  now : ℕ → ℤ

/-- The circumstances in which fragments are retrieved: what the leader knows, whom it reaches,
the fragments and the id of the operation, the members whose answers come, in this order, what
they hold, and the times and draws. -/
structure Retrieval where
  leader : LockFreeDropbox
  reachable : List Bytes
  fragments : List Bytes
  opId : Bytes
  answering : List ℕ
  held : ℕ → LockFreeDropbox
  minimalReplies : Bool
  leaderNow : ℤ
  now : ℕ → ℤ
  fresh : ℕ → ℕ → Fresh package
  replyNow : ℤ
  replyFresh : Fresh package

variable {package}

/-! ### Storing -/

section Store

variable (tracer : Tracer SpanContext) (self : Deployment package) (s : Storage)

/-- A member handles the request to store. -/
def storeAt (j : ℕ) (m : PrismMessage) : Py (ℕ × LockFreeDropbox.Life) :=
  match (LockFreeDropbox.handleStoreRequest package cbor builtins tracer (self.owner j) (s.now j)
    (self.deliver 0 j m)).exec (s.lives j) with
  | (life, .ok _) => .ok (j, life)
  | (_, .error e) => .error e

/-- A request to write at the leader, and the members that handle the leader's requests. -/
def storeMessage (request : PrismMessage) : Py (List (ℕ × LockFreeDropbox.Life)) := do
  match ← decrypt package cbor builtins s.leaderNow (self.carry request) (self.owner 0) none with
  | none => throw .attributeError
  | some decrypted =>
    let requests ← s.leader.storeRequests builtins tracer s.reachable s.leaderNow s.fragmentId
      s.context (decrypted.get .submessages)
    requests.mapM fun e => storeAt cbor builtins tracer self s e.1.partyId.toNat e.2

variable {cbor} {builtins} {tracer} {self} {s} {n : ℕ}

/-- A message that is traced on its way is read like the one that was sent. -/
theorem Deployment.carried_decrypt (self : Deployment package) {owner : package.PrivateKey}
    {m inner : PrismMessage} (typed : m.Typed) (sealed_ : SealedFor cbor builtins owner m inner)
    (now : ℤ) : decrypt package cbor builtins now (self.carry m) owner none = .ok (some inner) := by
  obtain ⟨data, encrypted, decoded⟩ := sealed_
  obtain ⟨-, same⟩ := self.carried m typed
  exact (encrypted_of_traced same encrypted).decrypt_eq (decoded now)

/-- A request of the leader with a message of the client in it. -/
theorem subMsg_request_typed {now partyId : ℤ} {action : ActionEnum} {opId : Bytes}
    {given : List (FieldName × Value)} {m : PrismMessage} (typed : m.Typed)
    (inMap : ∀ arg ∈ argumentsOf .mpcMap given, argumentTyped .mpcMap arg = true)
    (inMessage : argumentsOf .prismMessage given = [(.subMsg, m.toValue)]) :
    (Lockfree.request now partyId action opId given).Typed := by
  have fields : Value.hasFields m.fields ClassName.prismMessage.schema = true := typed
  apply mpcMessage_typed rfl rfl inMap
  rw [inMessage]
  intro arg mem
  rw [List.mem_singleton.mp mem]
  refine argumentTyped_of_hasType rfl ?_
  simp [PrismMessage.toValue, Value.hasType, fields]

/-- The leader asks the member to store its part, if it makes it out online and not to have
stored it. -/
def Storage.asks (s : Storage) (j : ℕ) : Bool :=
  match peerAt s.leader.peers (.int j) with
  | .ok peer => LockFreeDropbox.online s.reachable peer &&
      !peer.storedFragments.contains s.fragmentId
  | .error _ => false

/-- The request of the leader for a part, if it makes one. -/
theorem storeRequest_ok (leader : LockFreeDropbox.IsMember n 0 s.leader) {j : ℕ} (lt : j < n)
    {owner : package.PrivateKey} {m inner : PrismMessage}
    (part : IsPartFor cbor builtins owner j m inner) :
    ∃ made, s.leader.storeRequest builtins tracer s.reachable s.leaderNow s.fragmentId s.context m =
        .ok made ∧ made.isSome = s.asks j ∧
      ∀ e ∈ made, e.1.partyId = j ∧ ∃ traced, Traceable tracer traced ∧ traced.Typed ∧
        PrismMessage.SameBut [.debugInfo] m traced ∧
        e.2 = Lockfree.request s.leaderNow (0 : ℕ) .storeFragment s.fragmentId
          [(.subMsg, traced.toValue)] := by
  obtain ⟨peer, atPeer, partyId, -⟩ := leader.peerAt lt
  obtain ⟨traced, injected, tracedTyped, same, traceable⟩ :=
    injectSpanContext_ok tracer builtins s.leaderNow part.typed s.context
  have untraced : Traceable tracer m := by
    refine ⟨none, ?_⟩
    rw [extractSpanContext, part.untraced]
  rw [LockFreeDropbox.storeRequest, LockFreeDropbox.addressee, part.partyId, Storage.asks]
  dsimp only
  rw [atPeer, ok_bind]
  dsimp only
  split_ifs with asked
  · rw [injected, ok_bind, leader.partyId]
    refine ⟨_, rfl, asked.symm, ?_⟩
    intro e here
    cases here
    exact ⟨partyId, traced, traceable untraced, tracedTyped, same, rfl⟩
  · exact ⟨none, rfl, (Bool.eq_false_iff.mpr asked).symm, by simp⟩

/-- What a member stores of a message: its shares of it, packed. -/
def HoldsShares (cbor : Cbor2) (id : Bytes) (shares : ℕ → List Share)
    (dropbox : LockFreeDropbox) (j : ℕ) : Prop :=
  ∃ fragment, dropbox.storedFragments.lookup id = some fragment ∧ fragment.ciphertext ≠ [] ∧
    ShamirSS.splitShares cbor fragment.ciphertext = .ok (shares j)

/-- A member stores its shares of the message. -/
theorem storeAt_ok {j : ℕ} (member : LockFreeDropbox.IsMember n j (s.lives j).memory)
    {m inner traced : PrismMessage} (part : IsPartFor cbor builtins (self.owner j) j m inner)
    {shares : ℕ → List Share} (carries : MPCDropbox.CarriesShares cbor (shares j) inner)
    (traceable : Traceable tracer traced) (typed : traced.Typed)
    (same : PrismMessage.SameBut [.debugInfo] m traced) :
    ∃ life, storeAt cbor builtins tracer self s j (Lockfree.request s.leaderNow (0 : ℕ)
        .storeFragment s.fragmentId [(.subMsg, traced.toValue)]) = .ok (j, life) ∧
      LockFreeDropbox.IsMember n j life.memory ∧
      HoldsShares cbor s.fragmentId shares life.memory j := by
  obtain ⟨data, encrypted, decoded⟩ := part.sealed_
  obtain ⟨share, ciphertext, atShare, atCiphertext, ciphertext_ne, split⟩ := carries
  have sealed_ := encrypted_of_traced same encrypted
  have requestTyped : (Lockfree.request s.leaderNow (0 : ℕ) .storeFragment s.fragmentId
      [(.subMsg, traced.toValue)]).Typed :=
    subMsg_request_typed typed (fun _ mem => nomatch mem) rfl
  have delivered := self.delivered 0 j _ requestTyped fun h => nomatch h
  obtain ⟨life, response, context, run, stored, member'⟩ :=
    LockFreeDropbox.handleStoreRequest_ok member (Nat.zero_lt_of_lt member.lt) traceable sealed_
      (decoded (s.now j)) atShare atCiphertext delivered
  refine ⟨life, ?_, member', _, stored, ciphertext_ne, split⟩
  rw [storeAt, run]

/-- **Every member that is asked to store its part holds its shares.** -/
theorem storeMessage_ok (leader : LockFreeDropbox.IsMember n 0 s.leader)
    (members : ∀ j ∈ self.parties, LockFreeDropbox.IsMember n j (s.lives j).memory)
    {request written : PrismMessage} {sub inner : ℕ → PrismMessage} {shares : ℕ → List Share}
    (typed : request.Typed) (sealed_ : SealedFor cbor builtins (self.owner 0) request written)
    (submessages : written.get .submessages =
      .list ((self.parties.map sub).map PrismMessage.toValue))
    (parts : ∀ j ∈ self.parties, IsPartFor cbor builtins (self.owner j) j (sub j) (inner j) ∧
      MPCDropbox.CarriesShares cbor (shares j) (inner j)) :
    ∃ stored, storeMessage cbor builtins tracer self s request = .ok stored ∧
      (∀ j ∈ self.parties, s.asks j → ∃ life, (j, life) ∈ stored) ∧
      ∀ e ∈ stored, e.1 ∈ self.parties ∧ LockFreeDropbox.IsMember n e.1 e.2.memory ∧
        HoldsShares cbor s.fragmentId shares e.2.memory e.1 := by
  have each : ∀ j ∈ self.parties, ∃ made, s.leader.storeRequest builtins tracer s.reachable
      s.leaderNow s.fragmentId s.context (sub j) = .ok made ∧ made.isSome = s.asks j ∧
      ∀ e ∈ made, e.1.partyId = j ∧ ∃ life, storeAt cbor builtins tracer self s j e.2 =
        .ok (j, life) ∧ LockFreeDropbox.IsMember n j life.memory ∧
        HoldsShares cbor s.fragmentId shares life.memory j := by
    intro j mem
    obtain ⟨part, carries⟩ := parts j mem
    obtain ⟨made, run, asked, requested⟩ := @storeRequest_ok package cbor builtins tracer s n leader j
      (members j mem).lt (self.owner j) (sub j) (inner j) part
    refine ⟨made, run, asked, fun e here => ?_⟩
    obtain ⟨partyId, traced, traceable, tracedTyped, same, isRequest⟩ := requested e here
    rw [isRequest]
    exact ⟨partyId, storeAt_ok (members j mem) part carries traceable tracedTyped same⟩
  choose! made run asked requested using each
  have handled : ∀ e ∈ self.parties.filterMap made, ∃ done,
      storeAt cbor builtins tracer self s e.1.partyId.toNat e.2 = .ok done ∧
      done.1 = e.1.partyId.toNat ∧ done.1 ∈ self.parties ∧
      LockFreeDropbox.IsMember n done.1 done.2.memory ∧
      HoldsShares cbor s.fragmentId shares done.2.memory done.1 := by
    intro e mem
    obtain ⟨j, inParties, here⟩ := List.mem_filterMap.mp mem
    obtain ⟨partyId, life, stored, member, holds⟩ := requested j inParties e here
    rw [partyId, Int.toNat_natCast]
    exact ⟨(j, life), stored, rfl, inParties, member, holds⟩
  have : Inhabited LockFreeDropbox.Life := ⟨{}⟩
  choose! done stored partyId holds using handled
  refine ⟨(self.parties.filterMap made).map done, ?_, ?_, ?_⟩
  · have listed : listedMessages (written.get .submessages) = .ok (self.parties.map sub) := by
      rw [submessages, listedMessages_ok]
    have requests : s.leader.storeRequests builtins tracer s.reachable s.leaderNow s.fragmentId
        s.context (written.get .submessages) = .ok (self.parties.filterMap made) := by
      have asked : self.parties.mapM (s.leader.storeRequest builtins tracer s.reachable s.leaderNow
          s.fragmentId s.context ∘ sub) = .ok (self.parties.map made) := mapM_ok run
      rw [LockFreeDropbox.storeRequests, listed, ok_bind, List.mapM_map, asked, ok_bind]
      simp only [List.filterMap_map, Function.id_comp]
      rfl
    rw [storeMessage, self.carried_decrypt typed sealed_, ok_bind]
    dsimp only
    rw [requests, ok_bind, mapM_ok stored]
  · intro j mem asks
    obtain ⟨e, here⟩ := Option.isSome_iff_exists.mp ((asked j mem).trans asks)
    have inRequests : e ∈ self.parties.filterMap made := List.mem_filterMap.mpr ⟨j, mem, here⟩
    have atParty : (done e).1 = j := by
      rw [partyId e inRequests, (requested j mem e here).1, Int.toNat_natCast]
    exact ⟨(done e).2, List.mem_map.mpr ⟨e, inRequests, Prod.ext atParty rfl⟩⟩
  · intro e mem
    obtain ⟨source, inRequests, rfl⟩ := List.mem_map.mp mem
    exact holds source inRequests

end Store

/-! ### Reading -/

section Read

variable (tracer : Tracer SpanContext) (self : Deployment package) (r : Retrieval package)

/-- A member handles the request to retrieve. -/
def answerAt (e : ℕ × PrismMessage) : Py PrismMessage := do
  let (_, response) ← LockFreeDropbox.handleRetrieveOp package cbor builtins tracer (r.held e.1)
    (self.owner e.1) (r.now e.1) (r.fresh e.1) (self.deliver 0 e.1 e.2)
  return self.deliver e.1 0 response

/-- The requests of the leader that are answered. -/
def answered (requests : List (DropboxPeer × PrismMessage)) : List (ℕ × PrismMessage) :=
  r.answering.filterMap fun j : ℕ =>
    (requests.find? fun e => e.1.partyId = (j : ℤ)).map fun e => (j, e.2)

/-- A request to read at the leader, and what the client makes of the reply. -/
def fetch (fragmentId : Bytes) (registry : MPCRequestRegistry package) (clientNow : ℤ)
    (request : PrismMessage) : Py (Option PrismMessage) := do
  match ← decrypt package cbor builtins r.leaderNow (self.carry request) (self.owner 0) none with
  | none => throw .attributeError
  | some polled =>
    let poll ← Poll.fromMessage package polled
    let requests ←
      r.leader.retrieveRequests package r.reachable poll r.fragments r.leaderNow r.opId
    let responses ← (answered r requests).mapM (answerAt cbor builtins tracer self r)
    let results ← LockFreeDropbox.collected self.dropbox.secretSharing.threshold r.minimalReplies
      r.fragments responses
    match results.find? fun result => result.fragmentId = fragmentId with
    | none => return none
    | some result =>
      let reply ← poll.reply cbor builtins tracer result.submessages r.replyNow r.replyFresh
      registry.reassemble cbor builtins clientNow (self.carry reply)

variable {cbor} {builtins} {tracer} {self} {r} {n : ℕ}

/-- The member is asked, if the leader knows that it holds the fragment. -/
def Retrieval.knows (r : Retrieval package) (id : Bytes) (j : ℕ) : Bool :=
  r.leader.peers.any fun peer => peer.partyId = (j : ℤ) && LockFreeDropbox.online r.reachable peer &&
    peer.storedFragments.contains id

/-- The members whose fragments of a message come back: those that answer, of those that hold a
fragment of it and of which the leader knows so. -/
def Retrieval.holders (r : Retrieval package) (id : Bytes) : List ℕ :=
  r.answering.filter fun j => ((r.held j).storedFragments.lookup id).isSome && r.knows id j

/-- The leader and the members are those of one committee. The members that answer may hold
other fragments; what they hold of the message are their shares of it. -/
structure Retrieval.Serves (r : Retrieval package) (cbor : Cbor2) (parties : List ℕ) (n : ℕ)
    (id : Bytes) (shares : ℕ → List Share) : Prop where
  leader : LockFreeDropbox.IsMember n 0 r.leader
  members : ∀ j ∈ r.answering, LockFreeDropbox.IsMember n j (r.held j)
  nodup : r.answering.Nodup
  fragments : r.fragments.Nodup
  target : id ∈ r.fragments
  held : ∀ j ∈ r.answering, ((r.held j).storedFragments.lookup id).isSome →
    j ∈ parties ∧ HoldsShares cbor id shares (r.held j) j

/-- The request to retrieve that a member is sent. -/
def retrieveRequest (r : Retrieval package) (sub : ℕ → PrismMessage) (j : ℕ) : PrismMessage :=
  Lockfree.request r.leaderNow (0 : ℕ) .retrieve r.opId
    [(.targetFragments, .list (r.fragments.map Value.bytes)), (.subMsg, (sub j).toValue)]

/-- The messages for the members in a poll, by their party ids. -/
theorem peerFragments_eq {parties : List ℕ} (nodup : parties.Nodup) {sub : ℕ → PrismMessage}
    (partyIds : ∀ j ∈ parties, (sub j).get .partyId = .int j) :
    dictOf ((parties.map sub).map fun m => ((m.get .partyId).int?, m)) =
        parties.map (fun j => (some (Int.ofNat j), sub j)) ∧
      ((parties.map fun j => (some (Int.ofNat j), sub j)).map Prod.fst).Nodup := by
  have entries : (parties.map sub).map (fun m => ((m.get .partyId).int?, m)) =
      parties.map fun j => (some (Int.ofNat j), sub j) := by
    rw [List.map_map]
    refine List.map_congr_left fun i inParties => ?_
    rw [Function.comp_apply, partyIds i inParties]
    rfl
  have keys : ((parties.map fun j => (some (Int.ofNat j), sub j)).map Prod.fst).Nodup := by
    rw [List.map_map]
    refine nodup.map fun a b same => ?_
    exact Int.ofNat.inj (Option.some.inj same)
  rw [entries, dictOf_of_nodup keys]
  exact ⟨rfl, keys⟩

/-- The leader asks the member. -/
def Retrieval.asks (r : Retrieval package) (poll : Poll package) (j : ℕ) : Bool :=
  (r.leader.retrievePeers package r.reachable poll r.fragments).any fun peer =>
    peer.partyId = (j : ℤ)

/-- The requests of the leader: each peer that it asks is sent the client's message for it. -/
theorem retrieveRequests_ok (leader : LockFreeDropbox.IsMember n 0 r.leader)
    {poll : Poll package} {sub : ℕ → PrismMessage} {parties : List ℕ}
    (listed : ∀ id ∈ poll.peerFragments.map Prod.fst, ∃ j ∈ parties, id = some (Int.ofNat j))
    (peerFragments : ∀ j ∈ parties, poll.peerFragments.lookup (some (Int.ofNat j)) =
      some (sub j)) :
    ∃ requests, r.leader.retrieveRequests package r.reachable poll r.fragments r.leaderNow r.opId =
        .ok requests ∧
      answered r requests =
        (r.answering.filter (r.asks poll)).map (fun j => (j, retrieveRequest r sub j)) ∧
      ∀ j, r.asks poll j → j ∈ parties := by
  set peers := r.leader.retrievePeers package r.reachable poll r.fragments with hpeers
  have known : ∀ peer ∈ peers, ∃ j ∈ parties, peer.partyId = Int.ofNat j := by
    intro peer mem
    have asked := (List.mem_filter.mp mem).2
    simp only [Bool.and_eq_true, List.contains_iff_mem] at asked
    obtain ⟨j, inParties, same⟩ := listed _ asked.2
    exact ⟨j, inParties, Option.some.inj same⟩
  refine ⟨peers.map fun peer => (peer, retrieveRequest r sub peer.partyId.toNat), ?_, ?_, ?_⟩
  · rw [LockFreeDropbox.retrieveRequests]
    refine mapM_ok fun peer mem => ?_
    obtain ⟨j, inParties, same⟩ := known peer mem
    rw [same, peerFragments j inParties, leader.partyId]
    rfl
  · rw [answered, ← List.filterMap_eq_filter, List.map_filterMap]
    refine List.filterMap_congr fun j _ => ?_
    rw [List.find?_map, Option.map_map]
    cases found : peers.find? ((fun e : DropboxPeer × PrismMessage => decide (e.1.partyId = j)) ∘
        fun peer => (peer, retrieveRequest r sub peer.partyId.toNat)) with
    | none =>
        have unasked : r.asks poll j = false := by
          rw [Retrieval.asks, ← hpeers, List.any_eq_false]
          exact List.find?_eq_none.mp found
        simp [unasked]
    | some peer =>
        have same := List.find?_some found
        have partyId : peer.partyId = j := of_decide_eq_true same
        have asked : r.asks poll j = true :=
          List.any_eq_true.mpr ⟨peer, List.mem_of_find?_eq_some found, decide_eq_true partyId⟩
        simp [asked, partyId]
  · intro j asks
    obtain ⟨peer, mem, same⟩ := List.any_eq_true.mp asks
    obtain ⟨i, inParties, partyId⟩ := known peer mem
    have : Int.ofNat i = Int.ofNat j := partyId.symm.trans (of_decide_eq_true same)
    exact Int.ofNat.inj this ▸ inParties

/-- What a member that is asked answers. -/
theorem answerAt_ok {j : ℕ} (member : LockFreeDropbox.IsMember n j (r.held j))
    {sub inner : ℕ → PrismMessage}
    (part : IsPartFor cbor builtins (self.owner j) j (sub j) (inner j)) {client : package.PrivateKey}
    (halfKey : (inner j).get .halfKey = halfKeyMap package (package.publicKey client)) :
    ∃ response entries,
      answerAt cbor builtins tracer self r (j, retrieveRequest r sub j) = .ok response ∧
      LockFreeDropbox.Lists response entries ∧
      entries.map Prod.fst = r.fragments.filter (fun id =>
        ((r.held j).storedFragments.lookup id).isSome) ∧
      ∀ e ∈ entries, ∃ fragment, (r.held j).storedFragments.lookup e.1 = some fragment ∧
        LockFreeDropbox.IsPart tracer j client fragment e.2 := by
  obtain ⟨data, encrypted, decoded⟩ := part.sealed_
  have ids : Value.hasElements (r.fragments.map Value.bytes) (.scalar .bytes) = true := by
    induction r.fragments with
    | nil => rfl
    | cons id ids ih => exact ih
  have requestTyped : (retrieveRequest r sub j).Typed := by
    refine subMsg_request_typed part.typed (fun arg mem => ?_) rfl
    have named : arg ∈ [(FieldName.targetFragments, Value.list (r.fragments.map Value.bytes))] :=
      mem
    rw [List.mem_singleton.mp named]
    exact argumentTyped_list rfl ids
  have delivered := self.delivered 0 j _ requestTyped fun h => nomatch h
  obtain ⟨peer, response, entries, run, typed, type, lists, listed, parts⟩ :=
    @LockFreeDropbox.handleRetrieveOp_ok package cbor builtins tracer n 0 j (self.owner j) client
      (r.now j) (sub j) (inner j) _ data (r.held j) member (Nat.zero_lt_of_lt member.lt) encrypted
      (decoded _) halfKey _ r.opId r.fragments delivered (r.fresh j)
  have plain : response.get .msgType ≠ .enum (.type .encryptPeerMessage) := by
    rw [type]
    exact fun h => nomatch h
  refine ⟨self.deliver j 0 response, entries, ?_, lists.delivered (self.delivered j 0 _ typed plain),
    listed, parts⟩
  rw [answerAt, run]
  rfl

/-- The fragments of the message among the answers: one of each member that holds one. -/
theorem partsOf_ok {id : Bytes} (target : id ∈ r.fragments) (nodup : r.fragments.Nodup) {j : ℕ}
    {client : package.PrivateKey} {entries : List (Bytes × PrismMessage)}
    (listed : entries.map Prod.fst = r.fragments.filter (fun id =>
      ((r.held j).storedFragments.lookup id).isSome))
    (parts : ∀ e ∈ entries, ∃ fragment, (r.held j).storedFragments.lookup e.1 = some fragment ∧
      LockFreeDropbox.IsPart tracer j client fragment e.2) :
    ∃ m, LockFreeDropbox.partsOf entries id =
        (if ((r.held j).storedFragments.lookup id).isSome then [m] else []) ∧
      ∀ fragment, (r.held j).storedFragments.lookup id = some fragment →
        LockFreeDropbox.IsPart tracer j client fragment m := by
  cases found : (r.held j).storedFragments.lookup id with
  | none =>
      refine ⟨default, LockFreeDropbox.partsOf_of_not_mem fun mem => ?_, by simp⟩
      rw [listed, List.mem_filter, found] at mem
      exact Bool.noConfusion mem.2
  | some fragment =>
      have mem : id ∈ entries.map Prod.fst := by
        rw [listed, List.mem_filter, found]
        exact ⟨target, rfl⟩
      obtain ⟨e, inEntries, rfl⟩ := List.mem_map.mp mem
      have distinct : (entries.map Prod.fst).Nodup := listed ▸ nodup.filter _
      refine ⟨e.2, LockFreeDropbox.partsOf_of_mem distinct inEntries, ?_⟩
      obtain ⟨fragment', found', part⟩ := parts e inEntries
      rw [found] at found'
      cases found'
      rintro _ ⟨⟩
      exact part

theorem flatMap_ite {ι β : Type} (p : ι → Bool) (f : ι → β) (js : List ι) :
    (js.flatMap fun j => if p j then [f j] else []) = (js.filter p).map f := by
  induction js with
  | nil => rfl
  | cons j js ih =>
      rw [List.flatMap_cons, ih]
      cases here : p j <;> simp [here]

/-- The members that the leader knows to hold a fragment are asked for it. -/
theorem asks_of_knows {poll : Poll package} {id : Bytes} (target : id ∈ r.fragments) {j : ℕ}
    (polled : some (Int.ofNat j) ∈ poll.peerFragments.map Prod.fst) (knows : r.knows id j) :
    r.asks poll j := by
  obtain ⟨peer, mem, found⟩ := List.any_eq_true.mp knows
  simp only [Bool.and_eq_true, decide_eq_true_eq, List.contains_iff_mem] at found
  obtain ⟨⟨partyId, online⟩, stored⟩ := found
  refine List.any_eq_true.mpr ⟨peer, List.mem_filter.mpr ⟨mem, ?_⟩, decide_eq_true partyId⟩
  simp only [Bool.and_eq_true, List.contains_iff_mem, List.any_eq_true]
  exact ⟨⟨online, id, stored, target⟩, partyId ▸ polled⟩

/-- A member that is asked lists the fragments that it holds of those that are asked for. -/
theorem Retrieval.Serves.answer_ok {id : Bytes} {shares : ℕ → List Share}
    (serves : r.Serves cbor self.parties n id shares) {j : ℕ} (mem : j ∈ r.answering)
    {sub inner : ℕ → PrismMessage} {peerKey : package.PrivateKey}
    (part : IsPartFor cbor builtins (self.owner j) j (sub j) (inner j))
    (halfKey : (inner j).get .halfKey = halfKeyMap package (package.publicKey peerKey)) :
    ∃ response entries m,
      answerAt cbor builtins tracer self r (j, retrieveRequest r sub j) = .ok response ∧
      LockFreeDropbox.Lists response entries ∧ (∀ e ∈ entries, e.1 ∈ r.fragments) ∧
      LockFreeDropbox.partsOf entries id =
        (if ((r.held j).storedFragments.lookup id).isSome then [m] else []) ∧
      ∀ fragment, (r.held j).storedFragments.lookup id = some fragment →
        LockFreeDropbox.IsPart tracer j peerKey fragment m := by
  obtain ⟨response, entries, run, lists, listed, fragments⟩ := @answerAt_ok package cbor builtins
    tracer self r n j (serves.members j mem) sub inner part peerKey halfKey
  obtain ⟨m, parts, isPart⟩ :=
    @partsOf_ok package tracer r id serves.target serves.fragments j _ entries listed fragments
  refine ⟨response, entries, m, run, lists, fun e inEntries => ?_, parts, isPart⟩
  have inFiltered : e.1 ∈ r.fragments.filter _ := listed ▸ List.mem_map_of_mem inEntries
  exact List.mem_of_mem_filter inFiltered

/-- The holders are asked. -/
theorem Retrieval.Serves.holders_le {id : Bytes} {shares : ℕ → List Share}
    (serves : r.Serves cbor self.parties n id shares) (poll : Poll package)
    (listed : ∀ j ∈ self.parties, some (Int.ofNat j) ∈ poll.peerFragments.map Prod.fst) :
    (r.holders id).length ≤ ((r.answering.filter (r.asks poll)).filter fun j =>
      ((r.held j).storedFragments.lookup id).isSome).length := by
  rw [Retrieval.holders, List.filter_filter, ← List.countP_eq_length_filter,
    ← List.countP_eq_length_filter]
  refine List.countP_mono_left fun j mem here => ?_
  rw [Bool.and_eq_true] at here ⊢
  exact ⟨here.1, asks_of_knows serves.target (listed j (serves.held j mem here.1).1) here.2⟩

/-- **The fragments of enough members give the client the message back.** -/
theorem fetch_ok {id : Bytes} {shares : ℕ → List Share}
    (serves : r.Serves cbor self.parties n id shares) (registry : MPCRequestRegistry package)
    {info : MPCRequestInfo package} (server : info.server = self.dropbox)
    {request polled message : PrismMessage} {sub inner : ℕ → PrismMessage}
    {peerKey : ℕ → package.PrivateKey} (typed : request.Typed)
    (sealed_ : SealedFor cbor builtins (self.owner 0) request polled)
    (type : polled.get .msgType = .enum (.type .readObliviousDropbox))
    (nonce : polled.get .nonce = .bytes info.requestId)
    (halfKey : polled.get .halfKey = halfKeyMap package (package.publicKey info.key))
    (submessages : polled.get .submessages =
      .list ((self.parties.map sub).map PrismMessage.toValue))
    (expires : ∃ expiration, Poll.expirationOf polled = .ok expiration)
    (parts : ∀ j ∈ self.parties, info.peerKeys j = some (peerKey j) ∧
      IsPartFor cbor builtins (self.owner j) j (sub j) (inner j) ∧
      (inner j).get .halfKey = halfKeyMap package (package.publicKey (peerKey j)))
    (out : MPCDropbox.ShareOut cbor builtins self.dropbox.secretSharing message shares)
    (enough : self.dropbox.secretSharing.threshold ≤ (r.holders id).length) (clientNow : ℤ) :
    fetch cbor builtins tracer self r id (registry.register info) clientNow request =
      .ok (some message) := by
  obtain ⟨poll, polls, pollNonce, pollKey, peerFragments⟩ :=
    Poll.fromMessage_ok type halfKey submessages expires
  obtain ⟨dict, keys⟩ := peerFragments_eq self.keyed.nodup fun j mem => (parts j mem).2.1.partyId
  rw [dict] at peerFragments
  obtain ⟨requests, asked, answers, inParties⟩ := @retrieveRequests_ok package r n serves.leader
    poll sub self.parties
    (fun id mem => by
      rw [peerFragments, List.map_map] at mem
      obtain ⟨j, inParties, rfl⟩ := List.mem_map.mp mem
      exact ⟨j, inParties, rfl⟩)
    (fun j mem => by
      rw [peerFragments]
      exact lookup_of_mem keys (List.mem_map.mpr ⟨j, mem, rfl⟩))
  set answering := r.answering.filter (r.asks poll) with hanswering
  have each : ∀ j ∈ answering, ∃ response entries m,
      answerAt cbor builtins tracer self r (j, retrieveRequest r sub j) = .ok response ∧
      LockFreeDropbox.Lists response entries ∧ (∀ e ∈ entries, e.1 ∈ r.fragments) ∧
      LockFreeDropbox.partsOf entries id =
        (if ((r.held j).storedFragments.lookup id).isSome then [m] else []) ∧
      ∀ fragment, (r.held j).storedFragments.lookup id = some fragment →
        LockFreeDropbox.IsPart tracer j (peerKey j) fragment m := by
    intro j mem
    obtain ⟨inAnswering, asks⟩ := List.mem_filter.mp mem
    obtain ⟨-, part, clientKey⟩ := parts j (inParties j asks)
    exact serves.answer_ok inAnswering part clientKey
  choose! response entries part run lists known partsOf isPart using each
  have responses : (answering.map fun j => (j, retrieveRequest r sub j)).mapM
      (answerAt cbor builtins tracer self r) = .ok (answering.map response) := by
    rw [List.mapM_map]
    exact mapM_ok run
  set holding := answering.filter fun j => ((r.held j).storedFragments.lookup id).isSome
    with hholding
  have all : (answering.flatMap fun j => LockFreeDropbox.partsOf (entries j) id) =
      holding.map part := by
    rw [hholding, ← flatMap_ite]
    exact List.flatMap_congr partsOf
  have holders : (r.holders id).length ≤ holding.length := by
    refine serves.holders_le poll fun j inParties => ?_
    rw [peerFragments, List.map_map]
    exact List.mem_map.mpr ⟨j, inParties, rfl⟩
  obtain ⟨results, found, collects, find, sub_all, threshold⟩ := @LockFreeDropbox.collected_ok ℕ
    answering response entries lists r.fragments serves.fragments known id serves.target
    self.dropbox.secretSharing.threshold (by rw [all, List.length_map]; omega) r.minimalReplies
  rw [all] at sub_all
  obtain ⟨js, subset, rfl⟩ := List.sublist_map_iff.mp sub_all
  rw [List.length_map] at threshold
  have holds : ∀ j ∈ js, j ∈ self.parties ∧ ∃ fragment, fragment.ciphertext ≠ [] ∧
      ShamirSS.splitShares cbor fragment.ciphertext = .ok (shares j) ∧
      LockFreeDropbox.IsPart tracer j (peerKey j) fragment (part j) := by
    intro j mem
    obtain ⟨asked, holds⟩ := List.mem_filter.mp (subset.subset mem)
    obtain ⟨inParties, fragment, found, ciphertext_ne, split⟩ :=
      serves.held j (List.mem_filter.mp asked).1 holds
    exact ⟨inParties, fragment, ciphertext_ne, split, isPart j asked fragment found⟩
  have isPart : ∀ m ∈ js.map part, m.Typed ∧ Traceable tracer m := by
    intro m mem
    obtain ⟨j, inJs, rfl⟩ := List.mem_map.mp mem
    obtain ⟨-, fragment, -, -, part⟩ := holds j inJs
    exact ⟨part.typed, part.traceable⟩
  have ne : js.map part ≠ [] := by
    have positive := self.dropbox.threshold_pos
    intro empty
    rw [List.map_eq_nil_iff.mp empty] at threshold
    exact absurd threshold (by simp; omega)
  obtain ⟨reply, replied, data, replies, replyTyped, replyId, encrypted, decoded, replySubmessages⟩ :=
    @Poll.reply_ok package SpanContext cbor builtins tracer poll info.key info.requestId
      (pollNonce.trans nonce) pollKey (js.map part) ne (fun m mem => (isPart m mem).1)
      (fun m mem => (isPart m mem).2) r.replyNow r.replyFresh
  obtain ⟨-, same⟩ := self.carried reply replyTyped
  have carriedReply : SealedFor cbor builtins info.key (self.carry reply) replied :=
    ⟨data, encrypted_of_traced same encrypted, decoded⟩
  have reassembled : (registry.register info).reassemble cbor builtins clientNow
      (self.carry reply) = .ok (some message) := by
    refine @MPCRequestRegistry.reassemble_ok package cbor builtins clientNow registry info shares
      message (self.carry reply) replied (server.symm ▸ out) ?_ carriedReply js part ?_ ?_ ?_ ?_ ?_
    · rw [same _ (by decide) (by decide), replyId]
    · rw [replySubmessages, List.map_map]
      rfl
    · intro j mem
      obtain ⟨inParties, fragment, ciphertext_ne, split, part⟩ := holds j mem
      exact ⟨part.partyId, peerKey j, fragment.ciphertext, (parts j inParties).1,
        part.encrypted ciphertext_ne, split⟩
    · exact subset.nodup ((serves.nodup.filter _).filter _)
    · intro j mem
      rw [server]
      exact self.keyed.lt j (holds j mem).1
    · rw [server]
      exact threshold
  rw [fetch, self.carried_decrypt typed sealed_, ok_bind]
  dsimp only
  rw [polls, ok_bind, asked, ok_bind, answers, responses, ok_bind, collects, ok_bind, find]
  dsimp only
  rw [replies, ok_bind, reassembled]

end Read

/-! ### From the client and back -/

/-- The leader and the members are those of one committee, and what the members that answer hold
of a message is what they stored. They may hold other fragments. -/
structure Retrieval.Kept (r : Retrieval package) (n : ℕ) (id : Bytes)
    (stored : List (ℕ × LockFreeDropbox.Life)) : Prop where
  leader : LockFreeDropbox.IsMember n 0 r.leader
  members : ∀ j ∈ r.answering, LockFreeDropbox.IsMember n j (r.held j)
  nodup : r.answering.Nodup
  fragments : r.fragments.Nodup
  target : id ∈ r.fragments
  kept : ∀ j ∈ r.answering, ((r.held j).storedFragments.lookup id).isSome →
    ∃ life, (j, life) ∈ stored ∧
      (r.held j).storedFragments.lookup id = life.memory.storedFragments.lookup id

/-- A request to read, and when the reply is read. -/
structure ReadRequest (package : CryptoPackage) (ss : ShamirSS) where
  pseudonym : Bytes
  ne : pseudonym ≠ []
  requestId : Bytes
  returnLinks : List Value
  links : Value.hasElements returnLinks (.object .linkAddress) = true
  expiration : Option ℤ
  expires : ∀ seconds ∈ expiration, ∃ time, Routing.utcfromtimestamp (.int seconds) = .ok time
  key : package.PrivateKey
  peerKey : ℕ → package.PrivateKey
  draws : RequestDraws package ss
  now : ℤ

theorem expirationOf_ok {m : PrismMessage} {expiration : Option ℤ}
    (given : m.get .expiration = expiration.elim .none .int)
    (expires : ∀ seconds ∈ expiration, ∃ time, Routing.utcfromtimestamp (.int seconds) = .ok time) :
    ∃ time, Poll.expirationOf m = .ok time := by
  unfold Poll.expirationOf
  split_ifs with truthy
  · cases expiration with
    | none =>
        rw [given] at truthy
        cases truthy
    | some seconds =>
        obtain ⟨time, valid⟩ := expires seconds rfl
        refine ⟨some time, ?_⟩
        rw [given, Option.elim_some, valid]
        rfl
  · exact ⟨none, rfl⟩

/-- **A stored message comes back.** The request to write is made without an exception, and each
member that is asked stores its part. When later the leader asks for fragments, among them those
of this message, and the fragments of at least as many members as the threshold come back, in any
order and with any others, the client reads the message that was written. -/
theorem stored_message_fetched (tracer : Tracer SpanContext) (self : Deployment package)
    (prime : self.dropbox.secretSharing.modulus.Prime)
    (lt : self.dropbox.secretSharing.nparties < self.dropbox.secretSharing.modulus)
    (one_le : 1 ≤ self.dropbox.secretSharing.chunkSizeBytes)
    (le : self.dropbox.secretSharing.chunkSizeBytes ≤ 253) {message : PrismMessage}
    (typed : message.Typed) {pseudonym : Bytes} (ne : pseudonym ≠ [])
    (draws : RequestDraws package self.dropbox.secretSharing) (s : Storage) {n : ℕ}
    (leader : LockFreeDropbox.IsMember n 0 s.leader)
    (members : ∀ j ∈ self.parties, LockFreeDropbox.IsMember n j (s.lives j).memory) :
    ∃ request stored, self.dropbox.writeRequest cbor builtins pseudonym message draws =
        .ok request ∧ storeMessage cbor builtins tracer self s request = .ok stored ∧
      (∀ j ∈ self.parties, s.asks j → ∃ life, (j, life) ∈ stored) ∧
      (∀ e ∈ stored, LockFreeDropbox.IsMember n e.1 e.2.memory ∧
        (e.2.memory.storedFragments.lookup s.fragmentId).isSome) ∧
      ∀ (r : Retrieval package) (registry : MPCRequestRegistry package)
        (read : ReadRequest package self.dropbox.secretSharing),
        r.Kept n s.fragmentId stored →
        self.dropbox.secretSharing.threshold ≤ (r.holders s.fragmentId).length →
        ∃ request info, self.dropbox.readRequest cbor builtins read.pseudonym read.requestId
            read.returnLinks read.expiration read.key read.peerKey read.draws =
          .ok (request, info) ∧
          fetch cbor builtins tracer self r s.fragmentId (registry.register info) read.now
            request = .ok (some message) := by
  obtain ⟨request, written, sub, inner, shares, writes, requestTyped, sealed_, submessages, out,
    parts⟩ := @MPCDropbox.writeRequest_ok package cbor builtins self.dropbox self.parties self.owner
      self.keyed prime lt one_le le message typed pseudonym ne draws
  obtain ⟨stored, stores, asked, holds⟩ := @storeMessage_ok package cbor builtins tracer self s n
    leader members request written sub inner shares requestTyped sealed_ submessages parts
  refine ⟨request, stored, writes, stores, asked, fun e mem => ?_, ?_⟩
  · obtain ⟨-, member, fragment, found, -⟩ := holds e mem
    rw [found]
    exact ⟨member, rfl⟩
  · intro r registry read kept enough
    obtain ⟨request, polled, info, sub, inner, reads, requestTyped, sealed_, type, nonce, halfKey,
      expiration, submessages, server, requestId, key, parts⟩ :=
      @MPCDropbox.readRequest_ok package cbor builtins self.dropbox self.parties self.owner self.keyed
        one_le le read.pseudonym read.ne read.requestId read.returnLinks read.links read.expiration
        read.key read.peerKey read.draws
    refine ⟨request, info, reads, ?_⟩
    have serves : r.Serves cbor self.parties n s.fragmentId shares := {
      kept with
      held := fun j mem has => by
        obtain ⟨life, inStored, same⟩ := kept.kept j mem has
        obtain ⟨inParties, -, fragment, found, rest⟩ := holds _ inStored
        exact ⟨inParties, fragment, same.trans found, rest⟩ }
    have expires := expirationOf_ok expiration read.expires
    exact fetch_ok serves registry server requestTyped sealed_ type (requestId ▸ nonce)
      (key ▸ halfKey) submessages expires parts out enough read.now

end Way

/-! ### A small committee -/

/-- The keys of three members. -/
def memberKey (i : ℕ) : Bytes := [UInt8.ofNat (i + 1)]

/-- The announcement of their dropbox. Its modulus leaves one byte for a chunk. -/
def smallArk : PrismMessage :=
  PrismMessage.create 0 .announceRoleKey
    [(.pseudonym, .bytes [9]), (.halfKey, halfKeyMap CryptoPackage.additive (memberKey 0)),
      (.workerKeys, .list ((List.range 3).map fun i =>
        halfKeyMap CryptoPackage.additive (memberKey i))),
      (.secretSharing, .object .secretSharingMap
        [.enum (.secretSharing .shamir), .int 3, .int 2, .int 16777259, .none, .none])]

def smallDropbox : MPCDropbox where
  dropbox := ⟨smallArk⟩
  secretSharing := ⟨3, 2, 16777259, three_parties⟩
  loaded := rfl

/-- The committee, whose members pass messages on as they are. -/
def smallDeployment : Deployment CryptoPackage.additive where
  dropbox := smallDropbox
  parties := [0, 1, 2]
  owner := memberKey
  keyed := {
    typed := by decide +kernel
    workers := by rfl
    lt := by decide
    leader := toKey_halfKeyMap _ _
    members := fun i mem => by
      fin_cases mem
      all_goals exact toKey_halfKeyMap _ _ }
  carry := id
  carried _ typed := ⟨typed, .refl _ _⟩
  deliver _ _ m := m
  delivered _ _ _ typed _ := ⟨typed, .refl _ _⟩

/-- What a member knows of the others: they are reachable, and hold some fragments. -/
def smallMember (j : ℕ) (fragments : List Bytes) : LockFreeDropbox where
  partyId := j
  peers := (List.range 3).map fun i : ℕ =>
    { partyId := i, name := "member", pseudonym := memberKey i, ready := true,
      storedFragments := fragments }

/-- The leader stores a message while the third member is not reachable. -/
def smallStorage : Storage where
  leader := smallMember 0 []
  reachable := [memberKey 0, memberKey 1]
  fragmentId := [5]
  context := none
  lives j := { memory := smallMember j [] }
  leaderNow := 0
  now _ := 0

def smallFresh (k : ℕ) : Fresh CryptoPackage.additive :=
  ⟨[UInt8.ofNat k], List.replicate 12 1, 0, rfl⟩

def smallDraws : RequestDraws CryptoPackage.additive smallDropbox.secretSharing where
  pseudonymCoeffs _ := ⟨[1], by decide +kernel⟩
  messageCoeffs _ := ⟨[2], by decide +kernel⟩
  partyNow _ := 0
  partyFresh := smallFresh
  requestNow := 0
  requestFresh := smallFresh 7

/-- A retrieval from the members that stored the message. They are asked for the fragment, and
the second one answers first. -/
def smallRetrieval (stored : List (ℕ × LockFreeDropbox.Life)) :
    Retrieval CryptoPackage.additive where
  leader := smallMember 0 [[5]]
  reachable := [memberKey 0, memberKey 1]
  fragments := [[5]]
  opId := [6]
  answering := [1, 0]
  held j := match stored.lookup j with
    | some life => life.memory
    | none => smallMember j []
  minimalReplies := false
  leaderNow := 1
  now _ := 1
  fresh _ := smallFresh
  replyNow := 1
  replyFresh := smallFresh 8

def smallRead : ReadRequest CryptoPackage.additive smallDropbox.secretSharing where
  pseudonym := [3]
  ne := by decide
  requestId := [4]
  returnLinks := []
  links := rfl
  expiration := none
  expires _ given := nomatch given
  key := [10]
  peerKey i := [UInt8.ofNat (20 + i)]
  draws := smallDraws
  now := 2

/-- A tracer that injects nothing. -/
def quietTracer : Tracer SpanContext where
  inject _ := []
  nodup_inject _ := List.nodup_nil
  extract _ := .ok none
  extract_inject _ := ⟨none, rfl⟩

def smallMessage : PrismMessage :=
  PrismMessage.create 0 .userMessage [(.messagetext, .str "hello")]

/-- A message that two of three members stored comes back. -/
theorem small_message_fetched :
    ∃ request stored read info, smallDropbox.writeRequest Cbor.package Builtins.strict [3]
        smallMessage smallDraws = .ok request ∧
      storeMessage Cbor.package Builtins.strict quietTracer smallDeployment smallStorage request =
        .ok stored ∧
      smallDropbox.readRequest Cbor.package Builtins.strict smallRead.pseudonym
          smallRead.requestId smallRead.returnLinks smallRead.expiration smallRead.key
          smallRead.peerKey smallRead.draws = .ok (read, info) ∧
      fetch Cbor.package Builtins.strict quietTracer smallDeployment (smallRetrieval stored) [5]
        (MPCRequestRegistry.register ⟨fun _ => none⟩ info) 2 read = .ok (some smallMessage) := by
  obtain ⟨request, stored, writes, stores, asked, holds, fetches⟩ :=
    @stored_message_fetched CryptoPackage.additive Cbor.package Builtins.strict quietTracer
      smallDeployment (by norm_num [smallDeployment, smallDropbox]) (by decide) (by decide +kernel)
      (by decide +kernel) smallMessage (by decide +kernel) [3] (by decide) smallDraws smallStorage 3
      ⟨by decide, rfl, by rfl⟩ (fun j mem => ⟨by revert j; decide, rfl, by rfl⟩)
  have held : ∀ j ∈ [1, 0], ∃ life, (j, life) ∈ stored ∧
      (smallRetrieval stored).held j = life.memory := by
    intro j mem
    obtain ⟨life, inStored⟩ := asked j (by revert j; decide) (by revert j; decide)
    have keyed : (stored.lookup j).isSome :=
      List.lookup_isSome_iff.mpr ⟨(j, life), inStored, beq_self_eq_true j⟩
    obtain ⟨found, atStored⟩ := Option.isSome_iff_exists.mp keyed
    refine ⟨found, mem_of_lookup atStored, ?_⟩
    rw [smallRetrieval]
    dsimp only
    rw [atStored]
  have kept : (smallRetrieval stored).Kept 3 [5] stored := {
    leader := ⟨by decide, rfl, by rfl⟩
    members := fun j mem => by
      obtain ⟨life, inStored, same⟩ := held j mem
      exact same ▸ (holds _ inStored).1
    nodup := show [1, 0].Nodup by decide
    fragments := List.nodup_singleton _
    target := List.mem_singleton_self _
    kept := fun j mem _ => by
      obtain ⟨life, inStored, same⟩ := held j mem
      exact ⟨life, inStored, by rw [same]⟩ }
  have enough : (smallRetrieval stored).holders [5] = [1, 0] := by
    apply List.filter_eq_self.mpr
    intro j mem
    obtain ⟨life, inStored, same⟩ := held j mem
    rw [Bool.and_eq_true, same]
    have known : ∀ j ∈ [1, 0], (smallRetrieval []).knows [5] j := by decide
    exact ⟨(holds _ inStored).2, known j mem⟩
  obtain ⟨read, info, reads, fetched⟩ := fetches (smallRetrieval stored) ⟨fun _ => none⟩ smallRead
    kept (by rw [show smallStorage.fragmentId = [5] from rfl, enough]; decide)
  exact ⟨request, stored, read, info, writes, stores, reads, fetched⟩

end Prism.Client
