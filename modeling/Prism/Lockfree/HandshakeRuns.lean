import Prism.Lockfree.HandshakeSeats

/-!
What holds in a committee at any time (`prism/server/CS2/roles/lockfree/mpc.py`).

Messages are lost, repeated, delayed and reordered, and members are restarted.

* `Invariant`: half keys are those of their owners, they are saved, and an acknowledged hello has
  left its half key with the peer.
* `Invariant.step`: every move keeps it, raises nothing, and makes no member forget a key.
* `sent_is_read`: whatever a member sends, its peer can read at any later time.
* `ready_is_ready`: who is taken for ready is ready.
-/

namespace Prism.Lockfree

open Prism.Crypto Prism.Lib LockFreeDropbox

/-! ### What members say -/

section Messages

variable {package : CryptoPackage} {cbor : Cbor2} {builtins : Builtins} {seating : Seating package}
  {H H' : Fin seating.size → Fin seating.size → Prop} {R R' : Set (Fin seating.size)}
  {i j : Fin seating.size} {m m' p : PrismMessage}

/-- What the `i`-th member says to the `j`-th, where `H j i` tells whether the `j`-th member keeps
the key of the `i`-th, and `R` the members that are ready. -/
structure Said (seating : Seating package) (H : Fin seating.size → Fin seating.size → Prop)
    (R : Set (Fin seating.size)) (i j : Fin seating.size) (m : PrismMessage) : Prop where
  typed : m.Typed
  type : m.get .msgType = .enum (.type .mpcRequest) ∨ m.get .msgType = .enum (.type .mpcResponse)
  partyId : m.get .partyId = .int (i : ℕ)
  ciphertext : m.get .ciphertext = .none
  action : ∃ action, mpcField m .action = .ok (.enum (.action action))
  requestId : ∃ opId, mpcField m .requestId = .ok (.bytes opId)
  hello : m.get .msgType = .enum (.type .mpcRequest) →
    mpcField m .action = .ok (.enum (.action .hello)) →
      m.get .halfKey = .object .halfKeyMap (seating.formation i).halfKey.fields ∧
        m.get .sender = .bytes (seating.formation i).pseudonym
  acknowledged : m.get .msgType = .enum (.type .mpcResponse) →
    mpcField m .action = .ok (.enum (.action .hello)) → H i j
  ready : m.get .msgType = .enum (.type .mpcRequest) →
    mpcField m .action = .ok (.enum (.action .ready)) → i ∈ R

/-- The packet carries a message to the `j`-th member: as it is, or encrypted by one whose key the
`j`-th member keeps. -/
structure Carries (cbor : Cbor2) (builtins : Builtins) (seating : Seating package)
    (H : Fin seating.size → Fin seating.size → Prop) (i j : Fin seating.size)
    (m p : PrismMessage) : Prop where
  typed : p.Typed
  destPartyId : p.get .destPartyId = .int (j : ℕ)
  pseudonym : p.get .pseudonym = .bytes (seating.formation j).pseudonym
  content : PrismMessage.SameBut [.destPartyId, .nonce, .pseudonym] m p ∨
    (H j i ∧ p.get .msgType = .enum (.type .encryptPeerMessage) ∧ p.get .halfKey = .none ∧
      Opens cbor builtins (i : ℕ) (seating.privateKey i) (seating.privateKey j) m p)

/-- A packet that was sent. -/
def PacketSound (cbor : Cbor2) (builtins : Builtins) (seating : Seating package)
    (H : Fin seating.size → Fin seating.size → Prop) (R : Set (Fin seating.size))
    (p : PrismMessage) : Prop :=
  ∃ i j m, Said seating H R i j m ∧ Carries cbor builtins seating H i j m p

theorem Said.mono (more : ∀ a b, H a b → H' a b) (sub : R ⊆ R') (said : Said seating H R i j m) :
    Said seating H' R' i j m :=
  { said with
    acknowledged := fun type action => more _ _ (said.acknowledged type action)
    ready := fun type action => sub (said.ready type action) }

theorem Carries.mono (more : ∀ a b, H a b → H' a b)
    (carries : Carries cbor builtins seating H i j m p) :
    Carries cbor builtins seating H' i j m p :=
  { carries with content := carries.content.imp_right (And.imp_left (more _ _)) }

theorem PacketSound.mono (more : ∀ a b, H a b → H' a b) (sub : R ⊆ R')
    (sound : PacketSound cbor builtins seating H R p) :
    PacketSound cbor builtins seating H' R' p := by
  obtain ⟨i, j, m, said, carries⟩ := sound
  exact ⟨i, j, m, said.mono more sub, carries.mono more⟩

/-- What arrives says the same. -/
theorem Said.delivered (said : Said seating H R i j m) (delivered : Delivered m m') :
    Said seating H R i j m' := by
  have msgType : m'.get .msgType = m.get .msgType := delivered.get (by decide) (by decide)
  refine ⟨delivered.1, ?_, ?_, ?_, ?_, ?_, ?_, ?_, ?_⟩
  · rw [msgType]
    exact said.type
  · rw [delivered.get (by decide) (by decide)]
    exact said.partyId
  · rw [delivered.get (by decide) (by decide)]
    exact said.ciphertext
  · rw [delivered.mpcField]
    exact said.action
  · rw [delivered.mpcField]
    exact said.requestId
  · rw [msgType, delivered.mpcField, delivered.get (f := .halfKey) (by decide) (by decide),
      delivered.get (f := .sender) (by decide) (by decide)]
    exact said.hello
  · rw [msgType, delivered.mpcField]
    exact said.acknowledged
  · rw [msgType, delivered.mpcField]
    exact said.ready

theorem Said.plain (said : Said seating H R i j m) :
    m.get .msgType ≠ .enum (.type .encryptPeerMessage) := by
  rcases said.type with type | type <;> rw [type] <;> simp

/-- A field of a message that is neither its type nor set by `mpc_message`. -/
theorem get_mpcMessage {now partyId : ℤ} {msgType : TypeEnum} {action opId : Value}
    {kwargs : List (FieldName × Value)} {f : FieldName} {t : FieldType}
    (declared : ClassName.prismMessage.info f = some ⟨f, t, .absent⟩)
    (other : f ∉ [FieldName.msgType, .partyId, .mpcMap]) :
    (mpcMessage now partyId msgType action opId kwargs).get f =
      ((argumentsOf .prismMessage kwargs).lookup f).getD .none := by
  simp only [List.mem_cons, List.not_mem_nil, or_false, not_or, ← Ne.eq_def] at other
  rw [mpcMessage, PrismMessage.create, PrismMessage.get, initFields, fieldOf_map declared]
  simp only [List.lookup_cons, beq_false_of_ne other.1, beq_false_of_ne other.2.1,
    beq_false_of_ne other.2.2]
  cases List.lookup f (argumentsOf .prismMessage kwargs) <;> rfl

/-- A member says what `request` or `response` makes for it. -/
theorem said_mpcMessage {now : ℤ} {isRequest : Bool} {action : ActionEnum} {opId : Bytes}
    {kwargs : List (FieldName × Value)}
    (inMap : ∀ arg ∈ argumentsOf .mpcMap kwargs, argumentTyped .mpcMap arg = true)
    (inMessage : ∀ arg ∈ argumentsOf .prismMessage kwargs,
      argumentTyped .prismMessage arg = true)
    (noCiphertext : kwargs.lookup .ciphertext = none)
    (hello : isRequest = true → action = .hello →
      (argumentsOf .prismMessage kwargs).lookup .halfKey =
          some (.object .halfKeyMap (seating.formation i).halfKey.fields) ∧
        (argumentsOf .prismMessage kwargs).lookup .sender =
          some (.bytes (seating.formation i).pseudonym))
    (acknowledged : isRequest = false → action = .hello → H i j)
    (ready : isRequest = true → action = .ready → i ∈ R) :
    Said seating H R i j (mpcMessage now (i : ℕ)
      (if isRequest then .mpcRequest else .mpcResponse) (.enum (.action action)) (.bytes opId)
      kwargs) := by
  have noCiphertext' : (argumentsOf .prismMessage kwargs).lookup .ciphertext = none := by
    rw [List.lookup_eq_none_iff] at noCiphertext ⊢
    exact fun arg mem => noCiphertext arg (List.mem_of_mem_filter mem)
  have other : ∀ {a : ActionEnum},
      mpcField (mpcMessage now (i : ℕ) (if isRequest then .mpcRequest else .mpcResponse)
        (.enum (.action action)) (.bytes opId) kwargs) .action = .ok (.enum (.action a)) →
      action = a := by
    intro a same
    cases Except.ok.inj same
    rfl
  refine ⟨mpcMessage_typed rfl rfl inMap inMessage, ?_, rfl, ?_, ⟨action, rfl⟩, ⟨opId, rfl⟩,
    fun type same => ?_, fun type same => acknowledged ?_ (other same),
    fun type same => ready ?_ (other same)⟩
  · cases isRequest
    · exact .inr rfl
    · exact .inl rfl
  · rw [get_mpcMessage rfl (by decide), noCiphertext']
    rfl
  · have isRequest' : isRequest = true := by
      cases isRequest
      · cases type
      · rfl
    obtain ⟨halfKey, sender⟩ := hello isRequest' (other same)
    rw [get_mpcMessage rfl (by decide), get_mpcMessage rfl (by decide), halfKey, sender]
    exact ⟨rfl, rfl⟩
  · cases isRequest
    · rfl
    · cases type
  · cases isRequest
    · cases type
    · rfl

/-- Who knows the key of a member knows the member. -/
theorem knows_of_hasKey {self : LockFreeDropbox} (seated : Seated seating R i self)
    (key : self.HasKey j) : Knows self.peers (j : ℕ) (seating.privateKey j) := by
  obtain ⟨halfKey, found⟩ := Option.isSome_iff_exists.mp key
  obtain ⟨peer, here, told⟩ := Option.bind_eq_some_iff.mp found
  refine ⟨peer, halfKey, ?_, told, ?_⟩
  · rw [peerAt, seated.length, pyPlace_of_lt j.isLt, Option.bind_some, here]
  · rw [(seated.peer j peer here).halfKey halfKey told]
    exact seating.key j

/-- **What is sent carries the message.** It is encrypted only for a peer that keeps the key of the
sender. -/
theorem carries_of_send (typed : m.Typed) {peer : DropboxPeer}
    (believed : PeerSound seating R i j peer) {acked : Bool} (keeps : acked = true → H j i)
    (now : ℤ) (encryptPeer : Bool) (fresh : Fresh package) (nonce : Bytes) :
    ∃ p, sendToPeer package cbor builtins now (i : ℕ) (seating.privateKey i) acked encryptPeer peer m
        fresh nonce = .ok p ∧ Carries cbor builtins seating H i j m p := by
  obtain ⟨p, sends, pTyped, dest, address, content⟩ := @sendToPeer_cases package cbor builtins (i : ℕ)
    (seating.privateKey i) (seating.privateKey j) peer m typed (fun halfKey told => by
      rw [believed.halfKey halfKey told]
      exact seating.key j) now acked encryptPeer fresh nonce
  exact ⟨p, sends, pTyped, dest.trans (by rw [believed.partyId]),
    address.trans (by rw [believed.pseudonym]),
    content.imp_right fun sealed_ => ⟨keeps sealed_.1, sealed_.2⟩⟩

/-- What a hook with a pseudonym matches. -/
theorem hook_match {pseudonym : Bytes} (ne : pseudonym ≠ []) (type : TypeEnum)
    (message : PrismMessage) :
    (Roles.MessageTypeHook.mk (some pseudonym) [type]).match message = true ↔
      (message.get .pseudonym).bytes? = some pseudonym ∧
        message.get .msgType = .enum (.type type) := by
  obtain ⟨b, rest, rfl⟩ := List.exists_cons_of_ne_nil ne
  rw [Roles.MessageTypeHook.match, Bool.and_eq_true]
  refine and_congr (by simp) ?_
  split
  · next msgType is => rw [is]; simp
  · next other => exact iff_of_false (by simp) fun is => other _ is

/-- **A packet is opened** by the member that it is for, whatever it was traced by. What has no
address of its own gets that of the packet. -/
theorem receive_carried {member : Member}
    (plain : m.get .msgType ≠ .enum (.type .encryptPeerMessage))
    (carries : Carries cbor builtins seating H i j m p)
    (seated : Seated seating R j member.life.memory)
    (keeps : H j i → member.life.memory.HasKey i) {arrived : PrismMessage}
    (typed : arrived.Typed) (traced : PrismMessage.SameBut [.debugInfo] p arrived)
    (s : Sending package) :
    ∃ received, member.receive cbor builtins seating j arrived s =
        member.submit cbor builtins seating j received s ∧ Delivered m received ∧
      (m.get .pseudonym = .none → received.get .destPartyId = .int (j : ℕ) ∧
        received.get .pseudonym = .bytes (seating.formation j).pseudonym) := by
  unfold Member.receive
  rcases carries.content with same | ⟨key, type, noKey, opens⟩
  · have same' : PrismMessage.SameBut [.debugInfo, .destPartyId, .nonce, .pseudonym] m arrived :=
      (same.mono (by simp)).trans (traced.mono (by simp))
    have type : arrived.get .msgType = m.get .msgType := same' _ (by decide) (by decide)
    refine ⟨arrived, if_neg fun matched => ?_, ⟨typed, same'⟩, fun _ =>
      ⟨(traced _ (by decide) (by decide)).trans carries.destPartyId,
        (traced _ (by decide) (by decide)).trans carries.pseudonym⟩⟩
    exact plain (type.symm.trans ((hook_match (seating.nonempty j) _ _).mp matched).2)
  · obtain ⟨received, opened, delivered, address⟩ := opens s.now member.life.memory.peers
      (knows_of_hasKey seated (keeps key)) arrived typed traced
    have matched : (Roles.MessageTypeHook.mk (some (seating.formation j).pseudonym)
        [.encryptPeerMessage]).match arrived = true := by
      rw [hook_match (seating.nonempty j), traced _ (by decide) (by decide),
        traced _ (by decide) (by decide), carries.pseudonym]
      exact ⟨rfl, type⟩
    have asIs : Roles.handlerMessage package cbor builtins s.now (seating.privateKey j) arrived =
        .ok (some arrived) := by
      rw [Roles.handlerMessage, traced .halfKey (by decide) (by decide), noKey]
      simp [Value.truthy]
    rw [carries.destPartyId, carries.pseudonym] at address
    refine ⟨received, ?_, delivered, address⟩
    rw [if_pos matched, asIs, ok_bind]
    dsimp only
    rw [opened, ok_bind]

end Messages

/-! ### Members -/

section Members

variable {package : CryptoPackage} {cbor : Cbor2} {builtins : Builtins} {seating : Seating package}
  {threshold : ℤ} {H H' : Fin seating.size → Fin seating.size → Prop}
  {R R' : Set (Fin seating.size)} {i j : Fin seating.size} {m : PrismMessage} {member : Member}

/-- What holds of the `i`-th member: its life is sound, and whoever has acknowledged its hello keeps
its key. -/
structure MemberSound (cbor : Cbor2) (seating : Seating package)
    (H : Fin seating.size → Fin seating.size → Prop) (R : Set (Fin seating.size))
    (i : Fin seating.size) (member : Member) : Prop where
  life : Sound cbor seating R ∅ i member.life
  helloAcks : ∀ a ∈ member.helloAcks, ∃ j : Fin seating.size, a = (j : ℕ) ∧ H j i
  helloResponses : ∀ gather, member.handshake = .gatherHello gather →
    ∀ r ∈ gather.responses, ∃ j : Fin seating.size, r.get .partyId = .int (j : ℕ) ∧ H j i
  readyResponses : ∀ gather, member.handshake = .gatherReady gather →
    ∀ r ∈ gather.responses, ∃ j : Fin seating.size, r.get .partyId = .int (j : ℕ)

theorem MemberSound.mono (more : ∀ a b, H a b → H' a b) (sub : R ⊆ R')
    (sound : MemberSound cbor seating H R i member) : MemberSound cbor seating H' R' i member where
  life := sound.life.mono sub subset_rfl
  helloAcks a mem := (sound.helloAcks a mem).imp fun _ => And.imp_right (more _ _)
  helloResponses gather is r mem :=
    (sound.helloResponses gather is r mem).imp fun _ => And.imp_right (more _ _)
  readyResponses := sound.readyResponses

/-- A message to a peer is sent. -/
theorem sendTo_ok (sound : MemberSound cbor seating H R i member) (typed : m.Typed)
    {peer : DropboxPeer} (found : member.life.memory.peers[(j : ℕ)]? = some peer)
    (s : Sending package) :
    ∃ p, member.sendTo cbor builtins seating i peer m s = .ok p ∧
      Carries cbor builtins seating H i j m p := by
  have believed := sound.life.memory.peer j peer found
  rw [Member.sendTo, sound.life.memory.partyId]
  refine carries_of_send typed believed (fun acked => ?_) s.now s.encryptPeer s.fresh s.nonce
  obtain ⟨k, same, keeps⟩ := sound.helloAcks _ (of_decide_eq_true acked)
  have eq : j = k := by
    rw [believed.partyId] at same
    exact Fin.ext (by exact_mod_cast same)
  rw [eq]
  exact keeps

/-- A peer of the committee. -/
theorem Seated.peerAt_ok {self : LockFreeDropbox} (seated : Seated seating R i self)
    (j : Fin seating.size) :
    ∃ peer, peerAt self.peers (.int (j : ℕ)) = .ok peer ∧ self.peers[(j : ℕ)]? = some peer := by
  have inside : (j : ℕ) < self.peers.length := by
    rw [seated.length]
    exact j.isLt
  refine ⟨self.peers[(j : ℕ)], ?_, List.getElem?_eq_getElem inside⟩
  rw [peerAt, seated.length, pyPlace_of_lt j.isLt, Option.bind_some, List.getElem?_eq_getElem inside]

/-- The peers that have responded are marked, and no others. -/
theorem acknowledge_ok {P : Fin seating.size → Prop} (seated : Seated seating R i member.life.memory)
    {responses : List PrismMessage}
    (from_ : ∀ r ∈ responses, ∃ j : Fin seating.size, r.get .partyId = .int (j : ℕ) ∧ P j)
    (acks : List ℤ) :
    ∃ acks', member.acknowledge acks responses = .ok acks' ∧
      (∀ a ∈ acks', a ∈ acks ∨ ∃ j : Fin seating.size, a = (j : ℕ) ∧ P j) ∧
      (∀ a ∈ acks, a ∈ acks') ∧ ∀ r ∈ responses, ∀ a, r.get .partyId = .int a → a ∈ acks' := by
  induction responses generalizing acks with
  | nil => exact ⟨acks, rfl, fun _ => .inl, fun _ => id, by simp⟩
  | cons r responses ih =>
      obtain ⟨j, partyId, holds⟩ := from_ r List.mem_cons_self
      obtain ⟨peer, atPeer, found⟩ := seated.peerAt_ok j
      have id_ := (seated.peer j peer found).partyId
      obtain ⟨acks', run, all, old, marked⟩ :=
        ih (fun r mem => from_ r (List.mem_cons_of_mem _ mem)) (setAdd acks peer.partyId)
      refine ⟨acks', ?_, fun a mem => ?_, fun a mem => old a (mem_setAdd.mpr (.inl mem)), ?_⟩
      · rw [Member.acknowledge] at run ⊢
        rw [List.foldlM_cons, partyId, atPeer]
        exact run
      · rcases all a mem with mem | marked
        · exact (mem_setAdd.mp mem).imp_right fun same => ⟨j, same.trans id_, holds⟩
        · exact .inr marked
      · rw [List.forall_mem_cons]
        refine ⟨fun a is => old a (mem_setAdd.mpr (.inr ?_)), marked⟩
        rw [partyId] at is
        cases is
        exact id_.symm

/-- A member that does not gather. -/
theorem MemberSound.still (life : Sound cbor seating R ∅ i member.life)
    (helloAcks : ∀ a ∈ member.helloAcks, ∃ j : Fin seating.size, a = (j : ℕ) ∧ H j i)
    (hello : ∀ gather, member.handshake ≠ .gatherHello gather)
    (ready : ∀ gather, member.handshake ≠ .gatherReady gather) :
    MemberSound cbor seating H R i member :=
  ⟨life, helloAcks, fun gather is => absurd is (hello gather),
    fun gather is => absurd is (ready gather)⟩

/-- The end of a gather. -/
theorem gathered_ok (sound : MemberSound cbor seating H R i member) :
    ∃ member', member.gathered = .ok member' ∧ member'.life = member.life ∧
      MemberSound cbor seating H R i member' ∧ ∀ a ∈ member.helloAcks, a ∈ member'.helloAcks := by
  unfold Member.gathered
  cases is : member.handshake with
  | gatherHello gather =>
      obtain ⟨acks, run, all, old, -⟩ := acknowledge_ok sound.life.memory
        (sound.helloResponses gather is) member.helloAcks
      refine ⟨{ member with helloAcks := acks, handshake := .sayReady }, ?_, rfl,
        .still sound.life (fun a mem => (all a mem).elim (sound.helloAcks a) id) (by simp)
          (by simp), old⟩
      dsimp only
      rw [run]
      rfl
  | gatherReady gather =>
      obtain ⟨acks, run, -⟩ := @acknowledge_ok _ _ R i member (fun _ => True) sound.life.memory
        gather.responses (fun r mem => by simpa using sound.readyResponses gather is r mem)
        member.readyAcks
      refine ⟨{ member with readyAcks := acks, handshake := .asleep }, ?_, rfl,
        .still sound.life sound.helloAcks (by simp) (by simp), fun _ => id⟩
      dsimp only
      rw [run]
      rfl
  | sayHello => exact ⟨member, rfl, rfl, sound, fun _ => id⟩
  | sayReady => exact ⟨member, rfl, rfl, sound, fun _ => id⟩
  | asleep => exact ⟨member, rfl, rfl, sound, fun _ => id⟩

/-- A response that matches says that it is one, and to what. -/
theorem type_of_matches {gather : Gather} {action : ActionEnum} {partyId : ℤ} {pseudonym : Bytes}
    (matched : gather.matches action partyId pseudonym m = true) :
    m.get .msgType = .enum (.type .mpcResponse) ∧
      mpcField m .action = .ok (.enum (.action action)) := by
  unfold Gather.matches at matched
  split at matched
  · next type _ atAction =>
      simp only [Bool.and_eq_true, decide_eq_true_eq] at matched
      rw [type, atAction, matched.2]
      exact ⟨rfl, rfl⟩
  · cases matched

/-- A gather that goes on ends once enough responses have come. -/
theorem gathered_or_not (sound : MemberSound cbor seating H R i member) (enough : Prop)
    [Decidable enough] :
    ∃ member', (if enough then member.gathered else .ok member) = .ok member' ∧
      member'.life = member.life ∧ MemberSound cbor seating H R i member' ∧
        ∀ a ∈ member.helloAcks, a ∈ member'.helloAcks := by
  split_ifs
  · exact gathered_ok sound
  · exact ⟨member, rfl, rfl, sound, fun _ => id⟩

/-- A response comes. -/
theorem gatherResponse_ok (sound : MemberSound cbor seating H R i member)
    (said : Said seating H R j i m) (pseudonym : Bytes) :
    ∃ member', member.gatherResponse pseudonym m = .ok member' ∧ member'.life = member.life ∧
      MemberSound cbor seating H R i member' ∧ ∀ a ∈ member.helloAcks, a ∈ member'.helloAcks := by
  unfold Member.gatherResponse
  cases is : member.handshake with
  | gatherHello gather =>
      dsimp only
      by_cases matched : gather.matches .hello member.life.memory.partyId pseudonym m = true
      · rw [if_pos matched]
        obtain ⟨type, action⟩ := type_of_matches matched
        refine @gathered_or_not _ _ _ H R i { member with
          handshake := .gatherHello ⟨gather.opId, gather.count, gather.responses ++ [m]⟩ }
          ⟨sound.life, sound.helloAcks, ?_, by simp⟩ _ _
        rintro _ ⟨rfl⟩ r mem
        rcases List.mem_append.mp mem with old | new
        · exact sound.helloResponses gather is r old
        · obtain rfl := List.mem_singleton.mp new
          exact ⟨j, said.partyId, said.acknowledged type action⟩
      · rw [if_neg matched]
        exact ⟨member, rfl, rfl, sound, fun _ => id⟩
  | gatherReady gather =>
      dsimp only
      by_cases matched : gather.matches .ready member.life.memory.partyId pseudonym m = true
      · rw [if_pos matched]
        refine @gathered_or_not _ _ _ H R i { member with
          handshake := .gatherReady ⟨gather.opId, gather.count, gather.responses ++ [m]⟩ }
          ⟨sound.life, sound.helloAcks, by simp, ?_⟩ _ _
        rintro _ ⟨rfl⟩ r mem
        rcases List.mem_append.mp mem with old | new
        · exact sound.readyResponses gather is r old
        · obtain rfl := List.mem_singleton.mp new
          exact ⟨j, said.partyId⟩
      · rw [if_neg matched]
        exact ⟨member, rfl, rfl, sound, fun _ => id⟩
  | sayHello => exact ⟨member, rfl, rfl, sound, fun _ => id⟩
  | sayReady => exact ⟨member, rfl, rfl, sound, fun _ => id⟩
  | asleep => exact ⟨member, rfl, rfl, sound, fun _ => id⟩

/-- Who keeps whose key, with what the `i`-th member keeps. -/
def learned (H : Fin seating.size → Fin seating.size → Prop) (i : Fin seating.size)
    (member : Member) (a b : Fin seating.size) : Prop :=
  H a b ∨ (a = i ∧ member.life.memory.HasKey b)

/-- The members that are ready, with the `i`-th if it is. -/
def readied (threshold : ℤ) (R : Set (Fin seating.size)) (i : Fin seating.size) (member : Member) :
    Set (Fin seating.size) :=
  {a | a ∈ R ∨ (a = i ∧ member.life.memory.ready threshold = true)}

/-- The `i`-th member does something: it raises nothing, forgets no key and no acknowledgement, and
what it becomes and what it sends is sound. -/
def Outcome (cbor : Cbor2) (builtins : Builtins) (seating : Seating package) (threshold : ℤ)
    (H : Fin seating.size → Fin seating.size → Prop) (R : Set (Fin seating.size))
    (i : Fin seating.size) (member : Member) (result : Py (Member × List PrismMessage)) : Prop :=
  ∃ member' packets, result = .ok (member', packets) ∧
    (∀ k, member.life.memory.HasKey k → member'.life.memory.HasKey k) ∧
    (∀ a ∈ member.helloAcks, a ∈ member'.helloAcks) ∧
    MemberSound cbor seating (learned H i member') (readied threshold R i member') i member' ∧
    ∀ p ∈ packets,
      PacketSound cbor builtins seating (learned H i member') (readied threshold R i member') p

/-- A member that learns nothing. -/
theorem Outcome.of_sound {member' : Member} {packets : List PrismMessage}
    (sound : MemberSound cbor seating H R i member')
    (sent : ∀ p ∈ packets, PacketSound cbor builtins seating H R p)
    (keeps : ∀ k, member.life.memory.HasKey k → member'.life.memory.HasKey k)
    (acks : ∀ a ∈ member.helloAcks, a ∈ member'.helloAcks) :
    Outcome cbor builtins seating threshold H R i member (.ok (member', packets)) :=
  ⟨member', packets, rfl, keeps, acks, sound.mono (fun _ _ => .inl) fun _ => .inl,
    fun p mem => (sent p mem).mono (fun _ _ => .inl) fun _ => .inl⟩

/-- The arguments of a response. -/
theorem responseArguments :
    (∀ arg ∈ argumentsOf .mpcMap [(.opSuccess, .bool true)], argumentTyped .mpcMap arg = true) ∧
      argumentsOf .prismMessage [(.opSuccess, .bool true)] = [] :=
  ⟨by decide, by decide⟩

/-- A response to a request of the handshake. -/
theorem respond_ok (sound : MemberSound cbor seating H R i member) (said : Said seating H R j i m)
    {action : ActionEnum} {opId : Bytes} (atAction : mpcField m .action = .ok (.enum (.action action)))
    (atId : mpcField m .requestId = .ok (.bytes opId)) (keeps : action = .hello → H i j)
    (s : Sending package) :
    let response := mpcMessage s.now (i : ℕ) .mpcResponse (.enum (.action action)) (.bytes opId)
      [(.opSuccess, .bool true)]
    ∃ p, member.respond cbor builtins seating i m s = .ok (member, [p]) ∧
      Said seating H R i j response ∧ Carries cbor builtins seating H i j response p := by
  intro response
  obtain ⟨peer, atPeer, found⟩ := sound.life.memory.peerAt_ok j
  have spoken : Said seating H R i j response := by
    refine @said_mpcMessage _ seating H R i j s.now false action opId _ responseArguments.1 ?_ rfl
      (by simp) (fun _ => keeps) (by simp)
    rw [responseArguments.2]
    exact fun _ mem => absurd mem List.not_mem_nil
  obtain ⟨p, sends, carries⟩ := @sendTo_ok _ cbor builtins _ _ _ _ _ _ _ sound spoken.typed peer found s
  refine ⟨p, ?_, spoken, carries⟩
  rw [Member.respond, respondTo, said.partyId, atPeer, sound.life.memory.partyId]
  simp only [ok_bind, atAction, atId]
  dsimp only [pure, Except.pure]
  rw [ok_bind]
  dsimp only
  rw [sends]
  rfl

/-- An event that raises nothing. -/
theorem act_ok {event : Event} {h : Handler Life PyError PUnit} {life' : Life}
    (is : handle cbor builtins (seating.formation i) event = (do h; return .done))
    (run : h.exec member.life = (life', .ok ⟨⟩)) :
    member.act cbor builtins seating i event = .ok { member with life := life' } := by
  rw [Member.act, LockFreeDropbox.act, is, Handler.exec_bind_of_ok run]
  rfl

/-- The same member with another sound life. -/
theorem MemberSound.live {life' : Life} (sound : MemberSound cbor seating H R i member)
    (life : Sound cbor seating R ∅ i life') :
    MemberSound cbor seating H R i { member with life := life' } :=
  { sound with life }

/-- **A hello** is answered once the key is kept. -/
theorem helloOp_answers (sound : MemberSound cbor seating H R i member)
    (said : Said seating H R j i m) (type : m.get .msgType = .enum (.type .mpcRequest))
    (action : mpcField m .action = .ok (.enum (.action .hello))) {opId : Bytes}
    (atId : mpcField m .requestId = .ok (.bytes opId)) (s : Sending package) :
    let response := mpcMessage s.now (i : ℕ) .mpcResponse (.enum (.action .hello)) (.bytes opId)
      [(.opSuccess, .bool true)]
    ∃ life' p, let member' := { member with life := life' }
      member.helloOp cbor builtins seating i m s = .ok (member', [p]) ∧
      (∀ k, member.life.memory.HasKey k → life'.memory.HasKey k) ∧
      MemberSound cbor seating (learned H i member') R i member' ∧
      Said seating (learned H i member') R i j response ∧
      Carries cbor builtins seating (learned H i member') i j response p := by
  intro response
  obtain ⟨halfKey, sender⟩ := said.hello type action
  have read : readHello m =
      .ok ((j : ℕ), (seating.formation j).halfKey, (seating.formation j).pseudonym) := by
    rw [readHello, said.partyId, sender, halfKey]
    exact dif_pos (seating.formation j).halfKey.typed
  have known : Sound cbor seating R {k | member.life.memory.HasKey k} i member.life :=
    ⟨sound.life.memory, fun _ => id, sound.life.saved⟩
  obtain ⟨life', run, sound'⟩ := sound_helloOp known j
  have acts := @act_ok _ cbor builtins seating i member (.hello (j : ℕ)
    (seating.formation j).halfKey (seating.formation j).pseudonym) _ _ rfl run
  have live : MemberSound cbor seating (learned H i { member with life := life' }) R i
      { member with life := life' } :=
    (sound.mono (fun _ _ => .inl) subset_rfl).live (sound'.mono subset_rfl (Set.empty_subset _))
  obtain ⟨p, responds, spoken, carries⟩ := @respond_ok _ cbor builtins _ _ _ _ _ _ _ live
    (said.mono (fun _ _ => .inl) subset_rfl) _ _ action atId
    (fun _ => .inr ⟨rfl, sound'.keys j (.inl rfl)⟩) s
  refine ⟨life', p, ?_, fun k key => sound'.keys k (.inr key), live, spoken, carries⟩
  rw [Member.helloOp, read, ok_bind]
  dsimp only
  rw [acts, ok_bind, responds]

theorem helloOp_ok (sound : MemberSound cbor seating H R i member)
    (said : Said seating H R j i m) (type : m.get .msgType = .enum (.type .mpcRequest))
    (action : mpcField m .action = .ok (.enum (.action .hello))) (s : Sending package) :
    Outcome cbor builtins seating threshold H R i member
      (member.helloOp cbor builtins seating i m s) := by
  obtain ⟨opId, atId⟩ := said.requestId
  obtain ⟨life', p, answers, keeps, live, spoken, carries⟩ :=
    @helloOp_answers _ cbor builtins _ _ _ _ _ _ _ sound said type action _ atId s
  refine ⟨{ member with life := life' }, [p], answers, keeps, fun _ => id,
    live.mono (fun _ _ => id) fun _ => .inl, fun q mem => ?_⟩
  rw [List.mem_singleton.mp mem]
  exact ⟨i, j, _, spoken.mono (fun _ _ => id) fun _ => .inl, carries⟩

/-- **A member that says that it is ready** is believed. -/
theorem handleReady_ok (sound : MemberSound cbor seating H R i member)
    (said : Said seating H R j i m) (type : m.get .msgType = .enum (.type .mpcRequest))
    (action : mpcField m .action = .ok (.enum (.action .ready))) (s : Sending package) :
    Outcome cbor builtins seating threshold H R i member
      (member.handleReady cbor builtins seating i m s) := by
  have known : Sound cbor seating R {k | member.life.memory.HasKey k} i member.life :=
    ⟨sound.life.memory, fun _ => id, sound.life.saved⟩
  obtain ⟨life', run, sound'⟩ := sound_handleReady known (said.ready type action)
  have acts := @act_ok _ cbor builtins seating i member (.ready (j : ℕ)) _ _ rfl run
  have live := sound.live (sound'.mono subset_rfl (Set.empty_subset _))
  obtain ⟨opId, atId⟩ := said.requestId
  obtain ⟨p, responds, spoken, carries⟩ := @respond_ok _ cbor builtins _ _ _ _ _ _ _ live said _ _
    action atId (by simp) s
  have outcome := @Outcome.of_sound _ cbor builtins seating threshold H R i member _ [p] live
    (by simpa using ⟨i, j, _, spoken, carries⟩) (fun k key => sound'.keys k key) fun _ => id
  unfold Member.handleReady
  rw [said.partyId]
  dsimp only
  rw [acts, ok_bind, responds]
  exact outcome

/-- What a member does with a request. -/
theorem mpcOpTask_ok (sound : MemberSound cbor seating H R i member)
    (said : Said seating H R j i m) (type : m.get .msgType = .enum (.type .mpcRequest))
    (s : Sending package) :
    Outcome cbor builtins seating threshold H R i member
      (member.mpcOpTask cbor builtins seating i m s) := by
  obtain ⟨action, atAction⟩ := said.action
  rw [Member.mpcOpTask, atAction, ok_bind]
  split
  · next is =>
      cases is
      exact helloOp_ok sound said type atAction s
  · next is =>
      cases is
      exact handleReady_ok sound said type atAction s
  · exact .of_sound sound (by simp) (fun _ => id) fun _ => id

/-- What a member does with a message that is for it. -/
theorem submit_ok (sound : MemberSound cbor seating H R i member)
    (said : Said seating H R j i m) (s : Sending package) :
    Outcome cbor builtins seating threshold H R i member
      (member.submit cbor builtins seating i m s) := by
  unfold Member.submit
  dsimp only
  split_ifs with matched
  · have asIs : Roles.handlerMessage package cbor builtins s.now (seating.privateKey i) m =
        .ok (some m) := by
      rw [Roles.handlerMessage, said.ciphertext]
      rfl
    rw [asIs, ok_bind]
    exact mpcOpTask_ok sound said ((hook_match (seating.nonempty i) _ _).mp matched).2 s
  · obtain ⟨member', run, life, sound', acks⟩ := gatherResponse_ok sound said
      (seating.formation i).pseudonym
    rw [run, ok_bind]
    exact .of_sound sound' (by simp) (fun k key => by rwa [life]) acks

/-- Messages to some of the peers are sent. -/
theorem sendTo_each (sound : MemberSound cbor seating H R i member)
    (said : ∀ j, Said seating H R i j m) {peers : List DropboxPeer}
    (listed : ∀ peer ∈ peers, peer ∈ member.life.memory.peers) (sendings : ℤ → Sending package) :
    ∃ packets, (peers.mapM fun peer =>
        member.sendTo cbor builtins seating i peer m (sendings peer.partyId)) = .ok packets ∧
      ∀ p ∈ packets, PacketSound cbor builtins seating H R p := by
  induction peers with
  | nil => exact ⟨[], rfl, by simp⟩
  | cons peer peers ih =>
      obtain ⟨packets, run, sent⟩ := ih fun other mem => listed other (List.mem_cons_of_mem _ mem)
      obtain ⟨k, found⟩ := List.getElem?_of_mem (listed peer List.mem_cons_self)
      have lt : k < seating.size := by
        rw [← sound.life.memory.length]
        exact (List.getElem?_eq_some_iff.mp found).1
      obtain ⟨p, sends, carries⟩ := @sendTo_ok _ cbor builtins _ _ _ _ ⟨k, lt⟩ _ _ sound (said i).typed
        peer found (sendings peer.partyId)
      refine ⟨p :: packets, ?_, ?_⟩
      · rw [List.mapM_cons, sends, ok_bind, run]
        rfl
      · rw [List.forall_mem_cons]
        exact ⟨⟨i, _, m, said _, carries⟩, sent⟩

theorem mem_of_unacknowledged {acks : List ℤ} {peer : DropboxPeer}
    (mem : peer ∈ member.unacknowledged acks) : peer ∈ member.life.memory.peers :=
  List.mem_of_mem_filter mem

/-- The own peer, with the own key. -/
theorem Seated.ownPeer {self : LockFreeDropbox} (seated : Seated seating R i self) :
    ∃ peer, peerAt self.peers (.int (i : ℕ)) = .ok peer ∧
      peer.halfKey = some (seating.formation i).halfKey := by
  obtain ⟨peer, atPeer, found⟩ := seated.peerAt_ok i
  obtain ⟨halfKey, is⟩ := Option.isSome_iff_exists.mp seated.own
  rw [LockFreeDropbox.keyOf, found, Option.bind_some] at is
  refine ⟨peer, atPeer, ?_⟩
  rw [is, (seated.peer i peer found).halfKey halfKey is]

/-- The hello of the `i`-th member. -/
def Seating.hello (seating : Seating package) (i : Fin seating.size) (now : ℤ) (opId : Bytes) :
    PrismMessage :=
  request now (i : ℕ) .hello opId
    [(.halfKey, .object .halfKeyMap (seating.formation i).halfKey.fields),
      (.sender, .bytes (seating.formation i).pseudonym)]

/-- What a hello says. -/
theorem said_hello (now : ℤ) (opId : Bytes) :
    Said seating H R i j (seating.hello i now opId) := by
  have given : ∀ halfKey sender : Value, argumentsOf .mpcMap
      [(.halfKey, halfKey), (.sender, sender)] = [] ∧ argumentsOf .prismMessage
      [(.halfKey, halfKey), (.sender, sender)] = [(.halfKey, halfKey), (.sender, sender)] :=
    fun _ _ => ⟨rfl, rfl⟩
  refine @said_mpcMessage _ seating H R i j now true .hello opId _ ?_ ?_ rfl (fun _ _ => ?_)
    (by simp) (by simp)
  · rw [(given _ _).1]
    exact fun _ mem => absurd mem List.not_mem_nil
  · rw [(given _ _).2]
    simp only [List.forall_mem_cons, List.not_mem_nil, false_implies, implies_true, and_true]
    exact ⟨argumentTyped_of_hasType rfl (by
      simp [Value.hasType, (seating.formation i).halfKey.typed]), rfl⟩
  · rw [(given _ _).2]
    exact ⟨rfl, rfl⟩

/-- What a member that is ready says. -/
theorem said_ready (ready : i ∈ R) (now : ℤ) (opId : Bytes) :
    Said seating H R i j (request now (i : ℕ) .ready opId []) :=
  @said_mpcMessage _ seating H R i j now true .ready opId [] (by decide) (by decide) rfl (by simp)
    (by simp) fun _ _ => ready

/-- A hello is said to those who have not acknowledged one. -/
theorem sayHello_ok (sound : MemberSound cbor seating H R i member) (now : ℤ) (opId : Bytes)
    (sendings : ℤ → Sending package) :
    Outcome cbor builtins seating threshold H R i member
      (member.sayHello cbor builtins seating i now opId sendings) := by
  unfold Member.sayHello
  dsimp only
  split_ifs with none_
  · exact .of_sound (.still sound.life sound.helloAcks (by simp) (by simp)) (by simp) (fun _ => id)
        fun _ => id
  obtain ⟨peer, atPeer, own⟩ := sound.life.memory.ownPeer
  obtain ⟨packets, run, sent⟩ := @sendTo_each _ cbor builtins _ _ _ _ _ _ sound
    (fun j => @said_hello _ seating H R i j now opId) (member.unacknowledged member.helloAcks)
    (fun _ => mem_of_unacknowledged) sendings
  rw [sound.life.memory.partyId, atPeer, ok_bind, own, halfKeyArgument, ← Seating.hello, run,
    ok_bind]
  refine .of_sound ⟨sound.life, sound.helloAcks, ?_, by simp⟩ sent (fun _ => id) fun _ => id
  rintro _ ⟨rfl⟩ r mem
  exact absurd mem List.not_mem_nil

/-- A member that knows enough keys says that it is ready. -/
theorem sayReady_ok (sound : MemberSound cbor seating H R i member) (now : ℤ) (opId : Bytes)
    (sendings : ℤ → Sending package) :
    Outcome cbor builtins seating threshold H R i member
      (member.sayReady cbor builtins seating threshold i now opId sendings) := by
  unfold Member.sayReady
  cases isReady : member.life.memory.ready threshold with
  | false =>
      exact .of_sound (.still sound.life sound.helloAcks (by simp) (by simp)) (by simp) (fun _ => id)
        fun _ => id
  | true =>
      have known : Sound cbor seating (insert i R) {k | member.life.memory.HasKey k} i member.life :=
        ⟨sound.life.memory.mono (Set.subset_insert _ _), fun _ => id,
          (sound.life.mono (Set.subset_insert _ _) subset_rfl).saved⟩
      obtain ⟨life', run, sound', -⟩ := sound_sayReady known (Set.mem_insert _ _)
      have acts := @act_ok _ cbor builtins seating i member .sayReady _ _ rfl run
      have stays : life'.memory.ready threshold = true :=
        ready_mono (sound.life.memory.length.trans sound'.memory.length.symm) sound'.keys isReady
      have live : MemberSound cbor seating H (insert i R) i { member with life := life' } :=
        (sound.mono (fun _ _ => id) (Set.subset_insert _ _)).live
          (sound'.mono subset_rfl (Set.empty_subset _))
      have outcome : ∀ {member' : Member} {packets : List PrismMessage}, member'.life = life' →
          member'.helloAcks = member.helloAcks → MemberSound cbor seating H (insert i R) i member' →
          (∀ p ∈ packets, PacketSound cbor builtins seating H (insert i R) p) →
          Outcome cbor builtins seating threshold H R i member (.ok (member', packets)) := by
        intro member' packets same acks live sent
        have sub : insert i R ⊆ readied threshold R i member' := by
          rintro a (rfl | mem)
          · exact .inr ⟨rfl, same ▸ stays⟩
          · exact .inl mem
        exact ⟨member', packets, rfl, same ▸ sound'.keys, fun _ => acks ▸ id,
          live.mono (fun _ _ => .inl) sub, fun p mem => (sent p mem).mono (fun _ _ => .inl) sub⟩
      obtain ⟨packets, sends, sent⟩ := @sendTo_each _ cbor builtins _ _ _ _ _ _ live
        (fun j => @said_ready _ seating H _ i j (Set.mem_insert _ _) now opId)
        (Member.unacknowledged { member with life := life' } member.readyAcks)
        (fun _ => mem_of_unacknowledged) sendings
      rw [if_neg (by simp), acts, ok_bind]
      dsimp only
      split_ifs with none_
      · exact outcome rfl rfl (.still live.life live.helloAcks (by simp) (by simp)) (by simp)
      · rw [live.life.memory.partyId, sends, ok_bind]
        refine outcome rfl rfl ⟨live.life, live.helloAcks, by simp, ?_⟩ sent
        rintro _ ⟨rfl⟩ r mem
        exact absurd mem List.not_mem_nil

/-- The handshake goes on. -/
theorem resume_ok (sound : MemberSound cbor seating H R i member) (now : ℤ) (opId : Bytes)
    (sendings : ℤ → Sending package) :
    Outcome cbor builtins seating threshold H R i member
      (member.resume cbor builtins seating threshold i now opId sendings) := by
  obtain ⟨member', ends, life, sound', acks⟩ := gathered_ok sound
  have gathers : Outcome cbor builtins seating threshold H R i member
      (do return (← member.gathered, [])) := by
    rw [ends, ok_bind]
    exact .of_sound sound' (by simp) (fun k key => by rwa [life]) acks
  unfold Member.resume
  cases member.handshake with
  | sayHello => exact sayHello_ok sound now opId sendings
  | sayReady => exact sayReady_ok sound now opId sendings
  | gatherHello _ => exact gathers
  | gatherReady _ => exact gathers
  | asleep =>
      exact .of_sound (.still sound.life sound.helloAcks (by simp) (by simp)) (by simp) (fun _ => id)
        fun _ => id

end Members

/-! ### The committee -/

section Committee

variable {package : CryptoPackage} {Context : Type} {cbor : Cbor2} {builtins : Builtins}
  {tracer : Tracer Context} {seating : Seating package} {threshold : ℤ}
  {w : World seating.size}

/-- The `a`-th member keeps the key of the `b`-th. -/
def World.Heard (w : World seating.size) (a b : Fin seating.size) : Prop :=
  (w.members a).life.memory.HasKey b

/-- The members that are ready. -/
def World.readyMembers (threshold : ℤ) (w : World seating.size) : Set (Fin seating.size) :=
  {a | (w.members a).life.memory.ready threshold = true}

/-- What holds of a committee at any time. -/
structure Invariant (cbor : Cbor2) (builtins : Builtins) (seating : Seating package)
    (threshold : ℤ) (w : World seating.size) : Prop where
  members : ∀ i, MemberSound cbor seating w.Heard (w.readyMembers threshold) i (w.members i)
  packets : ∀ p ∈ w.packets,
    PacketSound cbor builtins seating w.Heard (w.readyMembers threshold) p

/-- A message that is traced on its way. -/
theorem traced_ok (now : ℤ) {m : PrismMessage} (typed : m.Typed) (contexts : List Context) :
    ∃ m', Seating.traced builtins tracer now m contexts = .ok m' ∧ m'.Typed ∧
      PrismMessage.SameBut [.debugInfo] m m' := by
  induction contexts generalizing m with
  | nil => exact ⟨m, rfl, typed, .refl _ _⟩
  | cons context contexts ih =>
      obtain ⟨m', injected, typed', same, -⟩ := injectSpanContext_some tracer builtins now typed context
      obtain ⟨m'', run, typed'', same'⟩ := ih typed'
      refine ⟨m'', ?_, typed'', same.trans same'⟩
      rw [Seating.traced, List.foldlM_cons, injected]
      exact run

/-- A packet for another member is ignored. -/
theorem receive_other {i j : Fin seating.size} (ne : j ≠ i) {member : Member} {arrived : PrismMessage}
    (address : arrived.get .pseudonym = .bytes (seating.formation j).pseudonym)
    (s : Sending package) :
    member.receive cbor builtins seating i arrived s = .ok (member, []) := by
  have other : (seating.formation j).pseudonym ≠ (seating.formation i).pseudonym :=
    fun same => ne (seating.distinct j i same)
  have unmatched : ∀ type, (Roles.MessageTypeHook.mk (some (seating.formation i).pseudonym)
      [type]).match arrived ≠ true := by
    intro type matched
    have same := ((hook_match (seating.nonempty i) _ _).mp matched).1
    rw [address] at same
    exact other (Option.some.inj same)
  have ungathered : ∀ (gather : Gather) action partyId,
      gather.matches action partyId (seating.formation i).pseudonym arrived = false := by
    intro gather action partyId
    unfold Gather.matches
    split
    · simp [address, Value.truthy, Value.bytes?, other, seating.nonempty j]
    · rfl
  rw [Member.receive, if_neg (unmatched _), Member.submit, if_neg (unmatched _),
    Member.gatherResponse]
  cases member.handshake <;> simp [ungathered]

/-- What a move finds of its member. A restart leaves its life. -/
def Move.finds (w : World seating.size) : Move package Context seating.size → Member
  | .restart i _ => { life := (w.members i).life }
  | .resume i .. | .arrive i .. | .send i .. | .work i _ => w.members i

/-- **Every move goes well** for its member. -/
theorem effect_ok (inv : Invariant cbor builtins seating threshold w)
    (move : Move package Context seating.size) :
    Outcome cbor builtins seating threshold w.Heard (w.readyMembers threshold)
      (seating.effect cbor builtins tracer threshold w move).1 (move.finds w)
      (seating.effect cbor builtins tracer threshold w move).2 := by
  cases move with
  | restart i now =>
      have sound := inv.members i
      have known : Sound cbor seating (w.readyMembers threshold)
          {k | (w.members i).life.memory.HasKey k} i (w.members i).life :=
        ⟨sound.life.memory, fun _ => id, sound.life.saved⟩
      obtain ⟨life', run, sound'⟩ := @sound_restart _ cbor builtins _ _ _ _ _ known now
      have acts := @act_ok _ cbor builtins seating i (w.members i) (.restart now) _ _ rfl run
      rw [Seating.effect, acts]
      exact .of_sound (.still (sound'.mono subset_rfl (Set.empty_subset _)) (by simp) (by simp)
        (by simp)) (by simp) (fun k key => sound'.keys k key) fun _ => id
  | resume i now opId sendings => exact resume_ok (inv.members i) now opId sendings
  | arrive i k contexts s =>
      dsimp only [Seating.effect]
      cases found : w.packets[k]? with
      | none => exact .of_sound (inv.members i) (by simp) (fun _ => id) fun _ => id
      | some p =>
          obtain ⟨a, j, m, said, carries⟩ := inv.packets p (List.mem_of_getElem? found)
          obtain ⟨arrived, run, typed, same⟩ := @traced_ok _ builtins tracer s.now p carries.typed
            contexts
          dsimp only
          rw [run, ok_bind]
          by_cases mine : j = i
          · subst mine
            obtain ⟨received, receives, delivered, -⟩ := @receive_carried _ cbor builtins _ _ _ _ _ _ _
              (w.members j) said.plain carries (inv.members j).life.memory id arrived typed same s
            rw [receives]
            exact submit_ok (inv.members j) (said.delivered delivered) s
          · rw [receive_other mine ((same _ (by decide) (by decide)).trans carries.pseudonym)]
            exact .of_sound (inv.members i) (by simp) (fun _ => id) fun _ => id
  | send i j operation s =>
      have sound := inv.members i
      obtain ⟨peer, atPeer, found⟩ := sound.life.memory.peerAt_ok j
      have said : Said seating w.Heard (w.readyMembers threshold) i j
          (operation.message (i : ℕ)) :=
        said_mpcMessage operation.inMap operation.inMessage operation.noCiphertext
          (fun _ hello => absurd hello operation.other.1)
          (fun _ hello => absurd hello operation.other.1)
          fun _ ready => absurd ready operation.other.2
      obtain ⟨p, sends, carries⟩ :=
        @sendTo_ok _ cbor builtins _ _ _ _ _ _ _ sound said.typed peer found s
      dsimp only [Seating.effect]
      rw [atPeer, ok_bind, sound.life.memory.partyId, sends]
      exact .of_sound sound (by simpa using ⟨i, j, _, said, carries⟩) (fun _ => id) fun _ => id
  | work i event =>
      have sound := inv.members i
      have known : Sound cbor seating (w.readyMembers threshold)
          {k | (w.members i).life.memory.HasKey k} i (w.members i).life :=
        ⟨sound.life.memory, fun _ => id, sound.life.saved⟩
      dsimp only [Seating.effect]
      split_ifs with work
      · have worked := @sound_keeps_work _ cbor builtins _ _ _ i event work _ known
        rw [← act_fst] at worked
        exact .of_sound (sound.live (worked.mono subset_rfl (Set.empty_subset _))) (by simp)
          (fun k key => worked.keys k key) fun _ => id
      · exact .of_sound sound (by simp) (fun _ => id) fun _ => id

/-- What is known once a member that forgets no key has become another one. -/
theorem heard_update {i : Fin seating.size} {member : Member} {packets : List PrismMessage}
    (keeps : ∀ k, (w.members i).life.memory.HasKey k → member.life.memory.HasKey k)
    (a b : Fin seating.size) (key : learned w.Heard i member a b) :
    World.Heard ⟨Function.update w.members i member, packets⟩ a b := by
  unfold World.Heard
  dsimp only
  by_cases same : a = i
  · subst same
    rw [Function.update_self]
    exact key.elim (keeps b) And.right
  · rw [Function.update_of_ne same]
    exact key.elim id fun learned => absurd learned.1 same

variable (tracer) in
/-- **Every move keeps the invariant**, raises nothing, and makes no member forget a key. Only a
restart makes one forget acknowledgements. -/
theorem Invariant.step (inv : Invariant cbor builtins seating threshold w)
    (move : Move package Context seating.size) :
    (seating.step cbor builtins tracer threshold w move).2 = .ok () ∧
      Invariant cbor builtins seating threshold
        (seating.step cbor builtins tracer threshold w move).1 ∧
      (∀ a b, w.Heard a b → (seating.step cbor builtins tracer threshold w move).1.Heard a b) ∧
      ((∀ i now, move ≠ .restart i now) → ∀ a, ∀ k ∈ (w.members a).helloAcks,
        k ∈ ((seating.step cbor builtins tracer threshold w move).1.members a).helloAcks) := by
  have finds : (move.finds w).life =
      (w.members (seating.effect cbor builtins tracer threshold w move).1).life := by
    cases move <;> rfl
  have member_eq : (∀ i now, move ≠ .restart i now) → move.finds w =
      w.members (seating.effect cbor builtins tracer threshold w move).1 := by
    intro running
    cases move with
    | restart i now => exact absurd rfl (running i now)
    | _ => rfl
  have outcome := @effect_ok package Context cbor builtins tracer seating threshold w inv move
  unfold Seating.step
  generalize seating.effect cbor builtins tracer threshold w move = effect at outcome finds member_eq
  obtain ⟨i, result⟩ := effect
  obtain ⟨member, packets, is, keeps, acks, sound, sent⟩ := outcome
  dsimp only at is keeps acks sound sent finds member_eq
  rw [finds] at keeps
  subst is
  set w' : World seating.size :=
    ⟨Function.update w.members i member, w.packets ++ packets⟩ with hw'
  have here : w'.members i = member := Function.update_self ..
  have there : ∀ a, a ≠ i → w'.members a = w.members a := fun a ne => Function.update_of_ne ne ..
  have more : ∀ a b, learned w.Heard i member a b → w'.Heard a b := heard_update keeps
  have sub : readied threshold (w.readyMembers threshold) i member ⊆ w'.readyMembers threshold := by
    intro a isReady
    change (w'.members a).life.memory.ready threshold = true
    by_cases same : a = i
    · subst same
      rw [here]
      have lengths := (inv.members a).life.memory.length.trans sound.life.memory.length.symm
      exact isReady.elim (ready_mono lengths keeps) And.right
    · rw [there a same]
      exact isReady.elim id fun readied => absurd readied.1 same
  refine ⟨rfl, ⟨fun a => ?_, fun p mem => ?_⟩, fun a b key => more a b (.inl key),
    fun running a k mem => ?_⟩
  · by_cases same : a = i
    · subst same
      rw [here]
      exact sound.mono more sub
    · rw [there a same]
      exact (inv.members a).mono (fun a b key => more a b (.inl key)) fun _ mem => sub (.inl mem)
  · rcases List.mem_append.mp mem with old | new
    · exact (inv.packets p old).mono (fun a b key => more a b (.inl key)) fun _ mem => sub (.inl mem)
    · exact (sent p new).mono more sub
  · by_cases same : a = i
    · subst same
      rw [here]
      rw [member_eq running] at acks
      exact acks k mem
    · rwa [there a same]

variable (cbor) (builtins) (tracer) (seating) (threshold)

/-- A committee that is formed. -/
theorem invariant_init (start : ℤ) :
    Invariant cbor builtins seating threshold
      (seating.committee cbor builtins tracer threshold start).init where
  members i := .still ((@sound_formed package cbor builtins seating i start).mono
    (Set.empty_subset _) subset_rfl) (by simp [Seating.committee]) (by simp [Seating.committee])
    (by simp [Seating.committee])
  packets p mem := absurd mem List.not_mem_nil

/-- Whatever happens, the invariant holds and nothing raises. -/
theorem invariant_run (start : ℤ) (moves : List (Move package Context seating.size)) :
    let run := (seating.committee cbor builtins tracer threshold start).run moves
    Invariant cbor builtins seating threshold run.1 ∧ ∀ e ∈ run.2, e.2 = .ok () := by
  apply @Machine.run_induction _ _ _ (seating.committee cbor builtins tracer threshold start)
    (fun _ _ _ => True) fun w history => Invariant cbor builtins seating threshold w ∧
      ∀ e ∈ history, e.2 = .ok ()
  · exact ⟨invariant_init cbor builtins tracer seating threshold start, by simp⟩
  · rintro w history move ⟨inv, ok⟩ -
    obtain ⟨runs, inv', -⟩ := inv.step tracer move
    refine ⟨inv', fun e mem => ?_⟩
    rcases List.mem_append.mp mem with old | new
    · exact ok e old
    · rw [List.mem_singleton.mp new]
      exact runs
  · exact fun _ _ _ _ => trivial

/-- Whatever happens later, no member forgets a key. -/
theorem heard_later (start : ℤ) (moves later : List (Move package Context seating.size))
    {a b : Fin seating.size}
    (heard : ((seating.committee cbor builtins tracer threshold start).run moves).1.Heard a b) :
    ((seating.committee cbor builtins tracer threshold start).run (moves ++ later)).1.Heard a b := by
  induction later using List.reverseRecOn with
  | nil => rwa [List.append_nil]
  | append_singleton later move ih =>
      rw [← List.append_assoc, Machine.run_concat]
      exact ((invariant_run cbor builtins tracer seating threshold start _).1.step tracer
        move).2.2.1 a b ih

/-- **Whatever a member sends to another one, the other one reads**, now or at any later time,
and after any restarts. -/
theorem sent_is_read (start : ℤ) (moves later : List (Move package Context seating.size))
    (i j : Fin seating.size) {m : PrismMessage} (typed : m.Typed)
    (plain : m.get .msgType ≠ .enum (.type .encryptPeerMessage)) (s : Sending package) (now : ℤ) :
    let committee := seating.committee cbor builtins tracer threshold start
    let sender := (committee.run moves).1.members i
    let receiver := (committee.run (moves ++ later)).1.members j
    ∃ peer p, sender.life.memory.peers[(j : ℕ)]? = some peer ∧
      sender.sendTo cbor builtins seating i peer m s = .ok p ∧
      ∀ arrived, arrived.Typed → PrismMessage.SameBut [.debugInfo] p arrived →
        ∃ received, receivePeer package cbor builtins now (seating.privateKey j)
          receiver.life.memory.peers arrived = .ok (some received) ∧ Delivered m received := by
  intro committee sender receiver
  have before := (invariant_run cbor builtins tracer seating threshold start moves).1
  have after := (invariant_run cbor builtins tracer seating threshold start (moves ++ later)).1
  obtain ⟨peer, -, found⟩ := (before.members i).life.memory.peerAt_ok j
  obtain ⟨p, sends, carries⟩ := @sendTo_ok _ cbor builtins _ _ _ _ _ _ _ (before.members i) typed
    peer found s
  refine ⟨peer, p, found, sends, fun arrived arrivedTyped traced => ?_⟩
  rcases carries.content with same | ⟨key, type, -, opens⟩
  · exact delivered_plain cbor builtins now plain same arrivedTyped traced
  · have keeps := heard_later cbor builtins tracer seating threshold start moves later key
    have knows := knows_of_hasKey (after.members j).life.memory keeps
    obtain ⟨received, opened, delivered, -⟩ := opens now _ knows arrived arrivedTyped traced
    refine ⟨received, ?_, delivered⟩
    rw [receivePeer, traced .msgType (by decide) (by decide), type]
    exact opened

/-- A tracer that injects nothing. -/
def silentTracer : Tracer Unit where
  inject _ := []
  nodup_inject _ := List.nodup_nil
  extract _ := .ok none
  extract_inject _ := ⟨none, rfl⟩

/-- A committee of two. -/
def twoSeats : Seating CryptoPackage.additive where
  size := 2
  privateKey i := [UInt8.ofNat (i + 1)]
  formation i :=
    { partyId := (i : ℕ), members := [("first", [1]), ("second", [2])],
      pseudonym := [UInt8.ofNat (i + 1)],
      halfKey := ⟨[.enum (.halfKeyType .ecdh), .none, .none, .none, .none,
        .bytes [UInt8.ofNat (i + 1)]], rfl⟩ }
  partyId _ := rfl
  members := by decide
  distinct := by decide
  nonempty _ := by simp
  key _ := toKey_halfKeyMap ..

def firstSeat : Fin twoSeats.size := (0 : Fin 2)

def secondSeat : Fin twoSeats.size := (1 : Fin 2)

/-- How a member of it sends. -/
def twoSending : Sending CryptoPackage.additive where
  now := 1
  encryptPeer := true
  fresh := ⟨[7], List.replicate 12 8, 9, rfl⟩
  nonce := [11]

/-- What the first member asks. -/
def refreshRequest : PrismMessage := request 1 0 .refresh [6] []

theorem refreshRequest_type : refreshRequest.get .msgType = .enum (.type .mpcRequest) := rfl

/-- The second member is restarted and reads what the first one sent. -/
theorem two_seats_read :
    let committee := twoSeats.committee Cbor.package Builtins.strict silentTracer 1 0
    let sender := (committee.run []).1.members firstSeat
    let receiver := (committee.run ([] ++ [.restart secondSeat 2])).1.members secondSeat
    ∃ peer p, sender.life.memory.peers[(secondSeat : ℕ)]? = some peer ∧
      sender.sendTo Cbor.package Builtins.strict twoSeats firstSeat peer refreshRequest twoSending =
        .ok p ∧
      ∀ arrived, arrived.Typed → PrismMessage.SameBut [.debugInfo] p arrived →
        ∃ received, receivePeer CryptoPackage.additive Cbor.package Builtins.strict 3
          (twoSeats.privateKey secondSeat) receiver.life.memory.peers arrived =
            .ok (some received) ∧ Delivered refreshRequest received :=
  sent_is_read Cbor.package Builtins.strict silentTracer twoSeats 1 0 [] [.restart secondSeat 2]
    firstSeat secondSeat (by decide +kernel) (by simp [refreshRequest_type]) twoSending 3

/-- The members that the `i`-th member takes for ready. -/
def World.takenForReady (w : World seating.size) (i : Fin seating.size) : Set (Fin seating.size) :=
  {j | ∃ peer, (w.members i).life.memory.peers[(j : ℕ)]? = some peer ∧ peer.ready = true}

/-- **Who is taken for ready is ready**, and stays so: it knows enough keys, now or at any later
time, and after any restarts. -/
theorem ready_is_ready (start : ℤ) (moves later : List (Move package Context seating.size))
    (i : Fin seating.size) :
    let committee := seating.committee cbor builtins tracer threshold start
    (committee.run moves).1.takenForReady seating i ⊆
      (committee.run (moves ++ later)).1.readyMembers threshold := by
  rintro committee j ⟨peer, found, isReady⟩
  have before := (invariant_run cbor builtins tracer seating threshold start moves).1
  have after := (invariant_run cbor builtins tracer seating threshold start (moves ++ later)).1
  have ready := ((before.members i).life.memory.peer j peer found).ready isReady
  have seated := (before.members j).life.memory
  refine ready_mono (seated.length.trans (after.members j).life.memory.length.symm)
    (fun k key => ?_) ready
  -- only members have keys
  have lt : k < seating.size := by
    obtain ⟨halfKey, is⟩ := Option.isSome_iff_exists.mp key
    obtain ⟨other, here, -⟩ := Option.bind_eq_some_iff.mp is
    rw [← seated.length]
    exact (List.getElem?_eq_some_iff.mp here).1
  exact @heard_later _ _ cbor builtins tracer seating threshold start moves later j ⟨k, lt⟩ key

/-- **The handshake raises nothing**, whatever arrives in whatever order. -/
theorem handshake_raises_nothing (start : ℤ) (moves : List (Move package Context seating.size)) :
    ((seating.committee cbor builtins tracer threshold start).run moves).2.map Prod.snd =
      List.replicate moves.length (.ok ()) := by
  have ok := (invariant_run cbor builtins tracer seating threshold start moves).2
  refine List.eq_replicate_iff.mpr ⟨?_, fun outcome mem => ?_⟩
  · rw [List.length_map, Machine.length_history]
  · obtain ⟨e, among, rfl⟩ := List.mem_map.mp mem
    exact ok e among

end Committee

end Prism.Lockfree
