import Prism.Lockfree.Handshake
import Prism.Lockfree.Retrieve

/-!
What a member of a committee knows of the others (`prism/server/CS2/roles/lockfree/mpc.py`).

* `sendToPeer_cases`: a message is sent as it is, or encrypted for a peer that has acknowledged a
  hello.
* `Seated`: what a dropbox may believe of its committee. `Sound` adds that it is saved.
* `sound_helloOp`, `sound_handleReady`, `sound_restart`, `sound_keeps_work`: what the events of a
  dropbox do to that.
-/

namespace Prism.Lockfree

open Prism.Crypto Prism.Lib LockFreeDropbox

/-! ### What a message becomes on its way -/

section Packets

variable {package : CryptoPackage} (cbor : Cbor2) (builtins : Builtins)

/-- A clone with other fields of builtin types is the message with these fields in their places. -/
theorem clone_scalars {m : PrismMessage} (typed : m.Typed) (now : ℤ)
    {kwargs : List (FieldName × Value)} (distinct : (kwargs.map Prod.fst).Nodup)
    (fits : ∀ arg ∈ kwargs, ∃ s, ClassName.prismMessage.info arg.1 =
      some ⟨arg.1, .scalar s, .absent⟩ ∧ (arg.2 = Value.none ∨ arg.2.isScalar s = true)) :
    ∃ sent, m.clone builtins now kwargs = .ok sent ∧ sent.Typed ∧
      PrismMessage.SameBut (kwargs.map Prod.fst) m sent ∧
      ∀ f ∈ PrismMessage.names, ∀ v, kwargs.lookup f = some v → sent.get f = v := by
  refine PrismMessage.clone_sameBut builtins now typed kwargs distinct fun arg mem => ?_
  obtain ⟨s, declared, value⟩ := fits arg mem
  exact PrismMessage.scalar_clonable declared value

/-- An addressed message has the address that was given, and is the same but for that. -/
theorem addressed_to {m : PrismMessage} (typed : m.Typed) (now i : ℤ) (nonce pseudonym : Bytes) :
    ∃ sent, m.clone builtins now
        [(.destPartyId, .int i),
          (.nonce, if (m.get .nonce).truthy then m.get .nonce else .bytes nonce),
          (.pseudonym, .bytes pseudonym)] = .ok sent ∧ sent.Typed ∧
      PrismMessage.SameBut [.destPartyId, .nonce, .pseudonym] m sent ∧
      ((m.get .nonce).truthy = true → sent.get .nonce = m.get .nonce) ∧
      sent.get .destPartyId = .int i ∧ sent.get .pseudonym = .bytes pseudonym := by
  have nonceTyped : (if (m.get .nonce).truthy then m.get .nonce else .bytes nonce) = Value.none ∨
      (if (m.get .nonce).truthy then m.get .nonce else .bytes nonce).isScalar .bytes = true := by
    split_ifs
    · exact PrismMessage.get_scalar typed rfl
    · exact .inr rfl
  obtain ⟨sent, cloned, sentTyped, same, given⟩ := @clone_scalars builtins m typed now
    [(.destPartyId, .int i), (.nonce, if (m.get .nonce).truthy then m.get .nonce else .bytes nonce),
      (.pseudonym, .bytes pseudonym)] (by simp) (by
        simp only [List.forall_mem_cons, List.not_mem_nil, false_implies, implies_true, and_true]
        exact ⟨⟨_, rfl, .inr rfl⟩, ⟨_, rfl, nonceTyped⟩, ⟨_, rfl, .inr rfl⟩⟩)
  refine ⟨sent, cloned, sentTyped, same, fun has => ?_, given _ (by decide) _ rfl,
    given _ (by decide) _ rfl⟩
  rw [given .nonce (by decide) _ rfl, if_pos has]

/-- The packet is opened by its receiver, if that knows the sender: it carries the message, and
leads it to its own address. -/
def Opens (partyId : ℤ) (senderKey receiverKey : package.PrivateKey) (m p : PrismMessage) : Prop :=
  ∀ now peers, Knows peers partyId senderKey →
    ∀ arrived, arrived.Typed → PrismMessage.SameBut [.debugInfo] p arrived →
      ∃ received, handleEncPeer package cbor builtins now receiverKey peers arrived =
          .ok (some received) ∧ Delivered m received ∧
        (m.get .pseudonym = .none → received.get .destPartyId = p.get .destPartyId ∧
          received.get .pseudonym = p.get .pseudonym)

/-- What was encrypted for a member is opened by it. -/
theorem opens_of_encrypted {partyId : ℤ} {senderKey receiverKey : package.PrivateKey}
    {m p : PrismMessage} (typed : m.Typed) {nonce ciphertext data : Bytes}
    (fromSender : p.get .partyId = .int partyId) (noKey : p.get .halfKey = .none)
    (nonce_ne : nonce ≠ []) (ciphertext_ne : ciphertext ≠ []) (atNonce : p.get .nonce = .bytes nonce)
    (atCiphertext : p.get .ciphertext = .bytes ciphertext)
    (back : package.aesDecrypt (exchange package senderKey (package.publicKey receiverKey) [])
      nonce ciphertext = .ok data)
    (decoded : ∀ now, PrismMessage.decode cbor builtins now data = .ok (some m)) :
    Opens cbor builtins partyId senderKey receiverKey m p := by
  rintro now peers ⟨source, halfKey, atSource, sourceKey, toSender⟩ arrived arrivedTyped traced
  have kept : ∀ f ∈ PrismMessage.names, f ∉ [FieldName.debugInfo] → arrived.get f = p.get f := traced
  have sender : Crypto.senderKey package arrived (some (package.publicKey senderKey)) =
      .ok (some (package.publicKey senderKey)) := by
    rw [Crypto.senderKey, kept .halfKey (by decide) (by decide), noKey]
    rfl
  have decrypted : decrypt package cbor builtins now arrived receiverKey
      (some (package.publicKey senderKey)) = .ok (some m) := by
    refine decrypt_of_data (decryptData_of_key sender nonce_ne ciphertext_ne ?_ ?_ ?_) (decoded now)
    · rw [kept .nonce (by decide) (by decide), atNonce]
    · rw [kept .ciphertext (by decide) (by decide), atCiphertext]
    · rw [exchange_comm, back]
  have pseudonymTyped : (if (m.get .pseudonym).truthy then m.get .pseudonym
      else arrived.get .pseudonym) = Value.none ∨ (if (m.get .pseudonym).truthy then
        m.get .pseudonym else arrived.get .pseudonym).isScalar .bytes = true := by
    split_ifs
    · exact PrismMessage.get_scalar typed rfl
    · exact PrismMessage.get_scalar arrivedTyped rfl
  obtain ⟨received, cloned, receivedTyped, same, given⟩ := @clone_scalars builtins m typed now
    [(.destPartyId, arrived.get .destPartyId), (.pseudonym,
      if (m.get .pseudonym).truthy then m.get .pseudonym else arrived.get .pseudonym)]
    (by simp) (by
      simp only [List.forall_mem_cons, List.not_mem_nil, false_implies, implies_true, and_true]
      exact ⟨⟨_, rfl, PrismMessage.get_scalar arrivedTyped rfl⟩, ⟨_, rfl, pseudonymTyped⟩⟩)
  refine ⟨received, ?_, ⟨receivedTyped, same.mono (by simp)⟩, fun none_ => ⟨?_, ?_⟩⟩
  · rw [handleEncPeer, kept .partyId (by decide) (by decide), fromSender, atSource]
    simp only [ok_bind, sourceKey, toSender, decrypted]
    rw [cloned]
    rfl
  · rw [given .destPartyId (by decide) _ rfl, kept .destPartyId (by decide) (by decide)]
  · rw [given .pseudonym (by decide) _ rfl, none_, if_neg (by simp [Value.truthy]),
      kept .pseudonym (by decide) (by decide)]

/-- What `send_to_peer` makes of a message: the message itself with an address, or, for a peer that
has acknowledged a hello, one that carries it encrypted. -/
theorem sendToPeer_cases {partyId : ℤ} {senderKey receiverKey : package.PrivateKey}
    {peer : DropboxPeer} {m : PrismMessage} (typed : m.Typed)
    (known : ∀ halfKey, peer.halfKey = some halfKey →
      toKey package (.object .halfKeyMap halfKey.fields) =
        .ok (some (package.publicKey receiverKey)))
    (now : ℤ) (acked encryptPeer : Bool) (fresh : Fresh package) (nonce : Bytes) :
    ∃ p, sendToPeer package cbor builtins now partyId senderKey acked encryptPeer peer m fresh
        nonce = .ok p ∧ p.Typed ∧ p.get .destPartyId = .int peer.partyId ∧
      p.get .pseudonym = .bytes peer.pseudonym ∧
      (PrismMessage.SameBut [.destPartyId, .nonce, .pseudonym] m p ∨
        (acked = true ∧ p.get .msgType = .enum (.type .encryptPeerMessage) ∧
          p.get .halfKey = .none ∧ Opens cbor builtins partyId senderKey receiverKey m p)) := by
  obtain ⟨sent, addressed, sentTyped, same, -, dest, address⟩ :=
    addressed_to builtins typed now peer.partyId nonce peer.pseudonym
  unfold sendToPeer
  by_cases isLocal : peer.isLocal = true
  · rw [if_pos isLocal]
    exact ⟨sent, addressed, sentTyped, dest, address, .inl same⟩
  rw [if_neg isLocal]
  unfold encryptPeerMessage
  cases key : peer.halfKey with
  | none => exact ⟨sent, addressed, sentTyped, dest, address, .inl same⟩
  | some halfKey =>
      dsimp only
      by_cases configured : (acked && encryptPeer) = true
      · obtain ⟨data, ciphertext, run, ciphertext_ne, back, decoded⟩ := @encrypt_ok package cbor
          builtins m typed senderKey (package.publicKey receiverKey) fresh.nonce fresh.nonce_ne_nil
        set packed := PrismMessage.create fresh.now .encryptPeerMessage
          [(.pseudonym, .bytes peer.pseudonym), (.ciphertext, .bytes ciphertext),
            (.nonce, .bytes fresh.nonce), (.partyId, .int partyId)] with hpacked
        have packedTyped : packed.Typed := by
          apply PrismMessage.typed_create
          simp only [List.forall_mem_cons, List.not_mem_nil, false_implies, implies_true, and_true]
          exact ⟨rfl, rfl, rfl, rfl⟩
        obtain ⟨p, addressed, pTyped, same, ownNonce, dest, address⟩ :=
          addressed_to builtins packedTyped now peer.partyId nonce peer.pseudonym
        refine ⟨p, ?_, pTyped, dest, address, .inr ⟨(Bool.and_eq_true_iff.mp configured).1,
          same .msgType (by decide) (by decide), same .halfKey (by decide) (by decide), ?_⟩⟩
        · rw [if_pos configured, known halfKey key]
          simp only [ok_bind, run, if_neg ciphertext_ne]
          exact addressed
        · refine opens_of_encrypted cbor builtins typed (same .partyId (by decide) (by decide))
            (same .halfKey (by decide) (by decide)) fresh.nonce_ne_nil ciphertext_ne ?_
            (same .ciphertext (by decide) (by decide)) back decoded
          rw [ownNonce (decide_eq_true fresh.nonce_ne_nil)]
          rfl
      · rw [if_neg configured]
        exact ⟨sent, addressed, sentTyped, dest, address, .inl same⟩

end Packets

/-! ### What a dropbox knows of its committee -/

section Seats

variable {package : CryptoPackage} {cbor : Cbor2} {builtins : Builtins} {seating : Seating package}

/-- The half key that is kept for the `j`-th member. -/
def LockFreeDropbox.keyOf (self : LockFreeDropbox) (j : ℕ) : Option HalfKey :=
  self.peers[j]?.bind fun peer => peer.halfKey

/-- The dropbox keeps a half key for the `j`-th member. -/
def LockFreeDropbox.HasKey (self : LockFreeDropbox) (j : ℕ) : Prop := (self.keyOf j).isSome

/-- What the `i`-th member may believe of the `j`-th, where some members are ready. -/
structure PeerSound (seating : Seating package) (R : Set (Fin seating.size))
    (i j : Fin seating.size) (peer : DropboxPeer) : Prop where
  partyId : peer.partyId = (j : ℕ)
  pseudonym : peer.pseudonym = (seating.formation j).pseudonym
  isLocal : peer.isLocal = true ↔ i = j
  halfKey : ∀ key, peer.halfKey = some key → key = (seating.formation j).halfKey
  ready : peer.ready = true → j ∈ R

/-- The dropbox of the `i`-th member lists all members in their order, and keeps its own key. -/
structure Seated (seating : Seating package) (R : Set (Fin seating.size)) (i : Fin seating.size)
    (dropbox : LockFreeDropbox) : Prop where
  partyId : dropbox.partyId = (i : ℕ)
  length : dropbox.peers.length = seating.size
  peer : ∀ (j : Fin seating.size) peer, dropbox.peers[(j : ℕ)]? = some peer →
    PeerSound seating R i j peer
  own : dropbox.HasKey i

/-- A peer without what does not matter to the handshake. -/
def core (peer : DropboxPeer) : DropboxPeer :=
  { peer with name := "", preproductBatches := [], storedFragments := [] }

/-- The life of the `i`-th member: it is seated, knows some keys, and has saved all that it
knows. -/
structure Sound (cbor : Cbor2) (seating : Seating package) (R : Set (Fin seating.size))
    (K : Set ℕ) (i : Fin seating.size) (life : Life) : Prop where
  memory : Seated seating R i life.memory
  keys : ∀ j ∈ K, life.memory.HasKey j
  saved : ∃ state self, life.records.committee = some state ∧
    self.saveCommittee cbor = .ok state ∧ Seated seating R i self ∧
    ∀ j, life.memory.HasKey j → self.HasKey j

variable {R : Set (Fin seating.size)} {K : Set ℕ} {i : Fin seating.size} {life : Life}

theorem PeerSound.mono {R' : Set (Fin seating.size)} (sub : R ⊆ R') {j : Fin seating.size}
    {peer : DropboxPeer} (sound : PeerSound seating R i j peer) : PeerSound seating R' i j peer :=
  { sound with ready := fun ready => sub (sound.ready ready) }

theorem Seated.mono {R' : Set (Fin seating.size)} (sub : R ⊆ R') {self : LockFreeDropbox}
    (seated : Seated seating R i self) : Seated seating R' i self :=
  ⟨seated.partyId, seated.length, fun j peer found => (seated.peer j peer found).mono sub,
    seated.own⟩

theorem Sound.mono {R' : Set (Fin seating.size)} {K' : Set ℕ} (sub : R ⊆ R') (fewer : K' ⊆ K)
    (sound : Sound cbor seating R K i life) : Sound cbor seating R' K' i life := by
  obtain ⟨state, self, found, saved, seated, keys⟩ := sound.saved
  exact ⟨sound.memory.mono sub, fun j mem => sound.keys j (fewer mem), state, self, found, saved,
    seated.mono sub, keys⟩

theorem keyOf_eq (self : LockFreeDropbox) (j : ℕ) :
    self.keyOf j = ((self.peers.map fun peer => peer.halfKey)[j]?).join := by
  rw [LockFreeDropbox.keyOf, List.getElem?_map]
  cases self.peers[j]? <;> rfl

/-- The keys of peers with the same half keys. -/
theorem hasKey_of_halfKeys {self self' : LockFreeDropbox}
    (halfKeys : (self'.peers.map fun peer => peer.halfKey) = self.peers.map fun peer => peer.halfKey)
    (j : ℕ) : self'.HasKey j ↔ self.HasKey j := by
  rw [LockFreeDropbox.HasKey, LockFreeDropbox.HasKey, keyOf_eq, keyOf_eq, halfKeys]

/-- The keys of peers that are the same for the handshake. -/
theorem hasKey_of_core {self self' : LockFreeDropbox}
    (peers : self'.peers.map core = self.peers.map core) (j : ℕ) :
    self'.HasKey j ↔ self.HasKey j := by
  refine hasKey_of_halfKeys ?_ j
  have halfKeys := congrArg (List.map fun peer : DropboxPeer => peer.halfKey) peers
  rwa [List.map_map, List.map_map] at halfKeys

theorem Seated.of_core {self self' : LockFreeDropbox} (seated : Seated seating R i self)
    (partyId : self'.partyId = self.partyId)
    (peers : self'.peers.map core = self.peers.map core) : Seated seating R i self' where
  partyId := partyId.trans seated.partyId
  length := by simpa using (congrArg List.length peers).trans (by simpa using seated.length)
  peer j peer found := by
    have here := congrArg (fun peers => peers[(j : ℕ)]?) peers
    simp only [List.getElem?_map, found, Option.map_some] at here
    obtain ⟨peer', found', same⟩ := Option.map_eq_some_iff.mp here.symm
    have sound : PeerSound seating R i j (core peer') :=
      have there := seated.peer j peer' found'
      ⟨there.partyId, there.pseudonym, there.isLocal, there.halfKey, there.ready⟩
    rw [same] at sound
    exact ⟨sound.partyId, sound.pseudonym, sound.isLocal, sound.halfKey, sound.ready⟩
  own := (hasKey_of_core peers i).mpr seated.own

/-- A life that is the same for the handshake. -/
theorem Sound.of_core {life' : Life} (sound : Sound cbor seating R K i life)
    (partyId : life'.memory.partyId = life.memory.partyId)
    (peers : life'.memory.peers.map core = life.memory.peers.map core)
    (records : life'.records.committee = life.records.committee) :
    Sound cbor seating R K i life' := by
  obtain ⟨state, self, found, saved, seated, keys⟩ := sound.saved
  refine ⟨sound.memory.of_core partyId peers,
    fun j mem => (hasKey_of_core peers j).mpr (sound.keys j mem), state, self,
    records.trans found, saved, seated, fun j key => keys j ?_⟩
  exact (hasKey_of_core peers j).mp key

/-- A peer is changed, to something that may be believed, and keeps its key. -/
theorem Seated.modify {self : LockFreeDropbox} (seated : Seated seating R i self)
    {j : Fin seating.size} {f : DropboxPeer → DropboxPeer}
    (sound : ∀ peer, PeerSound seating R i j peer → PeerSound seating R i j (f peer))
    (keeps : ∀ peer, peer.halfKey.isSome → (f peer).halfKey.isSome) :
    Seated seating R i { self with peers := self.peers.modify j f } ∧
      ∀ k, self.HasKey k → LockFreeDropbox.HasKey { self with peers := self.peers.modify j f } k := by
  have keys : ∀ k, self.HasKey k →
      LockFreeDropbox.HasKey { self with peers := self.peers.modify j f } k := by
    intro k key
    rw [LockFreeDropbox.HasKey, LockFreeDropbox.keyOf] at key ⊢
    dsimp only
    rw [List.getElem?_modify]
    cases found : self.peers[k]? with
    | none => simp [found] at key
    | some peer =>
        rw [found, Option.bind_some] at key
        rw [Option.map_eq_map, Option.map_some, Option.bind_some]
        split_ifs
        · exact keeps peer key
        · exact key
  refine ⟨⟨seated.partyId, (List.length_modify ..).trans seated.length, fun k peer found => ?_,
    keys i seated.own⟩, keys⟩
  rw [List.getElem?_modify] at found
  obtain ⟨peer', found', rfl⟩ := Option.map_eq_some_iff.mp found
  have there := seated.peer k peer' found'
  split_ifs with same
  · obtain rfl : j = k := Fin.ext same
    exact sound peer' there
  · exact there

/-- The committee is saved. -/
theorem sound_writeCommittee (seated : Seated seating R i life.memory)
    (keys : ∀ j ∈ K, life.memory.HasKey j) :
    ∃ life', (writeCommittee cbor).exec life = (life', .ok ⟨⟩) ∧ life'.memory = life.memory ∧
      Sound cbor seating R K i life' := by
  obtain ⟨state, saved, run⟩ := @exec_writeCommittee cbor life
  exact ⟨_, run, rfl, seated, keys, state, life.memory, rfl, saved, seated, fun _ key => key⟩

/-- More elements meet a condition where each place that met it still does. -/
theorem countP_le {α : Type} {p : α → Bool} {xs ys : List α} (length : xs.length = ys.length)
    (each : ∀ (k : ℕ) x y, xs[k]? = some x → ys[k]? = some y → p x = true → p y = true) :
    xs.countP p ≤ ys.countP p := by
  induction xs generalizing ys with
  | nil => exact Nat.zero_le _
  | cons x xs ih =>
      obtain ⟨y, ys, rfl⟩ := List.exists_cons_of_length_eq_add_one length.symm
      have rest := ih (Nat.succ.inj length) fun k => each (k + 1)
      have first := each 0 x y rfl rfl
      rw [List.countP_cons, List.countP_cons]
      split_ifs with here there there <;> first | omega | exact absurd (first here) there

/-- Who forgets no key stays ready. -/
theorem ready_mono {threshold : ℤ} {self self' : LockFreeDropbox}
    (length : self.peers.length = self'.peers.length)
    (keeps : ∀ k, self.HasKey k → self'.HasKey k) (ready : self.ready threshold = true) :
    self'.ready threshold = true := by
  rw [LockFreeDropbox.ready, decide_eq_true_eq, ← List.countP_eq_length_filter] at ready ⊢
  have more := countP_le (p := fun peer : DropboxPeer => peer.halfKey.isSome) length
    fun k peer peer' found found' key => by
      have kept := keeps k (by rw [LockFreeDropbox.HasKey, LockFreeDropbox.keyOf, found]; exact key)
      rw [LockFreeDropbox.HasKey, LockFreeDropbox.keyOf, found'] at kept
      exact kept
  exact ready.trans (by exact_mod_cast more)

/-! ### What a dropbox does -/

/-- A peer of the committee is changed. -/
theorem exec_changePeer (length : life.memory.peers.length = seating.size) (j : Fin seating.size)
    (f : DropboxPeer → DropboxPeer) :
    (changePeer (j : ℕ) f).exec life =
      ({ life with memory := { life.memory with peers := life.memory.peers.modify j f } },
        .ok ⟨⟩) := by
  rw [changePeer, Handler.exec_bind_of_ok (Handler.exec_get life), Handler.exec_bind,
    Handler.exec_lift, updatePeer, length, pyPlace_of_lt j.isLt]
  rfl

/-- A peer is changed, and the committee is saved. -/
theorem sound_changePeer (sound : Sound cbor seating R K i life) (j : Fin seating.size)
    {f : DropboxPeer → DropboxPeer}
    (believed : ∀ peer, PeerSound seating R i j peer → PeerSound seating R i j (f peer))
    (keeps : ∀ peer, peer.halfKey.isSome → (f peer).halfKey.isSome) :
    ∃ life', (do changePeer (j : ℕ) f; writeCommittee cbor).exec life = (life', .ok ⟨⟩) ∧
      life'.memory = { life.memory with peers := life.memory.peers.modify j f } ∧
      Sound cbor seating R K i life' := by
  obtain ⟨seated, keys⟩ := sound.memory.modify believed keeps
  obtain ⟨life', run, memory, sound'⟩ := @sound_writeCommittee _ cbor _ R K i
    { life with memory := { life.memory with peers := life.memory.peers.modify j f } } seated
    fun k mem => keys k (sound.keys k mem)
  refine ⟨life', ?_, memory, sound'⟩
  rw [Handler.exec_bind_of_ok (exec_changePeer sound.memory.length j f), run]

/-- `hello_op` keeps the key that it is told. -/
theorem sound_helloOp (sound : Sound cbor seating R K i life) (j : Fin seating.size) :
    ∃ life', (LockFreeDropbox.helloOp cbor (j : ℕ) (seating.formation j).halfKey
        (seating.formation j).pseudonym).exec life = (life', .ok ⟨⟩) ∧
      Sound cbor seating R (insert (j : ℕ) K) i life' := by
  obtain ⟨life', run, memory, sound'⟩ := sound_changePeer sound j
    (f := fun peer => { peer with
      halfKey := some (seating.formation j).halfKey
      pseudonym := (seating.formation j).pseudonym })
    (fun peer believed => ⟨believed.partyId, rfl, believed.isLocal,
      fun key told => (Option.some.inj told).symm, believed.ready⟩) fun _ _ => rfl
  refine ⟨life', run, sound'.memory, ?_, sound'.saved⟩
  rintro k (rfl | mem)
  · have inside : (j : ℕ) < life.memory.peers.length := by
      rw [sound.memory.length]
      exact j.isLt
    rw [memory, LockFreeDropbox.HasKey, LockFreeDropbox.keyOf, List.getElem?_modify,
      List.getElem?_eq_getElem inside]
    simp
  · exact sound'.keys k mem

/-- `handle_ready` believes what it is told. -/
theorem sound_handleReady (sound : Sound cbor seating R K i life) {j : Fin seating.size}
    (ready : j ∈ R) :
    ∃ life', (LockFreeDropbox.handleReady cbor (j : ℕ)).exec life = (life', .ok ⟨⟩) ∧
      Sound cbor seating R K i life' := by
  obtain ⟨life', run, -, sound'⟩ := sound_changePeer sound j
    (f := fun peer => { peer with ready := true })
    (fun peer believed => ⟨believed.partyId, believed.pseudonym, believed.isLocal,
      believed.halfKey, fun _ => ready⟩) fun _ key => key
  exact ⟨life', run, sound'⟩

/-- `say_ready` marks the own peer. -/
theorem sound_sayReady (sound : Sound cbor seating R K i life) (ready : i ∈ R) :
    ∃ life', LockFreeDropbox.sayReady.exec life = (life', .ok ⟨⟩) ∧
      Sound cbor seating R K i life' ∧ life'.memory = { life.memory with
        peers := life.memory.peers.modify i fun peer => { peer with ready := true } } := by
  obtain ⟨seated, keys⟩ := sound.memory.modify (j := i)
    (f := fun peer => { peer with ready := true })
    (fun peer believed => ⟨believed.partyId, believed.pseudonym, believed.isLocal,
      believed.halfKey, fun _ => ready⟩) fun _ key => key
  obtain ⟨state, self, found, saved, seated', kept⟩ := sound.saved
  refine ⟨{ life with memory := { life.memory with
    peers := life.memory.peers.modify i fun peer => { peer with ready := true } } }, ?_,
    ⟨seated, fun k mem => keys k (sound.keys k mem), state, self, found, saved, seated',
      fun k key => kept k ?_⟩, rfl⟩
  · rw [LockFreeDropbox.sayReady, Handler.exec_bind_of_ok (Handler.exec_get life),
      sound.memory.partyId, exec_changePeer sound.memory.length i]
  · have same := map_modify (f := fun peer : DropboxPeer => { peer with ready := true })
      (g := fun peer => peer.halfKey) (fun _ => rfl) life.memory.peers i
    exact (hasKey_of_halfKeys same k).mp key

/-- A peer of a committee that is being formed. -/
theorem getElem?_formed (i j : Fin seating.size) {peer : DropboxPeer}
    (found : ((seating.formation i).members.zipIdx.map fun e =>
      ({ partyId := e.2, name := e.1.1, pseudonym := e.1.2 } : DropboxPeer))[(j : ℕ)]? = some peer) :
    peer.partyId = (j : ℕ) ∧ peer.pseudonym = (seating.formation j).pseudonym ∧
      peer.isLocal = false ∧ peer.halfKey = none ∧ peer.ready = false := by
  rw [List.getElem?_map, List.getElem?_zipIdx] at found
  obtain ⟨e, isMember, rfl⟩ := Option.map_eq_some_iff.mp found
  obtain ⟨member, listed, rfl⟩ := Option.map_eq_some_iff.mp isMember
  have pseudonym := congrArg (fun pseudonyms => pseudonyms[(j : ℕ)]?) (seating.members i)
  simp only [List.getElem?_map, listed, Option.map_some, List.getElem?_ofFn, Fin.is_lt, dif_pos]
    at pseudonym
  exact ⟨by simp, Option.some.inj pseudonym, rfl, rfl, rfl⟩

/-- A committee is formed with nothing but the own key known. -/
theorem sound_formed (now : ℤ) :
    Sound cbor seating ∅ ∅ i
      ((restart cbor builtins (seating.formation i) now).exec {}).1 := by
  set members := (seating.formation i).members.zipIdx.map fun e =>
    ({ partyId := e.2, name := e.1.1, pseudonym := e.1.2 } : DropboxPeer) with hmembers
  have length : members.length = seating.size := by
    have lengths := congrArg List.length (seating.members i)
    simpa [hmembers] using lengths
  set self : LockFreeDropbox :=
    { partyId := (i : ℕ)
      peers := members.modify i fun peer => { peer with
        isLocal := true
        pseudonym := (seating.formation i).pseudonym
        halfKey := some (seating.formation i).halfKey } } with hself
  have seated : Seated seating ∅ i self := by
    refine ⟨rfl, (List.length_modify ..).trans length, fun j peer found => ?_, ?_⟩
    · rw [hself, List.getElem?_modify] at found
      obtain ⟨member, listed, rfl⟩ := Option.map_eq_some_iff.mp found
      obtain ⟨partyId, pseudonym, isLocal, halfKey, ready⟩ := getElem?_formed i j listed
      split_ifs with same
      · obtain rfl : i = j := Fin.ext same
        exact ⟨partyId, rfl, iff_of_true rfl rfl, fun key told => (Option.some.inj told).symm,
          fun is => absurd (ready.symm.trans is) (by simp)⟩
      · refine ⟨partyId, pseudonym, iff_of_false (by simp [isLocal]) fun eq => same ?_,
          fun key told => absurd (halfKey.symm.trans told) (by simp),
          fun is => absurd (ready.symm.trans is) (by simp)⟩
        rw [eq]
    · have inside : (i : ℕ) < members.length := by
        rw [length]
        exact i.isLt
      rw [LockFreeDropbox.HasKey, LockFreeDropbox.keyOf, hself, List.getElem?_modify,
        List.getElem?_eq_getElem inside]
      simp
  obtain ⟨life', run, -, sound⟩ := @sound_writeCommittee _ cbor seating ∅ ∅ i ⟨self, {}⟩ seated
    fun _ mem => absurd mem id
  have formed : (restart cbor builtins (seating.formation i) now).exec {} = (life', .ok ⟨⟩) := by
    rw [restart, Handler.exec_bind_of_ok (Handler.exec_modify _ _), formCommittee,
      Handler.exec_bind_of_ok (Handler.exec_get _)]
    dsimp only
    rw [Handler.exec_bind_of_ok (Handler.exec_modify _ _), seating.partyId,
      if_neg (by omega), Handler.exec_bind_of_ok (exec_changePeer length i _)]
    exact run
  rw [formed]
  exact sound

/-- A restarted member knows what it knew. -/
theorem sound_restart (sound : Sound cbor seating R K i life) (now : ℤ) :
    ∃ life', (restart cbor builtins (seating.formation i) now).exec life = (life', .ok ⟨⟩) ∧
      Sound cbor seating R K i life' := by
  obtain ⟨state, self, found, saved, seated, keys⟩ := sound.saved
  obtain ⟨state', written, -, read⟩ := loadCommittee_saveCommittee cbor builtins now self {}
  obtain rfl : state = state' := Except.ok.inj (saved.symm.trans written)
  refine ⟨⟨{ partyId := self.partyId, peers := self.peers }, life.records⟩, ?_,
    seated.of_core rfl rfl, fun j mem => ?_, state, self, found, saved, seated, fun _ key => key⟩
  · rw [restart, Handler.exec_bind_of_ok (Handler.exec_modify _ life), formCommittee,
      Handler.exec_bind_of_ok (Handler.exec_get _)]
    simp only [found, read, Handler.exec_bind, Handler.exec_lift, Handler.exec_modify]
  · exact keys j (sound.keys j mem)

theorem sound_keeps_changePeer (j : ℤ) {f : DropboxPeer → DropboxPeer}
    (same : ∀ peer, core (f peer) = core peer) :
    Handler.Keeps (Sound cbor seating R K i) (changePeer j f) := by
  intro life sound
  rw [changePeer, Handler.exec_bind_of_ok (Handler.exec_get life), Handler.exec_bind,
    Handler.exec_lift, updatePeer]
  cases pyPlace life.memory.peers.length j with
  | none => exact sound
  | some k => exact sound.of_core rfl (map_modify same _ _) rfl

theorem sound_keeps_writeCommittee :
    Handler.Keeps (Sound cbor seating R K i) (writeCommittee cbor) := by
  intro life sound
  obtain ⟨life', run, -, sound'⟩ := sound_writeCommittee sound.memory sound.keys
  rw [run]
  exact sound'

theorem sound_keeps_writeFragments :
    Handler.Keeps (Sound cbor seating R K i) (writeFragments cbor) := by
  intro life sound
  obtain ⟨state, run⟩ := @exec_writeFragments cbor life
  rw [run]
  exact sound.of_core rfl rfl rfl

theorem sound_keeps_storeFragment (fragmentId : Bytes) (decrypted : SubMessage)
    (context : Option SpanContext) :
    Handler.Keeps (Sound cbor seating R K i) (storeFragment cbor fragmentId decrypted context) :=
  .bind (.modify fun _ sound => sound.of_core rfl rfl rfl) fun _ => sound_keeps_writeFragments

theorem sound_keeps_handleDeleteOp (fragments : List Bytes) :
    Handler.Keeps (Sound cbor seating R K i) (handleDeleteOp cbor fragments) := by
  induction fragments with
  | nil => exact .pure _
  | cons fragmentId rest ih =>
      refine .bind .get fun life => ?_
      split_ifs
      · exact .bind (.modify fun _ sound => sound.of_core rfl rfl rfl) fun _ =>
          .bind sound_keeps_writeFragments fun _ => .bind ih fun _ => .pure _
      · exact ih

/-- **Other work** of a dropbox leaves what it knows of its committee, and saves it. -/
theorem sound_keeps_work {event : Event} (work : event.isWork = true) :
    Handler.Keeps (Sound cbor seating R K i)
      (handle cbor builtins (seating.formation i) event) := by
  cases event with
  | hello | sayReady | ready | restart => exact absurd work (by simp [Event.isWork])
  | store fragmentId decrypted context =>
      refine .bind ?_ fun _ => .pure _
      cases decrypted with
      | none => exact .pure _
      | some decrypted =>
          exact .bind (sound_keeps_storeFragment _ _ _) fun _ => .bind .get fun _ =>
            .bind (sound_keeps_changePeer _ fun _ => rfl) fun _ => sound_keeps_writeCommittee
  | storeCut fragmentId decrypted context =>
      exact .bind (sound_keeps_storeFragment _ _ _) fun _ => .pure _
  | delete fragments => exact .bind (sound_keeps_handleDeleteOp fragments) fun _ => .pure _
  | stored fragmentId responses =>
      exact .bind (.bind (.forM fun _ _ => sound_keeps_changePeer _ fun _ => rfl) fun _ =>
        sound_keeps_writeCommittee) fun _ => .pure _
  | deleteTask fragmentId reachable =>
      refine .bind (.modify fun life sound => sound.of_core rfl ?_ rfl) fun _ => .pure _
      rw [List.map_map]
      refine List.map_congr_left fun peer _ => ?_
      dsimp only [Function.comp]
      split_ifs <;> rfl
  | preprocessed batchId successes =>
      exact .bind (.bind (.forM fun _ _ => sound_keeps_changePeer _ fun _ => rfl) fun _ =>
        sound_keeps_writeCommittee) fun _ => .pure _

end Seats

end Prism.Lockfree
