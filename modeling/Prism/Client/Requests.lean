import Prism.Client.Matching
import Prism.Lockfree.Retrieve

/-!
What the requests of a client carry (`MPCDropbox` and `MPCRequestRegistry` in
`prism/client/dropbox.py`).

A request to a committee is encrypted for its leader, and holds a part for each member with a
key, encrypted for that member. Of a message that is written, a part carries the member's share
of each chunk.

* `writeRequest_ok`, `readRequest_ok`: the requests, and the parts in them.
* `reassemble_ok`: a reply with the fragments of enough members gives the message back.
-/

namespace Prism.Client

open Crypto Lockfree

/-- The message is encrypted for the owner of a key, who reads another message in it. -/
def SealedFor {package : CryptoPackage} (cbor : Cbor2) (builtins : Builtins)
    (owner : package.PrivateKey) (m inner : PrismMessage) : Prop :=
  ∃ data, Encrypted package m owner data ∧
    ∀ now, PrismMessage.decode cbor builtins now data = .ok (some inner)

/-- The part of a request for one member. -/
structure IsPartFor {package : CryptoPackage} (cbor : Cbor2) (builtins : Builtins)
    (owner : package.PrivateKey) (i : ℕ) (m inner : PrismMessage) : Prop where
  typed : m.Typed
  partyId : m.get .partyId = .int i
  untraced : m.get .debugInfo = .none
  sealed_ : SealedFor cbor builtins owner m inner

/-- The members of a committee and their keys, as its leader announced them: the parties that
announced a key are among those that the scheme shares for, and each has the private key for what
was announced. The leader is party 0. -/
structure MPCDropbox.Keyed (package : CryptoPackage) (dropbox : MPCDropbox) (parties : List ℕ)
    (owner : ℕ → package.PrivateKey) : Prop where
  typed : dropbox.dropbox.ark.Typed
  workers : dropbox.workerParties = .ok parties
  lt : ∀ i ∈ parties, i < dropbox.secretSharing.nparties
  leader : dropbox.dropbox.publicKey package none = .ok (some (package.publicKey (owner 0)))
  members : ∀ i ∈ parties,
    dropbox.dropbox.publicKey package (some i) = .ok (some (package.publicKey (owner i)))

namespace MPCDropbox

variable {package : CryptoPackage} {cbor : Cbor2} {builtins : Builtins} {self : MPCDropbox}
  {parties : List ℕ} {owner : ℕ → package.PrivateKey}

/-- A scheme that was announced has a threshold. -/
theorem threshold_pos (self : MPCDropbox) : 1 ≤ self.secretSharing.threshold := by
  have loaded := self.loaded
  unfold getSsobjFromMap at loaded
  split at loaded
  · obtain ⟨-, -, loaded⟩ := bind_eq_ok.mp loaded
    obtain ⟨-, -, loaded⟩ := bind_eq_ok.mp loaded
    obtain ⟨-, -, loaded⟩ := bind_eq_ok.mp loaded
    split at loaded
    · split_ifs at loaded with _ positive
      · rw [← Option.some.inj (Except.ok.inj loaded)]
        have := positive.1
        change 1 ≤ Int.toNat _
        omega
      · cases loaded
    · cases loaded
  · cases loaded

theorem Keyed.nodup (keyed : self.Keyed package parties owner) : parties.Nodup := by
  have run := keyed.workers
  unfold workerParties at run
  split at run
  · next keys _ =>
      rw [← Except.ok.inj run]
      have sub : ((keys.zipIdx.filter fun entry => entry.1.truthy).map Prod.snd).Sublist
          (keys.zipIdx.map Prod.snd) := List.filter_sublist.map _
      apply sub.nodup
      rw [List.zipIdx_map_snd]
      exact List.nodup_range'
  · cases run

theorem Keyed.pseudonym (keyed : self.Keyed package parties owner) :
    argumentTyped .prismMessage (.pseudonym, self.dropbox.ark.get .pseudonym) = true :=
  PrismMessage.get_typed keyed.typed (f := .pseudonym) rfl

/-- The parts of a request, each encrypted for its member. -/
theorem Keyed.parts_ok (keyed : self.Keyed package parties owner)
    (fresh : ℕ → Fresh package) {make : ℕ → Py PrismMessage} {inner : ℕ → PrismMessage}
    (made : ∀ i ∈ parties, make i = .ok (inner i)) (typed : ∀ i ∈ parties, (inner i).Typed) :
    ∃ sub : ℕ → PrismMessage, (parties.mapM fun i => do
        let inner ← make i
        encryptMessage package cbor builtins self.dropbox inner (some i) false (fresh i)) =
      .ok (parties.map sub) ∧
      ∀ i ∈ parties, IsPartFor cbor builtins (owner i) i (sub i) (inner i) := by
  have each : ∀ i ∈ parties, ∃ m, encryptMessage package cbor builtins self.dropbox (inner i)
      (some i) false (fresh i) = .ok m ∧ IsPartFor cbor builtins (owner i) i m (inner i) := by
    intro i mem
    obtain ⟨m, data, run, mTyped, encrypted, decoded, partyId, untraced⟩ := @encryptMessage_ok
      package cbor builtins self.dropbox (inner i) (some i) false (owner i) (fresh i)
      (keyed.members i mem) (typed i mem) keyed.pseudonym
    exact ⟨m, run, mTyped, partyId, untraced, data, encrypted, decoded⟩
  choose! sub run part using each
  refine ⟨sub, mapM_ok fun i mem => ?_, part⟩
  rw [made i mem, ok_bind, run i mem]

/-- The parts of a request as a list of messages. -/
theorem submessages_typed {sub inner : ℕ → PrismMessage}
    (parts : ∀ i ∈ parties, IsPartFor cbor builtins (owner i) i (sub i) (inner i)) :
    argumentTyped .prismMessage
      (.submessages, .list ((parties.map sub).map PrismMessage.toValue)) = true := by
  apply argumentTyped_list rfl
  apply hasElements_messages
  intro m mem
  obtain ⟨i, inParties, rfl⟩ := List.mem_map.mp mem
  exact (parts i inParties).typed

/-- The request around the parts, which is encrypted for the leader. -/
theorem Keyed.request_ok (keyed : self.Keyed package parties owner) (fresh : Fresh package)
    {request : PrismMessage} (typed : request.Typed) :
    ∃ m, encryptMessage package cbor builtins self.dropbox request none true fresh = .ok m ∧
      m.Typed ∧ SealedFor cbor builtins (owner 0) m request := by
  obtain ⟨m, data, run, mTyped, encrypted, decoded, -, -⟩ := @encryptMessage_ok package cbor builtins
    self.dropbox request none true (owner 0) fresh keyed.leader typed keyed.pseudonym
  exact ⟨m, run, mTyped, data, encrypted, decoded⟩

/-! ### Requests to write -/

/-- The shares of the message that is written: those of enough members give its encoding back. -/
def ShareOut (cbor : Cbor2) (builtins : Builtins) (ss : ShamirSS) (message : PrismMessage)
    (shares : ℕ → List Share) : Prop :=
  ∀ js : List ℕ, js.Nodup → (∀ j ∈ js, j < ss.nparties) → ss.threshold ≤ js.length →
    ∃ data, ss.reconstructBytes cbor (js.map shares) 0 = .ok data ∧
      ∀ now, PrismMessage.decode cbor builtins now data = .ok (some message)

/-- What a member reads in its part of a request to write: its share of the pseudonym, and its
shares of the message, packed. -/
def CarriesShares (cbor : Cbor2) (shares : List Share) (inner : PrismMessage) : Prop :=
  ∃ (share : ℤ) (ciphertext : Bytes), inner.get .pseudonymShare = .int share ∧
    inner.get .ciphertext = .bytes ciphertext ∧ ciphertext ≠ [] ∧
    ShamirSS.splitShares cbor ciphertext = .ok shares

/-- The shares of some pseudonym for the members. -/
theorem pseudonymShare_ok (one_le : 1 ≤ self.secretSharing.chunkSizeBytes)
    (le : self.secretSharing.chunkSizeBytes ≤ 253) {pseudonym : Bytes} (ne : pseudonym ≠ [])
    (drawn : ℕ → self.secretSharing.Draw) :
    ∃ pseudoShares, self.secretSharing.shareBytes cbor pseudonym drawn = .ok pseudoShares ∧
      ∀ i < self.secretSharing.nparties, ∃ share, pseudonymShare pseudoShares i = .ok share := by
  obtain ⟨secrets, encoded, -, -, nonempty⟩ := @ShamirSS.encodeBytes_ok self.secretSharing cbor
    one_le le pseudonym
  obtain ⟨secret, rest, rfl⟩ := List.exists_cons_of_ne_nil (nonempty ne)
  have shared := ShamirSS.shareBytes_eq encoded (nonempty ne) drawn
  refine ⟨_, shared, fun i lt => ?_⟩
  rw [pseudonymShare_eq encoded shared, if_pos lt]
  exact ⟨_, rfl⟩

/-- The encoding of a message is shared without an exception. -/
theorem messageShares_ok (prime : self.secretSharing.modulus.Prime)
    (lt : self.secretSharing.nparties < self.secretSharing.modulus)
    (one_le : 1 ≤ self.secretSharing.chunkSizeBytes) (le : self.secretSharing.chunkSizeBytes ≤ 253)
    {message : PrismMessage} (typed : message.Typed) (drawn : ℕ → self.secretSharing.Draw) :
    ∃ encoding messageShares shares, message.encode cbor = .ok encoding ∧
      self.secretSharing.shareBytes cbor encoding drawn = .ok messageShares ∧
      ShareOut cbor builtins self.secretSharing message shares ∧
      ∀ i < self.secretSharing.nparties, ∃ row ciphertext, pyIndex messageShares i = .ok row ∧
        ShamirSS.joinShares cbor row = .ok ciphertext ∧ ciphertext ≠ [] ∧
        ShamirSS.splitShares cbor ciphertext = .ok (shares i) := by
  obtain ⟨encoding, encoded, ne, -⟩ := PrismMessage.decode_encode cbor builtins 0 typed
  obtain ⟨secrets, run, range, decoded, nonempty⟩ := @ShamirSS.encodeBytes_ok self.secretSharing
    cbor one_le le encoding
  refine ⟨encoding, _, self.secretSharing.partyShares secrets drawn, encoded,
    ShamirSS.shareBytes_eq run (nonempty ne) drawn, fun js nodup inRange enough => ?_, ?_⟩
  · refine ⟨encoding, ShamirSS.reconstructBytes_ok prime lt self.threshold_pos range decoded drawn
      nodup inRange enough, fun now => ?_⟩
    obtain ⟨encoding', encoded', -, decoded⟩ := PrismMessage.decode_encode cbor builtins now typed
    rw [encoded] at encoded'
    cases encoded'
    exact decoded
  · intro i inRange
    obtain ⟨ciphertext, joined, ciphertext_ne, split⟩ :=
      @ShamirSS.splitShares_joinShares self.secretSharing cbor secrets (nonempty ne) drawn i
    exact ⟨_, ciphertext, pyIndex_map_range _ inRange, joined, ciphertext_ne, split⟩

/-- **A request to write**: sharing raises nothing, and each member with a key is sent its
shares. -/
theorem writeRequest_ok (keyed : self.Keyed package parties owner)
    (prime : self.secretSharing.modulus.Prime)
    (lt : self.secretSharing.nparties < self.secretSharing.modulus)
    (one_le : 1 ≤ self.secretSharing.chunkSizeBytes) (le : self.secretSharing.chunkSizeBytes ≤ 253)
    {message : PrismMessage} (typed : message.Typed) {pseudonym : Bytes} (ne : pseudonym ≠ [])
    (draws : RequestDraws package self.secretSharing) :
    ∃ (request written : PrismMessage) (sub inner : ℕ → PrismMessage) (shares : ℕ → List Share),
      self.writeRequest cbor builtins pseudonym message draws = .ok request ∧ request.Typed ∧
      SealedFor cbor builtins (owner 0) request written ∧
      written.get .submessages = .list ((parties.map sub).map PrismMessage.toValue) ∧
      ShareOut cbor builtins self.secretSharing message shares ∧
      ∀ i ∈ parties, IsPartFor cbor builtins (owner i) i (sub i) (inner i) ∧
        CarriesShares cbor (shares i) (inner i) := by
  obtain ⟨pseudoShares, sharedPseudonym, pseudonymShares⟩ :=
    @pseudonymShare_ok cbor self one_le le pseudonym ne draws.pseudonymCoeffs
  obtain ⟨encoding, messageShares, shares, encoded, shared, out, rows⟩ :=
    @messageShares_ok cbor builtins self prime lt one_le le message typed draws.messageCoeffs
  have each : ∀ i ∈ parties, ∃ m,
      writeMessage cbor (draws.partyNow i) pseudoShares messageShares i = .ok m ∧ m.Typed ∧
        CarriesShares cbor (shares i) m := by
    intro i mem
    obtain ⟨share, atShare⟩ := pseudonymShares i (keyed.lt i mem)
    obtain ⟨row, ciphertext, atRow, joined, ciphertext_ne, split⟩ := rows i (keyed.lt i mem)
    refine ⟨PrismMessage.create (draws.partyNow i) .writeDropbox
      [(.pseudonymShare, .int share), (.ciphertext, .bytes ciphertext)], ?_, ?_,
      share, ciphertext, rfl, rfl, ciphertext_ne, split⟩
    · rw [writeMessage, atShare, ok_bind, atRow, ok_bind, joined]
      rfl
    · apply PrismMessage.typed_create
      simp only [List.forall_mem_cons, List.not_mem_nil, false_implies, implies_true, and_true]
      exact ⟨rfl, rfl⟩
  choose! inner made innerTyped carries using each
  obtain ⟨sub, sent, parts⟩ := @Keyed.parts_ok package cbor builtins self parties owner keyed
    draws.partyFresh _ inner made innerTyped
  set written := PrismMessage.create draws.requestNow .writeObliviousDropbox
    [(.submessages, .list ((parties.map sub).map PrismMessage.toValue))] with hwritten
  have writtenTyped : written.Typed := by
    apply PrismMessage.typed_create
    intro arg mem
    rw [List.mem_singleton.mp mem]
    exact submessages_typed parts
  obtain ⟨request, run, requestTyped, sealed_⟩ := @Keyed.request_ok package cbor builtins self
    parties owner keyed draws.requestFresh written writtenTyped
  refine ⟨request, written, sub, inner, shares, ?_, requestTyped, sealed_, rfl, out,
    fun i mem => ⟨parts i mem, carries i mem⟩⟩
  rw [writeRequest, sharedPseudonym, ok_bind, encoded, ok_bind, shared, ok_bind, keyed.workers,
    ok_bind, sent, ok_bind]
  exact run

/-! ### Requests to read -/

/-- **A request to read**: the leader reads the id of the request and the client's key in it, and
each member the key to encrypt its fragments for. -/
theorem readRequest_ok (keyed : self.Keyed package parties owner)
    (one_le : 1 ≤ self.secretSharing.chunkSizeBytes) (le : self.secretSharing.chunkSizeBytes ≤ 253)
    {pseudonym : Bytes} (ne : pseudonym ≠ []) (requestId : Bytes) {returnLinks : List Value}
    (links : Value.hasElements returnLinks (.object .linkAddress) = true) (expiration : Option ℤ)
    (key : package.PrivateKey) (peerKey : ℕ → package.PrivateKey)
    (draws : RequestDraws package self.secretSharing) :
    ∃ (request polled : PrismMessage) (info : MPCRequestInfo package)
      (sub inner : ℕ → PrismMessage),
      self.readRequest cbor builtins pseudonym requestId returnLinks expiration key peerKey draws =
        .ok (request, info) ∧ request.Typed ∧ SealedFor cbor builtins (owner 0) request polled ∧
      polled.get .msgType = .enum (.type .readObliviousDropbox) ∧
      polled.get .nonce = .bytes requestId ∧
      polled.get .halfKey = halfKeyMap package (package.publicKey key) ∧
      polled.get .expiration = expiration.elim .none .int ∧
      polled.get .submessages = .list ((parties.map sub).map PrismMessage.toValue) ∧
      info.server = self ∧ info.requestId = requestId ∧ info.key = key ∧
      ∀ i ∈ parties, info.peerKeys i = some (peerKey i) ∧
        IsPartFor cbor builtins (owner i) i (sub i) (inner i) ∧
        (inner i).get .halfKey = halfKeyMap package (package.publicKey (peerKey i)) := by
  obtain ⟨pseudoShares, sharedPseudonym, pseudonymShares⟩ :=
    @pseudonymShare_ok cbor self one_le le pseudonym ne draws.pseudonymCoeffs
  set info : MPCRequestInfo package := ⟨self, requestId, key, fun i =>
    (parties.map fun i => (i, peerKey i)).lookup i⟩ with hinfo
  have generated : self.generate requestId key peerKey = .ok info := by
    have each : parties.mapM (fun i => do
        return (i, ← @generatePrivate package self (some i) (peerKey i))) =
          .ok (parties.map fun i => (i, peerKey i)) := by
      refine mapM_ok fun i mem => ?_
      rw [generatePrivate, keyed.members i mem]
      rfl
    rw [generate, generatePrivate, keyed.leader, ok_bind]
    dsimp only
    rw [pure_bind, keyed.workers, ok_bind, each]
    rfl
  have peerKeys : ∀ i ∈ parties, info.peerKeys i = some (peerKey i) := by
    intro i mem
    apply lookup_of_mem
    · rw [List.map_map]
      exact (List.map_id' parties).symm ▸ keyed.nodup
    · exact List.mem_map_of_mem mem
  have each : ∀ i ∈ parties, ∃ m, readMessage builtins (draws.partyNow i) pseudoShares info i =
      .ok m ∧ m.Typed ∧ m.get .halfKey = halfKeyMap package (package.publicKey (peerKey i)) := by
    intro i mem
    obtain ⟨share, atShare⟩ := pseudonymShares i (keyed.lt i mem)
    refine ⟨PrismMessage.create (draws.partyNow i) .readDropbox [(.pseudonymShare, .int share),
      (.halfKey, halfKeyMap package (package.publicKey (peerKey i)))], ?_, ?_, rfl⟩
    · rw [readMessage, atShare, ok_bind, peerKeys i mem]
      dsimp only
      rw [fromKey_eq]
      rfl
    · apply PrismMessage.typed_create
      simp only [List.forall_mem_cons, List.not_mem_nil, false_implies, implies_true, and_true]
      exact ⟨rfl, rfl⟩
  choose! inner made innerTyped halfKeys using each
  obtain ⟨sub, sent, parts⟩ := @Keyed.parts_ok package cbor builtins self parties owner keyed
    draws.partyFresh _ inner made innerTyped
  set polled := PrismMessage.create draws.requestNow .readObliviousDropbox
    [(.nonce, .bytes requestId), (.halfKey, halfKeyMap package (package.publicKey key)),
      (.submessages, .list ((parties.map sub).map PrismMessage.toValue)),
      (.linkAddresses, .list returnLinks), (.expiration, expiration.elim .none .int)]
    with hpolled
  have polledTyped : polled.Typed := by
    apply PrismMessage.typed_create
    simp only [List.forall_mem_cons, List.not_mem_nil, false_implies, implies_true, and_true]
    refine ⟨rfl, rfl, submessages_typed parts, argumentTyped_list rfl links, ?_⟩
    cases expiration <;> rfl
  obtain ⟨request, run, requestTyped, sealed_⟩ := @Keyed.request_ok package cbor builtins self
    parties owner keyed draws.requestFresh polled polledTyped
  refine ⟨request, polled, info, sub, inner, ?_, requestTyped, sealed_, rfl, rfl, rfl, rfl, rfl,
    rfl, rfl, rfl, fun i mem => ⟨peerKeys i mem, parts i mem, halfKeys i mem⟩⟩
  rw [readRequest, generated, ok_bind, sharedPseudonym, ok_bind, keyed.workers, ok_bind, sent,
    ok_bind, fromKey_eq, ok_bind]
  change (do
    let encrypted ← encryptMessage package cbor builtins self.dropbox polled none true
      draws.requestFresh
    return (encrypted, info)) = _
  rw [run]
  rfl

end MPCDropbox

/-! ### Replies -/

namespace MPCRequestRegistry

variable {package : CryptoPackage} {cbor : Cbor2} {builtins : Builtins} {now : ℤ}

/-- A fragment of a reply: the shares of one member, encrypted with the key that the client sent
to that member. -/
structure IsFragment (cbor : Cbor2) (info : MPCRequestInfo package) (shares : List Share) (j : ℕ)
    (m : PrismMessage) : Prop where
  partyId : m.get .partyId = .int j
  opened : ∃ key data, info.peerKeys j = some key ∧ Encrypted package m key data ∧
    ShamirSS.splitShares cbor data = .ok shares

/-- **The fragments of enough members give the message back**, in any order. -/
theorem reassemble_ok (registry : MPCRequestRegistry package) {info : MPCRequestInfo package}
    {shares : ℕ → List Share} {message reply inner : PrismMessage}
    (out : MPCDropbox.ShareOut cbor builtins info.server.secretSharing message shares)
    (id : reply.get .encDropboxResponseId = .bytes info.requestId)
    (sealed_ : SealedFor cbor builtins info.key reply inner) {js : List ℕ}
    {part : ℕ → PrismMessage}
    (submessages : inner.get .submessages = .list (js.map fun j => (part j).toValue))
    (fragments : ∀ j ∈ js, IsFragment cbor info (shares j) j (part j)) (nodup : js.Nodup)
    (inRange : ∀ j ∈ js, j < info.server.secretSharing.nparties)
    (enough : info.server.secretSharing.threshold ≤ js.length) :
    (registry.register info).reassemble cbor builtins now reply = .ok (some message) := by
  obtain ⟨data, encrypted, decoded⟩ := sealed_
  obtain ⟨encoding, rebuilt, decodedMessage⟩ := out js nodup inRange enough
  have registered : ((reply.get .encDropboxResponseId).bytes?.bind
      (registry.register info).requests) = some info := by
    rw [id]
    exact Function.update_self ..
  have opened : (js.map fun j => (part j).toValue).mapM (fragmentShares cbor info) =
      .ok (js.map shares) := by
    rw [List.mapM_map]
    refine mapM_ok fun j mem => ?_
    obtain ⟨partyId, key, data, atKey, encrypted, split⟩ := fragments j mem
    rw [Function.comp_apply, fragmentShares, PrismMessage.ofValue?_toValue]
    dsimp only
    rw [partyId]
    simp only [atKey]
    rw [encrypted.decryptData_eq, ok_bind]
    exact split
  rw [reassemble, registered]
  dsimp only
  rw [encrypted.decrypt_eq (decoded now), ok_bind]
  dsimp only
  rw [submessages]
  dsimp only
  rw [opened, ok_bind, rebuilt, ok_bind]
  exact decodedMessage now

end MPCRequestRegistry

end Prism.Client
