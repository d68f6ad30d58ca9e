import Prism.Client.BootstrapSteps

/-!
Every run of the bootstrap (`prism/client/client.py` and
`prism/server/CS2/roles/client_registration.py`).

The invariant says what every clear text, packet, queued message and key of the network is, relative
to what users said and which requests were answered.

* `Invariant.step`: no move raises anything, and each keeps the invariant.
* `bootstrapped_key`: a client has the key of the system for its name, or none.
* `bootstrap_raises_nothing`: nothing is raised.
* `stored_was_said`: what a client stores, and what it may read later, was said to it.
-/

namespace Prism.Client.Bootstrap

open Bfibe Bfibe.BFPublicParameters Config Crypto Lib

variable {G T : Type} [AddCommGroup G] [CommGroup T] [DecidableEq G] {pbc : Pbc G T}
  {package : CryptoPackage} {ssl : OpenSsl} {gmp : SecretText} {SpanContext : Type}

/-! ### Clear texts and packets -/

section

variable (cbor : Cbor2) (builtins : Builtins) (tracer : Tracer SpanContext)
  (committee : Committee pbc package ssl gmp)

/-- The clear texts that users say in some moves. -/
def said (moves : List (Move committee SpanContext)) : Set (ClearText SpanContext) :=
  {clear | ∃ c receiver text nonce timestamp, .say c receiver text nonce timestamp ∈ moves ∧
    clear = { receiver, sender := some (committee.clientName c), message := some text,
              nonce := some nonce, timestamp := some timestamp }}

/-- Whoever has the key for the receiver of the clear text reads it from the message. -/
def Reads (clear : ClearText SpanContext) (message : PrismMessage) : Prop :=
  ∀ now, ∃ inner context, decryptUserMessage package cbor builtins tracer now
      ⟨committee.system, committee.keyOf clear.receiver⟩ message = .ok (some inner) ∧
    ClearText.fromPrism tracer inner clear.receiver = .ok { clear with context, useIbe := true }

/-- The message is a packet for a clear text. -/
structure Opens (clear : ClearText SpanContext) (packet : PrismMessage) : Prop where
  typed : packet.Typed
  type : packet.get .msgType = .enum (.type .encryptUserMessage)
  traceable : Traceable tracer packet
  reads : ∀ arrived, PrismMessage.SameBut [.debugInfo] packet arrived → Traceable tracer arrived →
    Reads cbor builtins tracer committee clear arrived

/-- The clear text is a request of a client to a server. -/
structure Asks (c : Fin committee.clients) (i : committee.Server) (clear : ClearText SpanContext) :
    Prop where
  receiver : clear.receiver = committee.server i
  timed : clear.timestamp.isSome
  useIbe : clear.useIbe = true
  request : ∃ data request, clear.messageBytes = some data ∧
    (∀ now, PrismMessage.decode cbor builtins now data = .ok (some request)) ∧
    request.get .msgType = .enum (.type .clientRegistrationRequest) ∧
    request.get .name = .str (committee.clientName c) ∧
    request.get .nonce = .bytes (committee.nonce c i) ∧
    request.get .halfKey = halfKeyMap package (package.publicKey (committee.halfkey c))

/-- The message is the response of a server to a client. -/
structure Answers (c : Fin committee.clients) (i : committee.Server) (response : PrismMessage) :
    Prop where
  typed : response.Typed
  traceable : Traceable tracer response
  responds : Responds cbor builtins (committee.registration i) (committee.clientName c)
    (committee.nonce c i) (committee.halfkey c) response

variable (S : Set (ClearText SpanContext))
  (registered : committee.Server → Fin committee.clients → Prop)

/-- What is sent: what users say, requests, and responses to clients that are registered. -/
inductive Sound : ClearText SpanContext → Prop
  | spoken {clear} (mem : clear ∈ S) (timed : clear.timestamp.isSome)
    (text : clear.messageBytes = none) (useIbe : clear.useIbe = true) : Sound clear
  | asks {clear} (c i) (asks : Asks cbor builtins committee c i clear) : Sound clear
  | answers {clear data response} (c i) (noted : registered i c)
    (receiver : clear.receiver = committee.clientName c) (useIbe : clear.useIbe = false)
    (has : clear.messageBytes = some data)
    (decodes : ∀ now, PrismMessage.decode cbor builtins now data = .ok (some response))
    (answers : Answers cbor builtins tracer committee c i response) : Sound clear

/-- What arrives: packets for what users say and for requests, and responses. -/
inductive SoundPacket : String × PrismMessage → Prop
  | spoken {clear packet} (mem : clear ∈ S) (text : clear.messageBytes = none)
    (opens : Opens cbor builtins tracer committee clear packet) :
      SoundPacket (clear.receiver, packet)
  | asks {clear packet} (c i) (asks : Asks cbor builtins committee c i clear)
    (opens : Opens cbor builtins tracer committee clear packet) :
      SoundPacket (clear.receiver, packet)
  | answers {packet} (c i) (noted : registered i c)
    (answers : Answers cbor builtins tracer committee c i packet) :
      SoundPacket (committee.clientName c, packet)

end

section

variable {cbor : Cbor2} {builtins : Builtins} {tracer : Tracer SpanContext}
  {committee : Committee pbc package ssl gmp} {S S' : Set (ClearText SpanContext)}
  {registered registered' : committee.Server → Fin committee.clients → Prop}

omit [DecidableEq G] in
theorem Sound.mono (sub : S ⊆ S') (grows : ∀ i c, registered i c → registered' i c)
    {clear : ClearText SpanContext}
    (sound : Sound cbor builtins tracer committee S registered clear) :
    Sound cbor builtins tracer committee S' registered' clear := by
  cases sound with
  | spoken mem timed text useIbe => exact .spoken (sub mem) timed text useIbe
  | asks c i asks => exact .asks c i asks
  | answers c i noted receiver useIbe has decodes answers =>
      exact .answers c i (grows i c noted) receiver useIbe has decodes answers

theorem SoundPacket.mono (sub : S ⊆ S') (grows : ∀ i c, registered i c → registered' i c)
    {entry : String × PrismMessage}
    (sound : SoundPacket cbor builtins tracer committee S registered entry) :
    SoundPacket cbor builtins tracer committee S' registered' entry := by
  cases sound with
  | spoken mem text opens => exact .spoken (sub mem) text opens
  | asks c i asks opens => exact .asks c i asks opens
  | answers c i noted answers => exact .answers c i (grows i c noted) answers

omit [DecidableEq G] in
theorem said_mono (moves : List (Move committee SpanContext)) (move : Move committee SpanContext) :
    said committee moves ⊆ said committee (moves ++ [move]) := by
  rintro clear ⟨c, receiver, text, nonce, timestamp, mem, is⟩
  exact ⟨c, receiver, text, nonce, timestamp, List.mem_append_left _ mem, is⟩

variable (cbor builtins tracer committee) in
/-- A clear text is encrypted to its receiver. -/
theorem exists_opens {clear : ClearText SpanContext} (timed : clear.timestamp.isSome)
    (key : Option G) (draws : UserDraws committee.system.security.hashlen) :
    ∃ packet, encryptUserMessage package cbor ⟨committee.system, key⟩ clear.receiver clear.toPrism
        draws = .ok packet ∧ Opens cbor builtins tracer committee clear packet := by
  obtain ⟨base, cut⟩ := committee.exists_cut
  have encrypts : ∀ system, system = base.withSecret (∑ i, committee.secret i) →
      ∀ draws : UserDraws system.security.hashlen, ∃ packet,
        encryptUserMessage package cbor ⟨system, key⟩ clear.receiver clear.toPrism draws =
          .ok packet ∧ packet.Typed ∧ packet.get .msgType = .enum (.type .encryptUserMessage) ∧
        Traceable tracer packet ∧
        ∀ now arrived, PrismMessage.SameBut [.debugInfo] packet arrived →
          Traceable tracer arrived → ∃ inner, decryptUserMessage package cbor builtins tracer now
              ⟨system, committee.keyOf clear.receiver⟩ arrived = .ok (some inner) ∧ inner.Typed ∧
            PrismMessage.SameBut [.debugInfo] clear.toPrism inner ∧ Traceable tracer inner := by
    rintro _ rfl draws
    rw [cut.keyOf]
    exact decryptUserMessage_ok cut.secured committee.short _ key clear.receiver
      (ClearText.toPrism_typed timed) ⟨none, rfl⟩ draws
  obtain ⟨packet, encrypted, typed, type, traceable, reads⟩ := encrypts _ cut.system draws
  refine ⟨packet, encrypted, typed, type, traceable, fun arrived same trace now => ?_⟩
  obtain ⟨inner, run, -, sameInner, innerTraceable⟩ := reads now arrived same trace
  obtain ⟨context, read⟩ := clear.fromPrism_toPrism tracer sameInner innerTraceable clear.receiver
  exact ⟨inner, context, run, read⟩

/-- What is sent becomes a packet. -/
theorem Sound.wrap {clear : ClearText SpanContext}
    (sound : Sound cbor builtins tracer committee S registered clear)
    (client : PrismClient G SpanContext) (draws : UserDraws committee.system.security.hashlen) :
    ∃ packet, client.wrapClearText package cbor builtins committee.system clear draws =
        .ok (some packet) ∧
      SoundPacket cbor builtins tracer committee S registered (clear.receiver, packet) := by
  have encrypts (timed : clear.timestamp.isSome) (useIbe : clear.useIbe = true) :
      ∃ packet, client.wrapClearText package cbor builtins committee.system clear draws =
        .ok (some packet) ∧ Opens cbor builtins tracer committee clear packet := by
    obtain ⟨packet, encrypted, opens⟩ :=
      exists_opens cbor builtins tracer committee timed client.key draws
    refine ⟨packet, ?_, opens⟩
    unfold PrismClient.wrapClearText PrismClient.ibe
    rw [if_pos useIbe, encrypted]
    rfl
  cases sound with
  | spoken mem timed text useIbe =>
      obtain ⟨packet, wrapped, opens⟩ := encrypts timed useIbe
      exact ⟨packet, wrapped, .spoken mem text opens⟩
  | asks c i asks =>
      obtain ⟨packet, wrapped, opens⟩ := encrypts asks.timed asks.useIbe
      exact ⟨packet, wrapped, .asks c i asks opens⟩
  | @answers data response c i noted receiver useIbe has decodes answers =>
      refine ⟨response, ?_, ?_⟩
      · unfold PrismClient.wrapClearText
        rw [if_neg (by rw [useIbe]; decide), has]
        exact decodes draws.now
      · rw [receiver]
        exact .answers c i noted answers

/-- A message is traced on its way. -/
theorem traced (contexts : List SpanContext) (now : ℤ) {packet : PrismMessage}
    (typed : packet.Typed) (traceable : Traceable tracer packet) :
    ∃ message, contexts.foldlM (fun message context =>
        injectSpanContext tracer builtins now message (some context)) packet = .ok message ∧
      PrismMessage.SameBut [.debugInfo] packet message ∧ message.Typed ∧
      Traceable tracer message := by
  induction contexts generalizing packet with
  | nil => exact ⟨packet, rfl, .refl _ _, typed, traceable⟩
  | cons context contexts ih =>
      obtain ⟨next, injected, typed', same, traceable'⟩ :=
        injectSpanContext_ok tracer builtins now typed (some context)
      obtain ⟨message, rest, same', final⟩ := ih typed' (traceable' traceable)
      refine ⟨message, ?_, same.trans same', final⟩
      rw [List.foldlM_cons, injected, ok_bind, rest]

theorem SoundPacket.typed {entry : String × PrismMessage}
    (sound : SoundPacket cbor builtins tracer committee S registered entry) : entry.2.Typed := by
  cases sound with
  | spoken mem text opens => exact opens.typed
  | asks c i asks opens => exact opens.typed
  | answers c i noted answers => exact answers.typed

theorem SoundPacket.traceable {entry : String × PrismMessage}
    (sound : SoundPacket cbor builtins tracer committee S registered entry) :
    Traceable tracer entry.2 := by
  cases sound with
  | spoken mem text opens => exact opens.traceable
  | asks c i asks opens => exact opens.traceable
  | answers c i noted answers => exact answers.traceable

/-! ### A client -/

variable (committee) in
/-- The servers that a client has an answer of, and its key. -/
structure Progress (c : Fin committee.clients) (answered : List committee.Server)
    (client : PrismClient G SpanContext) : Prop where
  nodup : answered.Nodup
  keys : client.registrationKeys = answered.map fun i =>
    (committee.server i, keyText (committee.registration i) (committee.clientName c))
  key : client.key = if answered.length = committee.ibe.ibeShards.length then
    committee.keyOf (committee.clientName c) else none

omit [DecidableEq G] in
theorem lookup_nonce (c : Fin committee.clients) (i : committee.Server) :
    (committee.config (.inl c)).registrationNonces.lookup (committee.server i) =
      some (committee.nonce c i) := by
  refine lookup_of_mem ?_ (List.mem_ofFn.mpr ⟨i, rfl⟩)
  change ((List.ofFn fun i => (committee.server i, committee.nonce c i)).map Prod.fst).Nodup
  rw [List.map_ofFn]
  exact List.nodup_ofFn.mpr committee.server_injective

omit [DecidableEq G] in
/-- **A client takes down a response**, and has its key with the last one. -/
theorem Progress.register {c : Fin committee.clients} {answered : List committee.Server}
    {client : PrismClient G SpanContext} (progress : Progress committee c answered client)
    {i : committee.Server} {message : PrismMessage}
    (responds : Responds cbor builtins (committee.registration i) (committee.clientName c)
      (committee.nonce c i) (committee.halfkey c) message) (now : ℤ) :
    ∃ registrationKeys key, client.processEncryptedRegistrationMessage cbor builtins
        (committee.config (.inl c)) pbc now message =
          .ok { client with registrationKeys, key } ∧
      Progress committee c (if i ∈ answered then answered else answered ++ [i])
        { client with registrationKeys, key } := by
  obtain ⟨base, cut⟩ := committee.exists_cut
  let answered' := if i ∈ answered then answered else answered ++ [i]
  have nodup : answered'.Nodup := by
    change (if i ∈ answered then answered else answered ++ [i]).Nodup
    split_ifs with known
    · exact progress.nodup
    · exact List.nodup_append.mpr ⟨progress.nodup, List.nodup_singleton i, fun a mem b single =>
        by rintro rfl; exact known (List.mem_singleton.mp single ▸ mem)⟩
  have keys : dictSet client.registrationKeys (committee.registration i).name
      (keyText (committee.registration i) (committee.clientName c)) = answered'.map fun i =>
        (committee.server i, keyText (committee.registration i) (committee.clientName c)) := by
    rw [progress.keys]
    exact dictSet_map committee.server_injective _ answered i
  have run := processRegistration_ok (show Responds cbor builtins _
    (committee.config (.inl c)).name _ _ _ from responds) rfl (lookup_nonce c i) client now
  have count : (committee.config (.inl c)).registrationNonces.length =
      committee.ibe.ibeShards.length := List.length_ofFn
  rw [show (committee.config (.inl c)).name = committee.clientName c from rfl, keys,
    List.length_map, count] at run
  by_cases all : answered'.length = committee.ibe.ibeShards.length
  · obtain ⟨key, loaded, is⟩ := cut.loadPrivateKeys nodup all (committee.clientName c)
    refine ⟨_, some key, ?_, nodup, rfl, ?_⟩
    · rw [run, if_pos all, List.map_map]
      change (do
        let key ← PrismClient.loadPrivateKeys pbc (answered'.map fun i =>
          keyText (committee.registration i) (committee.clientName c))
        _ : Py (PrismClient G SpanContext)) = _
      rw [loaded]
      rfl
    · change some key = _
      rw [if_pos all, is]
  · refine ⟨_, client.key, ?_, nodup, rfl, ?_⟩
    · rw [run, if_neg all]
    · change client.key = _
      rw [if_neg all, progress.key, if_neg]
      -- a client that has all answers gets no new one
      intro before
      have known : i ∈ answered := by
        by_contra new
        have fits := List.Nodup.length_le_card nodup
        rw [Fintype.card_fin, show answered' = answered ++ [i] from if_neg new, List.length_append,
          before] at fits
        exact Nat.not_succ_le_self _ fits
      exact all ((congrArg List.length (if_pos known)).trans before)

/-- A message is read by a party that has the key for its name. -/
theorem process_read {client : PrismClient G SpanContext} (config : ClientConfig package)
    {clear : ClearText SpanContext} {message : PrismMessage} (named : config.name = clear.receiver)
    (keyed : client.key = committee.keyOf clear.receiver)
    (reads : Reads cbor builtins tracer committee clear message) (arrival : Arrival) :
    ∃ context, client.processEncryptedUserMessage cbor builtins tracer config committee.system
        arrival message =
      if arrival.newNonce then
        ({ client with
            messageStore := client.messageStore ++ [{ clear with context, useIbe := true }] },
          some { clear with context, useIbe := true })
      else (client, none) := by
  obtain ⟨inner, context, run, read⟩ := reads arrival.now
  refine ⟨context, ?_⟩
  unfold PrismClient.processEncryptedUserMessage PrismClient.ibe
  rw [keyed, run]
  dsimp only
  rw [named, read]

omit [AddCommGroup G] [DecidableEq G] in
theorem processClearText_cases (config : ClientConfig package) (client : PrismClient G SpanContext)
    (clear : ClearText SpanContext) :
    client.processClearText config clear = client ∨
      client.processClearText config clear = { client with
        sendLog := client.sendLog ++ [clear]
        messageStore := client.messageStore ++ [clear] } := by
  unfold PrismClient.processClearText
  split_ifs
  · exact .inl rfl
  · exact .inr rfl

omit [AddCommGroup G] [DecidableEq G] in
theorem mem_sendLog {config : ClientConfig package} {client : PrismClient G SpanContext}
    {clear sent : ClearText SpanContext}
    (mem : sent ∈ (client.processClearText config clear).sendLog) :
    sent ∈ client.sendLog ∨ sent = clear := by
  rcases processClearText_cases config client clear with same | adds
  · exact .inl (same ▸ mem)
  · rw [adds] at mem
    rcases List.mem_append.mp mem with old | new
    · exact .inl old
    · exact .inr (List.mem_singleton.mp new)

omit [AddCommGroup G] [DecidableEq G] in
theorem key_processClearText (config : ClientConfig package) (client : PrismClient G SpanContext)
    (clear : ClearText SpanContext) : (client.processClearText config clear).key = client.key := by
  rcases processClearText_cases config client clear with same | adds
  · rw [same]
  · rw [adds]

theorem SoundPacket.inversion {receiver : String} {packet : PrismMessage}
    (sound : SoundPacket cbor builtins tracer committee S registered (receiver, packet)) :
    (∃ clear ∈ S, clear.messageBytes = none ∧ receiver = clear.receiver ∧
        Opens cbor builtins tracer committee clear packet) ∨
      (∃ clear c i, Asks cbor builtins committee c i clear ∧ receiver = clear.receiver ∧
        Opens cbor builtins tracer committee clear packet) ∨
      ∃ c i, registered i c ∧ receiver = committee.clientName c ∧
        Answers cbor builtins tracer committee c i packet := by
  cases sound with
  | spoken mem text opens => exact .inl ⟨_, mem, text, rfl, opens⟩
  | asks c i asks opens => exact .inr (.inl ⟨_, c, i, asks, rfl, opens⟩)
  | answers c i noted answers => exact .inr (.inr ⟨c, i, noted, rfl, answers⟩)

end

/-! ### The network -/

section

variable (cbor : Cbor2) (builtins : Builtins) (tracer : Tracer SpanContext)
  {committee : Committee pbc package ssl gmp} (known : committee.Server → DistributedKeys)
  (S : Set (ClearText SpanContext))

/-- The server has noted down the nonce of the client. -/
def World.Registered (w : World committee SpanContext) (i : committee.Server)
    (c : Fin committee.clients) : Prop :=
  (w.distributedKeys i).lookup (committee.clientName c) = some (some (committee.nonce c i))

/-- What a client keeps: answers of servers that noted down its nonce, and what was said to it. -/
structure Kept (registered : committee.Server → Fin committee.clients → Prop)
    (c : Fin committee.clients) (client : PrismClient G SpanContext) : Prop where
  progress : ∃ answered, Progress committee c answered client ∧ ∀ i ∈ answered, registered i c
  queue : ∀ message ∈ client.encryptedMessageQueue, ∃ clear ∈ S,
    clear.receiver = committee.clientName c ∧ Reads cbor builtins tracer committee clear message
  store : ∀ stored ∈ client.messageStore, stored ∈ client.sendLog ∨ ∃ clear ∈ S,
    clear.receiver = committee.clientName c ∧
      ∃ context, stored = { clear with context, useIbe := true }

/-- The invariant of the network, where the servers knew some names from before. -/
structure Invariant (w : World committee SpanContext) : Prop where
  clients : ∀ c, Kept cbor builtins tracer S w.Registered c (w.party (.inl c))
  servers : ∀ i, (w.party (.inr i)).key = committee.keyOf (committee.server i)
  sent : ∀ party, ∀ clear ∈ (w.party party).sendLog,
    Sound cbor builtins tracer committee S w.Registered clear
  packets : ∀ entry ∈ w.packets, SoundPacket cbor builtins tracer committee S w.Registered entry
  noted : ∀ i c, (w.distributedKeys i).lookup (committee.clientName c) =
      (known i).lookup (committee.clientName c) ∨
    (known i).lookup (committee.clientName c) = none ∧ w.Registered i c

end

section

variable {cbor : Cbor2} {builtins : Builtins} {tracer : Tracer SpanContext}
  {committee : Committee pbc package ssl gmp} {known : committee.Server → DistributedKeys}
  {S S' : Set (ClearText SpanContext)} {w : World committee SpanContext}
  {registered registered' : committee.Server → Fin committee.clients → Prop}

theorem Kept.mono (sub : S ⊆ S') (grows : ∀ i c, registered i c → registered' i c)
    {c : Fin committee.clients} {client : PrismClient G SpanContext}
    (kept : Kept cbor builtins tracer S registered c client) :
    Kept cbor builtins tracer S' registered' c client := by
  obtain ⟨⟨answered, progress, noted⟩, queue, store⟩ := kept
  refine ⟨⟨answered, progress, fun i mem => grows i c (noted i mem)⟩, fun message mem => ?_,
    fun stored mem => (store stored mem).imp_right ?_⟩
  · obtain ⟨clear, inS, rest⟩ := queue message mem
    exact ⟨clear, sub inS, rest⟩
  · rintro ⟨clear, inS, rest⟩
    exact ⟨clear, sub inS, rest⟩

theorem Invariant.mono (sub : S ⊆ S') (inv : Invariant cbor builtins tracer known S w) :
    Invariant cbor builtins tracer known S' w where
  clients c := (inv.clients c).mono sub fun _ _ => id
  servers := inv.servers
  sent party clear mem := (inv.sent party clear mem).mono sub fun _ _ => id
  packets entry mem := (inv.packets entry mem).mono sub fun _ _ => id
  noted := inv.noted

/-- One client changes. -/
theorem Invariant.setClient (inv : Invariant cbor builtins tracer known S w)
    {c : Fin committee.clients} {client : PrismClient G SpanContext}
    (kept : Kept cbor builtins tracer S w.Registered c client)
    (sent : ∀ clear ∈ client.sendLog, Sound cbor builtins tracer committee S w.Registered clear) :
    Invariant cbor builtins tracer known S (w.set committee (.inl c) client) where
  clients c' := by
    change Kept _ _ _ _ w.Registered c' (Function.update w.party (.inl c) client (.inl c'))
    by_cases same : c' = c
    · subst same
      rw [Function.update_self]
      exact kept
    · rw [Function.update_of_ne (by simpa using same)]
      exact inv.clients c'
  servers i := by
    change (Function.update w.party (.inl c) client (.inr i)).key = _
    rw [Function.update_of_ne (by simp)]
    exact inv.servers i
  sent party clear mem := by
    change clear ∈ (Function.update w.party (.inl c) client party).sendLog at mem
    by_cases same : party = .inl c
    · subst same
      rw [Function.update_self] at mem
      exact sent clear mem
    · rw [Function.update_of_ne same] at mem
      exact inv.sent party clear mem
  packets := inv.packets
  noted := inv.noted

/-- One server changes, and may note down nonces of clients that were free. -/
theorem Invariant.setServer (inv : Invariant cbor builtins tracer known S w)
    {i : committee.Server} {client : PrismClient G SpanContext} {d : DistributedKeys}
    (keyed : client.key = (w.party (.inr i)).key)
    (keeps : ∀ c, d.lookup (committee.clientName c) =
        (w.distributedKeys i).lookup (committee.clientName c) ∨
      d.lookup (committee.clientName c) = some (some (committee.nonce c i)) ∧
        ((w.distributedKeys i).lookup (committee.clientName c) = none ∨ w.Registered i c))
    (sent : ∀ clear ∈ client.sendLog, clear ∈ (w.party (.inr i)).sendLog ∨
      Sound cbor builtins tracer committee S
        { w.set committee (.inr i) client with
          distributedKeys := Function.update w.distributedKeys i d : World _ _ }.Registered clear) :
    Invariant cbor builtins tracer known S { w.set committee (.inr i) client with
      distributedKeys := Function.update w.distributedKeys i d } := by
  have lookup : ∀ j c, (Function.update w.distributedKeys i d j).lookup (committee.clientName c) =
        (w.distributedKeys j).lookup (committee.clientName c) ∨
      (Function.update w.distributedKeys i d j).lookup (committee.clientName c) =
          some (some (committee.nonce c j)) ∧
        ((w.distributedKeys j).lookup (committee.clientName c) = none ∨ w.Registered j c) := by
    intro j c
    by_cases same : j = i
    · subst same
      rw [Function.update_self]
      exact keeps c
    · rw [Function.update_of_ne same]
      exact .inl rfl
  have grows : ∀ j c, w.Registered j c → World.Registered { w.set committee (.inr i) client with
      distributedKeys := Function.update w.distributedKeys i d } j c := by
    intro j c before
    rcases lookup j c with same | ⟨noted, -⟩
    · exact same.trans before
    · exact noted
  refine ⟨fun c => ?_, fun j => ?_, fun party clear mem => ?_, fun entry mem => ?_, fun j c => ?_⟩
  · change Kept _ _ _ _ _ c (Function.update w.party (.inr i) client (.inl c))
    rw [Function.update_of_ne (by simp)]
    exact (inv.clients c).mono subset_rfl grows
  · change (Function.update w.party (.inr i) client (.inr j)).key = _
    by_cases same : j = i
    · subst same
      rw [Function.update_self, keyed]
      exact inv.servers j
    · rw [Function.update_of_ne (by simpa using same)]
      exact inv.servers j
  · change clear ∈ (Function.update w.party (.inr i) client party).sendLog at mem
    by_cases same : party = .inr i
    · subst same
      rw [Function.update_self] at mem
      rcases sent clear mem with old | new
      · exact (inv.sent _ clear old).mono subset_rfl grows
      · exact new
    · rw [Function.update_of_ne same] at mem
      exact (inv.sent party clear mem).mono subset_rfl grows
  · exact (inv.packets entry mem).mono subset_rfl grows
  · change (Function.update w.distributedKeys i d j).lookup _ = _ ∨ _
    rcases lookup j c with same | ⟨noted, free | before⟩
    · rcases inv.noted j c with old | ⟨unknown, before⟩
      · exact .inl (same.trans old)
      · exact .inr ⟨unknown, grows j c before⟩
    · rcases inv.noted j c with old | ⟨unknown, -⟩
      · exact .inr ⟨old.symm.trans free, noted⟩
      · exact .inr ⟨unknown, noted⟩
    · rcases inv.noted j c with old | ⟨unknown, -⟩
      · exact .inl (noted.trans (before.symm.trans old))
      · exact .inr ⟨unknown, noted⟩

/-- A client that sends a clear text keeps what it keeps. -/
theorem Invariant.send (inv : Invariant cbor builtins tracer known S w) (c : Fin committee.clients)
    {clear : ClearText SpanContext}
    (sound : Sound cbor builtins tracer committee S w.Registered clear) :
    Invariant cbor builtins tracer known S (w.set committee (.inl c)
      ((w.party (.inl c)).processClearText (committee.config (.inl c)) clear)) := by
  refine inv.setClient ?_ fun sent mem => ?_
  · rcases processClearText_cases (committee.config (.inl c)) (w.party (.inl c)) clear with
      same | adds
    · rw [same]
      exact inv.clients c
    · rw [adds]
      obtain ⟨⟨answered, progress, noted⟩, queue, store⟩ := inv.clients c
      refine ⟨⟨answered, ⟨progress.nodup, progress.keys, progress.key⟩, noted⟩, queue,
        fun stored mem => ?_⟩
      rcases List.mem_append.mp mem with old | new
      · exact (store stored old).imp_left (List.mem_append_left _)
      · exact .inl (List.mem_append_right _ new)
  · rcases mem_sendLog mem with old | rfl
    · exact inv.sent _ sent old
    · exact sound

/-- A client that reads a message stores what was said to it. -/
theorem Kept.read {c : Fin committee.clients} {client : PrismClient G SpanContext}
    (kept : Kept cbor builtins tracer S registered c client) (has : client.key.isSome)
    {clear : ClearText SpanContext} (mem : clear ∈ S)
    (receiver : clear.receiver = committee.clientName c) {message : PrismMessage}
    (reads : Reads cbor builtins tracer committee clear message) (arrival : Arrival) :
    let client' := (client.processEncryptedUserMessage cbor builtins tracer
      (committee.config (.inl c)) committee.system arrival message).1
    Kept cbor builtins tracer S registered c client' ∧ client'.sendLog = client.sendLog := by
  obtain ⟨⟨answered, progress, noted⟩, queue, store⟩ := kept
  have keyed : client.key = committee.keyOf clear.receiver := by
    rw [receiver, progress.key]
    rw [progress.key] at has
    split_ifs at has ⊢
    · rfl
    · cases has
  obtain ⟨context, run⟩ := process_read (committee.config (.inl c)) receiver.symm keyed
    reads arrival
  dsimp only
  rw [run]
  split_ifs
  · refine ⟨⟨⟨answered, ⟨progress.nodup, progress.keys, progress.key⟩, noted⟩, queue,
      fun stored new => ?_⟩, rfl⟩
    rcases List.mem_append.mp new with old | new
    · exact store stored old
    · exact .inr ⟨clear, mem, receiver, context, List.mem_singleton.mp new⟩
  · exact ⟨⟨⟨answered, progress, noted⟩, queue, store⟩, rfl⟩

/-- **A message arrives at a client.** -/
theorem Invariant.receive_client (inv : Invariant cbor builtins tracer known S w)
    {c : Fin committee.clients} {packet message : PrismMessage}
    (sound : SoundPacket cbor builtins tracer committee S w.Registered
      (committee.clientName c, packet))
    (same : PrismMessage.SameBut [.debugInfo] packet message) (traceable : Traceable tracer message)
    (arrival : Arrival) (draws : ResponseDraws package) :
    ∃ w', receive cbor builtins tracer committee w (.inl c) arrival draws message = .ok w' ∧
      Invariant cbor builtins tracer known S w' := by
  have kept := inv.clients c
  -- it is enough to process the message
  suffices processes : ∃ client delivered, (w.party (.inl c)).processMessage cbor builtins tracer
      (committee.config (.inl c)) committee.system arrival message = .ok (client, delivered) ∧
      Kept cbor builtins tracer S w.Registered c client ∧
      client.sendLog = (w.party (.inl c)).sendLog by
    obtain ⟨client, delivered, run, kept', log⟩ := processes
    refine ⟨w.set committee (.inl c) client, ?_,
      inv.setClient kept' fun clear mem => inv.sent _ clear (log ▸ mem)⟩
    unfold receive
    dsimp only
    rw [run]
    rfl
  unfold PrismClient.processMessage
  by_cases new : arrival.newMessage
  · rw [if_pos new]
    rcases sound.inversion with ⟨clear, mem, -, receiver, opens⟩ |
      ⟨clear, c', i, asks, receiver, -⟩ | ⟨c', i, registered, receiver, answers⟩
    · rw [(same .msgType (by decide) (by decide)).trans opens.type]
      dsimp only
      have reads := opens.reads message same traceable
      by_cases has : (w.party (.inl c)).key.isSome
      · rw [if_pos has]
        exact ⟨_, _, rfl, kept.read has mem receiver.symm reads arrival⟩
      · rw [if_neg has]
        refine ⟨_, _, rfl, ⟨?_, fun queued old => ?_, kept.store⟩, rfl⟩
        · obtain ⟨answered, progress, noted⟩ := kept.progress
          exact ⟨answered, ⟨progress.nodup, progress.keys, progress.key⟩, noted⟩
        · rcases List.mem_append.mp old with old | last
          · exact kept.queue queued old
          · rw [List.mem_singleton.mp last]
            exact ⟨clear, mem, receiver.symm, reads⟩
    · exact absurd (receiver.trans asks.receiver) (committee.apart c i)
    · obtain rfl := committee.distinct receiver
      have responds := answers.responds.arrived same
      have ⟨type, _⟩ := responds
      obtain ⟨answered, progress, noted⟩ := kept.progress
      obtain ⟨keys, key, run, progress'⟩ := progress.register responds arrival.now
      rw [type]
      dsimp only
      rw [run]
      refine ⟨_, _, rfl, ⟨⟨_, progress', fun j mem => ?_⟩, kept.queue, kept.store⟩, rfl⟩
      split_ifs at mem
      · exact noted j mem
      · rcases List.mem_append.mp mem with old | last
        · exact noted j old
        · rw [List.mem_singleton.mp last]
          exact registered
  · rw [if_neg new]
    exact ⟨_, _, rfl, kept, rfl⟩

/-- A server that notes down nothing. -/
theorem Invariant.setServer_same (inv : Invariant cbor builtins tracer known S w)
    {i : committee.Server} {client : PrismClient G SpanContext}
    (keyed : client.key = (w.party (.inr i)).key)
    (log : client.sendLog = (w.party (.inr i)).sendLog) :
    Invariant cbor builtins tracer known S (w.set committee (.inr i) client) := by
  have set := inv.setServer keyed (fun _ => .inl rfl) fun clear mem => .inl (log ▸ mem)
  rw [Function.update_eq_self] at set
  exact set

omit [DecidableEq G] in
/-- What a user says is no request. -/
theorem messageReceived_text (self : ClientRegistration pbc) (d : DistributedKeys)
    {clear : ClearText SpanContext} (text : clear.messageBytes = none)
    (draws : ResponseDraws package) :
    messageReceived cbor builtins self d clear draws = (d, none) := by
  unfold messageReceived
  rw [text]
  rfl

omit [DecidableEq G] in
variable (tracer S) in
/-- **A server answers a request**, or knows the name with another nonce. -/
theorem messageReceived_asks {c : Fin committee.clients} {i : committee.Server}
    {clear : ClearText SpanContext} (asks : Asks cbor builtins committee c i clear)
    (d : DistributedKeys) (draws : ResponseDraws package) :
    messageReceived cbor builtins (committee.registration i) d clear draws = (d, none) ∨
      (d.lookup (committee.clientName c) = none ∨
        d.lookup (committee.clientName c) = some (some (committee.nonce c i))) ∧
      ∃ response, messageReceived cbor builtins (committee.registration i) d clear draws =
          (dictSet d (committee.clientName c) (some (committee.nonce c i)), some response) ∧
        ∀ registered : committee.Server → Fin committee.clients → Prop, registered i c →
          Sound cbor builtins tracer committee S registered response := by
  obtain ⟨data, request, has, decodes, type, named, noted, keyed⟩ := asks.request
  unfold messageReceived
  rw [has, Option.map_some, decodes]
  dsimp only
  rw [type]
  dsimp only
  by_cases authorized : authorize d request
  · obtain ⟨data', response, typed, untraced, decoded, responds, run⟩ :=
      @registerClient_ok G T _ _ pbc package SpanContext cbor builtins (committee.registration i) d
        request _ _ _ named noted keyed draws
    rw [if_pos authorized, run]
    refine .inr ⟨?_, _, rfl, fun registered here =>
      .answers c i here rfl rfl rfl decoded ⟨typed, ⟨none, ?_⟩, responds⟩⟩
    · rw [authorize, named] at authorized
      dsimp only [Value.text?] at authorized
      cases found : d.lookup (committee.clientName c) with
      | none => exact .inl rfl
      | some nonce =>
          rw [found, noted] at authorized
          exact .inr (congrArg some (of_decide_eq_true authorized).symm)
    · rw [extractSpanContext, untraced]
  · rw [if_neg authorized]
    exact .inl rfl

/-- **A message arrives at a server.** -/
theorem Invariant.receive_server (inv : Invariant cbor builtins tracer known S w)
    {i : committee.Server} {packet message : PrismMessage}
    (sound : SoundPacket cbor builtins tracer committee S w.Registered (committee.server i, packet))
    (same : PrismMessage.SameBut [.debugInfo] packet message) (traceable : Traceable tracer message)
    (arrival : Arrival) (draws : ResponseDraws package) :
    ∃ w', receive cbor builtins tracer committee w (.inr i) arrival draws message = .ok w' ∧
      Invariant cbor builtins tracer known S w' := by
  -- what is delivered to the server
  suffices processes : ∃ client delivered, (w.party (.inr i)).processMessage cbor builtins tracer
      (committee.config (.inr i)) committee.system arrival message = .ok (client, delivered) ∧
      client.key = (w.party (.inr i)).key ∧ client.sendLog = (w.party (.inr i)).sendLog ∧
      ∀ clear, delivered = some clear → clear.messageBytes = none ∨
        ∃ c, Asks cbor builtins committee c i clear by
    obtain ⟨client, delivered, run, keyed, log, delivers⟩ := processes
    unfold receive
    dsimp only
    rw [run]
    cases delivered with
    | none => exact ⟨_, rfl, inv.setServer_same keyed log⟩
    | some clear =>
        have receives : messageReceived cbor builtins (committee.registration i)
              (w.distributedKeys i) clear draws = (w.distributedKeys i, none) ∨
            ∃ c, ((w.distributedKeys i).lookup (committee.clientName c) = none ∨ w.Registered i c) ∧
              ∃ response, messageReceived cbor builtins (committee.registration i)
                  (w.distributedKeys i) clear draws = (dictSet (w.distributedKeys i)
                    (committee.clientName c) (some (committee.nonce c i)), some response) ∧
                ∀ registered : committee.Server → Fin committee.clients → Prop, registered i c →
                  Sound cbor builtins tracer committee S registered response := by
          rcases delivers clear rfl with text | ⟨c, asks⟩
          · exact .inl (messageReceived_text _ _ text draws)
          · exact (messageReceived_asks tracer S asks (w.distributedKeys i) draws).imp_right
              fun answered => ⟨c, answered⟩
        rw [ok_bind]
        dsimp only
        rcases receives with received | ⟨c, free, response, received, answers⟩
        · rw [received]
          refine ⟨_, rfl, ?_⟩
          rw [Function.update_eq_self]
          exact inv.setServer_same keyed log
        · rw [received]
          refine ⟨_, rfl, inv.setServer ?_ (fun c' => ?_) fun sent mem => ?_⟩
          · exact (key_processClearText _ _ _).trans keyed
          · rw [lookup_dictSet]
            split_ifs with same
            · obtain rfl := committee.distinct same
              exact .inr ⟨rfl, free⟩
            · exact .inl rfl
          · rcases mem_sendLog mem with old | rfl
            · exact .inl (log ▸ old)
            · refine .inr (answers _ ?_)
              change (Function.update w.distributedKeys i _ i).lookup _ = _
              rw [Function.update_self, lookup_dictSet, if_pos rfl]
  have keyed : (w.party (.inr i)).key = committee.keyOf (committee.server i) := inv.servers i
  have has : (w.party (.inr i)).key.isSome := by
    obtain ⟨base, cut⟩ := committee.exists_cut
    rw [keyed, cut.keyOf]
    rfl
  have reading : ∀ clear, committee.server i = clear.receiver →
      Opens cbor builtins tracer committee clear packet →
      (∀ context, ({ clear with context, useIbe := true } :
          ClearText SpanContext).messageBytes = none ∨
        ∃ c, Asks cbor builtins committee c i { clear with context, useIbe := true }) →
      ∃ client delivered, (.ok ((w.party (.inr i)).processEncryptedUserMessage cbor builtins tracer
          (committee.config (.inr i)) committee.system arrival message) : Py _) =
            .ok (client, delivered) ∧
        client.key = (w.party (.inr i)).key ∧ client.sendLog = (w.party (.inr i)).sendLog ∧
        ∀ clear, delivered = some clear → clear.messageBytes = none ∨
          ∃ c, Asks cbor builtins committee c i clear := by
    intro clear receiver opens delivers
    obtain ⟨context, run⟩ := process_read (committee.config (.inr i)) receiver
      (receiver ▸ keyed) (opens.reads message same traceable) arrival
    rw [run]
    split_ifs
    · exact ⟨_, _, rfl, rfl, rfl, fun clear is => Option.some.inj is ▸ delivers context⟩
    · exact ⟨_, _, rfl, rfl, rfl, fun clear is => by cases is⟩
  unfold PrismClient.processMessage
  by_cases new : arrival.newMessage
  · rw [if_pos new]
    rcases sound.inversion with ⟨clear, -, text, receiver, opens⟩ |
      ⟨clear, c, j, asks, receiver, opens⟩ | ⟨c, j, -, receiver, -⟩
    · rw [(same .msgType (by decide) (by decide)).trans opens.type]
      dsimp only
      rw [if_pos has]
      exact reading clear receiver opens fun _ => .inl text
    · obtain rfl := committee.server_injective (receiver.trans asks.receiver)
      rw [(same .msgType (by decide) (by decide)).trans opens.type]
      dsimp only
      rw [if_pos has]
      exact reading clear receiver opens fun _ =>
        .inr ⟨c, asks.receiver, asks.timed, rfl, asks.request⟩
    · exact absurd receiver.symm (committee.apart c i)
  · rw [if_neg new]
    exact ⟨_, _, rfl, rfl, rfl, fun clear is => by cases is⟩

/-- **Every move keeps the invariant**, and raises nothing. -/
theorem Invariant.step (inv : Invariant cbor builtins tracer known S w)
    (move : Move committee SpanContext)
    (spoken : ∀ c receiver text nonce timestamp, move = .say c receiver text nonce timestamp →
      ({ receiver, sender := some (committee.clientName c), message := some text,
         nonce := some nonce, timestamp := some timestamp } : ClearText SpanContext) ∈ S) :
    ∃ w', effect cbor builtins tracer committee w move = .ok w' ∧
      Invariant cbor builtins tracer known S w' := by
  cases move with
  | request c i now clearNonce timestamp =>
      unfold effect
      dsimp only
      split_ifs
      · exact ⟨w, rfl, inv⟩
      · obtain ⟨request, data, made, encoded, decodes, type, named, noted, keyed⟩ :=
          @bootstrapRequest_ok package cbor builtins now (committee.clientName c)
            (committee.nonce c i) (committee.halfkey c)
        unfold bootstrapClearText
        rw [made, ok_bind, encoded]
        exact ⟨_, rfl, inv.send c (.asks c i
          ⟨rfl, rfl, rfl, data, request, rfl, decodes, type, named, noted, keyed⟩)⟩
  | say c receiver text nonce timestamp =>
      exact ⟨_, rfl, inv.send c (.spoken (spoken c receiver text nonce timestamp rfl) rfl rfl rfl)⟩
  | send party k draws =>
      unfold effect
      dsimp only
      cases logged : (w.party party).sendLog[k]? with
      | none => exact ⟨w, rfl, inv⟩
      | some clear =>
          obtain ⟨packet, wrapped, sound⟩ :=
            (inv.sent party clear (List.mem_of_getElem? logged)).wrap (w.party party) draws
          dsimp only
          rw [wrapped]
          refine ⟨_, rfl, inv.clients, inv.servers, inv.sent, fun entry mem => ?_, inv.noted⟩
          rcases List.mem_append.mp mem with old | new
          · exact inv.packets entry old
          · rw [List.mem_singleton.mp new]
            exact sound
  | arrive party k contexts arrival draws =>
      unfold effect
      dsimp only
      cases arrives : w.packets[k]? with
      | none => exact ⟨w, rfl, inv⟩
      | some entry =>
          obtain ⟨receiver, packet⟩ := entry
          have sound := inv.packets _ (List.mem_of_getElem? arrives)
          dsimp only
          split_ifs with here
          · subst here
            obtain ⟨message, run, same, -, traceable⟩ :=
              @traced _ builtins tracer contexts arrival.now _ sound.typed sound.traceable
            rw [run, ok_bind]
            cases party with
            | inl c => exact inv.receive_client sound same traceable arrival draws
            | inr i => exact inv.receive_server sound same traceable arrival draws
          · exact ⟨w, rfl, inv⟩
  | readQueue c k arrival =>
      unfold effect
      dsimp only
      cases queued : (w.party (.inl c)).encryptedMessageQueue[k]? with
      | none => exact ⟨w, rfl, inv⟩
      | some message =>
          dsimp only
          split_ifs with has
          · obtain ⟨clear, mem, receiver, reads⟩ :=
              (inv.clients c).queue message (List.mem_of_getElem? queued)
            obtain ⟨kept, log⟩ := (inv.clients c).read has mem receiver reads arrival
            exact ⟨_, rfl, inv.setClient kept fun sent mem => inv.sent _ sent (log ▸ mem)⟩
          · exact ⟨w, rfl, inv⟩

/-! ### Runs -/

variable (cbor builtins tracer committee known)

theorem invariant_init : Invariant cbor builtins tracer known (said committee [])
    (network cbor builtins tracer committee known).init := by
  obtain ⟨base, cut⟩ := committee.exists_cut
  refine ⟨fun c => ⟨⟨[], ⟨List.nodup_nil, rfl, ?_⟩, fun i mem => ?_⟩, fun message mem => ?_,
    fun stored mem => ?_⟩, fun i => ?_, ?_, fun entry mem => ?_, fun i c => .inl rfl⟩
  · exact (if_neg (Nat.ne_of_lt cut.nonempty)).symm
  · exact absurd mem List.not_mem_nil
  · exact absurd mem List.not_mem_nil
  · exact absurd mem List.not_mem_nil
  · exact (cut.serverKey i).symm
  · rintro (c | i) clear mem
    · exact absurd mem List.not_mem_nil
    · exact absurd mem List.not_mem_nil
  · exact absurd mem List.not_mem_nil

theorem network_step {w w' : World committee SpanContext} {move : Move committee SpanContext}
    (run : effect cbor builtins tracer committee w move = .ok w') :
    (network cbor builtins tracer committee known).step w move = (w', .ok ()) := by
  unfold network
  dsimp only
  rw [run]

/-- The invariant holds after every run, in which nothing was raised. -/
theorem invariant_of_run (moves : List (Move committee SpanContext)) :
    let run := (network cbor builtins tracer committee known).run moves
    Invariant cbor builtins tracer known (said committee moves) run.1 ∧
      ∀ e ∈ run.2, e.2 = .ok () := by
  induction moves using List.reverseRecOn with
  | nil => exact ⟨invariant_init cbor builtins tracer committee known, by simp⟩
  | append_singleton moves move ih =>
      obtain ⟨inv, raised⟩ := ih
      have spoken : ∀ c receiver text nonce timestamp,
          move = .say c receiver text nonce timestamp →
          ({ receiver, sender := some (committee.clientName c), message := some text,
             nonce := some nonce, timestamp := some timestamp } : ClearText SpanContext) ∈
            said committee (moves ++ [move]) := by
        rintro c receiver text nonce timestamp rfl
        exact ⟨c, receiver, text, nonce, timestamp, by simp, rfl⟩
      obtain ⟨w', run, inv'⟩ := (inv.mono (said_mono moves move)).step move spoken
      rw [Machine.run_concat, Machine.record,
        network_step cbor builtins tracer committee known run]
      refine ⟨inv', fun e mem => ?_⟩
      rcases List.mem_append.mp mem with old | new
      · exact raised e old
      · rw [List.mem_singleton.mp new]

/-- **A client has the key of the system for its name, or none.** It has the key only when every
server noted down its nonce, and none of them knew its name with another nonce before. -/
theorem bootstrapped_key (moves : List (Move committee SpanContext)) (c : Fin committee.clients) :
    let w := ((network cbor builtins tracer committee known).run moves).1
    ∃ text, committee.ibe.privateKey (utf8 (committee.clientName c)) = .ok text ∧
      ((w.party (.inl c)).key = none ∨
        (w.party (.inl c)).key = some (parsePrivateKey pbc text) ∧
          ∀ i, w.Registered i c ∧ ∀ nonce,
            (known i).lookup (committee.clientName c) = some nonce →
              nonce = some (committee.nonce c i)) := by
  obtain ⟨inv, -⟩ := invariant_of_run cbor builtins tracer committee known moves
  obtain ⟨base, cut⟩ := committee.exists_cut
  obtain ⟨answered, progress, noted⟩ := (inv.clients c).progress
  refine ⟨_, cut.privateKey _, ?_⟩
  rw [progress.key, cut.keyOf, parse_format]
  split_ifs with all
  · refine .inr ⟨rfl, fun i => ?_⟩
    have mem : i ∈ answered.toFinset := by
      rw [toFinset_eq_univ progress.nodup all]
      exact Finset.mem_univ i
    have here := noted i (List.mem_toFinset.mp mem)
    refine ⟨here, fun nonce before => ?_⟩
    rcases inv.noted i c with same | ⟨unknown, -⟩
    · exact Option.some.inj (before.symm.trans (same.symm.trans here))
    · cases unknown.symm.trans before
  · exact .inl rfl

/-- **Nothing is raised**, whatever is sent, lost, repeated or reordered. -/
theorem bootstrap_raises_nothing (moves : List (Move committee SpanContext)) :
    ((network cbor builtins tracer committee known).run moves).2.map Prod.snd =
      List.replicate moves.length (.ok ()) := by
  have ok := (invariant_of_run cbor builtins tracer committee known moves).2
  refine List.eq_replicate_iff.mpr ⟨?_, fun outcome mem => ?_⟩
  · rw [List.length_map, Machine.length_history]
  · obtain ⟨e, among, rfl⟩ := List.mem_map.mp mem
    exact ok e among

/-- **What a client stores was sent by it or said to it**, and every message in its queue can be
read as what was said to it with the key of the system for its name. -/
theorem stored_was_said (moves : List (Move committee SpanContext)) (c : Fin committee.clients) :
    let client := ((network cbor builtins tracer committee known).run moves).1.party (.inl c)
    (∀ stored ∈ client.messageStore, stored ∈ client.sendLog ∨
      ∃ clear ∈ said committee moves, clear.receiver = committee.clientName c ∧
        ∃ context, stored = { clear with context, useIbe := true }) ∧
    ∀ message ∈ client.encryptedMessageQueue,
      ∃ clear ∈ said committee moves, clear.receiver = committee.clientName c ∧
        Reads cbor builtins tracer committee clear message := by
  obtain ⟨inv, -⟩ := invariant_of_run cbor builtins tracer committee known moves
  exact ⟨(inv.clients c).store, (inv.clients c).queue⟩

end

end Prism.Client.Bootstrap
