import Mathlib.Algebra.BigOperators.Fin
import Prism.Client.Bootstrap

/-!
What the steps of a bootstrap do (`prism/server/CS2/roles/client_registration.py` and
`prism/client/client.py`).

* `registrar_one_nonce`: a server answers requests for a name with one nonce only.
* `registerClient_ok`, `processRegistration_ok`: the way of a private key to its client.
* `Committee.keyOf`: the key of the system for a name; `Committee.exists_cut`: its shards.
* `Committee.Cut.loadPrivateKeys`: the keys of all shards add up to it, in any order.
-/

namespace Prism.Client.Bootstrap

open Bfibe Bfibe.BFPublicParameters Config Crypto Lib

section

variable {G T : Type} [AddCommGroup G] [CommGroup T] {pbc : Pbc G T} {package : CryptoPackage}
  {SpanContext : Type} {cbor : Cbor2} {builtins : Builtins}

/-! ### A server of the committee -/

/-- The clear text carries a request for a name with a nonce. -/
def Requests (cbor : Cbor2) (builtins : Builtins)
    (event : ClearText SpanContext × ResponseDraws package) (name : String)
    (nonce : Option Bytes) : Prop :=
  ∃ data request, event.1.messageBytes = some data ∧
    PrismMessage.decode cbor builtins event.2.fresh.now data = .ok (some request) ∧
    (request.get .name).text? = some name ∧ (request.get .nonce).bytes? = nonce

/-- What is registered goes to the name of the request, with its nonce. -/
theorem registerClient_cases {self : ClientRegistration pbc} {distributedKeys d : DistributedKeys}
    {request : PrismMessage} {draws : ResponseDraws package} {response : ClearText SpanContext}
    (run : registerClient cbor builtins self distributedKeys request draws = .ok (d, response)) :
    (request.get .name).text? = some response.receiver ∧
      d = dictSet distributedKeys response.receiver (request.get .nonce).bytes? := by
  unfold registerClient at run
  split at run
  · cases run
  · next clientName named =>
      obtain ⟨halfKey, -, run⟩ := bind_eq_ok.mp run
      split at run
      · cases run
      · obtain ⟨encrypted, -, run⟩ := bind_eq_ok.mp run
        obtain ⟨ownKey, -, run⟩ := bind_eq_ok.mp run
        obtain ⟨data, -, run⟩ := bind_eq_ok.mp run
        obtain ⟨rfl, rfl⟩ := Prod.mk.inj (Except.ok.inj run)
        exact ⟨named, rfl⟩

/-- **What a server does with a clear text**: nothing, or it registers a name that it does not know
with another nonce, and answers. -/
theorem messageReceived_cases (self : ClientRegistration pbc) (distributedKeys : DistributedKeys)
    (event : ClearText SpanContext × ResponseDraws package) :
    messageReceived cbor builtins self distributedKeys event.1 event.2 = (distributedKeys, none) ∨
    ∃ response nonce, Requests cbor builtins event response.receiver nonce ∧
      (∀ n, distributedKeys.lookup response.receiver = some n → nonce = n) ∧
      messageReceived cbor builtins self distributedKeys event.1 event.2 =
        (dictSet distributedKeys response.receiver nonce, some response) := by
  unfold messageReceived
  split
  · next request decoded =>
      obtain ⟨data, has, decoded⟩ := Option.map_eq_some_iff.mp decoded
      split
      · split_ifs with authorized
        · split
          · next d response registered =>
              obtain ⟨named, rfl⟩ := registerClient_cases registered
              refine .inr ⟨response, _, ⟨data, request, has, decoded, named, rfl⟩, ?_, rfl⟩
              intro n known
              rw [authorize, named] at authorized
              simp only [known, decide_eq_true_eq] at authorized
              exact authorized
          · exact .inl rfl
        · exact .inl rfl
      · exact .inl rfl
  · exact .inl rfl

/-- The clear text carries a request for one name and one nonce at most. -/
theorem Requests.unique {event : ClearText SpanContext × ResponseDraws package}
    {name name' : String} {nonce nonce' : Option Bytes} (first : Requests cbor builtins event name nonce)
    (second : Requests cbor builtins event name' nonce') : name = name' ∧ nonce = nonce' := by
  obtain ⟨data, request, has, decoded, named, noted⟩ := first
  obtain ⟨data', request', has', decoded', named', noted'⟩ := second
  obtain rfl := Option.some.inj (has.symm.trans has')
  obtain rfl := Option.some.inj (Except.ok.inj (decoded.symm.trans decoded'))
  exact ⟨Option.some.inj (named.symm.trans named'), noted.symm.trans noted'⟩

/-- Every answer of a run was given for the nonce that is noted down for its name. -/
theorem registrar_noted (self : ClientRegistration pbc) (known : DistributedKeys)
    (events : List (ClearText SpanContext × ResponseDraws package)) :
    let run := (registrar cbor builtins self known).run events
    (∀ name nonce, known.lookup name = some nonce → run.1.lookup name = some nonce) ∧
      ∀ e ∈ run.2, e.2.isSome → ∀ name nonce, Requests cbor builtins e.1 name nonce →
        run.1.lookup name = some nonce := by
  apply @Machine.run_induction _ _ _ (registrar cbor builtins self known) (fun _ _ _ => True)
    fun d history => (∀ name nonce, known.lookup name = some nonce → d.lookup name = some nonce) ∧
      ∀ e ∈ history, e.2.isSome → ∀ name nonce, Requests cbor builtins e.1 name nonce →
        d.lookup name = some nonce
  · exact ⟨fun _ _ => id, by simp⟩
  · rintro d history event ⟨before, noted⟩ -
    change (∀ name nonce, _ → (messageReceived cbor builtins self d event.1 event.2).1.lookup name =
        some nonce) ∧
      ∀ e ∈ history ++ [(event, (messageReceived cbor builtins self d event.1 event.2).2)], _ →
        ∀ name nonce, _ →
          (messageReceived cbor builtins self d event.1 event.2).1.lookup name = some nonce
    rcases messageReceived_cases self d event with nothing | ⟨response, nonce, asks, free, run⟩
    · rw [nothing]
      refine ⟨before, fun e mem answered => ?_⟩
      rcases List.mem_append.mp mem with old | new
      · exact noted e old answered
      · rw [List.mem_singleton.mp new] at answered
        cases answered
    · rw [run]
      -- a name that is known keeps its nonce
      have keeps : ∀ name n, d.lookup name = some n →
          (dictSet d response.receiver nonce).lookup name = some n := by
        intro name n found
        rw [lookup_dictSet]
        split_ifs with same
        · subst same
          rw [free n found]
        · exact found
      refine ⟨fun name n found => keeps name n (before name n found),
        fun e mem answered name n asks' => ?_⟩
      rcases List.mem_append.mp mem with old | new
      · exact keeps name n (noted e old answered name n asks')
      · rw [List.mem_singleton.mp new] at asks'
        obtain ⟨rfl, rfl⟩ := asks.unique asks'
        rw [lookup_dictSet, if_pos rfl]
  · exact fun _ _ _ _ => trivial

variable (cbor builtins)

/-- **A server answers requests for a name with one nonce only**, whoever asks, whatever and how
often: the first one that it answered. -/
theorem registrar_one_nonce (self : ClientRegistration pbc) (known : DistributedKeys)
    (events : List (ClearText SpanContext × ResponseDraws package)) (name : String) :
    {nonce | known.lookup name = some nonce ∨
      ∃ e ∈ ((registrar cbor builtins self known).run events).2, e.2.isSome ∧
        Requests cbor builtins e.1 name nonce}.Subsingleton := by
  obtain ⟨before, noted⟩ := @registrar_noted _ _ _ _ _ _ _ cbor builtins self known events
  have lookup : ∀ nonce, (known.lookup name = some nonce ∨
      ∃ e ∈ ((registrar cbor builtins self known).run events).2, e.2.isSome ∧
        Requests cbor builtins e.1 name nonce) →
      ((registrar cbor builtins self known).run events).1.lookup name = some nonce := by
    rintro nonce (found | ⟨e, mem, answered, asks⟩)
    · exact before name nonce found
    · exact noted e mem answered name nonce asks
  intro nonce first nonce' second
  exact Option.some.inj ((lookup nonce first).symm.trans (lookup nonce' second))

/-! ### The way of a key -/

variable {cbor builtins}

/-- A request is made and encoded. -/
theorem bootstrapRequest_ok (now : ℤ) (name : String) (nonce : Bytes)
    (halfKey : package.PrivateKey) :
    ∃ request data, bootstrapRequest builtins now name nonce halfKey = .ok request ∧
      request.encode cbor = .ok data ∧
      (∀ now', PrismMessage.decode cbor builtins now' data = .ok (some request)) ∧
      request.get .msgType = .enum (.type .clientRegistrationRequest) ∧
      request.get .name = .str name ∧ request.get .nonce = .bytes nonce ∧
      request.get .halfKey = halfKeyMap package (package.publicKey halfKey) := by
  let request := PrismMessage.create now .clientRegistrationRequest
    [(.name, .str name), (.nonce, .bytes nonce),
      (.halfKey, halfKeyMap package (package.publicKey halfKey))]
  have typed : request.Typed := by
    refine PrismMessage.typed_create ?_
    simp only [List.forall_mem_cons, List.not_mem_nil, false_implies, implies_true, and_true]
    exact ⟨rfl, rfl, rfl⟩
  obtain ⟨data, encoded, -, -⟩ := PrismMessage.decode_encode cbor builtins 0 typed
  refine ⟨request, data, ?_, encoded, fun now' => ?_, rfl, rfl, rfl, rfl⟩
  · rw [bootstrapRequest, fromKey_eq]
    rfl
  · obtain ⟨data', encoded', -, decoded⟩ := PrismMessage.decode_encode cbor builtins now' typed
    obtain rfl := Except.ok.inj (encoded.symm.trans encoded')
    exact decoded

variable (cbor builtins) in
/-- The message is a response to a client with a half key: it carries, encrypted for the half key,
what a server answers. -/
structure Responds (self : ClientRegistration pbc) (clientName : String) (nonce : Bytes)
    (halfKey : package.PrivateKey) (response : PrismMessage) : Prop where
  type : response.get .msgType = .enum (.type .encryptRegistrationMessage)
  encrypted : ∃ data now, Encrypted package response halfKey data ∧
    ∀ now', PrismMessage.decode cbor builtins now' data =
      .ok (some (registrationResponse self now clientName (.bytes nonce)))

theorem Responds.arrived {self : ClientRegistration pbc} {clientName : String} {nonce : Bytes}
    {halfKey : package.PrivateKey} {response arrived : PrismMessage}
    (responds : Responds cbor builtins self clientName nonce halfKey response)
    (same : PrismMessage.SameBut [.debugInfo] response arrived) :
    Responds cbor builtins self clientName nonce halfKey arrived := by
  obtain ⟨type, data, now, ⟨sender, iv, ciphertext, iv_ne, ciphertext_ne, key, atNonce,
    atCiphertext, back⟩, decoded⟩ := responds
  refine ⟨(same .msgType (by decide) (by decide)).trans type, data, now, ?_, decoded⟩
  exact ⟨sender, iv, ciphertext, iv_ne, ciphertext_ne,
    (same .halfKey (by decide) (by decide)).trans key,
    (same .nonce (by decide) (by decide)).trans atNonce,
    (same .ciphertext (by decide) (by decide)).trans atCiphertext, back⟩

/-- **A request is answered**, for the half key that it carries. -/
theorem registerClient_ok (self : ClientRegistration pbc) (distributedKeys : DistributedKeys)
    {request : PrismMessage} {clientName : String} {nonce : Bytes} {halfKey : package.PrivateKey}
    (named : request.get .name = .str clientName) (noted : request.get .nonce = .bytes nonce)
    (keyed : request.get .halfKey = halfKeyMap package (package.publicKey halfKey))
    (draws : ResponseDraws package) :
    ∃ data response, response.Typed ∧ response.get .debugInfo = .none ∧
      (∀ now, PrismMessage.decode cbor builtins now data = .ok (some response)) ∧
      Responds cbor builtins self clientName nonce halfKey response ∧
      registerClient cbor builtins self distributedKeys request draws =
        .ok (dictSet distributedKeys clientName (some nonce), {
          receiver := clientName
          sender := some self.name
          messageBytes := some data
          nonce := some draws.clearNonce
          timestamp := some draws.timestamp
          useIbe := false : ClearText SpanContext }) := by
  let fresh := draws.fresh
  let inner := registrationResponse self fresh.now clientName (.bytes nonce)
  have innerTyped : inner.Typed := by
    refine PrismMessage.typed_create ?_
    simp only [List.forall_mem_cons, List.not_mem_nil, false_implies, implies_true, and_true]
    exact ⟨rfl, rfl, rfl⟩
  obtain ⟨innerData, ciphertext, encrypted, ciphertext_ne, back, decoded⟩ :=
    @encrypt_ok package cbor builtins _ innerTyped fresh.privateKey (package.publicKey halfKey) _
      fresh.nonce_ne_nil
  let response := PrismMessage.create fresh.now .encryptRegistrationMessage
    [(.cipher, .enum (.cipher .aesGcm)), (.ciphertext, .bytes ciphertext),
      (.nonce, .bytes fresh.nonce),
      (.halfKey, halfKeyMap package (package.publicKey fresh.privateKey))]
  have typed : response.Typed := by
    refine PrismMessage.typed_create ?_
    simp only [List.forall_mem_cons, List.not_mem_nil, false_implies, implies_true, and_true]
    exact ⟨rfl, rfl, rfl, rfl⟩
  obtain ⟨data, encoded, -, -⟩ := PrismMessage.decode_encode cbor builtins 0 typed
  refine ⟨data, response, typed, rfl, fun now => ?_, ⟨rfl, innerData, fresh.now, ?_, decoded⟩, ?_⟩
  · obtain ⟨data', encoded', -, decoded⟩ := PrismMessage.decode_encode cbor builtins now typed
    obtain rfl := Except.ok.inj (encoded.symm.trans encoded')
    exact decoded
  · exact ⟨fresh.privateKey, fresh.nonce, ciphertext, fresh.nonce_ne_nil, ciphertext_ne, rfl, rfl,
      rfl, back⟩
  · unfold registerClient
    rw [named, keyed, noted]
    dsimp only [Value.text?]
    rw [toKey_halfKeyMap, ok_bind]
    dsimp only
    rw [show registrationResponse self draws.fresh.now clientName (.bytes nonce) = inner from rfl,
      encrypted, ok_bind, fromKey_eq, ok_bind, show PrismMessage.create draws.fresh.now
        .encryptRegistrationMessage _ = response from rfl, encoded]
    rfl

/-- The text of the key that a server answers with. -/
def keyText (self : ClientRegistration pbc) (clientName : String) : String :=
  String.ofList (self.ibe.params.generatePrivateKey self.ibe.secret (utf8 clientName))

/-- **A response is taken down** by the client that it is for. -/
theorem processRegistration_ok {config : ClientConfig package} {self : ClientRegistration pbc}
    {nonce : Bytes} {halfKey : package.PrivateKey} {response : PrismMessage}
    (responds : Responds cbor builtins self config.name nonce halfKey response)
    (keyed : config.registrationHalfkey = some halfKey)
    (asked : config.registrationNonces.lookup self.name = some nonce)
    (client : PrismClient G SpanContext) (now : ℤ) :
    client.processEncryptedRegistrationMessage cbor builtins config pbc now response =
      if (dictSet client.registrationKeys self.name (keyText self config.name)).length =
          config.registrationNonces.length then do
        let key ← PrismClient.loadPrivateKeys pbc
          ((dictSet client.registrationKeys self.name (keyText self config.name)).map Prod.snd)
        return { client with
          registrationKeys := dictSet client.registrationKeys self.name (keyText self config.name)
          key := some key }
      else .ok { client with
        registrationKeys :=
          dictSet client.registrationKeys self.name (keyText self config.name) } := by
  obtain ⟨-, data, made, encrypted, decoded⟩ := responds
  rw [PrismClient.processEncryptedRegistrationMessage, keyed]
  dsimp only
  rw [encrypted.decrypt_eq (decoded now), ok_bind]
  have type : (registrationResponse self made config.name (.bytes nonce)).get .msgType =
    .enum (.type .clientRegistrationResponse) := rfl
  have text : (registrationResponse self made config.name (.bytes nonce)).get .messagetext =
    .str (keyText self config.name) := rfl
  have named : (registrationResponse self made config.name (.bytes nonce)).get .name =
    .str self.name := rfl
  dsimp only
  rw [type, text, named]
  dsimp only [Value.text?]
  rw [asked]
  exact if_pos rfl

end

/-! ### The shards of a committee -/

section

/-- Setting an entry of a dictionary that has the right values. -/
theorem dictSet_map {ι κ β : Type} [DecidableEq ι] [DecidableEq κ] {key : ι → κ}
    (injective : Function.Injective key) (value : ι → β) (is : List ι) (i : ι) :
    dictSet (is.map fun i => (key i, value i)) (key i) (value i) =
      (if i ∈ is then is else is ++ [i]).map fun i => (key i, value i) := by
  have keys : key i ∈ (is.map fun i => (key i, value i)).map Prod.fst ↔ i ∈ is := by
    rw [List.map_map]
    exact List.mem_map_of_injective injective
  unfold dictSet
  simp only [keys]
  split_ifs
  · rw [List.map_map]
    refine List.map_congr_left fun j _ => ?_
    change (if key j = key i then _ else _) = _
    split_ifs with same
    · rw [injective same]
    · rfl
  · rw [List.map_append]
    rfl

theorem serverName_injective (committeeName : String) :
    Function.Injective (serverName committeeName) := by
  intro i j same
  have chars := congrArg String.toList same
  simp only [serverName, String.toList_append, List.append_cancel_left_eq] at chars
  exact Nat.succ_injective (Vrf.repr_injective (String.toList_inj.mp chars))

/-- A list with all indices. -/
theorem toFinset_eq_univ {n : ℕ} {is : List (Fin n)} (nodup : is.Nodup) (all : is.length = n) :
    is.toFinset = Finset.univ := by
  refine Finset.eq_univ_of_card _ ?_
  rw [List.toFinset_card_of_nodup nodup, all, Fintype.card_fin]

variable {G T : Type} [AddCommGroup G] [CommGroup T] {pbc : Pbc G T} {package : CryptoPackage}
  {ssl : OpenSsl} {gmp : SecretText} (committee : Committee pbc package ssl gmp)

namespace Committee

/-- The private key that the whole system has for a name. -/
def keyOf (name : String) : Option G :=
  match committee.ibe.privateKey (utf8 name) with
  | .ok text => some (parsePrivateKey pbc text)
  | .error _ => none

theorem server_injective : Function.Injective committee.server := by
  intro i j same
  exact Fin.ext (serverName_injective _ same)

/-- The secret of a shard. -/
def secret (i : committee.Server) : ℕ := (committee.ibe.ibeShards.get i).secret

/-- The shards are those of a system, by their secrets. -/
structure Cut (base : BFPublicParameters pbc) : Prop where
  secured : base.Secured ssl
  nonempty : 0 < committee.ibe.ibeShards.length
  shard : ∀ i, (committee.ibe.ibeShards.get i).params = base.withSecret (committee.secret i)
  publicParams : committee.publicParams = (base.withSecret (∑ i, committee.secret i)).toString
  privateKey : ∀ name, committee.ibe.privateKey (utf8 name) =
    .ok (formatPrivateKey pbc ((∑ i, committee.secret i) • base.bfGeneratePublicKey (utf8 name)))

/-- **A system that was created is cut** into the shards of its servers. -/
theorem exists_cut : ∃ base, committee.Cut base := by
  obtain ⟨_, shards, level, draws, file, created⟩ := committee.created
  obtain ⟨base, s, rest, secured, listed, -, texts⟩ := GeneratedIBE.shards_of_create created
  have sum : ∑ i, committee.secret i = s + rest.sum := by
    refine (Fin.sum_univ_fun_getElem committee.ibe.ibeShards BonehFranklin.secret).trans ?_
    rw [listed, List.map_map]
    exact (congrArg List.sum (List.map_id (s :: rest))).trans List.sum_cons
  refine ⟨base, secured, ?_, fun i => ?_, ?_, fun name => ?_⟩
  · rw [listed, List.length_map]
    exact Nat.succ_pos _
  · have mem : committee.ibe.ibeShards.get i ∈ (s :: rest).map fun s => ⟨base.withSecret s, s⟩ :=
      listed ▸ List.get_mem _ i
    obtain ⟨s', -, is⟩ := List.mem_map.mp mem
    rw [secret, ← is]
  · rw [sum]
    exact Option.some.inj (committee.publicParams_eq.symm.trans texts)
  · rw [sum]
    exact privateKey_of_shards listed (utf8 name)

variable {committee} {base : BFPublicParameters pbc} (cut : committee.Cut base)

include cut

theorem Cut.system : committee.system = base.withSecret (∑ i, committee.secret i) := by
  have loaded := load_of_texts cut.secured (∑ i, committee.secret i) none
  rw [← cut.publicParams] at loaded
  exact congrArg UserIBE.params (Except.ok.inj (committee.system_eq.symm.trans loaded))

theorem Cut.keyOf (name : String) : committee.keyOf name =
    some ((∑ i, committee.secret i) • base.bfGeneratePublicKey (utf8 name)) := by
  rw [Committee.keyOf, cut.privateKey]
  exact congrArg some (parse_format _)

/-- Each server has the key for its name. -/
theorem Cut.serverKey (i : committee.Server) :
    committee.keyOf (committee.server i) = some (committee.serverKey i) := by
  obtain ⟨text, keyed, loaded⟩ := committee.serverKey_eq i
  have texts := load_of_texts cut.secured (∑ j, committee.secret j)
    (some ((∑ j, committee.secret j) • base.bfGeneratePublicKey (utf8 (committee.server i))))
  rw [Option.map_some, ← cut.publicParams] at texts
  obtain rfl := Except.ok.inj (keyed.symm.trans (cut.privateKey (committee.server i)))
  rw [cut.keyOf]
  exact congrArg UserIBE.key (Except.ok.inj (texts.symm.trans loaded))

theorem Cut.keyText (i : committee.Server) (name : String) :
    keyText (committee.registration i) name =
      String.ofList (formatPrivateKey pbc
        (committee.secret i • base.bfGeneratePublicKey (utf8 name))) := by
  rw [Bootstrap.keyText, registration, cut.shard]
  rfl

/-- **The keys of all shards make the key of the system**, in whatever order they came. -/
theorem Cut.loadPrivateKeys {answered : List committee.Server} (nodup : answered.Nodup)
    (all : answered.length = committee.ibe.ibeShards.length) (name : String) :
    ∃ key, PrismClient.loadPrivateKeys pbc
        (answered.map fun i => Bootstrap.keyText (committee.registration i) name) = .ok key ∧
      committee.keyOf name = some key := by
  have sum : (answered.map committee.secret).sum = ∑ i, committee.secret i := by
    rw [← toFinset_eq_univ nodup all, List.sum_toFinset _ nodup]
  cases answered with
  | nil => exact absurd cut.nonempty (by rw [← all]; exact lt_irrefl _)
  | cons first rest =>
      refine ⟨_, ?_, cut.keyOf name⟩
      have texts : (rest.map fun i => Bootstrap.keyText (committee.registration i) name).map
          String.toList = (rest.map committee.secret).map fun s =>
            formatPrivateKey pbc (s • base.bfGeneratePublicKey (utf8 name)) := by
        rw [List.map_map, List.map_map]
        refine List.map_congr_left fun i _ => ?_
        change (Bootstrap.keyText _ _).toList = _
        rw [cut.keyText, String.toList_ofList]
        rfl
      rw [List.map_cons, PrismClient.loadPrivateKeys, texts, cut.keyText, String.toList_ofList,
        sumSecrets_eq, parse_format, ← sum, List.map_cons, List.sum_cons]

end Committee

/-- A committee for the system of two shards, and a client. -/
theorem exists_committee :
    Nonempty (Committee examplePbc CryptoPackage.additive exampleSsl exampleGmp) := by
  obtain ⟨ibe, created, -⟩ := GeneratedIBE.example_created
  obtain ⟨base, s, rest, secured, listed, -, texts⟩ := GeneratedIBE.shards_of_create created
  exact ⟨{
    ibe
    created := ⟨inferInstance, _, _, _, _, created⟩
    publicParams := _
    publicParams_eq := texts
    system := _
    system_eq := load_of_texts secured _ none
    committeeName := "committee"
    serverKey := _
    serverKey_eq := fun i => ⟨_, privateKey_of_shards listed _, load_of_texts secured _ (some _)⟩
    clients := 1
    clientName := fun _ => "client"
    halfkey := fun _ => [1]
    nonce := fun _ i => [UInt8.ofNat i]
    distinct := fun c c' _ => Subsingleton.elim c c'
    apart := fun c i same => by
      have chars := congrArg String.toList same
      simp [serverName] at chars
    maxPlaintextSize := 1024
    short := fun _ => show 1 < 2 ^ 30 by decide }⟩

end

end Prism.Client.Bootstrap
