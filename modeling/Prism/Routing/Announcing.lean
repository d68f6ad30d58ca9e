import Prism.Lib.Handler
import Prism.Lib.Machine
import Prism.Routing.ArkStore
import Prism.Routing.Flood

/-!
A server role that learns announcements (`prism/server/CS2/roles/announcing_role.py`,
`prism/server/routing/router_ls.py`).

Announcements reach the store of a server on several ways: the listen loop takes those that are
addressed to it and verifies them; a link state packet carries the announcement of its router,
directly, in a flood, or in the database of a neighbor; and the server announces itself. What
a flood or a forwarded message holds is put on the local link, and is received from there.

* `handleLsp_verified_iff`: a packet keeps a store in which all announcements are verified
  exactly when it carries none that is kept without being verified.
* `AnnouncingRole.Guarded`: the messages whose packets are such.
* `receive_sound`, `announce_sound`: what a role does keeps the store verified.
-/

namespace Prism.Routing

open Lib Crypto Vrf

/-- What a role computes with: the packages, the keys that it trusts, and its settings. -/
structure RoleEnv where
  cbor : Cbor2
  builtins : Builtins
  sha : Sha256
  pem : PemFormat
  x509 : X509
  cryptographyAvailable : Bool
  vrfSortition : Option VRFSortition
  rootCertificate : Option x509.Certificate
  serverKey : Option x509.PrivateKey
  shortestPath : ShortestPath
  lsHopsMax : ℤ
  lsTtlMax : ℤ

/-- The type of a message. -/
def msgTypeOf (message : PrismMessage) : Option TypeEnum :=
  match message.get .msgType with
  | .enum (.type msgType) => some msgType
  | _ => none

/-- A role: the network of its router with the neighbors, the announcements, the floods it has
seen, and the messages on the local link. -/
structure AnnouncingRole where
  network : LinkStateNetwork
  arkStore : ArkStore
  floodDb : FloodDB := []
  localLink : List PrismMessage := []

/-- What an announcement is made of, besides the pseudonym: `ark_data`, the times and the nonce,
of the declared types. -/
structure ArkData where
  nonce : Value
  certificate : Value
  role : Value
  kwargs : List (FieldName × Value)
  typed : ∀ arg ∈ (.certificate, certificate) :: (.role, role) :: (.nonce, nonce) :: kwargs,
    argumentTyped .prismMessage arg = true

namespace AnnouncingRole

/-- What a role does. -/
abbrev Program := Handler AnnouncingRole PyError PUnit

/-! ### Handlers -/

section Handlers

variable (env : RoleEnv) (now : ℤ)

/-- `network.update`. -/
def updateNetwork (lsp : Lsp) : Handler AnnouncingRole PyError Bool := do
  let role ← get
  modify fun role => { role with network := (role.network.update env.shortestPath now lsp).1 }
  Handler.lift (role.network.update env.shortestPath now lsp).2

/-- `ark_store.record`. -/
def recordArk (ark : PrismMessage) (rebroadcast : Bool) : Program := do
  let role ← get
  let arkStore ← Handler.lift (role.arkStore.record now ark rebroadcast)
  modify fun role => { role with arkStore }

/-- `local_link.send`. -/
def sendLocal : Option PrismMessage → Program
  | some message => modify fun role => { role with localLink := role.localLink ++ [message] }
  | none => throw .attributeError

/-- `handle_lsp`, of a message or of `None`. -/
def handleLsp : Option PrismMessage → Program
  | none => throw .attributeError
  | some message => do
    let lsp ← Handler.lift (Lsp.ofMessage message)
    match validateTtl env.lsTtlMax now lsp.microTimestamp lsp.ttl with
    | none => return
    | some ttl =>
      if ← updateNetwork env now { lsp with ttl } then
        match lsp.subMsg with
        | some ark => recordArk now ark false
        | none => return
      else return

/-- The elements of `submessages`. -/
def submessagesOf (message : PrismMessage) : Option (List (Option PrismMessage)) :=
  match message.get .submessages with
  | .list messages => some (messages.map PrismMessage.ofValue?)
  | _ => none

/-- `handle_db_response`: the name of the neighbor is logged first. -/
def handleDbResponse (message : PrismMessage) : Program := do
  match submessagesOf message with
  | none => throw .typeError
  | some lsps =>
    let role ← get
    if ((message.get .sender).bytes?.bind fun sender =>
        role.network.neighborhood.lookup sender).isNone then throw .attributeError
    else lsps.forM fun lsp => handleLsp env now lsp

/-- `handle_flood`, as far as it concerns the role itself. -/
def handleFloodMessage (message : PrismMessage) : Program := do
  let flood ← Handler.lift (FloodMsg.ofMessage message)
  let role ← get
  let handled := handleFlood env.lsHopsMax env.lsTtlMax now role.floodDb flood
  modify fun role =>
    { role with floodDb := handled.db, localLink := role.localLink ++ handled.delivered.toList }

/-- `handle_forward`, as far as it concerns the role itself. -/
def handleForwarded (message : PrismMessage) : Program := do
  let role ← get
  if pseudonymOf message = some role.arkStore.ownPseudonym then
    sendLocal (PrismMessage.ofValue? (message.get .subMsg))
  else return

/-- `ark_listen_loop`, of a message that matches the `ArkHook`. -/
def arkListen (message : PrismMessage) : Program := do
  let role ← get
  if pseudonymOf message ≠ some role.arkStore.ownPseudonym then
    if ← Handler.lift (verifyArk env.cbor env.builtins now env.sha env.pem env.x509
        env.cryptographyAvailable message env.vrfSortition env.rootCertificate) then
      recordArk now message false
    else return
  else return

/-- The time at which a neighbor was last heard of. -/
def heardFrom (sender : Bytes) (role : AnnouncingRole) : AnnouncingRole :=
  { role with network := { role.network with
      neighborhood := role.network.neighborhood.map fun e =>
        if e.1 = sender then (e.1, { e.2 with lastReceived := now }) else e } }

/-- The beginning of a turn of `receive_loop`. A sender that is missing cannot be logged. -/
def noteSource (message : PrismMessage) : Program := do
  match (message.get .sender).bytes? with
  | some sender => modify (heardFrom now sender)
  | none =>
    if msgTypeOf message = some .lsp ∨ msgTypeOf message = some .encLspFwdAddr then return
    else throw .attributeError

/-- A message is received, from a link or from the local one. The other messages do not concern
the announcements. -/
def receive (message : PrismMessage) : Program := do
  match msgTypeOf message with
  | some .announceRoleKey => arkListen env now message
  | some .lsp => do
    noteSource now message
    handleLsp env now (some message)
  | some .lspFwd => do
    noteSource now message
    handleForwarded message
  | some .lspFlood => do
    noteSource now message
    handleFloodMessage env now message
  | some .lspDatabaseResponse => do
    noteSource now message
    handleDbResponse env now message
  | _ => return

/-- `create_ARK`, where `ark_data` may give another nonce. -/
def createArk (data : ArkData) (pseudonym : Bytes) : PrismMessage :=
  PrismMessage.create now .announceRoleKey
    ([(.certificate, data.certificate), (.pseudonym, .bytes pseudonym), (.role, data.role)] ++
      data.kwargs ++ [(.nonce, data.nonce)])

/-- One turn of `ark_update_loop`: the server announces itself. -/
def announce (data : ArkData) : Program := do
  let self ← get
  let signed ← Handler.lift (signArk env.cbor env.builtins now env.sha env.x509
    (createArk now data self.arkStore.ownPseudonym) env.serverKey)
  recordArk now signed true

/-- `send_lsp`: the packet of the server, on its local link. -/
def sendLsp (name : Value) (lsTimeToLive timeout : ℤ) : Program := do
  let self ← get
  sendLocal (some (PrismMessage.create now .lsp
    [(.name, name),
     (.pseudonym, .bytes self.arkStore.ownPseudonym),
     (.microTimestamp, .int now),
     (.ttl, .int lsTimeToLive),
     (.neighbors, .list ((self.network.neighborhood.filter fun e => e.2.online now timeout).map
       fun e => .object .neighborInfoMap [.bytes e.2.pseudonym, .int 1])),
     (.subMsg, (self.arkStore.ownArk.map PrismMessage.toValue).getD .none)]))

end Handlers

/-! ### Runs -/

/-- What happens to a role. -/
inductive Event where
  | receive (message : PrismMessage) (now : ℤ)
  | receiveLocal (place : ℕ) (now : ℤ)
  | announce (data : ArkData) (now : ℤ)
  | sendLsp (name : Value) (lsTimeToLive timeout now : ℤ)
  | removeExpired (now : ℤ)

section Runs

variable (env : RoleEnv)

/-- `_remove_expired` of the network. -/
def removeExpired (now : ℤ) : Program := do
  let role ← get
  modify fun role => { role with network := (role.network.removeExpired env.shortestPath now).1 }
  Handler.lift (role.network.removeExpired env.shortestPath now).2

/-- A message is taken from the local link. -/
def receiveLocal (place : ℕ) (now : ℤ) : Program := do
  let role ← get
  match role.localLink[place]? with
  | none => return
  | some message => do
    modify fun role => { role with localLink := role.localLink.eraseIdx place }
    receive env now message

/-- One event. -/
def handle : Event → Program
  | .receive message now => receive env now message
  | .receiveLocal place now => receiveLocal env place now
  | .announce data now => announce env now data
  | .sendLsp name lsTimeToLive timeout now => sendLsp now name lsTimeToLive timeout
  | .removeExpired now => removeExpired env now

/-- **The role** from a state on. -/
def machine (init : AnnouncingRole) : Machine AnnouncingRole Event (Py PUnit) where
  init
  step role event := (handle env event).exec role

end Runs

/-! ### Packets that are guarded -/

section Packets

variable {env : RoleEnv} {now : ℤ} {role : AnnouncingRole} {message : PrismMessage}

/-- `verify_ARK` accepts the announcement. -/
def Verified (env : RoleEnv) (ark : PrismMessage) : Prop :=
  ∃ now, verifyArk env.cbor env.builtins now env.sha env.pem env.x509 env.cryptographyAvailable
    ark env.vrfSortition env.rootCertificate = .ok true

/-- **Every announcement in the store but the server's own is verified.** -/
structure Sound (env : RoleEnv) (role : AnnouncingRole) : Prop where
  keyed : role.arkStore.Keyed
  verified : role.arkStore.Holds (Verified env)

/-- **What a packet puts into the store**: it is from no time in the future, newer than the one
that is known, the routing table can be computed with it, and it carries an announcement of
another server that is kept. -/
def Carries (env : RoleEnv) (now : ℤ) (role : AnnouncingRole) (message ark : PrismMessage) : Prop :=
  ∃ lsp ttl, Lsp.ofMessage message = .ok lsp ∧
    validateTtl env.lsTtlMax now lsp.microTimestamp lsp.ttl = some ttl ∧
    (role.network.update env.shortestPath now { lsp with ttl }).2 = .ok true ∧
    lsp.subMsg = some ark ∧ role.arkStore.Takes now ark ∧
    pseudonymOf ark ≠ some role.arkStore.ownPseudonym

theorem exec_updateNetwork (lsp : Lsp) :
    (updateNetwork env now lsp).exec role =
      ({ role with network := (role.network.update env.shortestPath now lsp).1 },
        (role.network.update env.shortestPath now lsp).2) := rfl

theorem exec_recordArk (ark : PrismMessage) (rebroadcast : Bool) :
    (recordArk now ark rebroadcast).exec role =
      match role.arkStore.record now ark rebroadcast with
      | .ok arkStore => ({ role with arkStore }, .ok ⟨⟩)
      | .error e => (role, .error e) := by
  rw [recordArk, Handler.exec_bind_of_ok (Handler.exec_get role), Handler.exec_bind,
    Handler.exec_lift]
  cases role.arkStore.record now ark rebroadcast <;> rfl

/-- An announcement that is verified or the server's own, or that is not kept, may be recorded. -/
theorem Sound.recordArk (sound : Sound env role) {ark : PrismMessage} {rebroadcast : Bool}
    (new : role.arkStore.Takes now ark → pseudonymOf ark ≠ some role.arkStore.ownPseudonym →
      Verified env ark) :
    Sound env ((recordArk now ark rebroadcast).exec role).1 := by
  rw [exec_recordArk]
  rcases run : role.arkStore.record now ark rebroadcast with e | store
  · exact sound
  · exact ⟨(ArkStore.mem_record sound.keyed run).2.1, sound.verified.record sound.keyed run new⟩

/-- What a packet does. -/
theorem exec_handleLsp (env : RoleEnv) (now : ℤ) (role : AnnouncingRole) (message : PrismMessage) :
    (handleLsp env now (some message)).exec role =
      match Lsp.ofMessage message with
      | .error e => (role, .error e)
      | .ok lsp =>
        match validateTtl env.lsTtlMax now lsp.microTimestamp lsp.ttl with
        | none => (role, .ok ⟨⟩)
        | some ttl =>
          let updated := role.network.update env.shortestPath now { lsp with ttl }
          match updated.2, lsp.subMsg with
          | .ok true, some ark => (recordArk now ark false).exec { role with network := updated.1 }
          | .ok _, _ => ({ role with network := updated.1 }, .ok ⟨⟩)
          | .error e, _ => ({ role with network := updated.1 }, .error e) := by
  unfold handleLsp
  rw [Handler.exec_bind, Handler.exec_lift]
  rcases Lsp.ofMessage message with e | lsp
  · rfl
  dsimp only
  rcases validateTtl env.lsTtlMax now lsp.microTimestamp lsp.ttl with _ | ttl
  · rfl
  dsimp only
  rw [Handler.exec_bind, exec_updateNetwork]
  rcases (role.network.update env.shortestPath now { lsp with ttl }).2 with e | _ | _
  · rfl
  · rfl
  · dsimp only
    rcases lsp.subMsg with _ | ark <;> rfl

/-- **A packet keeps the store verified exactly when** what it puts there is verified. -/
theorem handleLsp_verified_iff (sound : Sound env role) :
    Sound env ((handleLsp env now (some message)).exec role).1 ↔
      ∀ ark, Carries env now role message ark → Verified env ark := by
  rw [exec_handleLsp]
  rcases read : Lsp.ofMessage message with e | lsp
  · refine iff_of_true sound ?_
    rintro ark ⟨_, _, read', -⟩
    rw [read] at read'
    cases read'
  dsimp only
  rcases timely : validateTtl env.lsTtlMax now lsp.microTimestamp lsp.ttl with _ | ttl
  · refine iff_of_true sound ?_
    rintro ark ⟨_, _, read', timely', -⟩
    rw [read] at read'
    cases read'
    rw [timely] at timely'
    cases timely'
  have carries : ∀ ark, Carries env now role message ark ↔
      (role.network.update env.shortestPath now { lsp with ttl }).2 = .ok true ∧
        lsp.subMsg = some ark ∧ role.arkStore.Takes now ark ∧
        pseudonymOf ark ≠ some role.arkStore.ownPseudonym := by
    intro ark
    constructor
    · rintro ⟨_, _, read', timely', rest⟩
      rw [read] at read'
      cases read'
      rw [timely] at timely'
      cases timely'
      exact rest
    · exact fun rest => ⟨lsp, ttl, read, timely, rest⟩
  simp only [carries]
  set updated := role.network.update env.shortestPath now { lsp with ttl }
  have between : Sound env { role with network := updated.1 } := ⟨sound.keyed, sound.verified⟩
  rcases updated.2 with e | _ | _
  · exact iff_of_true between (by simp)
  · exact iff_of_true between (by simp)
  rcases lsp.subMsg with _ | ark
  · exact iff_of_true between (by simp)
  dsimp only
  constructor
  · rintro after _ ⟨-, ⟨⟩, takes, other⟩
    obtain ⟨store, -, run, -⟩ := ArkStore.record_takes takes
    rw [exec_recordArk] at after
    simp only [run] at after
    exact after.verified.of_record sound.keyed run takes other
  · intro guarded
    exact between.recordArk fun takes other => guarded ark ⟨rfl, rfl, takes, other⟩

end Packets

/-! ### Messages that are guarded -/

/-- The packets in a message. -/
def lspsOf (message : PrismMessage) : List (Option PrismMessage) :=
  match msgTypeOf message with
  | some .lsp => [some message]
  | some .lspDatabaseResponse => (submessagesOf message).getD []
  | _ => []

/-- **A message is guarded**: what its packets put into the store is verified, each one in the
state that it finds. -/
def Guarded (env : RoleEnv) (now : ℤ) (role : AnnouncingRole) (message : PrismMessage) : Prop :=
  ∀ before lsp after, lspsOf message = before ++ some lsp :: after → ∀ found,
    (before.forM fun lsp => handleLsp env now lsp).exec ((noteSource now message).exec role).1 =
      (found, .ok ⟨⟩) → ∀ ark, Carries env now found lsp ark → Verified env ark

section Messages

variable {env : RoleEnv} {now : ℤ} {role : AnnouncingRole} {message : PrismMessage}

/-- A message without packets is guarded. -/
theorem Guarded.of_none (none : lspsOf message = []) : Guarded env now role message := by
  intro before lsp after split
  rw [none] at split
  exact absurd split (by simp)

/-- A packet is guarded when its announcement is verified. -/
theorem Guarded.of_lsp (type : msgTypeOf message = some .lsp)
    (verified : ∀ ark, PrismMessage.ofValue? (message.get .subMsg) = some ark → Verified env ark) :
    Guarded env now role message := by
  rintro before lsp after split found - ark ⟨packet, ttl, read, -, -, content, -⟩
  rw [lspsOf, type] at split
  obtain _ | ⟨_, before⟩ := before
  · obtain ⟨⟨⟩, -⟩ := List.cons_eq_cons.mp split
    obtain ⟨_, -, read⟩ := bind_eq_ok.mp read
    obtain ⟨_, -, read⟩ := bind_eq_ok.mp read
    cases read
    exact verified ark content
  · exact absurd split (by simp)

/-- Only the store matters. -/
theorem Sound.of_arkStore {role' : AnnouncingRole} (sound : Sound env role)
    (same : role'.arkStore = role.arkStore) : Sound env role' :=
  ⟨same ▸ sound.keyed, same ▸ sound.verified⟩

theorem noteSource_keeps (now : ℤ) (message : PrismMessage) :
    Handler.Keeps (Sound env) (noteSource now message) := by
  unfold noteSource
  rcases (message.get .sender).bytes? with _ | sender
  · dsimp only
    split_ifs
    · exact .pure _
    · exact .throw _
  · exact .modify fun _ sound => sound.of_arkStore rfl

theorem sendLocal_keeps (message : Option PrismMessage) :
    Handler.Keeps (Sound env) (sendLocal message) := by
  cases message with
  | none => exact .throw _
  | some message => exact .modify fun _ sound => sound.of_arkStore rfl

theorem handleForwarded_keeps (message : PrismMessage) :
    Handler.Keeps (Sound env) (handleForwarded message) := by
  refine .bind .get fun role => ?_
  split_ifs
  · exact sendLocal_keeps _
  · exact .pure _

theorem handleFloodMessage_keeps (now : ℤ) (message : PrismMessage) :
    Handler.Keeps (Sound env) (handleFloodMessage env now message) :=
  .bind (.lift _) fun _ => .bind .get fun _ => .modify fun _ sound => sound.of_arkStore rfl

/-- The listen loop records what it has verified. -/
theorem arkListen_keeps (now : ℤ) (message : PrismMessage) :
    Handler.Keeps (Sound env) (arkListen env now message) := by
  intro role sound
  rw [arkListen, Handler.exec_bind_of_ok (Handler.exec_get role)]
  split_ifs with other
  · rw [Handler.exec_bind, Handler.exec_lift]
    rcases accepted : verifyArk env.cbor env.builtins now env.sha env.pem env.x509
      env.cryptographyAvailable message env.vrfSortition env.rootCertificate with e | _ | _
    · exact sound
    · exact sound
    · exact sound.recordArk fun _ _ => ⟨now, accepted⟩
  · exact sound

/-- The packets of a guarded message keep the store verified. -/
theorem handleLsps_sound {lsps : List (Option PrismMessage)} (sound : Sound env role)
    (guarded : ∀ before lsp after, lsps = before ++ some lsp :: after → ∀ found,
      (before.forM fun lsp => handleLsp env now lsp).exec role = (found, .ok ⟨⟩) →
        ∀ ark, Carries env now found lsp ark → Verified env ark) :
    Sound env ((lsps.forM fun lsp => handleLsp env now lsp).exec role).1 := by
  refine Handler.forM_induction sound fun before lsp after split found run sound => ?_
  cases lsp with
  | none => exact sound
  | some lsp => exact (handleLsp_verified_iff sound).mpr (guarded before lsp after split found run)

/-- **A guarded message keeps the store verified.** -/
theorem receive_sound (sound : Sound env role) (guarded : Guarded env now role message) :
    Sound env ((receive env now message).exec role).1 := by
  have heard : Sound env ((noteSource now message).exec role).1 :=
    noteSource_keeps now message role sound
  unfold Guarded lspsOf at guarded
  unfold receive
  split
  · exact arkListen_keeps now message role sound
  · next type =>
      rw [type] at guarded
      rw [Handler.exec_bind]
      rcases run : (noteSource now message).exec role with ⟨found, e | ⟨⟩⟩
      · rwa [run] at heard
      · rw [run] at heard guarded
        exact (handleLsp_verified_iff heard).mpr (guarded [] message [] rfl found rfl)
  · exact (noteSource_keeps now message).bind (fun _ => handleForwarded_keeps message) role sound
  · exact (noteSource_keeps now message).bind (fun _ => handleFloodMessage_keeps now message) role
      sound
  · next type =>
      rw [type] at guarded
      rw [Handler.exec_bind]
      rcases run : (noteSource now message).exec role with ⟨found, e | ⟨⟩⟩
      · rwa [run] at heard
      · rw [run] at heard guarded
        unfold handleDbResponse
        rcases read : submessagesOf message with _ | lsps
        · exact heard
        · dsimp only
          rw [Handler.exec_bind_of_ok (Handler.exec_get found)]
          split_ifs
          · exact heard
          · rw [read] at guarded
            exact handleLsps_sound heard guarded
  · exact sound

end Messages

/-! ### The own announcement -/

section Own

variable {env : RoleEnv} {now : ℤ} {role : AnnouncingRole}

/-- A signature changes no other field. -/
theorem signArk_get {ark signed : PrismMessage} {key : Option env.x509.PrivateKey}
    (typed : ark.Typed)
    (run : signArk env.cbor env.builtins now env.sha env.x509 ark key = .ok signed) {f : FieldName}
    (declared : f ∈ PrismMessage.names) (other : f ≠ .signature) : signed.get f = ark.get f := by
  obtain ⟨_, -, run⟩ := bind_eq_ok.mp run
  cases key with
  | none =>
      cases run
      rfl
  | some key =>
      dsimp only at run
      split_ifs at run with lacking
      · cases run
        rfl
      obtain ⟨_, -, run⟩ := bind_eq_ok.mp run
      obtain ⟨_, -, run⟩ := bind_eq_ok.mp run
      obtain ⟨_, -, run⟩ := bind_eq_ok.mp run
      obtain ⟨s, -, run⟩ := bind_eq_ok.mp run
      obtain ⟨cloned, -⟩ := PrismMessage.clone_single env.builtins now typed
        (@PrismMessage.value_clonable .signature (.scalar .bytes) (.bytes s) rfl rfl rfl)
      rw [cloned] at run
      cases run
      rw [PrismMessage.get_replace typed _ declared, List.lookup_cons, beq_false_of_ne other]
      rfl

theorem createArk_typed (data : ArkData) (pseudonym : Bytes) :
    (createArk now data pseudonym).Typed := by
  apply PrismMessage.typed_create
  intro arg mem
  rcases List.mem_append.mp mem with mem | mem
  · rcases List.mem_append.mp mem with mem | mem
    · simp only [List.mem_cons, List.not_mem_nil, or_false] at mem
      rcases mem with rfl | rfl | rfl
      · exact data.typed _ (by simp)
      · rfl
      · exact data.typed _ (by simp)
    · exact data.typed arg (by simp [mem])
  · rw [List.mem_singleton.mp mem]
    exact data.typed _ (by simp)

theorem createArk_pseudonym (data : ArkData) (pseudonym : Bytes) :
    (createArk now data pseudonym).get .pseudonym = .bytes pseudonym := by
  have declared : ClassName.prismMessage.schema.find? (fun field => field.name = .pseudonym) =
      some ⟨.pseudonym, .scalar .bytes, .absent⟩ := rfl
  rw [createArk, PrismMessage.create, PrismMessage.get, initFields, fieldOf_map declared]
  rfl

/-- **The own announcement** is recorded under the own pseudonym. -/
theorem announce_sound (sound : Sound env role) (data : ArkData) :
    Sound env ((announce env now data).exec role).1 := by
  rw [announce, Handler.exec_bind_of_ok (Handler.exec_get role), Handler.exec_bind,
    Handler.exec_lift]
  rcases run : signArk env.cbor env.builtins now env.sha env.x509
    (createArk now data role.arkStore.ownPseudonym) env.serverKey with e | signed
  · exact sound
  · refine sound.recordArk fun _ other => absurd ?_ other
    rw [pseudonymOf, signArk_get (createArk_typed data _) run (by decide) (by decide),
      createArk_pseudonym]
    rfl

end Own

/-! ### Every run -/

/-- **An event is guarded**: the message that is received is. -/
def Event.Guarded (env : RoleEnv) (role : AnnouncingRole) (_ : List (Event × Py PUnit)) :
    Event → Prop
  | .receive message now => AnnouncingRole.Guarded env now role message
  | .receiveLocal place now => ∀ message, role.localLink[place]? = some message →
      AnnouncingRole.Guarded env now
        { role with localLink := role.localLink.eraseIdx place } message
  | .announce .. | .sendLsp .. | .removeExpired _ => True

section Runs

variable {env : RoleEnv} {role : AnnouncingRole} {history : List (Event × Py PUnit)}

theorem Event.guarded_receive (message : PrismMessage) (now : ℤ) :
    (Event.receive message now).Guarded env role history ↔
      AnnouncingRole.Guarded env now role message :=
  Iff.rfl

/-- **A guarded event keeps the store verified.** -/
theorem handle_sound (sound : Sound env role) {event : Event}
    (guarded : event.Guarded env role history) : Sound env ((handle env event).exec role).1 := by
  cases event with
  | receive message now => exact receive_sound sound guarded
  | receiveLocal place now =>
      rw [handle, receiveLocal, Handler.exec_bind_of_ok (Handler.exec_get role)]
      rcases found : role.localLink[place]? with _ | message
      · exact sound
      · exact receive_sound (sound.of_arkStore rfl) (guarded message found)
  | announce data now => exact announce_sound sound data
  | sendLsp name lsTimeToLive timeout now =>
      exact Handler.Keeps.bind .get (fun _ => sendLocal_keeps _) role sound
  | removeExpired now => exact sound.of_arkStore rfl

/-- **Only verified announcements enter a server's store.** From an empty store on, in every run
whose packets put only verified announcements into the store, every record other than the
server's own holds an announcement that `verify_ARK` accepted. -/
theorem records_verified (init : AnnouncingRole) (empty : init.arkStore.servers = [])
    {events : List Event} (guarded : (machine env init).Admits (Event.Guarded env) events) :
    ∀ e ∈ ((machine env init).run events).1.arkStore.servers,
      e.1 ≠ some ((machine env init).run events).1.arkStore.ownPseudonym →
        Verified env e.2.ark := by
  have sound : Sound env ((machine env init).run events).1 := by
    refine Machine.run_induction (P := fun role _ => Sound env role) _ ?_ ?_ guarded
    · constructor
      · intro e mem
        rw [show (machine env init).init = init from rfl, empty] at mem
        exact absurd mem List.not_mem_nil
      · intro e mem
        rw [show (machine env init).init = init from rfl, empty] at mem
        exact absurd mem List.not_mem_nil
    · exact fun role history event sound here => handle_sound sound here
  exact sound.verified

end Runs

/-! ### A packet with a forged announcement -/

section Forged

/-- A role that trusts the root 1. -/
def exampleEnv : RoleEnv where
  cbor := Cbor.package
  builtins := Builtins.strict
  sha := exampleSha
  pem := examplePem
  x509 := exampleX509
  cryptographyAvailable := true
  vrfSortition := some exampleSortition
  rootCertificate := some (1, 1)
  serverKey := none
  shortestPath _ source := [(source, [source])]
  lsHopsMax := 5
  lsTtlMax := 3600

/-- The server 1, which knows no other one. -/
def exampleRole : AnnouncingRole where
  network := { pseudonym := [1], neighborhood := [] }
  arkStore := { ownPseudonym := [1] }

/-- An announcement of the server 9, with a certificate for the key 2. -/
def announcementOf9 (issuer : UInt8) : PrismMessage :=
  PrismMessage.create 0 .announceRoleKey
    [(.pseudonym, .bytes [9]), (.certificate, .bytes [2, issuer]), (.expiration, .int 100)]

/-- The announcement with a certificate of the root, signed. -/
def signedOf9 : PrismMessage :=
  match signArk Cbor.package Builtins.strict 0 exampleSha exampleX509 (announcementOf9 1)
    (some (2 : UInt8)) with
  | .ok signed => signed
  | .error _ => announcementOf9 1

/-- A packet of the server 9 with an announcement. -/
def packetOf9 (ark : PrismMessage) : PrismMessage :=
  PrismMessage.create 0 .lsp
    [(.pseudonym, .bytes [9]), (.microTimestamp, .int 0), (.ttl, .int 60), (.neighbors, .list []),
     (.subMsg, ark.toValue)]

theorem packetOf9_type (ark : PrismMessage) : msgTypeOf (packetOf9 ark) = some .lsp := rfl

theorem packetOf9_subMsg (ark : PrismMessage) : (packetOf9 ark).get .subMsg = ark.toValue := rfl

theorem signedOf9_verified : Verified exampleEnv signedOf9 := ⟨0, by decide +kernel⟩

/-- A certificate of another issuer is never accepted. -/
theorem forged_not_verified : ¬ Verified exampleEnv (announcementOf9 7) := by
  rintro ⟨now, accepted⟩
  have typed : (announcementOf9 7).Typed := by decide +kernel
  have guards := (verifyArk_iff Cbor.package Builtins.strict now exampleSha examplePem exampleX509
    typed true (some exampleSortition) (some (1, 1))).mp accepted
  have accepted' := (verifyArk_iff Cbor.package Builtins.strict 0 exampleSha examplePem exampleX509
    typed true (some exampleSortition) (some (1, 1))).mpr guards
  revert accepted'
  decide +kernel

/-- The signed announcement comes by itself, and then in a packet. -/
def eventsOf9 : List Event :=
  [] ++ [.receive signedOf9 0] ++ [.receive (packetOf9 signedOf9) 0]

theorem eventsOf9_guarded :
    (machine exampleEnv exampleRole).Admits (Event.Guarded exampleEnv) eventsOf9 := by
  unfold eventsOf9
  simp only [Machine.admits_concat, Machine.admits_nil, true_and, Event.guarded_receive]
  constructor
  · apply Guarded.of_none
    rw [lspsOf, (by decide +kernel : msgTypeOf signedOf9 = some .announceRoleKey)]
  · apply Guarded.of_lsp (packetOf9_type signedOf9)
    intro ark content
    rw [packetOf9_subMsg, PrismMessage.ofValue?_toValue] at content
    rw [← Option.some.inj content]
    exact signedOf9_verified

theorem records_verified_example :
    ((machine exampleEnv exampleRole).run eventsOf9).1.arkStore.servers.map Prod.fst =
        [some [9]] ∧
      ∀ e ∈ ((machine exampleEnv exampleRole).run eventsOf9).1.arkStore.servers,
        e.1 ≠ some ((machine exampleEnv exampleRole).run eventsOf9).1.arkStore.ownPseudonym →
          Verified exampleEnv e.2.ark := by
  constructor
  · decide +kernel
  · exact records_verified exampleRole rfl eventsOf9_guarded

/-- **A forged announcement is recorded** when it comes in a packet, though it is refused when it
comes by itself. -/
theorem forged_recorded :
    (∃ e ∈ ((machine exampleEnv exampleRole).run
        [.receive (packetOf9 (announcementOf9 7)) 0]).1.arkStore.servers,
      e.1 ≠ some exampleRole.arkStore.ownPseudonym ∧ ¬ Verified exampleEnv e.2.ark) ∧
    ((machine exampleEnv exampleRole).run [.receive (announcementOf9 7) 0]).1.arkStore.servers =
      [] := by
  constructor
  · refine ⟨(some [9], ⟨some [9], announcementOf9 7, 100 * 10 ^ 6, 0⟩), ?_, by decide,
      forged_not_verified⟩
    have servers : ((machine exampleEnv exampleRole).run
        [.receive (packetOf9 (announcementOf9 7)) 0]).1.arkStore.servers =
      [(some [9], ⟨some [9], announcementOf9 7, 100 * 10 ^ 6, 0⟩)] := rfl
    rw [servers]
    exact List.mem_singleton_self _
  · rfl

end Forged

end AnnouncingRole

end Prism.Routing
