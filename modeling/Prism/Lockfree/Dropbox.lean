import Prism.Lib.Handler
import Prism.Lib.Machine
import Prism.Lockfree.Find
import Prism.Lockfree.Peer
import Prism.Message.Cbor

/-!
What a dropbox peer stores (`prism/server/CS2/roles/lockfree/dropbox.py`).

A peer keeps the fragments that it was asked to store, and for every peer of the committee
the ids of the fragments that it is known to hold. Fragments and committee are saved as two
separate records. A restarted peer forms its committee from the saved record, if there is
one; `load_fragments` is there, but nothing calls it.

* `loadFragments_saveFragments`: the fragments could be read back.
* `loadCommittee_saveCommittee`: the committee is read back.
* `Apart.handle`: the operations on the committee keep what it does not matter to.
-/

namespace Prism.Lockfree

open Prism.Crypto Prism.Lib

/-! ### Fragments -/

/-- `SpanContext`, as far as it is saved. -/
structure SpanContext where
  traceId : ℤ
  spanId : ℤ
  flags : ℤ
deriving DecidableEq, Repr

/-- A fragment with the context of the request that stored it. -/
structure KeptFragment extends Fragment where
  storeContext : Option SpanContext
deriving DecidableEq, Repr

/-- A fragment as JSON. The context is three entries, all there or none. -/
structure FragmentJson where
  id : String
  share : String
  ciphertext : String
  store : Option SpanContext
deriving DecidableEq, Repr

section Fragments

variable (cbor : Cbor2) (builtins : Builtins) (now : ℤ)

/-- `Fragment.json`. -/
def KeptFragment.json (f : KeptFragment) : Py FragmentJson := do
  return ⟨hex f.fragmentId, ← hexShare cbor f.pseudonymShare, hex f.ciphertext, f.storeContext⟩

/-- `Fragment.from_json`. -/
def KeptFragment.ofJson (j : FragmentJson) : Py KeptFragment := do
  let fragmentId ← fromHex j.id
  let pseudonymShare ← shareOfHex cbor builtins now j.share
  let ciphertext ← fromHex j.ciphertext
  return ⟨⟨fragmentId, pseudonymShare, ciphertext⟩, j.store⟩

theorem restores_fragment :
    Restores (KeptFragment.json cbor) (KeptFragment.ofJson cbor builtins now) := by
  intro f
  obtain ⟨share, written, read⟩ := restores_share cbor builtins now f.pseudonymShare
  refine ⟨⟨hex f.fragmentId, share, hex f.ciphertext, f.storeContext⟩, ?_, ?_⟩
  · rw [KeptFragment.json, written]
    rfl
  · simp only [KeptFragment.ofJson, fromHex_hex, read, ok_bind]
    rfl

end Fragments

/-! ### The dropbox and its records -/

/-- A `LockFreeDropbox`, as far as it stores fragments. Before a committee is formed it has
no peers and no party id. -/
@[ext]
structure LockFreeDropbox where
  partyId : ℤ := -1
  peers : List DropboxPeer := []
  storedFragments : List (Bytes × KeptFragment) := []
  retrievedFragments : List Bytes := []

/-- The record `dropbox-lf-committee`. -/
structure CommitteeDict where
  partyId : ℤ
  peers : List PeerDict
deriving DecidableEq, Repr

/-- The record `dropbox-lf-fragments`. -/
structure FragmentsDict where
  stored : List (String × FragmentJson)
  retrieved : List String
deriving DecidableEq, Repr

/-- The state store. -/
structure Records where
  committee : Option CommitteeDict := none
  fragments : Option FragmentsDict := none

/-- What `form_genesis_committee` and `form_epoch_committee` find out: the own party id, -1
without one, the names and pseudonyms of the members, and the own pseudonym and key. -/
structure Formation where
  partyId : ℤ
  members : List (String × Bytes)
  pseudonym : Bytes
  halfKey : HalfKey

/-- What a decrypted `STORE_FRAGMENT` request carries. -/
structure SubMessage where
  pseudonymShare : ℤ
  ciphertext : Bytes
deriving DecidableEq, Repr

/-- `s.add(x)`. -/
def setAdd {α : Type} [DecidableEq α] (s : List α) (x : α) : List α :=
  if x ∈ s then s else s ++ [x]

theorem mem_setAdd {α : Type} [DecidableEq α] {s : List α} {x y : α} :
    y ∈ setAdd s x ↔ y ∈ s ∨ y = x := by
  unfold setAdd
  split_ifs with present
  · exact ⟨.inl, fun mem => mem.elim id fun same => same ▸ present⟩
  · simp

namespace LockFreeDropbox

/-- `self.peers[i]` is changed. -/
def updatePeer (self : LockFreeDropbox) (i : ℤ) (f : DropboxPeer → DropboxPeer) :
    Py LockFreeDropbox :=
  match pyPlace self.peers.length i with
  | some k => .ok { self with peers := self.peers.modify k f }
  | none => .error .indexError

/-- The pop in `handle_delete_op`, of a fragment that is there. -/
def pop (self : LockFreeDropbox) (fragmentId : Bytes) : LockFreeDropbox :=
  { self with
    storedFragments := self.storedFragments.filter fun e => e.1 ≠ fragmentId
    retrievedFragments := setAdd self.retrievedFragments fragmentId }

/-- `local_peer`. -/
def localPeer (self : LockFreeDropbox) : Option DropboxPeer :=
  (pyPlace self.peers.length self.partyId).bind fun k => self.peers[k]?

section Records

variable (cbor : Cbor2) (builtins : Builtins) (now : ℤ)

/-- `save_fragments`. -/
def saveFragments (self : LockFreeDropbox) : Py FragmentsDict := do
  let stored ← saveDict (KeptFragment.json cbor) self.storedFragments
  return ⟨stored, self.retrievedFragments.map hex⟩

/-- `load_fragments`. -/
def loadFragments (self : LockFreeDropbox) (state : Option FragmentsDict) : Py LockFreeDropbox :=
  match state with
  | none => .ok self
  | some state => do
    let storedFragments ← loadDict (KeptFragment.ofJson cbor builtins now) state.stored
    let retrievedFragments ← state.retrieved.mapM fromHex
    return { self with storedFragments, retrievedFragments }

/-- `save_committee`. -/
def saveCommittee (self : LockFreeDropbox) : Py CommitteeDict := do
  return ⟨self.partyId, ← self.peers.mapM (DropboxPeer.toDict cbor)⟩

/-- `load_committee`, of a record that is there. -/
def loadCommittee (self : LockFreeDropbox) (state : CommitteeDict) : Py LockFreeDropbox := do
  let peers ← state.peers.mapM (DropboxPeer.ofDict cbor builtins now)
  return { self with partyId := state.partyId, peers }

/-- The fragments could be read back from what was saved. -/
theorem loadFragments_saveFragments {self : LockFreeDropbox}
    (nodup : (self.storedFragments.map Prod.fst).Nodup) (other : LockFreeDropbox) :
    ∃ state, self.saveFragments cbor = .ok state ∧
      other.loadFragments cbor builtins now (some state) = .ok { other with
        storedFragments := self.storedFragments
        retrievedFragments := self.retrievedFragments } := by
  obtain ⟨stored, written, read⟩ := restores_dict (restores_fragment cbor builtins now) nodup
  refine ⟨⟨stored, self.retrievedFragments.map hex⟩, ?_, ?_⟩
  · rw [saveFragments, written]
    rfl
  · simp only [loadFragments, read, mapM_fromHex, ok_bind]
    rfl

/-- The committee is read back from what was saved. -/
theorem loadCommittee_saveCommittee (self other : LockFreeDropbox) :
    ∃ state, self.saveCommittee cbor = .ok state ∧ state.partyId = self.partyId ∧
      other.loadCommittee cbor builtins now state = .ok { other with
        partyId := self.partyId
        peers := self.peers } := by
  obtain ⟨peers, written, read⟩ :=
    (DropboxPeer.restores_dropboxPeer cbor builtins now).mapM self.peers
  dsimp only at written read
  refine ⟨⟨self.partyId, peers⟩, ?_, rfl, ?_⟩
  · rw [saveCommittee, written]
    rfl
  · rw [loadCommittee, read]
    rfl

end Records

/-! ### Handlers -/

/-- A dropbox and its state store. -/
structure Life where
  memory : LockFreeDropbox := {}
  records : Records := {}

/-- What the peers and the clients make a dropbox do. A store may be cut off between its two
saves. The committee operations are those that change or save the committee, with what they
learn from the messages and from the router. -/
inductive Event where
  | store (fragmentId : Bytes) (decrypted : Option SubMessage) (context : Option SpanContext)
  | storeCut (fragmentId : Bytes) (decrypted : SubMessage) (context : Option SpanContext)
  | delete (fragments : List Bytes)
  | stored (fragmentId : Bytes) (responses : List ℤ)
  | deleteTask (fragmentId : Bytes) (reachable : List Bytes)
  | hello (partyId : ℤ) (halfKey : HalfKey) (sender : Bytes)
  | sayReady
  | ready (partyId : ℤ)
  | preprocessed (batchId : Bytes) (successes : List ℤ)
  | restart (now : ℤ)

/-- What comes of it: the fragments that were deleted, or an exception. -/
inductive Answer where
  | done
  | deleted (fragments : List Bytes)
  | raised (e : PyError)
deriving DecidableEq, Repr

/-- `online`, given the pseudonyms that the router can reach. -/
def online (reachable : List Bytes) (peer : DropboxPeer) : Bool :=
  peer.isLocal || (peer.ready && peer.pseudonym ∈ reachable)

section Handlers

variable (cbor : Cbor2) (builtins : Builtins) (formation : Formation)

/-- The fragments are saved. -/
def writeFragments : Handler Life PyError PUnit := do
  let life ← get
  let state ← Handler.lift (life.memory.saveFragments cbor)
  modify fun life => { life with records := { life.records with fragments := some state } }

/-- The committee is saved. -/
def writeCommittee : Handler Life PyError PUnit := do
  let life ← get
  let state ← Handler.lift (life.memory.saveCommittee cbor)
  modify fun life => { life with records := { life.records with committee := some state } }

/-- A peer is changed. -/
def changePeer (i : ℤ) (f : DropboxPeer → DropboxPeer) : Handler Life PyError PUnit := do
  let life ← get
  let memory ← Handler.lift (life.memory.updatePeer i f)
  modify fun life => { life with memory }

/-- `handle_store_op` up to `save_fragments`. -/
def storeFragment (fragmentId : Bytes) (decrypted : SubMessage) (context : Option SpanContext) :
    Handler Life PyError PUnit := do
  modify fun life => { life with memory := { life.memory with
    storedFragments := dictSet life.memory.storedFragments fragmentId
      ⟨⟨fragmentId, ⟨decrypted.pseudonymShare, life.memory.partyId⟩, decrypted.ciphertext⟩,
        context⟩ } }
  writeFragments cbor

/-- `handle_store_op`, from the decryption on. -/
def handleStoreOp (fragmentId : Bytes) (decrypted : Option SubMessage)
    (context : Option SpanContext) : Handler Life PyError PUnit := do
  match decrypted with
  | none => return
  | some decrypted =>
    storeFragment cbor fragmentId decrypted context
    let life ← get
    changePeer life.memory.partyId fun peer =>
      { peer with storedFragments := setAdd peer.storedFragments fragmentId }
    writeCommittee cbor

/-- `handle_delete_op`: the fragments that were there. -/
def handleDeleteOp : List Bytes → Handler Life PyError (List Bytes)
  | [] => return []
  | fragmentId :: rest => do
    let life ← get
    if fragmentId ∈ life.memory.storedFragments.map Prod.fst then
      modify fun life => { life with memory := life.memory.pop fragmentId }
      writeFragments cbor
      return fragmentId :: (← handleDeleteOp rest)
    else handleDeleteOp rest

/-- `attempt_store_task`, once the responses are gathered. -/
def gatherStored (fragmentId : Bytes) (responses : List ℤ) : Handler Life PyError PUnit := do
  responses.forM fun i => changePeer i fun peer =>
    { peer with storedFragments := setAdd peer.storedFragments fragmentId }
  writeCommittee cbor

/-- `delete_task`, before the request is sent. -/
def deleteTask (fragmentId : Bytes) (reachable : List Bytes) : Handler Life PyError PUnit :=
  modify fun life => { life with memory := { life.memory with
    peers := life.memory.peers.map fun peer =>
      if online reachable peer then
        { peer with storedFragments := peer.storedFragments.filter (· ≠ fragmentId) }
      else peer } }

/-- `hello_op`. -/
def helloOp (partyId : ℤ) (halfKey : HalfKey) (sender : Bytes) : Handler Life PyError PUnit := do
  changePeer partyId fun peer => { peer with halfKey := some halfKey, pseudonym := sender }
  writeCommittee cbor

/-- `say_ready`, where `ready` holds. -/
def sayReady : Handler Life PyError PUnit := do
  let life ← get
  changePeer life.memory.partyId fun peer => { peer with ready := true }

/-- `handle_ready`. -/
def handleReady (partyId : ℤ) : Handler Life PyError PUnit := do
  changePeer partyId fun peer => { peer with ready := true }
  writeCommittee cbor

/-- `generate_preproduct_task`, when enough peers succeeded. -/
def generatePreproductTask (batchId : Bytes) (successes : List ℤ) :
    Handler Life PyError PUnit := do
  successes.forM fun i => changePeer i fun peer =>
    { peer with preproductBatches := setAdd peer.preproductBatches batchId }
  writeCommittee cbor

/-- `form_committee`, of a new dropbox. -/
def formCommittee (now : ℤ) : Handler Life PyError PUnit := do
  let life ← get
  match life.records.committee with
  | some state =>
    let memory ← Handler.lift (life.memory.loadCommittee cbor builtins now state)
    modify fun life => { life with memory }
  | none =>
    modify fun life => { life with memory := { life.memory with
      partyId := formation.partyId
      peers := formation.members.zipIdx.map fun ((name, pseudonym), i) =>
        { partyId := i, name, pseudonym } } }
    if formation.partyId = -1 then return
    changePeer formation.partyId fun peer => { peer with
      isLocal := true
      pseudonym := formation.pseudonym
      halfKey := some formation.halfKey }
    writeCommittee cbor

/-- A restart: a new dropbox over the same state store. -/
def restart (now : ℤ) : Handler Life PyError PUnit := do
  modify fun life => { life with memory := {} }
  formCommittee cbor builtins formation now

/-- One event. -/
def handle : Event → Handler Life PyError Answer
  | .store fragmentId decrypted context => do
    handleStoreOp cbor fragmentId decrypted context
    return .done
  | .storeCut fragmentId decrypted context => do
    storeFragment cbor fragmentId decrypted context
    return .done
  | .delete fragments => return .deleted (← handleDeleteOp cbor fragments)
  | .stored fragmentId responses => do
    gatherStored cbor fragmentId responses
    return .done
  | .deleteTask fragmentId reachable => do
    deleteTask fragmentId reachable
    return .done
  | .hello partyId halfKey sender => do
    helloOp cbor partyId halfKey sender
    return .done
  | .sayReady => do
    sayReady
    return .done
  | .ready partyId => do
    handleReady cbor partyId
    return .done
  | .preprocessed batchId successes => do
    generatePreproductTask cbor batchId successes
    return .done
  | .restart now => do
    restart cbor builtins formation now
    return .done

/-- An event and what came of it. -/
def act (life : Life) (event : Event) : Life × Answer :=
  match (handle cbor builtins formation event).exec life with
  | (life, .ok answer) => (life, answer)
  | (life, .error e) => (life, .raised e)

/-- The life of a dropbox, from its first start on. -/
def life (now : ℤ) : Machine Life Event Answer :=
  ⟨((restart cbor builtins formation now).exec {}).1, act cbor builtins formation⟩

end Handlers

/-! ### Saving raises nothing -/

section Saving

variable {cbor : Cbor2}

theorem exec_writeCommittee (life : Life) :
    ∃ state, life.memory.saveCommittee cbor = .ok state ∧ (writeCommittee cbor).exec life =
      ({ life with records := { life.records with committee := some state } }, .ok ⟨⟩) := by
  obtain ⟨state, saved, -⟩ := loadCommittee_saveCommittee cbor Builtins.strict 0 life.memory {}
  refine ⟨state, saved, ?_⟩
  rw [writeCommittee, Handler.exec_bind_of_ok (Handler.exec_get life), Handler.exec_bind,
    Handler.exec_lift, saved]
  rfl

theorem exec_writeFragments (life : Life) :
    ∃ state, (writeFragments cbor).exec life =
      ({ life with records := { life.records with fragments := some state } }, .ok ⟨⟩) := by
  obtain ⟨stored, saved⟩ := saveDict_ok (fun f =>
    (restores_fragment cbor Builtins.strict 0 f).imp fun _ => And.left) life.memory.storedFragments
  refine ⟨⟨stored, life.memory.retrievedFragments.map hex⟩, ?_⟩
  rw [writeFragments, Handler.exec_bind_of_ok (Handler.exec_get life), Handler.exec_bind,
    Handler.exec_lift, saveFragments, saved]
  rfl

/-- A store of a decrypted fragment, at a member of the committee. -/
theorem exec_handleStoreOp {life : Life} {k : ℕ}
    (place : pyPlace life.memory.peers.length life.memory.partyId = some k)
    (fragmentId : Bytes) (decrypted : SubMessage) (context : Option SpanContext) :
    ∃ life', (handleStoreOp cbor fragmentId (some decrypted) context).exec life = (life', .ok ⟨⟩) ∧
      life'.memory = { life.memory with
        peers := life.memory.peers.modify k fun peer =>
          { peer with storedFragments := setAdd peer.storedFragments fragmentId }
        storedFragments := dictSet life.memory.storedFragments fragmentId
          ⟨⟨fragmentId, ⟨decrypted.pseudonymShare, life.memory.partyId⟩, decrypted.ciphertext⟩,
            context⟩ } ∧
      ∃ state, life'.records.committee = some state ∧
        life'.memory.saveCommittee cbor = .ok state := by
  let stored : LockFreeDropbox := { life.memory with
    storedFragments := dictSet life.memory.storedFragments fragmentId
      ⟨⟨fragmentId, ⟨decrypted.pseudonymShare, life.memory.partyId⟩, decrypted.ciphertext⟩,
        context⟩ }
  obtain ⟨fragments, written⟩ := @exec_writeFragments cbor { life with memory := stored }
  let listed : LockFreeDropbox := { stored with
    peers := stored.peers.modify k fun peer =>
      { peer with storedFragments := setAdd peer.storedFragments fragmentId } }
  obtain ⟨state, saved, writtenBack⟩ := @exec_writeCommittee cbor
    ⟨listed, { life.records with fragments := some fragments }⟩
  refine ⟨⟨listed, { life.records with fragments := some fragments, committee := some state }⟩, ?_,
    rfl, state, rfl, saved⟩
  have changed : (changePeer life.memory.partyId fun peer =>
      { peer with storedFragments := setAdd peer.storedFragments fragmentId }).exec
        ⟨stored, { life.records with fragments := some fragments }⟩ =
      (⟨listed, { life.records with fragments := some fragments }⟩, .ok ⟨⟩) := by
    rw [changePeer, Handler.exec_bind_of_ok (Handler.exec_get _), Handler.exec_bind,
      Handler.exec_lift, updatePeer]
    simp only [stored, listed, place, Handler.exec_modify]
  have fragment : (storeFragment cbor fragmentId decrypted context).exec life =
      (⟨stored, { life.records with fragments := some fragments }⟩, .ok ⟨⟩) := by
    rw [storeFragment, Handler.exec_bind_of_ok (Handler.exec_modify _ life)]
    exact written
  rw [handleStoreOp, Handler.exec_bind_of_ok fragment,
    Handler.exec_bind_of_ok (Handler.exec_get _), Handler.exec_bind_of_ok changed]
  exact writtenBack

end Saving

/-! ### Committee operations -/

/-- What the committee does not matter to: other peers, and another saved committee. -/
structure Apart (cbor : Cbor2) (P : Life → Prop) : Prop where
  peers : ∀ (life : Life) (peers : List DropboxPeer), P life →
    P { life with memory := { life.memory with peers } }
  committee : ∀ (life : Life) (state : CommitteeDict), life.memory.saveCommittee cbor = .ok state →
    P life → P { life with records := { life.records with committee := some state } }

/-- The operations that change nothing but peers. -/
def Event.isCommittee : Event → Bool
  | .stored .. | .deleteTask .. | .hello .. | .sayReady | .ready _ | .preprocessed .. => true
  | _ => false

section Apart

variable {cbor : Cbor2} {builtins : Builtins} {formation : Formation} {P : Life → Prop}
  (apart : Apart cbor P)

include apart

theorem Apart.writeCommittee : Handler.Keeps P (writeCommittee cbor) := by
  intro life holds
  obtain ⟨state, saved, run⟩ := @exec_writeCommittee cbor life
  rw [run]
  exact apart.committee life state saved holds

theorem Apart.changePeer (i : ℤ) (f : DropboxPeer → DropboxPeer) :
    Handler.Keeps P (changePeer i f) := by
  intro life holds
  rw [LockFreeDropbox.changePeer, Handler.exec_bind_of_ok (Handler.exec_get life),
    Handler.exec_bind, Handler.exec_lift, updatePeer]
  cases pyPlace life.memory.peers.length i with
  | none => exact holds
  | some k => exact apart.peers life _ holds

/-- Some peers are changed, and the committee is saved. -/
theorem Apart.changePeers (is : List ℤ) (f : DropboxPeer → DropboxPeer) :
    Handler.Keeps P (is.forM (LockFreeDropbox.changePeer · f) >>= fun _ =>
      LockFreeDropbox.writeCommittee cbor) :=
  .bind (.forM fun _ _ => apart.changePeer _ f) fun _ => apart.writeCommittee

/-- **A committee operation** keeps what the committee does not matter to. -/
theorem Apart.handle {event : Event} (committee : event.isCommittee = true) :
    Handler.Keeps P (handle cbor builtins formation event) := by
  cases event with
  | store | storeCut | delete | restart => exact absurd committee (by simp [Event.isCommittee])
  | stored fragmentId responses => exact .bind (apart.changePeers _ _) fun _ => .pure _
  | deleteTask fragmentId reachable =>
      exact .bind (.modify fun life holds => apart.peers life _ holds) fun _ => .pure _
  | hello partyId halfKey sender =>
      exact .bind (.bind (apart.changePeer _ _) fun _ => apart.writeCommittee) fun _ => .pure _
  | sayReady => exact .bind (.bind .get fun _ => apart.changePeer _ _) fun _ => .pure _
  | ready partyId =>
      exact .bind (.bind (apart.changePeer _ _) fun _ => apart.writeCommittee) fun _ => .pure _
  | preprocessed batchId successes => exact .bind (apart.changePeers _ _) fun _ => .pure _

end Apart

end LockFreeDropbox

end Prism.Lockfree
