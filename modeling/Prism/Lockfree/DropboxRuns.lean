import Prism.Lockfree.Dropbox

/-!
The life of a dropbox peer (`prism/server/CS2/roles/lockfree/dropbox.py`).

Requests to store and to delete fragments come in any order, are repeated and delayed, the
committee changes, and the peer is restarted now and then. `Written` and `Gone` are the two
invariants: what the saved committee is, and that what was deleted is not stored.

* `restart_keeps_iff`: a restarted peer still holds what it says it holds exactly when the
  saved committee lists nothing for it.
* `restart_loses`: after a store and a restart the fragment is listed, but not there.
* `deleted_stays_deleted`: a deleted fragment does not come back, unless it is stored again.
* `deleted_comes_back`: a late store brings it back.
-/

namespace Prism.Lockfree

open Prism.Crypto Prism.Lib

namespace LockFreeDropbox

/-! ### What a restarted peer holds -/

section Restart

variable {cbor : Cbor2} {builtins : Builtins} {formation : Formation}

/-- The saved committee is one that a dropbox had. -/
def Written (cbor : Cbor2) (life : Life) : Prop :=
  ∀ state, life.records.committee = some state →
    ∃ self : LockFreeDropbox, self.saveCommittee cbor = .ok state

theorem written_apart : Apart cbor (Written cbor) where
  peers _ _ written := written
  committee life state saved _ := by
    rintro state' ⟨rfl⟩
    exact ⟨life.memory, saved⟩

theorem keeps_memory {f : Life → Life} (same : ∀ life, (f life).records = life.records) :
    Handler.Keeps (Written cbor) (modify f : Handler Life PyError PUnit) :=
  .modify fun life written state found => written state (same life ▸ found)

theorem keeps_writeFragments : Handler.Keeps (Written cbor) (writeFragments cbor) :=
  .bind .get fun _ => .bind (.lift _) fun _ => .modify fun _ written state found =>
    written state found

theorem keeps_storeFragment (fragmentId : Bytes) (decrypted : SubMessage)
    (context : Option SpanContext) :
    Handler.Keeps (Written cbor) (storeFragment cbor fragmentId decrypted context) :=
  .bind (keeps_memory fun _ => rfl) fun _ => keeps_writeFragments

theorem keeps_handleDeleteOp (fragments : List Bytes) :
    Handler.Keeps (Written cbor) (handleDeleteOp cbor fragments) := by
  induction fragments with
  | nil => exact .pure _
  | cons fragmentId rest ih =>
      refine .bind .get fun life => ?_
      split_ifs
      · exact .bind (keeps_memory fun _ => rfl) fun _ => .bind keeps_writeFragments fun _ =>
          .bind ih fun _ => .pure _
      · exact ih

theorem keeps_restart (now : ℤ) :
    Handler.Keeps (Written cbor) (restart cbor builtins formation now) := by
  refine .bind (keeps_memory fun _ => rfl) fun _ => .bind .get fun life => ?_
  split
  · exact .bind (.lift _) fun _ => keeps_memory fun _ => rfl
  · refine .bind (keeps_memory fun _ => rfl) fun _ => ?_
    split_ifs
    · exact .pure _
    · exact .bind (written_apart.changePeer _ _) fun _ => written_apart.writeCommittee

theorem keeps_handle (event : Event) :
    Handler.Keeps (Written cbor) (handle cbor builtins formation event) := by
  cases event with
  | store fragmentId decrypted context =>
      refine .bind ?_ fun _ => .pure _
      cases decrypted with
      | none => exact .pure _
      | some decrypted =>
          exact .bind (keeps_storeFragment _ _ _) fun _ => .bind .get fun _ =>
            .bind (written_apart.changePeer _ _) fun _ => written_apart.writeCommittee
  | storeCut fragmentId decrypted context =>
      exact .bind (keeps_storeFragment _ _ _) fun _ => .pure _
  | delete fragments => exact .bind (keeps_handleDeleteOp fragments) fun _ => .pure _
  | restart now => exact .bind (keeps_restart now) fun _ => .pure _
  | _ => exact written_apart.handle rfl

theorem act_fst (life : Life) (event : Event) :
    (act cbor builtins formation life event).1 =
      ((handle cbor builtins formation event).exec life).1 := by
  unfold act
  split <;> simp_all

/-- Whatever happens, the saved committee is one that the dropbox had. -/
theorem written_run (start : ℤ) (events : List Event) :
    Written cbor ((life cbor builtins formation start).run events).1 := by
  apply @Machine.run_induction _ _ _ (life cbor builtins formation start) (fun _ _ _ => True)
    fun life _ => Written cbor life
  · exact keeps_restart start {} fun _ none => absurd none (by simp)
  · intro life _ event written _
    have kept := @keeps_handle cbor builtins formation event life written
    rw [← act_fst] at kept
    exact kept
  · exact fun _ _ _ _ => trivial

/-- The entry of the local peer in a saved committee. -/
def CommitteeDict.localPeer (state : CommitteeDict) : Option PeerDict :=
  (pyPlace state.peers.length state.partyId).bind fun k => state.peers[k]?

/-- The saved committee lists no fragment for the local peer. -/
def ListsNothing (records : Records) : Prop :=
  ∀ state peer, records.committee = some state → CommitteeDict.localPeer state = some peer →
    peer.storedFragments = []

/-- Every fragment that is listed for the local peer afterwards is there, as it was before. -/
def StillHolds (before after : LockFreeDropbox) : Prop :=
  ∀ peer, after.localPeer = some peer → ∀ fragmentId ∈ peer.storedFragments,
    ∃ fragment old, after.storedFragments.lookup fragmentId = some fragment ∧
      before.storedFragments.lookup fragmentId = some old ∧
      fragment.pseudonymShare = old.pseudonymShare ∧ fragment.ciphertext = old.ciphertext

/-- A committee that was saved is the one that is loaded. -/
theorem exec_restart_saved {now : ℤ} {life : Life} {self : LockFreeDropbox} {state : CommitteeDict}
    (found : life.records.committee = some state) (saved : self.saveCommittee cbor = .ok state) :
    ((restart cbor builtins formation now).exec life).1.memory =
      { partyId := self.partyId, peers := self.peers } := by
  obtain ⟨state', written, -, read⟩ := loadCommittee_saveCommittee cbor builtins now self {}
  obtain rfl : state = state' := Except.ok.inj (saved.symm.trans written)
  rw [restart, Handler.exec_bind_of_ok (Handler.exec_modify _ life), formCommittee,
    Handler.exec_bind_of_ok (Handler.exec_get _)]
  simp only [found, read, Handler.exec_bind, Handler.exec_lift, Handler.exec_modify]

theorem writeCommittee_memory (life : Life) :
    ((writeCommittee cbor).exec life).1.memory = life.memory := by
  obtain ⟨state, -, run⟩ := @exec_writeCommittee cbor life
  rw [run]

/-- In a newly formed committee no peer holds a fragment. -/
theorem exec_restart_formed {now : ℤ} {life : Life} (none : life.records.committee = none) :
    ∀ peer ∈ ((restart cbor builtins formation now).exec life).1.memory.peers,
      peer.storedFragments = [] := by
  set members : List DropboxPeer := formation.members.zipIdx.map fun e =>
    { partyId := e.2, name := e.1.1, pseudonym := e.1.2 }
  have fresh : ∀ peers : List DropboxPeer,
      peers.map (·.storedFragments) = members.map (·.storedFragments) →
      ∀ peer ∈ peers, peer.storedFragments = [] := by
    intro peers same peer mem
    have inMembers : peer.storedFragments ∈ members.map (·.storedFragments) :=
      same ▸ List.mem_map_of_mem mem
    obtain ⟨member, isMember, eq⟩ := List.mem_map.mp inMembers
    obtain ⟨⟨⟨name, pseudonym⟩, i⟩, -, rfl⟩ := List.mem_map.mp isMember
    exact eq.symm
  apply fresh
  rw [restart, Handler.exec_bind_of_ok (Handler.exec_modify _ life), formCommittee,
    Handler.exec_bind_of_ok (Handler.exec_get _)]
  simp only [none]
  rw [Handler.exec_bind_of_ok (Handler.exec_modify _ _)]
  split_ifs
  · rfl
  · rw [changePeer, Handler.exec_bind, Handler.exec_bind_of_ok (Handler.exec_get _),
      Handler.exec_bind, Handler.exec_lift, updatePeer]
    cases pyPlace _ formation.partyId with
    | none => rfl
    | some k =>
        simp only [Handler.exec_modify, writeCommittee_memory]
        apply map_modify
        intro peer
        rfl

/-- What a saved committee lists for the local peer. -/
theorem localPeer_saved {self : LockFreeDropbox} {state : CommitteeDict}
    (saved : self.saveCommittee cbor = .ok state) :
    (CommitteeDict.localPeer state).map (·.storedFragments) =
      self.localPeer.map fun peer => peer.storedFragments.map hex := by
  obtain ⟨peers, written, eq⟩ := bind_eq_ok.mp saved
  obtain rfl : ⟨self.partyId, peers⟩ = state := Except.ok.inj eq
  have lists := map_of_mapM (g := fun d : PeerDict => d.storedFragments)
    (h := fun peer : DropboxPeer => peer.storedFragments.map hex) ?_ written
  · have length : peers.length = self.peers.length := by
      simpa using congrArg List.length lists
    rw [CommitteeDict.localPeer, localPeer, length, Option.map_bind, Option.map_bind]
    refine congrArg _ (funext fun k => ?_)
    have here := congrArg (·[k]?) lists
    simpa only [List.getElem?_map, Function.comp] using here
  · intro peer d dict
    obtain ⟨halfKey, -, eq⟩ := bind_eq_ok.mp dict
    obtain rfl := Except.ok.inj eq
    rfl

/-- **A restarted peer still holds what it says it holds** exactly when the saved committee
lists nothing for it. -/
theorem restart_keeps_iff (cbor : Cbor2) (builtins : Builtins) (formation : Formation)
    (start now : ℤ) (events : List Event) :
    let before := ((life cbor builtins formation start).run events).1
    StillHolds before.memory ((restart cbor builtins formation now).exec before).1.memory ↔
      ListsNothing before.records := by
  intro before
  have written : Written cbor before := written_run start events
  cases found : before.records.committee with
  | none =>
      have formed := @exec_restart_formed cbor builtins formation now before found
      constructor
      · intro _ state peer saved
        exact absurd (found.symm.trans saved) (by simp)
      · intro _ peer isLocal fragmentId mem
        obtain ⟨k, -, here⟩ := Option.bind_eq_some_iff.mp isLocal
        rw [formed peer (List.mem_of_getElem? here)] at mem
        exact absurd mem List.not_mem_nil
  | some state =>
      obtain ⟨self, saved⟩ := written state found
      have listed := localPeer_saved saved
      rw [exec_restart_saved found saved]
      constructor
      · intro holds state' peer found' isLocal
        obtain rfl : state = state' := Option.some.inj (found.symm.trans found')
        rw [isLocal, Option.map_some, eq_comm, Option.map_eq_some_iff] at listed
        obtain ⟨member, isMember, eq⟩ := listed
        -- no fragment is there any more
        cases ids : member.storedFragments with
        | nil => rw [← eq, ids, List.map_nil]
        | cons fragmentId rest =>
            obtain ⟨fragment, -, there, -⟩ := holds member isMember fragmentId (by simp [ids])
            exact absurd there (by simp)
      · intro nothing member isMember fragmentId mem
        rw [show self.localPeer = some member from isMember, Option.map_some,
          Option.map_eq_some_iff] at listed
        obtain ⟨peer, isLocal, eq⟩ := listed
        rw [nothing state peer found isLocal, eq_comm, List.map_eq_nil_iff] at eq
        rw [eq] at mem
        exact absurd mem List.not_mem_nil

end Restart

/-! ### What a peer has deleted -/

/-- The fragments that were ever deleted. -/
def deleted (history : List (Event × Answer)) : List Bytes :=
  history.flatMap fun e => match e.2 with
    | .deleted fragments => fragments
    | _ => []

/-- No store is of a fragment that was deleted before. -/
def StoresFresh (_ : Life) (history : List (Event × Answer)) : Event → Prop
  | .store fragmentId (some _) _ => fragmentId ∉ deleted history
  | .storeCut fragmentId _ _ => fragmentId ∉ deleted history
  | _ => True

/-- What is marked as retrieved was deleted, and what was deleted is not stored. -/
structure Gone (ids : List Bytes) (life : Life) : Prop where
  retrieved : ∀ id ∈ life.memory.retrievedFragments, id ∈ ids
  stored : ∀ id ∈ ids, id ∉ life.memory.storedFragments.map Prod.fst

section Deleted

variable {cbor : Cbor2} {builtins : Builtins} {formation : Formation} {ids : List Bytes}

theorem gone_apart : Apart cbor (Gone ids) where
  peers _ _ gone := ⟨gone.retrieved, gone.stored⟩
  committee _ _ _ gone := ⟨gone.retrieved, gone.stored⟩

theorem gone_writeFragments : Handler.Keeps (Gone ids) (writeFragments cbor) := by
  intro life gone
  obtain ⟨state, run⟩ := @exec_writeFragments cbor life
  rw [run]
  exact ⟨gone.retrieved, gone.stored⟩

theorem gone_storeFragment {fragmentId : Bytes} (fresh : fragmentId ∉ ids)
    (decrypted : SubMessage) (context : Option SpanContext) :
    Handler.Keeps (Gone ids) (storeFragment cbor fragmentId decrypted context) := by
  refine .bind (.modify fun life gone => ⟨gone.retrieved, fun id mem there => ?_⟩)
    fun _ => gone_writeFragments
  rw [keys_dictSet] at there
  split_ifs at there
  · exact gone.stored id mem there
  · rcases List.mem_append.mp there with there | here
    · exact gone.stored id mem there
    · exact fresh (List.mem_singleton.mp here ▸ mem)

theorem gone_pop {life : Life} (gone : Gone ids life) (fragmentId : Bytes) (records : Records) :
    Gone (ids ++ [fragmentId]) ⟨life.memory.pop fragmentId, records⟩ := by
  constructor
  · intro id mem
    rcases mem_setAdd.mp mem with old | rfl
    · exact List.mem_append_left _ (gone.retrieved id old)
    · exact List.mem_append_right _ (List.mem_singleton_self _)
  · intro id mem there
    obtain ⟨e, kept, rfl⟩ := List.mem_map.mp there
    obtain ⟨stored, ne⟩ := List.mem_filter.mp kept
    rcases List.mem_append.mp mem with old | here
    · exact gone.stored e.1 old (List.mem_map_of_mem stored)
    · exact of_decide_eq_true ne (List.mem_singleton.mp here)

/-- The deletion of some fragments, one after the other. -/
theorem exec_handleDeleteOp (fragments : List Bytes) {life : Life} (gone : Gone ids life) :
    ∃ life' popped, (handleDeleteOp cbor fragments).exec life = (life', .ok popped) ∧
      Gone (ids ++ popped) life' := by
  induction fragments generalizing life ids with
  | nil => exact ⟨life, [], rfl, by simpa using gone⟩
  | cons fragmentId rest ih =>
      rw [handleDeleteOp, Handler.exec_bind_of_ok (Handler.exec_get life)]
      split_ifs with present
      · let after : Life := { life with memory := life.memory.pop fragmentId }
        obtain ⟨state, written⟩ := @exec_writeFragments cbor after
        obtain ⟨life', more, run, goneMore⟩ := ih (gone_pop gone fragmentId
          { life.records with fragments := some state })
        refine ⟨life', fragmentId :: more, ?_, ?_⟩
        · rw [Handler.exec_bind_of_ok (Handler.exec_modify _ life),
            Handler.exec_bind_of_ok written, Handler.exec_bind_of_ok run]
          rfl
        · rw [List.append_cons]
          exact goneMore
      · exact ih gone

/-- The deletion of one fragment that is there. -/
theorem exec_handleDeleteOp_single {life : Life} {fragmentId : Bytes}
    (present : fragmentId ∈ life.memory.storedFragments.map Prod.fst) :
    ∃ records, (handleDeleteOp cbor [fragmentId]).exec life =
      (⟨life.memory.pop fragmentId, records⟩, .ok [fragmentId]) := by
  obtain ⟨state, written⟩ :=
    @exec_writeFragments cbor { life with memory := life.memory.pop fragmentId }
  refine ⟨{ life.records with fragments := some state }, ?_⟩
  rw [handleDeleteOp, Handler.exec_bind_of_ok (Handler.exec_get life), if_pos present,
    Handler.exec_bind_of_ok (Handler.exec_modify _ life), Handler.exec_bind_of_ok written]
  rfl

theorem gone_restart (now : ℤ) (life : Life) :
    Gone ids ((restart cbor builtins formation now).exec life).1 := by
  have fresh : ∀ records, Gone ids ⟨{}, records⟩ := fun _ => ⟨by simp, by simp⟩
  rw [restart, Handler.exec_bind_of_ok (Handler.exec_modify _ life), formCommittee,
    Handler.exec_bind_of_ok (Handler.exec_get _)]
  cases life.records.committee with
  | none =>
      refine Handler.Keeps.bind (.modify fun life gone => ⟨gone.retrieved, gone.stored⟩)
        (fun _ => ?_) _ (fresh _)
      split_ifs
      · exact .pure _
      · exact .bind ((@gone_apart cbor ids).changePeer _ _) fun _ => gone_apart.writeCommittee
  | some state =>
      dsimp only
      rw [Handler.exec_bind, Handler.exec_lift]
      cases loaded : ({} : LockFreeDropbox).loadCommittee cbor builtins now state with
      | error e => exact fresh _
      | ok memory =>
          obtain ⟨peers, -, eq⟩ := bind_eq_ok.mp loaded
          obtain rfl := Except.ok.inj eq
          exact ⟨by simp, by simp⟩

theorem deleted_concat (history : List (Event × Answer)) (e : Event × Answer) :
    deleted (history ++ [e]) = deleted history ++ deleted [e] := by
  simp [deleted]

/-- Only a deletion says what was deleted. -/
theorem act_snd {event : Event} (other : ∀ fragments, event ≠ .delete fragments) (life : Life)
    (history : List (Event × Answer)) :
    deleted (history ++ [(event, (act cbor builtins formation life event).2)]) =
      deleted history := by
  have done : ∀ h : Handler Life PyError PUnit, handle cbor builtins formation event =
      (h >>= fun _ => pure .done) → deleted [(event,
        (act cbor builtins formation life event).2)] = [] := by
    intro h same
    rw [act, same, Handler.exec_bind]
    split
    · next run =>
        split at run
        · obtain ⟨-, ⟨rfl⟩⟩ := Prod.mk.inj run
          rfl
        · exact absurd run (by simp)
    · rfl
  rw [deleted_concat]
  refine (congrArg _ ?_).trans (List.append_nil _)
  cases event with
  | delete fragments => exact absurd rfl (other fragments)
  | _ => exact done _ rfl

/-- What the committee operations and stores of new fragments leave as it is. -/
theorem gone_handle {event : Event} (other : ∀ fragments, event ≠ .delete fragments)
    {life : Life} {history : List (Event × Answer)}
    (fresh : StoresFresh life history event) :
    Handler.Keeps (Gone (deleted history)) (handle cbor builtins formation event) := by
  cases event with
  | store fragmentId decrypted context =>
      refine .bind ?_ fun _ => .pure _
      cases decrypted with
      | none => exact .pure _
      | some decrypted =>
          exact .bind (gone_storeFragment fresh decrypted context) fun _ => .bind .get fun _ =>
            .bind ((@gone_apart cbor _).changePeer _ _) fun _ => gone_apart.writeCommittee
  | storeCut fragmentId decrypted context =>
      exact .bind (gone_storeFragment fresh decrypted context) fun _ => .pure _
  | delete fragments => exact absurd rfl (other fragments)
  | restart now => exact .bind (fun life _ => gone_restart now life) fun _ => .pure _
  | _ => exact gone_apart.handle rfl

/-- Every event leaves what was deleted gone, or deletes more. -/
theorem gone_act {life : Life} {history : List (Event × Answer)} {event : Event}
    (gone : Gone (deleted history) life) (fresh : StoresFresh life history event) :
    Gone (deleted (history ++ [(event, (act cbor builtins formation life event).2)]))
      (act cbor builtins formation life event).1 := by
  by_cases deletes : ∃ fragments, event = .delete fragments
  · obtain ⟨fragments, rfl⟩ := deletes
    obtain ⟨life', popped, run, goneMore⟩ := @exec_handleDeleteOp cbor _ fragments _ gone
    have result : act cbor builtins formation life (.delete fragments) =
        (life', .deleted popped) := by
      rw [act, handle, Handler.exec_bind_of_ok run]
      rfl
    rw [result, deleted_concat]
    simpa [deleted] using goneMore
  · have other : ∀ fragments, event ≠ .delete fragments := fun fragments eq =>
      deletes ⟨fragments, eq⟩
    rw [act_snd other, act_fst]
    exact gone_handle other fresh life gone

end Deleted

/-- **A deleted fragment stays deleted.** Whatever order the requests come in, no fragment is
both stored and retrieved, and none that was deleted is stored, as long as none is stored
again after it was deleted. -/
theorem deleted_stays_deleted (cbor : Cbor2) (builtins : Builtins) (formation : Formation)
    (start : ℤ) {events : List Event}
    (admits : (life cbor builtins formation start).Admits StoresFresh events) :
    let dropbox := ((life cbor builtins formation start).run events).1.memory
    (∀ id ∈ dropbox.retrievedFragments, id ∉ dropbox.storedFragments.map Prod.fst) ∧
      ∀ id ∈ deleted ((life cbor builtins formation start).run events).2,
        id ∉ dropbox.storedFragments.map Prod.fst := by
  have gone := (life cbor builtins formation start).run_induction
    (P := fun life history => Gone (deleted history) life) (gone_restart start {})
    (fun _ _ _ gone fresh => gone_act gone fresh) admits
  exact ⟨fun id mem => gone.stored id (gone.retrieved id mem), gone.stored⟩

/-! ### A store -/

/-- A key of eight bytes. -/
def exampleKey : HalfKey where
  fields := [.enum (.halfKeyType .ecdh), .none, .none, .none, .none,
    .bytes [1, 2, 3, 4, 5, 6, 7, 8]]
  typed := rfl

/-- The first of two members. -/
def exampleFormation : Formation where
  partyId := 0
  members := [("left", [1]), ("right", [2])]
  pseudonym := [1]
  halfKey := exampleKey

/-- The members as they are when the committee is formed. -/
def exampleDropbox : LockFreeDropbox where
  partyId := 0
  peers := [
    { partyId := 0, name := "left", pseudonym := [1], isLocal := true, halfKey := some exampleKey },
    { partyId := 1, name := "right", pseudonym := [2] }]

/-- The life of the first of two members. -/
def exampleLife : Machine Life Event Answer :=
  life Cbor.package Builtins.strict exampleFormation 0

theorem exampleLife_init : exampleLife.init.memory = exampleDropbox :=
  @writeCommittee_memory Cbor.package ⟨exampleDropbox, {}⟩

/-- A fragment is stored as a client sent it. -/
def exampleStore : Event := .store [7] (some ⟨5, [9]⟩) none

/-- What the first member keeps of it. -/
def exampleStored : LockFreeDropbox := { exampleDropbox with
  peers := exampleDropbox.peers.modify 0 fun peer => { peer with storedFragments := [[7]] }
  storedFragments := [([7], ⟨⟨[7], ⟨5, 0⟩, [9]⟩, none⟩)] }

theorem exampleLife_store {current : Life} (start : current.memory = exampleDropbox ∨
    current.memory = exampleStored.pop [7]) :
    ∃ next, exampleLife.step current exampleStore = (next, .done) ∧
      next.memory.storedFragments = exampleStored.storedFragments ∧
      next.memory.retrievedFragments = current.memory.retrievedFragments ∧
      next.memory.partyId = 0 ∧ next.memory.peers = exampleStored.peers ∧
      ∃ state, next.records.committee = some state ∧
        next.memory.saveCommittee Cbor.package = .ok state := by
  have place : pyPlace current.memory.peers.length current.memory.partyId = some 0 := by
    rcases start with start | start <;> rw [start] <;> rfl
  obtain ⟨next, run, memory, committee⟩ := @exec_handleStoreOp Cbor.package current 0 place [7]
    ⟨5, [9]⟩ none
  refine ⟨next, ?_, ?_, ?_, ?_, ?_, committee⟩
  · change act Cbor.package Builtins.strict exampleFormation current exampleStore = _
    rw [act, exampleStore, handle, Handler.exec_bind_of_ok run]
    rfl
  · rw [memory]
    rcases start with start | start <;> rw [start] <;> rfl
  · rw [memory]
  · rw [memory]
    rcases start with start | start <;> rw [start] <;> rfl
  · rw [memory]
    rcases start with start | start <;> rw [start] <;> rfl

/-- **A restarted peer has lost what it stored**, and still says that it holds it. -/
theorem restart_loses :
    ¬ ∀ events now, let before := (exampleLife.run events).1
      StillHolds before.memory
        ((restart Cbor.package Builtins.strict exampleFormation now).exec before).1.memory := by
  intro holds
  obtain ⟨next, run, -, -, partyId, peers, state, found, saved⟩ :=
    exampleLife_store (.inl exampleLife_init)
  have after := holds [exampleStore] 0
  have before : (exampleLife.run [exampleStore]).1 = next := congrArg Prod.fst run
  dsimp only at after
  rw [before, exec_restart_saved found saved, partyId, peers] at after
  obtain ⟨fragment, -, there, -⟩ := after _ rfl [7] (List.mem_singleton_self _)
  exact absurd there (by simp)

/-- A fragment that is stored twice, deleted twice, and not stored again. -/
theorem deleted_stays_deleted_example :
    let dropbox := (exampleLife.run ([] ++ [exampleStore] ++ [exampleStore] ++
      [.delete [[7]]] ++ [.delete [[7]]])).1.memory
    ∀ id ∈ dropbox.retrievedFragments, id ∉ dropbox.storedFragments.map Prod.fst := by
  refine (deleted_stays_deleted Cbor.package Builtins.strict exampleFormation 0 ?_).1
  obtain ⟨first, store, -⟩ := exampleLife_store (.inl exampleLife_init)
  have start : exampleLife.run [exampleStore] = (first, [(exampleStore, .done)]) := by
    rw [← List.nil_append [exampleStore], Machine.run_concat, Machine.run_nil, Machine.record]
    simp only [store, List.nil_append]
  simp only [Machine.admits_concat, Machine.admits_nil, true_and]
  refine ⟨⟨⟨?_, ?_⟩, trivial⟩, trivial⟩
  · exact List.not_mem_nil
  · change [7] ∉ deleted (exampleLife.run [exampleStore]).2
    rw [start]
    exact List.not_mem_nil

/-- **A late store brings a deleted fragment back.** -/
theorem deleted_comes_back :
    ¬ ∀ events, let dropbox := (exampleLife.run events).1.memory
      ∀ id ∈ dropbox.retrievedFragments, id ∉ dropbox.storedFragments.map Prod.fst := by
  intro apart
  obtain ⟨first, store, stored, retrieved, partyId, peers, -⟩ :=
    exampleLife_store (.inl exampleLife_init)
  have memory : first.memory = exampleStored := by
    rw [exampleLife_init] at retrieved
    exact LockFreeDropbox.ext partyId peers stored retrieved
  obtain ⟨records, delete⟩ := @exec_handleDeleteOp_single Cbor.package first [7]
    (by rw [stored]; decide)
  have deletes : exampleLife.step first (.delete [[7]]) =
      (⟨exampleStored.pop [7], records⟩, .deleted [[7]]) := by
    change act Cbor.package Builtins.strict exampleFormation first (.delete [[7]]) = _
    rw [act, handle, Handler.exec_bind_of_ok delete, memory]
    rfl
  obtain ⟨last, again, storedAgain, retrievedAgain, -⟩ :=
    @exampleLife_store ⟨exampleStored.pop [7], records⟩ (.inr rfl)
  have both := apart [exampleStore, .delete [[7]], exampleStore]
  simp only [Machine.run, List.foldl_cons, List.foldl_nil, Machine.record, store, deletes,
    again] at both
  rw [storedAgain, retrievedAgain] at both
  dsimp only at both
  exact absurd both (by decide)

end LockFreeDropbox

end Prism.Lockfree
