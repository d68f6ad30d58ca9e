import Prism.Python
import Prism.Transport.CommsLink

/-!
Connections that open and close (`onConnectionStatusChanged`, `ensure_link`, `reconnect_delayed` in
`rib/prism/rib/connection/CommsTransport.py`, `open` and `close` in
`rib/prism/rib/connection/link.py`).

A link remembers one connection, the last that was opened on it, and the status that was reported
last, of whichever of its connections. When a connection is closed, the link forgets the one that it
remembers and asks to be opened again, unless it was closed on purpose.

RACE hands out connections and handles; each belongs to a link (`Sdk`), and callbacks say so.

* `Usable`: a link with an open connection remembers an open one and is active.
* `usable_step_iff`: which events keep this.
* `usable_iff`: in a run, links stay usable and are opened again exactly if no connection of a link
  is reported to be closed or invalid while another one is open, and a link that was closed on
  purpose is not opened without `open`.
-/

namespace Prism.Transport

open Lib

/-- What RACE knows: the links of the connections and of the handles that it hands out, whether the
channel of a link was discovered, and who is at a link. -/
structure Sdk where
  connectionLink : String → String
  handleLink : ℕ → String
  channelKnown : String → Bool
  personasForLink : String → List String

/-- `CommsTransport`, as far as connections are concerned: the links that were made, by their
places, and the ids of the connections that RACE was asked to close. -/
structure CommsTransport where
  objects : List CommsLink := []
  links : List (String × ℕ) := []
  handleLinks : List (ℤ × ℕ) := []
  connectionLinks : List (String × ℕ) := []
  deadLinkQueue : List ℕ := []
  closeRequests : List String := []

namespace CommsTransport

variable (sdk : Sdk) (self : CommsTransport)

/-- An attribute of a link is set. -/
def setLink (place : ℕ) (f : CommsLink → CommsLink) : CommsTransport :=
  { self with objects := self.objects.modify place f }

/-- `create_link`. There is no handle 0. -/
def createLink (handle : ℕ) (linkId : String) (now : ℤ) : CommsTransport × Py ℕ :=
  if sdk.channelKnown linkId then
    let place := self.objects.length
    ({ self with
      objects := self.objects ++ [{
        linkId, endpoints := sdk.personasForLink linkId, createTime := now }]
      links := dictSet self.links linkId place
      handleLinks := if handle ≠ 0 then dictSet self.handleLinks handle place
        else self.handleLinks }, .ok place)
  else (self, .error .keyError)

/-- `ensure_link`. -/
def ensureLink (handle : ℕ) (linkId : String) (now : ℤ) : CommsTransport × Py ℕ :=
  match self.handleLinks.lookup (handle : ℤ) with
  | some place => (self, .ok place)
  | none =>
    match self.links.lookup linkId with
    | some place => (self, .ok place)
    | none => self.createLink sdk handle linkId now

/-- What `onConnectionStatusChanged` does to the link. -/
def setStatus (place : ℕ) (handle : ℕ) (connId : String) (status : ConnectionStatus) :
    CommsTransport :=
  let state := self.setLink place fun link => { link with connectionStatus := status }
  match status with
  | .open =>
    { state.setLink place (fun link => { link with connectionId := some connId }) with
      connectionLinks := dictSet self.connectionLinks connId place
      handleLinks := self.handleLinks.filter fun entry => entry.1 ≠ (handle : ℤ) }
  | .closed =>
    if (self.objects[place]?).any (·.manuallyClosed) then state
    else
      { state.setLink place fun link =>
          { link with failures := link.failures + 1, connectionId := none } with
        connectionLinks := self.connectionLinks.filter fun entry => entry.1 ≠ connId
        deadLinkQueue := self.deadLinkQueue ++ [place] }
  | _ => state

/-- `onConnectionStatusChanged`. -/
def onConnectionStatusChanged (handle : ℕ) (connId : String) (status : ConnectionStatus)
    (linkId : String) (now : ℤ) : CommsTransport × Py ℕ :=
  match self.ensureLink sdk handle linkId now with
  | (state, .error e) => (state, .error e)
  | (state, .ok place) => (state.setStatus place handle connId status, .ok place)

/-- `open_handle`, and what its callers do with the handle: -1 if RACE refuses. -/
def openHandle (place : ℕ) (handle : Option ℕ) : CommsTransport :=
  { self with handleLinks := dictSet self.handleLinks (handle.elim (-1) fun n => n) place }

/-- `open`, before it waits. -/
def openLink (place : ℕ) (handle : Option ℕ) : CommsTransport :=
  (self.setLink place fun link => { link with manuallyClosed := false }).openHandle place handle

/-- `close`. -/
def close (place : ℕ) : CommsTransport :=
  let requested := (self.objects[place]?).bind fun link => link.close.2
  { self.setLink place fun link => link.close.1 with
    closeRequests := self.closeRequests ++ requested.toList }

end CommsTransport

/-! ### Runs -/

/-- A handle that RACE hands out for a link. -/
def Sdk.Handle (sdk : Sdk) (linkId : String) : Type :=
  { handle : ℕ // handle ≠ 0 ∧ sdk.handleLink handle = linkId }

/-- What happens. A callback has no handle, or one for the link. -/
inductive ConnectionEvent (sdk : Sdk) where
  | connection (handle : ℕ) (connId : String) (status : ConnectionStatus) (now : ℤ)
      (fits : handle ≠ 0 → sdk.handleLink handle = sdk.connectionLink connId)
  /-- `onLinkStatusChanged` and `onLinkPropertiesChanged` make a link. -/
  | link (handle : ℕ) (linkId : String) (now : ℤ)
      (fits : handle ≠ 0 → sdk.handleLink handle = linkId)
  | opens (linkId : String) (handle : Option (sdk.Handle linkId))
  /-- `reconnect_task` takes a link from its queue, and `reconnect_delayed` opens it. -/
  | dequeues
  | reopens (linkId : String) (handle : Option (sdk.Handle linkId))
  | closes (linkId : String)

/-- The transport, and the connections that were reported open and not yet closed, with their
links. -/
structure Connections extends CommsTransport where
  reported : List (String × ℕ) := []

namespace Connections

variable (sdk : Sdk) (self : Connections)

/-- What is known of the open connections after a report. -/
def report (connId : String) (status : ConnectionStatus) (place : ℕ) : List (String × ℕ) :=
  match status with
  | .open => dictSet self.reported connId place
  | .closed => self.reported.filter fun entry => entry.1 ≠ connId
  | _ => self.reported

/-- One event. A request to close a connection is done with when it is closed. -/
def step : ConnectionEvent sdk → Connections
  | .connection handle connId status now _ =>
    match self.onConnectionStatusChanged sdk handle connId status (sdk.connectionLink connId) now with
    | (state, .error _) => { self with toCommsTransport := state }
    | (state, .ok place) =>
      { toCommsTransport := { state with
          closeRequests := if status = .closed then state.closeRequests.filter (· ≠ connId)
            else state.closeRequests }
        reported := self.report connId status place }
  | .link handle linkId now _ =>
    { self with toCommsTransport := (self.ensureLink sdk handle linkId now).1 }
  | .opens linkId handle =>
    match self.links.lookup linkId with
    | none => self
    | some place => { self with toCommsTransport := self.openLink place (handle.map Subtype.val) }
  | .dequeues => { self with deadLinkQueue := self.deadLinkQueue.drop 1 }
  | .reopens linkId handle =>
    match self.links.lookup linkId with
    | none => self
    | some place => { self with toCommsTransport := self.openHandle place (handle.map Subtype.val) }
  | .closes linkId =>
    match self.links.lookup linkId with
    | none => self
    | some place => { self with toCommsTransport := self.close place }

end Connections

/-- The transport and its connections, from the start on. -/
def connectionMachine (sdk : Sdk) : Machine Connections (ConnectionEvent sdk) Unit where
  init := {}
  step state event := (state.step sdk event, ())

/-- A link with an open connection remembers an open one, for which it is found, and is active. -/
def Connections.UsableAt (state : Connections) (place : ℕ) : Prop :=
  ∀ link, state.objects[place]? = some link → (∃ connId, (connId, place) ∈ state.reported) →
    ∃ connId, link.connectionId = some connId ∧ (connId, place) ∈ state.reported ∧
      state.connectionLinks.lookup connId = some place ∧ link.active = true

/-- **Links with an open connection are usable.** -/
def Connections.Usable (state : Connections) : Prop := ∀ place, state.UsableAt place

/-- **A link is opened again** once when the connection that it remembers is closed, and RACE was
not asked to close it. -/
def Connections.Reconnects {sdk : Sdk} (state : Connections) : ConnectionEvent sdk → Prop
  | .connection handle connId .closed now fits =>
    ∀ place link, state.links.lookup (sdk.connectionLink connId) = some place →
      state.objects[place]? = some link → link.connectionId = some connId →
      connId ∉ state.closeRequests →
      (state.step sdk (.connection handle connId .closed now fits)).deadLinkQueue =
        state.deadLinkQueue ++ [place]
  | _ => True

/-- No other connection of the link is open when one is reported to be something else than open or
available, and a link that was closed on purpose does not lose a connection that RACE was not
asked to close. -/
def Connections.Safe {sdk : Sdk} (state : Connections) : ConnectionEvent sdk → Prop
  | .connection _ connId status _ _ =>
    ∀ place link, state.links.lookup (sdk.connectionLink connId) = some place →
      state.objects[place]? = some link →
      (status ≠ .open → status ≠ .available →
        ∀ other, (other, place) ∈ state.reported → status = .closed ∧ other = connId) ∧
      (status = .closed → link.manuallyClosed = true → link.connectionId = some connId →
        connId ∈ state.closeRequests)
  | _ => True

/-! ### Links and their names -/

namespace CommsTransport

variable {sdk : Sdk} {self : CommsTransport}

/-- The ids of the links. -/
def names (self : CommsTransport) : List String := self.objects.map (·.linkId)

theorem named_iff {place : ℕ} {linkId : String} : self.names[place]? = some linkId ↔
    ∃ link, self.objects[place]? = some link ∧ link.linkId = linkId := by
  rw [names, List.getElem?_map, Option.map_eq_some_iff]

theorem getElem?_setLink (place : ℕ) (f : CommsLink → CommsLink) (q : ℕ) :
    (self.setLink place f).objects[q]? =
      (self.objects[q]?).map fun link => if place = q then f link else link :=
  List.getElem?_modify _ _ _ _

theorem names_setLink (place : ℕ) {f : CommsLink → CommsLink}
    (keeps : ∀ link, (f link).linkId = link.linkId) : (self.setLink place f).names = self.names :=
  map_modify keeps self.objects place

theorem names_setStatus (place handle : ℕ) (connId : String) (status : ConnectionStatus) :
    (self.setStatus place handle connId status).names = self.names := by
  have reported : (self.setLink place fun link =>
      { link with connectionStatus := status }).names = self.names :=
    names_setLink place fun _ => rfl
  cases status
  case «open» => exact (names_setLink place fun _ => by rfl).trans reported
  case closed =>
    unfold setStatus
    dsimp only
    split_ifs
    · exact reported
    · exact (names_setLink place fun _ => by rfl).trans reported
  all_goals exact reported

/-- The other links are as before. -/
theorem getElem?_setStatus_of_ne {place q : ℕ} (ne : place ≠ q) (handle : ℕ) (connId : String)
    (status : ConnectionStatus) :
    (self.setStatus place handle connId status).objects[q]? = self.objects[q]? := by
  have other (state : CommsTransport) (f : CommsLink → CommsLink) :
      (state.setLink place f).objects[q]? = state.objects[q]? := by
    rw [getElem?_setLink]
    simp [ne]
  cases status
  case «open» => exact (other _ _).trans (other _ _)
  case closed =>
    unfold setStatus
    dsimp only
    split_ifs
    · exact other _ _
    · exact (other _ _).trans (other _ _)
  all_goals exact other _ _

/-- What a report makes of a link. -/
theorem getElem?_setStatus {place : ℕ} {link : CommsLink} (found : self.objects[place]? = some link)
    (handle : ℕ) (connId : String) (status : ConnectionStatus) :
    ∃ link', (self.setStatus place handle connId status).objects[place]? = some link' ∧
      link'.connectionStatus = status ∧
      (status = .open → link'.connectionId = some connId) ∧
      (status = .available → link'.connectionId = link.connectionId) := by
  have set (state : CommsTransport) {link : CommsLink} (f : CommsLink → CommsLink)
      (found : state.objects[place]? = some link) :
      (state.setLink place f).objects[place]? = some (f link) := by
    rw [getElem?_setLink, found, Option.map_some, if_pos rfl]
  have reported := set self (fun link => { link with connectionStatus := status }) found
  cases status
  case «open» =>
    refine ⟨_, set _ (fun link => { link with connectionId := some connId }) reported, ?_⟩
    exact ⟨rfl, fun _ => rfl, nofun⟩
  case closed =>
    unfold setStatus
    dsimp only
    split_ifs
    · exact ⟨_, reported, rfl, nofun, nofun⟩
    · refine ⟨_, set _ (fun link =>
        { link with failures := link.failures + 1, connectionId := none }) reported, ?_⟩
      exact ⟨rfl, nofun, nofun⟩
  case available => exact ⟨_, reported, rfl, nofun, fun _ => rfl⟩
  all_goals exact ⟨_, reported, rfl, nofun, nofun⟩

end CommsTransport

namespace Connections

/-- **A link is found by its id, its handles and its connections.** -/
structure Sound (sdk : Sdk) (state : Connections) : Prop where
  registered : ∀ linkId place, state.links.lookup linkId = some place ↔
    state.names[place]? = some linkId
  handles : ∀ (handle : ℕ) place, handle ≠ 0 → state.handleLinks.lookup (handle : ℤ) = some place →
    state.names[place]? = some (sdk.handleLink handle)
  noHandle : state.handleLinks.lookup 0 = none
  reported : ∀ connId place, (connId, place) ∈ state.reported →
    state.names[place]? = some (sdk.connectionLink connId)

variable {sdk : Sdk} {state : Connections}

/-- A link has one place. -/
theorem Sound.place_eq (sound : state.Sound sdk) {linkId : String} {p q : ℕ}
    (atP : state.names[p]? = some linkId) (atQ : state.names[q]? = some linkId) : p = q :=
  Option.some.inj (((sound.registered _ _).mpr atP).symm.trans ((sound.registered _ _).mpr atQ))

/-- A transport with the same names, and handles and reports that fit them. -/
theorem Sound.of_names (sound : state.Sound sdk) {state' : Connections}
    (names : state'.names = state.names) (links : state'.links = state.links)
    (handles : ∀ (handle : ℕ) place, state'.handleLinks.lookup (handle : ℤ) = some place →
      state.handleLinks.lookup (handle : ℤ) = some place ∨
        handle ≠ 0 ∧ state.names[place]? = some (sdk.handleLink handle))
    (reported : ∀ connId place, (connId, place) ∈ state'.reported →
      (connId, place) ∈ state.reported ∨
        state.names[place]? = some (sdk.connectionLink connId)) :
    state'.Sound sdk where
  registered linkId place := by
    rw [links, names]
    exact sound.registered linkId place
  handles handle place some found := by
    rw [names]
    rcases handles handle place found with old | ⟨-, named⟩
    · exact sound.handles handle place some old
    · exact named
  noHandle := by
    refine Option.eq_none_iff_forall_ne_some.mpr fun place found => ?_
    rcases handles 0 place found with old | ⟨some, -⟩
    · exact nomatch sound.noHandle.symm.trans old
    · exact some rfl
  reported connId place mem := by
    rw [names]
    rcases reported connId place mem with old | named
    · exact sound.reported connId place old
    · exact named

/-- What does not change a place keeps it usable. -/
theorem UsableAt.congr {state' : Connections} {q : ℕ} (usable : state.UsableAt q)
    (objects : state'.objects[q]? = state.objects[q]?)
    (reported : ∀ connId, (connId, q) ∈ state'.reported ↔ (connId, q) ∈ state.reported)
    (found : ∀ connId, (connId, q) ∈ state.reported →
      state'.connectionLinks.lookup connId = state.connectionLinks.lookup connId) :
    state'.UsableAt q := by
  intro link atQ some
  rw [objects] at atQ
  obtain ⟨connId, open_⟩ := some
  obtain ⟨connId, current, mem, known, active⟩ :=
    usable link atQ ⟨connId, (reported connId).mp open_⟩
  exact ⟨connId, current, (reported connId).mpr mem, (found connId mem).trans known, active⟩

/-- An inactive link is usable only without an open connection. -/
theorem usableAt_of_inactive {q : ℕ} {link : CommsLink} (atQ : state.objects[q]? = some link)
    (inactive : link.active = false) :
    state.UsableAt q ↔ ∀ connId, (connId, q) ∉ state.reported := by
  constructor
  · intro usable connId mem
    obtain ⟨-, -, -, -, active⟩ := usable link atQ ⟨connId, mem⟩
    exact absurd active (by simp [inactive])
  · rintro none - - ⟨connId, mem⟩
    exact absurd mem (none connId)

/-! ### Callbacks -/

/-- **A report of one connection** keeps the links usable if and only if no other connection of its
link is open, or it is open or available. -/
theorem usable_setStatus_iff (sound : state.Sound sdk) (usable : state.Usable) {place : ℕ}
    {connId : String} (named : state.names[place]? = some (sdk.connectionLink connId))
    (handle : ℕ) (status : ConnectionStatus) (requests : List String) :
    Usable { toCommsTransport := { state.setStatus place handle connId status with
                closeRequests := requests }
             reported := state.report connId status place } ↔
      (status ≠ .open → status ≠ .available →
        ∀ other, (other, place) ∈ state.reported → status = .closed ∧ other = connId) := by
  set after : Connections := { toCommsTransport := { state.setStatus place handle connId status with
    closeRequests := requests }, reported := state.report connId status place } with hafter
  -- The connection belongs to no other link.
  have foreign {q : ℕ} (ne : q ≠ place) : (connId, q) ∉ state.reported := fun mem =>
    ne (sound.place_eq (sound.reported connId q mem) named)
  have others (q : ℕ) (ne : q ≠ place) : after.UsableAt q := by
    refine (usable q).congr ?_ (fun other => ?_) fun other mem => ?_
    · exact CommsTransport.getElem?_setStatus_of_ne ne.symm handle connId status
    · cases status
      case «open» =>
        refine mem_dictSet.trans ⟨?_, fun mem => .inr ⟨mem, ?_⟩⟩
        · rintro (eq | ⟨mem, -⟩)
          · exact absurd (congrArg Prod.snd eq) ne
          · exact mem
        · rintro rfl
          exact foreign ne mem
      case closed =>
        refine List.mem_filter.trans ⟨And.left, fun mem => ⟨mem, decide_eq_true ?_⟩⟩
        rintro rfl
        exact foreign ne mem
      all_goals exact Iff.rfl
    · have apart : other ≠ connId := by
        rintro rfl
        exact foreign ne mem
      cases status
      case «open» => exact (lookup_dictSet _ _ _ _).trans (if_neg apart)
      case closed =>
        rw [hafter]
        unfold CommsTransport.setStatus
        dsimp only
        split_ifs
        · rfl
        · exact (lookup_filter_ne _ _ _).trans (if_neg apart)
      all_goals rfl
  have here : after.Usable ↔ after.UsableAt place :=
    ⟨fun h => h place, fun h q => if same : q = place then same ▸ h else others q same⟩
  obtain ⟨link, found, -⟩ := CommsTransport.named_iff.mp named
  obtain ⟨link', found', status', opened, kept⟩ :=
    CommsTransport.getElem?_setStatus found handle connId status
  have atPlace : after.objects[place]? = some link' := found'
  rw [here]
  cases status
  case «open» =>
    refine iff_of_true ?_ fun ne => absurd rfl ne
    rintro link'' found'' -
    obtain rfl := Option.some.inj (atPlace.symm.trans found'')
    refine ⟨connId, opened rfl, mem_dictSet.mpr (.inl rfl), ?_, ?_⟩
    · exact (lookup_dictSet _ _ _ _).trans (if_pos rfl)
    · rw [CommsLink.active, status']
      rfl
  case available =>
    refine iff_of_true ?_ fun _ ne => absurd rfl ne
    rintro link'' found'' some
    obtain rfl := Option.some.inj (atPlace.symm.trans found'')
    obtain ⟨current, remembered, mem, known, -⟩ := usable place link found some
    refine ⟨current, (kept rfl).trans remembered, mem, known, ?_⟩
    rw [CommsLink.active, status']
    rfl
  case closed =>
    rw [usableAt_of_inactive atPlace (by rw [CommsLink.active, status']; rfl)]
    constructor
    · intro none _ _ other mem
      refine ⟨rfl, by_contra fun ne => none other ?_⟩
      exact List.mem_filter.mpr ⟨mem, decide_eq_true ne⟩
    · intro alone other mem
      obtain ⟨mem, ne⟩ := List.mem_filter.mp mem
      exact of_decide_eq_true ne (alone nofun nofun other mem).2
  all_goals
    rw [usableAt_of_inactive atPlace (by rw [CommsLink.active, status']; rfl)]
    constructor
    · exact fun none _ _ other mem => absurd mem (none other)
    · exact fun alone other mem => nomatch (alone nofun nofun other mem).1

/-! ### Links that are made -/

/-- What `ensure_link` returns: the link with the id, which may be a new one. -/
theorem ensureLink_cases (sound : state.Sound sdk) {handle : ℕ} {linkId : String}
    (fits : handle ≠ 0 → sdk.handleLink handle = linkId) (now : ℤ) :
    (∃ place, state.ensureLink sdk handle linkId now = (state.toCommsTransport, .ok place) ∧
      state.links.lookup linkId = some place) ∨
    state.links.lookup linkId = none ∧
      (state.ensureLink sdk handle linkId now = (state.toCommsTransport, .error .keyError) ∨
        state.ensureLink sdk handle linkId now = ({ state.toCommsTransport with
          objects := state.objects ++ [{
            linkId, endpoints := sdk.personasForLink linkId, createTime := now }]
          links := dictSet state.links linkId state.objects.length
          handleLinks := if handle ≠ 0 then dictSet state.handleLinks handle state.objects.length
            else state.handleLinks }, .ok state.objects.length)) := by
  unfold CommsTransport.ensureLink
  cases byHandle : state.handleLinks.lookup (handle : ℤ) with
  | some place =>
      have some : handle ≠ 0 := by
        rintro rfl
        exact nomatch sound.noHandle.symm.trans byHandle
      have named := sound.handles handle place some byHandle
      rw [fits some] at named
      exact .inl ⟨place, rfl, (sound.registered _ _).mpr named⟩
  | none =>
      dsimp only
      cases byId : state.links.lookup linkId with
      | some place => exact .inl ⟨place, rfl, rfl⟩
      | none =>
          refine .inr ⟨rfl, ?_⟩
          dsimp only
          unfold CommsTransport.createLink
          by_cases known : sdk.channelKnown linkId = true
          · rw [if_pos known]
            exact .inr rfl
          · rw [if_neg known]
            exact .inl rfl

/-- No connection of a new link is open. -/
theorem unreported_new (sound : state.Sound sdk) (connId : String) :
    (connId, state.objects.length) ∉ state.reported := by
  intro mem
  obtain ⟨link, found, -⟩ := CommsTransport.named_iff.mp (sound.reported _ _ mem)
  exact absurd (List.getElem?_eq_some_iff.mp found).1 (lt_irrefl _)

/-- The elements of a list with one more. -/
theorem getElem?_concat_iff {α : Type} {xs : List α} {x y : α} {i : ℕ} :
    (xs ++ [x])[i]? = some y ↔ xs[i]? = some y ∨ i = xs.length ∧ x = y := by
  rcases lt_trichotomy i xs.length with lt | eq | gt
  · rw [List.getElem?_append_left lt]
    exact ⟨.inl, fun h => h.resolve_right fun last => lt.ne last.1⟩
  · rw [eq, List.getElem?_concat_length, Option.some.injEq]
    simp
  · rw [List.getElem?_eq_none_iff.mpr (by rw [List.length_append, List.length_singleton]; omega),
      List.getElem?_eq_none_iff.mpr gt.le]
    simp [gt.ne']

/-- A new link is found by its id and its handle. -/
theorem sound_made (sound : state.Sound sdk) {handle : ℕ} {linkId : String}
    (fits : handle ≠ 0 → sdk.handleLink handle = linkId)
    (unknown : state.links.lookup linkId = none) {state' : Connections}
    (names : state'.names = state.names ++ [linkId])
    (links : state'.links = dictSet state.links linkId state.names.length)
    (handles : state'.handleLinks = if handle ≠ 0 then
      dictSet state.handleLinks (handle : ℤ) state.names.length else state.handleLinks)
    (reported : state'.reported = state.reported) : state'.Sound sdk := by
  constructor
  · intro id place
    rw [links, names, lookup_dictSet, getElem?_concat_iff, ← sound.registered]
    split_ifs with same
    · rw [same, unknown, Option.some.injEq]
      simp [eq_comm]
    · simp [Ne.symm same]
  · intro other place some found
    rw [names, getElem?_concat_iff]
    rw [handles] at found
    split_ifs at found with given
    · rw [lookup_dictSet] at found
      split_ifs at found with same
      · refine .inr ⟨(Option.some.inj found).symm, ?_⟩
        rw [← fits given, Int.ofNat.inj same]
      · exact .inl (sound.handles other place some found)
    · exact .inl (sound.handles other place some found)
  · rw [handles]
    split_ifs with given
    · rw [lookup_dictSet, if_neg (by omega)]
      exact sound.noHandle
    · exact sound.noHandle
  · intro connId place mem
    rw [reported] at mem
    rw [names, getElem?_concat_iff]
    exact .inl (sound.reported connId place mem)

/-- **What `ensure_link` returns**: the link with the id, which may be a new one. -/
theorem ensureLink_spec (sound : state.Sound sdk) (usable : state.Usable) {handle : ℕ}
    {linkId : String} (fits : handle ≠ 0 → sdk.handleLink handle = linkId) (now : ℤ) :
    (∃ place, state.ensureLink sdk handle linkId now = (state.toCommsTransport, .ok place) ∧
      state.links.lookup linkId = some place) ∨
    state.links.lookup linkId = none ∧
      (state.ensureLink sdk handle linkId now = (state.toCommsTransport, .error .keyError) ∨
        ∃ made place, state.ensureLink sdk handle linkId now = (made, .ok place) ∧
          Sound sdk { state with toCommsTransport := made } ∧
          Usable { state with toCommsTransport := made } ∧
          made.names[place]? = some linkId ∧ ∀ connId, (connId, place) ∉ state.reported) := by
  rcases @ensureLink_cases sdk state sound handle linkId fits now with
    found | ⟨unknown, failed | created⟩
  · exact .inl found
  · exact .inr ⟨unknown, .inl failed⟩
  · refine .inr ⟨unknown, .inr ⟨_, _, created, ?_, fun place => ?_, ?_, unreported_new sound⟩⟩
    · have length : state.names.length = state.objects.length := List.length_map _
      refine @sound_made sdk state sound handle linkId fits unknown _ List.map_append ?_ ?_ rfl
      · rw [length]
      · rw [length]
    · by_cases new : place = state.objects.length
      · subst new
        rintro link - ⟨connId, open_⟩
        exact absurd open_ (unreported_new sound connId)
      · refine (usable place).congr ?_ (fun _ => Iff.rfl) fun _ _ => rfl
        dsimp only
        by_cases inside : place < state.objects.length
        · exact List.getElem?_append_left inside
        · rw [List.getElem?_eq_none_iff.mpr (not_lt.mp inside), List.getElem?_eq_none_iff.mpr]
          rw [List.length_append, List.length_singleton]
          omega
    · rw [CommsTransport.names, List.map_append]
      exact getElem?_concat_iff.mpr (.inr ⟨(List.length_map _).symm, rfl⟩)

/-! ### Events -/

theorem links_setStatus (place handle : ℕ) (connId : String) (status : ConnectionStatus) :
    (state.setStatus place handle connId status).links = state.links := by
  cases status
  case closed =>
    unfold CommsTransport.setStatus
    dsimp only
    split_ifs <;> rfl
  all_goals rfl

theorem lookup_handleLinks_setStatus (place handle : ℕ) (connId : String)
    (status : ConnectionStatus) {other : ℤ} {q : ℕ}
    (found : (state.setStatus place handle connId status).handleLinks.lookup other = some q) :
    state.handleLinks.lookup other = some q := by
  cases status
  case «open» =>
    refine Eq.trans (Eq.symm ?_) found
    refine (lookup_filter_ne _ _ _).trans (if_neg ?_)
    rintro rfl
    exact nomatch ((lookup_filter_ne _ _ _).trans (if_pos rfl)).symm.trans found
  case closed =>
    unfold CommsTransport.setStatus at found
    dsimp only at found
    split_ifs at found <;> exact found
  all_goals exact found

theorem deadLinkQueue_setStatus {place : ℕ} {link : CommsLink}
    (found : state.objects[place]? = some link) (handle : ℕ) (connId : String) :
    (state.setStatus place handle connId .closed).deadLinkQueue =
      if link.manuallyClosed then state.deadLinkQueue else state.deadLinkQueue ++ [place] := by
  unfold CommsTransport.setStatus
  dsimp only
  rw [found, Option.any_some]
  split_ifs <;> rfl

theorem sound_setStatus (sound : state.Sound sdk) {place : ℕ} {connId : String}
    (named : state.names[place]? = some (sdk.connectionLink connId)) (handle : ℕ)
    (status : ConnectionStatus) (requests : List String) :
    Sound sdk { toCommsTransport := { state.setStatus place handle connId status with
                  closeRequests := requests }
                reported := state.report connId status place } := by
  refine sound.of_names (CommsTransport.names_setStatus place handle connId status)
    (links_setStatus place handle connId status) (fun other q found => .inl ?_) ?_
  · exact lookup_handleLinks_setStatus place handle connId status found
  · intro other q mem
    cases status
    case «open» =>
      rcases mem_dictSet.mp mem with eq | ⟨mem, -⟩
      · obtain ⟨rfl, rfl⟩ := Prod.mk.inj eq
        exact .inr named
      · exact .inl mem
    case closed => exact .inl (List.mem_filter.mp mem).1
    all_goals exact .inl mem

/-- A change of links that is neither a report nor a connection. -/
theorem kept_of_links (sound : state.Sound sdk) (usable : state.Usable) {state' : Connections}
    (objects : ∀ q : ℕ, state'.objects[q]? = state.objects[q]? ∨ ∃ link link' : CommsLink,
      state.objects[q]? = some link ∧ state'.objects[q]? = some link' ∧
        link'.linkId = link.linkId ∧ link'.connectionId = link.connectionId ∧
        link'.active = link.active)
    (links : state'.links = state.links) (reported : state'.reported = state.reported)
    (connectionLinks : state'.connectionLinks = state.connectionLinks)
    (handles : ∀ (handle : ℕ) place, state'.handleLinks.lookup (handle : ℤ) = some place →
      state.handleLinks.lookup (handle : ℤ) = some place ∨
        handle ≠ 0 ∧ state.names[place]? = some (sdk.handleLink handle)) :
    state'.Sound sdk ∧ state'.Usable := by
  constructor
  · refine sound.of_names (List.ext_getElem? fun q => ?_) links handles fun connId place mem =>
      .inl (reported ▸ mem)
    rw [CommsTransport.names, CommsTransport.names, List.getElem?_map, List.getElem?_map]
    rcases objects q with same | ⟨link, link', found, found', named, -, -⟩
    · rw [same]
    · rw [found, found', Option.map_some, Option.map_some, named]
  · rintro q link' found' ⟨connId, open_⟩
    rw [reported] at open_
    rw [connectionLinks, reported]
    rcases objects q with same | ⟨link, link'', found, found'', -, remembers, active⟩
    · exact usable q link' (same ▸ found') ⟨connId, open_⟩
    · obtain rfl := Option.some.inj (found'.symm.trans found'')
      rw [remembers, active]
      exact usable q link found ⟨connId, open_⟩

/-- A link keeps its id, its connection and whether it is active. -/
theorem objects_setLink (place : ℕ) {f : CommsLink → CommsLink}
    (keeps : ∀ link, (f link).linkId = link.linkId ∧ (f link).connectionId = link.connectionId ∧
      (f link).active = link.active) (q : ℕ) :
    (state.setLink place f).objects[q]? = state.objects[q]? ∨ ∃ link link' : CommsLink,
      state.objects[q]? = some link ∧ (state.setLink place f).objects[q]? = some link' ∧
        link'.linkId = link.linkId ∧ link'.connectionId = link.connectionId ∧
        link'.active = link.active := by
  rw [CommsTransport.getElem?_setLink]
  cases state.objects[q]? with
  | none => exact .inl rfl
  | some link =>
      refine .inr ⟨link, _, rfl, rfl, ?_⟩
      split_ifs
      · exact keeps link
      · exact ⟨rfl, rfl, rfl⟩

/-- The handle of a link that is opened. -/
theorem handles_openHandle {linkId : String} {place : ℕ}
    (sound : state.Sound sdk) (known : state.links.lookup linkId = some place)
    (handle : Option (sdk.Handle linkId)) (other q : ℕ)
    (found : (dictSet state.handleLinks ((handle.map Subtype.val).elim (-1) fun n => (n : ℤ))
      place).lookup (other : ℤ) = some q) :
    state.handleLinks.lookup (other : ℤ) = some q ∨
      other ≠ 0 ∧ state.names[q]? = some (sdk.handleLink other) := by
  rw [lookup_dictSet] at found
  split_ifs at found with same
  · obtain rfl := Option.some.inj found
    cases handle with
    | none => exact absurd (show (other : ℤ) = -1 from same) (by omega)
    | some handle =>
        obtain ⟨given, some, of⟩ := handle
        obtain rfl : other = given := Int.ofNat.inj same
        exact .inr ⟨some, of ▸ (sound.registered _ _).mp known⟩
  · exact .inl found

section Connection

variable {handle : ℕ} {connId : String} {status : ConnectionStatus} {now : ℤ}
  {fits : handle ≠ 0 → sdk.handleLink handle = sdk.connectionLink connId} {made : CommsTransport}

theorem step_connection_of_error {e : PyError}
    (failed : state.ensureLink sdk handle (sdk.connectionLink connId) now = (made, .error e)) :
    state.step sdk (.connection handle connId status now fits) =
      { state with toCommsTransport := made } := by
  simp only [step, CommsTransport.onConnectionStatusChanged, failed]

theorem step_connection_of_ok {place : ℕ}
    (found : state.ensureLink sdk handle (sdk.connectionLink connId) now = (made, .ok place)) :
    state.step sdk (.connection handle connId status now fits) =
      { toCommsTransport := { made.setStatus place handle connId status with
          closeRequests := if status = .closed then
            (made.setStatus place handle connId status).closeRequests.filter (· ≠ connId)
            else (made.setStatus place handle connId status).closeRequests }
        reported := state.report connId status place } := by
  simp only [step, CommsTransport.onConnectionStatusChanged, found]

/-- A link that is opened again, or was closed on purpose. -/
theorem reconnects_iff {place : ℕ} {link : CommsLink}
    (found : state.ensureLink sdk handle (sdk.connectionLink connId) now =
      (state.toCommsTransport, .ok place))
    (known : state.links.lookup (sdk.connectionLink connId) = some place)
    (atPlace : state.objects[place]? = some link) :
    state.Reconnects (.connection handle connId status now fits) ↔
      (status = .closed → link.manuallyClosed = true → link.connectionId = some connId →
        connId ∈ state.closeRequests) := by
  cases status
  case closed =>
    have queued := deadLinkQueue_setStatus atPlace handle connId
    unfold Reconnects
    dsimp only
    rw [step_connection_of_ok found]
    dsimp only
    rw [queued]
    constructor
    · intro reconnects _ manually current
      by_contra unasked
      have again := reconnects place link known atPlace current unasked
      rw [if_pos manually] at again
      exact absurd again (by simp)
    · intro asked place' link' known' atPlace' current unasked
      obtain rfl := Option.some.inj (known.symm.trans known')
      obtain rfl := Option.some.inj (atPlace.symm.trans atPlace')
      rw [if_neg fun manually => unasked (asked rfl manually current)]
  all_goals exact iff_of_true trivial nofun

/-- A link that is not known loses no connection. -/
theorem reconnects_of_unknown
    (unknown : state.links.lookup (sdk.connectionLink connId) = none) :
    state.Reconnects (.connection handle connId status now fits) := by
  cases status
  case closed => exact fun place link known => nomatch unknown.symm.trans known
  all_goals trivial

theorem safe_of_unknown (unknown : state.links.lookup (sdk.connectionLink connId) = none) :
    state.Safe (.connection handle connId status now fits) :=
  fun _ _ known => nomatch unknown.symm.trans known

end Connection

/-- **What an event does**: the links remain sound, and they remain usable and are opened again if
and only if it is safe. -/
theorem usable_step_iff (sound : state.Sound sdk) (usable : state.Usable)
    (event : ConnectionEvent sdk) :
    (state.step sdk event).Sound sdk ∧
      ((state.step sdk event).Usable ∧ state.Reconnects event ↔ state.Safe event) := by
  have kept {event : ConnectionEvent sdk} (after : (state.step sdk event).Sound sdk ∧
      (state.step sdk event).Usable) (reconnects : state.Reconnects event)
      (safe : state.Safe event) : (state.step sdk event).Sound sdk ∧
        ((state.step sdk event).Usable ∧ state.Reconnects event ↔ state.Safe event) :=
    ⟨after.1, iff_of_true ⟨after.2, reconnects⟩ safe⟩
  cases event with
  | connection handle connId status now fits =>
      rcases ensureLink_spec sound usable fits now with
        ⟨place, found, known⟩ | ⟨unknown, failed | ⟨made, place, created, sound', usable', named,
          unreported⟩⟩
      · have named := (sound.registered _ _).mp known
        obtain ⟨link, atPlace, -⟩ := CommsTransport.named_iff.mp named
        rw [step_connection_of_ok found, reconnects_iff found known atPlace,
          usable_setStatus_iff sound usable named handle status]
        refine ⟨sound_setStatus sound named handle status _, ?_⟩
        constructor
        · rintro ⟨alone, asked⟩ place' link' known' atPlace'
          obtain rfl := Option.some.inj (known.symm.trans known')
          obtain rfl := Option.some.inj (atPlace.symm.trans atPlace')
          exact ⟨alone, asked⟩
        · exact fun safe => safe place link known atPlace
      · refine kept ?_ (reconnects_of_unknown unknown) (safe_of_unknown unknown)
        rw [step_connection_of_error failed]
        exact ⟨sound, usable⟩
      · refine kept ?_ (reconnects_of_unknown unknown) (safe_of_unknown unknown)
        rw [step_connection_of_ok created]
        refine ⟨sound_setStatus sound' named handle status _, ?_⟩
        exact (usable_setStatus_iff sound' usable' named handle status _).mpr
          fun _ _ other mem => absurd mem (unreported other)
  | link handle linkId now fits =>
      refine kept ?_ trivial trivial
      unfold step
      rcases ensureLink_spec sound usable fits now with
        ⟨place, found, known⟩ | ⟨unknown, failed | ⟨made, place, created, sound', usable', -, -⟩⟩
      · dsimp only
        rw [found]
        exact ⟨sound, usable⟩
      · dsimp only
        rw [failed]
        exact ⟨sound, usable⟩
      · dsimp only
        rw [created]
        exact ⟨sound', usable'⟩
  | opens linkId handle =>
      refine kept ?_ trivial trivial
      unfold step
      dsimp only
      cases known : state.links.lookup linkId with
      | none => exact ⟨sound, usable⟩
      | some place =>
          exact kept_of_links sound usable (objects_setLink place fun _ => ⟨by rfl, by rfl, by rfl⟩)
            rfl rfl rfl (handles_openHandle sound known handle)
  | dequeues =>
      refine kept ?_ trivial trivial
      exact kept_of_links sound usable (fun _ => .inl rfl) rfl rfl rfl fun _ _ found => .inl found
  | reopens linkId handle =>
      refine kept ?_ trivial trivial
      unfold step
      dsimp only
      cases known : state.links.lookup linkId with
      | none => exact ⟨sound, usable⟩
      | some place =>
          exact kept_of_links sound usable (fun _ => .inl rfl) rfl rfl rfl
            (handles_openHandle sound known handle)
  | closes linkId =>
      refine kept ?_ trivial trivial
      unfold step
      dsimp only
      cases known : state.links.lookup linkId with
      | none => exact ⟨sound, usable⟩
      | some place =>
          exact kept_of_links sound usable (objects_setLink place fun _ => ⟨by rfl, by rfl, by rfl⟩)
            rfl rfl rfl fun _ _ found => .inl found

end Connections

/-- **When links stay usable.** In every run, every event leaves the links with an open connection
usable and those that lost theirs queued to be opened again, exactly if every event is safe. -/
theorem usable_iff (sdk : Sdk) (events : List (ConnectionEvent sdk)) :
    (connectionMachine sdk).Admits
        (fun state _ event => (state.step sdk event).Usable ∧ state.Reconnects event) events ↔
      (connectionMachine sdk).Admits (fun state _ event => state.Safe event) events := by
  refine Machine.admits_iff_of_invariant _ (P := fun state _ => state.Sound sdk ∧ state.Usable)
    ?_ ?_ ?_
  · refine ⟨⟨fun _ _ => iff_of_false nofun nofun, nofun, rfl, nofun⟩, ?_⟩
    rintro place link atPlace -
    exact nomatch atPlace
  · rintro state - event ⟨sound, usable⟩
    exact (Connections.usable_step_iff sound usable event).2
  · rintro state - event ⟨sound, usable⟩ safe
    obtain ⟨sound', same⟩ := Connections.usable_step_iff sound usable event
    exact ⟨sound', (same.mpr safe).1⟩

/-- An SDK with one link. -/
def exampleSdk : Sdk where
  connectionLink _ := "link"
  handleLink _ := "link"
  channelKnown _ := true
  personasForLink _ := ["persona"]

/-- Two connections of the link are opened, and the first one is closed. -/
def exampleConnections : List (ConnectionEvent exampleSdk) :=
  [.connection 0 "first" .open 0 (absurd rfl), .connection 0 "second" .open 0 (absurd rfl),
    .connection 0 "first" .closed 0 (absurd rfl)]

/-- The second connection is open, but the link remembers none and is inactive. -/
theorem late_close_disables :
    ¬ (connectionMachine exampleSdk).Admits
      (fun state _ event => (state.step exampleSdk event).Usable ∧ state.Reconnects event)
      exampleConnections := by
  intro admits
  have usable := (admits (exampleConnections.take 2) _ [] rfl).1
  obtain ⟨link, atPlace, forgotten⟩ : ∃ link : CommsLink,
      (((connectionMachine exampleSdk).run (exampleConnections.take 2)).1.step exampleSdk
        (.connection 0 "first" .closed 0 (absurd rfl))).objects[0]? = some link ∧
      link.connectionId = none := ⟨_, rfl, rfl⟩
  obtain ⟨connId, current, -⟩ := usable 0 link atPlace ⟨"second", by decide⟩
  exact nomatch forgotten.symm.trans current

end Prism.Transport
