import Prism.Lib.LiveList
import Prism.Lib.Machine
import Prism.Python

/-!
The links of an epoch, and what is left of them when it is shut down
(`prism/common/transport/epoch_transport.py`, `prism/common/transport/transport.py`).

The transport of an epoch wraps links of the underlying transport. Each wrapped link is listed with
the transport, and with the link that it wraps as a reference to it; a link that nothing refers to
may be disposed of. `close` takes a wrapped link off both lists, and `shutdown` closes the links
that are listed with the transport. It walks the very list that `close` takes them off, and so it
passes over every other one.

* `Wired`: a link is referred to by the wrapped links that are open, and by no others.
* `shutdown_epochLinks`: what `shutdown` leaves.
* `shutdown_releases_iff`: it releases all links exactly when at most one is open.
-/

namespace Prism.Transport

open Lib

/-- An `EpochLink`: the place of the link that it wraps, and the transport that it belongs to. -/
structure EpochLink where
  serial : ℕ
  inner : ℕ
  transport : ℕ
deriving DecidableEq, Repr

/-- A `Link` of the underlying transport. -/
structure RawLink where
  channelId : String
  linkAddress : String
  loaded : Bool
  active : Bool
  pendingSends : ℕ
  lastSend : ℤ
  createTime : ℤ
  references : List EpochLink
deriving DecidableEq, Repr

/-- The link is open, has nothing to send, and has been quiet since before the delay. -/
def RawLink.idle (self : RawLink) (reaperDelay now : ℤ) : Bool :=
  self.active && self.pendingSends = 0 && now - self.lastSend > reaperDelay &&
    now - self.createTime > reaperDelay

/-- `disposable`. -/
def RawLink.disposable (self : RawLink) (reaperDelay now : ℤ) : Bool :=
  self.idle reaperDelay now && self.references.isEmpty

/-- The link is one that `load_link` looks for. -/
def RawLink.fits (self : RawLink) (channelId linkAddress : String) : Bool :=
  self.channelId = channelId && self.linkAddress = linkAddress && self.loaded && self.active

/-- What `promote` is given. -/
inductive AnyLink where
  | raw (place : ℕ)
  | wrapped (link : EpochLink)

/-- The underlying links by their places, the `EpochLink`s that were made, and the `epoch_links`
of each transport. -/
structure LinkState where
  links : List RawLink := []
  wrapped : List EpochLink := []
  epochLinks : ℕ → List EpochLink := fun _ => []

namespace LinkState

/-- A new `EpochLink` of the transport, which is appended to its `epoch_links`. -/
def wrap (self : LinkState) (transport place : ℕ) : LinkState :=
  let link : EpochLink := { serial := self.wrapped.length, inner := place, transport }
  { self with
    links := self.links.modify place fun raw => { raw with references := raw.references ++ [link] }
    wrapped := self.wrapped ++ [link]
    epochLinks := Function.update self.epochLinks transport (self.epochLinks transport ++ [link]) }

/-- `EpochChannel.create_link`, with what the inner channel returns. -/
def createLink (self : LinkState) (transport : ℕ) (created : Option ℕ) : LinkState × Py Bool :=
  match created with
  | none => (self, .ok false)
  | some place => (self.wrap transport place, .ok true)

/-- `EpochChannel.load_link`, with what the inner channel returns: that is put into the list of
matches also when it is no link. -/
def loadLink (self : LinkState) (transport : ℕ) (channelId linkAddress : String)
    (loaded : Option ℕ) : LinkState × Py Bool :=
  match self.links.findIdx? (RawLink.fits · channelId linkAddress) with
  | some place => (self.wrap transport place, .ok true)
  | none =>
    match loaded with
    | some place => (self.wrap transport place, .ok true)
    | none => (self, .error .attributeError)

/-- `promote`. An `EpochLink` has the name of its epoch for `epoch`, which is never equal to the
transport, and so the link that it wraps is promoted. -/
def promote (self : LinkState) (transport : ℕ) : AnyLink → LinkState
  | .raw place => self.wrap transport place
  | .wrapped link => self.wrap transport link.inner

/-- `EpochLink.open`. -/
def openLink (self : LinkState) (link : EpochLink) : LinkState :=
  { self with
    links := self.links.modify link.inner fun raw =>
      if link ∈ raw.references then raw
      else { raw with references := raw.references ++ [link] }
    epochLinks :=
      if link ∈ self.epochLinks link.transport then self.epochLinks
      else Function.update self.epochLinks link.transport
        (self.epochLinks link.transport ++ [link]) }

/-- `EpochLink.close`. -/
def close (self : LinkState) (link : EpochLink) : LinkState :=
  { self with
    links := self.links.modify link.inner fun raw =>
      { raw with references := raw.references.erase link }
    epochLinks := Function.update self.epochLinks link.transport
      ((self.epochLinks link.transport).erase link) }

theorem length_close_le (self : LinkState) (link : EpochLink) (transport : ℕ) :
    ((self.close link).epochLinks transport).length ≤ (self.epochLinks transport).length := by
  unfold close
  by_cases same : transport = link.transport
  · subst same
    dsimp only
    rw [Function.update_self]
    exact List.length_erase_le
  · dsimp only
    rw [Function.update_of_ne same]

/-- `for link in self.epoch_links: await link.close()`, from the cursor on. -/
def shutdownFrom (transport cursor : ℕ) (self : LinkState) : LinkState :=
  match _met : nextFrom (fun _ => true) (self.epochLinks transport) cursor with
  | none => self
  | some (link, cursor) => shutdownFrom transport cursor (self.close link)
termination_by (self.epochLinks transport).length - cursor
decreasing_by
  have shorter := self.length_close_le link transport
  obtain ⟨passed, rest, split, rfl, le, -⟩ := split_of_nextFrom _met
  rw [split, List.length_append, List.length_cons] at shorter ⊢
  omega

/-- `shutdown`. -/
def shutdown (self : LinkState) (transport : ℕ) : LinkState := shutdownFrom transport 0 self

end LinkState

/-! ### Histories -/

/-- What happens to links: the underlying transport has a new one, or one changes, and calls. -/
inductive LinkEvent where
  | appears (channelId linkAddress : String) (createTime : ℤ)
  | changes (place : ℕ) (loaded active : Bool) (pendingSends : ℕ) (lastSend : ℤ)
  | createLink (transport : ℕ) (created : Option ℕ)
  | loadLink (transport : ℕ) (channelId linkAddress : String) (loaded : Option ℕ)
  | promoteRaw (transport place : ℕ)
  | promote (transport serial : ℕ)
  | openLink (serial : ℕ)
  | close (serial : ℕ)
  | shutdown (transport : ℕ)

namespace LinkState

/-- A link of the underlying transport, if there is one at the place. -/
def known (self : LinkState) (place : Option ℕ) : Option ℕ :=
  place.filter fun place => place < self.links.length

/-- One event. An `EpochLink` is named by its number. -/
def step (self : LinkState) : LinkEvent → LinkState × Py Bool
  | .appears channelId linkAddress createTime =>
    ({ self with links := self.links ++ [{
        channelId, linkAddress, createTime, loaded := false, active := false
        pendingSends := 0, lastSend := 0, references := [] }] }, .ok true)
  | .changes place loaded active pendingSends lastSend =>
    ({ self with links := self.links.modify place fun raw =>
        { raw with loaded, active, pendingSends, lastSend } }, .ok true)
  | .createLink transport created => self.createLink transport (self.known created)
  | .loadLink transport channelId linkAddress loaded =>
    self.loadLink transport channelId linkAddress (self.known loaded)
  | .promoteRaw transport place =>
    match self.known (some place) with
    | some place => (self.promote transport (.raw place), .ok true)
    | none => (self, .ok false)
  | .promote transport serial =>
    match self.wrapped[serial]? with
    | some link => (self.promote transport (.wrapped link), .ok true)
    | none => (self, .ok false)
  | .openLink serial =>
    match self.wrapped[serial]? with
    | some link => (self.openLink link, .ok true)
    | none => (self, .ok false)
  | .close serial =>
    match self.wrapped[serial]? with
    | some link => (self.close link, .ok true)
    | none => (self, .ok false)
  | .shutdown transport => (self.shutdown transport, .ok true)

end LinkState

/-- The links and their epochs, from the start on. -/
def linkMachine : Machine LinkState LinkEvent (Py Bool) where
  init := {}
  step := LinkState.step

/-- The links after some events. -/
def linksAfter (events : List LinkEvent) : LinkState := (linkMachine.run events).1

/-- **The shutdown of a transport releases its links.** -/
structure Released (before after : LinkState) (transport : ℕ) : Prop where
  /-- The list of the transport is empty, and the others are as before. -/
  closed : after.epochLinks transport = []
  others : ∀ other, other ≠ transport → after.epochLinks other = before.epochLinks other
  /-- No link is referred to by a link of the transport any more, and all other references are as
  before. -/
  unreferenced : ∀ raw ∈ after.links, ∀ link ∈ raw.references, link.transport ≠ transport
  untouched : after.links.map (fun raw => raw.references.filter (·.transport ≠ transport)) =
    before.links.map fun raw => raw.references.filter (·.transport ≠ transport)
  /-- A link that only this transport used can be disposed of once it is idle. -/
  disposable : ∀ (place : ℕ) (raw raw' : RawLink), before.links[place]? = some raw →
    after.links[place]? = some raw' → (∀ link ∈ raw.references, link.transport = transport) →
    ∀ reaperDelay now, raw'.disposable reaperDelay now = raw'.idle reaperDelay now

/-! ### References -/

namespace LinkState

/-- **A link is referred to by the wrapped links that are open**, that is listed with their
transport, and that wrap it. -/
structure Wired (state : LinkState) : Prop where
  numbered : ∀ link ∈ state.wrapped, link.serial < state.wrapped.length
  inside : ∀ link ∈ state.wrapped, link.inner < state.links.length
  made : ∀ transport, ∀ link ∈ state.epochLinks transport, link ∈ state.wrapped
  owned : ∀ transport, ∀ link ∈ state.epochLinks transport, link.transport = transport
  listed : ∀ transport, (state.epochLinks transport).Nodup
  distinct : ∀ raw ∈ state.links, raw.references.Nodup
  referenced : ∀ place raw, state.links[place]? = some raw → ∀ link,
    link ∈ raw.references ↔ link.inner = place ∧ link ∈ state.epochLinks link.transport

variable {self : LinkState} {transport : ℕ} {link : EpochLink}

/-- What a link in a list was, one of which is changed. -/
theorem getElem?_of_modify {links : List RawLink} {place other : ℕ} {f : RawLink → RawLink}
    {raw : RawLink} (found : (links.modify place f)[other]? = some raw) :
    ∃ old, links[other]? = some old ∧ raw = if place = other then f old else old := by
  rw [List.getElem?_modify] at found
  obtain ⟨old, inList, eq⟩ := Option.map_eq_some_iff.mp found
  exact ⟨old, inList, eq.symm⟩

/-- A wrapped link that is closed is put on both lists. -/
theorem Wired.attach (wired : Wired self) (made : link ∈ self.wrapped)
    (unlisted : link ∉ self.epochLinks link.transport) :
    Wired { self with
      links := self.links.modify link.inner fun raw =>
        { raw with references := raw.references ++ [link] }
      epochLinks := Function.update self.epochLinks link.transport
        (self.epochLinks link.transport ++ [link]) } := by
  have epochLinks : ∀ other l, l ∈ Function.update self.epochLinks link.transport
      (self.epochLinks link.transport ++ [link]) other ↔
      l ∈ self.epochLinks other ∨ other = link.transport ∧ l = link := by
    intro other l
    by_cases same : other = link.transport
    · subst same
      rw [Function.update_self, List.mem_append, List.mem_singleton, and_iff_right rfl]
    · rw [Function.update_of_ne same, or_iff_left fun h => same h.1]
  have append : ∀ {links : List EpochLink}, links.Nodup → link ∉ links →
      (links ++ [link]).Nodup := by
    intro links nodup away
    refine List.nodup_append.mpr ⟨nodup, List.nodup_singleton _, ?_⟩
    rintro l mem l' mem' rfl
    exact away (List.mem_singleton.mp mem' ▸ mem)
  constructor
  · exact wired.numbered
  · intro l mem
    rw [List.length_modify]
    exact wired.inside l mem
  · intro other l mem
    rcases (epochLinks other l).mp mem with mem | ⟨-, rfl⟩
    · exact wired.made other l mem
    · exact made
  · intro other l mem
    rcases (epochLinks other l).mp mem with mem | ⟨rfl, rfl⟩
    · exact wired.owned other l mem
    · rfl
  · intro other
    dsimp only
    by_cases same : other = link.transport
    · subst same
      rw [Function.update_self]
      exact append (wired.listed _) unlisted
    · rw [Function.update_of_ne same]
      exact wired.listed other
  · intro raw inLinks
    obtain ⟨other, at_other⟩ := List.mem_iff_getElem?.mp inLinks
    obtain ⟨old, inList, rfl⟩ := getElem?_of_modify at_other
    have distinct := wired.distinct old (List.mem_of_getElem? inList)
    split_ifs
    · exact append distinct fun mem => unlisted ((wired.referenced other old inList link).mp mem).2
    · exact distinct
  · intro other raw at_other l
    obtain ⟨old, inList, rfl⟩ := getElem?_of_modify at_other
    rw [epochLinks]
    have before := wired.referenced other old inList l
    split_ifs with here
    · change l ∈ old.references ++ [link] ↔ _
      rw [List.mem_append, List.mem_singleton, before]
      constructor
      · rintro (⟨inner, mem⟩ | rfl)
        · exact ⟨inner, .inl mem⟩
        · exact ⟨here, .inr ⟨rfl, rfl⟩⟩
      · rintro ⟨inner, mem | ⟨-, rfl⟩⟩
        · exact .inl ⟨inner, mem⟩
        · exact .inr rfl
    · rw [before]
      refine and_congr_right fun inner => ⟨.inl, ?_⟩
      rintro (mem | ⟨-, rfl⟩)
      · exact mem
      · exact absurd inner here

theorem Wired.wrap (wired : Wired self) (transport : ℕ) {place : ℕ}
    (inside : place < self.links.length) : Wired (self.wrap transport place) := by
  set link : EpochLink := { serial := self.wrapped.length, inner := place, transport } with hlink
  have numbered : Wired { self with wrapped := self.wrapped ++ [link] } := by
    refine { wired with numbered := ?_, inside := ?_, made := ?_ }
    · intro l mem
      rw [List.length_append]
      rcases List.mem_append.mp mem with mem | mem
      · exact Nat.lt_add_right _ (wired.numbered l mem)
      · obtain rfl := List.mem_singleton.mp mem
        exact Nat.lt_add_one _
    · intro l mem
      rcases List.mem_append.mp mem with mem | mem
      · exact wired.inside l mem
      · obtain rfl := List.mem_singleton.mp mem
        exact inside
    · exact fun other l mem => List.mem_append_left _ (wired.made other l mem)
  refine numbered.attach (List.mem_append_right _ (List.mem_singleton_self _)) fun mem => ?_
  exact absurd rfl (wired.numbered link (wired.made _ link mem)).ne

theorem Wired.close (wired : Wired self) (link : EpochLink) : Wired (self.close link) := by
  have epochLinks : ∀ other l, l ∈ (self.close link).epochLinks other ↔
      l ∈ self.epochLinks other ∧ ¬ (other = link.transport ∧ l = link) := by
    intro other l
    change l ∈ Function.update self.epochLinks link.transport
      ((self.epochLinks link.transport).erase link) other ↔ _
    by_cases same : other = link.transport
    · subst same
      rw [Function.update_self, (wired.listed _).mem_erase_iff, and_comm, and_iff_right rfl]
    · rw [Function.update_of_ne same, and_iff_left fun h => same h.1]
  constructor
  · exact wired.numbered
  · intro l mem
    change l.inner < (self.links.modify _ _).length
    rw [List.length_modify]
    exact wired.inside l mem
  · exact fun other l mem => wired.made other l ((epochLinks other l).mp mem).1
  · exact fun other l mem => wired.owned other l ((epochLinks other l).mp mem).1
  · intro other
    change (Function.update self.epochLinks link.transport
      ((self.epochLinks link.transport).erase link) other).Nodup
    by_cases same : other = link.transport
    · subst same
      rw [Function.update_self]
      exact (wired.listed _).erase _
    · rw [Function.update_of_ne same]
      exact wired.listed other
  · intro raw mem
    obtain ⟨other, at_other⟩ := List.mem_iff_getElem?.mp mem
    obtain ⟨old, inList, rfl⟩ := getElem?_of_modify at_other
    have distinct := wired.distinct old (List.mem_of_getElem? inList)
    split_ifs
    · exact distinct.erase _
    · exact distinct
  · intro other raw at_other l
    obtain ⟨old, inList, rfl⟩ := getElem?_of_modify at_other
    rw [epochLinks]
    have before := wired.referenced other old inList l
    have distinct := wired.distinct old (List.mem_of_getElem? inList)
    split_ifs with same
    · change l ∈ old.references.erase link ↔ _
      rw [distinct.mem_erase_iff, before]
      constructor
      · rintro ⟨ne, inner, mem⟩
        exact ⟨inner, mem, fun h => ne h.2⟩
      · rintro ⟨inner, mem, ne⟩
        exact ⟨fun eq => ne ⟨eq ▸ rfl, eq⟩, inner, mem⟩
    · rw [before]
      refine and_congr_right fun inner => ⟨fun mem => ⟨mem, ?_⟩, And.left⟩
      rintro ⟨-, rfl⟩
      exact same inner

theorem Wired.openLink (wired : Wired self) (made : link ∈ self.wrapped) :
    Wired (self.openLink link) := by
  by_cases listed : link ∈ self.epochLinks link.transport
  · -- an open link is on both lists already
    have links : self.links.modify link.inner (fun raw => if link ∈ raw.references then raw
        else { raw with references := raw.references ++ [link] }) = self.links :=
      modify_of_same fun raw found =>
        if_pos ((wired.referenced link.inner raw found link).mpr ⟨rfl, listed⟩)
    unfold LinkState.openLink
    rw [if_pos listed, links]
    exact wired
  · have links : self.links.modify link.inner (fun raw => if link ∈ raw.references then raw
        else { raw with references := raw.references ++ [link] }) =
        self.links.modify link.inner fun raw =>
          { raw with references := raw.references ++ [link] } :=
      modify_congr fun raw found => if_neg fun referred =>
        listed ((wired.referenced link.inner raw found link).mp referred).2
    unfold LinkState.openLink
    rw [if_neg listed, links]
    exact wired.attach made listed

/-! ### Shutting down -/

theorem shutdownFrom_none {cursor : ℕ}
    (none : nextFrom (fun _ => true) (self.epochLinks transport) cursor = none) :
    shutdownFrom transport cursor self = self := by
  rw [shutdownFrom]
  split
  · rfl
  · next found => rw [none] at found; cases found

theorem shutdownFrom_some {cursor next : ℕ}
    (found : nextFrom (fun _ => true) (self.epochLinks transport) cursor = some (link, next)) :
    shutdownFrom transport cursor self = shutdownFrom transport next (self.close link) := by
  rw [shutdownFrom]
  split
  · next none => rw [found] at none; cases none
  · next other =>
      rw [found] at other
      cases other
      rfl

/-- What holds of links and is kept by closing links of the transport holds after the shutdown. -/
theorem shutdownFrom_induction {P : LinkState → Prop} (cursor : ℕ) (wired : Wired self)
    (start : P self)
    (step : ∀ (state : LinkState) (link : EpochLink), Wired state →
      link ∈ state.epochLinks transport → P state → P (state.close link)) :
    Wired (shutdownFrom transport cursor self) ∧ P (shutdownFrom transport cursor self) := by
  fun_induction shutdownFrom transport cursor self with
  | case1 => exact ⟨wired, start⟩
  | case2 cursor self link next found ih =>
      have mem := List.mem_of_mem_drop (mem_of_nextFrom found)
      exact ih (wired.close link) (step self link wired mem start)

theorem Wired.close_epochLinks (wired : Wired self) {passed rest : List EpochLink}
    (split : self.epochLinks transport = passed ++ link :: rest) :
    (self.close link).epochLinks transport = passed ++ rest := by
  have mem : link ∈ self.epochLinks transport := by simp [split]
  obtain rfl := wired.owned transport link mem
  have nodup := wired.listed link.transport
  rw [split, List.nodup_append] at nodup
  have away : link ∉ passed := fun inPassed =>
    nodup.2.2 link inPassed link List.mem_cons_self rfl
  change Function.update self.epochLinks link.transport _ link.transport = _
  rw [Function.update_self, split, List.erase_append_right _ away, List.erase_cons_head]

/-- **What a shutdown leaves** in the list of the transport: every other link, from the cursor
on. -/
theorem shutdownFrom_epochLinks (wired : Wired self) (passed rest : List EpochLink)
    (split : self.epochLinks transport = passed ++ rest) :
    (shutdownFrom transport passed.length self).epochLinks transport =
      passed ++ everyOther rest := by
  induction rest using everyOther.induct generalizing self passed with
  | case1 =>
      rw [shutdownFrom_none, split]
      · rfl
      · rw [nextFrom_eq_none, split]
        simp
  | case2 link =>
      have met := nextFrom_true passed [] link
      rw [← split] at met
      have closed := wired.close_epochLinks split
      rw [shutdownFrom_some met, shutdownFrom_none, closed]
      · rfl
      · rw [nextFrom_eq_none, closed, List.append_nil, List.drop_eq_nil_of_le (Nat.le_succ _)]
        simp
  | case3 link next rest ih =>
      have met := nextFrom_true passed (next :: rest) link
      rw [← split] at met
      have closed : (self.close link).epochLinks transport = (passed ++ [next]) ++ rest := by
        rw [wired.close_epochLinks split, List.append_assoc]
        rfl
      have later := ih (wired.close link) (passed ++ [next]) closed
      rw [List.length_append, List.length_singleton, List.append_assoc] at later
      rw [shutdownFrom_some met, later]
      rfl

/-- **Every other link is left.** -/
theorem Wired.shutdown_epochLinks (wired : Wired self) (transport : ℕ) :
    (self.shutdown transport).epochLinks transport = everyOther (self.epochLinks transport) :=
  shutdownFrom_epochLinks wired [] _ rfl

theorem Wired.shutdown (wired : Wired self) (transport : ℕ) : Wired (self.shutdown transport) :=
  (shutdownFrom_induction (P := fun _ => True) 0 wired trivial fun _ _ _ _ _ => trivial).1

theorem known_lt {place : Option ℕ} {here : ℕ} (known : self.known place = some here) :
    here < self.links.length := by
  obtain ⟨-, inside⟩ := Option.filter_eq_some_iff.mp known
  exact of_decide_eq_true inside

/-- Every event keeps the two lists in step. -/
theorem Wired.step (wired : Wired self) (event : LinkEvent) : Wired (self.step event).1 := by
  cases event with
  | appears channelId linkAddress createTime =>
      refine { wired with inside := ?_, distinct := ?_, referenced := ?_ }
      · intro link mem
        change link.inner < (self.links ++ [_]).length
        rw [List.length_append]
        exact Nat.lt_add_right _ (wired.inside link mem)
      · intro raw mem
        rcases List.mem_append.mp mem with mem | mem
        · exact wired.distinct raw mem
        · obtain rfl := List.mem_singleton.mp mem
          exact List.nodup_nil
      · intro place raw found link
        change (self.links ++ [_])[place]? = some raw at found
        rcases lt_or_ge place self.links.length with old | new
        · rw [List.getElem?_append_left old] at found
          exact wired.referenced place raw found link
        · rw [List.getElem?_append_right new, List.getElem?_singleton] at found
          split_ifs at found
          obtain rfl := Option.some.inj found
          refine ⟨fun mem => absurd mem List.not_mem_nil, fun ⟨inner, mem⟩ => ?_⟩
          have inside := wired.inside link (wired.made _ link mem)
          rw [inner] at inside
          exact absurd inside (not_lt.mpr new)
  | changes place loaded active pendingSends lastSend =>
      refine { wired with inside := ?_, distinct := ?_, referenced := ?_ }
      · intro link mem
        change link.inner < (self.links.modify place _).length
        rw [List.length_modify]
        exact wired.inside link mem
      · intro raw mem
        obtain ⟨other, at_other⟩ := List.mem_iff_getElem?.mp mem
        obtain ⟨old, inList, rfl⟩ := getElem?_of_modify at_other
        have distinct := wired.distinct old (List.mem_of_getElem? inList)
        split_ifs <;> exact distinct
      · intro other raw found link
        obtain ⟨old, inList, rfl⟩ := getElem?_of_modify found
        have before := wired.referenced other old inList link
        split_ifs <;> exact before
  | createLink transport created =>
      change Wired (self.createLink transport (self.known created)).1
      cases known : self.known created with
      | none => exact wired
      | some place => exact wired.wrap transport (known_lt known)
  | loadLink transport channelId linkAddress loaded =>
      change Wired (self.loadLink transport channelId linkAddress (self.known loaded)).1
      unfold loadLink
      split
      · next place found =>
          obtain ⟨inside, -⟩ := List.findIdx?_eq_some_iff_getElem.mp found
          exact wired.wrap transport inside
      · cases known : self.known loaded with
        | none => exact wired
        | some place => exact wired.wrap transport (known_lt known)
  | promoteRaw transport place =>
      dsimp only [LinkState.step]
      cases known : self.known (some place) with
      | none => exact wired
      | some place => exact wired.wrap transport (known_lt known)
  | promote transport serial =>
      dsimp only [LinkState.step]
      cases found : self.wrapped[serial]? with
      | none => exact wired
      | some link => exact wired.wrap transport (wired.inside link (List.mem_of_getElem? found))
  | openLink serial =>
      dsimp only [LinkState.step]
      cases found : self.wrapped[serial]? with
      | none => exact wired
      | some link => exact wired.openLink (List.mem_of_getElem? found)
  | close serial =>
      dsimp only [LinkState.step]
      cases found : self.wrapped[serial]? with
      | none => exact wired
      | some link => exact wired.close link
  | shutdown transport => exact wired.shutdown transport

theorem close_others (self : LinkState) (link : EpochLink) {other : ℕ}
    (away : other ≠ link.transport) : (self.close link).epochLinks other = self.epochLinks other :=
  Function.update_of_ne away _ _

/-- Closing a link leaves the references of other transports. -/
theorem close_untouched (self : LinkState) (link : EpochLink) :
    (self.close link).links.map
        (fun raw => raw.references.filter (·.transport ≠ link.transport)) =
      self.links.map fun raw => raw.references.filter (·.transport ≠ link.transport) := by
  refine map_modify (fun raw => ?_) self.links link.inner
  change (raw.references.erase link).filter _ = _
  rw [← List.erase_filter, List.erase_of_not_mem]
  simp

/-- **When a shutdown releases the links of the transport**: at most one of them is open. -/
theorem Wired.released_iff (wired : Wired self) (transport : ℕ) :
    Released self (self.shutdown transport) transport ↔
      (self.epochLinks transport).length ≤ 1 := by
  rw [← everyOther_eq_nil, ← wired.shutdown_epochLinks]
  constructor
  · exact Released.closed
  · intro closed
    have after := wired.shutdown transport
    have untouched := (shutdownFrom_induction
      (P := fun state => state.links.map
          (fun raw => raw.references.filter (·.transport ≠ transport)) =
        self.links.map fun raw => raw.references.filter (·.transport ≠ transport)) 0 wired rfl
      fun state link wired mem same => by
        obtain rfl := wired.owned transport link mem
        exact (state.close_untouched link).trans same).2
    have unreferenced : ∀ raw ∈ (self.shutdown transport).links, ∀ link ∈ raw.references,
        link.transport ≠ transport := by
      rintro raw mem link referred rfl
      obtain ⟨place, at_place⟩ := List.mem_iff_getElem?.mp mem
      have listed := ((after.referenced place raw at_place link).mp referred).2
      rw [closed] at listed
      exact List.not_mem_nil listed
    refine ⟨closed, ?_, unreferenced, untouched, ?_⟩
    · exact (shutdownFrom_induction
        (P := fun state => ∀ other, other ≠ transport →
          state.epochLinks other = self.epochLinks other) 0 wired (fun _ _ => rfl)
        fun state link wired mem same other ne => by
          obtain rfl := wired.owned transport link mem
          exact (state.close_others link ne).trans (same other ne)).2
    · intro place raw raw' before now only reaperDelay time
      have none : raw'.references = [] := by
        refine List.eq_nil_iff_forall_not_mem.mpr fun link referred => ?_
        have other := unreferenced raw' (List.mem_of_getElem? now) link referred
        have same := congrArg (·[place]?) untouched
        rw [List.getElem?_map, List.getElem?_map, before] at same
        change Option.map _ (self.shutdown transport).links[place]? = _ at same
        rw [now] at same
        have kept : link ∈ raw.references.filter (·.transport ≠ transport) := by
          have lists := Option.some.inj same
          dsimp only at lists
          rw [← lists]
          exact List.mem_filter.mpr ⟨referred, by simpa using other⟩
        obtain ⟨mem, away⟩ := List.mem_filter.mp kept
        rw [only link mem] at away
        simp at away
      unfold RawLink.disposable
      rw [none]
      simp

end LinkState

/-- The two lists are in step after all histories. -/
theorem wired_after (events : List LinkEvent) : LinkState.Wired (linksAfter events) := by
  refine @Machine.run_induction _ _ _ linkMachine (fun _ _ _ => True)
    (fun state _ => LinkState.Wired state) ?_ (fun _ _ event wired _ => wired.step event) events
    fun _ _ _ _ => trivial
  constructor <;> simp [linkMachine]

/-- **When shutting down an epoch releases its links**: after every history, exactly when at most
one link of the epoch is open. Otherwise every other one stays open. -/
theorem shutdown_releases_iff (events : List LinkEvent) (transport : ℕ) :
    Released (linksAfter events) ((linksAfter events).shutdown transport) transport ↔
      ((linksAfter events).epochLinks transport).length ≤ 1 :=
  (wired_after events).released_iff transport

/-- An epoch that creates two links. -/
def twoLinks : List LinkEvent :=
  [.appears "direct" "a" 0, .appears "direct" "b" 0, .createLink 1 (some 0),
    .createLink 1 (some 1)]

/-- **The second link outlives its epoch.** -/
theorem shutdown_leaves_link :
    ¬ Released (linksAfter twoLinks) ((linksAfter twoLinks).shutdown 1) 1 := by
  intro released
  have closed := ((wired_after twoLinks).released_iff 1).mp released
  have open_links : ((linksAfter twoLinks).epochLinks 1).length = 2 := rfl
  rw [open_links] at closed
  exact absurd closed (by decide)

end Prism.Transport
