import Prism.Transport.EpochLinks

/-!
Links that are loaded and promoted for an epoch
(`load_link` and `promote` in `prism/common/transport/epoch_transport.py`).

Every wrapped link that is listed with its transport is one reference to the link that it wraps. A
link that cannot be loaded is put into the list of matches all the same, and wrapping it raises. The
epoch of a wrapped link is a name, so that `promote` never finds the link to be one of its own
transport, and wraps it once more.

* `referencedOnce`: the references are those of the wrapped links, after all histories.
* `wraps_iff`: the histories in which loading and promoting do what they should.
-/

namespace Prism.Transport

open Lib

namespace LinkState

variable (self : LinkState)

/-- The link that `promote` returns. -/
def promoted (transport : ℕ) : AnyLink → EpochLink
  | .raw place => { serial := self.wrapped.length, inner := place, transport }
  | .wrapped link => { serial := self.wrapped.length, inner := link.inner, transport }

/-- The references of all links. -/
def references : List (List EpochLink) := self.links.map RawLink.references

/-- There is no match for a link, and the inner channel does not load it. -/
def Unloaded (channelId linkAddress : String) (loaded : Option ℕ) : Prop :=
  self.links.findIdx? (RawLink.fits · channelId linkAddress) = none ∧ self.known loaded = none

/-- Every listed link is one reference to the link that it wraps. -/
def ReferencedOnce : Prop :=
  ∀ transport, ∀ link ∈ self.epochLinks transport,
    ∃ raw, self.links[link.inner]? = some raw ∧ raw.references.count link = 1

/-- **What loading and promoting should do.** A failed load returns `None` and changes nothing; a
link of the transport is promoted to itself, without a new reference. -/
def Wraps : LinkEvent → Prop
  | .loadLink transport channelId linkAddress loaded =>
    self.Unloaded channelId linkAddress loaded →
      (self.step (.loadLink transport channelId linkAddress loaded)).2 = .ok false ∧
        (self.step (.loadLink transport channelId linkAddress loaded)).1 = self
  | .promote transport serial =>
    ∀ link, self.wrapped[serial]? = some link → link.transport = transport →
      self.promoted transport (.wrapped link) = link ∧
        (self.promote transport (.wrapped link)).references = self.references
  | _ => True

/-- The link can be loaded, and no link of the transport is promoted. -/
def Wrappable : LinkEvent → Prop
  | .loadLink _ channelId linkAddress loaded => ¬ self.Unloaded channelId linkAddress loaded
  | .promote transport serial =>
    ∀ link, self.wrapped[serial]? = some link → link.transport ≠ transport
  | _ => True

variable {self}

/-- A failed load raises, and changes nothing. -/
theorem step_of_unloaded {transport : ℕ} {channelId linkAddress : String} {loaded : Option ℕ}
    (unloaded : self.Unloaded channelId linkAddress loaded) :
    self.step (.loadLink transport channelId linkAddress loaded) =
      (self, .error .attributeError) := by
  simp only [step, loadLink, unloaded.1, unloaded.2]

/-- A link that is promoted is a new one. -/
theorem Wired.promoted_ne (wired : Wired self) {transport : ℕ} {link : EpochLink}
    (made : link ∈ self.wrapped) : self.promoted transport (.wrapped link) ≠ link := by
  intro same
  have serial : self.wrapped.length = link.serial := congrArg EpochLink.serial same
  exact (wired.numbered link made).ne serial.symm

/-- **Every listed link is one reference.** -/
theorem Wired.referencedOnce (wired : Wired self) : self.ReferencedOnce := by
  intro transport link mem
  have inside := wired.inside link (wired.made transport link mem)
  have found := List.getElem?_eq_getElem inside
  refine ⟨_, found, ?_⟩
  have owned := wired.owned transport link mem
  have referred := (wired.referenced link.inner _ found link).mpr ⟨rfl, owned.symm ▸ mem⟩
  exact List.count_eq_one_of_mem (wired.distinct _ (List.mem_of_getElem? found)) referred

/-- **One event** does what it should exactly when the link can be loaded, or is not one of the
transport. -/
theorem Wired.wrapsEvent_iff (wired : Wired self) (event : LinkEvent) :
    self.Wraps event ↔ self.Wrappable event := by
  cases event with
  | loadLink transport channelId linkAddress loaded =>
      constructor
      · intro wraps unloaded
        have returned := (wraps unloaded).1
        rw [step_of_unloaded unloaded] at returned
        cases returned
      · exact fun loads unloaded => absurd unloaded loads
  | promote transport serial =>
      constructor
      · intro wraps link found own
        exact wired.promoted_ne (List.mem_of_getElem? found) (wraps link found own).1
      · exact fun other link found own => absurd own (other link found)
  | _ => exact Iff.rfl

end LinkState

/-- The references are those of the wrapped links after all histories. -/
theorem referencedOnce (events : List LinkEvent) : (linksAfter events).ReferencedOnce :=
  (wired_after events).referencedOnce

/-- **Loading and promoting** do what they should in a history, with every listed link as one
reference in all its states, exactly when every link can be loaded and no link is promoted that is
one of the transport already. -/
theorem wraps_iff (events : List LinkEvent) :
    (linkMachine.Admits (fun state _ event => state.Wraps event) events ∧
        ∀ before after, events = before ++ after → (linksAfter before).ReferencedOnce) ↔
      linkMachine.Admits (fun state _ event => state.Wrappable event) events := by
  rw [and_iff_left fun before _ _ => referencedOnce before]
  exact forall₄_congr fun before event after _ => (wired_after before).wrapsEvent_iff event

/-- A link that is promoted for an epoch. -/
def onePromoted : List LinkEvent := [.appears "direct" "a" 0, .promoteRaw 1 0]

/-- **A link that is promoted again** is wrapped again, and a link that cannot be loaded raises. -/
theorem promoted_again :
    (linksAfter onePromoted).references = [[⟨0, 0, 1⟩]] ∧
      (linksAfter (onePromoted ++ [.promote 1 0])).references = [[⟨0, 0, 1⟩, ⟨1, 0, 1⟩]] ∧
      ¬ (linksAfter onePromoted).Wraps (.promote 1 0) ∧
      ((linksAfter onePromoted).step (.loadLink 1 "direct" "b" none)).2 =
        .error .attributeError := by
  refine ⟨rfl, rfl, fun wraps => ?_, rfl⟩
  have same := (wraps ⟨0, 0, 1⟩ rfl rfl).1
  exact absurd same (by decide)

end Prism.Transport
