import Prism.Lockfree.Saved

/-!
The peers of a committee (`prism/server/CS2/roles/lockfree/peer.py`).

A dropbox keeps one `DropboxPeer` for each member of its committee, itself included, with
the fragments and the batches of preproducts that the member is known to hold. Sets are kept
as lists of their elements.

* `restores_dropboxPeer`: a peer is read back from its saved form.
-/

namespace Prism.Lockfree

open Prism.Crypto

/-- A `HalfKeyMap` with fields of the declared types. -/
structure HalfKey where
  fields : List Value
  typed : Value.hasFields fields ClassName.halfKeyMap.schema = true

/-- `Peer`. The times of the last acknowledgements are left out: they are not saved. -/
structure Peer where
  partyId : ℤ
  name : String
  pseudonym : Bytes
  ready : Bool := false
  isLocal : Bool := false
  preproductBatches : List Bytes := []
  halfKey : Option HalfKey := none

/-- `DropboxPeer`. -/
structure DropboxPeer extends Peer where
  storedFragments : List Bytes := []

/-- What `to_dict` makes of a peer. -/
structure PeerDict where
  partyId : ℤ
  name : String
  pseudonym : String
  ready : Bool
  isLocal : Bool
  preproductBatches : List String
  halfKey : Option String
  storedFragments : List String
deriving DecidableEq, Repr

section Dict

variable (cbor : Cbor2) (builtins : Builtins) (now : ℤ)

/-- `half_key.encode().hex()`, or `None`. -/
def saveHalfKey : Option HalfKey → Py (Option String) :=
  optional fun key => hexMessage cbor (.object .halfKeyMap key.fields)

/-- `HalfKeyMap.decode`. -/
def halfKeyOfHex (s : String) : Py HalfKey := do
  match ← messageOfHex cbor builtins now .halfKeyMap s with
  | .object .halfKeyMap fields =>
    if typed : Value.hasFields fields ClassName.halfKeyMap.schema = true then return ⟨fields, typed⟩
    else throw .typeError
  | _ => throw .typeError

/-- An empty text is no half key. -/
def loadHalfKey : Option String → Py (Option HalfKey)
  | none => .ok none
  | some s => if s = "" then .ok none else some <$> halfKeyOfHex cbor builtins now s

theorem restores_halfKey : Restores (saveHalfKey cbor) (loadHalfKey cbor builtins now) := by
  intro halfKey
  cases halfKey with
  | none => exact ⟨none, rfl, rfl⟩
  | some key =>
      obtain ⟨text, written, ne, read⟩ := messageOfHex_hexMessage cbor builtins now key.typed
      refine ⟨some text, ?_, ?_⟩
      · rw [saveHalfKey, optional, written]
        rfl
      · have key_read : halfKeyOfHex cbor builtins now text = .ok key := by
          rw [halfKeyOfHex, read]
          exact dif_pos key.typed
        rw [loadHalfKey, if_neg ne, key_read]
        rfl

namespace DropboxPeer

/-- `to_dict`. -/
def toDict (peer : DropboxPeer) : Py PeerDict := do
  let halfKey ← saveHalfKey cbor peer.halfKey
  return {
    partyId := peer.partyId
    name := peer.name
    pseudonym := hex peer.pseudonym
    ready := peer.ready
    isLocal := peer.isLocal
    preproductBatches := peer.preproductBatches.map hex
    halfKey
    storedFragments := peer.storedFragments.map hex }

/-- `from_dict`. -/
def ofDict (d : PeerDict) : Py DropboxPeer := do
  let pseudonym ← fromHex d.pseudonym
  let preproductBatches ← d.preproductBatches.mapM fromHex
  let halfKey ← loadHalfKey cbor builtins now d.halfKey
  let storedFragments ← d.storedFragments.mapM fromHex
  return {
    partyId := d.partyId
    name := d.name
    pseudonym
    ready := d.ready
    isLocal := d.isLocal
    preproductBatches
    halfKey
    storedFragments }

/-- **A peer is read back from its saved form.** -/
theorem restores_dropboxPeer : Restores (toDict cbor) (ofDict cbor builtins now) := by
  intro peer
  obtain ⟨saved, written, read⟩ := restores_halfKey cbor builtins now peer.halfKey
  let dict : PeerDict := {
    partyId := peer.partyId
    name := peer.name
    pseudonym := hex peer.pseudonym
    ready := peer.ready
    isLocal := peer.isLocal
    preproductBatches := peer.preproductBatches.map hex
    halfKey := saved
    storedFragments := peer.storedFragments.map hex }
  refine ⟨dict, ?_, ?_⟩
  · rw [toDict, written]
    rfl
  · simp only [ofDict, dict, fromHex_hex, mapM_fromHex, ok_bind, read]
    rfl

end DropboxPeer

end Dict

end Prism.Lockfree
