import Prism.Lib.Machine
import Prism.Lockfree.Find
import Prism.Lockfree.Peer
import Prism.Lockfree.Preproduct
import Mathlib.Data.List.Sort

/-!
The store of preproducts (`prism/server/CS2/roles/lockfree/preproduct.py`).

A peer keeps the batches that it took part in. The owner of a batch claims ranges of it for
its operations, and every peer of an operation fetches the claimed ranges from its own copy,
which nulls them out. The store is saved when a batch is added and when a range is claimed,
and a restarted peer begins with the store that was saved last.

* `loadState_saveState`: a store is read back from what it saved.
* `StoredBatch.getChunk_spec`: a chunk is fetched from full slots, and leaves them empty.
* `PreproductStore.claimChunk_eq`: how a claim is served from several batches.
-/

namespace Prism.Lockfree

open Prism.Crypto Prism.Lib

/-! ### Batches -/

/-- `PreproductBatch` as the store keeps it: what was fetched is nulled out. -/
structure StoredBatch where
  batchId : Bytes
  peers : List String
  owned : Bool
  triples : List (Option Triple)
  randomNumbers : List (Option Share)
  next : ℤ := 0
deriving DecidableEq, Repr

namespace StoredBatch

/-- A generated batch, as it is added to the store. -/
def ofBatch (names : ℕ → String) (batch : PreproductBatch) : StoredBatch where
  batchId := batch.batchId
  peers := batch.peers.map names
  owned := batch.owned
  triples := batch.triples.map some
  randomNumbers := batch.randomNumbers.map some

/-- `size`. -/
def size (self : StoredBatch) : ℤ := self.triples.length

/-- `remaining`. -/
def remaining (self : StoredBatch) : ℤ := max 0 (self.size - self.next)

/-- `claim_chunk`: the range, and the batch after the claim. -/
def claimChunk (self : StoredBatch) (size : ℤ) :
    Py (Option ((Bytes × ℤ × ℤ) × StoredBatch)) := do
  pyAssert (self.owned = true)
  if size > self.remaining then return none
  return some ((self.batchId, self.next, size), { self with next := self.next + size })

/-- `xs[i] = None`. -/
def nullAt {α : Type} (xs : List (Option α)) (i : ℤ) : Py (List (Option α)) :=
  match pyPlace xs.length i with
  | some k => .ok (xs.set k none)
  | none => .error .indexError

/-- The loop of `get_chunk` over the indices from `i` on. What was nulled out before an index
is out of range stays so. -/
def nullOut (self : StoredBatch) (i : ℤ) : ℕ → StoredBatch × Py Unit
  | 0 => (self, .ok ())
  | count + 1 =>
    match nullAt self.triples i with
    | .error e => (self, .error e)
    | .ok triples =>
      match nullAt self.randomNumbers i with
      | .error e => ({ self with triples }, .error e)
      | .ok randomNumbers => nullOut { self with triples, randomNumbers } (i + 1) count

/-- `get_chunk`: the batch afterwards, and the chunk if all of it was there. -/
def getChunk (self : StoredBatch) (start size : ℤ) :
    StoredBatch × Py (Option PreproductChunk) :=
  let triples := pySlice self.triples start (start + size)
  let randomNumbers := pySlice self.randomNumbers start (start + size)
  match self.nullOut start size.toNat with
  | (batch, .error e) => (batch, .error e)
  | (batch, .ok ()) =>
    match triples.mapM id, randomNumbers.mapM id with
    | some triples, some randomNumbers => (batch, .ok (some ⟨triples, randomNumbers⟩))
    | _, _ => (batch, .ok none)

/-- `serves`. -/
def serves (self : StoredBatch) (peers : List Peer) (exact : Bool) : Bool :=
  let names := peers.map fun peer => peer.name
  if peers.any fun peer => self.batchId ∉ peer.preproductBatches then false
  else if exact then names.all (· ∈ self.peers) && self.peers.all (· ∈ names)
  else names.all (· ∈ self.peers)

end StoredBatch

/-! ### Saved batches -/

/-- A triple as JSON. -/
structure TripleJson where
  a : String
  b : String
  c : String
deriving DecidableEq, Repr

/-- A batch as JSON. -/
structure BatchJson where
  batchId : String
  peers : List String
  owned : Bool
  triples : List (Option TripleJson)
  randomNumbers : List (Option String)
  next : ℤ
deriving DecidableEq, Repr

section Json

variable (cbor : Cbor2) (builtins : Builtins) (now : ℤ)

/-- `Triple.json`. -/
def tripleJson (t : Triple) : Py TripleJson := do
  return ⟨← hexShare cbor t.a, ← hexShare cbor t.b, ← hexShare cbor t.c⟩

/-- `Triple.from_json`. -/
def tripleOfJson (j : TripleJson) : Py Triple := do
  return ⟨← shareOfHex cbor builtins now j.a, ← shareOfHex cbor builtins now j.b,
    ← shareOfHex cbor builtins now j.c⟩

theorem restores_triple : Restores (tripleJson cbor) (tripleOfJson cbor builtins now) := by
  rintro ⟨a, b, c⟩
  obtain ⟨ha, writtenA, readA⟩ := restores_share cbor builtins now a
  obtain ⟨hb, writtenB, readB⟩ := restores_share cbor builtins now b
  obtain ⟨hc, writtenC, readC⟩ := restores_share cbor builtins now c
  refine ⟨⟨ha, hb, hc⟩, ?_, ?_⟩
  · simp only [tripleJson, writtenA, writtenB, writtenC, ok_bind]
    rfl
  · simp only [tripleOfJson, readA, readB, readC, ok_bind]
    rfl

namespace StoredBatch

/-- `json`. -/
def json (self : StoredBatch) : Py BatchJson := do
  let triples ← self.triples.mapM (optional (tripleJson cbor))
  let randomNumbers ← self.randomNumbers.mapM (optional (hexShare cbor))
  return ⟨hex self.batchId, self.peers, self.owned, triples, randomNumbers, self.next⟩

/-- `from_json`. -/
def ofJson (j : BatchJson) : Py StoredBatch := do
  let batchId ← fromHex j.batchId
  let triples ← j.triples.mapM (optional (tripleOfJson cbor builtins now))
  let randomNumbers ← j.randomNumbers.mapM (optional (shareOfHex cbor builtins now))
  return ⟨batchId, j.peers, j.owned, triples, randomNumbers, j.next⟩

/-- A batch is read back from its saved form. -/
theorem restores_batch : Restores (json cbor) (ofJson cbor builtins now) := by
  intro batch
  obtain ⟨triples, writtenT, readT⟩ := (restores_triple cbor builtins now).optional.mapM batch.triples
  obtain ⟨randoms, writtenR, readR⟩ :=
    (restores_share cbor builtins now).optional.mapM batch.randomNumbers
  refine ⟨⟨hex batch.batchId, batch.peers, batch.owned, triples, randoms, batch.next⟩, ?_, ?_⟩
  · simp only [json, writtenT, writtenR, ok_bind]
    rfl
  · simp only [ofJson, fromHex_hex, readT, readR, ok_bind]
    rfl

end StoredBatch

end Json

/-! ### The store -/

/-- `PreproductInfo`: the ranges of an operation, as three lists. -/
structure PreproductInfo where
  batches : List Bytes
  starts : List ℤ
  sizes : List ℤ
deriving DecidableEq, Repr

/-- `zip(info.batches, info.starts, info.sizes)`. -/
def PreproductInfo.ranges (info : PreproductInfo) : List (Bytes × ℤ × ℤ) :=
  info.batches.zip (info.starts.zip info.sizes)

/-- `PreproductStore`: the batches by their ids. -/
structure PreproductStore where
  batches : List (Bytes × StoredBatch) := []
deriving DecidableEq, Repr

namespace PreproductStore

/-- `total_remaining`. -/
def totalRemaining (self : PreproductStore) (peers : List Peer) (exact : Bool) : ℤ :=
  ((self.batches.filter fun (_, batch) =>
    batch.owned && batch.serves peers exact &&
      peers.all fun peer => batch.batchId ∈ peer.preproductBatches).map
        fun (_, batch) => batch.remaining).sum

/-- The batches that a claim is served from, the one with most remaining first. -/
def myBatches (self : PreproductStore) (peers : List Peer) : List (Bytes × StoredBatch) :=
  (self.batches.filter fun (_, batch) =>
    batch.owned && batch.serves peers false && 0 ≤ batch.remaining).insertionSort
      fun x y => y.2.remaining ≤ x.2.remaining

/-- The loop of `claim_chunk`: the ranges, and the batches that changed. -/
def claimFrom : List (Bytes × StoredBatch) → ℤ →
    Py (List (Bytes × ℤ × ℤ) × List (Bytes × StoredBatch))
  | [], _ => .ok ([], [])
  | (key, batch) :: rest, toClaim => do
    match ← batch.claimChunk (min batch.remaining toClaim) with
    | none => throw .typeError
    | some (range, batch') =>
      let left := toClaim - range.2.2
      if left ≤ 0 then return ([range], [(key, batch')])
      let (ranges, changed) ← claimFrom rest left
      return (range :: ranges, (key, batch') :: changed)

/-- The store with some batches changed. -/
def update (self : PreproductStore) (changed : List (Bytes × StoredBatch)) : PreproductStore :=
  ⟨dictUpdate self.batches changed⟩

/-- One turn of the loop in `claim_chunk`: nothing while there is nothing to claim. -/
def claimChunk (self : PreproductStore) (size : ℤ) (peers : List Peer) :
    Option (Py (PreproductInfo × PreproductStore)) :=
  if self.totalRemaining peers false = 0 then none
  else some do
    let (ranges, changed) ← claimFrom (self.myBatches peers) size
    return (⟨ranges.map (·.1), ranges.map (·.2.1), ranges.map (·.2.2)⟩, self.update changed)

/-- The loop of `get_chunk` over the ranges. -/
def getChunks (self : PreproductStore) :
    List (Bytes × ℤ × ℤ) → PreproductStore × Py (Option PreproductChunk)
  | [] => (self, .ok (some ⟨[], []⟩))
  | (batchId, start, size) :: ranges =>
    match self.batches.lookup batchId with
    | none => (self, .ok none)
    | some batch =>
      let (batch', result) := batch.getChunk start size
      let self' : PreproductStore := ⟨dictSet self.batches batchId batch'⟩
      match result with
      | .error e => (self', .error e)
      | .ok none => (self', .ok none)
      | .ok (some chunk) =>
        let (self'', rest) := self'.getChunks ranges
        (self'', (Option.map fun rest => ⟨chunk.triples ++ rest.triples,
          chunk.randomNumbers ++ rest.randomNumbers⟩) <$> rest)

/-- `get_chunk`. -/
def getChunk (self : PreproductStore) (info : PreproductInfo) :
    PreproductStore × Py (Option PreproductChunk) := self.getChunks info.ranges

/-- `add_batch`, before the state is saved. -/
def addBatch (self : PreproductStore) (batch : StoredBatch) : PreproductStore :=
  ⟨dictSet self.batches batch.batchId batch⟩

section State

variable (cbor : Cbor2) (builtins : Builtins) (now : ℤ)

/-- What `save_state` hands to the state store. -/
def saveState (self : PreproductStore) : Py (List (String × BatchJson)) :=
  saveDict (StoredBatch.json cbor) self.batches

/-- `load_state`, of a new store. -/
def loadState (state : Option (List (String × BatchJson))) : Py PreproductStore :=
  match state with
  | none => .ok {}
  | some state => mk <$> loadDict (StoredBatch.ofJson cbor builtins now) state

/-- A store is read back from what it saved. -/
theorem loadState_saveState {self : PreproductStore}
    (nodup : (self.batches.map Prod.fst).Nodup) :
    ∃ state, self.saveState cbor = .ok state ∧
      loadState cbor builtins now (some state) = .ok self := by
  obtain ⟨state, written, read⟩ :=
    restores_dict (StoredBatch.restores_batch cbor builtins now) nodup
  refine ⟨state, written, ?_⟩
  rw [loadState, read]
  rfl

end State

end PreproductStore

/-! ### Fetching from a batch -/

namespace StoredBatch

/-- What a fetch does not change. -/
structure Frame where
  batchId : Bytes
  peers : List String
  owned : Bool
  next : ℤ
  triples : ℕ
  randomNumbers : ℕ
deriving DecidableEq, Repr

def frame (self : StoredBatch) : Frame where
  batchId := self.batchId
  peers := self.peers
  owned := self.owned
  next := self.next
  triples := self.triples.length
  randomNumbers := self.randomNumbers.length

theorem nullAt_eq_ok {α : Type} {xs ys : List (Option α)} {i : ℤ}
    (run : nullAt xs i = .ok ys) : ∃ k, pyPlace xs.length i = some k ∧ ys = xs.set k none := by
  unfold nullAt at run
  split at run
  · next k place => exact ⟨k, place, (Except.ok.inj run).symm⟩
  · exact absurd run (by simp)

/-- Slots are only ever emptied. -/
def Emptied {α : Type} (xs ys : List (Option α)) : Prop :=
  ys.length = xs.length ∧ ∀ k : ℕ, xs[k]? = some none → ys[k]? = some none

theorem Emptied.refl {α : Type} (xs : List (Option α)) : Emptied xs xs := ⟨rfl, fun _ => id⟩

theorem Emptied.trans {α : Type} {xs ys zs : List (Option α)} (first : Emptied xs ys)
    (second : Emptied ys zs) : Emptied xs zs :=
  ⟨second.1.trans first.1, fun k empty => second.2 k (first.2 k empty)⟩

theorem nullAt_emptied {α : Type} {xs ys : List (Option α)} {i : ℤ}
    (run : nullAt xs i = .ok ys) : Emptied xs ys := by
  obtain ⟨k, -, rfl⟩ := nullAt_eq_ok run
  refine ⟨List.length_set, fun j empty => ?_⟩
  rw [List.getElem?_set]
  split_ifs with here inside
  · rfl
  · exact absurd (List.getElem?_eq_some_iff.mp (here ▸ empty)).1 inside
  · exact empty

/-- The loop of `get_chunk` keeps the frame of the batch and only empties slots. -/
theorem nullOut_spec (self : StoredBatch) (i : ℤ) (count : ℕ) :
    (self.nullOut i count).1.frame = self.frame ∧
      Emptied self.triples (self.nullOut i count).1.triples ∧
      Emptied self.randomNumbers (self.nullOut i count).1.randomNumbers := by
  induction count generalizing self i with
  | zero => exact ⟨rfl, .refl _, .refl _⟩
  | succ count ih =>
      rw [nullOut]
      cases hT : nullAt self.triples i with
      | error e => exact ⟨rfl, .refl _, .refl _⟩
      | ok triples =>
          have emptiedT := nullAt_emptied hT
          cases hR : nullAt self.randomNumbers i with
          | error e => exact ⟨by rw [frame, emptiedT.1, frame], emptiedT, .refl _⟩
          | ok randomNumbers =>
              have emptiedR := nullAt_emptied hR
              obtain ⟨same, restT, restR⟩ := ih { self with triples, randomNumbers } (i + 1)
              refine ⟨?_, emptiedT.trans restT, emptiedR.trans restR⟩
              rw [same, frame, emptiedT.1, emptiedR.1, frame]

/-- When the loop ends, the slots of all its indices are empty. -/
theorem nullOut_empties (self : StoredBatch) (i : ℤ) {count : ℕ}
    (done : (self.nullOut i count).2 = .ok ()) {j : ℕ} (lt : j < count) {k : ℕ} :
    (pyPlace self.triples.length (i + j) = some k →
      (self.nullOut i count).1.triples[k]? = some none) ∧
    (pyPlace self.randomNumbers.length (i + j) = some k →
      (self.nullOut i count).1.randomNumbers[k]? = some none) := by
  induction count generalizing self i j with
  | zero => exact absurd lt (Nat.not_lt_zero j)
  | succ count ih =>
      rw [nullOut] at done ⊢
      cases hT : nullAt self.triples i with
      | error e => simp [hT] at done
      | ok triples =>
          cases hR : nullAt self.randomNumbers i with
          | error e => simp [hT, hR] at done
          | ok randomNumbers =>
              simp only [hT, hR] at done ⊢
              obtain ⟨p, placeT, rfl⟩ := nullAt_eq_ok hT
              obtain ⟨q, placeR, rfl⟩ := nullAt_eq_ok hR
              obtain ⟨-, restT, restR⟩ := nullOut_spec
                { self with triples := self.triples.set p none
                            randomNumbers := self.randomNumbers.set q none } (i + 1) count
              cases j with
              | zero =>
                  rw [Nat.cast_zero, add_zero, placeT, placeR]
                  constructor
                  · rintro ⟨rfl⟩
                    apply restT.2
                    rw [List.getElem?_set_self (lt_of_pyPlace placeT)]
                  · rintro ⟨rfl⟩
                    apply restR.2
                    rw [List.getElem?_set_self (lt_of_pyPlace placeR)]
              | succ j =>
                  have later := ih _ (i + 1) done (Nat.lt_of_succ_lt_succ lt)
                  rw [List.length_set, List.length_set] at later
                  have shift : i + ((j + 1 : ℕ) : ℤ) = i + 1 + j := by
                    push_cast
                    ring
                  rw [shift]
                  exact later

/-- The two lists of a batch. -/
inductive Kind where
  | triple
  | randomNumber
deriving DecidableEq, Repr

/-- Which slots of a list are full. -/
def slots (self : StoredBatch) : Kind → List Bool
  | .triple => self.triples.map Option.isSome
  | .randomNumber => self.randomNumbers.map Option.isSome

/-- The places that a fetch takes from a list. -/
def places (self : StoredBatch) (kind : Kind) (start size : ℤ) : List ℕ :=
  slicePlaces (self.slots kind).length start (start + size)

theorem length_slots (self : StoredBatch) (kind : Kind) :
    (self.slots kind).length =
      match kind with
      | .triple => self.frame.triples
      | .randomNumber => self.frame.randomNumbers := by
  cases kind <;> exact List.length_map _

theorem places_congr {batch batch' : StoredBatch} (same : batch'.frame = batch.frame) (kind : Kind)
    (start size : ℤ) : batch'.places kind start size = batch.places kind start size := by
  rw [places, places, length_slots, length_slots, same]

/-- A fetched range is nulled out throughout: it is counted forwards, or nothing is in it. -/
def Nulled (self : StoredBatch) (start size : ℤ) : Prop :=
  0 ≤ size ∨ ∀ kind, self.places kind start size = []

def FullAt (self : StoredBatch) (kind : Kind) (k : ℕ) : Prop :=
  (self.slots kind)[k]? = some true

def EmptyAt (self : StoredBatch) (kind : Kind) (k : ℕ) : Prop :=
  (self.slots kind)[k]? = some false

theorem slots_eq_false {α : Type} {xs : List (Option α)} {k : ℕ} :
    (xs.map Option.isSome)[k]? = some false ↔ xs[k]? = some none := by
  rw [List.getElem?_map]
  cases xs[k]? with
  | none => simp
  | some x => cases x <;> simp

theorem getChunk_fst (self : StoredBatch) (start size : ℤ) :
    (self.getChunk start size).1 = (self.nullOut start size.toNat).1 := by
  unfold getChunk
  dsimp only
  split
  · next eq => rw [eq]
  · next eq =>
      rw [eq]
      split <;> rfl

/-- A fetch keeps the frame of the batch and only empties slots. -/
theorem getChunk_frame (self : StoredBatch) (start size : ℤ) :
    (self.getChunk start size).1.frame = self.frame ∧
      ∀ kind k, self.EmptyAt kind k → (self.getChunk start size).1.EmptyAt kind k := by
  obtain ⟨same, triples, randomNumbers⟩ := self.nullOut_spec start size.toNat
  rw [getChunk_fst]
  refine ⟨same, fun kind k => ?_⟩
  cases kind with
  | triple => exact fun empty => slots_eq_false.mpr (triples.2 k (slots_eq_false.mp empty))
  | randomNumber =>
      exact fun empty => slots_eq_false.mpr (randomNumbers.2 k (slots_eq_false.mp empty))

theorem eq_map_some_of_mapM {α : Type} {xs : List (Option α)} {ys : List α}
    (all : xs.mapM id = some ys) : xs = ys.map some := by
  induction xs generalizing ys with
  | nil =>
      obtain rfl : [] = ys := Option.some.inj all
      rfl
  | cons x xs ih =>
      rw [List.mapM_cons] at all
      cases x with
      | none => exact absurd all (by simp)
      | some y =>
          cases rest : xs.mapM id with
          | none => simp [rest] at all
          | some zs =>
              simp only [rest, id, Option.pure_def, Option.bind_eq_bind, Option.bind_some,
                Option.some.injEq] at all
              rw [ih rest, ← all, List.map_cons]

/-- A chunk holds what was in the range. -/
theorem getChunk_eq_some {self : StoredBatch} {start size : ℤ} {chunk : PreproductChunk}
    (run : (self.getChunk start size).2 = .ok (some chunk)) :
    (self.nullOut start size.toNat).2 = .ok () ∧
      pySlice self.triples start (start + size) = chunk.triples.map some ∧
      pySlice self.randomNumbers start (start + size) = chunk.randomNumbers.map some := by
  unfold getChunk at run
  dsimp only at run
  split at run
  · exact absurd run (by simp)
  · next eq =>
      rw [eq]
      split at run
      · next triples randomNumbers hT hR =>
          obtain rfl : ⟨triples, randomNumbers⟩ = chunk := by simpa using run
          exact ⟨rfl, eq_map_some_of_mapM hT, eq_map_some_of_mapM hR⟩
      · exact absurd run (by simp)

/-- A slice without empty slots comes from full slots. -/
theorem full_of_pySlice {α : Type} {xs : List (Option α)} {ys : List α} {start stop : ℤ}
    (slice : pySlice xs start stop = ys.map some) {k : ℕ}
    (mem : k ∈ slicePlaces xs.length start stop) :
    (xs.map Option.isSome)[k]? = some true := by
  have entries := pySlice_eq xs start stop
  rw [slice] at entries
  have here : xs[k]? ∈ (slicePlaces xs.length start stop).map fun k => xs[k]? :=
    List.mem_map_of_mem mem
  rw [← entries, List.mem_map] at here
  obtain ⟨x, inSlice, eq⟩ := here
  obtain ⟨y, -, rfl⟩ := List.mem_map.mp inSlice
  rw [List.getElem?_map, ← eq]
  rfl

/-- **A chunk is fetched from full slots, and leaves them empty.** -/
theorem getChunk_spec {self : StoredBatch} {start size : ℤ} {chunk : PreproductChunk}
    (run : (self.getChunk start size).2 = .ok (some chunk)) (nulled : self.Nulled start size)
    {kind : Kind} {k : ℕ} (mem : k ∈ self.places kind start size) :
    self.FullAt kind k ∧ (self.getChunk start size).1.EmptyAt kind k := by
  obtain ⟨done, triples, randomNumbers⟩ := getChunk_eq_some run
  have pos : 0 ≤ size := by
    refine nulled.resolve_right fun nothing => ?_
    rw [nothing kind] at mem
    exact absurd mem List.not_mem_nil
  rw [places] at mem
  obtain ⟨j, lt, place⟩ := pyPlace_of_mem_slice pos mem
  obtain ⟨emptiedT, emptiedR⟩ := self.nullOut_empties start done lt (k := k)
  rw [getChunk_fst]
  cases kind with
  | triple =>
      rw [slots, List.length_map] at mem place
      exact ⟨full_of_pySlice triples mem, slots_eq_false.mpr (emptiedT place)⟩
  | randomNumber =>
      rw [slots, List.length_map] at mem place
      exact ⟨full_of_pySlice randomNumbers mem, slots_eq_false.mpr (emptiedR place)⟩

end StoredBatch

/-! ### Fetching from the store -/

namespace PreproductStore

/-- A place of a list of a batch. -/
abbrev Place := Bytes × StoredBatch.Kind × ℕ

/-- What fetches and saved states do not change. -/
def frames (self : PreproductStore) : List (Bytes × StoredBatch.Frame) :=
  self.batches.map fun e => (e.1, e.2.frame)

def FullAt (self : PreproductStore) (p : Place) : Prop :=
  ∃ batch, self.batches.lookup p.1 = some batch ∧ batch.FullAt p.2.1 p.2.2

def EmptyAt (self : PreproductStore) (p : Place) : Prop :=
  ∃ batch, self.batches.lookup p.1 = some batch ∧ batch.EmptyAt p.2.1 p.2.2

/-- The places of a range. -/
def rangePlaces (self : PreproductStore) (range : Bytes × ℤ × ℤ) : List Place :=
  match self.batches.lookup range.1 with
  | none => []
  | some batch =>
    (batch.places .triple range.2.1 range.2.2).map (fun k => (range.1, .triple, k)) ++
      (batch.places .randomNumber range.2.1 range.2.2).map fun k => (range.1, .randomNumber, k)

/-- The places that a chunk is taken from. -/
def places (self : PreproductStore) (info : PreproductInfo) : List Place :=
  info.ranges.flatMap self.rangePlaces

/-- A range is nulled out throughout when it is fetched. -/
def Nulled (self : PreproductStore) (range : Bytes × ℤ × ℤ) : Prop :=
  ∀ batch, self.batches.lookup range.1 = some batch → batch.Nulled range.2.1 range.2.2

/-- Stores of the same frames find batches of the same frames. -/
theorem lookup_frame {self self' : PreproductStore} (same : self'.frames = self.frames)
    (id : Bytes) :
    (self'.batches.lookup id).map StoredBatch.frame =
      (self.batches.lookup id).map StoredBatch.frame := by
  have here := congrArg (List.lookup id) same
  rw [frames, frames, lookup_map, lookup_map] at here
  exact here

theorem rangePlaces_congr {self self' : PreproductStore} (same : self'.frames = self.frames)
    (range : Bytes × ℤ × ℤ) : self'.rangePlaces range = self.rangePlaces range := by
  have found := lookup_frame same range.1
  unfold rangePlaces
  cases before : self.batches.lookup range.1 with
  | none =>
      rw [before, Option.map_none, Option.map_eq_none_iff] at found
      rw [found]
  | some batch =>
      rw [before, Option.map_some, Option.map_eq_some_iff] at found
      obtain ⟨batch', after, frame⟩ := found
      rw [after]
      simp only [StoredBatch.places_congr frame]

theorem nulled_congr {self self' : PreproductStore} (same : self'.frames = self.frames)
    {range : Bytes × ℤ × ℤ} (nulled : self.Nulled range) : self'.Nulled range := by
  intro batch' after
  have found := lookup_frame same range.1
  rw [after, Option.map_some] at found
  obtain ⟨batch, before, frame⟩ := Option.map_eq_some_iff.mp found.symm
  refine (nulled batch before).imp id fun nothing kind => ?_
  rw [StoredBatch.places_congr frame.symm]
  exact nothing kind

theorem mem_rangePlaces {self : PreproductStore} {range : Bytes × ℤ × ℤ} {p : Place} :
    p ∈ self.rangePlaces range ↔
      p.1 = range.1 ∧ ∃ batch, self.batches.lookup range.1 = some batch ∧
        p.2.2 ∈ batch.places p.2.1 range.2.1 range.2.2 := by
  obtain ⟨id, kind, k⟩ := p
  unfold rangePlaces
  cases found : self.batches.lookup range.1 with
  | none => simp
  | some batch =>
      cases kind <;> simp [eq_comm, and_comm]

theorem nodup_rangePlaces (self : PreproductStore) (range : Bytes × ℤ × ℤ) :
    (self.rangePlaces range).Nodup := by
  unfold rangePlaces
  split
  · exact List.nodup_nil
  · next batch found =>
      rw [List.nodup_append]
      refine ⟨?_, ?_, ?_⟩
      · exact (nodup_slicePlaces _ _ _).map fun k j same => by simpa using same
      · exact (nodup_slicePlaces _ _ _).map fun k j same => by simpa using same
      · intro p inTriples q inRandoms
        obtain ⟨k, -, rfl⟩ := List.mem_map.mp inTriples
        obtain ⟨j, -, rfl⟩ := List.mem_map.mp inRandoms
        simp

/-- The store after one range was fetched. -/
theorem fetched_range {self : PreproductStore} (nodup : (self.batches.map Prod.fst).Nodup)
    {id : Bytes} {batch : StoredBatch} (found : self.batches.lookup id = some batch)
    (start size : ℤ) :
    let self' : PreproductStore := ⟨dictSet self.batches id (batch.getChunk start size).1⟩
    self'.frames = self.frames ∧ ∀ p, self.EmptyAt p → self'.EmptyAt p := by
  obtain ⟨frame, emptied⟩ := batch.getChunk_frame start size
  refine ⟨map_dictSet StoredBatch.frame nodup found frame, ?_⟩
  rintro p ⟨old, before, empty⟩
  by_cases here : p.1 = id
  · refine ⟨_, by rw [lookup_dictSet, if_pos here], emptied _ _ ?_⟩
    rw [here, found] at before
    exact Option.some.inj before ▸ empty
  · exact ⟨old, by rw [lookup_dictSet, if_neg here, before], empty⟩

theorem nodup_of_frames {self self' : PreproductStore} (same : self'.frames = self.frames)
    (nodup : (self.batches.map Prod.fst).Nodup) : (self'.batches.map Prod.fst).Nodup := by
  have keys : ∀ store : PreproductStore, store.frames.map Prod.fst = store.batches.map Prod.fst :=
    fun store => List.map_map
  rw [← keys, same, keys]
  exact nodup

/-- Fetching keeps the frames and only empties slots. -/
theorem getChunks_frames {self : PreproductStore} (nodup : (self.batches.map Prod.fst).Nodup)
    (ranges : List (Bytes × ℤ × ℤ)) :
    (self.getChunks ranges).1.frames = self.frames ∧
      ∀ p, self.EmptyAt p → (self.getChunks ranges).1.EmptyAt p := by
  induction ranges generalizing self with
  | nil => exact ⟨rfl, fun _ => id⟩
  | cons range ranges ih =>
      obtain ⟨id, start, size⟩ := range
      rw [getChunks]
      cases found : self.batches.lookup id with
      | none => exact ⟨rfl, fun _ empty => empty⟩
      | some batch =>
          obtain ⟨same, emptied⟩ := fetched_range nodup found start size
          obtain ⟨same', emptied'⟩ := ih (nodup_of_frames same nodup)
          dsimp only
          cases (batch.getChunk start size).2 with
          | error e => exact ⟨same, emptied⟩
          | ok result =>
              cases result with
              | none => exact ⟨same, emptied⟩
              | some chunk => exact ⟨same'.trans same, fun p empty => emptied' p (emptied p empty)⟩

theorem FullAt.not_emptyAt {self : PreproductStore} {p : Place} (full : self.FullAt p) :
    ¬ self.EmptyAt p := by
  rintro ⟨batch, found, empty⟩
  obtain ⟨batch', found', full⟩ := full
  obtain rfl : batch = batch' := Option.some.inj (found.symm.trans found')
  rw [StoredBatch.FullAt, empty] at full
  exact Bool.false_ne_true (Option.some.inj full)

/-- What is full afterwards was full before. -/
theorem FullAt.before {self self' : PreproductStore} (same : self'.frames = self.frames)
    (emptied : ∀ p, self.EmptyAt p → self'.EmptyAt p) {p : Place} (full : self'.FullAt p) :
    self.FullAt p := by
  obtain ⟨batch', after, slot⟩ := id full
  have found := lookup_frame same p.1
  rw [after, Option.map_some] at found
  obtain ⟨batch, before, frame⟩ := Option.map_eq_some_iff.mp found.symm
  have lt : p.2.2 < (batch.slots p.2.1).length := by
    rw [StoredBatch.length_slots, frame, ← StoredBatch.length_slots]
    exact (List.getElem?_eq_some_iff.mp slot).1
  refine ⟨batch, before, ?_⟩
  cases value : (batch.slots p.2.1)[p.2.2] with
  | true => exact List.getElem?_eq_some_iff.mpr ⟨lt, value⟩
  | false =>
      have empty : self.EmptyAt p := ⟨batch, before, List.getElem?_eq_some_iff.mpr ⟨lt, value⟩⟩
      exact absurd (emptied p empty) full.not_emptyAt

/-- **A chunk is fetched from distinct full slots, and leaves them empty.** -/
theorem getChunks_spec {self : PreproductStore} (nodup : (self.batches.map Prod.fst).Nodup)
    {ranges : List (Bytes × ℤ × ℤ)} {chunk : PreproductChunk}
    (run : (self.getChunks ranges).2 = .ok (some chunk))
    (nulled : ∀ range ∈ ranges, self.Nulled range) :
    (ranges.flatMap self.rangePlaces).Nodup ∧
      ∀ p ∈ ranges.flatMap self.rangePlaces,
        self.FullAt p ∧ (self.getChunks ranges).1.EmptyAt p := by
  induction ranges generalizing self chunk with
  | nil => simp
  | cons range ranges ih =>
      obtain ⟨id, start, size⟩ := range
      rw [getChunks] at run ⊢
      cases found : self.batches.lookup id with
      | none => simp [found] at run
      | some batch =>
          obtain ⟨same, emptied⟩ := fetched_range nodup found start size
          rw [found] at run
          dsimp only at run ⊢
          cases fetched : (batch.getChunk start size).2 with
          | error e => simp [fetched] at run
          | ok result =>
              cases result with
              | none => simp [fetched] at run
              | some first =>
                  set self' : PreproductStore :=
                    ⟨dictSet self.batches id (batch.getChunk start size).1⟩
                  obtain ⟨more, rest⟩ : ∃ more, (self'.getChunks ranges).2 = .ok (some more) := by
                    rw [fetched] at run
                    cases later : (self'.getChunks ranges).2 with
                    | error e => simp [later] at run
                    | ok result =>
                        cases result with
                        | none => simp [later] at run
                        | some more => exact ⟨more, rfl⟩
                  have here : ∀ p ∈ self.rangePlaces (id, start, size),
                      self.FullAt p ∧ self'.EmptyAt p := by
                    intro p mem
                    obtain ⟨atId, batch', found', inRange⟩ := mem_rangePlaces.mp mem
                    obtain rfl : batch = batch' := Option.some.inj (found.symm.trans found')
                    obtain ⟨full, empty⟩ := StoredBatch.getChunk_spec fetched
                      (nulled (id, start, size) List.mem_cons_self batch found) inRange
                    refine ⟨⟨batch, atId ▸ found, full⟩, ⟨_, ?_, empty⟩⟩
                    rw [lookup_dictSet, if_pos atId]
                  obtain ⟨distinct, there⟩ := ih (nodup_of_frames same nodup) rest
                    fun range mem => nulled_congr same (nulled range (List.mem_cons_of_mem _ mem))
                  rw [funext (rangePlaces_congr same)] at distinct there
                  rw [List.flatMap_cons]
                  constructor
                  · rw [List.nodup_append]
                    refine ⟨self.nodup_rangePlaces _, distinct, ?_⟩
                    rintro p first q later rfl
                    exact (there p later).1.not_emptyAt (here p first).2
                  · intro p mem
                    rcases List.mem_append.mp mem with mem | mem
                    · exact ⟨(here p mem).1,
                        (getChunks_frames (nodup_of_frames same nodup) ranges).2 p (here p mem).2⟩
                    · exact ⟨(there p mem).1.before same emptied, (there p mem).2⟩

end PreproductStore

/-! ### Claiming -/

namespace PreproductStore

/-- How a claim is served: from the first batches, of each the next numbers. -/
structure Served (batches : List (Bytes × StoredBatch)) (size : ℤ) (sizes : List ℤ)
    (ranges : List (Bytes × ℤ × ℤ)) (changed : List (Bytes × StoredBatch)) : Prop where
  ranges_eq : ranges = (batches.zip sizes).map fun (e, n) => (e.2.batchId, e.2.next, n)
  changed_eq : changed = (batches.zip sizes).map fun (e, n) =>
    (e.1, { e.2 with next := e.2.next + n })
  length_le : sizes.length ≤ batches.length
  nonneg : ∀ n ∈ sizes, 0 ≤ n
  bound : ∀ e ∈ batches.zip sizes, e.2 ≤ e.1.2.remaining
  sum_le : sizes.sum ≤ size
  sum_pos : (∃ e ∈ batches, 0 < e.2.remaining) → 0 < sizes.sum

/-- Of a batch that changed, only what is next to claim did. -/
theorem claimFrom_changed {batches : List (Bytes × StoredBatch)} {size : ℤ}
    {ranges : List (Bytes × ℤ × ℤ)} {changed : List (Bytes × StoredBatch)}
    (run : claimFrom batches size = .ok (ranges, changed)) {e' : Bytes × StoredBatch}
    (mem : e' ∈ changed) : ∃ e ∈ batches, ∃ next, e' = (e.1, { e.2 with next }) := by
  induction batches generalizing size ranges changed with
  | nil =>
      obtain ⟨-, rfl⟩ : [] = ranges ∧ [] = changed := by simpa [claimFrom] using run
      exact absurd mem List.not_mem_nil
  | cons e batches ih =>
      obtain ⟨key, batch⟩ := e
      obtain ⟨claim, claimed, rest⟩ := bind_eq_ok.mp run
      obtain ⟨-, -, claimed⟩ := bind_eq_ok.mp claimed
      cases claim with
      | none => exact absurd rest (by simp [throw, throwThe, MonadExceptOf.throw])
      | some claim =>
          obtain ⟨range, batch'⟩ := claim
          have next : ∃ next, batch' = { batch with next } := by
            split_ifs at claimed
            · exact absurd claimed (by simp [pure, Except.pure])
            · obtain ⟨-, rfl⟩ := Prod.mk.inj (Option.some.inj (Except.ok.inj claimed))
              exact ⟨_, rfl⟩
          obtain ⟨next, rfl⟩ := next
          dsimp only at rest
          split_ifs at rest
          · obtain ⟨-, rfl⟩ := Prod.mk.inj (Except.ok.inj rest)
            rw [List.mem_singleton.mp mem]
            exact ⟨(key, batch), List.mem_cons_self, next, rfl⟩
          · obtain ⟨⟨ranges', changed'⟩, later, rest⟩ := bind_eq_ok.mp rest
            obtain ⟨-, rfl⟩ := Prod.mk.inj (Except.ok.inj rest)
            rcases List.mem_cons.mp mem with rfl | mem
            · exact ⟨(key, batch), List.mem_cons_self, next, rfl⟩
            · obtain ⟨e, inRest, next, eq⟩ := ih later mem
              exact ⟨e, List.mem_cons_of_mem _ inRest, next, eq⟩

/-- Every batch gives what it has left, until the claim is served. -/
theorem claimFrom_eq {batches : List (Bytes × StoredBatch)}
    (owned : ∀ e ∈ batches, e.2.owned = true) {size : ℤ} (pos : 0 < size) :
    ∃ sizes ranges changed, claimFrom batches size = .ok (ranges, changed) ∧
      Served batches size sizes ranges changed := by
  induction batches generalizing size with
  | nil => exact ⟨[], [], [], rfl, rfl, rfl, le_rfl, by simp, by simp, pos.le, by simp⟩
  | cons e batches ih =>
      obtain ⟨key, batch⟩ := e
      have nonneg : 0 ≤ batch.remaining := le_max_left _ _
      set n := min batch.remaining size with hn
      have n_nonneg : 0 ≤ n := le_min nonneg pos.le
      have claim : batch.claimChunk n =
          .ok (some ((batch.batchId, batch.next, n), { batch with next := batch.next + n })) := by
        have ownedBatch : batch.owned = true := owned (key, batch) List.mem_cons_self
        rw [StoredBatch.claimChunk, pyAssert_of_true ownedBatch, ok_bind,
          if_neg (not_lt.mpr (min_le_left _ _))]
        rfl
      rw [claimFrom, claim, ok_bind]
      dsimp only
      by_cases done : size - n ≤ 0
      · rw [if_pos done]
        refine ⟨[n], _, _, rfl, ?_⟩
        constructor
        · simp
        · simp
        · simp
        · simpa using n_nonneg
        · rw [List.zip_cons_cons, List.zip_nil_right, List.forall_mem_singleton]
          exact min_le_left _ _
        · rw [List.sum_singleton]
          exact min_le_right _ _
        · intro _
          rw [List.sum_singleton]
          omega
      · rw [if_neg done]
        obtain ⟨sizes, ranges, changed, run, served⟩ :=
          ih (fun e mem => owned e (List.mem_cons_of_mem _ mem)) (not_le.mp done)
        rw [run, ok_bind]
        refine ⟨n :: sizes, _, _, rfl, ?_⟩
        constructor
        · simp [served.ranges_eq]
        · simp [served.changed_eq]
        · simpa using served.length_le
        · rw [List.forall_mem_cons]
          exact ⟨n_nonneg, served.nonneg⟩
        · rw [List.zip_cons_cons, List.forall_mem_cons]
          exact ⟨min_le_left _ _, served.bound⟩
        · rw [List.sum_cons]
          linarith [served.sum_le]
        · rintro ⟨e, mem, some⟩
          have later : 0 ≤ sizes.sum := List.sum_nonneg served.nonneg
          rw [List.sum_cons]
          rcases List.mem_cons.mp mem with rfl | mem
          · have here : 0 < n := lt_min some pos
            omega
          · have rest := served.sum_pos ⟨e, mem, some⟩
            omega

theorem nodup_myBatches {self : PreproductStore} (nodup : (self.batches.map Prod.fst).Nodup)
    (peers : List Peer) : ((self.myBatches peers).map Prod.fst).Nodup := by
  rw [myBatches, ((List.perm_insertionSort _ _).map Prod.fst).nodup_iff]
  exact nodup.sublist (List.filter_sublist.map Prod.fst)

theorem mem_myBatches {self : PreproductStore} {peers : List Peer} {e : Bytes × StoredBatch} :
    e ∈ self.myBatches peers ↔
      e ∈ self.batches ∧ e.2.owned = true ∧ e.2.serves peers false = true := by
  rw [myBatches, (List.perm_insertionSort _ _).mem_iff, List.mem_filter]
  have : 0 ≤ e.2.remaining := le_max_left _ _
  simp [this]

/-- Some batch has something left, unless the claim waits. -/
theorem exists_remaining {self : PreproductStore} {peers : List Peer}
    (some : self.totalRemaining peers false ≠ 0) :
    ∃ e ∈ self.myBatches peers, 0 < e.2.remaining := by
  by_contra none
  push Not at none
  refine some (List.sum_eq_zero fun n mem => ?_)
  obtain ⟨e, inStore, rfl⟩ := List.mem_map.mp mem
  obtain ⟨inBatches, valid⟩ := List.mem_filter.mp inStore
  simp only [Bool.and_eq_true] at valid
  have low : e.2.remaining ≤ 0 := none e (mem_myBatches.mpr ⟨inBatches, valid.1⟩)
  exact le_antisymm low (le_max_left _ _)

/-- What a claim takes: at least one number, from owned batches that serve the peers. -/
theorem claimChunk_eq {self : PreproductStore} {size : ℤ} {peers : List Peer} (pos : 0 < size)
    (some : self.totalRemaining peers false ≠ 0) :
    ∃ info changed, self.claimChunk size peers = Option.some (.ok (info, self.update changed)) ∧
      Served (self.myBatches peers) size info.sizes info.ranges changed ∧ 0 < info.sizes.sum ∧
      info.batches = info.ranges.map Prod.fst := by
  obtain ⟨sizes, ranges, changed, run, served⟩ :=
    @claimFrom_eq (self.myBatches peers) (fun e mem => (mem_myBatches.mp mem).2.1) size pos
  let info : PreproductInfo := ⟨ranges.map (·.1), ranges.map (·.2.1), ranges.map (·.2.2)⟩
  have sizes_eq : info.sizes = sizes := by
    rw [show info.sizes = ranges.map (·.2.2) from rfl, served.ranges_eq, List.map_map]
    exact List.map_snd_zip served.length_le
  have ranges_eq : info.ranges = ranges := by
    rw [PreproductInfo.ranges, List.zip_map', List.zip_map']
    exact List.map_id ranges
  refine ⟨info, changed, ?_, ?_, ?_, ?_⟩
  · rw [claimChunk, if_neg some, run]
    rfl
  · rw [ranges_eq, sizes_eq]
    exact served
  · rw [sizes_eq]
    exact served.sum_pos (exists_remaining some)
  · rw [ranges_eq]

section Served

variable {batches changed : List (Bytes × StoredBatch)} {size : ℤ} {sizes : List ℤ}
  {ranges : List (Bytes × ℤ × ℤ)}

/-- Where a range and a changed batch come from. -/
structure TakenFrom (e : Bytes × StoredBatch) (n : ℤ) (batches : List (Bytes × StoredBatch))
    (ranges : List (Bytes × ℤ × ℤ)) (changed : List (Bytes × StoredBatch)) : Prop where
  mem : e ∈ batches
  nonneg : 0 ≤ n
  le : n ≤ e.2.remaining
  range : (e.2.batchId, e.2.next, n) ∈ ranges
  changed : (e.1, { e.2 with next := e.2.next + n }) ∈ changed

theorem Served.taken (served : Served batches size sizes ranges changed)
    {x : (Bytes × StoredBatch) × ℤ} (mem : x ∈ batches.zip sizes) :
    TakenFrom x.1 x.2 batches ranges changed where
  mem := (List.of_mem_zip mem).1
  nonneg := served.nonneg _ (List.of_mem_zip mem).2
  le := served.bound _ mem
  range := by
    rw [served.ranges_eq]
    exact List.mem_map_of_mem mem
  changed := by
    rw [served.changed_eq]
    exact List.mem_map_of_mem mem

theorem Served.of_range (served : Served batches size sizes ranges changed)
    {range : Bytes × ℤ × ℤ} (mem : range ∈ ranges) :
    ∃ e n, range = (e.2.batchId, e.2.next, n) ∧ TakenFrom e n batches ranges changed := by
  rw [served.ranges_eq] at mem
  obtain ⟨x, inZip, rfl⟩ := List.mem_map.mp mem
  exact ⟨x.1, x.2, rfl, served.taken inZip⟩

theorem Served.of_changed (served : Served batches size sizes ranges changed)
    {e' : Bytes × StoredBatch} (mem : e' ∈ changed) :
    ∃ e n, e' = (e.1, { e.2 with next := e.2.next + n }) ∧
      TakenFrom e n batches ranges changed := by
  rw [served.changed_eq] at mem
  obtain ⟨x, inZip, rfl⟩ := List.mem_map.mp mem
  exact ⟨x.1, x.2, rfl, served.taken inZip⟩

theorem map_fst_zip_sublist {α β : Type} (xs : List α) (ys : List β) :
    ((xs.zip ys).map Prod.fst).Sublist xs := by
  induction xs generalizing ys with
  | nil => simp
  | cons x xs ih =>
      cases ys with
      | nil => simp
      | cons y ys => exact (ih ys).cons_cons x

/-- Every batch gives one range at most. -/
theorem Served.nodup (served : Served batches size sizes ranges changed)
    (nodup : (batches.map Prod.fst).Nodup) (keyed : ∀ e ∈ batches, e.2.batchId = e.1) :
    (changed.map Prod.fst).Nodup ∧ (ranges.map Prod.fst).Nodup := by
  have keys : ((batches.zip sizes).map fun x => x.1.1).Nodup := by
    have sub := (map_fst_zip_sublist batches sizes).map Prod.fst
    rw [List.map_map] at sub
    exact nodup.sublist sub
  constructor
  · rw [served.changed_eq, List.map_map]
    exact keys
  · have ids : ranges.map Prod.fst = (batches.zip sizes).map fun x => x.1.1 := by
      rw [served.ranges_eq, List.map_map]
      exact List.map_congr_left fun x mem => keyed x.1 (List.of_mem_zip mem).1
    rw [ids]
    exact keys

end Served

end PreproductStore

end Prism.Lockfree
