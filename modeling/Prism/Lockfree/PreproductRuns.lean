import Mathlib.Data.Int.ConditionallyCompleteOrder
import Mathlib.Order.BourbakiWitt
import Mathlib.Order.CompletePartialOrder
import Prism.Lockfree.PreproductStore
import Prism.Message.Cbor

/-!
The life of a store of preproducts (`prism/server/CS2/roles/lockfree/preproduct.py`).

A peer adds batches, claims ranges of its own, fetches claimed ranges, and is restarted now
and then with the state that was saved last. A claim is saved before it is returned, so that
no number is claimed twice. A fetch is not saved: what it nulled out is there again after a
restart, unless something else was saved in between.

* `claims_disjoint`: no number is claimed twice, and every claim is served from owned batches.
* `chunks_disjoint`: no number is fetched twice, where a restart forgets no fetch.
* `chunks_twice`: a restart right after a fetch forgets it.
-/

namespace Prism.Lockfree

open Prism.Lib

namespace PreproductStore

/-! ### Events -/

/-- A store in memory, and the state that was saved last. -/
structure Life where
  memory : PreproductStore := {}
  saved : Option (List (String × BatchJson)) := none

/-- What happens to a store. A new store is given the time at which it reads the state. -/
inductive Event where
  | addBatch (batch : StoredBatch)
  | claimChunk (size : ℤ) (peers : List Peer)
  | getChunk (info : PreproductInfo)
  | restart (now : ℤ)

/-- What comes of it. With a chunk the places are recorded that it was taken from. -/
inductive Answer where
  | done
  | waiting
  | claimed (info : PreproductInfo)
  | fetched (chunk : PreproductChunk) (places : List Place)
  | nothing
  | raised (e : PyError)

section Life

variable (cbor : Cbor2) (builtins : Builtins)

/-- `save_state`, then the answer. -/
def save (memory : PreproductStore) (saved : Option (List (String × BatchJson)))
    (answer : Answer) : Life × Answer :=
  match memory.saveState cbor with
  | .ok state => (⟨memory, some state⟩, answer)
  | .error e => (⟨memory, saved⟩, .raised e)

/-- One event. -/
def act (life : Life) : Event → Life × Answer
  | .addBatch batch =>
    save cbor (life.memory.addBatch batch) life.saved .done
  | .claimChunk size peers =>
    match life.memory.claimChunk size peers with
    | none => (life, .waiting)
    | some (.error e) => (life, .raised e)
    | some (.ok (info, memory)) => save cbor memory life.saved (.claimed info)
  | .getChunk info =>
    let (memory, result) := life.memory.getChunk info
    ({ life with memory }, match result with
      | .ok none => .nothing
      | .ok (some chunk) => .fetched chunk (life.memory.places info)
      | .error e => .raised e)
  | .restart now =>
    match loadState cbor builtins now life.saved with
    | .ok memory => ({ life with memory }, .done)
    | .error e => ({ life with memory := {} }, .raised e)

/-- The life of a store, from an empty state store on. -/
def life : Machine Life Event Answer := ⟨{}, act cbor builtins⟩

/-- The saved state is that of a store. -/
def Restored (saved : Option (List (String × BatchJson))) (store : PreproductStore) : Prop :=
  ∀ now, loadState cbor builtins now saved = .ok store

variable {cbor builtins}

theorem save_eq {memory : PreproductStore} (nodup : (memory.batches.map Prod.fst).Nodup)
    (saved : Option (List (String × BatchJson))) (answer : Answer) :
    ∃ state, save cbor memory saved answer = (⟨memory, some state⟩, answer) ∧
      Restored cbor builtins (some state) memory := by
  obtain ⟨state, written, -⟩ := loadState_saveState cbor builtins 0 nodup
  refine ⟨state, ?_, fun now => ?_⟩
  · rw [save, written]
  · obtain ⟨state', written', read⟩ := loadState_saveState cbor builtins now nodup
    rw [written] at written'
    rw [Except.ok.inj written', read]

end Life

/-! ### Claims -/

/-- The ranges that an answer gives out. -/
def Answer.ranges : Answer → List (Bytes × ℤ × ℤ)
  | .claimed info => info.ranges
  | _ => []

/-- All ranges that were ever given out, oldest first. -/
def claimed (history : List (Event × Answer)) : List (Bytes × ℤ × ℤ) :=
  history.flatMap fun e => e.2.ranges

/-- A new batch comes under a fresh id and nothing of it is claimed, and a claim asks for
something. -/
def ClaimsFresh (life : Life) (_ : List (Event × Answer)) : Event → Prop
  | .addBatch batch =>
    batch.batchId ∉ life.memory.batches.map Prod.fst ∧ batch.next = 0
  | .claimChunk size _ => 0 < size
  | .getChunk _ => True
  | .restart _ => True

/-- A range of a batch that was added, is owned and serves the peers. -/
def RangeOf (history : List (Event × Answer)) (peers : List Peer) (range : Bytes × ℤ × ℤ) :
    Prop :=
  ∃ batch answer, (.addBatch batch, answer) ∈ history ∧ batch.batchId = range.1 ∧
    batch.owned = true ∧ batch.serves peers false = true ∧
    0 ≤ range.2.1 ∧ 0 ≤ range.2.2 ∧ range.2.1 + range.2.2 ≤ batch.size

/-- An answered claim is within what was asked for, and within batches for it. -/
def Answered (history : List (Event × Answer)) : Event × Answer → Prop
  | (.claimChunk size peers, .claimed info) =>
    0 < info.sizes.sum ∧ info.sizes.sum ≤ size ∧ info.batches = info.ranges.map Prod.fst ∧
      ∀ range ∈ info.ranges, RangeOf history peers range
  | _ => True

/-- A batch in memory, as it was when it was added but for what was claimed of it. -/
structure Tracked (history : List (Event × Answer)) (e : Bytes × StoredBatch.Frame) : Prop where
  keyed : e.2.batchId = e.1
  nonneg : 0 ≤ e.2.next
  next_le : e.2.next ≤ e.2.triples
  added : ∃ batch answer, (.addBatch batch, answer) ∈ history ∧
    { e.2 with next := 0 } = batch.frame

/-- What holds between the store, the saved state and the claims. -/
structure ClaimInv (cbor : Cbor2) (builtins : Builtins) (life : Life)
    (history : List (Event × Answer)) : Prop where
  nodup : (life.memory.batches.map Prod.fst).Nodup
  saved : ∃ store, Restored cbor builtins life.saved store ∧ store.frames = life.memory.frames
  tracked : ∀ e ∈ life.memory.frames, Tracked history e
  behind : ∀ range ∈ claimed history, ∃ e ∈ life.memory.frames, e.1 = range.1 ∧
    range.2.1 + range.2.2 ≤ e.2.next
  disjoint : (claimed history).Pairwise fun r q => r.1 = q.1 → r.2.1 + r.2.2 ≤ q.2.1
  answered : ∀ e ∈ history, Answered history e

section Claims

variable {cbor : Cbor2} {builtins : Builtins} {current : Life} {history : List (Event × Answer)}

theorem RangeOf.mono {peers : List Peer} {range : Bytes × ℤ × ℤ}
    (rangeOf : RangeOf history peers range) (later : List (Event × Answer)) :
    RangeOf (history ++ later) peers range := by
  obtain ⟨batch, answer, mem, holds⟩ := rangeOf
  exact ⟨batch, answer, List.mem_append_left _ mem, holds⟩

theorem Answered.mono {e : Event × Answer} (answered : Answered history e)
    (later : List (Event × Answer)) : Answered (history ++ later) e := by
  unfold Answered at answered ⊢
  split at answered
  · next size peers info =>
      obtain ⟨pos, le, named, ranges⟩ := answered
      exact ⟨pos, le, named, fun range mem => (ranges range mem).mono later⟩
  · trivial

theorem Tracked.mono {e : Bytes × StoredBatch.Frame} (tracked : Tracked history e)
    (later : List (Event × Answer)) : Tracked (history ++ later) e := by
  obtain ⟨batch, answer, mem, same⟩ := tracked.added
  exact { tracked with added := ⟨batch, answer, List.mem_append_left _ mem, same⟩ }

theorem claimed_concat (e : Event × Answer) :
    claimed (history ++ [e]) = claimed history ++ e.2.ranges := by
  simp [claimed]

theorem claimed_of_ne {e : Event × Answer} (none : ∀ info, e.2 ≠ .claimed info) :
    claimed (history ++ [e]) = claimed history := by
  obtain ⟨event, answer⟩ := e
  rw [claimed_concat]
  cases answer with
  | claimed info => exact absurd rfl (none info)
  | _ => exact List.append_nil _

theorem Answered.of_ne {e : Event × Answer} (none : ∀ info, e.2 ≠ .claimed info) :
    Answered history e := by
  unfold Answered
  split
  · next info => exact absurd rfl (none info)
  · trivial

/-- The history of answers is kept up. -/
theorem answered_concat {e : Event × Answer} (before : ∀ e ∈ history, Answered history e)
    (last : Answered (history ++ [e]) e) :
    ∀ e' ∈ history ++ [e], Answered (history ++ [e]) e' := by
  intro e' mem
  rcases List.mem_append.mp mem with inHistory | here
  · exact (before e' inHistory).mono _
  · rw [List.mem_singleton.mp here]
    exact last

theorem serves_congr {batch batch' : StoredBatch} (batchId : batch'.batchId = batch.batchId)
    (same : batch'.peers = batch.peers) (peers : List Peer) (exact : Bool) :
    batch'.serves peers exact = batch.serves peers exact := by
  rw [StoredBatch.serves, StoredBatch.serves, batchId, same]

theorem mem_frames {store : PreproductStore} {e : Bytes × StoredBatch.Frame} :
    e ∈ store.frames ↔ ∃ batch, (e.1, batch) ∈ store.batches ∧ batch.frame = e.2 := by
  rw [frames, List.mem_map]
  constructor
  · rintro ⟨⟨id, batch⟩, mem, rfl⟩
    exact ⟨batch, mem, rfl⟩
  · rintro ⟨batch, mem, same⟩
    exact ⟨(e.1, batch), mem, by rw [same]⟩

/-- What does not touch the frames keeps the invariant. -/
theorem ClaimInv.keep (inv : ClaimInv cbor builtins current history) {next : Life} {event : Event}
    {answer : Answer} (frames : next.memory.frames = current.memory.frames)
    (saved : next.saved = current.saved) (none : ∀ info, answer ≠ .claimed info) :
    ClaimInv cbor builtins next (history ++ [(event, answer)]) := by
  constructor
  · exact nodup_of_frames frames inv.nodup
  · rw [saved, frames]
    exact inv.saved
  · rw [frames]
    exact fun e mem => (inv.tracked e mem).mono _
  · rw [claimed_of_ne none, frames]
    exact inv.behind
  · rw [claimed_of_ne none]
    exact inv.disjoint
  · exact answered_concat inv.answered (.of_ne none)

/-- A batch is added under a fresh id. -/
theorem ClaimInv.addBatch (inv : ClaimInv cbor builtins current history) {batch : StoredBatch}
    (fresh : batch.batchId ∉ current.memory.batches.map Prod.fst) (unclaimed : batch.next = 0) :
    ClaimInv cbor builtins (act cbor builtins current (.addBatch batch)).1
      (history ++ [(.addBatch batch, (act cbor builtins current (.addBatch batch)).2)]) := by
  have nodup : ((current.memory.addBatch batch).batches.map Prod.fst).Nodup :=
    nodup_dictSet inv.nodup batch.batchId batch
  obtain ⟨state, eq, restored⟩ := @save_eq cbor builtins _ nodup current.saved .done
  have frames : (current.memory.addBatch batch).frames =
      current.memory.frames ++ [(batch.batchId, batch.frame)] := by
    rw [PreproductStore.frames, PreproductStore.addBatch, dictSet, if_neg fresh, List.map_append]
    rfl
  rw [act, eq]
  constructor
  · exact nodup
  · exact ⟨_, restored, rfl⟩
  · rw [frames]
    intro e mem
    rcases List.mem_append.mp mem with old | new
    · exact (inv.tracked e old).mono _
    · rw [List.mem_singleton.mp new]
      constructor
      · rfl
      · exact unclaimed.ge
      · rw [show batch.frame.next = 0 from unclaimed]
        exact Int.natCast_nonneg _
      · refine ⟨batch, .done, by simp, ?_⟩
        rw [StoredBatch.frame, unclaimed]
  · rw [frames, claimed_of_ne (by simp)]
    intro range mem
    obtain ⟨e, inFrames, behind⟩ := inv.behind range mem
    exact ⟨e, List.mem_append_left _ inFrames, behind⟩
  · rw [claimed_of_ne (by simp)]
    exact inv.disjoint
  · exact answered_concat inv.answered (.of_ne (by simp))

theorem ClaimInv.of_mem (inv : ClaimInv cbor builtins current history) {e : Bytes × StoredBatch}
    (mem : e ∈ current.memory.batches) : Tracked history (e.1, e.2.frame) :=
  inv.tracked _ (mem_frames.mpr ⟨e.2, mem, rfl⟩)

section Claim

variable {size : ℤ} {peers : List Peer} {info : PreproductInfo}
  {changed : List (Bytes × StoredBatch)}

variable (inv : ClaimInv cbor builtins current history)
  (served : Served (current.memory.myBatches peers) size info.sizes info.ranges changed)

include inv served

/-- A claim gives out one range of a batch at most. -/
theorem ClaimInv.nodup_served :
    (changed.map Prod.fst).Nodup ∧ (info.ranges.map Prod.fst).Nodup :=
  served.nodup (nodup_myBatches inv.nodup peers)
    fun _ mem => (inv.of_mem (mem_myBatches.mp mem).1).keyed

/-- No batch is left with fewer numbers claimed. -/
theorem ClaimInv.grows {e : Bytes × StoredBatch} (mem : e ∈ current.memory.batches) :
    ∃ e' ∈ (current.memory.update changed).batches, e'.1 = e.1 ∧ e.2.next ≤ e'.2.next := by
  have after := @mem_dictUpdate _ _ _ current.memory.batches changed
    (inv.nodup_served served).1
  by_cases touched : e.1 ∈ changed.map Prod.fst
  · obtain ⟨e', inChanged, key⟩ := List.mem_map.mp touched
    obtain ⟨old, n, rfl, taken⟩ := served.of_changed inChanged
    obtain rfl : old = e :=
      List.inj_on_of_nodup_map inv.nodup (mem_myBatches.mp taken.mem).1 mem key
    exact ⟨_, after.mpr (.inl inChanged), rfl, le_add_of_nonneg_right taken.nonneg⟩
  · exact ⟨e, after.mpr (.inr ⟨mem, touched⟩), rfl, le_rfl⟩

omit served in
/-- What is claimed of a batch stays within it. -/
theorem ClaimInv.within {e : Bytes × StoredBatch} {n : ℤ}
    (taken : TakenFrom e n (current.memory.myBatches peers) info.ranges changed) :
    e.2.next + n ≤ e.2.size := by
  have le := taken.le
  have bound : e.2.next ≤ e.2.size := (inv.of_mem (mem_myBatches.mp taken.mem).1).next_le
  rw [StoredBatch.remaining] at le
  omega

theorem ClaimInv.tracked_update {e : Bytes × StoredBatch}
    (mem : e ∈ (current.memory.update changed).batches) : Tracked history (e.1, e.2.frame) := by
  rcases (mem_dictUpdate (inv.nodup_served served).1).mp mem with inChanged | ⟨old, -⟩
  · obtain ⟨old, n, rfl, taken⟩ := served.of_changed inChanged
    have before := inv.of_mem (mem_myBatches.mp taken.mem).1
    constructor
    · exact before.keyed
    · exact add_nonneg before.nonneg taken.nonneg
    · exact inv.within taken
    · exact before.added
  · exact inv.of_mem old

theorem ClaimInv.rangeOf {range : Bytes × ℤ × ℤ} (mem : range ∈ info.ranges) :
    RangeOf history peers range := by
  obtain ⟨e, n, rfl, taken⟩ := served.of_range mem
  obtain ⟨inMemory, owned, serves⟩ := mem_myBatches.mp taken.mem
  have before := inv.of_mem inMemory
  obtain ⟨batch, answer, added, same⟩ := before.added
  have frame : batch.frame = { e.2.frame with next := 0 } := same.symm
  have batchId : batch.batchId = e.2.batchId := congrArg StoredBatch.Frame.batchId frame
  have size : batch.size = e.2.size :=
    congrArg (fun f : StoredBatch.Frame => (f.triples : ℤ)) frame
  refine ⟨batch, answer, added, batchId, ?_, ?_, before.nonneg, taken.nonneg, ?_⟩
  · exact (congrArg StoredBatch.Frame.owned frame).trans owned
  · rw [serves_congr batchId (congrArg StoredBatch.Frame.peers frame)]
    exact serves
  · rw [size]
    exact inv.within taken

/-- A new range begins where nothing of its batch was claimed yet. -/
theorem ClaimInv.after_claimed {old range : Bytes × ℤ × ℤ} (before : old ∈ claimed history)
    (mem : range ∈ info.ranges) (same : old.1 = range.1) : old.2.1 + old.2.2 ≤ range.2.1 := by
  obtain ⟨⟨id, frame⟩, inFrames, key, behind⟩ := inv.behind old before
  obtain ⟨batch, inMemory, rfl⟩ := mem_frames.mp inFrames
  obtain ⟨e, n, rfl, taken⟩ := served.of_range mem
  have inStore := (mem_myBatches.mp taken.mem).1
  obtain rfl : (id, batch) = e := by
    refine List.inj_on_of_nodup_map inv.nodup inMemory inStore ?_
    exact (key.trans same).trans (inv.of_mem inStore).keyed
  exact behind

end Claim

/-- Numbers are claimed. -/
theorem ClaimInv.claimChunk (inv : ClaimInv cbor builtins current history) {size : ℤ}
    (pos : 0 < size) (peers : List Peer) :
    ClaimInv cbor builtins (act cbor builtins current (.claimChunk size peers)).1
      (history ++ [(.claimChunk size peers,
        (act cbor builtins current (.claimChunk size peers)).2)]) := by
  by_cases waits : current.memory.totalRemaining peers false = 0
  · rw [act, PreproductStore.claimChunk, if_pos waits]
    exact inv.keep rfl rfl (by simp)
  · obtain ⟨info, changed, claim, served, some, named⟩ := claimChunk_eq pos waits
    have nodup : ((current.memory.update changed).batches.map Prod.fst).Nodup :=
      nodup_dictUpdate inv.nodup changed
    obtain ⟨state, eq, restored⟩ := @save_eq cbor builtins _ nodup current.saved (.claimed info)
    rw [act, claim]
    dsimp only
    rw [eq]
    constructor
    · exact nodup
    · exact ⟨_, restored, rfl⟩
    · intro e mem
      obtain ⟨batch, inStore, same⟩ := mem_frames.mp mem
      have tracked := inv.tracked_update served inStore
      rw [same] at tracked
      exact tracked.mono _
    · rw [claimed_concat]
      intro range mem
      rcases List.mem_append.mp mem with before | new
      · obtain ⟨⟨id, frame⟩, inFrames, key, behind⟩ := inv.behind range before
        obtain ⟨batch, inMemory, rfl⟩ := mem_frames.mp inFrames
        obtain ⟨e, inStore, same, grown⟩ := inv.grows served inMemory
        exact ⟨(e.1, e.2.frame), mem_frames.mpr ⟨e.2, inStore, rfl⟩, same.trans key,
          behind.trans grown⟩
      · obtain ⟨e, n, rfl, taken⟩ := served.of_range new
        refine ⟨(e.1, { e.2.frame with next := e.2.next + n }),
          mem_frames.mpr ⟨{ e.2 with next := e.2.next + n }, ?_, rfl⟩, ?_, ?_⟩
        · exact (mem_dictUpdate (inv.nodup_served served).1).mpr (.inl taken.changed)
        · exact (inv.of_mem (mem_myBatches.mp taken.mem).1).keyed.symm
        · exact le_rfl
    · rw [claimed_concat, List.pairwise_append]
      refine ⟨inv.disjoint, ?_, fun old before range new same =>
        inv.after_claimed served before new same⟩
      refine (List.pairwise_map.mp (inv.nodup_served served).2).imp ?_
      intro r q distinct same
      exact absurd same distinct
    · refine answered_concat inv.answered ?_
      exact ⟨some, served.sum_le, named, fun range mem => (inv.rangeOf served mem).mono _⟩

/-- Every event keeps the invariant. -/
theorem ClaimInv.step (inv : ClaimInv cbor builtins current history) {event : Event}
    (ok : ClaimsFresh current history event) :
    ClaimInv cbor builtins (act cbor builtins current event).1
      (history ++ [(event, (act cbor builtins current event).2)]) := by
  cases event with
  | addBatch batch => exact inv.addBatch ok.1 ok.2
  | claimChunk size peers => exact inv.claimChunk ok peers
  | getChunk info =>
      refine inv.keep (getChunks_frames inv.nodup info.ranges).1 rfl ?_
      intro info
      rw [act]
      dsimp only
      split <;> simp
  | restart now =>
      obtain ⟨store, restored, frames⟩ := inv.saved
      rw [act, restored now]
      exact inv.keep frames rfl (by simp)

theorem ClaimInv.init : ClaimInv cbor builtins {} [] where
  nodup := List.nodup_nil
  saved := ⟨{}, fun _ => rfl, rfl⟩
  tracked := by simp [frames]
  behind := by simp [claimed]
  disjoint := List.Pairwise.nil
  answered := by simp

end Claims

/-- **No number is claimed twice.** Whatever happens to a store, the ranges that it gives out
of one batch are disjoint. A claim gets at least one number and no more than it asked for,
within batches that were added, are owned and serve the peers. -/
theorem claims_disjoint (cbor : Cbor2) (builtins : Builtins) {events : List Event}
    (admits : (life cbor builtins).Admits ClaimsFresh events) :
    let history := ((life cbor builtins).run events).2
    ((claimed history).Pairwise fun r q => r.1 = q.1 →
      Disjoint (Set.Ico r.2.1 (r.2.1 + r.2.2)) (Set.Ico q.2.1 (q.2.1 + q.2.2))) ∧
    ∀ size peers info, (.claimChunk size peers, .claimed info) ∈ history →
      0 < info.sizes.sum ∧ info.sizes.sum ≤ size ∧ info.batches = info.ranges.map Prod.fst ∧
      ∀ range ∈ info.ranges, RangeOf history peers range := by
  have inv := (life cbor builtins).run_induction (P := ClaimInv cbor builtins) ClaimInv.init
    (fun _ _ _ inv ok => inv.step ok) admits
  refine ⟨inv.disjoint.imp fun ordered same => ?_, fun size peers info mem => inv.answered _ mem⟩
  rw [Set.Ico_disjoint_Ico]
  have := ordered same
  omega

/-- A batch of one triple and one random number. -/
def exampleBatch : StoredBatch where
  batchId := [7]
  peers := ["left", "right"]
  owned := true
  triples := [some ⟨⟨2, 1⟩, ⟨3, 1⟩, ⟨6, 1⟩⟩]
  randomNumbers := [some ⟨5, 1⟩]

/-- A claim, a restart, and a claim that finds nothing left. -/
theorem claims_disjoint_example :
    (claimed ((life Cbor.package Builtins.strict).run ([] ++ [.addBatch exampleBatch] ++
      [.claimChunk 2 []] ++ [.restart 0] ++ [.claimChunk 1 []])).2).Pairwise fun r q =>
        r.1 = q.1 → Disjoint (Set.Ico r.2.1 (r.2.1 + r.2.2)) (Set.Ico q.2.1 (q.2.1 + q.2.2)) := by
  refine (claims_disjoint Cbor.package Builtins.strict ?_).1
  simp only [Machine.admits_concat, Machine.admits_nil, true_and]
  refine ⟨⟨⟨⟨List.not_mem_nil, rfl⟩, ?_⟩, trivial⟩, ?_⟩
  · exact two_pos
  · exact one_pos

/-! ### Fetches -/

/-- The places that the chunk of an answer was taken from. -/
def Answer.places : Answer → List Place
  | .fetched _ places => places
  | _ => []

/-- All places that chunks were ever taken from, oldest first. -/
def fetched (history : List (Event × Answer)) : List Place :=
  history.flatMap fun e => e.2.places

/-- A new batch comes under an id of which nothing was fetched, a fetched range is nulled out
throughout, and a restart finds a saved state without anything that was fetched. -/
def FetchesSaved (cbor : Cbor2) (builtins : Builtins) (life : Life)
    (history : List (Event × Answer)) : Event → Prop
  | .addBatch batch => ∀ p ∈ fetched history, p.1 ≠ batch.batchId
  | .claimChunk _ _ => True
  | .getChunk info => ∀ range ∈ info.ranges, life.memory.Nulled range
  | .restart now => ∀ store, loadState cbor builtins now life.saved = .ok store →
      ∀ p ∈ fetched history, store.EmptyAt p

/-- What was fetched is not there any more. -/
structure FetchInv (cbor : Cbor2) (builtins : Builtins) (life : Life)
    (history : List (Event × Answer)) : Prop where
  nodup : (life.memory.batches.map Prod.fst).Nodup
  saved : ∃ store, Restored cbor builtins life.saved store ∧ (store.batches.map Prod.fst).Nodup
  gone : ∀ p ∈ fetched history, life.memory.EmptyAt p
  once : (fetched history).Nodup

section Fetches

variable {cbor : Cbor2} {builtins : Builtins} {current : Life} {history : List (Event × Answer)}

theorem fetched_concat (e : Event × Answer) :
    fetched (history ++ [e]) = fetched history ++ e.2.places := by
  simp [fetched]

theorem fetched_of_nil {e : Event × Answer} (none : e.2.places = []) :
    fetched (history ++ [e]) = fetched history := by
  rw [fetched_concat, none, List.append_nil]

/-- What is saved keeps the invariant, where no slot that was fetched is filled. -/
theorem FetchInv.save (inv : FetchInv cbor builtins current history) {memory : PreproductStore}
    (nodup : (memory.batches.map Prod.fst).Nodup)
    (gone : ∀ p ∈ fetched history, memory.EmptyAt p) (event : Event) {answer : Answer}
    (none : answer.places = []) :
    FetchInv cbor builtins (PreproductStore.save cbor memory current.saved answer).1
      (history ++ [(event, (PreproductStore.save cbor memory current.saved answer).2)]) := by
  obtain ⟨state, eq, restored⟩ := @save_eq cbor builtins _ nodup current.saved answer
  have places := @fetched_of_nil history (event, answer) none
  rw [eq]
  constructor
  · exact nodup
  · exact ⟨memory, restored, nodup⟩
  · rw [places]
    exact gone
  · rw [places]
    exact inv.once

/-- Nothing happens. -/
theorem FetchInv.same (inv : FetchInv cbor builtins current history) (event : Event)
    {answer : Answer} (none : answer.places = []) :
    FetchInv cbor builtins current (history ++ [(event, answer)]) := by
  have places := @fetched_of_nil history (event, answer) none
  constructor
  · exact inv.nodup
  · exact inv.saved
  · rw [places]
    exact inv.gone
  · rw [places]
    exact inv.once

/-- What changes no list of a batch keeps every empty slot. -/
theorem EmptyAt.update {store : PreproductStore} (nodup : (store.batches.map Prod.fst).Nodup)
    {changed : List (Bytes × StoredBatch)}
    (same : ∀ e' ∈ changed, ∃ e ∈ store.batches, ∃ next, e' = (e.1, { e.2 with next }))
    {p : Place} (empty : store.EmptyAt p) : (store.update changed).EmptyAt p := by
  obtain ⟨batch, found, empty⟩ := empty
  have slots := @lookup_dictUpdate _ _ _ _ _ _ StoredBatch.slots changed store.batches ?_ p.1
  · rw [found, Option.map_some, Option.map_eq_some_iff] at slots
    obtain ⟨batch', found', eq⟩ := slots
    refine ⟨batch', found', ?_⟩
    rw [StoredBatch.EmptyAt, eq]
    exact empty
  · intro e' mem
    obtain ⟨e, inStore, next, rfl⟩ := same e' mem
    rw [lookup_of_mem (v := e.2) nodup inStore, Option.map_some]
    refine congrArg some (funext fun kind => ?_)
    cases kind <;> rfl

/-- A fetch takes what was not fetched before. -/
theorem FetchInv.getChunk (inv : FetchInv cbor builtins current history) {info : PreproductInfo}
    (nulled : ∀ range ∈ info.ranges, current.memory.Nulled range) :
    FetchInv cbor builtins (act cbor builtins current (.getChunk info)).1
      (history ++ [(.getChunk info, (act cbor builtins current (.getChunk info)).2)]) := by
  obtain ⟨frames, emptied⟩ := getChunks_frames inv.nodup info.ranges
  have after : FetchInv cbor builtins { current with memory := (current.memory.getChunk info).1 }
      history := {
    nodup := nodup_of_frames frames inv.nodup
    saved := inv.saved
    gone := fun p mem => emptied p (inv.gone p mem)
    once := inv.once }
  rw [act]
  dsimp only
  split
  · exact after.same _ rfl
  · next chunk eq =>
      obtain ⟨distinct, taken⟩ := getChunks_spec inv.nodup eq nulled
      constructor
      · exact after.nodup
      · exact after.saved
      · rw [fetched_concat]
        intro p mem
        rcases List.mem_append.mp mem with before | here
        · exact after.gone p before
        · exact (taken p here).2
      · rw [fetched_concat, List.nodup_append]
        refine ⟨inv.once, distinct, ?_⟩
        rintro p before q here rfl
        exact (taken p here).1.not_emptyAt (inv.gone p before)
  · exact after.same _ rfl

/-- Every event keeps the invariant. -/
theorem FetchInv.step (inv : FetchInv cbor builtins current history) {event : Event}
    (ok : FetchesSaved cbor builtins current history event) :
    FetchInv cbor builtins (act cbor builtins current event).1
      (history ++ [(event, (act cbor builtins current event).2)]) := by
  cases event with
  | addBatch batch =>
      refine inv.save (nodup_dictSet inv.nodup batch.batchId batch) (fun p mem => ?_) _ rfl
      obtain ⟨old, found, empty⟩ := inv.gone p mem
      refine ⟨old, ?_, empty⟩
      apply (lookup_dictSet _ _ _ _).trans
      rw [if_neg (ok p mem), found]
  | claimChunk size peers =>
      rw [act]
      cases claim : current.memory.claimChunk size peers with
      | none => exact inv.same _ rfl
      | some result =>
          cases result with
          | error e => exact inv.same _ rfl
          | ok claimed =>
              obtain ⟨info, memory⟩ := claimed
              rw [PreproductStore.claimChunk] at claim
              split_ifs at claim
              obtain ⟨⟨ranges, changed⟩, run, eq⟩ := bind_eq_ok.mp (Option.some.inj claim)
              obtain ⟨-, rfl⟩ := Prod.mk.inj (Except.ok.inj eq)
              refine inv.save (nodup_dictUpdate inv.nodup changed) (fun p mem => ?_) _ rfl
              refine EmptyAt.update inv.nodup (fun e' inChanged => ?_) (inv.gone p mem)
              obtain ⟨e, inBatches, next, same⟩ := claimFrom_changed run inChanged
              exact ⟨e, (mem_myBatches.mp inBatches).1, next, same⟩
  | getChunk info => exact inv.getChunk ok
  | restart now =>
      obtain ⟨store, restored, nodup⟩ := inv.saved
      have memory : FetchInv cbor builtins { current with memory := store } history := {
        nodup := nodup
        saved := inv.saved
        gone := ok store (restored now)
        once := inv.once }
      rw [act, restored now]
      exact memory.same _ rfl

theorem FetchInv.init : FetchInv cbor builtins {} [] where
  nodup := List.nodup_nil
  saved := ⟨{}, fun _ => rfl, List.nodup_nil⟩
  gone := by simp [fetched]
  once := List.nodup_nil

end Fetches

/-- **No number is fetched twice.** Whatever a peer adds, claims and fetches, its chunks are
taken from different places, as long as every restart finds saved what was fetched. -/
theorem chunks_disjoint (cbor : Cbor2) (builtins : Builtins) {events : List Event}
    (admits : (life cbor builtins).Admits (FetchesSaved cbor builtins) events) :
    (fetched ((life cbor builtins).run events).2).Nodup :=
  ((life cbor builtins).run_induction (P := FetchInv cbor builtins) FetchInv.init
    (fun _ _ _ inv ok => inv.step ok) admits).once

/-- All that the batch has. -/
def exampleInfo : PreproductInfo := ⟨[[7]], [0], [1]⟩

/-- A saved batch is fetched once, however often it is asked for. -/
theorem chunks_disjoint_example :
    (fetched ((life Cbor.package Builtins.strict).run ([] ++ [.addBatch exampleBatch] ++
      [.restart 0] ++ [.getChunk exampleInfo] ++ [.getChunk exampleInfo])).2).Nodup := by
  apply chunks_disjoint
  have pos : ∀ store : PreproductStore, ∀ range ∈ exampleInfo.ranges, store.Nulled range := by
    intro store range mem
    obtain rfl : range = ([7], 0, 1) := by simpa [exampleInfo, PreproductInfo.ranges] using mem
    exact fun _ _ => .inl one_pos.le
  simp only [Machine.admits_concat, Machine.admits_nil, true_and]
  refine ⟨⟨⟨?_, ?_⟩, pos _⟩, pos _⟩
  · exact fun p none => absurd none List.not_mem_nil
  · -- nothing was fetched when the peer is restarted
    obtain ⟨state, saved, -⟩ := @save_eq Cbor.package Builtins.strict
      (({} : PreproductStore).addBatch exampleBatch) (List.nodup_singleton _) none .done
    have answer : (act Cbor.package Builtins.strict {} (.addBatch exampleBatch)).2 = .done :=
      congrArg Prod.snd saved
    rintro store - p mem
    rw [Machine.run_concat, Machine.run_nil, Machine.record, fetched_concat, life, answer] at mem
    exact absurd mem List.not_mem_nil

/-- **A restart right after a fetch forgets it**, and the same numbers are fetched again. -/
theorem chunks_twice :
    ¬ ∀ events, (fetched ((life Cbor.package Builtins.strict).run events).2).Nodup := by
  intro once
  let full : PreproductStore := ⟨[([7], exampleBatch)]⟩
  obtain ⟨state, saved, restored⟩ :=
    @save_eq Cbor.package Builtins.strict full (List.nodup_singleton _) none .done
  have add : act Cbor.package Builtins.strict {} (.addBatch exampleBatch) =
      (⟨full, some state⟩, .done) := saved
  have fetch : act Cbor.package Builtins.strict ⟨full, some state⟩ (.getChunk exampleInfo) =
      (⟨(full.getChunk exampleInfo).1, some state⟩,
        .fetched ⟨[⟨⟨2, 1⟩, ⟨3, 1⟩, ⟨6, 1⟩⟩], [⟨5, 1⟩]⟩ (full.places exampleInfo)) := rfl
  have again : ∀ memory, act Cbor.package Builtins.strict ⟨memory, some state⟩ (.restart 0) =
      (⟨full, some state⟩, .done) := fun memory => by rw [act, restored 0]
  have twice := once [.addBatch exampleBatch, .getChunk exampleInfo, .restart 0,
    .getChunk exampleInfo]
  simp only [Machine.run, life, List.foldl_cons, List.foldl_nil, Machine.record, add, fetch,
    again] at twice
  exact absurd twice (by decide)

end PreproductStore

end Prism.Lockfree
