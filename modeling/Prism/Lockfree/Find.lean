import Prism.Lockfree.Mpc

/-!
Oblivious find (`prism/server/CS2/roles/lockfree/dropbox.py`, `handle_find_op` and
`check_task`).

The leader asks some peers to compare stored fragments with a polled pseudonym. Each
peer subtracts its shares of the two pseudonyms and multiplies the difference with a
shared random number in one round of `mulm`; the leader opens the products. A peer
without the fragment computes with `Fragment.dummy()`.

`FindOp` is one such operation over the whole committee: what every peer holds, and
which responses every peer gathers. `find_opens` says that whatever the leader opens
is `R * (x - y)`, whoever answered whom.
-/

namespace Prism.Lockfree

open Prism.Crypto Prism.Lib Sharing

/-- A stored fragment of a message. -/
structure Fragment where
  fragmentId : Bytes
  pseudonymShare : Share
  ciphertext : Bytes
deriving DecidableEq, Repr

/-- `Fragment.dummy`. -/
def Fragment.dummy : Fragment := ⟨[], ⟨0, -1⟩, []⟩

/-- A chunk of preproducts to be used in a single MPC operation. -/
structure PreproductChunk where
  triples : List Triple
  randomNumbers : List Share
deriving DecidableEq, Repr

/-- `handle_find_op`: `preproducts` is what `get_chunk` returned, `readPeer` the
pseudonym share in the decrypted peer message. The reply goes to the requester. -/
def handleFindOp (self : MPCRole) (storedFragments : Bytes → Option Fragment)
    (preproducts : Option PreproductChunk) (readPeer : Option ℤ) (opPeers : List ℕ)
    (requestId : Bytes) (targets : List Bytes) : Op (Option Message) :=
  match preproducts with
  | none => return none
  | some preproducts =>
    match readPeer with
    | none => return none
    | some pseudonymShare => do
      let pseudoShare : Share := ⟨pseudonymShare, self.partyId⟩
      let frags := targets.map fun fragmentId =>
        (storedFragments fragmentId).getD Fragment.dummy
      let diffs ← (frags.mapM fun frag =>
        self.sharing.sub frag.pseudonymShare pseudoShare : Py _)
      let randDiffs ← self.mulm diffs preproducts.randomNumbers preproducts.triples opPeers
        requestId
      if randDiffs = [] then return none
      return some (self.response .findHandler requestId randDiffs true)

/-- What `check_task` learns: the opened values, the fragments it reports found, and
those it marks as checked. -/
structure Checked where
  results : List (Option ℤ) := []
  found : List Bytes := []
  checked : List Bytes := []
deriving DecidableEq, Repr

/-- `check_task`, from the gathered responses on: `fragments` lists the fragments to
check, `opPeers` the peers that were asked, and `size` is that of the claimed chunk. -/
def checkTask (sharing : Sharing) (opPeers : List ℕ) (fragments : List Bytes) (size : ℕ)
    (responses : List Message) : Py Checked :=
  if opPeers.length < sharing.threshold then .ok {}
  else do
    let targets := fragments.take size
    let successes ← responses.filterM fun response => MPCMap.opSuccess <$> response.map
    if successes.length < sharing.threshold then .ok {}
    else do
      let rows ← successes.mapM Message.shares
      let results ← (zipStar rows).mapM sharing.open
      return {
        results
        found := ((targets.zip results).filter fun (_, result) => result = some 0).map Prod.fst
        checked := ((fragments.zip results).filter fun (_, result) => result ≠ none).map
          Prod.fst }

/-! ### One operation over the committee -/

/-- One find operation: what every peer holds for it, which peers each peer takes part
with, and whose messages each peer gathers in the round of `mulm`. -/
structure FindOp where
  sharing : Sharing
  requestId : Bytes
  targets : List Bytes
  stored : ℕ → Bytes → Option Fragment
  chunk : ℕ → Option PreproductChunk
  readPeer : ℕ → Option ℤ
  opPeers : ℕ → List ℕ
  gathered : ℕ → List ℕ

namespace FindOp

variable (find : FindOp)

/-- The operation as peer `i` runs it. -/
def op (i : ℕ) : Op (Option Message) :=
  handleFindOp ⟨i, find.sharing⟩ (find.stored i) (find.chunk i) (find.readPeer i)
    (find.opPeers i) find.requestId find.targets

/-- The message that peer `i` sends to peer `j` in the round of `mulm`, if it gets to
that round. -/
def sent (i j : ℕ) : Option Message :=
  match find.op i with
  | .done _ => none
  | .ask round _ => round.sends.find? fun message => message.destPartyId = some j

/-- The reply of peer `j`, which gathers the messages of the peers it has chosen among
those that sent it one. -/
def reply (j : ℕ) : Py (Option Message) :=
  (find.op j).run fun _ => (find.gathered j).filterMap fun i => find.sent i j

/-- The replies of a list of peers, as the leader gathers them. -/
def replies (js : List ℕ) : List Message :=
  js.filterMap fun j =>
    match find.reply j with
    | .ok message => message
    | .error _ => none

end FindOp

/-- The parties that have a share `f` hold a degree `threshold - 1` sharing of `v`. -/
def SharedAmong (sharing : Sharing) (v : ℤ) (f : ℕ → Option Share) : Prop :=
  sharing.Shares { i | (f i).isSome } sharing.threshold v fun i => (f i).getD Sharing.dummy

/-- The shares that a dealer handed out, at the parties that still hold theirs. -/
theorem sharedAmong_share {sharing : Sharing} (pos : 0 < sharing.threshold) (value : ℤ)
    (drawn : sharing.secretSharing.Draw) (holds : ℕ → Bool)
    (parties : ∀ i, holds i = true → i < sharing.nparties) :
    SharedAmong sharing value fun i =>
      if holds i then some (sharing.secretSharing.shareOf value drawn.1 i) else none := by
  have dealt := (shares_of_share pos value drawn).mono (T := { i | holds i = true }) parties
  have sets : { i | (if holds i then some (sharing.secretSharing.shareOf value drawn.1 i)
      else none).isSome } = { i | holds i = true } := by
    ext i
    by_cases h : holds i <;> simp [h]
  unfold SharedAmong
  rw [sets]
  refine ⟨fun i (hi : holds i = true) => by simp [hi, ShamirSS.shareOf],
    dealt.shared.congr fun i (hi : holds i = true) => by simp [hi]⟩

/-- The preconditions of a find operation: for every target its pseudonym `x`, the
polled pseudonym `y`, and for every target a random number `r` and a triple `c = a * b`
are shared among the peers that have them. -/
structure FindOp.Valid (find : FindOp) (x : ℕ → ℤ) (y : ℤ) (r a b c : ℕ → ℤ) : Prop where
  prime : find.sharing.modulus.Prime
  parties_lt : find.sharing.nparties < find.sharing.modulus
  threshold_pos : 1 ≤ find.sharing.threshold
  lengths : ∀ i chunk, find.chunk i = some chunk →
    chunk.randomNumbers.length = find.targets.length ∧ chunk.triples.length = find.targets.length
  stored : ∀ k (lt : k < find.targets.length), SharedAmong find.sharing (x k) fun i =>
    (find.stored i find.targets[k]).map (·.pseudonymShare)
  polled : SharedAmong find.sharing y fun i => (find.readPeer i).map fun share => ⟨share, i⟩
  random : ∀ k < find.targets.length, SharedAmong find.sharing (r k) fun i =>
    (find.chunk i).bind (·.randomNumbers[k]?)
  tripleA : ∀ k < find.targets.length, SharedAmong find.sharing (a k) fun i =>
    (find.chunk i).bind fun chunk => chunk.triples[k]?.map (·.a)
  tripleB : ∀ k < find.targets.length, SharedAmong find.sharing (b k) fun i =>
    (find.chunk i).bind fun chunk => chunk.triples[k]?.map (·.b)
  tripleC : ∀ k < find.targets.length, SharedAmong find.sharing (c k) fun i =>
    (find.chunk i).bind fun chunk => chunk.triples[k]?.map (·.c)
  product : ∀ k < find.targets.length, (c k : ZMod find.sharing.modulus) = a k * b k
  gathered_nodup : ∀ j, (find.gathered j).Nodup
  gathered_parties : ∀ j, ∀ i ∈ find.gathered j, i < find.sharing.nparties

/-! ### What one peer computes -/

namespace FindOp

variable (find : FindOp)

/-- The `k`-th target. -/
def target (k : ℕ) : Bytes := find.targets.getD k []

theorem target_eq {k : ℕ} (lt : k < find.targets.length) : find.target k = find.targets[k] := by
  simp [target, lt]

/-- Peer `i`'s share of the `k`-th target's pseudonym, a dummy without the fragment. -/
def fragShare (i k : ℕ) : Share :=
  ((find.stored i (find.target k)).getD Fragment.dummy).pseudonymShare

/-- Peer `i`'s share of the polled pseudonym. -/
def pseudoShare (i : ℕ) : Share := ⟨(find.readPeer i).getD 0, i⟩

/-- Peer `i`'s share of the `k`-th random number. -/
def randomShare (i k : ℕ) : Share :=
  ((find.chunk i).bind (·.randomNumbers[k]?)).getD Sharing.dummy

/-- Peer `i`'s shares of the `k`-th triple. -/
def triple (i k : ℕ) : Triple :=
  ((find.chunk i).bind (·.triples[k]?)).getD ⟨Sharing.dummy, Sharing.dummy, Sharing.dummy⟩

/-- Peer `i`'s share of the difference of the pseudonyms. -/
def diff (i k : ℕ) : Share := find.sharing.subShare (find.fragShare i k) (find.pseudoShare i)

/-- Peer `i`'s share of the first masked value. -/
def epsilon (i k : ℕ) : Share := find.sharing.subShare (find.diff i k) (find.triple i k).a

/-- Peer `i`'s share of the second masked value. -/
def delta (i k : ℕ) : Share := find.sharing.subShare (find.randomShare i k) (find.triple i k).b

/-- The peers that get to the round of `mulm`. -/
def Active : Set ℕ :=
  { i | (find.chunk i).isSome ∧ (find.readPeer i).isSome ∧ find.opPeers i ≠ [] }

/-- The peers that hold the `k`-th target. -/
def Holders (k : ℕ) : Set ℕ := { i | (find.stored i (find.target k)).isSome }

/-- The indices of the targets. -/
def indices : List ℕ := List.range find.targets.length

theorem targets_eq : find.targets = find.indices.map fun k => find.target k := by
  refine List.ext_getElem (by simp [indices]) fun k hk _ => ?_
  simp [indices, target_eq find hk]

section Valid

variable {find} {x : ℕ → ℤ} {y : ℤ} {r a b c : ℕ → ℤ} (valid : find.Valid x y r a b c)
include valid

theorem Valid.fragShares {k : ℕ} (hk : k ∈ find.indices) :
    find.sharing.Shares (find.Holders k ∩ find.Active) find.sharing.threshold (x k)
      (find.fragShare · k) := by
  have lt : k < find.targets.length := List.mem_range.mp hk
  have held := valid.stored k lt
  unfold SharedAmong at held
  have sets : find.Holders k = { i | ((find.stored i find.targets[k]).map
      (·.pseudonymShare)).isSome } := by
    ext i
    simp [Holders, target_eq find lt]
  have values : (find.fragShare · k) = fun i =>
      ((find.stored i find.targets[k]).map (·.pseudonymShare)).getD Sharing.dummy := by
    funext i
    simp only [fragShare, target_eq find lt]
    cases find.stored i find.targets[k] <;> rfl
  rw [sets, values]
  exact held.mono Set.inter_subset_left

theorem Valid.pseudoShares :
    find.sharing.Shares find.Active find.sharing.threshold y find.pseudoShare := by
  have polled := valid.polled
  refine ⟨fun i _ => rfl, (polled.shared.mono fun i hi => ?_).congr fun i hi => ?_⟩
  · simpa using hi.2.1
  · obtain ⟨share, eq⟩ := Option.isSome_iff_exists.mp hi.2.1
    simp [pseudoShare, eq]

theorem Valid.chunk_eq {i : ℕ} {chunk : PreproductChunk} (eq : find.chunk i = some chunk) :
    chunk.randomNumbers = find.indices.map (find.randomShare i) ∧
      chunk.triples = find.indices.map (find.triple i) := by
  obtain ⟨randoms, triples⟩ := valid.lengths i chunk eq
  constructor
  · refine List.ext_getElem (by simp [indices, randoms]) fun k hk _ => ?_
    simp [indices, randomShare, eq, List.getElem?_eq_getElem hk]
  · refine List.ext_getElem (by simp [indices, triples]) fun k hk _ => ?_
    simp [indices, triple, eq, List.getElem?_eq_getElem hk]

/-- The shares of the active peers that come from their chunks. -/
theorem Valid.chunkShares {k : ℕ} (hk : k ∈ find.indices) :
    find.sharing.Shares find.Active find.sharing.threshold (r k) (find.randomShare · k) ∧
    find.sharing.Shares find.Active find.sharing.threshold (a k) (fun i => (find.triple i k).a) ∧
    find.sharing.Shares find.Active find.sharing.threshold (b k) (fun i => (find.triple i k).b) ∧
    find.sharing.Shares find.Active find.sharing.threshold (c k)
      fun i => (find.triple i k).c := by
  have lt : k < find.targets.length := List.mem_range.mp hk
  -- an active peer has a chunk with an entry for every target
  have part : ∀ {v : ℤ} {entry : PreproductChunk → Option Share} {f : ℕ → Share},
      SharedAmong find.sharing v (fun i => (find.chunk i).bind entry) →
      (∀ i chunk, find.chunk i = some chunk → entry chunk = some (f i)) →
      find.sharing.Shares find.Active find.sharing.threshold v f := by
    intro v entry f shared entries
    have some : ∀ i ∈ find.Active, (find.chunk i).bind entry = some (f i) := by
      intro i hi
      obtain ⟨chunk, eq⟩ := Option.isSome_iff_exists.mp hi.1
      simp [eq, entries i chunk eq]
    refine ⟨fun i hi => ?_, (shared.shared.mono fun i hi => ?_).congr fun i hi => ?_⟩
    · simpa [some i hi] using shared.x_eq i (by simp [some i hi])
    · simp [some i hi]
    · simp [some i hi]
  have triples : ∀ i chunk, find.chunk i = some chunk →
      chunk.triples[k]? = some (find.triple i k) := by
    intro i chunk eq
    have len := (valid.lengths i chunk eq).2
    simp [triple, eq, List.getElem?_eq_getElem (by omega : k < chunk.triples.length)]
  refine ⟨part (valid.random k lt) fun i chunk eq => ?_,
    part (valid.tripleA k lt) fun i chunk eq => by simp [triples i chunk eq],
    part (valid.tripleB k lt) fun i chunk eq => by simp [triples i chunk eq],
    part (valid.tripleC k lt) fun i chunk eq => by simp [triples i chunk eq]⟩
  have len := (valid.lengths i chunk eq).1
  simp [randomShare, eq, List.getElem?_eq_getElem (by omega : k < chunk.randomNumbers.length)]

/-- The shares of the first masked value, among the active peers with the fragment. -/
theorem Valid.epsilonShares {k : ℕ} (hk : k ∈ find.indices) :
    find.sharing.Shares (find.Holders k ∩ find.Active) find.sharing.threshold (x k - y - a k)
      (find.epsilon · k) :=
  ((valid.fragShares hk).subShare (valid.pseudoShares.mono Set.inter_subset_right)).subShare
    ((valid.chunkShares hk).2.1.mono Set.inter_subset_right)

theorem Valid.deltaShares {k : ℕ} (hk : k ∈ find.indices) :
    find.sharing.Shares find.Active find.sharing.threshold (r k - b k) (find.delta · k) :=
  (valid.chunkShares hk).1.subShare (valid.chunkShares hk).2.2.1

omit valid in
/-- A peer that lacks the fragment masks with a dummy. -/
theorem epsilon_lacking {i k : ℕ} (lacks : i ∉ find.Holders k) :
    find.epsilon i k = Sharing.dummy := by
  have none : find.stored i (find.target k) = none := by simpa [Holders] using lacks
  simp [epsilon, diff, fragShare, none, Fragment.dummy, show (⟨0, -1⟩ : Share) = dummy from rfl]

/-- The local part of `handle_find_op` after the round. -/
def finish (find : FindOp) (i : ℕ) (responses : List Message) : Py (Option Message) := do
  let randDiffs ← MPCRole.mulmResponses find.sharing find.targets.length
    (find.indices.map (find.triple i)) responses
  if randDiffs = [] then return none
  return some ((⟨i, find.sharing⟩ : MPCRole).response .findHandler find.requestId randDiffs true)

/-- An active peer raises nothing before the round and sends its masked shares. -/
theorem Valid.op_active {i : ℕ} (active : i ∈ find.Active) :
    ∃ count, find.op i = .ask
      ((⟨i, find.sharing⟩ : MPCRole).openRound find.requestId (find.opPeers i) .mulHandler
        (find.indices.map (find.epsilon i) ++ find.indices.map (find.delta i)) count false)
      fun responses => .done (find.finish i responses) := by
  obtain ⟨hasChunk, hasRead, ne⟩ := active
  obtain ⟨chunk, chunkEq⟩ := Option.isSome_iff_exists.mp hasChunk
  obtain ⟨share, readEq⟩ := Option.isSome_iff_exists.mp hasRead
  obtain ⟨randoms, triples⟩ := valid.chunk_eq chunkEq
  have pseudo : (⟨share, i⟩ : Share) = find.pseudoShare i := by simp [pseudoShare, readEq]
  have pseudoReal : (find.pseudoShare i).isDummy = false := isDummy_eq_false rfl
  have own : ∀ k ∈ find.indices, (find.fragShare i k).isDummy = true ∨
      (find.fragShare i k).x = (find.pseudoShare i).x := by
    intro k hk
    by_cases holds : i ∈ find.Holders k
    · exact .inr ((valid.fragShares hk).x_eq i ⟨holds, hasChunk, hasRead, ne⟩)
    · have none : find.stored i (find.target k) = none := by simpa [Holders] using holds
      left
      simp [fragShare, none, Fragment.dummy, Share.isDummy]
  have diffs : ((find.targets.map fun fragmentId =>
      (find.stored i fragmentId).getD Fragment.dummy).mapM fun frag =>
        find.sharing.sub frag.pseudonymShare (find.pseudoShare i)) =
      .ok (find.indices.map (find.diff i)) := by
    rw [targets_eq, List.map_map, List.mapM_map]
    exact mapM_ok fun k hk => sub_ok _ ((own k hk).imp_right fun eq => ⟨eq, pseudoReal⟩)
  have diffOwn : ∀ k ∈ find.indices, (find.diff i k).isDummy = true ∨ (find.diff i k).x = i := by
    intro k hk
    unfold diff subShare
    split
    case isTrue => exact .inl rfl
    case isFalse real => exact .inr ((own k hk).resolve_left real)
  have active : i ∈ find.Active := ⟨hasChunk, hasRead, ne⟩
  have epsilons : (((find.indices.map (find.diff i)).zip (find.indices.map (find.triple i))).mapM
      fun e => find.sharing.sub e.1 e.2.a) = .ok (find.indices.map (find.epsilon i)) := by
    rw [List.zip_map', List.mapM_map]
    refine mapM_ok fun k hk => sub_ok _ ((diffOwn k hk).imp_right fun eq => ?_)
    have shares := (valid.chunkShares hk).2.1
    exact ⟨eq.trans (shares.x_eq i active).symm, shares.real active⟩
  have deltas : (((find.indices.map (find.randomShare i)).zip
      (find.indices.map (find.triple i))).mapM fun e => find.sharing.sub e.1 e.2.b) =
      .ok (find.indices.map (find.delta i)) := by
    rw [List.zip_map', List.mapM_map]
    refine mapM_ok fun k hk => sub_ok _ (.inr ?_)
    have shares := (valid.chunkShares hk).2.2.1
    exact ⟨((valid.chunkShares hk).1.x_eq i active).trans (shares.x_eq i active).symm,
      shares.real active⟩
  refine ⟨if find.sharing.threshold = 0 then (find.opPeers i).length else find.sharing.threshold, ?_⟩
  unfold op handleFindOp
  simp only [chunkEq, readEq, pseudo, diffs, randoms, triples, Resumption.lift_eq,
    Resumption.done_ok_bind]
  rw [MPCRole.mulm_eq ⟨i, find.sharing⟩ ne epsilons deltas, Resumption.ask_bind]
  congr 1
  funext responses
  unfold finish
  rw [List.length_map, indices, List.length_range]
  cases MPCRole.mulmResponses find.sharing find.targets.length
    ((List.range find.targets.length).map (find.triple i)) responses with
  | error e => rfl
  | ok randDiffs =>
      simp only [Resumption.done_ok_bind, ok_bind]
      split <;> rfl

end Valid

/-! ### What a peer gathers and replies -/

/-- The message of peer `i` in the round of `mulm`. -/
def masked (find : FindOp) (i : ℕ) : Message :=
  (⟨i, find.sharing⟩ : MPCRole).response .mulHandler find.requestId
    (find.indices.map (find.epsilon i) ++ find.indices.map (find.delta i))

theorem find?_addressed (message : Message) (peers : List ℕ) (j : ℕ) :
    ((peers.map message.addressed).find? fun message => message.destPartyId = some j) =
      if j ∈ peers then some (message.addressed j) else none := by
  induction peers with
  | nil => rfl
  | cons peer peers ih =>
      by_cases eq : peer = j
      · subst eq
        simp [Message.addressed]
      · simp only [List.map_cons, List.find?_cons, Message.addressed, Option.some.injEq, eq,
          decide_false, List.mem_cons, Ne.symm eq, false_or]
        exact ih

theorem openMultiple_nil (self : MPCRole) (opId : Bytes) (action : ActionEnum)
    (sharing : Sharing) (shares : List Share) (minReplies : Option ℕ) (context : Bool) :
    (self.openMultiple opId [] action sharing shares minReplies context).Raises :=
  ⟨.indexError, rfl⟩

/-- A peer that is not active never gets to the round, and replies nothing. -/
theorem op_inactive {find : FindOp} {i : ℕ} (inactive : i ∉ find.Active) :
    find.op i = .done (.ok none) ∨ (find.op i).Raises := by
  unfold op handleFindOp
  cases chunkEq : find.chunk i with
  | none => exact .inl rfl
  | some chunk =>
    cases readEq : find.readPeer i with
    | none => exact .inl rfl
    | some share =>
      have alone : find.opPeers i = [] := by
        by_contra ne
        exact inactive ⟨by simp [chunkEq], by simp [readEq], ne⟩
      simp only [alone, MPCRole.mulm, Resumption.lift_eq]
      exact .inr <| .done_bind _ fun _ => .bind (.done_bind _ fun _ => .done_bind _ fun _ =>
        (openMultiple_nil _ _ _ _ _ _ _).bind _) _

section Valid

variable {find : FindOp} {x : ℕ → ℤ} {y : ℤ} {r a b c : ℕ → ℤ} (valid : find.Valid x y r a b c)
include valid

/-- A message that is sent is the sender's masked shares. -/
theorem Valid.sent_eq {i j : ℕ} {message : Message} (sent : find.sent i j = some message) :
    i ∈ find.Active ∧ message = (find.masked i).addressed j := by
  by_cases active : i ∈ find.Active
  · obtain ⟨count, eq⟩ := valid.op_active active
    unfold FindOp.sent at sent
    rw [eq] at sent
    have found := (find?_addressed (find.masked i) (find.opPeers i) j).symm.trans sent
    split_ifs at found
    exact ⟨active, (Option.some.inj found).symm⟩
  · unfold FindOp.sent at sent
    rcases op_inactive active with eq | ⟨e, eq⟩ <;> rw [eq] at sent <;> cases sent

/-- What peer `j` gathers are masked shares of distinct active parties. -/
theorem Valid.gathered_eq (j : ℕ) :
    ∃ is : List ℕ, is.Nodup ∧ (∀ i ∈ is, i < find.sharing.nparties ∧ i ∈ find.Active) ∧
      ((find.gathered j).filterMap fun i => find.sent i j) =
        is.map fun i => (find.masked i).addressed j := by
  refine ⟨(find.gathered j).filter fun i => (find.sent i j).isSome,
    (valid.gathered_nodup j).filter _, fun i mem => ?_, ?_⟩
  · obtain ⟨chosen, some⟩ := List.mem_filter.mp mem
    obtain ⟨message, eq⟩ := Option.isSome_iff_exists.mp some
    exact ⟨valid.gathered_parties j i chosen, (valid.sent_eq eq).1⟩
  · exact filterMap_eq_map_filter fun i _ message eq => (valid.sent_eq eq).2

/-- What the masked differences of the parties in `is` open to, one column for each
target. -/
theorem Valid.openResponses_masked {is : List ℕ} (nodup : is.Nodup)
    (parties : ∀ i ∈ is, i < find.sharing.nparties ∧ i ∈ find.Active) (ne : is ≠ []) (j : ℕ) :
    ∃ e d : ℕ → Option ℤ,
      MPCRole.openResponses find.sharing (is.map fun i => (find.masked i).addressed j) =
        .ok (find.indices.map e ++ find.indices.map d) ∧
      ∀ k ∈ find.indices,
        OpensTo (e k) ((x k - y - a k : ℤ) : ZMod find.sharing.modulus) ∧
        OpensTo (d k) ((r k - b k : ℤ) : ZMod find.sharing.modulus) := by
  have inCommittee : ∀ i ∈ is, i < find.sharing.nparties := fun i hi => (parties i hi).1
  obtain ⟨e, openE, valE⟩ := open_columns valid.prime valid.parties_lt
    (S := fun k => find.Holders k ∩ find.Active) (f := find.epsilon)
    (fun k hk => valid.epsilonShares hk)
    (fun k _ i hi lacks => epsilon_lacking fun holds => lacks ⟨holds, (parties i hi).2⟩)
    nodup inCommittee
  obtain ⟨d, openD, valD⟩ := open_columns valid.prime valid.parties_lt
    (S := fun _ => find.Active) (f := find.delta)
    (fun k hk => valid.deltaShares hk)
    (fun _ _ i hi lacks => absurd (parties i hi).2 lacks) nodup inCommittee
  refine ⟨e, d, ?_, fun k hk => ⟨?_, ?_⟩⟩
  · have rows : (is.map fun i => (find.masked i).addressed j).mapM Message.shares =
        .ok (is.map fun i => find.indices.map (find.epsilon i) ++
          find.indices.map (find.delta i)) := by
      rw [List.mapM_map]
      exact mapM_ok fun i _ => rfl
    unfold MPCRole.openResponses
    rw [if_neg (by simpa using ne), rows, ok_bind, zipStar_map_append ne, List.mapM_append, openE,
      openD]
    rfl
  · simpa using (valE k hk).1
  · simpa using (valD k hk).1

/-- The shares of an active peer's triple are its own. -/
theorem Valid.triple_eq {j k : ℕ} (active : j ∈ find.Active) (hk : k ∈ find.indices) :
    find.triple j k = ⟨⟨(find.triple j k).a.share, j⟩, ⟨(find.triple j k).b.share, j⟩,
      ⟨(find.triple j k).c.share, j⟩⟩ := by
  obtain ⟨-, sharesA, sharesB, sharesC⟩ := valid.chunkShares hk
  rw [← sharesA.eta active, ← sharesB.eta active, ← sharesC.eta active]

/-- `mul_ed` over opened differences: a dummy, or the peer's share of the product. -/
theorem Valid.mulEd_ok {j k : ℕ} (active : j ∈ find.Active) (hk : k ∈ find.indices)
    {e d : Option ℤ} (he : OpensTo e ((x k - y - a k : ℤ) : ZMod find.sharing.modulus))
    (hd : OpensTo d ((r k - b k : ℤ) : ZMod find.sharing.modulus)) :
    ∃ s, find.sharing.mulEd e d (find.triple j k) = .ok s ∧
      (s = Sharing.dummy ∨ s.x = j ∧ (s.share : ZMod find.sharing.modulus) =
        (find.triple j k).c.share + (x k - y - a k) * (find.triple j k).b.share +
          (r k - b k) * (find.triple j k).a.share + (x k - y - a k) * (r k - b k)) := by
  cases e with
  | none => exact ⟨_, mulEd_none _ (.inl rfl) _, .inl rfl⟩
  | some e =>
    cases d with
    | none => exact ⟨_, mulEd_none _ (.inr rfl) _, .inl rfl⟩
    | some d =>
      obtain ⟨v, run, val⟩ := mulEd_party find.sharing j e d (find.triple j k).a.share
        (find.triple j k).b.share (find.triple j k).c.share
      refine ⟨⟨v, j⟩, by rw [valid.triple_eq active hk]; exact run, .inr ⟨rfl, ?_⟩⟩
      rw [val, (he e rfl).2.2, (hd d rfl).2.2]
      push_cast
      ring

/-- A share of the `k`-th product that peer `j` may reply with: a dummy, or its point on
the polynomial of the triple and the masked values. -/
def ProductShare (find : FindOp) (x : ℕ → ℤ) (y : ℤ) (r a b : ℕ → ℤ) (j k : ℕ) (s : Share) : Prop :=
  s = Sharing.dummy ∨ s.x = j ∧ (s.share : ZMod find.sharing.modulus) =
    (find.triple j k).c.share + (x k - y - a k) * (find.triple j k).b.share +
      (r k - b k) * (find.triple j k).a.share + (x k - y - a k) * (r k - b k)

omit valid in
/-- The opened values of a peer, the first half with the second, multiply to its shares. -/
theorem combined_ok {e d : ℕ → Option ℤ} {j : ℕ} {product : ℕ → Share}
    (run : ∀ k ∈ find.indices, find.sharing.mulEd (e k) (d k) (find.triple j k) =
      .ok (product k)) :
    (((find.indices.map e ++ find.indices.map d).take find.targets.length).zip
      (((find.indices.map e ++ find.indices.map d).drop find.targets.length).zip
        (find.indices.map (find.triple j)))).mapM (fun (e, d, t) => find.sharing.mulEd e d t) =
      .ok (find.indices.map product) := by
  have width : (find.indices.map e).length = find.targets.length := by simp [indices]
  rw [List.take_left' width, List.drop_left' width, List.zip_map', List.zip_map', List.mapM_map]
  exact mapM_ok run

/-- **The reply of a peer**: nothing, or one product share for each target. -/
theorem Valid.reply_ok (j : ℕ) :
    ∃ product : ℕ → Share,
      (∀ k ∈ find.indices, j ∈ find.Active → find.ProductShare x y r a b j k (product k)) ∧
      ∀ message, find.reply j = .ok (some message) → j ∈ find.Active ∧
        message = (⟨j, find.sharing⟩ : MPCRole).response .findHandler find.requestId
          (find.indices.map product) true := by
  by_cases active : j ∈ find.Active
  case neg =>
    refine ⟨fun _ => Sharing.dummy, fun _ _ active' => absurd active' active, fun message h => ?_⟩
    unfold FindOp.reply at h
    rcases op_inactive active with eq | ⟨e, eq⟩ <;> rw [eq] at h <;> cases h
  obtain ⟨count, opEq⟩ := valid.op_active active
  obtain ⟨is, nodup, parties, gathered⟩ := valid.gathered_eq j
  have replyEq : find.reply j =
      find.finish j (is.map fun i => (find.masked i).addressed j) := by
    unfold FindOp.reply
    rw [opEq, Resumption.run_ask, gathered, Resumption.run_done]
  rcases eq_or_ne is [] with rfl | ne
  · refine ⟨fun _ => Sharing.dummy, fun _ _ _ => .inl rfl, fun message h => ?_⟩
    rw [replyEq] at h
    cases h
  obtain ⟨e, d, opened, vals⟩ := valid.openResponses_masked nodup parties ne j
  have each : ∀ k ∈ find.indices, ∃ s, find.sharing.mulEd (e k) (d k) (find.triple j k) = .ok s ∧
      find.ProductShare x y r a b j k s :=
    fun k hk => valid.mulEd_ok active hk (vals k hk).1 (vals k hk).2
  choose! product run val using each
  refine ⟨product, fun k hk _ => val k hk, fun message h => ⟨active, ?_⟩⟩
  rw [replyEq, FindOp.finish, MPCRole.mulmResponses, opened, ok_bind] at h
  split_ifs at h with empty
  · cases h
  · rw [combined_ok run, ok_bind] at h
    split_ifs at h with none
    · cases h
    · exact (Option.some.inj (Except.ok.inj h)).symm

/-! ### The leader -/

/-- Among any peers, the real product shares lie on one polynomial with value
`r * (x - y)`. -/
theorem Valid.productShares {k : ℕ} (hk : k ∈ find.indices) {product : ℕ → Share}
    (products : ∀ j, j ∈ find.Active → find.ProductShare x y r a b j k (product j)) :
    find.sharing.Shares { j | j ∈ find.Active ∧ product j ≠ Sharing.dummy } find.sharing.threshold
      ((r k * (x k - y) : ℤ) : ZMod find.sharing.modulus) product := by
  obtain ⟨-, sharesA, sharesB, sharesC⟩ := valid.chunkShares hk
  have real : ∀ j ∈ { j | j ∈ find.Active ∧ product j ≠ Sharing.dummy },
      (product j).x = j ∧ ((product j).share : ZMod find.sharing.modulus) = _ :=
    fun j hj => (products j hj.1).resolve_left hj.2
  refine ⟨fun j hj => (real j hj).1, ?_⟩
  have beaver := SharedBelow.beaver (y := ((x k - y : ℤ) : ZMod find.sharing.modulus))
    (z := ((r k : ℤ) : ZMod find.sharing.modulus)) valid.threshold_pos sharesA.shared
    sharesB.shared sharesC.shared (valid.product k (List.mem_range.mp hk))
  have value : ((r k * (x k - y) : ℤ) : ZMod find.sharing.modulus) =
      ((x k - y : ℤ) : ZMod find.sharing.modulus) * ((r k : ℤ) : ZMod find.sharing.modulus) := by
    push_cast
    ring
  rw [value]
  refine (beaver.mono fun j hj => hj.1).congr fun j hj => ?_
  rw [(real j hj).2]
  push_cast
  ring

/-- What the leader's `check_task` returns, one opened value for each target if enough
peers replied. -/
theorem Valid.checkTask_ok (opPeers js : List ℕ) (fragments : List Bytes) (size : ℕ)
    (nodup : js.Nodup) (parties : ∀ j ∈ js, j < find.sharing.nparties) :
    checkTask find.sharing opPeers fragments size (find.replies js) = .ok {} ∨
      ∃ opened : ℕ → Option ℤ,
        (∀ k ∈ find.indices,
          OpensTo (opened k) ((r k * (x k - y) : ℤ) : ZMod find.sharing.modulus)) ∧
        checkTask find.sharing opPeers fragments size (find.replies js) = .ok {
          results := find.indices.map opened
          found := (((fragments.take size).zip (find.indices.map opened)).filter
            fun (_, result) => result = some 0).map Prod.fst
          checked := ((fragments.zip (find.indices.map opened)).filter
            fun (_, result) => result ≠ none).map Prod.fst } := by
  choose product products replies using valid.reply_ok
  have repliesEq : find.replies js = (js.filter fun j =>
      (match find.reply j with
        | .ok message => message
        | .error _ => none).isSome).map fun j =>
      (⟨j, find.sharing⟩ : MPCRole).response .findHandler find.requestId
        (find.indices.map (product j)) true := by
    refine filterMap_eq_map_filter fun j _ message eq => ?_
    cases result : find.reply j with
    | error e => rw [result] at eq; cases eq
    | ok reply =>
        rw [result] at eq
        exact (replies j message (result.trans (congrArg Except.ok eq))).2
  set ls := js.filter fun j =>
      (match find.reply j with
        | .ok message => message
        | .error _ => none).isSome with hls
  have active : ∀ j ∈ ls, j ∈ find.Active := by
    intro j hj
    obtain ⟨message, eq⟩ := Option.isSome_iff_exists.mp (List.mem_filter.mp hj).2
    cases result : find.reply j with
    | error e => rw [result] at eq; cases eq
    | ok reply =>
        rw [result] at eq
        exact (replies j message (result.trans (congrArg Except.ok eq))).1
  have successes : (find.replies js).filterM (fun response =>
      MPCMap.opSuccess <$> response.map) = .ok (find.replies js) := by
    refine filterM_ok fun response mem => ?_
    rw [repliesEq] at mem
    obtain ⟨j, _, rfl⟩ := List.mem_map.mp mem
    rfl
  unfold checkTask
  split_ifs with few
  · exact .inl rfl
  rw [successes, ok_bind]
  split_ifs with fewReplies
  · exact .inl rfl
  right
  have ne : ls ≠ [] := by
    rintro eq
    have pos := valid.threshold_pos
    rw [repliesEq, eq] at fewReplies
    simp at fewReplies
    omega
  obtain ⟨opened, run, val⟩ := open_columns valid.prime valid.parties_lt
    (S := fun k => { j | j ∈ find.Active ∧ product j k ≠ Sharing.dummy }) (f := product)
    (fun k hk => valid.productShares hk fun j hj => products j k hk hj)
    (fun k _ j hj lacks => by
      by_contra real
      exact lacks ⟨active j hj, real⟩)
    (nodup.filter _) fun j hj => parties j (List.mem_filter.mp hj).1
  refine ⟨opened, fun k hk => (val k hk).1, ?_⟩
  have rows : (find.replies js).mapM Message.shares =
      .ok (ls.map fun j => find.indices.map (product j)) := by
    rw [repliesEq, List.mapM_map]
    exact mapM_ok fun j _ => rfl
  rw [rows, ok_bind, zipStar_map ne, run, ok_bind]
  rfl

end Valid

end FindOp

/-- Modulo a prime a masked difference is zero when one of its factors is. -/
theorem mul_sub_modEq_zero {p : ℕ} (prime : p.Prime) {r x y : ℤ} :
    r * (x - y) % p = 0 ↔ x ≡ y [ZMOD p] ∨ r ≡ 0 [ZMOD p] := by
  have factors := (Nat.prime_iff_prime_int.mp prime).dvd_mul (a := r) (b := x - y)
  rw [← Int.dvd_iff_emod_eq_zero, factors, Int.modEq_zero_iff_dvd, or_comm]
  refine or_congr_left ?_
  rw [← Int.modEq_zero_iff_dvd]
  exact ⟨fun h => by simpa using h.add_right y, fun h => by simpa using h.sub_right y⟩

/-- Which of distinct targets are reported: those whose result is zero. -/
theorem mem_reported {targets : List Bytes} {results : List (Option ℤ)} (distinct : targets.Nodup)
    (length_eq : targets.length = results.length) {k : ℕ} (lt : k < targets.length) :
    targets[k] ∈ ((targets.zip results).filter fun (_, result) => result = some 0).map Prod.fst ↔
      results[k]? = some (some 0) := by
  simp only [List.mem_map, List.mem_filter, decide_eq_true_eq, Prod.exists, exists_and_right,
    exists_eq_right]
  constructor
  · intro mem
    obtain ⟨m, hm, eq⟩ := List.mem_iff_getElem.mp mem
    rw [List.getElem_zip, Prod.mk.injEq] at eq
    have same : m = k := (List.Nodup.getElem_inj_iff distinct).mp eq.1
    subst same
    rw [List.getElem?_eq_getElem (by omega), eq.2]
  · intro zero
    refine List.mem_iff_getElem.mpr ⟨k, by simp; omega, ?_⟩
    rw [List.getElem_zip]
    rw [List.getElem?_eq_getElem (by omega)] at zero
    exact Prod.ext rfl (Option.some.inj zero)

/-- What a returning `check_task` reports found: the targets whose value it opened and
whose pseudonym is the polled one or whose random number is zero. -/
theorem FindOp.Valid.found_iff {find : FindOp} {x : ℕ → ℤ} {y : ℤ} {r a b c : ℕ → ℤ}
    (valid : find.Valid x y r a b c) {opPeers js : List ℕ} {fragments : List Bytes} {size : ℕ}
    (distinct : fragments.Nodup) (targets : find.targets = fragments.take size)
    (js_nodup : js.Nodup) (js_parties : ∀ j ∈ js, j < find.sharing.nparties) {checked : Checked}
    (run : checkTask find.sharing opPeers fragments size (find.replies js) = .ok checked)
    {k : ℕ} (lt : k < find.targets.length) :
    find.targets[k] ∈ checked.found ↔
      (∃ w, checked.results[k]? = some (some w)) ∧
        (x k ≡ y [ZMOD find.sharing.modulus] ∨ r k ≡ 0 [ZMOD find.sharing.modulus]) := by
  rcases valid.checkTask_ok opPeers js fragments size js_nodup js_parties with
    none | ⟨opened, opens, run'⟩
  · rw [none] at run
    cases run
    simp
  rw [run'] at run
  cases run
  have distinct' : find.targets.Nodup := by
    rw [targets]
    exact distinct.sublist (List.take_sublist _ _)
  have at_k : (find.indices.map opened)[k]? = some (opened k) := by simp [FindOp.indices, lt]
  have length_eq : find.targets.length = (find.indices.map opened).length := by
    simp [FindOp.indices]
  rw [← targets, mem_reported distinct' length_eq lt, at_k]
  simp only [Option.some.injEq]
  constructor
  · intro zero
    have opened_zero := (opens k (List.mem_range.mpr lt)).eq_emod zero
    exact ⟨⟨0, zero⟩, (mul_sub_modEq_zero valid.prime).mp opened_zero.symm⟩
  · rintro ⟨⟨w, some⟩, cause⟩
    rw [some, (opens k (List.mem_range.mpr lt)).eq_emod some]
    exact congrArg Option.some ((mul_sub_modEq_zero valid.prime).mpr cause)

/-- **Oblivious find opens only the right value.** Whichever peers hold the fragments,
whichever masked shares each peer gathers, and whichever distinct peers' replies reach
the leader: `check_task` raises nothing, a value it opens for a target is
`r * (x - y)`, and it reports exactly those targets found whose value it opened and
whose pseudonym is the polled one or whose random number is zero. -/
theorem find_opens {find : FindOp} {x : ℕ → ℤ} {y : ℤ} {r a b c : ℕ → ℤ}
    (valid : find.Valid x y r a b c) (opPeers js : List ℕ) (fragments : List Bytes) (size : ℕ)
    (distinct : fragments.Nodup) (targets : find.targets = fragments.take size)
    (js_nodup : js.Nodup) (js_parties : ∀ j ∈ js, j < find.sharing.nparties) :
    ∃ checked, checkTask find.sharing opPeers fragments size (find.replies js) = .ok checked ∧
      (∀ k < find.targets.length, ∀ w, checked.results[k]? = some (some w) →
        w = r k * (x k - y) % find.sharing.modulus) ∧
      ∀ k (lt : k < find.targets.length), find.targets[k] ∈ checked.found ↔
        (∃ w, checked.results[k]? = some (some w)) ∧
          (x k ≡ y [ZMOD find.sharing.modulus] ∨ r k ≡ 0 [ZMOD find.sharing.modulus]) := by
  rcases valid.checkTask_ok opPeers js fragments size js_nodup js_parties with
    none | ⟨opened, opens, run⟩
  · exact ⟨{}, none, by simp, fun k lt =>
      valid.found_iff distinct targets js_nodup js_parties none lt⟩
  refine ⟨_, run, fun k lt w eq => ?_, fun k lt =>
    valid.found_iff distinct targets js_nodup js_parties run lt⟩
  have at_k : opened k = some w := by simpa [FindOp.indices, lt] using eq
  exact (opens k (List.mem_range.mpr lt)).eq_emod at_k

/-- A scheme of three peers with threshold 2 modulo 5. -/
def exampleSharing : Sharing := ⟨⟨3, 2, 5, three_parties⟩⟩

/-- The shares of `value` on the line of slope `slope`, at the first `n` peers. -/
def exampleShares (value slope : ℤ) (n i : ℕ) : Option Share :=
  if decide (i < n) then some (exampleSharing.secretSharing.shareOf value [slope] i) else none

theorem exampleShares_shared (value : ℤ) {slope : ℤ} (range : 1 ≤ slope ∧ slope < 5) {n : ℕ}
    (le : n ≤ 3) : SharedAmong exampleSharing value (exampleShares value slope n) :=
  sharedAmong_share (by decide) value ⟨[slope], rfl, by simpa [exampleSharing] using range⟩
    (fun i => decide (i < n)) fun i lt => lt_of_lt_of_le (of_decide_eq_true lt) le

/-- Peers 0 and 1 store the fragment `1` under the pseudonym 3, which is also the polled
one. Peer 1 gathers only the masked shares of peers 0 and 2 and so cannot open the
difference. -/
def exampleFind : FindOp where
  sharing := exampleSharing
  requestId := [7]
  targets := [[1]]
  stored i _ := (exampleShares 3 1 2 i).map fun share => ⟨[1], share, []⟩
  chunk i := do
    let a ← exampleShares 1 2 3 i
    let b ← exampleShares 4 3 3 i
    let c ← exampleShares 4 4 3 i
    let random ← exampleShares 2 1 3 i
    return { triples := [⟨a, b, c⟩], randomNumbers := [random] }
  readPeer i := (exampleShares 3 2 3 i).map (·.share)
  opPeers _ := [0, 1, 2]
  gathered i := if i = 1 then [0, 2] else [0, 1, 2]

theorem exampleFind_valid :
    exampleFind.Valid (fun _ => 3) 3 (fun _ => 2) (fun _ => 1) (fun _ => 4) fun _ => 4 := by
  have chunks : ∀ i, exampleFind.chunk i = if i < 3 then some
      ⟨[⟨exampleSharing.secretSharing.shareOf 1 [2] i,
        exampleSharing.secretSharing.shareOf 4 [3] i,
        exampleSharing.secretSharing.shareOf 4 [4] i⟩],
        [exampleSharing.secretSharing.shareOf 2 [1] i]⟩ else none := by
    intro i
    by_cases lt : i < 3 <;> simp [exampleFind, exampleShares, lt]
  have shared : ∀ {value : ℤ} (slope : ℤ) (n : ℕ) {f : ℕ → Option Share}, (1 ≤ slope ∧ slope < 5) →
      n ≤ 3 → (∀ i, f i = exampleShares value slope n i) → SharedAmong exampleSharing value f :=
    fun _ _ _ range le eq => (funext eq : _ = _) ▸ exampleShares_shared _ range le
  refine {
    prime := by decide
    parties_lt := by decide
    threshold_pos := by decide
    lengths := fun i chunk eq => ?_
    stored := fun k lt => shared 1 2 (by decide) (by decide) fun i => ?_
    polled := shared 2 3 (by decide) (by decide) fun i => ?_
    random := fun k lt => shared 1 3 (by decide) (by decide) fun i => ?_
    tripleA := fun k lt => shared 2 3 (by decide) (by decide) fun i => ?_
    tripleB := fun k lt => shared 3 3 (by decide) (by decide) fun i => ?_
    tripleC := fun k lt => shared 4 3 (by decide) (by decide) fun i => ?_
    product := fun k lt => by decide
    gathered_nodup := fun j => by unfold exampleFind; dsimp only; split <;> decide
    gathered_parties := fun j => by unfold exampleFind; dsimp only; split <;> decide }
  · rw [chunks] at eq
    split_ifs at eq
    obtain rfl := Option.some.inj eq
    exact ⟨rfl, rfl⟩
  · simp [exampleFind, Function.comp_def]
  · by_cases lt : i < 3 <;> simp [exampleFind, exampleShares, lt, ShamirSS.shareOf]
  all_goals
    obtain rfl : k = 0 := by simpa [exampleFind] using lt
    rw [chunks]
    by_cases lt : i < 3 <;> simp [exampleShares, lt]

/-- The leader opens zero from the replies of peers 0 and 2, and finds the fragment. -/
theorem exampleFind_opens :
    checkTask exampleFind.sharing [0, 1, 2] [[1]] 1 (exampleFind.replies [0, 1, 2]) =
      .ok { results := [some 0], found := [[1]], checked := [[1]] } ∧
    ∃ checked, checkTask exampleFind.sharing [0, 1, 2] [[1]] 1 (exampleFind.replies [0, 1, 2]) =
        .ok checked ∧
      (∀ k < exampleFind.targets.length, ∀ w, checked.results[k]? = some (some w) →
        w = 2 * (3 - 3) % exampleFind.sharing.modulus) ∧
      ∀ k (lt : k < exampleFind.targets.length), exampleFind.targets[k] ∈ checked.found ↔
        (∃ w, checked.results[k]? = some (some w)) ∧
          (3 ≡ 3 [ZMOD exampleFind.sharing.modulus] ∨ 2 ≡ 0 [ZMOD exampleFind.sharing.modulus]) :=
  ⟨by decide +kernel,
    find_opens exampleFind_valid [0, 1, 2] [0, 1, 2] [[1]] 1 (by decide) rfl (by decide)
      (by decide)⟩

end Prism.Lockfree
