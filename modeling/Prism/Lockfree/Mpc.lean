import Prism.Lib.Resumption
import Prism.Lockfree.Gather

/-!
The subroutines of the MPC role (`prism/server/CS2/roles/lockfree/mpc.py`).

An operation is a coroutine whose only suspensions are its rounds of communication:
`send_and_gather` sends one message to each peer of the group and gathers the
responses to the round. Here it is a `Resumption` that asks its environment for the
list that `gather_responses` returns (`Op`). The environment decides who answers;
everything between two rounds is the peer's own computation.

* `openMultiple` opens a list of shares in one round;
* `mulm` multiplies two vectors of shares with triples;
* `generateShares` and `mulmEtf` are the two halves of making triples: sums of
  everybody's sharings, and a multiplication whose degree is reduced with such sums.

What a peer draws at random is an argument (`Draws`).
-/

namespace Prism.Lockfree

open Prism.Crypto Prism.Lib

/-- One `send_and_gather`: what is sent, and the arguments of the gathering. -/
structure Round where
  opId : Bytes
  action : ActionEnum
  sends : List Message
  count : ℕ
  context : Bool
deriving DecidableEq, Repr

/-- A coroutine of a role: each round is answered with the gathered responses. -/
abbrev Op := Resumption Round (List Message) PyError

/-- What a peer is to itself: its index in the committee and its sharing scheme. -/
structure MPCRole where
  partyId : ℕ
  sharing : Sharing
deriving DecidableEq, Repr

/-- The message as `send_to_peer` addresses it. Of what it fills in, only the party id
of the destination restricts the hooks of that destination. -/
def Message.addressed (message : Message) (peer : ℕ) : Message :=
  { message with destPartyId := some peer }

/-- `send_and_gather`, with one message for everybody or a list of messages. -/
def sendAndGather (peers : List ℕ) (messages : Message ⊕ List Message) (minReplies : Option ℕ)
    (context : Bool) : Op (List Message) :=
  if messages = .inr [] then return []
  else do
    let messages := messages.elim (List.replicate peers.length) id
    let first ← pyIndex messages 0
    let map ← first.map
    pyAssert (peers.length = messages.length)
    .query {
      opId := map.requestId
      action := map.action
      sends := messages.zipWith Message.addressed peers
      -- a missing and a zero `min_replies` both stand for all peers
      count := if minReplies.getD 0 = 0 then peers.length else minReplies.getD 0
      context := context }

/-- The draws of one run of `preproduct_op`: each is a function of the index at which
the value is used. -/
structure Draws (sharing : Sharing) where
  number : ℕ → { r : ℤ // 1 ≤ r ∧ r < sharing.modulus }
  numberCoeffs : ℕ → sharing.secretSharing.Draw
  mask : ℕ → { r : ℤ // 1 ≤ r ∧ r < sharing.modulus }
  lowCoeffs : ℕ → sharing.secretSharing.Draw
  highCoeffs : ℕ → { cs : List ℤ // cs.length = 2 * (sharing.threshold - 1) ∧
    ∀ c ∈ cs, 1 ≤ c ∧ c < sharing.modulus }

/-- `ss_high`: the scheme for products of shares, of twice the degree. -/
def Sharing.high (sharing : Sharing) : Sharing where
  secretSharing := { sharing.secretSharing with threshold := 2 * (sharing.threshold - 1) + 1 }

/-- The draws for a sharing of twice the degree. -/
def Draws.high {sharing : Sharing} (draws : Draws sharing) (k : ℕ) :
    sharing.high.secretSharing.Draw :=
  draws.highCoeffs k

namespace MPCRole

variable (self : MPCRole)

/-- `response`. -/
def response (action : ActionEnum) (opId : Bytes) (shares : List Share)
    (opSuccess : Bool := false) : Message where
  msgType := .mpcResponse
  partyId := self.partyId
  mpcMap := some { action, requestId := opId, shares, opSuccess }

@[simp] theorem shares_response (action : ActionEnum) (opId : Bytes) (shares : List Share)
    (opSuccess : Bool) : (self.response action opId shares opSuccess).shares = .ok shares := rfl

/-- `open_multiple`. -/
def openMultiple (opId : Bytes) (peers : List ℕ) (action : ActionEnum) (sharing : Sharing)
    (shares : List Share) (minReplies : Option ℕ) (context : Bool) : Op (List (Option ℤ)) := do
  let shareMessage := self.response action opId shares
  let responses ← sendAndGather peers (.inl shareMessage) minReplies context
  if responses = [] then return []
  let allShares ← (responses.mapM Message.shares : Py _)
  ((zipStar allShares).mapM sharing.open : Py _)

/-- `mulm`. -/
def mulm (xs ys : List Share) (triples : List Triple) (peers : List ℕ) (opId : Bytes) :
    Op (List Share) := do
  let epsilonShares ← ((xs.zip triples).mapM fun (x, t) => self.sharing.sub x t.a : Py _)
  let deltaShares ← ((ys.zip triples).mapM fun (y, t) => self.sharing.sub y t.b : Py _)
  let eds ← self.openMultiple opId peers .mulHandler self.sharing (epsilonShares ++ deltaShares)
    (some self.sharing.threshold) false
  if eds = [] then return []
  let epsilonOpen := eds.take xs.length
  let deltaOpen := eds.drop xs.length
  ((epsilonOpen.zip (deltaOpen.zip triples)).mapM fun (e, d, t) => self.sharing.mulEd e d t : Py _)

/-- `distribute_shares`: the `i`-th party gets the `i`-th share of each inner list. -/
def distributeShares (opId : Bytes) (action : ActionEnum) (peers : List ℕ)
    (shares : List (List Share)) (context : Bool) : Op (List (List Share)) := do
  let requests ← (peers.mapM fun peer => do
    let own ← shares.mapM fun share => pyIndex share peer
    return self.response action opId own : Py _)
  let peerMsgs ← sendAndGather peers (.inr requests) (some peers.length) context
  if peerMsgs = [] then return []
  let peerShares ← (peerMsgs.mapM Message.shares : Py _)
  return zipStar peerShares

/-- `sum_shares`. -/
def sumShares (shares : List Share) : Share :=
  ⟨(shares.map (·.share)).sum % self.sharing.modulus, self.partyId⟩

/-- `generate_shares`. -/
def generateShares (draws : Draws self.sharing) (opId : Bytes) (peers : List ℕ) (size : ℕ)
    (context : Bool) : Op (List Share) := do
  let randomShares := (List.range size).map fun k =>
    self.sharing.secretSharing.share (draws.number k).1 (draws.numberCoeffs k)
  let peerShares ← self.distributeShares opId .generateShares peers randomShares context
  if peerShares = [] then return []
  return peerShares.map self.sumShares

/-- `mulm_etf`. -/
def mulmEtf (draws : Draws self.sharing) (opId : Bytes) (peers : List ℕ) (xs ys : List Share)
    (context : Bool) : Op (List Share) := do
  -- Step 1. [x*y]_high = [x]_low * [y]_low
  let xyHigh ← ((xs.zip ys).mapM fun (x, y) => self.sharing.mul x y : Py _)
  -- Step 2. low and high degree shares of random numbers
  let localLow := (List.range xs.length).map fun k =>
    self.sharing.secretSharing.share (draws.mask k).1 (draws.lowCoeffs k)
  let localHigh := (List.range xs.length).map fun k =>
    self.sharing.high.secretSharing.share (draws.mask k).1 (draws.high k)
  let received ← self.distributeShares opId .mulmBgwRand peers (localLow ++ localHigh) context
  if received = [] then return []
  let rLowHigh := received.map self.sumShares
  if rLowHigh.length ≠ xs.length * 2 then return []
  let rLow := rLowHigh.take xs.length
  let rHigh := rLowHigh.drop xs.length
  -- Step 3. [z]_high = [r]_high - [x*y]_high
  let zHigh ← ((rHigh.zip xyHigh).mapM fun (r, xy) => self.sharing.high.sub r xy : Py _)
  -- Step 4. Open z; a zero among the opened values is as false as a missing one
  let zs ← self.openMultiple opId peers .mulmBgwOpen self.sharing.high zHigh none context
  if zs = [] || !(zs.all fun z => z.any (· ≠ 0)) then return []
  -- Step 5. [x*y]_low = [r]_low - (r-x*y)
  ((rLow.zip zs).mapM fun (r, z) =>
    match z with
    | some z => self.sharing.subc r z
    | none => .ok Sharing.dummy : Py _)

/-! ### The rounds of the subroutines -/

/-- The round in which a peer sends the same shares to everybody. -/
def openRound (opId : Bytes) (peers : List ℕ) (action : ActionEnum) (shares : List Share)
    (count : ℕ) (context : Bool) : Round where
  opId := opId
  action := action
  sends := peers.map fun peer => (self.response action opId shares).addressed peer
  count := count
  context := context

/-- The round in which every peer gets its own shares. -/
def distributeRound (opId : Bytes) (peers : List ℕ) (action : ActionEnum)
    (shares : ℕ → List Share) (context : Bool) : Round where
  opId := opId
  action := action
  sends := peers.map fun peer => (self.response action opId (shares peer)).addressed peer
  count := peers.length
  context := context

theorem addressed_replicate (message : Message) (peers : List ℕ) :
    (List.replicate peers.length message).zipWith Message.addressed peers =
      peers.map message.addressed := by
  induction peers with
  | nil => rfl
  | cons peer peers ih => simp [List.replicate_succ, ih]

/-- What `open_multiple` does with the gathered responses. -/
def openResponses (sharing : Sharing) (responses : List Message) : Py (List (Option ℤ)) :=
  if responses = [] then .ok []
  else do
    let allShares ← responses.mapM Message.shares
    (zipStar allShares).mapM sharing.open

/-- `open_multiple` is one round and a local computation. -/
theorem openMultiple_eq {peers : List ℕ} (ne : peers ≠ []) (opId : Bytes) (action : ActionEnum)
    (sharing : Sharing) (shares : List Share) (minReplies : Option ℕ) (context : Bool) :
    self.openMultiple opId peers action sharing shares minReplies context =
      .ask (self.openRound opId peers action shares
        (if minReplies.getD 0 = 0 then peers.length else minReplies.getD 0) context)
        fun responses => .done (openResponses sharing responses) := by
  obtain ⟨peer, peers, rfl⟩ := List.exists_cons_of_ne_nil ne
  have first : pyIndex (List.replicate (peer :: peers).length
      (self.response action opId shares)) 0 = .ok (self.response action opId shares) := rfl
  have mapEq : (self.response action opId shares).map =
      .ok { action, requestId := opId, shares, opSuccess := false } := rfl
  simp only [openMultiple, sendAndGather, reduceCtorEq, if_false, Sum.elim_inl, first, mapEq,
    List.length_replicate, pyAssert_of_true, Resumption.lift_eq, Resumption.done_ok_bind,
    Resumption.query_bind, Resumption.pure_eq, addressed_replicate]
  congr 1
  funext responses
  unfold openResponses
  split
  · rfl
  · cases responses.mapM Message.shares <;> rfl

/-- What `distribute_shares` does with the gathered messages. -/
def columns (responses : List Message) : Py (List (List Share)) :=
  if responses = [] then .ok [] else zipStar <$> responses.mapM Message.shares

/-- `distribute_shares` is one round, after which the gathered lists are transposed. -/
theorem distributeShares_eq {peers : List ℕ} (ne : peers ≠ []) (opId : Bytes)
    (action : ActionEnum) {shares : List (List Share)} {own : ℕ → List Share}
    (owns : ∀ peer ∈ peers, (shares.mapM fun share => pyIndex share peer) = .ok (own peer))
    (context : Bool) :
    self.distributeShares opId action peers shares context =
      .ask (self.distributeRound opId peers action own context) fun responses =>
        .done (columns responses) := by
  have requests : (peers.mapM fun peer => do
      let own ← shares.mapM fun share => pyIndex share peer
      return self.response action opId own : Py _) =
      .ok (peers.map fun peer => self.response action opId (own peer)) :=
    mapM_ok fun peer mem => by rw [owns peer mem]; rfl
  obtain ⟨peer, peers, rfl⟩ := List.exists_cons_of_ne_nil ne
  have zipped : ((peer :: peers).map fun peer =>
      self.response action opId (own peer)).zipWith Message.addressed (peer :: peers) =
      (peer :: peers).map fun peer => (self.response action opId (own peer)).addressed peer := by
    rw [List.zipWith_map_left, List.zipWith_self]
  have first : pyIndex ((peer :: peers).map fun peer => self.response action opId (own peer)) 0 =
      .ok (self.response action opId (own peer)) := rfl
  have mapEq : (self.response action opId (own peer)).map =
      .ok { action, requestId := opId, shares := own peer, opSuccess := false } := rfl
  have pos : (some (peer :: peers).length).getD 0 ≠ 0 := by simp
  unfold distributeShares
  rw [requests]
  simp only [sendAndGather, Sum.inr.injEq, List.map_eq_nil_iff, ne, if_false, Sum.elim_inr, id, first,
    mapEq, List.length_map, pyAssert_of_true, Resumption.lift_eq, Resumption.done_ok_bind,
    Resumption.query_bind, zipped, pos]
  congr 1
  funext responses
  unfold columns
  split
  · rfl
  · cases responses.mapM Message.shares <;> rfl

/-- What `mulm` does with the gathered responses. -/
def mulmResponses (sharing : Sharing) (width : ℕ) (triples : List Triple)
    (responses : List Message) : Py (List Share) := do
  let eds ← openResponses sharing responses
  if eds = [] then return []
  ((eds.take width).zip ((eds.drop width).zip triples)).mapM fun (e, d, t) => sharing.mulEd e d t

/-- `mulm` masks locally, has one round, and combines what was opened. -/
theorem mulm_eq {peers : List ℕ} (ne : peers ≠ []) {xs ys epsilon delta : List Share}
    {triples : List Triple}
    (epsilons : ((xs.zip triples).mapM fun (x, t) => self.sharing.sub x t.a) = .ok epsilon)
    (deltas : ((ys.zip triples).mapM fun (y, t) => self.sharing.sub y t.b) = .ok delta)
    (opId : Bytes) :
    self.mulm xs ys triples peers opId =
      .ask (self.openRound opId peers .mulHandler (epsilon ++ delta)
        (if self.sharing.threshold = 0 then peers.length else self.sharing.threshold) false)
        fun responses => .done (mulmResponses self.sharing xs.length triples responses) := by
  unfold mulm
  rw [epsilons, deltas]
  simp only [Resumption.lift_eq, Resumption.done_ok_bind, openMultiple_eq self ne,
    Resumption.ask_bind, Option.getD_some]
  congr 1
  funext responses
  unfold mulmResponses
  cases openResponses self.sharing responses with
  | error e => rfl
  | ok eds =>
      simp only [Resumption.done_ok_bind, ok_bind]
      split <;> rfl

end MPCRole

end Prism.Lockfree
