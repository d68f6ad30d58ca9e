import Prism.Lib.Flooding
import Prism.Routing.Flood

/-!
What a flood does (`prism/server/routing/router_ls.py`).

One flood is followed through the runs of all routers, among any other floods. What the
routers know of it and the copies of it that are on their way are a state of the flooding of
`Prism.Lib.Flooding`, and every event is a delivery there, or does nothing to the flood.

* `Shows`: the state of the routers shows a state of the flood.
* `Shows.step`: every event is a delivery of the flood, or none.
* `FloodNet.flood_spreads`: once no copy is on its way, every router within the limit has
  delivered the message and knows its distance; how many copies are sent, and with how many
  hops.
-/

namespace Prism.Routing

open Prism.Lib

/-! ### The copies of one flood -/

/-- The copy is one of the flood. -/
def ofFlood (nonce : FloodId) (copy : Bytes × FloodMsg) : Bool := copy.2.nonce = nonce

/-- A copy with its target, its hops and its sender. -/
def copyOf (copy : Bytes × FloodMsg) : Copy Bytes :=
  ⟨copy.1, (copy.2.hopCount.getD 0).toNat, copy.2.sender.getD []⟩

/-- The copies of a flood. -/
def copiesOf (nonce : FloodId) (copies : List (Bytes × FloodMsg)) : Multiset (Copy Bytes) :=
  ((copies.filter (ofFlood nonce)).map copyOf : List (Copy Bytes))

section Copies

variable {nonce : FloodId} {copies : List (Bytes × FloodMsg)} {copy : Bytes × FloodMsg}

theorem copiesOf_append (copies others : List (Bytes × FloodMsg)) :
    copiesOf nonce (copies ++ others) = copiesOf nonce copies + copiesOf nonce others := by
  rw [copiesOf, List.filter_append, List.map_append, ← Multiset.coe_add]
  rfl

theorem copiesOf_perm {others : List (Bytes × FloodMsg)} (perm : copies.Perm others) :
    copiesOf nonce copies = copiesOf nonce others :=
  Multiset.coe_eq_coe.mpr ((perm.filter _).map _)

theorem copiesOf_cons (same : copy.2.nonce = nonce) :
    copiesOf nonce (copy :: copies) = copyOf copy ::ₘ copiesOf nonce copies := by
  rw [copiesOf, List.filter_cons_of_pos (by simpa [ofFlood] using same)]
  rfl

theorem copiesOf_cons_other (other : copy.2.nonce ≠ nonce) :
    copiesOf nonce (copy :: copies) = copiesOf nonce copies := by
  rw [copiesOf, List.filter_cons_of_neg (by simpa [ofFlood] using other)]
  rfl

theorem copiesOf_others (others : ∀ copy ∈ copies, copy.2.nonce ≠ nonce) :
    copiesOf nonce copies = 0 := by
  have none : copies.filter (ofFlood nonce) = [] :=
    List.filter_eq_nil_iff.mpr fun copy mem => by simpa [ofFlood] using others copy mem
  rw [copiesOf, none]
  rfl

theorem card_copiesOf (nonce : FloodId) (copies : List (Bytes × FloodMsg)) :
    (copiesOf nonce copies).card = copies.countP (ofFlood nonce) := by
  rw [copiesOf, Multiset.coe_card, List.length_map, List.countP_eq_length_filter]

end Copies

/-! ### What is sent -/

/-- The flooding of the routers: a copy is passed on as long as its hop count is not above
`ls_hops_max`. -/
def FloodNet.flooding (net : FloodNet) (lsHopsMax : ℤ) : Flooding Bytes where
  neighbors := net.neighbors
  limit := (lsHopsMax + 1).toNat
  fan u := ((net.neighbors u).map (net.copiesMax u)).sum

/-- Every send to a neighbor succeeds, with as many copies as there may be. -/
def FloodNet.Sent (net : FloodNet) (router : Bytes) (copies : Bytes → ℕ) : Prop :=
  ∀ neighbor ∈ net.neighbors router,
    1 ≤ copies neighbor ∧ copies neighbor ≤ net.copiesMax router neighbor

section Sends

variable {net : FloodNet} {lsHopsMax : ℤ} {nonce : FloodId} {router : Bytes}
  {copies : Bytes → ℕ} {envelope : FloodEnvelope}

theorem length_sendFloodTask_le (ok : net.Sent router copies) :
    (sendFloodTask router (net.neighbors router) copies envelope).length ≤
      ((net.neighbors router).map (net.copiesMax router)).sum := by
  unfold sendFloodTask
  rw [List.length_flatMap]
  simp only [List.length_replicate]
  calc (((net.neighbors router).filter fun target => target ∉ envelope.sentTo).map copies).sum
      ≤ ((net.neighbors router).map copies).sum :=
        (List.filter_sublist.map copies).sum_le_sum fun _ _ => Nat.zero_le _
    _ ≤ ((net.neighbors router).map (net.copiesMax router)).sum :=
        List.sum_le_sum fun neighbor mem => (ok neighbor mem).2

/-- **The copies of an envelope** go to all neighbors but one. -/
theorem sendFloodTask_sends {but : Option Bytes} {hops : ℕ}
    (same : envelope.message.nonce = nonce) (count : envelope.message.hopCount = some (hops : ℤ))
    (sentTo : envelope.sentTo = but.toList) (ok : net.Sent router copies) :
    (net.flooding lsHopsMax).Sends router but hops
      (copiesOf nonce (sendFloodTask router (net.neighbors router) copies envelope)) := by
  constructor
  · intro c mem
    obtain ⟨⟨target, message⟩, sent, rfl⟩ := List.mem_map.mp (Multiset.mem_coe.mp mem)
    obtain ⟨adj, -, -, rfl⟩ := mem_sendFloodTask.mp (List.mem_filter.mp sent).1
    refine ⟨rfl, ?_, adj⟩
    simp [copyOf, FloodMsg.tagFor, count]
  · intro x adj away
    refine ⟨copyOf (x, envelope.message.tagFor router), ?_, rfl⟩
    apply Multiset.mem_coe.mpr
    apply List.mem_map_of_mem
    apply List.mem_filter.mpr
    constructor
    · apply mem_sendFloodTask.mpr
      refine ⟨adj, ?_, Nat.one_le_iff_ne_zero.mp (ok x adj).1, rfl⟩
      rw [sentTo, Option.mem_toList]
      exact fun mem => away (Option.mem_def.mp mem).symm
    · exact decide_eq_true same
  · rw [card_copiesOf]
    exact List.countP_le_length.trans (length_sendFloodTask_le ok)

end Sends

/-! ### Histories -/

/-- The hop count with which a router accepted a copy of the flood. -/
def FloodOutput.acceptedHop (nonce : FloodId) (router : Bytes) (output : FloodOutput) : Option ℤ :=
  match output.received with
  | none => none
  | some (target, message) =>
    if output.accepted ∧ target = router ∧ message.nonce = nonce then message.hopCount else none

/-- The hop counts with which a router accepted copies of the flood, in order. -/
def acceptedHops (nonce : FloodId) (router : Bytes)
    (history : List (FloodEvent × FloodOutput)) : List ℤ :=
  history.filterMap fun e => e.2.acceptedHop nonce router

/-- How many copies of the flood were sent. -/
def copiesSent (nonce : FloodId) (history : List (FloodEvent × FloodOutput)) : ℕ :=
  (history.map fun e => e.2.sent.countP (ofFlood nonce)).sum

/-- How many copies of the flood arrived. -/
def copiesReceived (nonce : FloodId) (history : List (FloodEvent × FloodOutput)) : ℕ :=
  history.countP fun e => e.2.received.any (ofFlood nonce)

/-! ### The flood that the routers show -/

/-- **The routers show a state of the flood.** The hop counts that they know, the copies on
their way, what they handed over to themselves, and the history agree with it. -/
structure Shows (nonce : FloodId) (message : PrismMessage) (first : ℕ) (s : FloodState)
    (history : List (FloodEvent × FloodOutput)) (a : Spread Bytes) : Prop where
  proper : ∀ copy ∈ s.flight, copy.2.nonce = nonce →
    copy.2.subMsg = some message ∧ (∃ k : ℕ, copy.2.hopCount = some (k : ℤ)) ∧
      ∃ sender, copy.2.sender = some sender
  flight : a.flight = copiesOf nonce s.flight
  seen : ∀ v, (s.db v).lookup nonce = (a.seen v).head?.map fun k : ℕ => some (k : ℤ)
  delivered : ∀ v, a.seen v ≠ [] → (v, message) ∈ s.delivered
  accepted : ∀ v, acceptedHops nonce v history = (a.seen v).reverse.map Nat.cast
  sent : first + copiesSent nonce history = a.sent
  received : copiesReceived nonce history = a.received

section Shows

variable {net : FloodNet} {lsHopsMax lsTtlMax : ℤ} {nonce : FloodId} {message : PrismMessage}
  {first : ℕ} {s s' : FloodState} {history : List (FloodEvent × FloodOutput)} {a a' : Spread Bytes}
  {event : FloodEvent} {output : FloodOutput}

theorem acceptedHops_concat (nonce : FloodId) (router : Bytes) (event : FloodEvent)
    (output : FloodOutput) :
    acceptedHops nonce router (history ++ [(event, output)]) =
      acceptedHops nonce router history ++ (output.acceptedHop nonce router).toList := by
  unfold acceptedHops
  rw [List.filterMap_append]
  rcases found : output.acceptedHop nonce router with _ | hop <;> simp [found]

theorem copiesSent_concat (nonce : FloodId) (event : FloodEvent) (output : FloodOutput) :
    copiesSent nonce (history ++ [(event, output)]) =
      copiesSent nonce history + output.sent.countP (ofFlood nonce) := by
  simp [copiesSent]

theorem copiesReceived_concat (nonce : FloodId) (event : FloodEvent) (output : FloodOutput) :
    copiesReceived nonce (history ++ [(event, output)]) =
      copiesReceived nonce history +
        if output.received.any (ofFlood nonce) then 1 else 0 := by
  simp [copiesReceived, List.countP_cons]

/-- An event that does nothing to the flood. -/
theorem Shows.stutter (shows : Shows nonce message first s history a)
    (old : ∀ copy ∈ s'.flight, copy.2.nonce = nonce → copy ∈ s.flight)
    (flight : copiesOf nonce s'.flight = copiesOf nonce s.flight)
    (db : ∀ v, (s'.db v).lookup nonce = (s.db v).lookup nonce)
    (delivered : ∀ e ∈ s.delivered, e ∈ s'.delivered)
    (received : ∀ copy, output.received = some copy → copy.2.nonce ≠ nonce)
    (sent : ∀ copy ∈ output.sent, copy.2.nonce ≠ nonce) :
    Shows nonce message first s' (history ++ [(event, output)]) a := by
  have quiet : ∀ v, output.acceptedHop nonce v = none := by
    intro v
    unfold FloodOutput.acceptedHop
    rcases arrived : output.received with _ | ⟨target, m⟩
    · rfl
    · exact if_neg fun same => received _ arrived same.2.2
  have silent : output.received.any (ofFlood nonce) = false := by
    rcases arrived : output.received with _ | copy
    · rfl
    · simpa [ofFlood] using received copy arrived
  have none : output.sent.countP (ofFlood nonce) = 0 := by
    rw [← card_copiesOf, copiesOf_others sent, Multiset.card_zero]
  constructor
  · exact fun copy mem same => shows.proper copy (old copy mem same) same
  · rw [flight, shows.flight]
  · exact fun v => (db v).trans (shows.seen v)
  · exact fun v known => delivered _ (shows.delivered v known)
  · intro v
    rw [acceptedHops_concat, quiet v, shows.accepted v]
    exact List.append_nil _
  · rw [copiesSent_concat, none, Nat.add_zero, shows.sent]
  · rw [copiesReceived_concat, silent, shows.received]
    rfl

variable {router : Bytes} {m : FloodMsg} {rest : List (Bytes × FloodMsg)} {now : ℤ}
  {copies : Bytes → ℕ}

/-- A copy of another flood arrives. -/
theorem Shows.receive_other (shows : Shows nonce message first s history a)
    (perm : s.flight.Perm ((router, m) :: rest)) (other : m.nonce ≠ nonce) :
    Shows nonce message first (net.receive lsHopsMax lsTtlMax router m rest now copies s).1
      (history ++ [(event, (net.receive lsHopsMax lsTtlMax router m rest now copies s).2)]) a := by
  have sent : ∀ copy ∈ net.passedOn router copies
      (handleFlood lsHopsMax lsTtlMax now (s.db router) m), copy.2.nonce ≠ nonce := by
    rintro ⟨target, passed⟩ mem
    unfold FloodNet.passedOn at mem
    rcases found : (handleFlood lsHopsMax lsTtlMax now (s.db router) m).envelope
      with _ | envelope
    · rw [found] at mem
      exact absurd mem List.not_mem_nil
    · rw [found] at mem
      obtain ⟨-, -, -, rfl⟩ := mem_sendFloodTask.mp mem
      obtain ⟨ttl, passes⟩ := (handleFlood_cases lsHopsMax lsTtlMax now _ m).2 envelope found
      obtain ⟨count, -, -, rfl⟩ := forwarded_some passes
      exact other
  apply shows.stutter
  · intro copy mem same
    rcases List.mem_append.mp mem with mem | mem
    · exact perm.mem_iff.mpr (List.mem_cons_of_mem _ mem)
    · exact absurd same (sent copy mem)
  · exact (copiesOf_append _ _).trans (by
      rw [copiesOf_others sent, copiesOf_perm perm, copiesOf_cons_other other, add_zero])
  · intro v
    by_cases here : v = router
    · subst here
      simpa [FloodNet.receive] using handleFlood_lookup other
    · simp [FloodNet.receive, here]
  · exact fun e mem => List.mem_append_left _ mem
  · rintro copy ⟨⟩
    exact other
  · exact sent

theorem receive_ignores
    (ignores : handleFlood lsHopsMax lsTtlMax now (s.db router) m = { db := s.db router }) :
    net.receive lsHopsMax lsTtlMax router m rest now copies s =
      ({ s with flight := rest }, { received := some (router, m) }) := by
  unfold FloodNet.receive
  rw [ignores]
  simp [FloodNet.passedOn]

/-- What a router does with a new copy of the flood. -/
def news (lsHopsMax lsTtlMax : ℤ) (db : FloodDB) (m : FloodMsg) (message : PrismMessage)
    (hops : ℕ) : FloodHandled where
  db := dictSet db m.nonce (some (hops : ℤ))
  delivered := some message
  envelope := forwarded lsHopsMax { m with ttl := max (min m.ttl lsTtlMax) 0 }

/-- What a router sends on of a copy that it accepts. -/
theorem passedOn_passes {hops : ℕ} {sender : Bytes} (same : m.nonce = nonce)
    (count : m.hopCount = some (hops : ℤ)) (signed : m.sender = some sender)
    (ok : net.Sent router copies) (db : FloodDB) :
    (net.flooding lsHopsMax).Passes ⟨router, hops, sender⟩
      (copiesOf nonce
        (net.passedOn router copies (news lsHopsMax lsTtlMax db m message hops))) := by
  have limit : hops < (net.flooding lsHopsMax).limit ↔ ¬ (hops : ℤ) > lsHopsMax := by
    dsimp only [FloodNet.flooding]
    omega
  unfold Flooding.Passes
  split_ifs with below
  · rw [limit] at below
    simp only [FloodNet.passedOn, news, forwarded, count, if_neg below]
    exact sendFloodTask_sends same (by simp) (by simp [signed]) ok
  · rw [limit, not_not] at below
    simp only [FloodNet.passedOn, news, forwarded, count, if_pos below]
    rfl

/-- The copies that are sent on are proper ones of the flood. -/
theorem passedOn_proper {db : FloodDB} {copy : Bytes × FloodMsg} {hops : ℕ}
    (count : m.hopCount = some (hops : ℤ))
    (mem : copy ∈ net.passedOn router copies (news lsHopsMax lsTtlMax db m message hops)) :
    copy.2.subMsg = m.subMsg ∧ (∃ k : ℕ, copy.2.hopCount = some (k : ℤ)) ∧
      ∃ sender, copy.2.sender = some sender := by
  obtain ⟨target, passed⟩ := copy
  unfold FloodNet.passedOn news at mem
  dsimp only at mem
  rcases found : forwarded lsHopsMax { m with ttl := max (min m.ttl lsTtlMax) 0 } with _ | envelope
  · rw [found] at mem
    exact absurd mem List.not_mem_nil
  · rw [found] at mem
    obtain ⟨-, -, -, rfl⟩ := mem_sendFloodTask.mp mem
    obtain ⟨_, same, -, rfl⟩ := forwarded_some found
    obtain rfl := Option.some.inj (same.symm.trans count)
    exact ⟨rfl, ⟨hops + 1, by simp [FloodMsg.tagFor]⟩, router, rfl⟩

/-- An old copy of the flood arrives. -/
theorem Shows.receive_old {k hops : ℕ} (shows : Shows nonce message first s history a)
    (perm : s.flight.Perm ((router, m) :: rest)) (same : m.nonce = nonce)
    (count : m.hopCount = some (hops : ℤ)) (known : (a.seen router).head? = some k)
    (old : k ≤ hops) :
    Shows nonce message first (net.receive lsHopsMax lsTtlMax router m rest now copies s).1
      (history ++ [(event, (net.receive lsHopsMax lsTtlMax router m rest now copies s).2)])
      (Flooding.ignored a (copiesOf nonce rest)) := by
  have lookup : (s.db router).lookup m.nonce = some (some (k : ℤ)) := by
    rw [same, shows.seen router, known]
    rfl
  rw [receive_ignores (handleFlood_ignores count lookup (by exact_mod_cast old))]
  constructor
  · exact fun copy mem => shows.proper copy (perm.mem_iff.mpr (List.mem_cons_of_mem _ mem))
  · rfl
  · exact shows.seen
  · exact shows.delivered
  · intro v
    rw [acceptedHops_concat, shows.accepted v]
    simp [FloodOutput.acceptedHop, Flooding.ignored]
  · rw [copiesSent_concat, List.countP_nil, Nat.add_zero]
    exact shows.sent
  · rw [copiesReceived_concat, shows.received]
    simp [ofFlood, same, Flooding.ignored]

/-- A new copy of the flood arrives. -/
theorem Shows.receive_news {hops : ℕ} {sender : Bytes}
    (shows : Shows nonce message first s history a)
    (perm : s.flight.Perm ((router, m) :: rest)) (same : m.nonce = nonce)
    (count : m.hopCount = some (hops : ℤ)) (skew : m.microTimestamp ≤ now + 30 * 10 ^ 6)
    (fresh : ∀ k, (a.seen router).head? = some k → hops < k) :
    Shows nonce message first (net.receive lsHopsMax lsTtlMax router m rest now copies s).1
      (history ++ [(event, (net.receive lsHopsMax lsTtlMax router m rest now copies s).2)])
      (Flooding.accepted a ⟨router, hops, sender⟩ (copiesOf nonce rest)
        (copiesOf nonce
          (net.passedOn router copies
            (news lsHopsMax lsTtlMax (s.db router) m message hops)))) := by
  obtain ⟨content, -, -⟩ := shows.proper (router, m) (perm.mem_iff.mpr (by simp)) same
  have unseen : (s.db router).News m.nonce hops := by
    intro seen known
    rw [same, shows.seen router] at known
    obtain ⟨k, head, rfl⟩ := Option.map_eq_some_iff.mp known
    exact ⟨k, rfl, by exact_mod_cast fresh k head⟩
  have handled : handleFlood lsHopsMax lsTtlMax now (s.db router) m =
      news lsHopsMax lsTtlMax (s.db router) m message hops :=
    handleFlood_accepts skew count content unseen
  unfold FloodNet.receive
  rw [handled]
  constructor
  · intro copy mem own
    rcases List.mem_append.mp mem with mem | mem
    · exact shows.proper copy (perm.mem_iff.mpr (List.mem_cons_of_mem _ mem)) own
    · obtain ⟨sub, proper⟩ := passedOn_proper count mem
      exact ⟨sub.trans content, proper⟩
  · exact (copiesOf_append _ _).symm
  · intro v
    by_cases here : v = router
    · subst here
      simp [Flooding.accepted, news, lookup_dictSet, same]
    · simpa [Flooding.accepted, here] using shows.seen v
  · intro v known
    by_cases here : v = router
    · subst here
      apply List.mem_append_right
      exact List.mem_singleton_self _
    · apply List.mem_append_left
      exact shows.delivered v (by simpa [Flooding.accepted, here] using known)
  · intro v
    rw [acceptedHops_concat, shows.accepted v]
    by_cases here : v = router
    · subst here
      simp [FloodOutput.acceptedHop, Flooding.accepted, news, same, count]
    · simp [FloodOutput.acceptedHop, Flooding.accepted, here, Ne.symm here]
  · rw [copiesSent_concat, ← Nat.add_assoc, shows.sent, ← card_copiesOf]
    rfl
  · rw [copiesReceived_concat, shows.received]
    simp [ofFlood, same, Flooding.accepted]

/-- **A copy of the flood arrives**: this is a delivery of the flood. -/
theorem Shows.receive (shows : Shows nonce message first s history a)
    (perm : s.flight.Perm ((router, m) :: rest)) (same : m.nonce = nonce)
    (skew : m.microTimestamp ≤ now + 30 * 10 ^ 6) (ok : net.Sent router copies) :
    ∃ a', (net.flooding lsHopsMax).Step a a' ∧
      Shows nonce message first (net.receive lsHopsMax lsTtlMax router m rest now copies s).1
        (history ++ [(event, (net.receive lsHopsMax lsTtlMax router m rest now copies s).2)])
        a' := by
  obtain ⟨content, ⟨hops, count⟩, sender, signed⟩ :=
    shows.proper (router, m) (perm.mem_iff.mpr (by simp)) same
  dsimp only at signed count
  have taken : a.flight = ⟨router, hops, sender⟩ ::ₘ copiesOf nonce rest := by
    rw [shows.flight, copiesOf_perm perm, copiesOf_cons same]
    simp [copyOf, signed, count]
  by_cases fresh : ∀ k, (a.seen router).head? = some k → hops < k
  · exact ⟨_, .accept taken fresh (passedOn_passes same count signed ok _),
      shows.receive_news perm same count skew fresh⟩
  · push Not at fresh
    obtain ⟨k, known, old⟩ := fresh
    exact ⟨_, .ignore taken known old, shows.receive_old perm same count known old⟩

end Shows

/-! ### Runs -/

namespace FloodNet

/-- There is an edge. -/
def Adj (net : FloodNet) (u v : Bytes) : Prop := v ∈ net.neighbors u

instance (net : FloodNet) (u v : Bytes) : Decidable (net.Adj u v) :=
  inferInstanceAs (Decidable (_ ∈ _))

/-- **Links are reliable** for the flood: when a copy of it arrives, the clock of the router is
within the accepted skew and all sends succeed. Other floods have other nonces. -/
def Reliable (net : FloodNet) (nonce : FloodId) (s : FloodState)
    (_ : List (FloodEvent × FloodOutput)) : FloodEvent → Prop
  | .flood _ other _ _ _ _ => other ≠ nonce
  | .deliver place now copies => ∀ router m, s.flight[place]? = some (router, m) →
      m.nonce = nonce → m.microTimestamp ≤ now + 30 * 10 ^ 6 ∧ net.Sent router copies

/-- The most copies of a flood that there can be. -/
def copiesBound (net : FloodNet) (lsHopsMax : ℤ) (originator : Bytes) : ℕ :=
  (net.flooding lsHopsMax).fan originator +
    ∑ v ∈ net.routers, (net.flooding lsHopsMax).limit * (net.flooding lsHopsMax).fan v

end FloodNet

/-- The routers know nothing of the flood. -/
structure Fresh (nonce : FloodId) (s : FloodState) : Prop where
  db : ∀ v, (s.db v).lookup nonce = none
  flight : ∀ copy ∈ s.flight, copy.2.nonce ≠ nonce

section Runs

variable {net : FloodNet} {lsHopsMax lsTtlMax : ℤ} {nonce : FloodId} {originator : Bytes}
  {message : PrismMessage} {copies : Bytes → ℕ} {now ttl : ℤ} {first : ℕ} {s before : FloodState}
  {history : List (FloodEvent × FloodOutput)} {a : Spread Bytes} {event : FloodEvent}

theorem floodSent_of_mem {copy : Bytes × FloodMsg}
    (mem : copy ∈ net.floodSent originator nonce now ttl message copies) :
    copy.2.nonce = nonce ∧ copy.2.hopCount = some 0 ∧ copy.2.subMsg = some message ∧
      copy.2.sender = some originator := by
  obtain ⟨target, sent⟩ := copy
  obtain ⟨-, -, -, rfl⟩ := mem_sendFloodTask.mp mem
  exact ⟨rfl, rfl, rfl, rfl⟩

/-- **The flood begins.** -/
theorem Shows.start (fresh : Fresh nonce before) (ok : net.Sent originator copies) :
    ∃ a, (net.flooding lsHopsMax).Reachable originator a ∧
      Shows nonce message (net.floodSent originator nonce now ttl message copies).length
        (net.flood originator nonce now ttl message copies before).1 [] a := by
  have own : (net.floodSent originator nonce now ttl message copies).countP (ofFlood nonce) =
      (net.floodSent originator nonce now ttl message copies).length :=
    List.countP_eq_length.mpr fun copy mem => decide_eq_true (floodSent_of_mem mem).1
  refine ⟨_, .start (@sendFloodTask_sends net lsHopsMax nonce originator copies
    { message :=
        { hopCount := some 0, nonce, originator, microTimestamp := now, ttl,
          subMsg := message } }
    none 0 rfl rfl rfl ok), ?_⟩
  constructor
  · intro copy mem same
    rcases List.mem_append.mp mem with mem | mem
    · exact absurd same (fresh.flight copy mem)
    · obtain ⟨-, zero, content, signed⟩ := floodSent_of_mem mem
      exact ⟨content, ⟨0, zero⟩, originator, signed⟩
  · refine Eq.trans ?_ (copiesOf_append _ _).symm
    rw [copiesOf_others fresh.flight, zero_add]
    rfl
  · exact fresh.db
  · exact fun v none => absurd rfl none
  · exact fun v => rfl
  · rw [card_copiesOf]
    exact own.symm
  · rfl

/-- **Every event is a delivery of the flood, or does nothing to it.** -/
theorem Shows.step (shows : Shows nonce message first s history a)
    (reliable : net.Reliable nonce s history event) :
    ∃ a', (a' = a ∨ (net.flooding lsHopsMax).Step a a') ∧
      Shows nonce message first (net.step lsHopsMax lsTtlMax s event).1
        (history ++ [(event, (net.step lsHopsMax lsTtlMax s event).2)]) a' := by
  cases event with
  | flood other nonce' time life sub copies =>
      have foreign : ∀ copy ∈ net.floodSent other nonce' time life sub copies,
          copy.2.nonce ≠ nonce :=
        fun copy mem => (floodSent_of_mem mem).1.trans_ne reliable
      refine ⟨a, .inl rfl, shows.stutter ?_ ?_ ?_ ?_ ?_ ?_⟩
      · intro copy mem same
        rcases List.mem_append.mp mem with mem | mem
        · exact mem
        · exact absurd same (foreign copy mem)
      · refine (copiesOf_append _ _).trans ?_
        rw [copiesOf_others foreign, add_zero]
      · exact fun v => rfl
      · exact fun e mem => List.mem_append_left _ mem
      · rintro copy ⟨⟩
      · exact foreign
  | deliver place now copies =>
      rcases taken : s.flight[place]? with _ | ⟨router, m⟩
      · have nothing : net.step lsHopsMax lsTtlMax s (.deliver place now copies) = (s, {}) := by
          simp only [FloodNet.step, taken]
        rw [nothing]
        exact ⟨a, .inl rfl, shows.stutter (fun _ mem _ => mem) rfl (fun _ => rfl)
          (fun _ mem => mem) (by rintro copy ⟨⟩) (by rintro copy ⟨⟩)⟩
      · obtain ⟨lt, here⟩ := List.getElem?_eq_some_iff.mp taken
        have perm : s.flight.Perm ((router, m) :: s.flight.eraseIdx place) := by
          rw [← here]
          exact (List.getElem_cons_eraseIdx_perm lt).symm
        have arrives : net.step lsHopsMax lsTtlMax s (.deliver place now copies) =
            net.receive lsHopsMax lsTtlMax router m (s.flight.eraseIdx place) now copies s := by
          simp only [FloodNet.step, taken]
        rw [arrives]
        by_cases same : m.nonce = nonce
        · obtain ⟨skew, ok⟩ := reliable router m taken same
          obtain ⟨a', step, shows'⟩ := shows.receive perm same skew ok
          exact ⟨a', .inr step, shows'⟩
        · exact ⟨a, .inl rfl, shows.receive_other perm same⟩

/-- The hop count of a copy that is forwarded is within the limit. -/
theorem step_hopCount (reliable : net.Reliable nonce s history event) {copy : Bytes × FloodMsg}
    (mem : copy ∈ (net.step lsHopsMax lsTtlMax s event).2.sent) (same : copy.2.nonce = nonce) :
    ∃ count, copy.2.hopCount = some count ∧ count ≤ lsHopsMax + 1 := by
  cases event with
  | flood other nonce' time life sub copies =>
      exact absurd same ((floodSent_of_mem mem).1.trans_ne reliable)
  | deliver place now copies =>
      unfold FloodNet.step at mem
      rcases taken : s.flight[place]? with _ | ⟨router, m⟩
      · simp only [taken] at mem
        exact absurd mem List.not_mem_nil
      · simp only [taken] at mem
        unfold FloodNet.receive FloodNet.passedOn at mem
        rcases found : (handleFlood lsHopsMax lsTtlMax now (s.db router) m).envelope
          with _ | envelope
        · simp only [found] at mem
          exact absurd mem List.not_mem_nil
        · simp only [found] at mem
          obtain ⟨target, passed⟩ := copy
          obtain ⟨-, -, -, rfl⟩ := mem_sendFloodTask.mp mem
          obtain ⟨ttl, passes⟩ := (handleFlood_cases lsHopsMax lsTtlMax now _ m).2 envelope found
          obtain ⟨count, -, le, rfl⟩ := forwarded_some passes
          exact ⟨count + 1, rfl, Int.add_le_add_right le 1⟩

/-- **The routers show a reachable state of the flood** throughout a run. -/
theorem FloodNet.run_shows (fresh : Fresh nonce before) (ok : net.Sent originator copies)
    {events : List FloodEvent}
    (reliable : (net.floodMachine lsHopsMax lsTtlMax
      (net.flood originator nonce now ttl message copies before).1).Admits
      (net.Reliable nonce) events) :
    ∃ a, (net.flooding lsHopsMax).Reachable originator a ∧
      Shows nonce message (net.floodSent originator nonce now ttl message copies).length
        ((net.floodMachine lsHopsMax lsTtlMax
          (net.flood originator nonce now ttl message copies before).1).run events).1
        ((net.floodMachine lsHopsMax lsTtlMax
          (net.flood originator nonce now ttl message copies before).1).run events).2 a := by
  refine Machine.run_induction
    (P := fun s history => ∃ a, (net.flooding lsHopsMax).Reachable originator a ∧
      Shows nonce message (net.floodSent originator nonce now ttl message copies).length
        s history a) _ (Shows.start fresh ok) ?_ reliable
  rintro s history event ⟨a, reachable, shows⟩ here
  obtain ⟨a', rfl | next, shows'⟩ := shows.step here
  · exact ⟨a', reachable, shows'⟩
  · exact ⟨a', reachable.step next, shows'⟩

/-- No copy that is forwarded has too many hops. -/
theorem FloodNet.run_hopCount {init : FloodState} {events : List FloodEvent}
    (reliable : (net.floodMachine lsHopsMax lsTtlMax init).Admits (net.Reliable nonce) events) :
    ∀ e ∈ ((net.floodMachine lsHopsMax lsTtlMax init).run events).2, ∀ copy ∈ e.2.sent,
      copy.2.nonce = nonce →
        ∃ count, copy.2.hopCount = some count ∧ count ≤ lsHopsMax + 1 := by
  refine Machine.run_induction
    (P := fun _ history => ∀ e ∈ history, ∀ copy ∈ e.2.sent, copy.2.nonce = nonce →
      ∃ count, copy.2.hopCount = some count ∧ count ≤ lsHopsMax + 1) _ (by rintro e ⟨⟩) ?_ reliable
  intro s history event before here e mem copy sent same
  rcases List.mem_append.mp mem with mem | mem
  · exact before e mem copy sent same
  · rw [List.mem_singleton.mp mem] at sent
    exact step_hopCount here sent same

/-- A walk stays among the routers. -/
theorem FloodNet.mem_of_walk (member : originator ∈ net.routers) {v : Bytes} {n : ℕ}
    (walk : Walk net.Adj n originator v) : v ∈ net.routers :=
  walk.carry (P := fun v => v ∈ net.routers) (fun u w mem edge => net.closed u mem w edge) member

/-- **Flooding reaches everyone within the hop limit and then stops.** Of a flood that the
routers know nothing of before, in every run with reliable links and among any other floods:
every router accepts copies with fewer and fewer hops; no copy that is forwarded has more than
`ls_hops_max + 1` hops; every copy was received or is on its way, and there are boundedly many;
and when none is on its way, every router but the originator within the distance of
`ls_hops_max + 2` has handed the message over to itself, and its database says its distance
less one. -/
theorem FloodNet.flood_spreads (net : FloodNet) (lsHopsMax lsTtlMax : ℤ)
    {originator : Bytes} (member : originator ∈ net.routers) {nonce : FloodId}
    {before : FloodState} (fresh : Fresh nonce before) (now ttl : ℤ) (message : PrismMessage)
    {copies : Bytes → ℕ} (ok : net.Sent originator copies) {events : List FloodEvent}
    (reliable : (net.floodMachine lsHopsMax lsTtlMax
      (net.flood originator nonce now ttl message copies before).1).Admits
      (net.Reliable nonce) events) {s : FloodState}
    {history : List (FloodEvent × FloodOutput)}
    (run : (net.floodMachine lsHopsMax lsTtlMax
      (net.flood originator nonce now ttl message copies before).1).run events = (s, history)) :
    let sent := (net.floodSent originator nonce now ttl message copies).length +
      copiesSent nonce history
    (∀ v, (acceptedHops nonce v history).Pairwise (· > ·)) ∧
    (∀ e ∈ history, ∀ copy ∈ e.2.sent, copy.2.nonce = nonce →
      ∃ count, copy.2.hopCount = some count ∧ count ≤ lsHopsMax + 1) ∧
    copiesReceived nonce history + s.flight.countP (ofFlood nonce) = sent ∧
    sent ≤ net.copiesBound lsHopsMax originator ∧
    ((∀ copy ∈ s.flight, copy.2.nonce ≠ nonce) → ∀ v, v ≠ originator → ∀ d : ℕ,
      IsDist net.Adj originator v d → (d : ℤ) ≤ lsHopsMax + 2 →
      (s.db v).lookup nonce = some (some ((d : ℤ) - 1)) ∧ (v, message) ∈ s.delivered) := by
  intro sent
  obtain ⟨a, reachable, shows⟩ := run_shows fresh ok reliable
  have hops := run_hopCount reliable
  rw [run] at shows hops
  have inside : ∀ v n, Walk (net.flooding lsHopsMax).Adj n originator v → v ∈ net.routers :=
    fun v n walk => mem_of_walk member walk
  have counted := reachable.counted inside
  refine ⟨?_, hops, ?_, ?_, ?_⟩
  · intro v
    rw [shows.accepted v, List.pairwise_map, List.pairwise_reverse]
    exact (reachable.decreasing v).imp fun lt => by exact_mod_cast lt
  · rw [shows.received, ← card_copiesOf, ← shows.flight, counted.received, ← shows.sent]
  · have le := counted.sent
    rw [← shows.sent] at le
    exact (Nat.le_add_right _ _).trans le
  · intro quiet v other d dist le
    obtain _ | d := d
    · exact absurd (isDist_zero.mp dist).symm other
    have none : a.flight = 0 := by
      rw [shows.flight, copiesOf_others quiet]
    have limit : d ≤ (net.flooding lsHopsMax).limit := by
      dsimp only [FloodNet.flooding]
      omega
    have settled := reachable.settled none dist limit
    constructor
    · rw [shows.seen v, settled]
      simp
    · apply shows.delivered v
      intro unseen
      rw [unseen] at settled
      cases settled

end Runs

/-! ### A line of three routers -/

section Line

/-- Three routers in a line, with one link between neighbors. -/
def floodLine : FloodNet where
  routers := {[1], [2], [3]}
  neighbors u := if u = [1] then [[2]] else if u = [2] then [[1], [3]]
    else if u = [3] then [[2]] else []
  copiesMax _ _ := 1
  closed := by decide

/-- The router 1 floods a message, and no router has seen any flood. -/
def floodLineStart : FloodState :=
  (floodLine.flood [1] (some [7]) 0 60 (PrismMessage.create 0 .lsp []) (fun _ => 1)
    { db := fun _ => [] }).1

/-- The copies arrive, the one that went to the router 2 first. -/
def floodLineEvents : List FloodEvent :=
  [] ++ [.deliver 0 0 fun _ => 1] ++ [.deliver 0 0 fun _ => 1]

theorem floodLine_sent (router : Bytes) : floodLine.Sent router fun _ => 1 :=
  fun _ _ => ⟨le_rfl, le_rfl⟩

theorem floodLine_reliable :
    (floodLine.floodMachine 5 3600 floodLineStart).Admits (floodLine.Reliable (some [7]))
      floodLineEvents := by
  unfold floodLineEvents
  simp only [Machine.admits_concat, Machine.admits_nil, true_and]
  constructor
  · intro router m taken _
    have first : m.microTimestamp = 0 := by
      cases taken
      rfl
    exact ⟨by omega, floodLine_sent router⟩
  · intro router m taken _
    have second : m.microTimestamp = 0 := by
      cases taken
      rfl
    exact ⟨by omega, floodLine_sent router⟩

theorem flood_spreads_line :
    let run := (floodLine.floodMachine 5 3600 floodLineStart).run floodLineEvents
    (run.1.db [3]).lookup (some [7]) = some (some 1) ∧
      ([3], PrismMessage.create 0 .lsp []) ∈ run.1.delivered := by
  intro run
  have dist : IsDist floodLine.Adj [1] [3] 2 :=
    ⟨.cons (w := [2]) (by decide) (.cons (by decide) (.nil [3])),
      fun n walk => walk.two_le (by decide) (by decide)⟩
  have spreads := @FloodNet.flood_spreads floodLine 5 3600 [1] (by decide) (some [7])
    { db := fun _ => [] } ⟨fun _ => rfl, by rintro copy ⟨⟩⟩ 0 60
    (PrismMessage.create 0 .lsp []) _ (floodLine_sent [1]) _ floodLine_reliable run.1 run.2 rfl
  exact spreads.2.2.2.2 (by decide) [3] (by decide) 2 dist (by decide)

end Line

end Prism.Routing
