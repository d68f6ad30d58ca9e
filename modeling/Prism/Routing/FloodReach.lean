import Prism.Routing.FloodRuns

/-!
Whom a flood reaches.

`Floods` says that every flood from one router is accepted by another, however the copies are
delivered, once none is on its way. How far floods get is decided by `ls_hops_max`: a router passes
a copy on unless its hop count is above.

* `FloodNet.floods_iff`: a flood reaches exactly the routers within `ls_hops_max + 2` links, and the
  neighbors in any case.
-/

namespace Prism.Routing

open Lib (Machine Flooding Walk IsDist)

namespace FloodNet

variable (net : FloodNet) (lsHopsMax lsTtlMax : ℤ)

/-- **Every flood of the originator reaches the router**: in every run with reliable links, once no
copy is on its way, the router has accepted a copy and handed the message over to itself. -/
def Floods (originator v : Bytes) : Prop :=
  ∀ (nonce : FloodId) (before : FloodState), Fresh nonce before →
    ∀ (now ttl : ℤ) (message : PrismMessage) (copies : Bytes → ℕ), net.Sent originator copies →
      ∀ events : List FloodEvent,
        (net.floodMachine lsHopsMax lsTtlMax
          (net.flood originator nonce now ttl message copies before).1).Admits
          (net.Reliable nonce) events →
        ∀ s history, (net.floodMachine lsHopsMax lsTtlMax
          (net.flood originator nonce now ttl message copies before).1).run events = (s, history) →
          (∀ copy ∈ s.flight, copy.2.nonce ≠ nonce) →
            acceptedHops nonce v history ≠ [] ∧ (v, message) ∈ s.delivered

variable {net lsHopsMax lsTtlMax} {originator : Bytes} {nonce : FloodId} {before : FloodState}
  {now ttl : ℤ} {message : PrismMessage} {copies : Bytes → ℕ}

theorem step_received {s : FloodState} {place : ℕ} {router : Bytes} {m : FloodMsg}
    (taken : s.flight[place]? = some (router, m)) :
    (net.step lsHopsMax lsTtlMax s (.deliver place now copies)).2.received = some (router, m) := by
  simp only [step, taken]
  rfl

/-- The copies of a flood can be delivered until none is left: there are boundedly many. -/
theorem exists_quiet (member : originator ∈ net.routers) (some_copy : ∀ u v, 1 ≤ net.copiesMax u v)
    (fresh : Fresh nonce before) (ok : net.Sent originator copies) :
    ∃ events, (net.floodMachine lsHopsMax lsTtlMax
        (net.flood originator nonce now ttl message copies before).1).Admits
        (net.Reliable nonce) events ∧
      ∀ copy ∈ ((net.floodMachine lsHopsMax lsTtlMax
        (net.flood originator nonce now ttl message copies before).1).run events).1.flight,
        copy.2.nonce ≠ nonce := by
  set machine := net.floodMachine lsHopsMax lsTtlMax
    (net.flood originator nonce now ttl message copies before).1 with hmachine
  have goes (n : ℕ) : ∃ events, machine.Admits (net.Reliable nonce) events ∧
      ((∀ copy ∈ (machine.run events).1.flight, copy.2.nonce ≠ nonce) ∨
        n ≤ copiesReceived nonce (machine.run events).2) := by
    induction n with
    | zero => exact ⟨[], machine.admits_nil _, .inr (Nat.zero_le _)⟩
    | succ n ih =>
        obtain ⟨events, admits, quiet | many⟩ := ih
        · exact ⟨events, admits, .inl quiet⟩
        · by_cases quiet : ∀ copy ∈ (machine.run events).1.flight, copy.2.nonce ≠ nonce
          · exact ⟨events, admits, .inl quiet⟩
          · push Not at quiet
            obtain ⟨⟨router, m⟩, mem, same⟩ := quiet
            obtain ⟨place, taken⟩ := List.mem_iff_getElem?.mp mem
            refine ⟨events ++ [.deliver place m.microTimestamp (net.copiesMax router)],
              machine.admits_concat.mpr ⟨admits, ?_⟩, .inr ?_⟩
            · intro router' m' taken' _
              obtain ⟨rfl, rfl⟩ := Prod.mk.inj (Option.some.inj (taken.symm.trans taken'))
              exact ⟨by omega, fun v _ => ⟨some_copy router v, le_rfl⟩⟩
            · have arrives : (machine.step (machine.run events).1
                  (.deliver place m.microTimestamp (net.copiesMax router))).2.received =
                    some (router, m) := step_received taken
              rw [machine.run_concat]
              simp only [Machine.record]
              have counts : (some (router, m)).any (ofFlood nonce) = true := decide_eq_true same
              rw [copiesReceived_concat, arrives, if_pos counts]
              omega
  have inside : ∀ v n, Walk (net.flooding lsHopsMax).Adj n originator v → v ∈ net.routers :=
    fun v n walk => mem_of_walk member walk
  obtain ⟨events, admits, quiet | many⟩ := goes (net.copiesBound lsHopsMax originator + 1)
  · exact ⟨events, admits, quiet⟩
  · obtain ⟨a, reachable, shows⟩ := run_shows fresh ok admits
    have counted := reachable.counted inside
    have received := shows.received
    have sent := counted.sent
    have balance := counted.received
    rw [← hmachine] at received
    unfold copiesBound at many
    omega

/-- **How far floods get.** -/
theorem floods_iff (member : originator ∈ net.routers) (some_copy : ∀ u v, 1 ≤ net.copiesMax u v)
    {v : Bytes} {d : ℕ} (dist : IsDist net.Adj originator v (d + 1)) :
    net.Floods lsHopsMax lsTtlMax originator v ↔ (d : ℤ) ≤ max 0 (lsHopsMax + 1) := by
  have limit : (d : ℤ) ≤ max 0 (lsHopsMax + 1) ↔ d ≤ (net.flooding lsHopsMax).limit := by
    dsimp only [FloodNet.flooding]
    omega
  rw [limit]
  constructor
  · intro floods
    have fresh : Fresh (some [0]) { db := fun _ => [] } := ⟨fun _ => rfl, by rintro copy ⟨⟩⟩
    have ok : net.Sent originator (net.copiesMax originator) :=
      fun v _ => ⟨some_copy originator v, le_rfl⟩
    obtain ⟨events, admits, quiet⟩ := @exists_quiet net lsHopsMax lsTtlMax originator (some [0])
      { db := fun _ => [] } 0 0 (PrismMessage.create 0 .lsp []) _ member some_copy fresh ok
    obtain ⟨accepted, -⟩ := floods _ _ fresh 0 0 _ _ ok events admits _ _ Prod.mk.eta.symm quiet
    obtain ⟨a, reachable, shows⟩ := run_shows fresh ok admits
    rw [shows.accepted v] at accepted
    cases seen : a.seen v with
    | nil => exact absurd (by rw [seen]; rfl) accepted
    | cons k rest =>
        have le := reachable.seen_le (show k ∈ a.seen v from seen ▸ List.mem_cons_self)
        obtain ⟨w, walk, edge, -⟩ := reachable.inv.seen v k (by rw [seen]; rfl)
        have := dist.least (k + 1) (walk.concat edge)
        omega
  · intro le nonce before fresh now ttl message copies ok events admits s history run quiet
    obtain ⟨a, reachable, shows⟩ := run_shows fresh ok admits
    rw [run] at shows
    have none : a.flight = 0 := by
      rw [shows.flight, copiesOf_others quiet]
    have settled := reachable.settled none dist le
    have some_seen : a.seen v ≠ [] := by
      intro unseen
      rw [unseen] at settled
      cases settled
    refine ⟨?_, shows.delivered v some_seen⟩
    rw [shows.accepted v]
    simpa using some_seen

end FloodNet

end Prism.Routing
