import Prism.Routing.CurrentTable
import Prism.Routing.Flood

/-!
Time stamps on hosts in different time zones (`flood`, `send_lsp` and `validate_ttl` in
`prism/server/routing/router_ls.py`, `prism/server/routing/network.py`).

A flood is stamped with `time.time()`, and the network of a router compares with `time()`: these
count from the epoch, wherever the host is. A link state packet is stamped with
`datetime.utcnow().timestamp()`, and `validate_ttl` compares with that: `utcnow()` is the time in
UTC without a time zone, and `timestamp()` reads a time without one as the local time, so that what
comes out is off by the offset of the host.

* `accepts_iff`: when `validate_ttl` takes a stamp.
* `mem_afterRemoval`: which packets `_remove_expired` leaves.
* `zoneFree_iff`: time stamps mean the same on two hosts exactly when the first one is on UTC and
  the second one at most thirty seconds ahead of it.
* `east_rejects_floods`, `east_lsp_expires`: what happens on hosts that are an hour ahead.
-/

namespace Prism.Routing

/-! ### Hosts -/

/-- A host whose clock is right: `utcOffset` is how far its local time is ahead of UTC. Instants
and offsets are in microseconds. -/
structure Host where
  utcOffset : ℤ
deriving DecidableEq, Repr

namespace Host

/-- `time.time()`. -/
def time (_self : Host) (instant : ℤ) : ℤ := instant

/-- `datetime.utcnow()`: the fields of the date are those of UTC. -/
def utcnow (_self : Host) (instant : ℤ) : ℤ := instant

/-- `timestamp()` of a date without a time zone, which is taken as local time. -/
def timestamp (self : Host) (date : ℤ) : ℤ := date - self.utcOffset

/-- `flood`: the message that the host floods. -/
def flood (self : Host) (instant : ℤ) (originator : Bytes) (nonce : FloodId) (lsTimeToLive : ℤ)
    (message : PrismMessage) : FloodMsg where
  hopCount := some 0
  nonce
  originator := some originator
  microTimestamp := self.time instant
  ttl := lsTimeToLive
  subMsg := some message

/-- `send_lsp`: the packet of the host with its online neighbors. -/
def sendLsp (self : Host) (instant : ℤ) (pseudonym : Bytes) (lsTimeToLive : ℤ)
    (online : List Neighbor) (ownArk : Option PrismMessage) : Lsp where
  pseudonym := some pseudonym
  microTimestamp := self.timestamp (self.utcnow instant)
  ttl := lsTimeToLive
  neighbors := some (online.map fun neighbor => some ⟨neighbor.pseudonym, 1⟩)
  subMsg := ownArk

/-- `validate_ttl` on the host. -/
def validateTtl (self : Host) (lsTtlMax instant microTimestamp ttl : ℤ) : Option ℤ :=
  Routing.validateTtl lsTtlMax (self.timestamp (self.utcnow instant)) microTimestamp ttl

end Host

/-! ### What a stamp means -/

section Stamps

variable {receiver : Host} {lsTtlMax instant microTimestamp ttl : ℤ}

/-- **When a stamp is taken**: the limit of thirty seconds is moved by the offset of the host. -/
theorem accepts_iff : (receiver.validateTtl lsTtlMax instant microTimestamp ttl).isSome ↔
    microTimestamp + receiver.utcOffset ≤ instant + 30 * 10 ^ 6 := by
  unfold Host.validateTtl validateTtl Host.timestamp Host.utcnow
  split_ifs with future
  · simp only [Option.isSome_none, Bool.false_eq_true, false_iff]
    omega
  · simp only [Option.isSome_some, true_iff]
    omega

/-- The packets that are left once the host has removed the expired ones. -/
theorem mem_afterRemoval {network : LinkStateNetwork} {entry : Option Bytes × Lsp} {now : ℤ} :
    entry ∈ network.databaseAfter now .removeExpired ↔
      entry ∈ network.database ∧ now ≤ entry.2.microTimestamp + entry.2.ttl * 10 ^ 6 := by
  simp [LinkStateNetwork.databaseAfter, List.mem_filter]

end Stamps

/-! ### Two hosts -/

/-- **Time stamps do not depend on the time zones** of two hosts, for what the first one stamps at
an instant. -/
structure ZoneFree (sender receiver : Host) (lsTtlMax stamped : ℤ) : Prop where
  /-- A flood is not taken to be from the future. -/
  flood : ∀ arrives, stamped ≤ arrives → ∀ originator nonce lsTimeToLive message,
    let sent := sender.flood stamped originator nonce lsTimeToLive message
    (receiver.validateTtl lsTtlMax arrives sent.microTimestamp sent.ttl).isSome
  /-- A packet is not taken to be from the future. -/
  lsp : ∀ arrives, stamped ≤ arrives → ∀ pseudonym lsTimeToLive online ownArk,
    let sent := sender.sendLsp stamped pseudonym lsTimeToLive online ownArk
    (receiver.validateTtl lsTtlMax arrives sent.microTimestamp sent.ttl).isSome
  /-- A packet counts in the routing table for the time to live that it is kept with. -/
  unexpired : ∀ arrives, stamped ≤ arrives → ∀ pseudonym lsTimeToLive online ownArk ttl,
    let sent := sender.sendLsp stamped pseudonym lsTimeToLive online ownArk
    receiver.validateTtl lsTtlMax arrives sent.microTimestamp sent.ttl = some ttl →
      ∀ now, arrives ≤ now →
        (Lsp.unexpired { sent with ttl } (receiver.time now) ↔ now < stamped + ttl * 10 ^ 6)
  /-- It is removed from the database after that time. -/
  kept : ∀ arrives, stamped ≤ arrives → ∀ pseudonym lsTimeToLive online ownArk ttl,
    let sent := sender.sendLsp stamped pseudonym lsTimeToLive online ownArk
    receiver.validateTtl lsTtlMax arrives sent.microTimestamp sent.ttl = some ttl →
      ∀ network : LinkStateNetwork, (sent.pseudonym, { sent with ttl }) ∈ network.database →
        ∀ now, arrives ≤ now →
          ((sent.pseudonym, { sent with ttl }) ∈
              network.databaseAfter (receiver.time now) .removeExpired ↔
            now ≤ stamped + ttl * 10 ^ 6)

variable {sender receiver : Host} {lsTtlMax stamped : ℤ}

/-- A host that is not on UTC cannot say how long its packets live. -/
theorem ZoneFree.utc_sender (free : ZoneFree sender receiver lsTtlMax stamped) :
    sender.utcOffset = 0 := by
  set sent := sender.sendLsp stamped [] 0 [] none with hsent
  obtain ⟨ttl, taken⟩ := Option.isSome_iff_exists.mp (free.lsp stamped le_rfl [] 0 [] none)
  let entry : Lsp := { sent with ttl }
  let network : LinkStateNetwork :=
    { pseudonym := [], neighborhood := [], database := [(sent.pseudonym, entry)] }
  have stamp : entry.microTimestamp = stamped - sender.utcOffset := rfl
  have long : 0 ≤ ttl := by
    unfold Host.validateTtl validateTtl at taken
    split_ifs at taken
    obtain rfl := Option.some.inj taken
    exact le_max_right _ _
  -- at the end of its life the packet is still kept, and it no longer counts
  have last := free.kept stamped le_rfl [] 0 [] none ttl taken network
    (List.mem_singleton_self _) (stamped + ttl * 10 ^ 6) (by omega)
  have over' := free.unexpired stamped le_rfl [] 0 [] none ttl taken (stamped + ttl * 10 ^ 6)
    (by omega)
  have kept : stamped + ttl * 10 ^ 6 ≤ entry.microTimestamp + ttl * 10 ^ 6 :=
    (mem_afterRemoval.mp (last.mpr le_rfl)).2
  have ended : ¬ stamped + ttl * 10 ^ 6 < entry.microTimestamp + ttl * 10 ^ 6 :=
    fun counts => absurd (over'.mp counts) (lt_irrefl _)
  omega

/-- **When time stamps do not depend on the time zones**: the sender is on UTC, and the receiver is
at most thirty seconds ahead of it. -/
theorem zoneFree_iff : ZoneFree sender receiver lsTtlMax stamped ↔
    sender.utcOffset = 0 ∧ receiver.utcOffset ≤ 30 * 10 ^ 6 := by
  constructor
  · intro free
    have utc := free.utc_sender
    have taken := accepts_iff.mp (free.lsp stamped le_rfl [] 0 [] none)
    have stamp : (sender.sendLsp stamped [] 0 [] none).microTimestamp =
        stamped - sender.utcOffset := rfl
    rw [stamp] at taken
    exact ⟨utc, by omega⟩
  · rintro ⟨utc, ahead⟩
    have stamp : sender.timestamp (sender.utcnow stamped) = stamped := by
      simp [Host.timestamp, Host.utcnow, utc]
    refine ⟨?_, ?_, ?_, ?_⟩
    · intro arrives later originator nonce lsTimeToLive message
      refine accepts_iff.mpr ?_
      change stamped + _ ≤ _
      omega
    · intro arrives later pseudonym lsTimeToLive online ownArk
      refine accepts_iff.mpr ?_
      change sender.timestamp (sender.utcnow stamped) + _ ≤ _
      omega
    · intro arrives later pseudonym lsTimeToLive online ownArk ttl sent taken now after
      change now < sender.timestamp (sender.utcnow stamped) + ttl * 10 ^ 6 ↔ _
      rw [stamp]
    · intro arrives later pseudonym lsTimeToLive online ownArk ttl sent taken network mem now after
      rw [mem_afterRemoval, and_iff_right mem]
      change now ≤ sender.timestamp (sender.utcnow stamped) + ttl * 10 ^ 6 ↔ _
      rw [stamp]

/-! ### An hour ahead of UTC -/

/-- A host on UTC. -/
def utcHost : Host := ⟨0⟩

/-- A host that is an hour ahead of UTC. -/
def eastHost : Host := ⟨3600 * 10 ^ 6⟩

/-- **Floods are refused east of Greenwich**: the host takes a flood of this very instant for one
from the future. -/
theorem east_rejects_floods (instant lsTtlMax : ℤ) (originator : Bytes) (nonce : FloodId)
    (lsTimeToLive : ℤ) (message : PrismMessage) :
    ¬ (eastHost.validateTtl lsTtlMax instant
      (utcHost.flood instant originator nonce lsTimeToLive message).microTimestamp
      lsTimeToLive).isSome := by
  intro taken
  have early := accepts_iff.mp taken
  simp only [Host.flood, Host.time, eastHost] at early
  omega

/-- So time stamps depend on the time zones of the two hosts. -/
theorem zone_decides_freshness :
    ¬ ∀ (sender receiver : Host) (lsTtlMax stamped : ℤ),
      ZoneFree sender receiver lsTtlMax stamped := by
  intro free
  have flood := (free utcHost eastHost 600 0).flood 0 le_rfl [] none 60
    (PrismMessage.create 0 .lsp [])
  exact east_rejects_floods 0 600 [] none 60 _ flood

/-- A packet with ten minutes to live has expired when it is sent by the host that is ahead. -/
theorem east_lsp_expires (instant : ℤ) :
    ¬ (eastHost.sendLsp instant [1] 600 [] none).unexpired (utcHost.time instant) := by
  change ¬ instant < instant - 3600 * 10 ^ 6 + 600 * 10 ^ 6
  omega

end Prism.Routing
