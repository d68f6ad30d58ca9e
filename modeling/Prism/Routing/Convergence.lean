import Mathlib.Data.List.MinMax
import Prism.Routing.Announcing

/-!
Routers that receive the same link state packets agree
(`handle_lsp` in `prism/server/routing/router_ls.py`).

A packet is taken when it is newer than the one that is known of its originator, and only then
its announcement is recorded, which replaces one that expires earlier. Packets come on links, in
floods over the local link, or in the database of a neighbor, in any order and any number of
times. A packet from too far in the future is ignored when it comes.

* `handleLsp_ignores`, `handleLsp_takes`: what a packet does.
* `Tracks.packet`, `Tracks.step`: what a router knows of the packets that it has accepted.
* `router_converges`: it ends with the newest of them, and with the announcement in it until that
  expires.
* `routers_converge`: routers that accepted the same packets agree.
-/

namespace Prism.Routing

open Lib Crypto

namespace AnnouncingRole

/-! ### Packets and deliveries -/

/-- A link state packet in a message, with the announcement of its originator. -/
structure Packet where
  message : PrismMessage
  type : msgTypeOf message = some .lsp
  originator : Bytes
  microTimestamp : ℤ
  ttl : ℤ
  neighbors : List NeighborInfo
  ark : PrismMessage
  expires : ℤ
  read : Lsp.ofMessage message = .ok
    ⟨some originator, microTimestamp, ttl, some (neighbors.map some), some ark⟩
  announced : isArk ark = true
  expiration : utcfromtimestamp (ark.get .expiration) = .ok expires
  own : pseudonymOf ark = some originator

/-- What is kept of a packet: its time to live is kept in bounds. -/
def Packet.entry (a : Packet) (lsTtlMax : ℤ) : Lsp :=
  ⟨some a.originator, a.microTimestamp, max (min a.ttl lsTtlMax) 0, some (a.neighbors.map some),
    some a.ark⟩

/-- A packet that is not from more than thirty seconds in the future. -/
def Packet.timely (a : Packet) (now : ℤ) : Bool := a.microTimestamp ≤ now + 30 * 10 ^ 6

/-- The database of a neighbor in a message. -/
structure DbResponse where
  message : PrismMessage
  type : msgTypeOf message = some .lspDatabaseResponse
  sender : Bytes
  sent : (message.get .sender).bytes? = some sender
  packets : List Packet
  listed : submessagesOf message = some (packets.map fun a => some a.message)

/-- What a router gets: a packet, from a link or out of a flood from the local link, or a
database. In between it removes packets that have expired. -/
inductive Delivery where
  | lsp (packet : Packet)
  | database (response : DbResponse)
  | removeExpired

/-- What a router does with a delivery, at a time. -/
def deliver (env : RoleEnv) (now : ℤ) : Delivery → Program
  | .lsp packet => receive env now packet.message
  | .database response => receive env now response.message
  | .removeExpired => removeExpired env now

/-- The router, from a state on. -/
def deliveries (env : RoleEnv) (init : AnnouncingRole) :
    Machine AnnouncingRole (ℤ × Delivery) (Py PUnit) where
  init
  step role event := (deliver env event.1 event.2).exec role

/-- The packets of a delivery that the router accepts. A database from a sender that is no
neighbor is not read. -/
def acceptedOf (neighborhood : Neighborhood) : ℤ × Delivery → List Packet
  | (now, .lsp a) => [a].filter (·.timely now)
  | (now, .database response) =>
    if (neighborhood.lookup response.sender).isSome then
      response.packets.filter (·.timely now) else []
  | (_, .removeExpired) => []

/-- The packets that the router accepts. -/
def accepted (init : AnnouncingRole) (events : List (ℤ × Delivery)) : List Packet :=
  events.flatMap (acceptedOf init.network.neighborhood)

/-! ### One packet -/

section Packet

variable {env : RoleEnv} {now : ℤ} {role : AnnouncingRole}

/-- All packets in the database can be read. -/
def Readable (network : LinkStateNetwork) : Prop :=
  ∀ e ∈ network.database, ∃ (source : Bytes) (neighbors : List NeighborInfo),
    e.1 = some source ∧ e.2.neighbors = some (neighbors.map some)

theorem Readable.edges {network : LinkStateNetwork} (readable : Readable network) (now : ℤ) :
    ∃ edges, network.edges now = .ok edges := by
  have each : ∀ e ∈ network.database, ∃ found : List (Bytes × Bytes),
      LinkStateNetwork.edgesOf now e.1 e.2 = .ok (found.map fun edge => (some edge.1, edge.2)) := by
    intro e mem
    obtain ⟨source, neighbors, key, listed⟩ := readable e mem
    unfold LinkStateNetwork.edgesOf
    rw [listed, key]
    dsimp only
    split_ifs
    · refine ⟨neighbors.map fun neighbor => (source, neighbor.pseudonym), ?_⟩
      rw [List.mapM_map, List.map_map]
      exact mapM_ok fun neighbor _ => rfl
    · exact ⟨[], rfl⟩
  choose! found run using each
  refine ⟨network.database.flatMap found, ?_⟩
  unfold LinkStateNetwork.edges
  have keys : (network.database.map fun e =>
      (found e).map fun edge => (some edge.1, edge.2)).flatten =
        (network.database.flatMap found).map fun edge => (some edge.1, edge.2) := by
    rw [List.map_flatMap, List.flatMap_def]
  rw [mapM_ok run, ok_bind, keys, List.mapM_map]
  exact (mapM_ok (g := id) fun edge _ => rfl).trans (by rw [List.map_id])

/-- The router takes the packet: it is timely, and newer than the one that is known. -/
def Takes (role : AnnouncingRole) (now : ℤ) (a : Packet) : Prop :=
  a.timely now = true ∧ ∀ original, role.network.database.lookup (some a.originator) =
    some original → original.microTimestamp < a.microTimestamp

/-- A timely packet that is not taken is not newer than what is known. -/
theorem exists_newer {a : Packet} (timely : a.timely now = true) (ignored : ¬ Takes role now a) :
    ∃ original, role.network.database.lookup (some a.originator) = some original ∧
      a.microTimestamp ≤ original.microTimestamp := by
  by_contra none
  push Not at none
  exact ignored ⟨timely, none⟩

/-- A packet that is not taken changes nothing. -/
theorem handleLsp_ignores {a : Packet} (ignored : ¬ Takes role now a) :
    (handleLsp env now (some a.message)).exec role = (role, .ok ⟨⟩) := by
  rw [exec_handleLsp, a.read]
  dsimp only
  unfold validateTtl
  split_ifs with future
  · rfl
  have timely : a.timely now = true := decide_eq_true (not_lt.mp future)
  obtain ⟨original, known, newer⟩ := exists_newer timely ignored
  have old : role.network.update env.shortestPath now
      ⟨some a.originator, a.microTimestamp, max (min a.ttl env.lsTtlMax) 0,
        some (a.neighbors.map some), some a.ark⟩ = (role.network, .ok false) := by
    unfold LinkStateNetwork.update
    rw [known, Option.any_some, if_pos (decide_eq_true newer)]
  dsimp only
  rw [old]

/-- A packet that is taken is kept, and its announcement is recorded. -/
theorem handleLsp_takes (readable : Readable role.network) (keyed : role.arkStore.Keyed)
    {a : Packet} (takes : Takes role now a) :
    ∃ network arkStore, (handleLsp env now (some a.message)).exec role =
        ({ role with network, arkStore }, .ok ⟨⟩) ∧
      network.database =
        dictSet role.network.database (some a.originator) (a.entry env.lsTtlMax) ∧
      network.neighborhood = role.network.neighborhood ∧
      role.arkStore.record now a.ark false = .ok arkStore := by
  obtain ⟨timely, newer⟩ := takes
  have known : ((role.network.database.lookup (some a.originator)).any fun original =>
      decide (a.microTimestamp ≤ original.microTimestamp)) ≠ true := by
    cases found : role.network.database.lookup (some a.originator) with
    | none => simp
    | some original => simpa using newer original found
  set stored : LinkStateNetwork := { role.network with
    database := dictSet role.network.database (some a.originator) (a.entry env.lsTtlMax) }
    with hstored
  have readable' : Readable stored := by
    intro e mem
    rcases mem_dictSet.mp mem with rfl | ⟨mem, -⟩
    · exact ⟨a.originator, a.neighbors, rfl, rfl⟩
    · exact readable e mem
  obtain ⟨edges, run⟩ := readable'.edges now
  have updated : stored.updateRoutingTable env.shortestPath now = .ok
      (if LinkStateNetwork.hasNode edges stored.pseudonym then
        stored.withTable (env.shortestPath edges stored.pseudonym) else stored) :=
    (LinkStateNetwork.updateRoutingTable_ok _ _).mpr ⟨edges, run, rfl⟩
  set network := if LinkStateNetwork.hasNode edges stored.pseudonym then
    stored.withTable (env.shortestPath edges stored.pseudonym) else stored with hnetwork
  have update : role.network.update env.shortestPath now (a.entry env.lsTtlMax) =
      (network, .ok true) := LinkStateNetwork.update_newer _ _ known updated
  obtain ⟨arkStore, record, -⟩ :=
    @ArkStore.lookup_record now _ _ _ _ keyed a.announced a.expiration a.own
  refine ⟨network, arkStore, ?_, ?_, ?_, record⟩
  · rw [exec_handleLsp, a.read]
    dsimp only
    rw [validateTtl_isSome (of_decide_eq_true timely)]
    dsimp only
    have update' : role.network.update env.shortestPath now
      ⟨some a.originator, a.microTimestamp, max (min a.ttl env.lsTtlMax) 0,
        some (a.neighbors.map some), some a.ark⟩ = (network, .ok true) := update
    rw [update']
    dsimp only
    rw [exec_recordArk, record]
  · rw [hnetwork]
    split_ifs <;> rfl
  · rw [hnetwork]
    split_ifs <;> rfl

end Packet

/-! ### What a router knows of the packets it has accepted -/

/-- The packet is the newest of its originator among some packets. -/
def Newest (S : Packet → Prop) (top : Packet) : Prop :=
  S top ∧ ∀ a, S a → a.originator = top.originator → a.microTimestamp ≤ top.microTimestamp

/-- The packets of each originator have different times, and later ones carry announcements that
expire later. -/
structure Consistent (S : Packet → Prop) : Prop where
  distinct : ∀ a b, S a → S b → a.originator = b.originator →
    a.microTimestamp = b.microTimestamp → a = b
  later : ∀ a b, S a → S b → a.originator = b.originator →
    a.microTimestamp < b.microTimestamp → a.expires < b.expires

/-- A record has what a packet announces. -/
def Packet.Announces (a : Packet) (record : ServerRecord) : Prop :=
  record.ark = a.ark ∧ record.expiration = a.expires

/-- **What a router knows of an originator**, of the packets that it has accepted: what it keeps
comes from them. Where no packet is removed too early it keeps the newest packet, and until a
time it keeps the announcement in it. -/
structure Tracks (env : RoleEnv) (init : AnnouncingRole) (S : Packet → Prop) (p : Bytes)
    (undisturbed : Prop) (T : ℤ) (role : AnnouncingRole) (got : List Packet) : Prop where
  readable : Readable role.network
  nodup : (role.network.database.map Prod.fst).Nodup
  keyed : role.arkStore.Keyed
  neighbors : ∀ sender, (role.network.neighborhood.lookup sender).isSome =
    (init.network.neighborhood.lookup sender).isSome
  sub : ∀ a ∈ got, S a
  entry : ∀ lsp, role.network.database.lookup (some p) = some lsp →
    ∃ a ∈ got, a.originator = p ∧ lsp = a.entry env.lsTtlMax
  record : ∀ record, role.arkStore.servers.lookup (some p) = some record →
    ∃ a ∈ got, a.originator = p ∧ a.Announces record
  newestEntry : undisturbed → ∀ top ∈ got, Newest S top → top.originator = p →
    role.network.database.lookup (some p) = some (top.entry env.lsTtlMax)
  newestArk : ∀ top ∈ got, Newest S top → top.originator = p → T < top.expires →
    ∃ record, role.arkStore.servers.lookup (some p) = some record ∧ top.Announces record

section Tracks

variable {env : RoleEnv} {init role : AnnouncingRole} {S : Packet → Prop} {p : Bytes}
  {undisturbed : Prop} {now T : ℤ} {got : List Packet}

/-- No announcement expires later than the one in the newest packet. -/
theorem Newest.expires_le {top a : Packet} (newest : Newest S top) (consistent : Consistent S)
    (inS : S a) (same : a.originator = top.originator) : a.expires ≤ top.expires := by
  rcases (newest.2 a inS same).lt_or_eq with lt | eq
  · exact (consistent.later a top inS newest.1 same lt).le
  · rw [consistent.distinct a top inS newest.1 same eq]

/-- The record that is kept, of a newer announcement and the known one. -/
theorem keptAfter_cases {store : ArkStore} {ark : PrismMessage} {expires : ℤ}
    {record : ServerRecord} (kept : store.keptAfter now p ark expires = some record) :
    (record.ark = ark ∧ record.expiration = expires) ∨
      store.servers.lookup (some p) = some record := by
  unfold ArkStore.keptAfter at kept
  cases known : store.servers.lookup (some p) with
  | none =>
      rw [known] at kept
      dsimp only at kept
      split_ifs at kept
      exact .inl (Option.some.inj kept ▸ ⟨rfl, rfl⟩)
  | some before =>
      rw [known] at kept
      dsimp only at kept
      split_ifs at kept
      · exact .inl (Option.some.inj kept ▸ ⟨rfl, rfl⟩)
      · exact .inr kept

/-- An announcement that has not expired, and that expires no earlier than the known one, is
kept, or the known one expires with it. -/
theorem keptAfter_latest {store : ArkStore} {ark : PrismMessage} {expires : ℤ}
    (valid : now < expires)
    (latest : ∀ known, store.servers.lookup (some p) = some known → known.expiration ≤ expires)
    (same : ∀ known, store.servers.lookup (some p) = some known → known.expiration = expires →
      known.ark = ark) :
    ∃ record, store.keptAfter now p ark expires = some record ∧ record.ark = ark ∧
      record.expiration = expires := by
  unfold ArkStore.keptAfter
  cases known : store.servers.lookup (some p) with
  | none => exact ⟨_, if_pos (decide_eq_true valid), rfl, rfl⟩
  | some before =>
      dsimp only
      rcases (latest before known).lt_or_eq with lt | eq
      · rw [if_pos lt]
        exact ⟨_, if_pos (decide_eq_true valid), rfl, rfl⟩
      · rw [if_neg (not_lt.mpr eq.ge)]
        exact ⟨before, if_pos (decide_eq_true (eq ▸ valid)), same before known eq, eq⟩

/-- A known announcement that expires no earlier, and has not expired, stays. -/
theorem keptAfter_known {store : ArkStore} {ark : PrismMessage} {expires : ℤ}
    {known : ServerRecord} (found : store.servers.lookup (some p) = some known)
    (valid : now < known.expiration) (latest : expires ≤ known.expiration) :
    store.keptAfter now p ark expires = some known := by
  unfold ArkStore.keptAfter
  rw [found]
  dsimp only
  rw [if_neg (not_lt.mpr latest)]
  exact if_pos (decide_eq_true valid)

theorem Tracks.sub_concat (tracks : Tracks env init S p undisturbed T role got) {a : Packet}
    (inS : S a) : ∀ b ∈ got ++ [a], S b := by
  intro b mem
  rcases List.mem_append.mp mem with before | here
  · exact tracks.sub b before
  · rwa [List.mem_singleton.mp here]

/-- A packet that is not newer is the newest one only if that had been accepted before. -/
theorem Tracks.ignored (tracks : Tracks env init S p undisturbed T role got)
    (consistent : Consistent S) {a : Packet} (inS : S a) (timely : a.timely now = true)
    (ignored : ¬ Takes role now a) : Tracks env init S p undisturbed T role (got ++ [a]) := by
  have seen : Newest S a → a.originator = p → a ∈ got := by
    intro newest own
    subst own
    obtain ⟨original, known, newer⟩ := exists_newer timely ignored
    obtain ⟨b, mem, same, rfl⟩ := tracks.entry original known
    have eq := le_antisymm (newest.2 b (tracks.sub b mem) same) newer
    rwa [← consistent.distinct b a (tracks.sub b mem) inS same eq]
  have seen' : ∀ top ∈ got ++ [a], Newest S top → top.originator = p → top ∈ got := by
    intro top mem newest own
    rcases List.mem_append.mp mem with before | here
    · exact before
    · rw [List.mem_singleton.mp here] at newest own ⊢
      exact seen newest own
  refine { tracks with
    sub := tracks.sub_concat inS
    entry := fun lsp found => ?_
    record := fun record found => ?_
    newestEntry := fun calm top mem newest own =>
      tracks.newestEntry calm top (seen' top mem newest own) newest own
    newestArk := fun top mem newest own =>
      tracks.newestArk top (seen' top mem newest own) newest own }
  · obtain ⟨b, mem, rest⟩ := tracks.entry lsp found
    exact ⟨b, List.mem_append_left _ mem, rest⟩
  · obtain ⟨b, mem, rest⟩ := tracks.record record found
    exact ⟨b, List.mem_append_left _ mem, rest⟩

/-- When a packet of the originator is taken, the announcement in the newest one is kept. -/
theorem Tracks.keptAfter_newest (tracks : Tracks env init S p undisturbed T role got)
    (consistent : Consistent S) (ends : now ≤ T) {a : Packet} (inS : S a) (own : a.originator = p)
    {top : Packet} (mem : top ∈ got ++ [a]) (newest : Newest S top) (same : top.originator = p)
    (lasts : T < top.expires) :
    ∃ record, role.arkStore.keptAfter now p a.ark a.expires = some record ∧
      top.Announces record := by
  rcases List.mem_append.mp mem with before | last
  · obtain ⟨known, found, announces⟩ := tracks.newestArk top before newest same lasts
    refine ⟨known, keptAfter_known found ?_ ?_, announces⟩
    · rw [announces.2]
      exact ends.trans_lt lasts
    · rw [announces.2]
      exact newest.expires_le consistent inS (own.trans same.symm)
  · obtain rfl := List.mem_singleton.mp last
    refine keptAfter_latest (ends.trans_lt lasts) (fun known found => ?_)
      fun known found eq => ?_
    · obtain ⟨b, mem, known, announces⟩ := tracks.record known found
      rw [announces.2]
      exact newest.expires_le consistent (tracks.sub b mem) (known.trans own.symm)
    · obtain ⟨b, mem, known, announces⟩ := tracks.record known found
      have sameOrigin := known.trans own.symm
      rcases (newest.2 b (tracks.sub b mem) sameOrigin).lt_or_eq with lt | eq'
      · have earlier := consistent.later b top (tracks.sub b mem) inS sameOrigin lt
        rw [announces.2] at eq
        exact absurd eq earlier.ne
      · rw [announces.1, consistent.distinct b top (tracks.sub b mem) inS sameOrigin eq']

/-- What is stored of a packet that is taken. -/
theorem Tracks.taken (tracks : Tracks env init S p undisturbed T role got)
    (consistent : Consistent S) (ends : now ≤ T) {a : Packet} (inS : S a)
    (takes : Takes role now a) {network : LinkStateNetwork} {arkStore : ArkStore}
    (database : network.database =
      dictSet role.network.database (some a.originator) (a.entry env.lsTtlMax))
    (neighborhood : network.neighborhood = role.network.neighborhood)
    (recorded : role.arkStore.record now a.ark false = .ok arkStore) :
    Tracks env init S p undisturbed T { role with network, arkStore } (got ++ [a]) := by
  obtain ⟨after, recorded', keyed, -, others, own⟩ :=
    @ArkStore.lookup_record now _ _ _ _ tracks.keyed a.announced a.expiration a.own
  obtain rfl : arkStore = after := Except.ok.inj (recorded.symm.trans recorded')
  have readable : Readable network := by
    intro e mem
    rw [database] at mem
    rcases mem_dictSet.mp mem with rfl | ⟨mem, -⟩
    · exact ⟨a.originator, a.neighbors, rfl, rfl⟩
    · exact tracks.readable e mem
  have nodup : (network.database.map Prod.fst).Nodup := by
    rw [database]
    exact nodup_dictSet tracks.nodup _ _
  have neighbors : ∀ sender, (network.neighborhood.lookup sender).isSome =
      (init.network.neighborhood.lookup sender).isSome := by
    rw [neighborhood]
    exact tracks.neighbors
  have atEntry : ∀ q, network.database.lookup q =
      if q = some a.originator then some (a.entry env.lsTtlMax)
      else role.network.database.lookup q := by
    rw [database]
    exact fun q => lookup_dictSet _ _ _ _
  have sub := tracks.sub_concat inS
  by_cases here : a.originator = p
  · subst here
    refine ⟨readable, nodup, keyed, neighbors, sub, ?_, ?_, ?_, ?_⟩
    · intro lsp found
      rw [atEntry, if_pos rfl] at found
      exact ⟨a, by simp, rfl, (Option.some.inj found).symm⟩
    · intro record found
      rcases keptAfter_cases (own.symm.trans found) with announces | known
      · exact ⟨a, by simp, rfl, announces⟩
      · obtain ⟨b, mem, rest⟩ := tracks.record record known
        exact ⟨b, List.mem_append_left _ mem, rest⟩
    · intro calm top mem newest same
      rw [atEntry, if_pos rfl]
      rcases List.mem_append.mp mem with before | last
      · have older := takes.2 _ (tracks.newestEntry calm top before newest same)
        exact absurd (newest.2 a inS same.symm) (not_le.mpr older)
      · rw [List.mem_singleton.mp last]
    · intro top mem newest same lasts
      obtain ⟨record, kept, announces⟩ :=
        tracks.keptAfter_newest consistent ends inS rfl mem newest same lasts
      exact ⟨record, own.trans kept, announces⟩
  · have away : some p ≠ some a.originator := fun same => here (Option.some.inj same).symm
    have before : ∀ top ∈ got ++ [a], top.originator = p → top ∈ got := by
      intro top mem same
      rcases List.mem_append.mp mem with before | last
      · exact before
      · exact absurd (List.mem_singleton.mp last ▸ same) here
    refine ⟨readable, nodup, keyed, neighbors, sub, ?_, ?_, ?_, ?_⟩
    · intro lsp found
      rw [atEntry, if_neg away] at found
      obtain ⟨b, mem, rest⟩ := tracks.entry lsp found
      exact ⟨b, List.mem_append_left _ mem, rest⟩
    · intro record found
      obtain ⟨b, mem, rest⟩ := tracks.record record ((others _ away).symm.trans found)
      exact ⟨b, List.mem_append_left _ mem, rest⟩
    · intro calm top mem newest same
      rw [atEntry, if_neg away]
      exact tracks.newestEntry calm top (before top mem same) newest same
    · intro top mem newest same lasts
      obtain ⟨record, found, announces⟩ :=
        tracks.newestArk top (before top mem same) newest same lasts
      exact ⟨record, (others _ away).trans found, announces⟩

/-- **A packet is handled**, and no exception is raised. -/
theorem Tracks.packet (tracks : Tracks env init S p undisturbed T role got)
    (consistent : Consistent S) {a : Packet} (inS : a.timely now → S a) (ends : now ≤ T) :
    ∃ role', (handleLsp env now (some a.message)).exec role = (role', .ok ⟨⟩) ∧
      Tracks env init S p undisturbed T role' (got ++ [a].filter (·.timely now)) := by
  by_cases timely : a.timely now = true
  · have inS := inS timely
    have one : [a].filter (·.timely now) = [a] := by simp [timely]
    rw [one]
    by_cases takes : Takes role now a
    · obtain ⟨network, arkStore, run, database, neighborhood, recorded⟩ :=
        @handleLsp_takes env _ _ tracks.readable tracks.keyed _ takes
      exact ⟨{ role with network, arkStore }, run,
        tracks.taken consistent ends inS takes database neighborhood recorded⟩
    · exact ⟨role, handleLsp_ignores takes, tracks.ignored consistent inS timely takes⟩
  · have none : [a].filter (·.timely now) = [] := by simp [timely]
    rw [none, List.append_nil]
    exact ⟨role, handleLsp_ignores fun takes => timely takes.1, tracks⟩

/-- The packets of a database are handled one after the other. -/
theorem Tracks.packets (consistent : Consistent S) (ends : now ≤ T) {packets : List Packet}
    (tracks : Tracks env init S p undisturbed T role got)
    (inS : ∀ a ∈ packets, a.timely now → S a) :
    ∃ role', ((packets.map fun a => some a.message).forM fun lsp => handleLsp env now lsp).exec
        role = (role', .ok ⟨⟩) ∧
      Tracks env init S p undisturbed T role' (got ++ packets.filter (·.timely now)) := by
  induction packets generalizing role got with
  | nil =>
      rw [List.filter_nil, List.append_nil]
      exact ⟨role, rfl, tracks⟩
  | cons a packets ih =>
      obtain ⟨first, others⟩ := List.forall_mem_cons.mp inS
      obtain ⟨between, run, after⟩ := tracks.packet consistent first ends
      obtain ⟨role', rest, last⟩ := ih after others
      refine ⟨role', ?_, ?_⟩
      · rw [List.map_cons, Handler.exec_forM_cons, Handler.exec_bind_of_ok run, rest]
      · rwa [List.append_assoc, ← List.filter_append] at last

/-- A neighbor that is heard of stays one. -/
theorem Tracks.heardFrom (tracks : Tracks env init S p undisturbed T role got) (sender : Bytes) :
    Tracks env init S p undisturbed T (heardFrom now sender role) got := by
  refine { tracks with neighbors := fun other => ?_ }
  rw [← tracks.neighbors other, Bool.eq_iff_iff, List.lookup_isSome_iff, List.lookup_isSome_iff]
  constructor
  · rintro ⟨e, mem, key⟩
    obtain ⟨before, inside, rfl⟩ := List.mem_map.mp mem
    refine ⟨before, inside, ?_⟩
    split_ifs at key <;> exact key
  · rintro ⟨e, mem, key⟩
    refine ⟨_, List.mem_map_of_mem mem, ?_⟩
    split_ifs <;> exact key

/-- The expired packets are removed. -/
theorem Tracks.removeExpired (tracks : Tracks env init S p undisturbed T role got)
    (calm : undisturbed → ∀ top, Newest S top → top.originator = p →
      now ≤ top.microTimestamp + max (min top.ttl env.lsTtlMax) 0 * 10 ^ 6) :
    Tracks env init S p undisturbed T ((AnnouncingRole.removeExpired env now).exec role).1 got := by
  set q : Option Bytes × Lsp → Bool := fun e =>
    !decide (e.2.microTimestamp + e.2.ttl * 10 ^ 6 < now) with hq
  have database : ((AnnouncingRole.removeExpired env now).exec role).1.network.database =
      role.network.database.filter q := by
    change (role.network.removeExpired env.shortestPath now).1.database = _
    unfold LinkStateNetwork.removeExpired
    dsimp only
    split_ifs with any
    · split
      · next after run =>
          obtain ⟨edges, -, rfl⟩ := (LinkStateNetwork.updateRoutingTable_ok _ _).mp run
          split_ifs <;> rfl
      · rfl
    · refine (List.filter_eq_self.mpr fun e mem => ?_).symm
      have kept := List.any_eq_false.mp (Bool.eq_false_iff.mpr any) e mem
      rw [hq, Bool.not_eq_true']
      exact Bool.eq_false_iff.mpr kept
  have neighborhood : ((AnnouncingRole.removeExpired env now).exec role).1.network.neighborhood =
      role.network.neighborhood := by
    change (role.network.removeExpired env.shortestPath now).1.neighborhood = _
    unfold LinkStateNetwork.removeExpired
    dsimp only
    split_ifs
    · split
      · next after run =>
          obtain ⟨edges, -, rfl⟩ := (LinkStateNetwork.updateRoutingTable_ok _ _).mp run
          split_ifs <;> rfl
      · rfl
    · rfl
  have atEntry : ((AnnouncingRole.removeExpired env now).exec role).1.network.database.lookup
      (some p) = (role.network.database.lookup (some p)).filter fun lsp => q (some p, lsp) := by
    rw [database]
    exact lookup_filter tracks.nodup q _
  refine { tracks with
    readable := fun e mem => ?_
    nodup := ?_
    neighbors := fun sender => ?_
    entry := fun lsp found => ?_
    newestEntry := fun still top mem newest same => ?_ }
  · rw [database] at mem
    exact tracks.readable e (List.mem_of_mem_filter mem)
  · rw [database]
    exact tracks.nodup.sublist (List.filter_sublist.map _)
  · rw [neighborhood]
    exact tracks.neighbors sender
  · rw [atEntry, Option.filter_eq_some_iff] at found
    exact tracks.entry lsp found.1
  · rw [atEntry, tracks.newestEntry still top mem newest same, Option.filter_some]
    have alive := calm still top newest same
    exact if_pos (by simpa [hq, Packet.entry] using alive)

/-- **A delivery.** -/
theorem Tracks.step (consistent : Consistent S)
    (tracks : Tracks env init S p undisturbed T role got) {event : ℤ × Delivery}
    (inS : ∀ a ∈ acceptedOf init.network.neighborhood event, S a) (ends : event.1 ≤ T)
    (calm : event.2 = .removeExpired → undisturbed → ∀ top, Newest S top → top.originator = p →
      event.1 ≤ top.microTimestamp + max (min top.ttl env.lsTtlMax) 0 * 10 ^ 6) :
    Tracks env init S p undisturbed T (((deliveries env init).step role event).1)
      (got ++ acceptedOf init.network.neighborhood event) := by
  obtain ⟨now, delivery⟩ := event
  cases delivery with
  | lsp a =>
      obtain ⟨heard, source, tracks⟩ : ∃ heard, (noteSource now a.message).exec role =
          (heard, .ok ⟨⟩) ∧ Tracks env init S p undisturbed T heard got := by
        unfold noteSource
        cases (a.message.get .sender).bytes? with
        | some sender => exact ⟨_, rfl, tracks.heardFrom sender⟩
        | none =>
            refine ⟨role, ?_, tracks⟩
            simp [a.type]
      obtain ⟨role', run, after⟩ := tracks.packet consistent
        (fun timely => inS a (by simp [acceptedOf, timely])) ends
      have received : (receive env now a.message).exec role = (role', .ok ⟨⟩) := by
        unfold receive
        rw [a.type]
        dsimp only
        rw [Handler.exec_bind_of_ok source, run]
      change Tracks env init S p undisturbed T ((receive env now a.message).exec role).1 _
      rw [received]
      exact after
  | database response =>
      have source : (noteSource now response.message).exec role =
          (AnnouncingRole.heardFrom now response.sender role, .ok ⟨⟩) := by
        unfold noteSource
        rw [response.sent]
        rfl
      have tracks := @Tracks.heardFrom env init role S p undisturbed now T got tracks response.sender
      have received : (receive env now response.message).exec role =
          (handleDbResponse env now response.message).exec
            (AnnouncingRole.heardFrom now response.sender role) := by
        unfold receive
        rw [response.type]
        dsimp only
        rw [Handler.exec_bind_of_ok source]
      change Tracks env init S p undisturbed T ((receive env now response.message).exec role).1 _
      rw [received, handleDbResponse, response.listed]
      dsimp only
      rw [Handler.exec_bind_of_ok (Handler.exec_get _), response.sent]
      dsimp only [Option.bind_some]
      have unknown : ((AnnouncingRole.heardFrom now response.sender role).network.neighborhood.lookup
          response.sender).isNone = !(init.network.neighborhood.lookup response.sender).isSome := by
        rw [← Option.not_isSome, tracks.neighbors response.sender]
      by_cases known : (init.network.neighborhood.lookup response.sender).isSome
      · rw [if_neg (by simp [unknown, known])]
        have accepted : acceptedOf init.network.neighborhood (now, .database response) =
            response.packets.filter (·.timely now) := if_pos known
        rw [accepted] at inS ⊢
        obtain ⟨role', run, after⟩ := Tracks.packets consistent ends tracks
          fun a mem timely => inS a (List.mem_filter.mpr ⟨mem, timely⟩)
        rw [run]
        exact after
      · rw [if_pos (by simp [unknown, known])]
        have none : acceptedOf init.network.neighborhood (now, .database response) = [] :=
          if_neg known
        rw [none, List.append_nil]
        exact tracks
  | removeExpired =>
      change Tracks env init S p undisturbed T _ (got ++ [])
      rw [List.append_nil]
      exact tracks.removeExpired (calm rfl)

/-- The router knows nothing of the originator yet, and what it knows can be read. -/
structure Starts (init : AnnouncingRole) (p : Bytes) : Prop where
  readable : Readable init.network
  nodup : (init.network.database.map Prod.fst).Nodup
  keyed : init.arkStore.Keyed
  noEntry : init.network.database.lookup (some p) = none
  noRecord : init.arkStore.servers.lookup (some p) = none

/-- **A run.** -/
theorem run_tracks (start : Starts init p) (consistent : Consistent S)
    {events : List (ℤ × Delivery)} (inS : ∀ a ∈ accepted init events, S a)
    (ends : ∀ event ∈ events, event.1 ≤ T)
    (calm : undisturbed → ∀ now, (now, Delivery.removeExpired) ∈ events → ∀ top, Newest S top →
      top.originator = p → now ≤ top.microTimestamp + max (min top.ttl env.lsTtlMax) 0 * 10 ^ 6) :
    Tracks env init S p undisturbed T ((deliveries env init).run events).1
      (accepted init events) := by
  induction events using List.reverseRecOn with
  | nil =>
      refine ⟨start.readable, start.nodup, start.keyed, fun _ => rfl, by simp [accepted], ?_, ?_,
        by simp [accepted], by simp [accepted]⟩
      · intro lsp found
        exact absurd (start.noEntry.symm.trans found) (by simp)
      · intro record found
        exact absurd (start.noRecord.symm.trans found) (by simp)
  | append_singleton events event ih =>
      have split : accepted init (events ++ [event]) =
          accepted init events ++ acceptedOf init.network.neighborhood event := by
        simp [accepted]
      rw [split] at inS ⊢
      have before := ih (fun a mem => inS a (List.mem_append_left _ mem))
        (fun e mem => ends e (List.mem_append_left _ mem))
        fun still now mem => calm still now (List.mem_append_left _ mem)
      rw [Machine.run_concat]
      refine before.step consistent (fun a mem => inS a (List.mem_append_right _ mem))
        (ends event (by simp)) fun removal still => calm still event.1 ?_
      rw [← removal]
      simp

end Tracks

/-! ### Convergence -/

/-- The announcement of a server in the store, unless it has expired. -/
def unexpiredArk (role : AnnouncingRole) (now : ℤ) (p : Bytes) : Option PrismMessage :=
  ((role.arkStore.servers.lookup (some p)).filter (·.valid now)).map ServerRecord.ark

/-- No removal finds the newest packet of an originator expired. -/
def Undisturbed (env : RoleEnv) (init : AnnouncingRole) (events : List (ℤ × Delivery))
    (p : Bytes) : Prop :=
  ∀ now, (now, Delivery.removeExpired) ∈ events →
    ∀ top, Newest (· ∈ accepted init events) top → top.originator = p →
      now ≤ top.microTimestamp + max (min top.ttl env.lsTtlMax) 0 * 10 ^ 6

/-- A run that only delivers packets is undisturbed. -/
theorem undisturbed_of_delivers {env : RoleEnv} {init : AnnouncingRole}
    {events : List (ℤ × Delivery)} (delivers : ∀ event ∈ events, event.2 ≠ .removeExpired)
    (p : Bytes) : Undisturbed env init events p :=
  fun _ mem => absurd rfl (delivers _ mem)

/-- Of an originator with packets, one is the newest. -/
theorem exists_newest {packets : List Packet} {p : Bytes}
    (some_ : ∃ a ∈ packets, a.originator = p) :
    ∃ top, Newest (· ∈ packets) top ∧ top.originator = p := by
  classical
  obtain ⟨a, mem, own⟩ := some_
  set owns := packets.filter fun a => a.originator = p with howns
  have ne : owns ≠ [] := List.ne_nil_of_mem (List.mem_filter.mpr ⟨mem, decide_eq_true own⟩)
  obtain ⟨top, isTop⟩ := Option.ne_none_iff_exists'.mp
    (mt (List.argmax_eq_none (f := Packet.microTimestamp)).mp ne)
  obtain ⟨inOwns, largest, -⟩ := List.argmax_eq_some_iff.mp isTop
  obtain ⟨inPackets, own⟩ := List.mem_filter.mp inOwns
  have own := of_decide_eq_true own
  refine ⟨top, ⟨inPackets, fun b inPackets' same => ?_⟩, own⟩
  exact largest b (List.mem_filter.mpr ⟨inPackets', decide_eq_true (same.trans own)⟩)

/-- **What a router ends with**: the newest packet of each originator that it accepted, and the
announcement in it unless that has expired. -/
theorem router_converges {env : RoleEnv} {init : AnnouncingRole} {p : Bytes}
    (start : Starts init p) {events : List (ℤ × Delivery)} {T : ℤ}
    (ends : ∀ event ∈ events, event.1 ≤ T)
    (consistent : Consistent (· ∈ accepted init events)) :
    (∀ top, Newest (· ∈ accepted init events) top → top.originator = p →
      (Undisturbed env init events p →
        ((deliveries env init).run events).1.network.database.lookup (some p) =
          some (top.entry env.lsTtlMax)) ∧
      unexpiredArk ((deliveries env init).run events).1 T p =
        if T < top.expires then some top.ark else none) ∧
    ((∀ a ∈ accepted init events, a.originator ≠ p) →
      ((deliveries env init).run events).1.network.database.lookup (some p) = none ∧
      unexpiredArk ((deliveries env init).run events).1 T p = none) := by
  have tracks := @run_tracks env init (· ∈ accepted init events) p
    (Undisturbed env init events p) T start consistent events (fun a mem => mem) ends id
  constructor
  · intro top newest own
    refine ⟨fun calm => tracks.newestEntry calm top newest.1 newest own, ?_⟩
    unfold unexpiredArk
    split_ifs with lasts
    · obtain ⟨record, found, same, expires⟩ := tracks.newestArk top newest.1 newest own lasts
      have valid : record.valid T = true := decide_eq_true (expires.symm ▸ lasts)
      rw [found, Option.filter_some, if_pos valid, Option.map_some, same]
    · rw [Option.map_eq_none_iff, Option.filter_eq_none_iff]
      intro record found valid
      obtain ⟨a, mem, same, announces⟩ := tracks.record record found
      have earlier := newest.expires_le consistent mem (same.trans own.symm)
      have later : record.expiration > T := of_decide_eq_true valid
      rw [announces.2] at later
      exact lasts (later.trans_le earlier)
  · intro others
    have noEntry : ((deliveries env init).run events).1.network.database.lookup (some p) =
        none := by
      by_contra has
      obtain ⟨lsp, found⟩ := Option.ne_none_iff_exists'.mp has
      obtain ⟨a, mem, own, -⟩ := tracks.entry lsp found
      exact others a mem own
    refine ⟨noEntry, ?_⟩
    unfold unexpiredArk
    rw [Option.map_eq_none_iff, Option.filter_eq_none_iff]
    intro record found
    obtain ⟨a, mem, own, -⟩ := tracks.record record found
    exact absurd own (others a mem)

/-- **Link-state convergence.** Two routers that accepted the same packets, in any order, any
number of times and on any way, end with the same packet of each originator, and with the same
unexpired announcement: the newest packet, and the announcement in it. -/
theorem routers_converge {env₁ env₂ : RoleEnv} (bounds : env₁.lsTtlMax = env₂.lsTtlMax)
    {init₁ init₂ : AnnouncingRole} {p : Bytes} (start₁ : Starts init₁ p) (start₂ : Starts init₂ p)
    {events₁ events₂ : List (ℤ × Delivery)} {T : ℤ} (ends₁ : ∀ event ∈ events₁, event.1 ≤ T)
    (ends₂ : ∀ event ∈ events₂, event.1 ≤ T)
    (consistent : Consistent (· ∈ accepted init₁ events₁))
    (same : ∀ a, a ∈ accepted init₁ events₁ ↔ a ∈ accepted init₂ events₂) :
    (Undisturbed env₁ init₁ events₁ p → Undisturbed env₂ init₂ events₂ p →
      ((deliveries env₁ init₁).run events₁).1.network.database.lookup (some p) =
        ((deliveries env₂ init₂).run events₂).1.network.database.lookup (some p)) ∧
    unexpiredArk ((deliveries env₁ init₁).run events₁).1 T p =
      unexpiredArk ((deliveries env₂ init₂).run events₂).1 T p ∧
    ∀ top, Newest (· ∈ accepted init₁ events₁) top → top.originator = p →
      (Undisturbed env₁ init₁ events₁ p →
        ((deliveries env₁ init₁).run events₁).1.network.database.lookup (some p) =
          some (top.entry env₁.lsTtlMax)) ∧
      unexpiredArk ((deliveries env₁ init₁).run events₁).1 T p =
        if T < top.expires then some top.ark else none := by
  have sets : (fun a => a ∈ accepted init₁ events₁) = fun a => a ∈ accepted init₂ events₂ := by
    funext a
    exact propext (same a)
  obtain ⟨newest₁, none₁⟩ := @router_converges env₁ init₁ p start₁ events₁ T ends₁ consistent
  obtain ⟨newest₂, none₂⟩ := @router_converges env₂ init₂ p start₂ events₂ T ends₂
    (sets ▸ consistent)
  rw [← sets] at newest₂
  refine ⟨?_, ?_, newest₁⟩
  all_goals
    by_cases some_ : ∃ a ∈ accepted init₁ events₁, a.originator = p
  · obtain ⟨top, newest, own⟩ := exists_newest some_
    intro calm₁ calm₂
    rw [(newest₁ top newest own).1 calm₁, (newest₂ top newest own).1 calm₂, bounds]
  · push Not at some_
    intro _ _
    rw [(none₁ some_).1, (none₂ fun a mem => some_ a ((same a).mpr mem)).1]
  · obtain ⟨top, newest, own⟩ := exists_newest some_
    rw [(newest₁ top newest own).2, (newest₂ top newest own).2]
  · push Not at some_
    rw [(none₁ some_).2, (none₂ fun a mem => some_ a ((same a).mpr mem)).2]

/-! ### Two packets of one router -/

/-- An announcement of the server 9 that expires some seconds after the epoch. -/
def arkOf9 (seconds : ℤ) : PrismMessage :=
  PrismMessage.create 0 .announceRoleKey [(.pseudonym, .bytes [9]), (.expiration, .int seconds)]

/-- Its packet of a time, with an announcement. -/
def lspOf9 (microTimestamp seconds : ℤ) : PrismMessage :=
  PrismMessage.create 0 .lsp
    [(.pseudonym, .bytes [9]), (.microTimestamp, .int microTimestamp), (.ttl, .int 60),
     (.neighbors, .list []), (.subMsg, (arkOf9 seconds).toValue)]

/-- The packet of the time 0, whose announcement expires after 100 seconds. -/
def olderPacket : Packet :=
  ⟨lspOf9 0 100, rfl, [9], 0, 60, [], arkOf9 100, 100 * 10 ^ 6, rfl, rfl, rfl, rfl⟩

/-- A packet one second later, whose announcement expires after 200 seconds. -/
def newerPacket : Packet :=
  ⟨lspOf9 (10 ^ 6) 200, rfl, [9], 10 ^ 6, 60, [], arkOf9 200, 200 * 10 ^ 6, rfl, rfl, rfl, rfl⟩

theorem exampleRole_starts : Starts exampleRole [9] where
  readable := fun _ mem => nomatch mem
  nodup := List.nodup_nil
  keyed := fun _ mem => nomatch mem
  noEntry := rfl
  noRecord := rfl

/-- The packets in order, and the other way round with a repetition. -/
theorem packetsOf9_converge :
    ((deliveries exampleEnv exampleRole).run
        [(0, .lsp olderPacket), (5, .lsp newerPacket)]).1.network.database.lookup (some [9]) =
      ((deliveries exampleEnv exampleRole).run
        [(1, .lsp newerPacket), (2, .lsp olderPacket),
          (3, .lsp newerPacket)]).1.network.database.lookup
          (some [9]) ∧
    unexpiredArk ((deliveries exampleEnv exampleRole).run
        [(0, .lsp olderPacket), (5, .lsp newerPacket)]).1 10 [9] = some (arkOf9 200) := by
  have accepted₁ : accepted exampleRole [(0, .lsp olderPacket), (5, .lsp newerPacket)] =
      [olderPacket, newerPacket] := rfl
  have accepted₂ : accepted exampleRole
      [(1, .lsp newerPacket), (2, .lsp olderPacket), (3, .lsp newerPacket)] =
        [newerPacket, olderPacket, newerPacket] := rfl
  have consistent : Consistent (· ∈ [olderPacket, newerPacket]) := by
    constructor
    all_goals
      simp only [List.mem_cons, List.not_mem_nil, or_false]
      rintro a b (rfl | rfl) (rfl | rfl) -
    · exact fun _ => rfl
    · exact fun same => absurd same (by decide)
    · exact fun same => absurd same (by decide)
    · exact fun _ => rfl
    · exact fun lt => absurd lt (by decide)
    · exact fun _ => by decide
    · exact fun lt => absurd lt (by decide)
    · exact fun lt => absurd lt (by decide)
  have converge := @routers_converge exampleEnv exampleEnv rfl exampleRole exampleRole [9]
    exampleRole_starts exampleRole_starts [(0, .lsp olderPacket), (5, .lsp newerPacket)]
    [(1, .lsp newerPacket), (2, .lsp olderPacket), (3, .lsp newerPacket)] 10
    (by decide) (by decide) (by rwa [accepted₁]) (by
      intro a
      rw [accepted₁, accepted₂]
      simp only [List.mem_cons, List.not_mem_nil, or_false]
      tauto)
  obtain ⟨entries, -, newest⟩ := converge
  have isNewest : Newest (· ∈ accepted exampleRole
      [(0, .lsp olderPacket), (5, .lsp newerPacket)]) newerPacket := by
    rw [accepted₁]
    refine ⟨by simp, ?_⟩
    simp only [List.mem_cons, List.not_mem_nil, or_false]
    rintro a (rfl | rfl) _
    · decide
    · rfl
  refine ⟨entries ?_ ?_, (newest newerPacket isNewest rfl).2⟩
  · exact undisturbed_of_delivers (by simp) _
  · exact undisturbed_of_delivers (by simp) _

/-- **A packet from the future is ignored** when it comes, and a router that receives it later
keeps it: both have received the same packets, and do not agree. -/
theorem future_packet_diverges :
    Consistent (· ∈ [newerPacket]) ∧
    ((deliveries exampleEnv exampleRole).run
        [(-(60 * 10 ^ 6), .lsp newerPacket)]).1.network.database.lookup (some [9]) ≠
      ((deliveries exampleEnv exampleRole).run
        [(0, .lsp newerPacket)]).1.network.database.lookup (some [9]) := by
  constructor
  · constructor
    all_goals
      simp only [List.mem_singleton]
      rintro a b rfl rfl -
    · exact fun _ => rfl
    · exact fun lt => absurd lt (lt_irrefl _)
  · have ignored : ((deliveries exampleEnv exampleRole).run
        [(-(60 * 10 ^ 6), .lsp newerPacket)]).1.network.database.lookup (some [9]) = none := rfl
    have kept : ((deliveries exampleEnv exampleRole).run
        [(0, .lsp newerPacket)]).1.network.database.lookup (some [9]) =
          some (newerPacket.entry 3600) := rfl
    rw [ignored, kept]
    exact fun same => nomatch same

end AnnouncingRole

end Prism.Routing
