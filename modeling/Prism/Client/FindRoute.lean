import Mathlib.Data.Finset.Lattice.Basic
import Mathlib.Data.List.ReduceOption
import Prism.Client.Onion
import Prism.Client.Pseudonym
import Prism.Client.ServerStatus

/-!
How a client finds a route (`find_start` and `find_route` in `prism/client/routing.py`).

A route starts at an Emix that advertises a link address, and goes over as many others as it has
layers. When routes were used before, a start is preferred that has a channel which was not used,
and that was no start. The channel is drawn from the addresses of the start that is drawn, though
the channels were found for all candidates together: for a start without one of them nothing is
left to draw from. And where no channel is left that was not used, the used ones are taken, whether
they can be used now or not.

* `findStart_eq`: the candidates and their channels.
* `findRoute_iff`: when a route is found, whatever is drawn.
-/

namespace Prism.Client

open Lib

/-! ### Channels -/

/-- `ChannelStatus`. -/
inductive ChannelStatus where
  | undef | available | unavailable | enabled | disabled | starting | failed | unsupported
deriving DecidableEq, Repr

/-- `usable`. -/
def ChannelStatus.usable (self : ChannelStatus) : Bool := self = .available

/-- A channel of the transport, by its id and its status. -/
structure ChannelState where
  channelId : String
  status : ChannelStatus

/-- `address.channel_id`. An id that is not a text is that of no channel. -/
def channelIdOf : Value → Py (Option String)
  | .object .linkAddress fields =>
    match fieldOf ClassName.linkAddress.schema fields .channelId with
    | .str channelId => .ok (some channelId)
    | _ => .ok none
  | _ => .error .attributeError

/-- `[address.channel_id for address in server.ark.link_addresses]`. -/
def channelIds (server : Routing.ServerRecord) : Py (List String) :=
  match server.ark.get .linkAddresses with
  | .list addresses => List.reduceOption <$> addresses.mapM channelIdOf
  | _ => .error .typeError

/-- The channels of the transport that can be used. -/
def liveChannels (transport : List ChannelState) : Finset String :=
  ((transport.filter fun channel => channel.status.usable).map ChannelState.channelId).toFinset

/-- `server_channels`. -/
def serverChannels (transport : List ChannelState) (servers : List Routing.ServerRecord) :
    Py (Finset String) := do
  let channels ← servers.mapM channelIds
  return channels.flatten.toFinset ∩ liveChannels transport

/-! ### Servers that can be reached -/

/-- What a client goes by when it asks its database: the epoch, the time, the setting `ls_routing`
and the interval of the statuses. -/
structure ServerView where
  db : ServerDB
  currentEpoch : String
  now : ℤ
  lsRouting : Bool
  interval : ℤ

namespace ServerView

variable (self : ServerView)

/-- `can_reach`. -/
def canReach (server : Routing.ServerRecord) : Bool :=
  if !server.valid self.now then false
  else if !self.lsRouting then true
  else
    match self.db.statusDb.lookup server.pseudonym with
    | none => true
    | some status => status.alive self.interval

/-- `valid_emixes`. -/
def validEmixes : List Routing.ServerRecord :=
  (validServers self.now self.currentEpoch self.db.servers).filter fun server =>
    match server.ark.get .role with
    | .str role => role = "EMIX"
    | _ => false

/-- `reachable_emixes`. -/
def reachableEmixes : List Routing.ServerRecord := self.validEmixes.filter self.canReach

end ServerView

/-! ### Routes -/

/-- `MessageRoute`, with its channel. -/
structure ChannelRoute extends MessageRoute Routing.ServerRecord where
  channel : String

/-- `head`. -/
def ChannelRoute.head (self : ChannelRoute) : Py Routing.ServerRecord := pyIndex self.route 0

/-- What is drawn for a route: for each start the hops behind it, and the places of the route and of
the channel among those that are found. -/
structure RouteDraws where
  sample : Routing.ServerRecord → List Routing.ServerRecord → ℕ → List Routing.ServerRecord
  sample_subperm : ∀ start hops k, (sample start hops k).Subperm hops
  length_sample : ∀ start hops k, k ≤ hops.length → (sample start hops k).length = k
  route : ℕ → ℕ
  route_lt : ∀ n, 0 < n → route n < n
  channel : ℕ → ℕ
  channel_lt : ∀ n, 0 < n → channel n < n

/-- `random.choice`, by the place that is drawn. -/
def choice {α : Type} (place : ℕ → ℕ) (xs : List α) : Py α := pyIndex xs (place xs.length)

section Find

variable (view : ServerView) (transport : List ChannelState)

/-- The Emixes that advertise a link address. -/
def candidatePool : List Routing.ServerRecord :=
  view.reachableEmixes.filter fun server => (server.ark.get .linkAddresses).truthy

/-- `has_novel_channel`. -/
def hasNovelChannel (channelsUsed : Finset String) (server : Routing.ServerRecord) : Py Bool := do
  return (← serverChannels transport [server]) \ channelsUsed ≠ ∅

/-- The servers of a list that are not among the starts, or all of them if that leaves none. -/
def unusedStarts (startsUsed : List (Option Bytes)) (servers : List Routing.ServerRecord) :
    List Routing.ServerRecord :=
  let candidates := servers.filter fun server => server.pseudonym ∉ startsUsed
  if candidates = [] then servers else candidates

/-- The end of `find_start`, for the servers with a channel that was not used, if there are any. -/
def startFrom (channelsUsed : Finset String) (startsUsed : List (Option Bytes))
    (channelCandidates : List Routing.ServerRecord) :
    Py (List Routing.ServerRecord × Finset String) := do
  let candidates := unusedStarts startsUsed channelCandidates
  let channelsUnused ← serverChannels transport candidates
  if channelsUnused ⊆ channelsUsed then return (candidates, channelsUsed)
  else return (candidates, channelsUnused \ channelsUsed)

/-- `find_start`. -/
def findStart (routesUsed : List ChannelRoute) :
    Py (List Routing.ServerRecord × Finset String) :=
  let pool := candidatePool view
  if routesUsed = [] then do
    let channels ← serverChannels transport pool
    return (pool, channels)
  else do
    let heads ← routesUsed.mapM ChannelRoute.head
    if pool = [] then return ([], ∅)
    else
      let channelsUsed := (routesUsed.map ChannelRoute.channel).toFinset
      let novel ← pyFilter (hasNovelChannel transport channelsUsed) pool
      startFrom transport channelsUsed (heads.map Routing.ServerRecord.pseudonym)
        (if novel = [] then pool else novel)

/-- The route from a start, if there are enough hops. Records are kept under their pseudonyms. -/
def routeFrom (draws : RouteDraws) (layers : ℕ) (start : Routing.ServerRecord) :
    Option (List Routing.ServerRecord) :=
  let potentialHops := view.reachableEmixes.filter fun emix => emix.pseudonym ≠ start.pseudonym
  if potentialHops.length + 1 < layers then none
  else some (start :: draws.sample start potentialHops (layers - 1))

/-- `find_route`. -/
def findRoute (draws : RouteDraws) (target : Routing.ServerRecord) (layers : ℕ)
    (routesUsed : List ChannelRoute) : Py (Option ChannelRoute) :=
  if !view.canReach target then return none
  else do
    let (starts, channels) ← findStart view transport routesUsed
    let routes := starts.filterMap (routeFrom view draws layers)
    if routes = [] then return none
    else
      let route ← choice draws.route routes
      let head ← pyIndex route 0
      let addresses ← channelIds head
      let channel ← choice draws.channel (addresses.filter fun channel => channel ∈ channels)
      return some { route, target, timestamp := view.now, channel }

end Find

/-! ### What the servers advertise -/

/-- The addresses of a server can be read. -/
def Readable (server : Routing.ServerRecord) : Prop := Returns (channelIds server)

/-- The channels on which a server advertises an address. -/
def advertised (server : Routing.ServerRecord) : List String :=
  match channelIds server with
  | .ok channels => channels
  | .error _ => []

theorem Readable.channelIds_eq {server : Routing.ServerRecord} (readable : Readable server) :
    channelIds server = .ok (advertised server) := by
  obtain ⟨channels, run⟩ := readable
  rw [advertised, run]

/-- A server that advertises a channel has addresses. -/
theorem truthy_of_advertised {server : Routing.ServerRecord} {channel : String}
    (mem : channel ∈ advertised server) : (server.ark.get .linkAddresses).truthy = true := by
  unfold advertised channelIds at mem
  cases addresses : server.ark.get .linkAddresses with
  | list xs =>
      cases xs with
      | nil => simp [addresses, pure, Except.pure, Functor.map, Except.map,
          List.reduceOption_nil] at mem
      | cons x xs => rfl
  | _ => simp [addresses] at mem

section Channels

variable {transport : List ChannelState}

/-- The channels of some servers that can be used. -/
def servedChannels (transport : List ChannelState) (servers : List Routing.ServerRecord) :
    Finset String :=
  (servers.flatMap advertised).toFinset ∩ liveChannels transport

theorem mem_servedChannels {servers : List Routing.ServerRecord} {channel : String} :
    channel ∈ servedChannels transport servers ↔
      (∃ server ∈ servers, channel ∈ advertised server) ∧ channel ∈ liveChannels transport := by
  simp [servedChannels]

theorem serverChannels_eq {servers : List Routing.ServerRecord}
    (readable : ∀ server ∈ servers, Readable server) :
    serverChannels transport servers = .ok (servedChannels transport servers) := by
  have run := mapM_ok fun server mem => (readable server mem).channelIds_eq
  rw [serverChannels, run, ok_bind, ← List.flatMap_def]
  rfl

/-- The channels of servers are found where all their addresses can be read. -/
theorem returns_serverChannels {servers : List Routing.ServerRecord} :
    Returns (serverChannels transport servers) ↔ ∀ server ∈ servers, Readable server := by
  have goesOn : ∀ channels : List (List String),
      Returns (pure (channels.flatten.toFinset ∩ liveChannels transport) : Py (Finset String)) :=
    fun _ => ⟨_, rfl⟩
  rw [serverChannels, returns_bind_of goesOn, returns_mapM]
  rfl

/-- A server has a channel that can be used and was not. -/
def Novel (transport : List ChannelState) (channelsUsed : Finset String)
    (server : Routing.ServerRecord) : Prop :=
  ∃ channel ∈ advertised server, channel ∈ liveChannels transport ∧ channel ∉ channelsUsed

instance (channelsUsed : Finset String) (server : Routing.ServerRecord) :
    Decidable (Novel transport channelsUsed server) :=
  inferInstanceAs (Decidable (∃ channel ∈ advertised server, _))

theorem hasNovelChannel_eq {channelsUsed : Finset String} {server : Routing.ServerRecord}
    (readable : Readable server) : hasNovelChannel transport channelsUsed server =
      .ok (decide (Novel transport channelsUsed server)) := by
  have channels : serverChannels transport [server] = .ok (servedChannels transport [server]) :=
    serverChannels_eq (by simpa using readable)
  have novel : servedChannels transport [server] \ channelsUsed ≠ ∅ ↔
      Novel transport channelsUsed server := by
    rw [← Finset.nonempty_iff_ne_empty]
    simp [Finset.Nonempty, mem_servedChannels, Novel, and_assoc]
  rw [hasNovelChannel, channels, ok_bind, decide_eq_decide.mpr novel]
  rfl

/-- A server is asked for a novel channel only if its addresses can be read. -/
theorem readable_of_hasNovelChannel {channelsUsed : Finset String} {server : Routing.ServerRecord}
    (returns : Returns (hasNovelChannel transport channelsUsed server)) : Readable server := by
  obtain ⟨channels, run, -⟩ := returns_bind.mp returns
  have readable := returns_serverChannels.mp ⟨channels, run⟩
  exact readable server (List.mem_singleton_self server)

end Channels

/-! ### The starts -/

section Starts

variable {view : ServerView} {transport : List ChannelState} {routesUsed : List ChannelRoute}

/-- The channels of the routes that were used. -/
def channelsOf (routesUsed : List ChannelRoute) : Finset String :=
  (routesUsed.map ChannelRoute.channel).toFinset

/-- The pseudonyms of the starts that were used. -/
def startsOf (routesUsed : List ChannelRoute) : List (Option Bytes) :=
  routesUsed.filterMap fun route => route.route.head?.map Routing.ServerRecord.pseudonym

/-- The candidates of the pool that have a channel that was not used, or all of them. -/
def preferred (view : ServerView) (transport : List ChannelState)
    (routesUsed : List ChannelRoute) : List Routing.ServerRecord :=
  let novel := (candidatePool view).filter (Novel transport (channelsOf routesUsed) ·)
  unusedStarts (startsOf routesUsed) (if novel = [] then candidatePool view else novel)

theorem unusedStarts_subset {startsUsed : List (Option Bytes)}
    {servers : List Routing.ServerRecord} {server : Routing.ServerRecord}
    (mem : server ∈ unusedStarts startsUsed servers) : server ∈ servers := by
  unfold unusedStarts at mem
  dsimp only at mem
  split_ifs at mem with none
  · exact mem
  · exact (List.mem_filter.mp mem).1

theorem unusedStarts_eq_nil {startsUsed : List (Option Bytes)}
    {servers : List Routing.ServerRecord} :
    unusedStarts startsUsed servers = [] ↔ servers = [] := by
  unfold unusedStarts
  dsimp only
  split_ifs with none
  · rfl
  · refine iff_of_false none ?_
    rintro rfl
    exact none rfl

theorem preferred_subset {server : Routing.ServerRecord}
    (mem : server ∈ preferred view transport routesUsed) : server ∈ candidatePool view := by
  have candidate := unusedStarts_subset mem
  split_ifs at candidate with none
  · exact candidate
  · exact (List.mem_filter.mp candidate).1

/-- There is a start whenever there is a candidate. -/
theorem preferred_eq_nil :
    preferred view transport routesUsed = [] ↔ candidatePool view = [] := by
  rw [preferred, unusedStarts_eq_nil]
  split_ifs with none
  · rfl
  · refine iff_of_false none fun empty => none ?_
    rw [empty, List.filter_nil]

/-- Where a server has a channel that was not used, every start does. -/
theorem novel_of_preferred {other server : Routing.ServerRecord}
    (inside : other ∈ candidatePool view) (novel : Novel transport (channelsOf routesUsed) other)
    (mem : server ∈ preferred view transport routesUsed) :
    Novel transport (channelsOf routesUsed) server := by
  have candidate := unusedStarts_subset mem
  have some : (candidatePool view).filter (Novel transport (channelsOf routesUsed) ·) ≠ [] :=
    List.ne_nil_of_mem (List.mem_filter.mpr ⟨inside, by simpa using novel⟩)
  rw [if_neg some] at candidate
  simpa using (List.mem_filter.mp candidate).2

/-- Otherwise the starts are taken from the pool. -/
theorem preferred_of_none (none : ∀ server ∈ candidatePool view,
    ¬ Novel transport (channelsOf routesUsed) server) :
    preferred view transport routesUsed =
      unusedStarts (startsOf routesUsed) (candidatePool view) := by
  have empty : (candidatePool view).filter (Novel transport (channelsOf routesUsed) ·) = [] := by
    rw [List.filter_eq_nil_iff]
    intro server mem
    simpa using none server mem
  rw [preferred, if_pos empty]

/-- The heads of the routes that were used. -/
theorem heads_eq (headed : ∀ route ∈ routesUsed, route.route ≠ []) :
    ∃ heads, routesUsed.mapM ChannelRoute.head = .ok heads ∧
      heads.map Routing.ServerRecord.pseudonym = startsOf routesUsed := by
  induction routesUsed with
  | nil => exact ⟨[], rfl, rfl⟩
  | cons route routesUsed ih =>
      obtain ⟨heads, run, same⟩ := ih fun other mem => headed other (List.mem_cons_of_mem _ mem)
      obtain ⟨start, hops, split⟩ := List.exists_cons_of_ne_nil (headed route List.mem_cons_self)
      have head : route.head = .ok start := by rw [ChannelRoute.head, split]; rfl
      refine ⟨start :: heads, ?_, ?_⟩
      · rw [List.mapM_cons, head, ok_bind, run]
        rfl
      · rw [List.map_cons, same, startsOf, startsOf, List.filterMap_cons, split]
        rfl

/-- **The candidates and their channels** after some routes. -/
theorem findStart_eq (used : routesUsed ≠ []) (headed : ∀ route ∈ routesUsed, route.route ≠ [])
    (readable : ∀ server ∈ candidatePool view, Readable server) :
    findStart view transport routesUsed =
      if candidatePool view = [] then .ok ([], ∅)
      else .ok (preferred view transport routesUsed,
        if servedChannels transport (preferred view transport routesUsed) ⊆ channelsOf routesUsed
        then channelsOf routesUsed
        else servedChannels transport (preferred view transport routesUsed) \
          channelsOf routesUsed) := by
  obtain ⟨heads, run, same⟩ := heads_eq headed
  have novel : pyFilter (hasNovelChannel transport (channelsOf routesUsed)) (candidatePool view) =
      .ok ((candidatePool view).filter (Novel transport (channelsOf routesUsed) ·)) :=
    pyFilter_eq fun server mem => hasNovelChannel_eq (readable server mem)
  have channels : serverChannels transport (preferred view transport routesUsed) =
      .ok (servedChannels transport (preferred view transport routesUsed)) :=
    serverChannels_eq fun server mem => readable server (preferred_subset mem)
  unfold findStart
  dsimp only
  rw [if_neg used, run, ok_bind]
  by_cases empty : candidatePool view = []
  · rw [if_pos empty, if_pos empty]
    rfl
  · rw [if_neg empty, if_neg empty]
    rw [← channelsOf, novel, ok_bind, same, startFrom, ← preferred, channels, ok_bind]
    split_ifs <;> rfl

/-- The routes that were used have heads, where those can be asked for. -/
theorem headed_of_returns (returns : Returns (routesUsed.mapM ChannelRoute.head)) :
    ∀ route ∈ routesUsed, route.route ≠ [] := by
  intro route mem empty
  obtain ⟨start, run⟩ := returns_mapM.mp returns route mem
  rw [ChannelRoute.head, empty] at run
  cases run

/-- **When candidates are found**: every route that was used has a head, and the addresses of all
Emixes of the pool can be read. -/
theorem returns_findStart : Returns (findStart view transport routesUsed) ↔
    (∀ route ∈ routesUsed, route.route ≠ []) ∧ ∀ server ∈ candidatePool view, Readable server := by
  by_cases used : routesUsed = []
  · subst used
    have goesOn : ∀ channels, Returns (pure (candidatePool view, channels) :
        Py (List Routing.ServerRecord × Finset String)) := fun _ => ⟨_, rfl⟩
    rw [findStart, if_pos rfl, returns_bind_of goesOn, returns_serverChannels]
    simp
  · constructor
    · intro returns
      unfold findStart at returns
      dsimp only at returns
      rw [if_neg used] at returns
      obtain ⟨heads, run, later⟩ := returns_bind.mp returns
      refine ⟨headed_of_returns ⟨heads, run⟩, ?_⟩
      by_cases empty : candidatePool view = []
      · rw [empty]
        nofun
      · rw [if_neg empty] at later
        obtain ⟨novel, asked, -⟩ := returns_bind.mp later
        exact fun server mem =>
          readable_of_hasNovelChannel (returns_pyFilter.mp ⟨novel, asked⟩ server mem)
    · rintro ⟨headed, readable⟩
      rw [findStart_eq used headed readable]
      split_ifs <;> exact ⟨_, rfl⟩

end Starts

/-! ### Routes that are found -/

/-- The records are kept under their pseudonyms. -/
structure Keyed (servers : Routing.Servers) : Prop where
  keys : ∀ e ∈ servers, e.2.pseudonym = e.1
  nodup : (servers.map Prod.fst).Nodup

/-- Recording an announcement keeps them so. -/
theorem Keyed.record {servers after : Routing.Servers} (keyed : Keyed servers)
    {ark : PrismMessage} {server : Routing.ServerRecord}
    (run : Routing.ServerDB.record servers ark = .ok (after, server)) : Keyed after := by
  refine ⟨(Routing.ArkStore.recorded_keyed keyed.keys run).2, ?_⟩
  obtain ⟨u, -, run⟩ := bind_eq_ok.mp run
  cases known : servers.lookup (Routing.pseudonymOf ark) with
  | none =>
      rw [known] at run
      obtain ⟨created, -, run⟩ := bind_eq_ok.mp run
      cases run
      exact nodup_dictSet keyed.nodup _ _
  | some record =>
      rw [known] at run
      obtain ⟨updated, -, run⟩ := bind_eq_ok.mp run
      cases run
      exact nodup_dictSet keyed.nodup _ _

section Found

variable {view : ServerView} {transport : List ChannelState} {target : Routing.ServerRecord}
  {layers : ℕ} {routesUsed : List ChannelRoute}

/-- The Emixes that can be reached have distinct pseudonyms. -/
theorem Keyed.nodup_reachable (keyed : Keyed view.db.servers) :
    (view.reachableEmixes.map Routing.ServerRecord.pseudonym).Nodup := by
  have part : view.reachableEmixes.Sublist (view.db.servers.map Prod.snd) :=
    List.filter_sublist.trans (List.filter_sublist.trans List.filter_sublist)
  have names : (view.db.servers.map Prod.snd).map Routing.ServerRecord.pseudonym =
      view.db.servers.map Prod.fst := by
    rw [List.map_map]
    exact List.map_congr_left keyed.keys
  exact (names ▸ keyed.nodup).sublist (part.map _)

/-- The hops behind a start are all other Emixes. -/
theorem Keyed.length_hops (keyed : Keyed view.db.servers) {start : Routing.ServerRecord}
    (mem : start ∈ view.reachableEmixes) :
    (view.reachableEmixes.filter fun emix => emix.pseudonym ≠ start.pseudonym).length + 1 =
      view.reachableEmixes.length := by
  have name : start.pseudonym ∈ view.reachableEmixes.map Routing.ServerRecord.pseudonym :=
    List.mem_map_of_mem mem
  have others := List.length_erase_of_mem name
  rw [keyed.nodup_reachable.erase_eq_filter, List.filter_map, List.length_map,
    List.length_map] at others
  have pos := List.length_pos_of_mem mem
  have same : (view.reachableEmixes.filter
      ((fun name => name != start.pseudonym) ∘ Routing.ServerRecord.pseudonym)) =
      view.reachableEmixes.filter fun emix => emix.pseudonym ≠ start.pseudonym :=
    List.filter_congr fun emix _ => by
      rw [Bool.eq_iff_iff]
      simp
  rw [same] at others
  omega

/-- **What a route should be**: as many distinct Emixes as layers, all of which can be reached, the
first one with an address on the channel, and the channel can be used. -/
structure Sound (view : ServerView) (transport : List ChannelState) (layers : ℕ)
    (route : ChannelRoute) : Prop where
  length : route.route.length = layers
  distinct : (route.route.map Routing.ServerRecord.pseudonym).Nodup
  reachable : ∀ emix ∈ route.route, emix ∈ view.reachableEmixes
  head : ∃ start, route.head = .ok start ∧ route.channel ∈ advertised start
  usable : route.channel ∈ liveChannels transport

/-- **What finding a route should do**, whatever is drawn: it returns, a route that is found is
sound, and one is found where the target and enough Emixes can be reached and one of them advertises
a channel that can be used. -/
def FindsRoutes (view : ServerView) (transport : List ChannelState)
    (target : Routing.ServerRecord) (layers : ℕ) (routesUsed : List ChannelRoute) : Prop :=
  ∀ draws, ∃ found, findRoute view transport draws target layers routesUsed = .ok found ∧
    (∀ route, found = some route → Sound view transport layers route) ∧
    (view.canReach target = true → layers ≤ view.reachableEmixes.length →
      (∃ emix ∈ view.reachableEmixes, ∃ channel ∈ advertised emix,
        channel ∈ liveChannels transport) → found ≠ none)

/-- A start has an address on one of the channels, and only on such that can be used. -/
def Suitable (transport : List ChannelState) (channels : Finset String)
    (start : Routing.ServerRecord) : Prop :=
  (∃ channel ∈ advertised start, channel ∈ channels) ∧
    ∀ channel ∈ advertised start, channel ∈ channels → channel ∈ liveChannels transport

/-- **When the starts are suitable**: before any route, when each of them advertises a channel that
can be used; after some routes, when an Emix has such a channel that was not used, or when every
start that is taken then has an address on a used channel, and on no used channel that cannot be
used now. -/
def StartsSuitable (view : ServerView) (transport : List ChannelState)
    (routesUsed : List ChannelRoute) : Prop :=
  if routesUsed = [] then
    ∀ start ∈ candidatePool view, ∃ channel ∈ advertised start, channel ∈ liveChannels transport
  else (∃ server ∈ candidatePool view, Novel transport (channelsOf routesUsed) server) ∨
    ∀ start ∈ unusedStarts (startsOf routesUsed) (candidatePool view),
      Suitable transport (channelsOf routesUsed) start

/-- **When routes are found** for a target that can be reached: the routes that were used have
heads, the addresses of the pool can be read, and the starts are suitable if enough Emixes can be
reached. -/
structure Routable (view : ServerView) (transport : List ChannelState) (layers : ℕ)
    (routesUsed : List ChannelRoute) : Prop where
  headed : ∀ route ∈ routesUsed, route.route ≠ []
  readable : ∀ server ∈ candidatePool view, Readable server
  starts : layers ≤ view.reachableEmixes.length → StartsSuitable view transport routesUsed

/-- **The starts that are found**, and when all of them are suitable for their channels. -/
theorem findStart_spec (headed : ∀ route ∈ routesUsed, route.route ≠ [])
    (readable : ∀ server ∈ candidatePool view, Readable server) :
    ∃ starts channels, findStart view transport routesUsed = .ok (starts, channels) ∧
      (∀ start ∈ starts, start ∈ candidatePool view) ∧
      (starts = [] ↔ candidatePool view = []) ∧
      ((∀ start ∈ starts, Suitable transport channels start) ↔
        StartsSuitable view transport routesUsed) := by
  by_cases used : routesUsed = []
  · have channels : serverChannels transport (candidatePool view) =
        .ok (servedChannels transport (candidatePool view)) := serverChannels_eq readable
    refine ⟨candidatePool view, servedChannels transport (candidatePool view), ?_, fun _ mem => mem,
      Iff.rfl, ?_⟩
    · rw [findStart, if_pos used, channels, ok_bind]
      rfl
    · rw [StartsSuitable, if_pos used]
      refine forall₂_congr fun start mem => ?_
      constructor
      · rintro ⟨⟨channel, own, served⟩, -⟩
        exact ⟨channel, own, (mem_servedChannels.mp served).2⟩
      · rintro ⟨channel, own, live⟩
        refine ⟨⟨channel, own, mem_servedChannels.mpr ⟨⟨start, mem, own⟩, live⟩⟩, ?_⟩
        exact fun other _ served => (mem_servedChannels.mp served).2
  · rw [findStart_eq used headed readable]
    rw [StartsSuitable, if_neg used]
    by_cases empty : candidatePool view = []
    · rw [if_pos empty]
      refine ⟨[], ∅, rfl, nofun, iff_of_true rfl empty, iff_of_true nofun (.inr ?_)⟩
      rw [unusedStarts_eq_nil.mpr empty]
      nofun
    · rw [if_neg empty]
      refine ⟨_, _, rfl, fun _ => preferred_subset, preferred_eq_nil, ?_⟩
      by_cases some : ∃ server ∈ candidatePool view, Novel transport (channelsOf routesUsed) server
      · refine iff_of_true (fun start mem => ?_) (.inl some)
        obtain ⟨server, inside, novel⟩ := some
        obtain ⟨channel, own, live, unused⟩ := novel_of_preferred inside novel mem
        have served := mem_servedChannels.mpr ⟨⟨start, mem, own⟩, live⟩
        rw [if_neg fun sub => unused (sub served)]
        refine ⟨⟨channel, own, Finset.mem_sdiff.mpr ⟨served, unused⟩⟩, fun other _ isIn => ?_⟩
        exact (mem_servedChannels.mp (Finset.mem_sdiff.mp isIn).1).2
      · rw [or_iff_right some]
        have none : ∀ server ∈ candidatePool view,
            ¬ Novel transport (channelsOf routesUsed) server :=
          fun server mem novel => some ⟨server, mem, novel⟩
        have all : servedChannels transport (preferred view transport routesUsed) ⊆
            channelsOf routesUsed := by
          intro channel served
          obtain ⟨⟨server, mem, own⟩, live⟩ := mem_servedChannels.mp served
          by_contra unused
          exact none server (preferred_subset mem) ⟨channel, own, live, unused⟩
        rw [if_pos all, preferred_of_none none]

/-! ### One call -/

/-- The hops behind a start. -/
def hopsBehind (view : ServerView) (start : Routing.ServerRecord) : List Routing.ServerRecord :=
  view.reachableEmixes.filter fun emix => emix.pseudonym ≠ start.pseudonym

/-- The route that is drawn behind a start. -/
def drawnRoute (view : ServerView) (draws : RouteDraws) (layers : ℕ)
    (start : Routing.ServerRecord) : List Routing.ServerRecord :=
  start :: draws.sample start (hopsBehind view start) (layers - 1)

theorem routeFrom_eq (keyed : Keyed view.db.servers) (draws : RouteDraws)
    {start : Routing.ServerRecord} (mem : start ∈ view.reachableEmixes) :
    routeFrom view draws layers start =
      if view.reachableEmixes.length < layers then none
      else some (drawnRoute view draws layers start) := by
  rw [← keyed.length_hops mem]
  rfl

section Call

variable {starts : List Routing.ServerRecord} {channels : Finset String} {draws : RouteDraws}
  (reached : view.canReach target = true)
  (found : findStart view transport routesUsed = .ok (starts, channels))
  (keyed : Keyed view.db.servers) (pool : ∀ start ∈ starts, start ∈ view.reachableEmixes)

include reached found in
/-- Without a route from a start nothing is found. -/
theorem findRoute_none (routes : starts.filterMap (routeFrom view draws layers) = []) :
    findRoute view transport draws target layers routesUsed = .ok none := by
  unfold findRoute
  rw [reached, Bool.not_true, if_neg Bool.false_ne_true, found, ok_bind]
  dsimp only
  rw [routes, if_pos rfl]
  rfl

include keyed pool in
theorem routes_few (few : view.reachableEmixes.length < layers) :
    starts.filterMap (routeFrom view draws layers) = [] := by
  rw [List.filterMap_eq_nil_iff]
  intro start mem
  rw [routeFrom_eq keyed draws (pool start mem), if_pos few]

include keyed pool in
theorem routes_enough (enough : layers ≤ view.reachableEmixes.length) :
    starts.filterMap (routeFrom view draws layers) = starts.map (drawnRoute view draws layers) := by
  rw [← List.filterMap_eq_map]
  refine List.filterMap_congr fun start mem => ?_
  rw [routeFrom_eq keyed draws (pool start mem), if_neg (not_lt.mpr enough)]
  rfl

include reached found keyed pool in
/-- **A route from a start**, on a channel that is drawn from its addresses. -/
theorem findRoute_start (enough : layers ≤ view.reachableEmixes.length)
    {start : Routing.ServerRecord} (drawn : starts[draws.route starts.length]? = some start)
    (readable : Readable start) :
    findRoute view transport draws target layers routesUsed =
      (choice draws.channel ((advertised start).filter fun channel => channel ∈ channels)).map
        fun channel => some { route := drawnRoute view draws layers start, target,
                              timestamp := view.now, channel } := by
  have mem := List.mem_of_getElem? drawn
  have some : starts.map (drawnRoute view draws layers) ≠ [] :=
    List.ne_nil_of_mem (List.mem_map_of_mem mem)
  have route : choice draws.route (starts.map (drawnRoute view draws layers)) =
      .ok (drawnRoute view draws layers start) := by
    rw [choice, pyIndex, List.length_map, List.getElem?_map, drawn]
    rfl
  have head : pyIndex (drawnRoute view draws layers start) 0 = .ok start := rfl
  unfold findRoute
  rw [reached, Bool.not_true, if_neg Bool.false_ne_true, found, ok_bind]
  dsimp only
  rw [routes_enough keyed pool enough, if_neg some, route, ok_bind, head, ok_bind,
    readable.channelIds_eq, ok_bind]
  rfl

end Call

/-! ### Whatever is drawn -/

/-- The draws that take the first hops, and a route and a channel by their places. -/
def RouteDraws.places (i j : ℕ) : RouteDraws where
  sample _ hops k := hops.take k
  sample_subperm _ hops k := (List.take_sublist k hops).subperm
  length_sample _ hops k le := by rw [List.length_take, min_eq_left le]
  route n := if i < n then i else 0
  route_lt n pos := by split_ifs <;> omega
  channel n := if j < n then j else 0
  channel_lt n pos := by split_ifs <;> omega

/-- `random.choice` of a list that is not empty. -/
theorem choice_mem {α : Type} {place : ℕ → ℕ} (inside : ∀ n, 0 < n → place n < n) {xs : List α}
    (ne : xs ≠ []) : ∃ x ∈ xs, choice place xs = .ok x ∧ xs[place xs.length]? = some x := by
  have lt := inside xs.length (List.length_pos_iff.mpr ne)
  have at_place := List.getElem?_eq_getElem lt
  exact ⟨xs[place xs.length], List.getElem_mem lt, by rw [choice, pyIndex, at_place], at_place⟩

/-- Every element of a list can be drawn. -/
theorem choice_place {α : Type} {xs : List α} {x : α} (mem : x ∈ xs) :
    ∃ i, ∀ place : ℕ → ℕ, (∀ n, place n = if i < n then i else 0) →
      xs[place xs.length]? = some x ∧ choice place xs = .ok x := by
  obtain ⟨i, lt, at_i⟩ := List.getElem_of_mem mem
  refine ⟨i, fun place drawn => ?_⟩
  have found : xs[place xs.length]? = some x := by
    rw [drawn, if_pos lt, List.getElem?_eq_getElem lt, at_i]
  exact ⟨found, by rw [choice, pyIndex, found]⟩

theorem mem_reachable_of_pool {server : Routing.ServerRecord} (mem : server ∈ candidatePool view) :
    server ∈ view.reachableEmixes :=
  (List.mem_filter.mp mem).1

/-- **A drawn route** is one of distinct Emixes that can be reached. -/
theorem sound_drawnRoute (keyed : Keyed view.db.servers) (pos : 0 < layers)
    (enough : layers ≤ view.reachableEmixes.length) (draws : RouteDraws)
    {start : Routing.ServerRecord} (mem : start ∈ view.reachableEmixes) {channel : String}
    (own : channel ∈ advertised start) (live : channel ∈ liveChannels transport) :
    Sound view transport layers
      { route := drawnRoute view draws layers start, target, timestamp := view.now, channel } := by
  have hops := draws.sample_subperm start (hopsBehind view start) (layers - 1)
  have count := keyed.length_hops mem
  have length := draws.length_sample start (hopsBehind view start) (layers - 1) (by
    rw [hopsBehind]
    omega)
  have inside : ∀ emix ∈ draws.sample start (hopsBehind view start) (layers - 1),
      emix ∈ view.reachableEmixes ∧ emix.pseudonym ≠ start.pseudonym := by
    intro emix isIn
    simpa [hopsBehind] using hops.subset isIn
  refine ⟨?_, ?_, ?_, ⟨start, rfl, own⟩, live⟩
  · rw [drawnRoute, List.length_cons, length]
    omega
  · rw [drawnRoute, List.map_cons, List.nodup_cons]
    constructor
    · intro again
      obtain ⟨emix, isIn, same⟩ := List.mem_map.mp again
      exact (inside emix isIn).2 same
    · obtain ⟨ordered, perm, part⟩ := hops
      have names := (part.trans List.filter_sublist).map Routing.ServerRecord.pseudonym
      exact (perm.map _).nodup_iff.mp (keyed.nodup_reachable.sublist names)
  · rintro emix isIn
    rcases List.mem_cons.mp isIn with rfl | isIn
    · exact mem
    · exact (inside emix isIn).1

/-- **Suitable starts** make a sound route, whichever is drawn. -/
theorem found_of_suitable (reached : view.canReach target = true)
    {starts : List Routing.ServerRecord} {channels : Finset String}
    (found : findStart view transport routesUsed = .ok (starts, channels))
    (keyed : Keyed view.db.servers) (pool : ∀ start ∈ starts, start ∈ candidatePool view)
    (readable : ∀ server ∈ candidatePool view, Readable server) (pos : 0 < layers)
    (enough : layers ≤ view.reachableEmixes.length) (taken : starts ≠ [])
    (suitable : ∀ start ∈ starts, Suitable transport channels start) (draws : RouteDraws) :
    ∃ route, findRoute view transport draws target layers routesUsed = .ok (some route) ∧
      Sound view transport layers route := by
  have inside := fun start mem => mem_reachable_of_pool (pool start mem)
  obtain ⟨start, mem, -, drawn⟩ := choice_mem draws.route_lt taken
  obtain ⟨⟨channel, own, isIn⟩, live⟩ := suitable start mem
  have left : (advertised start).filter (fun channel => channel ∈ channels) ≠ [] :=
    List.ne_nil_of_mem (List.mem_filter.mpr ⟨own, by simpa using isIn⟩)
  obtain ⟨other, isIn', chosen, -⟩ := choice_mem draws.channel_lt left
  obtain ⟨advertises, served⟩ := List.mem_filter.mp isIn'
  rw [findRoute_start reached found keyed inside enough drawn (readable start (pool start mem)),
    chosen]
  exact ⟨_, rfl, sound_drawnRoute keyed pos enough draws (inside start mem) advertises
    (live other advertises (by simpa using served))⟩

/-- **A start that is not suitable** can be drawn, and then no channel is left or one that cannot
be used. -/
theorem suitable_of_found (reached : view.canReach target = true)
    {starts : List Routing.ServerRecord} {channels : Finset String}
    (found : findStart view transport routesUsed = .ok (starts, channels))
    (keyed : Keyed view.db.servers) (pool : ∀ start ∈ starts, start ∈ candidatePool view)
    (readable : ∀ server ∈ candidatePool view, Readable server)
    (enough : layers ≤ view.reachableEmixes.length)
    (finds : FindsRoutes view transport target layers routesUsed) :
    ∀ start ∈ starts, Suitable transport channels start := by
  have inside := fun start mem => mem_reachable_of_pool (pool start mem)
  intro start mem
  obtain ⟨i, at_i⟩ := choice_place mem
  have drawn : ∀ j, findRoute view transport (.places i j) target layers routesUsed = _ :=
    fun j => findRoute_start reached found keyed inside enough
      (at_i (RouteDraws.places i j).route fun _ => rfl).1 (readable start (pool start mem))
  constructor
  · by_contra none
    have left : (advertised start).filter (fun channel => channel ∈ channels) = [] := by
      rw [List.filter_eq_nil_iff]
      intro channel own isIn
      exact none ⟨channel, own, by simpa using isIn⟩
    obtain ⟨route, run, -⟩ := finds (.places i 0)
    rw [drawn, left] at run
    cases run
  · intro channel own isIn
    have left : channel ∈ (advertised start).filter fun channel => channel ∈ channels :=
      List.mem_filter.mpr ⟨own, by simpa using isIn⟩
    obtain ⟨j, at_j⟩ := choice_place left
    obtain ⟨route, run, sound, -⟩ := finds (.places i j)
    rw [drawn, (at_j (RouteDraws.places i j).channel fun _ => rfl).2] at run
    cases run
    exact (sound _ rfl).usable

/-- **Finding a route** returns, finds only sound routes and finds one where it should, whatever is
drawn, exactly when the target cannot be reached, or the routes that were used have heads, the
addresses of the pool can be read and the starts are suitable if enough Emixes can be reached. -/
theorem findRoute_iff (keyed : Keyed view.db.servers) (pos : 0 < layers) :
    FindsRoutes view transport target layers routesUsed ↔
      (view.canReach target = true → Routable view transport layers routesUsed) := by
  constructor
  · intro finds reached
    obtain ⟨route, run, -⟩ := finds (.places 0 0)
    unfold findRoute at run
    rw [reached, Bool.not_true, if_neg Bool.false_ne_true] at run
    obtain ⟨start, found, -⟩ := bind_eq_ok.mp run
    obtain ⟨headed, readable⟩ := returns_findStart.mp ⟨start, found⟩
    refine ⟨headed, readable, fun enough => ?_⟩
    obtain ⟨starts, channels, found, pool, -, suitable⟩ := findStart_spec headed readable
    exact suitable.mp (suitable_of_found reached found keyed pool readable enough finds)
  · intro routable draws
    by_cases reached : view.canReach target = true
    · obtain ⟨headed, readable, suitable⟩ := routable reached
      obtain ⟨starts, channels, found, pool, empty, each⟩ := findStart_spec headed readable
      have inside := fun start mem => mem_reachable_of_pool (pool start mem)
      by_cases enough : layers ≤ view.reachableEmixes.length
      · by_cases none : starts = []
        · refine ⟨Option.none, findRoute_none reached found (by rw [none]; rfl), nofun, ?_⟩
          rintro - - ⟨emix, mem, channel, own, -⟩
          have candidate : emix ∈ candidatePool view :=
            List.mem_filter.mpr ⟨mem, truthy_of_advertised own⟩
          rw [empty.mp none] at candidate
          cases candidate
        · obtain ⟨route, run, sound⟩ := found_of_suitable reached found keyed pool readable pos
            enough none (each.mpr (suitable enough)) draws
          refine ⟨some route, run, fun other same => ?_, fun _ _ _ => nofun⟩
          obtain rfl := Option.some.inj same
          exact sound
      · have routes : starts.filterMap (routeFrom view draws layers) = [] :=
          routes_few keyed inside (not_le.mp enough)
        exact ⟨Option.none, findRoute_none reached found routes, nofun,
          fun _ few => absurd few enough⟩
    · refine ⟨Option.none, ?_, nofun, fun reaches => absurd reaches reached⟩
      rw [Bool.not_eq_true] at reached
      rw [findRoute, reached]
      rfl

end Found

/-! ### Two Emixes on two channels -/

/-- An Emix with an address on a channel. -/
def emixOn (pseudonym : Bytes) (channel : String) : Routing.ServerRecord where
  pseudonym := some pseudonym
  ark := PrismMessage.create 0 .announceRoleKey [(.pseudonym, .bytes pseudonym),
    (.role, .str "EMIX"), (.epoch, .str ""),
    (.linkAddresses, .list [.object .linkAddress [.str channel, .str ""]])]
  expiration := 1

/-- Two Emixes, each on a channel of its own. -/
def twoEmixes : ServerView where
  db := { servers := [(some [1], emixOn [1] "a"), (some [2], emixOn [2] "b")] }
  currentEpoch := ""
  now := 0
  lsRouting := false
  interval := 0

/-- The two channels, each with a status. -/
def twoChannels (status status' : ChannelStatus) : List ChannelState :=
  [⟨"a", status⟩, ⟨"b", status'⟩]

theorem twoEmixes_keyed : Keyed twoEmixes.db.servers :=
  ⟨by simp [twoEmixes, emixOn], by simp [twoEmixes]⟩

/-- With both channels every route is found. -/
theorem both_channels :
    FindsRoutes twoEmixes (twoChannels .available .available) (emixOn [1] "a") 2 [] := by
  have pool : candidatePool twoEmixes = [emixOn [1] "a", emixOn [2] "b"] := rfl
  refine (findRoute_iff twoEmixes_keyed (by decide)).mpr fun _ => ⟨nofun, ?_, fun _ => ?_⟩
  · rw [pool]
    intro server mem
    rcases List.mem_pair.mp mem with rfl | rfl
    · exact ⟨["a"], rfl⟩
    · exact ⟨["b"], rfl⟩
  · rw [StartsSuitable, if_pos rfl, pool]
    intro start mem
    rcases List.mem_pair.mp mem with rfl | rfl
    · exact ⟨"a", List.mem_singleton_self "a", by decide⟩
    · exact ⟨"b", List.mem_singleton_self "b", by decide⟩

/-- A route over one Emix. -/
def routeOver (pseudonym : Bytes) (channel : String) : ChannelRoute :=
  ⟨⟨[emixOn pseudonym channel], emixOn [1] "a", 0⟩, channel⟩

/-- **A start without a usable channel** can be drawn, and raises; and after routes whose channels
cannot be used any more, one of these channels is taken again. -/
theorem unusable_start :
    findRoute twoEmixes (twoChannels .available .disabled) (.places 1 0) (emixOn [1] "a") 1 [] =
        .error .indexError ∧
      ¬ FindsRoutes twoEmixes (twoChannels .available .disabled) (emixOn [1] "a") 1 [] ∧
      findRoute twoEmixes (twoChannels .disabled .disabled) (.places 0 0) (emixOn [1] "a") 1
          [routeOver [1] "a", routeOver [2] "b"] = .ok (some (routeOver [1] "a")) := by
  have raises : findRoute twoEmixes (twoChannels .available .disabled) (.places 1 0)
      (emixOn [1] "a") 1 [] = .error .indexError := by rfl
  refine ⟨raises, fun finds => ?_, ?_⟩
  · obtain ⟨route, run, -⟩ := finds (.places 1 0)
    rw [raises] at run
    cases run
  · rfl

end Prism.Client
