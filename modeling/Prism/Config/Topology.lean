import Prism.Config.Servers
import Prism.Lib.Bfs
import Prism.Vrf.Committees

/-!
The topology of a deployment (`prism/config/environment/range.py`, `prism/config/topology/graph.py`,
`prism/config/topology/ring.py`).

The links are built by the topology that is configured. From them the graph of all servers that
forward messages is made, and its diameter is configured as `lsp_hops_max`.

* `serverGraph`: the graph that the diameter is taken of.
* `configureTopology_diameter`: what is configured, and that it is the diameter.
-/

namespace Prism.Config

open Lib (FiniteDigraph)
open Vrf (Setting Settings)

/-! ### Nodes and links -/

/-- A `Node` with its role, and with its tag `mpc_party_id`. -/
structure PlacedNode where
  node : Node
  role : Option ServerRole := none
  mpcPartyId : Option ℕ := none
deriving DecidableEq

namespace PlacedNode

variable (self : PlacedNode)

/-- `name`. -/
def name : String := self.node.name

/-- `isinstance(node, Server) and node.is_role(Dropbox)`. -/
def isDropbox : Bool := self.node.isServer && self.role.any ServerRole.isDropbox

/-- `isinstance(node, Server) and node.is_role(Dummy)`. -/
def isDummy : Bool := self.node.isServer && self.role = some .dummy

/-- `isinstance(node, Server) and node.is_role(Emix)`. -/
def isEmix : Bool := self.node.isServer && self.role = some .emix

/-- `client_ish`. -/
def clientIsh : Bool :=
  !self.node.isServer || self.role.any fun role =>
    match role with
    | .clientRegistration _ => true
    | _ => false

end PlacedNode

/-- `Link`, with who sends and who receives on it. -/
structure Link where
  senders : List PlacedNode
  receivers : List PlacedNode

/-- `Link(members=members)`. -/
def Link.among (members : List PlacedNode) : Link := ⟨members, members⟩

/-- `members`. -/
def Link.members (self : Link) : List PlacedNode := self.senders ++ self.receivers

/-! ### Graphs -/

/-- The names of the nodes in a graph. -/
def graphNodes (nodes : List PlacedNode) : List String :=
  ((nodes.filter fun node => !node.isDummy).map PlacedNode.name).dedup

/-- The link makes an edge between its sender and its receiver. -/
def joins (names : List String) (sender receiver : PlacedNode) : Bool :=
  sender.node ≠ receiver.node && sender.name ∈ names && receiver.name ∈ names &&
    !(sender.isDropbox && !receiver.node.isServer)

/-- The edges of some links. -/
def graphEdges (names : List String) (links : List Link) : List (String × String) :=
  (links.flatMap fun link =>
    ((link.senders.product link.receivers).filter fun e => joins names e.1 e.2).map fun e =>
      (e.1.name, e.2.name)).dedup

theorem graphEdges_closed {names : List String} {links : List Link} {e : String × String}
    (mem : e ∈ graphEdges names links) : e.1 ∈ names ∧ e.2 ∈ names := by
  obtain ⟨link, -, made⟩ := List.mem_flatMap.mp (List.mem_dedup.mp mem)
  obtain ⟨⟨sender, receiver⟩, joined, rfl⟩ := List.mem_map.mp made
  have both := (List.mem_filter.mp joined).2
  simp only [joins, Bool.and_eq_true, decide_eq_true_eq] at both
  exact ⟨both.1.1.2, both.1.2⟩

/-- `build_graph`. -/
def buildGraph (nodes : List PlacedNode) (links : List Link) : FiniteDigraph String where
  nodes := graphNodes nodes
  edges := graphEdges (graphNodes nodes) links
  nodup := List.nodup_dedup _
  closed _ mem := graphEdges_closed mem

/-- The servers of `server_diameter`. -/
def forwardingServers (nodes : List PlacedNode) : List PlacedNode :=
  nodes.filter fun node => node.node.isServer && node.mpcPartyId.getD 0 = 0 && !node.clientIsh

/-- The graph of `server_diameter`. -/
def serverGraph (nodes : List PlacedNode) (links : List Link) : FiniteDigraph String :=
  buildGraph (forwardingServers nodes) links

/-- `diameter`, which raises for graphs that have none. -/
def diameter (g : FiniteDigraph String) : Py ℕ :=
  match g.diameter with
  | some d => .ok d
  | none =>
      if g.nodes = [] then .error (.valueError "max() arg is an empty sequence")
      else .error (.networkXError
        "Found infinite path length because the digraph is not strongly connected")

/-- `server_diameter`. -/
def serverDiameter (nodes : List PlacedNode) (links : List Link) : Py ℕ :=
  diameter (serverGraph nodes links)

theorem serverDiameter_eq_ok {nodes : List PlacedNode} {links : List Link} {d : ℕ} :
    serverDiameter nodes links = .ok d ↔ (serverGraph nodes links).diameter = some d := by
  unfold serverDiameter diameter
  rcases (serverGraph nodes links).diameter with _ | e
  · split_ifs <;> simp
  · simp

/-! ### Configuration -/

/-- The names of the nodes that a node is linked with. Clients are not linked with each other. -/
def linkedWith (nodes : List PlacedNode) (links : List Link) (self : PlacedNode) :
    List PlacedNode :=
  nodes.filter fun member =>
    (links.any fun link => link.members.any (·.name = self.name) &&
      link.members.any (·.name = member.name)) &&
    member.name ≠ self.name && (self.node.isServer || member.node.isServer)

/-- The settings of the servers, with the diameter if there is `ls_routing`. -/
def diameterSettings (nodes : List PlacedNode) (links : List Link)
    (prismCommon serverCommon : Settings) : Py Settings :=
  if (prismCommon.get "ls_routing" .none).truthy then
    (serverDiameter nodes links).map fun (d : ℕ) => dictSet serverCommon "lsp_hops_max" (.int d)
  else .ok serverCommon

theorem diameterSettings_of_diameter {nodes : List PlacedNode} {links : List Link} {d : ℕ}
    {prismCommon serverCommon : Settings}
    (routing : (prismCommon.get "ls_routing" .none).truthy = true)
    (found : (serverGraph nodes links).diameter = some d) :
    diameterSettings nodes links prismCommon serverCommon =
      .ok (dictSet serverCommon "lsp_hops_max" (.int d)) := by
  rw [diameterSettings, if_pos routing, serverDiameter_eq_ok.mpr found]
  rfl

/-- What each node is linked with. All members of links are nodes. -/
def linkedNodes (nodes : List PlacedNode) (links : List Link) :
    Py (List (String × List PlacedNode)) :=
  if links.all fun link => link.members.all (·.name ∈ nodes.map PlacedNode.name) then
    .ok (nodes.map fun node => (node.name, linkedWith nodes links node))
  else .error .keyError

/-- `configure_topology`, with the links that the topology builds: the settings of the servers, and
what each node is linked with. -/
def configureTopology (nodes : List PlacedNode) (links : List Link)
    (prismCommon serverCommon : Settings) : Py (Settings × List (String × List PlacedNode)) := do
  let serverCommon ← diameterSettings nodes links prismCommon serverCommon
  let linked ← linkedNodes nodes links
  return (serverCommon, linked)

/-- **What is configured** with `ls_routing` is the diameter of the server graph, under a name of
its own. -/
theorem configureTopology_diameter {nodes : List PlacedNode} {links : List Link}
    {prismCommon serverCommon configured : Settings} {linked : List (String × List PlacedNode)}
    (routing : (prismCommon.get "ls_routing" .none).truthy = true)
    (run : configureTopology nodes links prismCommon serverCommon = .ok (configured, linked)) :
    ∃ d : ℕ, (serverGraph nodes links).diameter = some d ∧
      configured = dictSet serverCommon "lsp_hops_max" (.int d) := by
  obtain ⟨settings, computed, run⟩ := bind_eq_ok.mp run
  obtain ⟨names, -, run⟩ := bind_eq_ok.mp run
  obtain rfl := (Prod.mk.inj (Except.ok.inj run)).1
  rw [diameterSettings, if_pos routing] at computed
  obtain ⟨d, found, rfl⟩ := map_eq_ok.mp computed
  exact ⟨d, serverDiameter_eq_ok.mp found, rfl⟩

/-! ### Rings -/

/-- `ring_topology`: the EMIXes in a ring by their names, and the links with the clients. -/
def ringTopology (nodes : List PlacedNode) (clientLinks : List Link) : Py (List Link) :=
  match (nodes.filter PlacedNode.isEmix).insertionSort (·.name ≤ ·.name) with
  | [] => .error (.configError "Need at least 1 EMIX for ring topology")
  | first :: rest =>
      .ok (((first :: rest).zip (rest ++ [first])).map (fun e => .among [e.1, e.2]) ++ clientLinks)

end Prism.Config
