import Prism.Config.Clustered
import Prism.Itertools
import Prism.Lib.FiniteGraph
import Prism.Vrf.Distribution
import Std.Data.String.ToNat

/-!
The topology that is drawn by sortitions (`prism/config/topology/vrf.py`).

With `vrf_b_db_emix = 0` all emixes and dropbox leaders are a random graph, which is drawn again
until it is connected. With a positive number the emixes are a ring with random shortcuts, and each
dropbox leader is linked with so many emixes. Dummy servers are linked with as many emixes in the
end.

Servers are nodes with an order. The hashes that are drawn are arguments; the proofs of sortitions,
the committees of the dropboxes and the links of the clients are left out. Factors are numbers,
and `math.log` is known by its sign.

* `randomized`: the links that are made.
-/

namespace Prism.Config

open Lib Vrf VRFDistribution

/-! ### Servers and draws -/

/-- The values of `math.log` for whole numbers. -/
structure Logarithm where
  log : ℕ → ℚ
  one : log 1 = 0
  pos : ∀ n, 2 ≤ n → 0 < log n

/-- `calc_p_from`. -/
def calcPFrom (logs : Logarithm) (c : ℚ) (n : ℕ) : Py ℚ := do
  pyAssert (0 < n)
  return min (double (double (c * logs.log n) / n)) 1

/-- The emixes, the leaders of dropboxes and the dummy servers of a range. Each server has one role,
and there is an emix. -/
structure VrfServers (α : Type) where
  emixes : List α
  leaders : List α
  dummies : List α
  some_emix : emixes ≠ []
  nodup : (emixes ++ leaders ++ dummies).Nodup

/-- All servers that are to be linked. -/
def VrfServers.all {α : Type} (servers : VrfServers α) : List α :=
  servers.emixes ++ servers.leaders ++ servers.dummies

/-- The settings of the topology. -/
structure VrfTopologyConfig where
  vrfBDbEmix : ℤ
  vrfCPFactor : ℚ
  vrfConfigAttempts : ℕ

/-- The hash of a proof. -/
abbrev Draw := Fin (hashSpace + 1)

/-- The hashes that are drawn: for two servers in an attempt, for two emixes next to each other, and
for a server that is linked with some emixes. -/
structure Draws (α : Type) where
  pair : ℕ → α → α → Draw
  ring : α → α → Draw
  combo : α → Draw

/-- `eval` of the role of a link. -/
def drawnLink (dist : VRFDistribution) (draw : Draw) : Py Bool := do
  return (← dist.role (draw : ℕ)) = "True"

/-- `int` of the role of a choice. -/
def drawnIndex (dist : VRFDistribution) (draw : Draw) : Py ℕ := do
  match (← dist.role (draw : ℕ)).toNat? with
  | some index => return index
  | none => throw (.valueError "invalid literal for int() with base 10")

/-! ### Links -/

variable {α : Type} [LinearOrder α]

/-- The link sortition of two servers. -/
def sortLink (dist : VRFDistribution) (draw : α → α → Draw) (x : α) (graph : FiniteGraph α)
    (y : α) : Py (FiniteGraph α) := do
  pyAssert (x < y)
  if ← drawnLink dist (draw x y) then return graph.addEdge x y else return graph

/-- A link of the ring. -/
def sortRing (dist : VRFDistribution) (draws : Draws α) (graph : FiniteGraph α) (link : α × α) :
    Py (FiniteGraph α) := do
  pyAssert (← drawnLink dist (draws.ring link.1 link.2))
  return graph.addEdge link.1 link.2

/-- The links of one server with some emixes. -/
def sortCombo (emixes : List α) (combos : List (List α)) (dist : VRFDistribution)
    (draws : Draws α) (graph : FiniteGraph α) (node : α) : Py (FiniteGraph α) := do
  let index ← drawnIndex dist (draws.combo node)
  pyAssert (index < combos.length)
  (← pyIndex combos index).foldlM (fun graph emix => do
    pyAssert (emix ∈ emixes)
    return graph.addEdge node emix) graph

/-- One attempt at a random graph. -/
def randomGraph (nodeArray : List α) (dist : VRFDistribution) (draw : α → α → Draw) :
    Py (FiniteGraph α) :=
  nodeArray.zipIdx.foldlM (fun graph entry =>
    (nodeArray.drop (entry.2 + 1)).foldlM (sortLink dist draw entry.1) graph)
    (FiniteGraph.empty.addNodes nodeArray)

/-- The error of an attempt. -/
def attemptError (attempt attempts : ℕ) : String :=
  s!"ER topology (attempt #{attempt + 1} of {attempts}) not connected!"

/-- The attempts that are left, with the graph and the error of the last one. -/
def randomAttempts (nodeArray : List α) (dist : VRFDistribution) (draws : Draws α)
    (attempts : ℕ) : ℕ → FiniteGraph α × String → Py (FiniteGraph α × String)
  | 0, last => .ok last
  | left + 1, _ => do
    let attempt := attempts - (left + 1)
    let graph ← randomGraph nodeArray dist (draws.pair attempt)
    if graph.isConnected then return (graph, "")
    else randomAttempts nodeArray dist draws attempts left (graph, attemptError attempt attempts)

/-- The probability of the shortcuts from the emix with an index. -/
def shortcutP (logs : Logarithm) (config : VrfTopologyConfig) (emixCount i : ℕ) : Py ℚ :=
  (calcPFrom logs config.vrfCPFactor emixCount).map fun p => double (p / (i + 1))

/-- The shortcuts from one emix to those after it. -/
def shortcutsFrom (logs : Logarithm) (config : VrfTopologyConfig) (draws : Draws α)
    (emixArray : List α) (graph : FiniteGraph α) (entry : α × ℕ) : Py (FiniteGraph α) := do
  let p ← shortcutP logs config emixArray.length entry.2
  if p = 0 then return graph
  else
    let dist ← binaryDistribution p
    (emixArray.drop (entry.2 + 1)).zipIdx.foldlM (fun graph other =>
      if entry.2 = 0 ∧ other.2 = emixArray.length - 1 then .ok graph
      else sortLink dist (draws.pair 0) entry.1 graph other.1) graph

/-! ### The topology -/

section Topology

variable (logs : Logarithm) (servers : VrfServers α) (config : VrfTopologyConfig)
  (draws : Draws α)

/-- The emixes in order. -/
def VrfServers.emixArray : List α := servers.emixes.insertionSort (· ≤ ·)

/-- The emixes and the leaders of dropboxes in order. -/
def VrfServers.nodeArray : List α := (servers.emixes ++ servers.leaders).insertionSort (· ≤ ·)

/-- Step 2 for `vrf_b_db_emix = 0`. -/
def erdosRenyi : Py (FiniteGraph α × String) := do
  let p ← calcPFrom logs config.vrfCPFactor servers.nodeArray.length
  pyAssert (0 ≤ p ∧ p ≤ 1)
  let dist ← binaryDistribution p
  randomAttempts servers.nodeArray dist draws config.vrfConfigAttempts config.vrfConfigAttempts
    (.empty, "")

/-- Step 2 for a positive `vrf_b_db_emix`. Each emix is linked with the next one, and the last one
with the first. -/
def structured (combos : List (List α)) (comboSortition : VRFDistribution) :
    Py (FiniteGraph α × String) := do
  let oneSortition ← binaryDistribution 1
  let graph ← (servers.emixArray.zip (servers.emixArray.rotate 1)).foldlM
    (sortRing oneSortition draws) (FiniteGraph.empty.addNodes servers.emixArray)
  let graph ← servers.emixArray.zipIdx.foldlM
    (shortcutsFrom logs config draws servers.emixArray) graph
  let graph ← servers.leaders.foldlM (sortCombo servers.emixes combos comboSortition draws)
    (graph.addNodes servers.leaders)
  return (graph, "")

/-- Step 2. -/
def firstGraph (combos : List (List α)) (comboSortition : VRFDistribution) :
    Py (FiniteGraph α × String) :=
  let b := config.vrfBDbEmix
  if b = 0 then erdosRenyi logs servers config draws
  else if b > 0 then structured logs servers config draws combos comboSortition
  else .ok (.empty, s!"Assuming that b={b} is >= 0 for VRF Topology")

/-- What is printed about the graph at the end. -/
def printGraph (graph : FiniteGraph α) : Py Unit :=
  if graph.nodes = [] then .error (.valueError "mean requires at least one data point")
  else if graph.isConnected then .ok ()
  else .error (.networkXError "Found infinite path length because the graph is not connected")

/-- The links of a graph. -/
def graphLinks (graph : FiniteGraph α) : List (PairLink α) :=
  graph.edges.map fun e => ⟨s(e.1, e.2), .direct, ["lsp"]⟩

/-- `randomized`, up to the links of the clients. -/
def randomized : Py (List (PairLink α)) := do
  pyAssert (1 ≤ servers.emixes.length)
  let combos ← combinations servers.emixes (min servers.emixArray.length config.vrfBDbEmix)
  let comboSortition ← choiceDistribution combos.length
  let (graph, configError) ← firstGraph logs servers config draws combos comboSortition
  let graph ← servers.dummies.foldlM (sortCombo servers.emixes combos comboSortition draws)
    (graph.addNodes servers.dummies)
  if configError ≠ "" then throw (.configError configError)
  printGraph graph
  return graphLinks graph

end Topology

end Prism.Config
