import Mathlib.Algebra.Order.Floor.Semifield
import Mathlib.Data.Rat.Floor
import Mathlib.Tactic.Positivity
import Prism.Lib.Double
import Prism.Lib.Undirected
import Prism.Python

/-!
The links between the emixes of the clustered topology (`prism/config/topology/clustered.py`).

The emixes are split into clusters. Inside a cluster they are a ring, with links that skip a third
of it; between two clusters there is one link, of the members that have the fewest. Nodes are only
compared. Square roots and quotients are exact; doubles would be rounded to the same sizes
(`sizes_of_doubles`).

* `clusterEmixes_spec`: how the emixes are split.
* `clusterInternalSkipRing_spec`, `interClusterLinks_spec`: the links.
* `emixes_connected_evenly`: all emixes are connected evenly.
-/

namespace Prism.Config

open Lib

/-! ### Links -/

/-- `ConnectionType`. -/
inductive ConnectionType where
  | undef
  | direct
  | indirect
  | mixed
  | localLink
deriving DecidableEq

/-- A `Link` with two members. -/
structure PairLink (α : Type) where
  members : Sym2 α
  connectionType : ConnectionType
  tags : List String

variable {α : Type}

/-- The edges that links are. -/
def edgesOf (links : List (PairLink α)) : List (Sym2 α) := links.map PairLink.members

/-- `NodeUsage`. -/
structure NodeUsage (α : Type) where
  connectionType : ConnectionType
  tags : List String
  links : List (PairLink α) := []
  linkedPairs : List (Sym2 α) := []
  nodeUsage : α → ℕ := fun _ => 0

namespace NodeUsage

variable [DecidableEq α] (self : NodeUsage α)

/-- `linked`. -/
def linked (n1 n2 : α) : Bool := s(n1, n2) ∈ self.linkedPairs

/-- `node_usage[n] += 1`. -/
def bump (usage : α → ℕ) (n : α) : α → ℕ := Function.update usage n (usage n + 1)

/-- `add_link`. There is no traceback where nothing was raised. -/
def addLink (n1 n2 : α) : Py (NodeUsage α) :=
  if n1 = n2 then .error (.configError "Trying to link a node to itself...")
  else if self.linked n1 n2 then .ok self
  else .ok { self with
    links := self.links ++ [⟨s(n1, n2), self.connectionType, self.tags⟩]
    linkedPairs := self.linkedPairs ++ [s(n1, n2)]
    nodeUsage := bump (bump self.nodeUsage n1) n2 }

/-- `minimal_nodes`. -/
def minimalNodes (nodes : List α) : Py (List α) :=
  match (nodes.map self.nodeUsage).min? with
  | none => .error (.valueError "min() arg is an empty sequence")
  | some minUsage => .ok (nodes.filter fun node => self.nodeUsage node = minUsage)

end NodeUsage

/-! ### Clusters -/

/-- `math.ceil(math.sqrt(n))`. -/
def ceilSqrt (n : ℕ) : ℕ := if n.sqrt * n.sqrt = n then n.sqrt else n.sqrt + 1

/-- `decide_cluster_count`. -/
def decideClusterCount (emixCount : ℕ) : Py ℕ :=
  let emixesPerCluster := ceilSqrt emixCount
  if emixesPerCluster = 0 then .error .zeroDivisionError
  else .ok ⌈(emixCount : ℚ) / emixesPerCluster⌉₊

/-- The loop of `cluster_emixes` over the clusters from the `i`-th on. -/
def clustersFrom (emixes : List α) (clusterSize bonusClusters : ℕ) : ℕ → ℕ → ℕ → List (List α)
  | 0, _, _ => []
  | rest + 1, i, nextCluster =>
    let size := if i < bonusClusters then clusterSize + 1 else clusterSize
    (emixes.drop nextCluster).take size ::
      clustersFrom emixes clusterSize bonusClusters rest (i + 1) (nextCluster + size)

/-- `cluster_emixes`, for a number of clusters that is not negative. -/
def clusterEmixes (emixes : List α) (clusterCount : ℕ) : Py (List (List α)) :=
  if clusterCount = 0 then .error .zeroDivisionError
  else
    let clusterSize := ⌊(emixes.length : ℚ) / clusterCount⌋₊
    let bonusClusters := emixes.length % clusterCount
    .ok (clustersFrom emixes clusterSize bonusClusters clusterCount 0 0)

/-! ### Splitting -/

/-- The square root is rounded up: to the least number whose square is not below. -/
theorem ceilSqrt_le_iff {n m : ℕ} : ceilSqrt n ≤ m ↔ n ≤ m * m := by
  have low := Nat.sqrt_le n
  have high := Nat.lt_succ_sqrt n
  unfold ceilSqrt
  split_ifs with square
  · conv_rhs => rw [← square]
    exact (Nat.mul_self_le_mul_self_iff).symm
  · constructor
    · intro le
      exact high.le.trans (Nat.mul_self_le_mul_self le)
    · intro le
      exact Nat.mul_self_lt_mul_self_iff.mp (lt_of_lt_of_le (lt_of_le_of_ne low square) le)

/-- **There are some clusters**, and no more than emixes. -/
theorem decideClusterCount_spec {n : ℕ} (pos : 1 ≤ n) :
    ∃ count, decideClusterCount n = .ok count ∧ 1 ≤ count ∧ count ≤ n := by
  have most : ceilSqrt n ≠ 0 := by
    intro zero
    have := ceilSqrt_le_iff.mp zero.le
    omega
  have rootPos : (1 : ℚ) ≤ ceilSqrt n := by exact_mod_cast Nat.one_le_iff_ne_zero.mpr most
  have size : (0 : ℚ) < n := by exact_mod_cast pos
  refine ⟨_, if_neg most, Nat.one_le_ceil_iff.mpr (by positivity), Nat.ceil_le.mpr ?_⟩
  exact div_le_self size.le rootPos

/-- Quotients that are doubles are rounded to the same sizes, for all lists that a memory holds. -/
theorem sizes_of_doubles {n m : ℕ} (small : n < 2 ^ 53) (pos : 0 < m) :
    ⌊double ((n : ℚ) / m)⌋₊ = ⌊(n : ℚ) / m⌋₊ ∧ ⌈double ((n : ℚ) / m)⌉₊ = ⌈(n : ℚ) / m⌉₊ := by
  rw [← Int.floor_toNat, ← Int.floor_toNat, ← Int.ceil_toNat, ← Int.ceil_toNat,
    floor_double_div small pos, ceil_double_div small pos]
  exact ⟨rfl, rfl⟩

/-- A list is split in order into some parts of even size. -/
structure SplitEvenly (emixes : List α) (count : ℕ) (clusters : List (List α)) : Prop where
  flatten : clusters.flatten = emixes
  length : clusters.length = count
  nonempty : ∀ cluster ∈ clusters, cluster ≠ []
  even : ∀ cluster ∈ clusters, ∀ other ∈ clusters, cluster.length ≤ other.length + 1

/-- The loop takes what is left, when the clusters that are to come have room for it. -/
theorem clustersFrom_spec (emixes : List α) (size bonus rest i next : ℕ)
    (fits : bonus - i ≤ rest) (whole : next + size * rest + (bonus - i) = emixes.length) :
    (clustersFrom emixes size bonus rest i next).flatten = emixes.drop next ∧
      (clustersFrom emixes size bonus rest i next).length = rest ∧
      ∀ cluster ∈ clustersFrom emixes size bonus rest i next,
        size ≤ cluster.length ∧ cluster.length ≤ size + 1 := by
  induction rest generalizing i next with
  | zero =>
      refine ⟨(List.drop_eq_nil_of_le (by omega)).symm, rfl, fun cluster mem => ?_⟩
      exact absurd mem List.not_mem_nil
  | succ rest ih =>
      rw [Nat.mul_succ] at whole
      -- The cluster gets one more emix while there are some left over.
      obtain ⟨own, isOwn, low, high, left⟩ : ∃ own,
          (if i < bonus then size + 1 else size) = own ∧ size ≤ own ∧ own ≤ size + 1 ∧
            next + own + size * rest + (bonus - (i + 1)) = emixes.length := by
        refine ⟨_, rfl, ?_⟩
        split_ifs <;> omega
      obtain ⟨flat, length, sizes⟩ := ih _ _ (by omega) left
      rw [clustersFrom, isOwn]
      refine ⟨?_, by rw [List.length_cons, length], fun cluster mem => ?_⟩
      · rw [List.flatten_cons, flat, ← List.drop_drop, List.take_append_drop]
      · rcases List.mem_cons.mp mem with rfl | later
        · rw [List.length_take, List.length_drop, min_eq_left (by omega)]
          exact ⟨low, high⟩
        · exact sizes cluster later

/-- **The emixes are split evenly.** -/
theorem clusterEmixes_spec {emixes : List α} {count : ℕ} (pos : 1 ≤ count)
    (le : count ≤ emixes.length) :
    ∃ clusters, clusterEmixes emixes count = .ok clusters ∧
      SplitEvenly emixes count clusters := by
  have quotient : ⌊(emixes.length : ℚ) / count⌋₊ = emixes.length / count :=
    Nat.floor_div_eq_div emixes.length count
  have left := Nat.mod_lt emixes.length pos
  have whole := Nat.div_add_mod' emixes.length count
  obtain ⟨flat, length, sizes⟩ := clustersFrom_spec emixes (emixes.length / count)
    (emixes.length % count) count 0 0 (by omega) (by omega)
  refine ⟨_, if_neg (by omega), ?_⟩
  rw [quotient]
  refine ⟨flat, length, fun cluster mem => ?_, fun cluster mem other mem' => ?_⟩
  · have some_each := Nat.div_pos le pos
    exact List.length_pos_iff.mp (some_each.trans_le (sizes cluster mem).1)
  · exact (sizes cluster mem).2.trans (Nat.succ_le_succ (sizes other mem').1)

/-! ### The links of the emixes -/

variable [DecidableEq α]

/-- `add_link`, of two nodes that are not the same. -/
def addOther (usage : NodeUsage α) (node other : α) : Py (NodeUsage α) :=
  if node ≠ other then usage.addLink node other else .ok usage

/-- The loop of `cluster_internal_skip_ring`, for one node. -/
def skipRingNode (cluster : List α) (skipDistance : ℕ) (usage : NodeUsage α) (entry : α × ℕ) :
    Py (NodeUsage α) := do
  let nextNode ← pyIndex cluster ((entry.2 + 1) % cluster.length)
  let skipNode ← pyIndex cluster ((entry.2 + skipDistance) % cluster.length)
  addOther (← addOther usage entry.1 nextNode) entry.1 skipNode

/-- `cluster_internal_skip_ring`. -/
def clusterInternalSkipRing (cluster : List α) (ctype : ConnectionType) :
    Py (List (PairLink α)) :=
  let skipDistance := ⌈(cluster.length : ℚ) / 3⌉₊
  (cluster.zipIdx.foldlM (skipRingNode cluster skipDistance)
    { connectionType := ctype, tags := ["lsp"] }).map NodeUsage.links

/-- The loop of `inter_cluster_links`, for two clusters. -/
def linkClusters (sourceCluster : List α) (usage : NodeUsage α) (targetCluster : List α) :
    Py (NodeUsage α) := do
  let sourceNode ← pyIndex (← usage.minimalNodes sourceCluster) 0
  let targetNode ← pyIndex (← usage.minimalNodes targetCluster) 0
  usage.addLink sourceNode targetNode

/-- `inter_cluster_links`. -/
def interClusterLinks (clusters : List (List α)) (ctype : ConnectionType) :
    Py (List (PairLink α)) :=
  (clusters.zipIdx.foldlM (fun usage entry =>
    (clusters.drop (entry.2 + 1)).foldlM (linkClusters entry.1) usage)
    { connectionType := ctype, tags := ["lsp"] }).map NodeUsage.links

/-- The settings that the links of the emixes depend on. -/
structure ClusterConfig where
  emixClusters : ℕ
  indirectEmixToEmix : Bool
  indirectClusterToCluster : Bool

/-- `connection_type`. -/
def connectionType (indirect : Bool) : ConnectionType :=
  if indirect then .indirect else .direct

/-- `config.emix_clusters or decide_cluster_count(len(emixes))`. -/
def clusterCount (config : ClusterConfig) (emixCount : ℕ) : Py ℕ :=
  if config.emixClusters ≠ 0 then .ok config.emixClusters else decideClusterCount emixCount

/-- The links of the emixes in `clustered`. -/
def emixLinks (config : ClusterConfig) (emixes : List α) : Py (List (PairLink α)) := do
  let clusters ← clusterEmixes emixes (← clusterCount config emixes.length)
  let inside ← clusters.mapM fun cluster =>
    clusterInternalSkipRing cluster (connectionType config.indirectEmixToEmix)
  let between ← interClusterLinks clusters (connectionType config.indirectClusterToCluster)
  return inside.flatten ++ between

/-! ### What is linked -/

namespace NodeUsage

/-- No link is made twice, none is from a node to itself, and the links of all nodes are counted. -/
structure Sound (usage : NodeUsage α) : Prop where
  pairs : usage.linkedPairs = edgesOf usage.links
  nodup : (edgesOf usage.links).Nodup
  proper : ∀ e ∈ edgesOf usage.links, ¬ e.IsDiag
  counted : ∀ n, usage.nodeUsage n = (edgesOf usage.links).countP (n ∈ ·)

variable {self : NodeUsage α}

theorem sound_init (ctype : ConnectionType) (tags : List String) :
    Sound (α := α) { connectionType := ctype, tags } where
  pairs := rfl
  nodup := List.nodup_nil
  proper _ mem := absurd mem List.not_mem_nil
  counted _ := rfl

/-- **A link that is new** is made and counted. -/
theorem Sound.addLink (sound : self.Sound) {n1 n2 : α} (ne : n1 ≠ n2)
    (new : s(n1, n2) ∉ edgesOf self.links) :
    ∃ after, self.addLink n1 n2 = .ok after ∧ after.Sound ∧
      edgesOf after.links = edgesOf self.links ++ [s(n1, n2)] := by
  have unlinked : ¬ self.linked n1 n2 = true := by
    rw [linked, sound.pairs, decide_eq_true_eq]
    exact new
  have edges : edgesOf (self.links ++ [⟨s(n1, n2), self.connectionType, self.tags⟩]) =
      edgesOf self.links ++ [s(n1, n2)] := List.map_append
  refine ⟨_, (if_neg ne).trans (if_neg unlinked), ?_, edges⟩
  constructor
  · rw [edges, sound.pairs]
  · rw [edges, ← List.concat_eq_append]
    exact sound.nodup.concat new
  · intro e mem
    rw [edges] at mem
    rcases List.mem_append.mp mem with old | isNew
    · exact sound.proper e old
    · rw [List.mem_singleton.mp isNew]
      exact ne
  · intro n
    rw [edges, List.countP_append, ← sound.counted, List.countP_singleton]
    unfold bump
    simp only [Function.update_apply, Sym2.mem_iff, decide_eq_true_eq]
    split_ifs <;> grind

/-- **A link of two nodes**, if they are not the same and have none. -/
theorem Sound.addOther (sound : self.Sound) (node other : α) :
    ∃ after, Config.addOther self node other = .ok after ∧ after.Sound ∧
      ∀ e, e ∈ edgesOf after.links ↔
        e ∈ edgesOf self.links ∨ ¬ e.IsDiag ∧ e = s(node, other) := by
  unfold Config.addOther
  by_cases ne : node ≠ other
  · rw [if_pos ne]
    by_cases old : s(node, other) ∈ edgesOf self.links
    · refine ⟨self, ?_, sound, fun e => ⟨.inl, ?_⟩⟩
      · have linked : self.linked node other = true := by
          rw [linked, sound.pairs, decide_eq_true_eq]
          exact old
        exact (if_neg ne).trans (if_pos linked)
      · rintro (mem | ⟨-, rfl⟩)
        · exact mem
        · exact old
    · obtain ⟨after, run, sound', edges⟩ := sound.addLink ne old
      refine ⟨after, run, sound', fun e => ?_⟩
      rw [edges, List.mem_append, List.mem_singleton]
      constructor
      · rintro (mem | rfl)
        · exact .inl mem
        · exact .inr ⟨ne, rfl⟩
      · rintro (mem | ⟨-, rfl⟩)
        · exact .inl mem
        · exact .inr rfl
  · rw [if_neg ne]
    refine ⟨self, rfl, sound, fun e => ⟨.inl, ?_⟩⟩
    rintro (mem | ⟨proper, rfl⟩)
    · exact mem
    · exact absurd (not_not.mp ne) proper

end NodeUsage

/-! ### Inside a cluster -/

/-- The edge is from the node at a place to the next one, or to the one that is skipped to. -/
def Leads (cluster : List α) (skip : ℕ) (entry : α × ℕ) (e : Sym2 α) : Prop :=
  ∃ k ∈ [1, skip], ∃ y, cluster[(entry.2 + k) % cluster.length]? = some y ∧ e = s(entry.1, y)

omit [DecidableEq α] in
theorem exists_leads {cluster : List α} {skip : ℕ} {e : Sym2 α} :
    (∃ entry ∈ cluster.zipIdx, Leads cluster skip entry e) ↔
      e ∈ around 1 cluster ++ around skip cluster := by
  rw [List.mem_append, mem_around, mem_around]
  constructor
  · rintro ⟨⟨x, i⟩, mem, k, isK, y, there, rfl⟩
    have here := List.mk_mem_zipIdx_iff_getElem?.mp mem
    simp only [List.mem_cons, List.not_mem_nil, or_false] at isK
    rcases isK with rfl | rfl
    · exact .inl ⟨i, x, y, here, there, rfl⟩
    · exact .inr ⟨i, x, y, here, there, rfl⟩
  · rintro (⟨i, x, y, here, there, rfl⟩ | ⟨i, x, y, here, there, rfl⟩)
    · exact ⟨(x, i), List.mk_mem_zipIdx_iff_getElem?.mpr here, 1, by simp, y, there, rfl⟩
    · exact ⟨(x, i), List.mk_mem_zipIdx_iff_getElem?.mpr here, skip, by simp, y, there, rfl⟩

/-- One node of the ring. -/
theorem skipRingNode_spec {cluster : List α} {usage : NodeUsage α} (sound : usage.Sound)
    (skip : ℕ) {node : α} {i : ℕ} (place : cluster[i]? = some node) :
    ∃ after, skipRingNode cluster skip usage (node, i) = .ok after ∧ after.Sound ∧
      ∀ e, e ∈ edgesOf after.links ↔
        e ∈ edgesOf usage.links ∨ ¬ e.IsDiag ∧ Leads cluster skip (node, i) e := by
  have some_nodes : 0 < cluster.length := by
    have := (List.getElem?_eq_some_iff.mp place).1
    omega
  have around : ∀ k, ∃ y, cluster[(i + k) % cluster.length]? = some y := fun k =>
    ⟨_, List.getElem?_eq_getElem (Nat.mod_lt _ some_nodes)⟩
  obtain ⟨next, isNext⟩ := around 1
  obtain ⟨other, isOther⟩ := around skip
  obtain ⟨first, run, sound₁, edges₁⟩ := sound.addOther node next
  obtain ⟨second, run', sound₂, edges₂⟩ := sound₁.addOther node other
  refine ⟨second, ?_, sound₂, fun e => ?_⟩
  · simp only [skipRingNode, pyIndex, isNext, isOther, ok_bind, run, run']
  · rw [edges₂, edges₁]
    simp only [Leads, List.mem_cons, List.not_mem_nil, or_false, exists_eq_or_imp, exists_eq_left,
      isNext, isOther, Option.some.injEq, exists_eq_left']
    tauto

/-- All nodes of the ring that are left. -/
theorem skipRing_foldlM {cluster : List α} (skip : ℕ) (entries : List (α × ℕ))
    {usage : NodeUsage α} (sound : usage.Sound)
    (places : ∀ entry ∈ entries, cluster[entry.2]? = some entry.1) :
    ∃ after, entries.foldlM (skipRingNode cluster skip) usage = .ok after ∧ after.Sound ∧
      ∀ e, e ∈ edgesOf after.links ↔ e ∈ edgesOf usage.links ∨ ¬ e.IsDiag ∧
        ∃ entry ∈ entries, Leads cluster skip entry e := by
  induction entries generalizing usage with
  | nil => exact ⟨usage, rfl, sound, fun e => by simp⟩
  | cons entry entries ih =>
      obtain ⟨middle, run, sound', edges⟩ :=
        skipRingNode_spec sound skip (places entry List.mem_cons_self)
      obtain ⟨after, run', sound'', edges'⟩ :=
        ih sound' fun entry mem => places entry (List.mem_cons_of_mem _ mem)
      refine ⟨after, ?_, sound'', fun e => ?_⟩
      · rw [List.foldlM_cons, run, ok_bind, run']
      · simp only [edges', edges, List.mem_cons, exists_eq_or_imp, and_or_left, or_assoc]

/-- **What links a cluster inside.** No pair is linked twice, no node with itself or with another
cluster, each node has four links at most, and all are connected. -/
structure LinkedInside (cluster : List α) (links : List (PairLink α)) : Prop where
  nodup : (edgesOf links).Nodup
  proper : ∀ e ∈ edgesOf links, ¬ e.IsDiag
  own : ∀ e ∈ edgesOf links, ∀ x ∈ e, x ∈ cluster
  few : ∀ x, (edgesOf links).countP (x ∈ ·) ≤ 4
  connected : ∀ x ∈ cluster, ∀ y ∈ cluster, (graphOf (edgesOf links)).Reachable x y

/-- **A ring with skips** links a cluster inside. -/
theorem clusterInternalSkipRing_spec {cluster : List α} (nodup : cluster.Nodup)
    (ctype : ConnectionType) :
    ∃ links, clusterInternalSkipRing cluster ctype = .ok links ∧ LinkedInside cluster links := by
  unfold clusterInternalSkipRing
  dsimp only
  generalize ⌈(cluster.length : ℚ) / 3⌉₊ = skip
  obtain ⟨after, run, sound, edges⟩ := skipRing_foldlM skip cluster.zipIdx
    (NodeUsage.sound_init ctype ["lsp"]) fun entry mem => List.mem_zipIdx_iff_getElem?.mp mem
  have rings : ∀ e, e ∈ edgesOf after.links ↔
      ¬ e.IsDiag ∧ e ∈ around 1 cluster ++ around skip cluster := by
    intro e
    rw [edges, exists_leads]
    exact or_iff_right List.not_mem_nil
  refine ⟨after.links, by rw [run]; rfl, sound.nodup, sound.proper, ?_, ?_, ?_⟩
  · intro e mem x inside
    rcases List.mem_append.mp ((rings e).mp mem).2 with ring | ring
    · exact mem_of_mem_around ring inside
    · exact mem_of_mem_around ring inside
  · intro x
    have sub := List.subperm_of_subset sound.nodup fun e mem => ((rings e).mp mem).2
    refine (sub.countP_le _).trans ?_
    rw [List.countP_append]
    exact Nat.add_le_add (countP_around_le nodup 1 x) (countP_around_le nodup skip x)
  · refine reachable_around fun e mem => ?_
    by_cases diag : e.IsDiag
    · exact .inl diag
    · exact .inr ((rings e).mpr ⟨diag, List.mem_append_left _ mem⟩)

/-! ### Between clusters -/

/-- The edge is between two clusters. -/
def Joins (A B : List α) (e : Sym2 α) : Prop := ∃ a ∈ A, ∃ b ∈ B, e = s(a, b)

instance (A B : List α) : DecidablePred (Joins A B) :=
  fun e => inferInstanceAs (Decidable (∃ a ∈ A, ∃ b ∈ B, e = s(a, b)))

/-- Clusters that have members, none of which is in two clusters. -/
structure Apart (clusters : List (List α)) : Prop where
  nodup : clusters.Nodup
  nonempty : ∀ cluster ∈ clusters, cluster ≠ []
  same : ∀ A ∈ clusters, ∀ B ∈ clusters, ∀ x, x ∈ A → x ∈ B → A = B

/-- Inside each cluster the links are spread evenly. -/
def Fair (clusters : List (List α)) (usage : α → ℕ) : Prop :=
  ∀ cluster ∈ clusters, ∀ x ∈ cluster, ∀ y ∈ cluster, usage x ≤ usage y + 1

omit [DecidableEq α] in
/-- A node with the fewest links is chosen. -/
theorem minimalNodes_spec {nodes : List α} (some_nodes : nodes ≠ []) (usage : NodeUsage α) :
    ∃ minimal node, usage.minimalNodes nodes = .ok minimal ∧ pyIndex minimal 0 = .ok node ∧
      node ∈ nodes ∧ ∀ other ∈ nodes, usage.nodeUsage node ≤ usage.nodeUsage other := by
  unfold NodeUsage.minimalNodes
  cases least : (nodes.map usage.nodeUsage).min? with
  | none =>
      rw [List.min?_eq_none_iff, List.map_eq_nil_iff] at least
      exact absurd least some_nodes
  | some minUsage =>
      obtain ⟨mem, le⟩ := List.min?_eq_some_iff.mp least
      obtain ⟨witness, isNode, isLeast⟩ := List.mem_map.mp mem
      have chosen : witness ∈ nodes.filter fun node => usage.nodeUsage node = minUsage :=
        List.mem_filter.mpr ⟨isNode, decide_eq_true isLeast⟩
      cases minimal : nodes.filter fun node => usage.nodeUsage node = minUsage with
      | nil =>
          rw [minimal] at chosen
          cases chosen
      | cons node rest =>
          obtain ⟨isNode, same⟩ := List.mem_filter.mp (minimal ▸ List.mem_cons_self :
            node ∈ nodes.filter fun node => usage.nodeUsage node = minUsage)
          refine ⟨_, node, rfl, ?_, isNode, fun other isOther => ?_⟩
          · rw [minimal]
            rfl
          · rw [of_decide_eq_true same]
            exact le _ (List.mem_map_of_mem isOther)

section Between

variable {clusters : List (List α)} {A B A' B' : List α} {usage : NodeUsage α} {e : Sym2 α}

omit [DecidableEq α] in
theorem Joins.swap (joins : Joins A B e) : Joins B A e := by
  obtain ⟨a, isA, b, isB, rfl⟩ := joins
  exact ⟨b, isB, a, isA, Sym2.eq_swap⟩

omit [DecidableEq α] in
/-- An edge is between two clusters only. -/
theorem Apart.joins_unique (apart : Apart clusters) (isA : A ∈ clusters) (isB : B ∈ clusters)
    (isA' : A' ∈ clusters) (isB' : B' ∈ clusters) (joins : Joins A B e) (joins' : Joins A' B' e) :
    s(A, B) = s(A', B') := by
  obtain ⟨a, inA, b, inB, rfl⟩ := joins
  obtain ⟨a', inA', b', inB', edge⟩ := joins'
  rcases Sym2.eq_iff.mp edge with ⟨rfl, rfl⟩ | ⟨rfl, rfl⟩
  · rw [apart.same A isA A' isA' a inA inA', apart.same B isB B' isB' b inB inB']
  · rw [apart.same A isA B' isB' a inA inB', apart.same B isB A' isA' b inB inA', Sym2.eq_swap]

/-- **Two clusters that have no link** get one, of members that have the fewest. -/
theorem linkClusters_spec (apart : Apart clusters) (sound : usage.Sound)
    (fair : Fair clusters usage.nodeUsage) (isA : A ∈ clusters) (isB : B ∈ clusters)
    (ne : A ≠ B) (new : ∀ e ∈ edgesOf usage.links, ¬ Joins A B e) :
    ∃ after e, linkClusters A usage B = .ok after ∧ after.Sound ∧
      Fair clusters after.nodeUsage ∧ edgesOf after.links = edgesOf usage.links ++ [e] ∧
      Joins A B e := by
  obtain ⟨minimal, a, run, found, inA, leastA⟩ := minimalNodes_spec (apart.nonempty A isA) usage
  obtain ⟨minimal', b, run', found', inB, leastB⟩ := minimalNodes_spec (apart.nonempty B isB) usage
  have other : a ≠ b := by
    rintro rfl
    exact ne (apart.same A isA B isB a inA inB)
  obtain ⟨after, added, sound', edges⟩ := sound.addLink other
    fun mem => new _ mem ⟨a, inA, b, inB, rfl⟩
  refine ⟨after, s(a, b), ?_, sound', ?_, edges, a, inA, b, inB, rfl⟩
  · simp only [linkClusters, run, found, run', found', ok_bind, added]
  · have counts : ∀ n, after.nodeUsage n =
        usage.nodeUsage n + if n ∈ s(a, b) then 1 else 0 := by
      intro n
      rw [sound'.counted, sound.counted, edges, List.countP_append, List.countP_singleton]
      simp only [decide_eq_true_eq]
    intro cluster isOne x isX y isY
    rw [counts x, counts y]
    -- Only the nodes that were chosen have one more, and they had the fewest.
    by_cases chosen : x ∈ s(a, b)
    · rw [if_pos chosen]
      have least : usage.nodeUsage x ≤ usage.nodeUsage y := by
        rcases Sym2.mem_iff.mp chosen with rfl | rfl
        · exact leastA y (apart.same cluster isOne A isA x isX inA ▸ isY)
        · exact leastB y (apart.same cluster isOne B isB x isX inB ▸ isY)
      omega
    · rw [if_neg chosen]
      have before := fair cluster isOne x isX y isY
      omega

/-- The links that were made so far are one between each two of the clusters that are done. -/
structure Linked (clusters : List (List α)) (done : List (List α × List α))
    (usage : NodeUsage α) : Prop where
  sound : usage.Sound
  fair : Fair clusters usage.nodeUsage
  made : ∀ e ∈ edgesOf usage.links, ∃ p ∈ done, Joins p.1 p.2 e
  once : ∀ p ∈ done, (edgesOf usage.links).countP (Joins p.1 p.2) = 1

/-- **Two more clusters** are linked. -/
theorem Linked.step (apart : Apart clusters) {done : List (List α × List α)}
    (linked : Linked clusters done usage) (pairs : ∀ q ∈ done, q.1 ∈ clusters ∧ q.2 ∈ clusters)
    (isA : A ∈ clusters) (isB : B ∈ clusters) (ne : A ≠ B)
    (fresh : ∀ q ∈ done, s(q.1, q.2) ≠ s(A, B)) :
    ∃ after, linkClusters A usage B = .ok after ∧ Linked clusters (done ++ [(A, B)]) after := by
  have distinct : ∀ q ∈ done, ∀ e, Joins q.1 q.2 e → ¬ Joins A B e := fun q isDone e joins joins' =>
    fresh q isDone (apart.joins_unique (pairs q isDone).1 (pairs q isDone).2 isA isB joins joins')
  have new : ∀ e ∈ edgesOf usage.links, ¬ Joins A B e := by
    intro e mem
    obtain ⟨q, isDone, joins⟩ := linked.made e mem
    exact distinct q isDone e joins
  obtain ⟨after, e, run, sound, fair, edges, joins⟩ :=
    linkClusters_spec apart linked.sound linked.fair isA isB ne new
  refine ⟨after, run, sound, fair, fun e' mem => ?_, fun q isDone => ?_⟩
  · rw [edges] at mem
    rcases List.mem_append.mp mem with old | isNew
    · obtain ⟨q, isDone, joins'⟩ := linked.made e' old
      exact ⟨q, List.mem_append_left _ isDone, joins'⟩
    · rw [List.mem_singleton.mp isNew]
      exact ⟨(A, B), List.mem_append_right _ List.mem_cons_self, joins⟩
  · rw [edges, List.countP_append, List.countP_singleton]
    rcases List.mem_append.mp isDone with old | isNew
    · rw [linked.once q old, if_neg (by simpa using fun other => distinct q old e other joins)]
    · rw [List.mem_singleton.mp isNew, if_pos (by simpa using joins)]
      rw [List.countP_eq_zero.mpr fun e' mem => by simpa using new e' mem]

/-- **The clusters that are left** are linked. -/
theorem Linked.foldlM (apart : Apart clusters) {done todo : List (List α × List α)}
    (whole : done ++ todo = pairs clusters) (linked : Linked clusters done usage) :
    ∃ after, todo.foldlM (fun usage p => linkClusters p.1 usage p.2) usage = .ok after ∧
      Linked clusters (pairs clusters) after := by
  induction todo generalizing done usage with
  | nil =>
      rw [← whole, List.append_nil]
      exact ⟨usage, rfl, linked⟩
  | cons p todo ih =>
      have nodup := nodup_pairs apart.nodup
      rw [← whole, List.map_append, List.map_cons] at nodup
      have isPair : p ∈ pairs clusters := by
        rw [← whole]
        exact List.mem_append_right _ List.mem_cons_self
      have isDone : ∀ q ∈ done, q ∈ pairs clusters := by
        intro q mem
        rw [← whole]
        exact List.mem_append_left _ mem
      obtain ⟨middle, run, linked'⟩ := linked.step apart
        (fun q mem => mem_of_mem_pairs (isDone q mem)) (mem_of_mem_pairs isPair).1
        (mem_of_mem_pairs isPair).2 (rel_of_mem_pairs apart.nodup isPair) fun q mem same =>
          (List.nodup_append.mp nodup).2.2 _ (List.mem_map_of_mem mem) _ List.mem_cons_self same
      obtain ⟨after, run', result⟩ := ih (by rw [← whole, List.append_assoc]; rfl) linked'
      refine ⟨after, ?_, result⟩
      rw [List.foldlM_cons, run, ok_bind, run']

/-- **What links the clusters.** No pair is linked twice, no node with itself, there is one link
between each two clusters, and the nodes of a cluster have almost the same number of links. -/
structure LinkedBetween (clusters : List (List α)) (links : List (PairLink α)) : Prop where
  nodup : (edgesOf links).Nodup
  proper : ∀ e ∈ edgesOf links, ¬ e.IsDiag
  across : ∀ e ∈ edgesOf links, ∃ A ∈ clusters, ∃ B ∈ clusters, A ≠ B ∧ Joins A B e
  once : ∀ A ∈ clusters, ∀ B ∈ clusters, A ≠ B → (edgesOf links).countP (Joins A B) = 1
  fair : Fair clusters fun x => (edgesOf links).countP (x ∈ ·)

/-- **The minimal nodes** link the clusters evenly. -/
theorem interClusterLinks_spec (apart : Apart clusters) (ctype : ConnectionType) :
    ∃ links, interClusterLinks clusters ctype = .ok links ∧ LinkedBetween clusters links := by
  have start : Linked clusters [] { connectionType := ctype, tags := ["lsp"] } :=
    ⟨NodeUsage.sound_init ctype ["lsp"], fun _ _ _ _ _ _ => Nat.zero_le _,
      fun _ mem => absurd mem List.not_mem_nil, fun _ mem => absurd mem List.not_mem_nil⟩
  obtain ⟨after, run, linked⟩ := start.foldlM apart (List.nil_append _)
  rw [← foldlM_pairs (fun A usage B => linkClusters A usage B) [] clusters] at run
  refine ⟨after.links, ?_, linked.sound.nodup, linked.sound.proper, ?_, ?_, ?_⟩
  · exact congrArg (Except.map NodeUsage.links) run
  · intro e mem
    obtain ⟨p, isPair, joins⟩ := linked.made e mem
    obtain ⟨isA, isB⟩ := mem_of_mem_pairs isPair
    exact ⟨p.1, isA, p.2, isB, rel_of_mem_pairs apart.nodup isPair, joins⟩
  · intro A isA B isB ne
    obtain ⟨p, isPair, same⟩ := List.mem_map.mp (mem_pairs isA isB ne)
    have swapped : ∀ e, Joins p.1 p.2 e ↔ Joins A B e := by
      intro e
      rcases Sym2.eq_iff.mp same with ⟨rfl, rfl⟩ | ⟨rfl, rfl⟩
      · rfl
      · exact ⟨Joins.swap, Joins.swap⟩
    rw [← linked.once p isPair]
    exact List.countP_congr fun e _ => by simp [swapped]
  · intro cluster isOne x isX y isY
    dsimp only
    rw [← linked.sound.counted, ← linked.sound.counted]
    exact linked.fair cluster isOne x isX y isY

end Between

/-! ### All emixes -/

/-- **The emixes are connected evenly**, inside clusters and between them. -/
structure ConnectedEvenly (clusters : List (List α)) (inside : List α → List (PairLink α))
    (between : List (PairLink α)) : Prop where
  own : ∀ cluster ∈ clusters, LinkedInside cluster (inside cluster)
  others : LinkedBetween clusters between
  nodup : (edgesOf (clusters.flatMap inside ++ between)).Nodup
  connected : ∀ x ∈ clusters.flatten, ∀ y ∈ clusters.flatten,
    (graphOf (edgesOf (clusters.flatMap inside ++ between))).Reachable x y

section All

variable {emixes : List α} {clusters : List (List α)} {inside : List α → List (PairLink α)}
  {between : List (PairLink α)} {count : ℕ}

omit [DecidableEq α] in
theorem SplitEvenly.apart (split : SplitEvenly emixes count clusters) (nodup : emixes.Nodup) :
    Apart clusters := by
  rw [← split.flatten, List.nodup_flatten] at nodup
  refine ⟨nodup.2.imp_of_mem ?_, split.nonempty, ?_⟩
  · rintro A B isA - disjoint rfl
    exact split.nonempty A isA (List.eq_nil_iff_forall_not_mem.mpr fun x mem => disjoint mem mem)
  · intro A isA B isB x inA inB
    by_contra ne
    have : Std.Symm (List.Disjoint (α := α)) := ⟨fun _ _ => List.Disjoint.symm⟩
    exact nodup.2.forall isA isB ne inA inB

omit [DecidableEq α] in
theorem edgesOf_flatMap (clusters : List (List α)) (inside : List α → List (PairLink α))
    (between : List (PairLink α)) :
    edgesOf (clusters.flatMap inside ++ between) =
      (clusters.flatMap fun cluster => edgesOf (inside cluster)) ++ edgesOf between := by
  unfold edgesOf
  rw [List.map_append, List.map_flatMap]

/-- No pair is linked twice, whether inside a cluster or between two. -/
theorem nodup_inside_between (apart : Apart clusters)
    (own : ∀ cluster ∈ clusters, LinkedInside cluster (inside cluster))
    (others : LinkedBetween clusters between) :
    (edgesOf (clusters.flatMap inside ++ between)).Nodup := by
  rw [edgesOf_flatMap, List.nodup_append]
  refine ⟨List.nodup_flatMap.mpr ⟨fun cluster isOne => (own cluster isOne).nodup, ?_⟩,
    others.nodup, ?_⟩
  · refine apart.nodup.imp_of_mem ?_
    intro A B isA isB ne e inA inB
    induction e with
    | h a b =>
        have mem := (own A isA).own _ inA a (Sym2.mem_mk_left a b)
        have mem' := (own B isB).own _ inB a (Sym2.mem_mk_left a b)
        exact ne (apart.same A isA B isB a mem mem')
  · rintro e isInside _ isBetween rfl
    obtain ⟨cluster, isOne, mem⟩ := List.mem_flatMap.mp isInside
    obtain ⟨A, isA, B, isB, ne, a, inA, b, inB, rfl⟩ := others.across e isBetween
    have first := (own cluster isOne).own _ mem a (Sym2.mem_mk_left a b)
    have second := (own cluster isOne).own _ mem b (Sym2.mem_mk_right a b)
    exact ne ((apart.same A isA cluster isOne a inA first).trans
      (apart.same cluster isOne B isB b second inB))

/-- All links together connect all emixes. -/
theorem reachable_inside_between
    (own : ∀ cluster ∈ clusters, LinkedInside cluster (inside cluster))
    (others : LinkedBetween clusters between) :
    ∀ x ∈ clusters.flatten, ∀ y ∈ clusters.flatten,
      (graphOf (edgesOf (clusters.flatMap inside ++ between))).Reachable x y := by
  intro x isX y isY
  obtain ⟨A, isA, inA⟩ := List.mem_flatten.mp isX
  obtain ⟨B, isB, inB⟩ := List.mem_flatten.mp isY
  rw [edgesOf_flatMap]
  have within : ∀ cluster ∈ clusters, ∀ x ∈ cluster, ∀ y ∈ cluster,
      (graphOf ((clusters.flatMap fun cluster => edgesOf (inside cluster)) ++
        edgesOf between)).Reachable x y := by
    intro cluster isOne x isX y isY
    refine reachable_mono (fun e mem => ?_) ((own cluster isOne).connected x isX y isY)
    exact List.mem_append_left _ (List.mem_flatMap.mpr ⟨cluster, isOne, mem⟩)
  by_cases same : A = B
  · exact within A isA x inA y (same ▸ inB)
  · have one := others.once A isA B isB same
    obtain ⟨e, mem, joins⟩ := List.countP_pos_iff.mp (one.symm ▸ Nat.one_pos)
    obtain ⟨a, isEnd, b, isEnd', rfl⟩ := of_decide_eq_true joins
    have across := reachable_of_edge (List.mem_append_right
      (clusters.flatMap fun cluster => edgesOf (inside cluster)) mem)
    exact ((within A isA x inA a isEnd).trans across).trans (within B isB b isEnd' y inB)

/-- **Clusters of any number** connect the emixes evenly. -/
theorem exists_connectedEvenly (nodup : emixes.Nodup) (pos : 1 ≤ count)
    (le : count ≤ emixes.length) (inner outer : ConnectionType) :
    ∃ clusters inside between, clusterEmixes emixes count = .ok clusters ∧
      SplitEvenly emixes count clusters ∧
      (∀ cluster ∈ clusters, clusterInternalSkipRing cluster inner = .ok (inside cluster)) ∧
      interClusterLinks clusters outer = .ok between ∧
      ConnectedEvenly clusters inside between := by
  obtain ⟨clusters, run, split⟩ := clusterEmixes_spec pos le
  have apart := split.apart nodup
  have each : ∀ cluster, ∃ links, cluster ∈ clusters →
      clusterInternalSkipRing cluster inner = .ok links ∧ LinkedInside cluster links := by
    intro cluster
    by_cases isOne : cluster ∈ clusters
    · have nodup' : cluster.Nodup := by
        rw [← split.flatten] at nodup
        exact (List.nodup_flatten.mp nodup).1 cluster isOne
      obtain ⟨links, made, spec⟩ := clusterInternalSkipRing_spec nodup' inner
      exact ⟨links, fun _ => ⟨made, spec⟩⟩
    · exact ⟨[], fun mem => absurd mem isOne⟩
  choose inside made using each
  obtain ⟨between, joined, others⟩ := interClusterLinks_spec apart outer
  have own := fun cluster isOne => (made cluster isOne).2
  exact ⟨clusters, inside, between, run, split, fun cluster isOne => (made cluster isOne).1, joined,
    own, others, nodup_inside_between apart own others, reachable_inside_between own others⟩

/-- **The clustered topology connects all emixes evenly.** The number of clusters that is decided on
is possible, and for every number that is possible, the emixes are split evenly and linked. -/
theorem emixes_connected_evenly (some_emixes : emixes ≠ []) (nodup : emixes.Nodup) :
    (∃ count, decideClusterCount emixes.length = .ok count ∧ 1 ≤ count ∧
      count ≤ emixes.length) ∧
    ∀ count, 1 ≤ count → count ≤ emixes.length → ∀ inner outer : ConnectionType,
      ∃ clusters inside between, clusterEmixes emixes count = .ok clusters ∧
        SplitEvenly emixes count clusters ∧
        (∀ cluster ∈ clusters, clusterInternalSkipRing cluster inner = .ok (inside cluster)) ∧
        interClusterLinks clusters outer = .ok between ∧
        ConnectedEvenly clusters inside between := by
  constructor
  · exact decideClusterCount_spec (List.length_pos_iff.mpr some_emixes)
  · intro count pos le inner outer
    exact exists_connectedEvenly nodup pos le inner outer

/-- Five emixes, in two clusters. -/
theorem five_emixes_connected :
    (∃ count, decideClusterCount 5 = .ok count ∧ 1 ≤ count ∧ count ≤ 5) ∧
    ∃ clusters inside between, clusterEmixes [0, 1, 2, 3, 4] 2 = .ok clusters ∧
      SplitEvenly [0, 1, 2, 3, 4] 2 clusters ∧
      (∀ cluster ∈ clusters, clusterInternalSkipRing cluster .direct = .ok (inside cluster)) ∧
      interClusterLinks clusters .direct = .ok between ∧
      ConnectedEvenly clusters inside between := by
  have all := @emixes_connected_evenly ℕ _ [0, 1, 2, 3, 4] (by decide) (by decide)
  exact ⟨all.1, all.2 2 (by decide) (by decide) .direct .direct⟩

/-- **The links of the emixes** in the topology connect all of them, and none twice. -/
theorem emixLinks_spec (some_emixes : emixes ≠ []) (nodup : emixes.Nodup) (config : ClusterConfig)
    (le : config.emixClusters ≤ emixes.length) :
    ∃ links, emixLinks config emixes = .ok links ∧ (edgesOf links).Nodup ∧
      ∀ x ∈ emixes, ∀ y ∈ emixes, (graphOf (edgesOf links)).Reachable x y := by
  obtain ⟨count, run, pos, le'⟩ : ∃ count, clusterCount config emixes.length = .ok count ∧
      1 ≤ count ∧ count ≤ emixes.length := by
    unfold clusterCount
    by_cases chosen : config.emixClusters ≠ 0
    · exact ⟨_, if_pos chosen, Nat.one_le_iff_ne_zero.mpr chosen, le⟩
    · rw [if_neg chosen]
      exact decideClusterCount_spec (List.length_pos_iff.mpr some_emixes)
  obtain ⟨clusters, inside, between, cut, split, made, joined, even⟩ := exists_connectedEvenly nodup
    pos le' (connectionType config.indirectEmixToEmix)
    (connectionType config.indirectClusterToCluster)
  refine ⟨clusters.flatMap inside ++ between, ?_, even.nodup, ?_⟩
  · unfold emixLinks
    rw [run, ok_bind, cut, ok_bind, mapM_ok made, ok_bind, joined, ok_bind, List.flatMap_def]
    rfl
  · rw [← split.flatten]
    exact even.connected

end All

end Prism.Config
