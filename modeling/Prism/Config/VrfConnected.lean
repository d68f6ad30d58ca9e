import Prism.Config.VrfTopology
import Prism.Lib.Comes
import Prism.Lib.Sorting

/-!
When the topology that is drawn by sortitions is connected, or refused.

The settings have to be in order, and every hash that is drawn has to have a role. Where the number
of emixes for a dropbox is zero, dummy servers are linked with no emix, so that a connected random
graph must not have any.

* `comes_randomAttempts`, `comes_structured`: what the two ways to link the servers come to.
* `randomized_iff`: the servers are connected, or the configuration is refused, exactly when.
-/

namespace Prism.Config

open Lib Vrf VRFDistribution

/-! ### Probabilities -/

/-- The value of `calc_p_from`. -/
def pFrom (logs : Logarithm) (c : ℚ) (n : ℕ) : ℚ := min (double (double (c * logs.log n) / n)) 1

section Probabilities

variable {logs : Logarithm} {c : ℚ} {n : ℕ}

theorem calcPFrom_ok (pos : 0 < n) : calcPFrom logs c n = .ok (pFrom logs c n) := by
  rw [calcPFrom, pyAssert_of_true pos]
  rfl

theorem pFrom_le_one : pFrom logs c n ≤ 1 := min_le_right _ _

/-- The factor has to be positive, unless there is one node. -/
theorem pFrom_nonneg_iff (pos : 0 < n) : 0 ≤ pFrom logs c n ↔ 0 ≤ c ∨ n = 1 := by
  have posQ : (0 : ℚ) < n := by exact_mod_cast pos
  unfold pFrom
  rw [le_min_iff, and_iff_left zero_le_one, double_nonneg_iff, le_div_iff₀ posQ, zero_mul,
    double_nonneg_iff]
  rcases Nat.lt_or_ge 1 n with more | one
  · have positive := logs.pos n more
    rw [mul_nonneg_iff_of_pos_right positive, or_iff_left (by omega)]
  · obtain rfl : n = 1 := by omega
    simp [logs.one]

end Probabilities

/-! ### Single draws -/

/-- An error that does not refuse the configuration. -/
def Crash (e : PyError) : Prop := ∀ text, e ≠ .configError text

/-- The hash has a role. -/
def Drawn (dist : VRFDistribution) (draw : Draw) : Prop :=
  ∃ role, dist.role (draw : ℕ) = .ok role

/-- The distribution of a link. -/
def linkDist (p : ℚ) : VRFDistribution := partition [("True", p), ("False", decimal (1 - p))]

theorem comes_assert {p : Prop} [Decidable p] : Comes Crash p (fun _ => True) (pyAssert p) := by
  by_cases holds : p
  · rw [pyAssert_of_true holds]
    exact .returns holds trivial
  · rw [pyAssert_of_false holds]
    exact .raises holds fun text same => nomatch same

section Draws

variable {draw : Draw} {roleMap : List (String × ℚ)}

/-- A hash without a role is beyond the bounds. -/
theorem comes_role : Comes Crash (Drawn (partition roleMap) draw)
    (fun role => (partition roleMap).role (draw : ℕ) = .ok role)
    ((partition roleMap).role (draw : ℕ)) := by
  cases found : (partition roleMap).role (draw : ℕ) with
  | ok role => exact .returns ⟨role, found⟩ rfl
  | error e =>
      rw [role_error (Nat.le_of_lt_succ draw.2) found]
      refine .raises ?_ fun text same => nomatch same
      rintro ⟨role, found'⟩
      rw [found] at found'
      cases found'

/-- A link that is drawn. -/
theorem comes_drawnLink : Comes Crash (Drawn (partition roleMap) draw)
    (fun linked => (linked = true ↔ (partition roleMap).role (draw : ℕ) = .ok "True"))
    (drawnLink (partition roleMap) draw) := by
  refine comes_role.andThen fun role found => ⟨_, rfl, ?_⟩
  rw [found, decide_eq_true_iff, Except.ok.injEq]

/-- What is certain is drawn when the hash is not above the last bound. -/
theorem drawn_certain_iff : Drawn (linkDist 1) draw ↔ ((draw : ℕ) : ℚ) ≤ lastBound := by
  unfold Drawn linkDist
  rw [role_certain (Nat.le_of_lt_succ draw.2)]
  split_ifs with le <;> simp [le]

theorem comes_certain : Comes Crash (((draw : ℕ) : ℚ) ≤ lastBound) (· = true)
    (drawnLink (linkDist 1) draw) := by
  apply (comes_drawnLink.congr drawn_certain_iff).mono
  intro linked le isLinked
  have certain := role_certain (Nat.le_of_lt_succ draw.2)
  rw [if_pos le] at certain
  exact isLinked.mpr certain

/-- An index that is drawn is one of the items. -/
theorem comes_drawnIndex {n : ℕ} {dist : VRFDistribution} (made : choiceDistribution n = .ok dist) :
    Comes Crash (Drawn dist draw) (· < n) (drawnIndex dist draw) := by
  obtain ⟨roles, roleMap, rfl⟩ := roles_choice made
  apply comes_role.andThen
  intro role found
  have mem := mem_roles found
  rw [roles] at mem
  obtain ⟨i, inside, rfl⟩ := List.mem_map.mp mem
  rw [Nat.toNat?_repr]
  exact ⟨i, rfl, List.mem_range.mp inside⟩

end Draws

/-! ### Graphs -/

variable {α : Type} [LinearOrder α]

/-- The graph has the nodes and the edges. -/
structure Holds (graph : FiniteGraph α) (nodes : List α) (edges : List (Sym2 α)) : Prop where
  nodes : ∀ x, x ∈ graph.nodes ↔ x ∈ nodes
  edges : ∀ e, e ∈ graph.pairs ↔ e ∈ edges

/-- The graph has the nodes, and connects some of them. -/
structure Spans (graph : FiniteGraph α) (nodes joined : List α) : Prop where
  nodes : ∀ x, x ∈ graph.nodes ↔ x ∈ nodes
  connects : Connects graph.pairs joined

section Graphs

variable {graph : FiniteGraph α} {nodes joined : List α} {edges : List (Sym2 α)} {x y : α}

/-- An edge between two nodes adds no node. -/
theorem mem_nodes_addEdge_iff (isNodes : ∀ z, z ∈ graph.nodes ↔ z ∈ nodes) (isX : x ∈ nodes)
    (isY : y ∈ nodes) (z : α) : z ∈ (graph.addEdge x y).nodes ↔ z ∈ nodes := by
  rw [FiniteGraph.mem_nodes_addEdge, isNodes]
  constructor
  · rintro (mem | rfl | rfl)
    · exact mem
    · exact isX
    · exact isY
  · exact .inl

theorem Holds.addEdge (holds : Holds graph nodes edges) (isX : x ∈ nodes) (isY : y ∈ nodes) :
    Holds (graph.addEdge x y) nodes (edges ++ [s(x, y)]) where
  nodes := mem_nodes_addEdge_iff holds.nodes isX isY
  edges e := by
    rw [FiniteGraph.mem_pairs_addEdge, holds.edges, List.mem_append, List.mem_singleton]

theorem pairs_addNodes (more : List α) : (graph.addNodes more).pairs = graph.pairs := by
  unfold FiniteGraph.pairs
  rw [FiniteGraph.edges_addNodes]

theorem holds_start (nodes : List α) : Holds (FiniteGraph.empty.addNodes nodes) nodes [] where
  nodes x := by simp [FiniteGraph.mem_nodes_addNodes, FiniteGraph.empty]
  edges _ := by
    rw [pairs_addNodes]
    exact Iff.rfl

theorem Spans.addEdge (spans : Spans graph nodes joined) (isX : x ∈ nodes) (isY : y ∈ nodes) :
    Spans (graph.addEdge x y) nodes joined where
  nodes := mem_nodes_addEdge_iff spans.nodes isX isY
  connects := spans.connects.mono fun _ mem => FiniteGraph.mem_pairs_addEdge.mpr (.inl mem)

theorem Spans.addStar (spans : Spans graph nodes joined) (isX : x ∈ nodes) {ys : List α}
    (sub : ys ⊆ nodes) : Spans (graph.addStar x ys) nodes joined := by
  induction ys generalizing graph with
  | nil => exact spans
  | cons y ys ih =>
      exact ih (spans.addEdge isX (sub List.mem_cons_self))
        fun z mem => sub (List.mem_cons_of_mem y mem)

/-- Some more nodes. -/
theorem Spans.addNodes (spans : Spans graph nodes joined) (more : List α) :
    Spans (graph.addNodes more) (nodes ++ more) joined where
  nodes z := by rw [FiniteGraph.mem_nodes_addNodes, spans.nodes, List.mem_append]
  connects := by
    rw [pairs_addNodes]
    exact spans.connects

/-- **All nodes of the graph** are found connected exactly when its edges connect them. -/
theorem isConnected_iff_connects (isNodes : ∀ x, x ∈ graph.nodes ↔ x ∈ nodes)
    (some_node : nodes ≠ []) : graph.isConnected = true ↔ Connects graph.pairs nodes := by
  rw [FiniteGraph.isConnected_iff]
  unfold Connects
  simp only [isNodes]
  refine and_iff_right fun none => ?_
  obtain ⟨x, isNode⟩ := List.exists_mem_of_ne_nil nodes some_node
  have mem := (isNodes x).mpr isNode
  rw [none] at mem
  cases mem

end Graphs

/-! ### Random graphs -/

/-- The links of some pairs that are drawn. -/
def drawnEdges (dist : VRFDistribution) (draw : α → α → Draw) (links : List (α × α)) :
    List (Sym2 α) :=
  (links.filter fun e => dist.role (draw e.1 e.2 : ℕ) = .ok "True").map fun e => s(e.1, e.2)

section Random

variable {roleMap : List (String × ℚ)} {draw : α → α → Draw} {x y : α} {nodes : List α}

/-- A link sortition adds what is drawn. -/
theorem comes_sortLink (lt : x < y) {graph : FiniteGraph α} :
    Comes Crash (Drawn (partition roleMap) (draw x y))
      (fun after => after = if (partition roleMap).role (draw x y : ℕ) = .ok "True"
        then graph.addEdge x y else graph)
      (sortLink (partition roleMap) draw x graph y) := by
  rw [sortLink, pyAssert_of_true lt, ok_bind]
  apply comes_drawnLink.andThen
  intro linked isLinked
  refine ⟨if linked = true then graph.addEdge x y else graph, ?_, ?_⟩
  · split_ifs <;> rfl
  · simp only [isLinked]

/-- **One attempt** makes the graph of the links that are drawn. -/
theorem comes_randomGraph (strict : nodes.Pairwise (· < ·)) :
    Comes Crash (∀ e ∈ pairs nodes, Drawn (partition roleMap) (draw e.1 e.2))
      (fun graph => Holds graph nodes (drawnEdges (partition roleMap) draw (pairs nodes)))
      (randomGraph nodes (partition roleMap) draw) := by
  have loops := foldlM_pairs (fun x graph y => sortLink (partition roleMap) draw x graph y) []
    nodes (FiniteGraph.empty.addNodes nodes)
  simp only [List.length_nil, List.nil_append] at loops
  unfold randomGraph
  rw [loops]
  apply Comes.foldlM (I := fun done (graph : FiniteGraph α) =>
    Holds graph nodes (drawnEdges (partition roleMap) draw done))
  · rintro done ⟨x, y⟩ isPair _ holds
    obtain ⟨isX, isY⟩ := mem_of_mem_pairs isPair
    apply (comes_sortLink (rel_of_mem_pairs strict isPair)).mono
    rintro _ - rfl
    have one : drawnEdges (partition roleMap) draw (done ++ [(x, y)]) =
        drawnEdges (partition roleMap) draw done ++
          drawnEdges (partition roleMap) draw [(x, y)] := by
      unfold drawnEdges
      rw [List.filter_append, List.map_append]
    rw [one]
    split_ifs with linked
    · have drawn : drawnEdges (partition roleMap) draw [(x, y)] = [s(x, y)] := by
        simp [drawnEdges, linked]
      rw [drawn]
      exact holds.addEdge isX isY
    · have none : drawnEdges (partition roleMap) draw [(x, y)] = [] := by
        simp [drawnEdges, linked]
      rw [none, List.append_nil]
      exact holds
  · exact holds_start nodes

/-- The links that are drawn in an attempt connect the nodes. -/
def ConnectsAt (dist : VRFDistribution) (draws : Draws α) (nodes : List α) (k : ℕ) : Prop :=
  Connects (drawnEdges dist (draws.pair k) (pairs nodes)) nodes

/-- Every hash that is drawn has a role, in the attempts up to the first that connects the nodes. -/
def Covered (dist : VRFDistribution) (draws : Draws α) (nodes : List α) (first attempts : ℕ) :
    Prop :=
  ∀ k, first ≤ k → k < attempts → (∀ j, first ≤ j → j < k → ¬ ConnectsAt dist draws nodes j) →
    ∀ e ∈ pairs nodes, Drawn dist (draws.pair k e.1 e.2)

omit [LinearOrder α] in
/-- The first attempt, and the others if it does not connect the nodes. -/
theorem covered_step {dist : VRFDistribution} {draws : Draws α} {first attempts : ℕ}
    (lt : first < attempts) : Covered dist draws nodes first attempts ↔
      (∀ e ∈ pairs nodes, Drawn dist (draws.pair first e.1 e.2)) ∧
        (ConnectsAt dist draws nodes first ∨ Covered dist draws nodes (first + 1) attempts) := by
  constructor
  · intro covered
    refine ⟨covered first le_rfl lt fun j low high => by omega, ?_⟩
    by_cases now : ConnectsAt dist draws nodes first
    · exact .inl now
    · refine .inr fun k low high before => covered k (by omega) high fun j low' high' => ?_
      rcases Nat.eq_or_lt_of_le low' with rfl | later
      · exact now
      · exact before j later high'
  · rintro ⟨here, later⟩ k low high before
    rcases Nat.eq_or_lt_of_le low with rfl | after
    · exact here
    · exact (later.resolve_left (before first le_rfl after)) k after high
        fun j low' high' => before j (by omega) high'

theorem attemptError_ne (attempt attempts : ℕ) : attemptError attempt attempts ≠ "" := by
  intro none
  unfold attemptError at none
  have last := (String.append_eq_empty_iff.mp none).2
  exact absurd last (by decide)

/-- What the attempts come to: the graph is connected, or there is an error. -/
structure Attempted (dist : VRFDistribution) (draws : Draws α) (nodes : List α)
    (first attempts : ℕ) (made : FiniteGraph α × String) : Prop where
  connected : made.2 = "" → Spans made.1 nodes nodes ∧
    ∃ k, first ≤ k ∧ k < attempts ∧ ConnectsAt dist draws nodes k
  failed : made.2 ≠ "" → ∀ k, first ≤ k → k < attempts → ¬ ConnectsAt dist draws nodes k

/-- **The attempts** end with the first graph that is connected. -/
theorem comes_randomAttempts (strict : nodes.Pairwise (· < ·)) (some_node : nodes ≠ [])
    {draws : Draws α} {attempts left first : ℕ} (whole : first + left = attempts)
    (last : FiniteGraph α × String) (unless_done : left = 0 → last.2 ≠ "") :
    Comes Crash (Covered (partition roleMap) draws nodes first attempts)
      (Attempted (partition roleMap) draws nodes first attempts)
      (randomAttempts nodes (partition roleMap) draws attempts left last) := by
  induction left generalizing first last with
  | zero =>
      refine .returns (fun k low high => by omega) ⟨fun none => ?_, fun _ k low high => by omega⟩
      exact absurd none (unless_done rfl)
  | succ left ih =>
      have attempt : attempts - (left + 1) = first := by omega
      rw [randomAttempts, attempt]
      refine ((comes_randomGraph strict).bind fun graph _ holds => ?_).congr
        (covered_step (by omega)).symm
      have decides : graph.isConnected = true ↔
          ConnectsAt (partition roleMap) draws nodes first := by
        rw [isConnected_iff_connects holds.nodes some_node]
        exact ⟨fun connects => connects.mono fun e => (holds.edges e).mp,
          fun connects => connects.mono fun e => (holds.edges e).mpr⟩
      by_cases connected : graph.isConnected = true
      · rw [if_pos connected]
        have connects := decides.mp connected
        refine .returns (.inl connects)
          ⟨fun _ => ⟨⟨holds.nodes, ?_⟩, ?_⟩, fun some => absurd rfl some⟩
        · exact (isConnected_iff_connects holds.nodes some_node).mp connected
        · exact ⟨first, le_rfl, by omega, connects⟩
      · rw [if_neg connected]
        have not_now : ¬ ConnectsAt (partition roleMap) draws nodes first :=
          fun connects => connected (decides.mpr connects)
        have later : first + 1 + left = attempts := by omega
        have rest := ih later (graph, attemptError first attempts)
          fun _ => attemptError_ne first attempts
        refine (rest.congr (or_iff_right not_now).symm).mono fun made _ attempted => ⟨?_, ?_⟩
        · intro none
          obtain ⟨spans, k, low, high, connects⟩ := attempted.connected none
          exact ⟨spans, k, by omega, high, connects⟩
        · intro some k low high
          rcases Nat.eq_or_lt_of_le low with rfl | later
          · exact not_now
          · exact attempted.failed some k later high

end Random

/-! ### Rings and shortcuts -/

section Structured

variable {logs : Logarithm} {config : VrfTopologyConfig} {draws : Draws α} {xs : List α}

/-- **The ring** connects its members. -/
theorem comes_ring (xs : List α) : Comes Crash
    (∀ link ∈ xs.zip (xs.rotate 1), ((draws.ring link.1 link.2 : ℕ) : ℚ) ≤ lastBound)
    (fun graph => Spans graph xs xs)
    ((xs.zip (xs.rotate 1)).foldlM (sortRing (linkDist 1) draws)
      (FiniteGraph.empty.addNodes xs)) := by
  apply Comes.mono (Comes.foldlM (I := fun done (graph : FiniteGraph α) =>
    Holds graph xs (done.map fun e => s(e.1, e.2))) ?_ ?_)
  · intro graph _ holds
    refine ⟨holds.nodes, reachable_around fun e mem => .inr ?_⟩
    exact (holds.edges e).mpr mem
  · intro done link mem graph holds
    apply comes_certain.andThen
    rintro _ rfl
    obtain ⟨isX, isY⟩ := List.of_mem_zip mem
    refine ⟨graph.addEdge link.1 link.2, rfl, ?_⟩
    rw [List.map_append]
    exact holds.addEdge isX (List.mem_rotate.mp isY)
  · exact holds_start xs

/-- The probability of the shortcuts from an emix. -/
def shortcutProb (logs : Logarithm) (config : VrfTopologyConfig) (n i : ℕ) : ℚ :=
  double (pFrom logs config.vrfCPFactor n / (i + 1))

theorem shortcutProb_nonneg_iff {n i : ℕ} (pos : 0 < n) :
    0 ≤ shortcutProb logs config n i ↔ 0 ≤ config.vrfCPFactor ∨ n = 1 := by
  have divisor : (0 : ℚ) < i + 1 := by positivity
  rw [shortcutProb, double_nonneg_iff, le_div_iff₀ divisor, zero_mul, pFrom_nonneg_iff pos]

theorem shortcutProb_le_one {n i : ℕ} (nonneg : 0 ≤ pFrom logs config.vrfCPFactor n) :
    shortcutProb logs config n i ≤ 1 := by
  have whole := div_natCast_le nonneg (i + 1)
  push_cast at whole
  have le := whole.trans pFrom_le_one
  have part : (0 : ℚ) ≤ pFrom logs config.vrfCPFactor n / (i + 1) := by positivity
  have small : |pFrom logs config.vrfCPFactor n / (i + 1)| < 2 ^ (53 : ℤ) := by
    rw [abs_of_nonneg part]
    exact le.trans_lt (by norm_num)
  have rounded := double_le (n := 1) small (by exact_mod_cast le)
  unfold shortcutProb
  exact_mod_cast rounded

theorem lt_of_places (strict : xs.Pairwise (· < ·)) {i j : ℕ} {x y : α} (here : xs[i]? = some x)
    (there : xs[j]? = some y) (lt : i < j) : x < y := by
  obtain ⟨inside, rfl⟩ := List.getElem?_eq_some_iff.mp here
  obtain ⟨inside', rfl⟩ := List.getElem?_eq_some_iff.mp there
  exact List.pairwise_iff_getElem.mp strict i j inside inside' lt

/-- **The shortcuts** from one emix keep the ring. -/
theorem comes_shortcutsFrom (strict : xs.Pairwise (· < ·)) {x : α} {i : ℕ}
    (isEntry : (x, i) ∈ xs.zipIdx) {graph : FiniteGraph α} (spans : Spans graph xs xs) :
    Comes Crash ((0 ≤ config.vrfCPFactor ∨ xs.length = 1) ∧
        (shortcutProb logs config xs.length i ≠ 0 → ∀ y ∈ xs.drop (i + 1),
          Drawn (linkDist (shortcutProb logs config xs.length i)) (draws.pair 0 x y)))
      (fun after => Spans after xs xs)
      (shortcutsFrom logs config draws xs graph (x, i)) := by
  have here := List.mem_zipIdx_iff_getElem?.mp isEntry
  have pos : 0 < xs.length := List.length_pos_of_mem (List.mem_of_getElem? here)
  have probability : shortcutP logs config xs.length i =
      .ok (shortcutProb logs config xs.length i) := by
    rw [shortcutP, calcPFrom_ok pos]
    rfl
  have signs : 0 ≤ shortcutProb logs config xs.length i ↔
      0 ≤ config.vrfCPFactor ∨ xs.length = 1 := shortcutProb_nonneg_iff pos
  have le_one : 0 ≤ config.vrfCPFactor ∨ xs.length = 1 →
      shortcutProb logs config xs.length i ≤ 1 :=
    fun nonneg => shortcutProb_le_one ((pFrom_nonneg_iff pos).mpr nonneg)
  unfold shortcutsFrom
  dsimp only
  rw [probability, ok_bind]
  generalize shortcutProb logs config xs.length i = p at *
  by_cases zero : p = 0
  · rw [if_pos zero]
    exact .returns ⟨signs.mp zero.ge, fun ne => absurd zero ne⟩ spans
  · rw [if_neg zero]
    by_cases nonneg : 0 ≤ p
    · have factor := signs.mp nonneg
      rw [binaryDistribution_ok nonneg (le_one factor), ok_bind]
      refine Comes.congr (Comes.foldlM (I := fun _ graph => Spans graph xs xs)
        (P := fun (other : α × ℕ) => Drawn (linkDist p) (draws.pair 0 x other.1)) ?_ spans) ?_
      · rintro - ⟨y, j⟩ mem graph spans
        have later := List.mem_zipIdx_iff_getElem?.mp mem
        have inside := (List.getElem?_eq_some_iff.mp later).1
        rw [List.length_drop] at inside
        rw [if_neg (by omega)]
        rw [List.getElem?_drop] at later
        have lt : x < y := lt_of_places strict here later (by omega)
        apply (comes_sortLink lt).mono
        rintro _ - rfl
        split_ifs
        · exact spans.addEdge (List.mem_of_getElem? here) (List.mem_of_getElem? later)
        · exact spans
      · rw [and_iff_right factor]
        constructor
        · intro all _ y later
          obtain ⟨j, found⟩ := List.mem_iff_getElem?.mp later
          exact all (y, j) (List.mem_zipIdx_iff_getElem?.mpr found)
        · intro all other mem
          exact all zero other.1 (List.mem_of_getElem? (List.mem_zipIdx_iff_getElem?.mp mem))
    · obtain ⟨text, raised⟩ := binaryDistribution_neg (not_le.mp nonneg)
      rw [raised]
      exact .raises (fun fits => nonneg (signs.mpr fits.1)) fun text same => nomatch same

/-- **All shortcuts** keep the ring. -/
theorem comes_shortcuts (strict : xs.Pairwise (· < ·)) (some_emix : xs ≠ []) {graph : FiniteGraph α}
    (spans : Spans graph xs xs) :
    Comes Crash ((0 ≤ config.vrfCPFactor ∨ xs.length = 1) ∧
        ∀ entry ∈ xs.zipIdx, shortcutProb logs config xs.length entry.2 ≠ 0 →
          ∀ y ∈ xs.drop (entry.2 + 1),
            Drawn (linkDist (shortcutProb logs config xs.length entry.2))
              (draws.pair 0 entry.1 y))
      (fun after => Spans after xs xs)
      (xs.zipIdx.foldlM (shortcutsFrom logs config draws xs) graph) := by
  refine Comes.congr (Comes.foldlM (I := fun _ graph => Spans graph xs xs)
    (fun _ entry isEntry graph spans => comes_shortcutsFrom strict isEntry spans) spans) ?_
  obtain ⟨entry, isEntry⟩ := List.exists_mem_of_ne_nil xs.zipIdx
    fun none => some_emix (List.zipIdx_eq_nil_iff.mp none)
  constructor
  · exact fun all => ⟨(all entry isEntry).1, fun entry isEntry => (all entry isEntry).2⟩
  · exact fun both entry isEntry => ⟨both.1, both.2 entry isEntry⟩

/-! ### Links with some emixes -/

section Combos

variable {emixes : List α} {combos : List (List α)} {dist : VRFDistribution}
  {graph : FiniteGraph α} {nodes joined : List α}

theorem foldlM_addEdge (node : α) {combo : List α} (inside : combo ⊆ emixes) :
    combo.foldlM (fun graph emix => do
      pyAssert (emix ∈ emixes)
      return graph.addEdge node emix) graph = (.ok (graph.addStar node combo) : Py _) := by
  induction combo generalizing graph with
  | nil => rfl
  | cons emix combo ih =>
      rw [List.foldlM_cons, pyAssert_of_true (inside List.mem_cons_self)]
      exact ih fun z mem => inside (List.mem_cons_of_mem emix mem)

/-- **A choice** links a node with the emixes of a combination. -/
theorem comes_sortCombo (inside : ∀ combo ∈ combos, combo ⊆ emixes)
    (made : choiceDistribution combos.length = .ok dist) (node : α) :
    Comes Crash (Drawn dist (draws.combo node))
      (fun after => ∃ combo ∈ combos, after = graph.addStar node combo)
      (sortCombo emixes combos dist draws graph node) := by
  apply (comes_drawnIndex made).andThen
  intro i lt
  have mem := List.getElem_mem lt
  have found : pyIndex combos i = .ok combos[i] := by
    rw [pyIndex, List.getElem?_eq_getElem lt]
  refine ⟨graph.addStar node combos[i], ?_, _, mem, rfl⟩
  rw [pyAssert_of_true lt, ok_bind, found, ok_bind, foldlM_addEdge node (inside _ mem)]

/-- **Nodes with some emixes** are connected. -/
theorem comes_combos (inside : ∀ combo ∈ combos, combo ⊆ emixes)
    (some_emix : ∀ combo ∈ combos, combo ≠ [])
    (made : choiceDistribution combos.length = .ok dist) (joins : emixes ⊆ joined)
    {todo : List α} (isJoined : joined ⊆ nodes) (isNodes : todo ⊆ nodes)
    (spans : Spans graph nodes joined) :
    Comes Crash (∀ x ∈ todo, Drawn dist (draws.combo x))
      (fun after => Spans after nodes (joined ++ todo))
      (todo.foldlM (sortCombo emixes combos dist draws) graph) := by
  apply Comes.foldlM (I := fun done (graph : FiniteGraph α) => Spans graph nodes (joined ++ done))
  · intro done node isNode graph spans
    apply (comes_sortCombo inside made node).mono
    rintro _ - ⟨combo, isCombo, rfl⟩
    have among := inside combo isCombo
    have kept := spans.addStar (isNodes isNode) fun z mem => isJoined (joins (among mem))
    obtain ⟨emix, mem⟩ := List.exists_mem_of_ne_nil combo (some_emix combo isCombo)
    refine ⟨kept.nodes, ?_⟩
    rw [← List.append_assoc]
    apply kept.connects.concat (List.mem_append_left done (joins (among mem)))
    exact FiniteGraph.mem_pairs_addStar.mpr (.inr ⟨emix, mem, rfl⟩)
  · rwa [List.append_nil]

/-- Combinations of no emix add nothing. -/
theorem comes_no_combos (made : choiceDistribution [([] : List α)].length = .ok dist)
    (todo : List α) : Comes Crash (∀ x ∈ todo, Drawn dist (draws.combo x)) (· = graph)
      (todo.foldlM (sortCombo emixes [[]] dist draws) graph) := by
  apply Comes.foldlM (I := fun _ (after : FiniteGraph α) => after = graph)
  · rintro - node - _ rfl
    refine (comes_sortCombo (fun combo mem => ?_) made node).mono ?_
    · rw [List.mem_singleton.mp mem]
      exact List.nil_subset emixes
    · rintro _ - ⟨combo, mem, rfl⟩
      rw [List.mem_singleton.mp mem]
      rfl
  · rfl

end Combos

end Structured

/-! ### The first graph -/

section Topology

variable (logs : Logarithm) (servers : VrfServers α) (config : VrfTopologyConfig)
  (draws : Draws α)

/-- What the random graph needs. -/
structure RandomFits : Prop where
  factor : 0 ≤ config.vrfCPFactor ∨ servers.nodeArray.length = 1
  covered : Covered (linkDist (pFrom logs config.vrfCPFactor servers.nodeArray.length)) draws
    servers.nodeArray 0 config.vrfConfigAttempts

/-- What the ring and its shortcuts and the links of the dropboxes need. -/
structure StructuredFits (dist : VRFDistribution) : Prop where
  ring : ∀ link ∈ servers.emixArray.zip (servers.emixArray.rotate 1),
    ((draws.ring link.1 link.2 : ℕ) : ℚ) ≤ lastBound
  factor : 0 ≤ config.vrfCPFactor ∨ servers.emixArray.length = 1
  shortcuts : ∀ entry ∈ servers.emixArray.zipIdx,
    shortcutProb logs config servers.emixArray.length entry.2 ≠ 0 →
      ∀ y ∈ servers.emixArray.drop (entry.2 + 1),
        Drawn (linkDist (shortcutProb logs config servers.emixArray.length entry.2))
          (draws.pair 0 entry.1 y)
  leaders : ∀ x ∈ servers.leaders, Drawn dist (draws.combo x)

variable {logs servers config draws}

theorem emixArray_perm : servers.emixArray.Perm servers.emixes := List.perm_insertionSort _ _

theorem nodeArray_perm : servers.nodeArray.Perm (servers.emixes ++ servers.leaders) :=
  List.perm_insertionSort _ _

theorem emixArray_ne : servers.emixArray ≠ [] := by
  intro none
  have perm : servers.emixArray.Perm servers.emixes := emixArray_perm
  rw [none, List.nil_perm] at perm
  exact servers.some_emix perm

theorem nodeArray_ne : servers.nodeArray ≠ [] := by
  intro none
  have perm : servers.nodeArray.Perm (servers.emixes ++ servers.leaders) := nodeArray_perm
  rw [none, List.nil_perm] at perm
  exact servers.some_emix (List.append_eq_nil_iff.mp perm).1

theorem nodeArray_strict : servers.nodeArray.Pairwise (· < ·) := by
  apply sortBy_strict
  rw [List.map_id']
  exact (List.nodup_append.mp servers.nodup).1

theorem emixArray_strict : servers.emixArray.Pairwise (· < ·) := by
  apply sortBy_strict
  rw [List.map_id']
  exact (List.nodup_append.mp (List.nodup_append.mp servers.nodup).1).1

/-- **The random graph.** -/
theorem comes_erdosRenyi : Comes Crash (RandomFits logs servers config draws)
    (fun made => if config.vrfConfigAttempts = 0 then made = (.empty, "")
      else Attempted (linkDist (pFrom logs config.vrfCPFactor servers.nodeArray.length)) draws
        servers.nodeArray 0 config.vrfConfigAttempts made)
    (erdosRenyi logs servers config draws) := by
  have pos : 0 < servers.nodeArray.length := List.length_pos_iff.mpr nodeArray_ne
  have signs : 0 ≤ pFrom logs config.vrfCPFactor servers.nodeArray.length ↔
      0 ≤ config.vrfCPFactor ∨ servers.nodeArray.length = 1 := pFrom_nonneg_iff pos
  have le_one : pFrom logs config.vrfCPFactor servers.nodeArray.length ≤ 1 := pFrom_le_one
  have all : RandomFits logs servers config draws ↔ _ :=
    ⟨fun fits => And.intro fits.factor fits.covered, fun both => ⟨both.1, both.2⟩⟩
  rw [erdosRenyi, calcPFrom_ok pos, ok_bind]
  refine Comes.congr (Comes.bind (comes_assert.congr ((and_iff_left le_one).trans signs))
    fun _ factor _ => ?_) all.symm
  rw [binaryDistribution_ok (signs.mpr factor) le_one, ok_bind]
  by_cases none : config.vrfConfigAttempts = 0
  · simp only [none]
    exact .returns (fun k low high => by omega) rfl
  · simp only [if_neg none]
    exact comes_randomAttempts nodeArray_strict nodeArray_ne (Nat.zero_add _) _
      fun zero => absurd zero none

/-- **The ring with its shortcuts**, and the dropboxes with their emixes. -/
theorem comes_structured {combos : List (List α)} {dist : VRFDistribution}
    (inside : ∀ combo ∈ combos, combo ⊆ servers.emixes)
    (some_emix : ∀ combo ∈ combos, combo ≠ [])
    (made : choiceDistribution combos.length = .ok dist) :
    Comes Crash (StructuredFits logs servers config draws dist)
      (fun made => made.2 = "" ∧ Spans made.1 (servers.emixArray ++ servers.leaders)
        (servers.emixArray ++ servers.leaders))
      (structured logs servers config draws combos dist) := by
  have emixes : servers.emixes ⊆ servers.emixArray := fun x => emixArray_perm.mem_iff.mpr
  have all : StructuredFits logs servers config draws dist ↔ _ :=
    ⟨fun fits => And.intro fits.ring (And.intro (And.intro fits.factor fits.shortcuts)
      fits.leaders), fun both => ⟨both.1, both.2.1.1, both.2.1.2, both.2.2⟩⟩
  rw [structured, binaryDistribution_ok zero_le_one le_rfl, ok_bind]
  refine Comes.congr (Comes.bind (comes_ring _) fun graph _ spans => Comes.bind
    (comes_shortcuts emixArray_strict emixArray_ne spans) fun graph _ spans => ?_) all.symm
  have nodes := spans.addNodes servers.leaders
  refine (comes_combos inside some_emix made emixes (List.subset_append_left _ _)
    (List.subset_append_right _ _) nodes).andThen fun graph spans => ⟨(graph, ""), rfl, rfl, spans⟩

/-! ### Connected or refused -/

/-- The links connect all servers, or the configuration is refused. -/
def Meets (servers : VrfServers α) (result : Py (List (PairLink α))) : Prop :=
  (∃ text, result = .error (.configError text)) ∨
    ∃ links, result = .ok links ∧ Connects (edgesOf links) servers.all

omit [LinearOrder α] in
theorem not_meets_crash {e : PyError} (crash : Crash e) : ¬ Meets servers (.error e) := by
  rintro (⟨text, same⟩ | ⟨links, same, -⟩)
  · exact crash text (Except.error.inj same)
  · cases same

omit [LinearOrder α] in
/-- A crash is no refusal. -/
theorem meets_bind_iff {β : Type} {x : Py β} {good Q : Prop} {post : β → Prop}
    (comes : Comes Crash good post x) {f : β → Py (List (PairLink α))}
    (rest : ∀ a, post a → (Meets servers (f a) ↔ Q)) :
    Meets servers (x >>= f) ↔ good ∧ Q := by
  cases comes with
  | returns holds has => exact (rest _ has).trans (and_iff_right holds).symm
  | raises fails crash =>
      exact iff_of_false (not_meets_crash crash) fun both => fails both.1

/-- What is done with the graph in the end. -/
def finish (made : FiniteGraph α × String) : Py (List (PairLink α)) := do
  if made.2 ≠ "" then throw (.configError made.2)
  printGraph made.1
  return graphLinks made.1

theorem meets_finish_error {made : FiniteGraph α × String} (some : made.2 ≠ "") :
    Meets servers (finish made) := by
  refine .inl ⟨made.2, ?_⟩
  rw [finish, if_pos some]
  rfl

/-- A graph that is connected becomes links. -/
theorem meets_finish_iff {graph : FiniteGraph α} : Meets servers (finish (graph, "")) ↔
    graph.isConnected = true ∧ Connects graph.pairs servers.all := by
  have links : edgesOf (graphLinks graph) = graph.pairs := by
    unfold edgesOf graphLinks
    rw [List.map_map]
    rfl
  have start : finish (graph, "") = (printGraph graph).map fun _ => graphLinks graph := rfl
  rw [start, printGraph]
  by_cases connected : graph.isConnected = true
  · have some_node := (FiniteGraph.isConnected_iff.mp connected).1
    rw [if_neg some_node, if_pos connected, and_iff_right connected]
    constructor
    · rintro (⟨text, same⟩ | ⟨made, same, connects⟩)
      · cases same
      · obtain rfl := Except.ok.inj same
        rwa [← links]
    · exact fun connects => .inr ⟨graphLinks graph, rfl, links ▸ connects⟩
  · rw [if_neg connected]
    refine iff_of_false ?_ fun both => connected both.1
    split_ifs
    · exact not_meets_crash fun text same => nomatch same
    · exact not_meets_crash fun text same => nomatch same

/-- A dummy server is no other server. -/
theorem not_mem_nodeArray {x : α} (isDummy : x ∈ servers.dummies) : x ∉ servers.nodeArray := by
  intro mem
  have other := nodeArray_perm.mem_iff.mp mem
  exact (List.nodup_append.mp servers.nodup).2.2 x other x isDummy rfl

theorem mem_all {x : α} : x ∈ servers.all ↔ x ∈ servers.nodeArray ∨ x ∈ servers.dummies := by
  rw [VrfServers.all, List.mem_append, nodeArray_perm.mem_iff]

/-- Links of a random graph do not reach a dummy server. -/
theorem not_connects_all {graph : FiniteGraph α}
    (isNodes : ∀ x, x ∈ graph.nodes ↔ x ∈ servers.nodeArray) (some_dummy : servers.dummies ≠ []) :
    ¬ Connects graph.pairs servers.all := by
  intro connects
  obtain ⟨dummy, isDummy⟩ := List.exists_mem_of_ne_nil _ some_dummy
  obtain ⟨node, isNode⟩ := List.exists_mem_of_ne_nil servers.nodeArray nodeArray_ne
  have reached := connects node (mem_all.mpr (.inl isNode)) dummy (mem_all.mpr (.inr isDummy))
  have mem := FiniteGraph.mem_nodes_of_reachable reached ((isNodes node).mpr isNode)
  exact not_mem_nodeArray isDummy ((isNodes dummy).mp mem)

/-- **What becomes of a random graph** when the dummy servers are nodes of it. -/
theorem meets_random_iff {dist : VRFDistribution} {attempts : ℕ} {made : FiniteGraph α × String}
    (attempted : if attempts = 0 then made = (.empty, "")
      else Attempted dist draws servers.nodeArray 0 attempts made) :
    Meets servers (finish (made.1.addNodes servers.dummies, made.2)) ↔
      0 < attempts ∧ (servers.dummies = [] ∨
        ∀ k < attempts, ¬ ConnectsAt dist draws servers.nodeArray k) := by
  by_cases none : attempts = 0
  · rw [if_pos none] at attempted
    obtain rfl := attempted
    refine iff_of_false ?_ fun fits => by omega
    rw [meets_finish_iff, FiniteGraph.isConnected_iff]
    rintro ⟨⟨some_node, -⟩, connects⟩
    -- All nodes are dummy servers, so that no other server is reached.
    have isNodes := (holds_start servers.dummies).nodes
    obtain ⟨dummy, mem⟩ := List.exists_mem_of_ne_nil _ some_node
    obtain ⟨node, isNode⟩ := List.exists_mem_of_ne_nil servers.nodeArray nodeArray_ne
    have isDummy := (isNodes dummy).mp mem
    have reached := connects dummy (mem_all.mpr (.inr isDummy)) node (mem_all.mpr (.inl isNode))
    have mem' := FiniteGraph.mem_nodes_of_reachable reached mem
    exact not_mem_nodeArray ((isNodes node).mp mem') isNode
  · rw [if_neg none] at attempted
    rw [and_iff_right (Nat.pos_of_ne_zero none)]
    obtain ⟨graph, text⟩ := made
    by_cases connected : text = ""
    · obtain ⟨spans, k, -, lt, connects⟩ := attempted.connected connected
      subst connected
      rw [or_iff_left fun never => never k lt connects, meets_finish_iff]
      constructor
      · rintro ⟨-, reached⟩
        rw [pairs_addNodes] at reached
        by_contra some_dummy
        exact not_connects_all spans.nodes some_dummy reached
      · intro no_dummy
        have same : graph.addNodes servers.dummies = graph := by rw [no_dummy]; rfl
        rw [same, isConnected_iff_connects spans.nodes nodeArray_ne]
        refine ⟨spans.connects, spans.connects.sub fun x mem => ?_⟩
        have other := mem_all.mp mem
        rw [no_dummy] at other
        exact other.resolve_right List.not_mem_nil
    · exact iff_of_true (meets_finish_error connected)
        (.inr fun k lt => attempted.failed connected k k.zero_le lt)

variable (logs servers config draws)

/-- **The settings and the draws fit.** The last condition of a random graph is that no dummy server
is to be linked, or that the configuration is refused. -/
structure Fits : Prop where
  nonneg : 0 ≤ config.vrfBDbEmix
  choice : ∃ dist, choiceDistribution (servers.emixes.length.choose
      (min servers.emixes.length config.vrfBDbEmix.toNat)) = .ok dist ∧
    (∀ x ∈ servers.dummies, Drawn dist (draws.combo x)) ∧
    (config.vrfBDbEmix = 0 → RandomFits logs servers config draws ∧
      0 < config.vrfConfigAttempts ∧
      (servers.dummies = [] ∨ ∀ k < config.vrfConfigAttempts,
        ¬ ConnectsAt (linkDist (pFrom logs config.vrfCPFactor servers.nodeArray.length)) draws
          servers.nodeArray k)) ∧
    (0 < config.vrfBDbEmix → StructuredFits logs servers config draws dist)

theorem randomized_eq : randomized logs servers config draws = (do
    pyAssert (1 ≤ servers.emixes.length)
    let combos ← combinations servers.emixes (min servers.emixArray.length config.vrfBDbEmix)
    let dist ← choiceDistribution combos.length
    let made ← firstGraph logs servers config draws combos dist
    let graph ← servers.dummies.foldlM (sortCombo servers.emixes combos dist draws)
      (made.1.addNodes servers.dummies)
    finish (graph, made.2)) := rfl

variable {logs servers config draws}

/-- **A random graph** with its dummy servers. -/
theorem meets_erdosRenyi_iff {dist : VRFDistribution}
    (made : choiceDistribution [([] : List α)].length = .ok dist) :
    Meets servers (erdosRenyi logs servers config draws >>= fun made => do
      let graph ← servers.dummies.foldlM (sortCombo servers.emixes [[]] dist draws)
        (made.1.addNodes servers.dummies)
      finish (graph, made.2)) ↔
    RandomFits logs servers config draws ∧ (∀ x ∈ servers.dummies, Drawn dist (draws.combo x)) ∧
      0 < config.vrfConfigAttempts ∧
      (servers.dummies = [] ∨ ∀ k < config.vrfConfigAttempts,
        ¬ ConnectsAt (linkDist (pFrom logs config.vrfCPFactor servers.nodeArray.length)) draws
          servers.nodeArray k) := by
  apply meets_bind_iff comes_erdosRenyi
  intro first attempted
  apply meets_bind_iff (comes_no_combos made servers.dummies)
  rintro _ rfl
  exact meets_random_iff attempted

/-- **A ring with shortcuts** and its dummy servers. -/
theorem meets_structured_iff {combos : List (List α)} {dist : VRFDistribution}
    (inside : ∀ combo ∈ combos, combo ⊆ servers.emixes)
    (some_emix : ∀ combo ∈ combos, combo ≠ [])
    (made : choiceDistribution combos.length = .ok dist) :
    Meets servers (structured logs servers config draws combos dist >>= fun made => do
      let graph ← servers.dummies.foldlM (sortCombo servers.emixes combos dist draws)
        (made.1.addNodes servers.dummies)
      finish (graph, made.2)) ↔
    StructuredFits logs servers config draws dist ∧
      ∀ x ∈ servers.dummies, Drawn dist (draws.combo x) := by
  have emixes : servers.emixes ⊆ servers.emixArray ++ servers.leaders :=
    fun x mem => List.mem_append_left _ (emixArray_perm.mem_iff.mpr mem)
  apply meets_bind_iff (comes_structured inside some_emix made)
  rintro ⟨first, _⟩ ⟨rfl, spans⟩
  refine (meets_bind_iff (Q := True) (comes_combos inside some_emix made emixes
    (List.subset_append_left _ _) (List.subset_append_right _ _)
    (spans.addNodes servers.dummies)) fun graph spans => ?_).trans (iff_of_eq (and_true _))
  have all : ∀ x, x ∈ servers.all ↔
      x ∈ servers.emixArray ++ servers.leaders ++ servers.dummies := by
    intro x
    simp only [VrfServers.all, List.mem_append, emixArray_perm.mem_iff]
  have some_node : servers.emixArray ++ servers.leaders ++ servers.dummies ≠ [] := by
    simp [emixArray_ne]
  rw [meets_finish_iff, isConnected_iff_connects spans.nodes some_node]
  exact iff_true_intro ⟨spans.connects, spans.connects.sub fun x => (all x).mp⟩

variable (logs servers config draws)

/-- **Connected or refused**, exactly when the settings and the draws fit. -/
theorem randomized_iff : Meets servers (randomized logs servers config draws) ↔
    Fits logs servers config draws := by
  have some_emix := List.length_pos_iff.mpr servers.some_emix
  have emixCount : servers.emixArray.length = servers.emixes.length := emixArray_perm.length_eq
  rw [randomized_eq, pyAssert_of_true (Nat.succ_le_of_lt some_emix), ok_bind, emixCount]
  by_cases nonneg : 0 ≤ config.vrfBDbEmix
  · obtain ⟨combos, run⟩ : ∃ combos, combinations servers.emixes
        (min servers.emixes.length config.vrfBDbEmix) = .ok combos :=
      ⟨_, if_pos (le_min (Nat.cast_nonneg _) nonneg)⟩
    have size : (min (servers.emixes.length : ℤ) config.vrfBDbEmix).toNat =
        min servers.emixes.length config.vrfBDbEmix.toNat := by omega
    have count := length_combinations run
    rw [size] at count
    have inside : ∀ combo ∈ combos, combo ⊆ servers.emixes :=
      fun combo mem => ((mem_combinations run).mp mem).1.subset
    rw [run, ok_bind]
    cases made : choiceDistribution combos.length with
    | error e =>
        rw [count] at made
        refine iff_of_false ?_ ?_
        · rcases error_choice made with rfl | ⟨text, rfl⟩
          · exact not_meets_crash fun text same => nomatch same
          · exact not_meets_crash fun text same => nomatch same
        · intro fits
          obtain ⟨dist, made', -⟩ := fits.choice
          rw [made] at made'
          cases made'
    | ok dist =>
        rw [ok_bind]
        have choice : Fits logs servers config draws ↔ _ :=
          ⟨fun fits => fits.choice, fun fits => ⟨nonneg, fits⟩⟩
        simp only [← count, made, Except.ok.injEq, exists_eq_left'] at choice
        rw [choice]
        rcases nonneg.eq_or_lt with zero | positive
        · have none : combos = [[]] := by
            have least : min (servers.emixes.length : ℤ) 0 = 0 := by omega
            rw [← zero, least] at run
            have same := (Except.ok.inj run).symm
            rwa [Int.toNat_zero, List.sublistsLen_zero, List.reverse_singleton] at same
          have first : firstGraph logs servers config draws combos dist =
            erdosRenyi logs servers config draws := if_pos zero.symm
          rw [first, none]
          rw [none] at made
          rw [meets_erdosRenyi_iff made]
          constructor
          · rintro ⟨random, dummies, rest⟩
            exact ⟨dummies, fun _ => ⟨random, rest⟩, fun positive => absurd zero positive.ne⟩
          · rintro ⟨dummies, random, -⟩
            exact ⟨(random zero.symm).1, dummies, (random zero.symm).2⟩
        · have first : firstGraph logs servers config draws combos dist =
              structured logs servers config draws combos dist := by
            unfold firstGraph
            dsimp only
            rw [if_neg positive.ne', if_pos positive]
          have some : ∀ combo ∈ combos, combo ≠ [] := by
            rintro combo mem rfl
            have length := ((mem_combinations run).mp mem).2
            rw [List.length_nil] at length
            omega
          rw [first, meets_structured_iff inside some made]
          constructor
          · rintro ⟨fits, dummies⟩
            exact ⟨dummies, fun zero => absurd zero.symm positive.ne, fun _ => fits⟩
          · exact fun fits => ⟨fits.2.2 positive, fits.1⟩
  · have raised : combinations servers.emixes (min servers.emixes.length config.vrfBDbEmix) =
        .error (.valueError "r must be non-negative") :=
      if_neg fun le => nonneg (le.trans (min_le_right _ _))
    rw [raised]
    exact iff_of_false (not_meets_crash fun text same => nomatch same)
      fun fits => nonneg fits.nonneg

/-! ### A negative number -/

/-- One emix and a negative number. -/
def negativeNumber : VrfTopologyConfig where
  vrfBDbEmix := -1
  vrfCPFactor := 2
  vrfConfigAttempts := 1

/-- A logarithm that is linear. -/
def linearLogarithm : Logarithm where
  log n := ((n : ℚ) - 1) / 2
  one := by norm_num
  pos n some_more := by
    have more : (2 : ℚ) ≤ n := by exact_mod_cast some_more
    linarith

/-- One emix. -/
def oneEmix : VrfServers ℕ := ⟨[0], [], [], by decide, by decide⟩

/-- The hashes are all zero. -/
def zeroDraws : Draws ℕ := ⟨fun _ _ _ => 0, fun _ _ => 0, fun _ => 0⟩

/-- **A negative number** is not refused, but an error of `combinations`. -/
theorem negative_number_raises :
    randomized linearLogarithm oneEmix negativeNumber zeroDraws =
        .error (.valueError "r must be non-negative") ∧
      ¬ Meets oneEmix (randomized linearLogarithm oneEmix negativeNumber zeroDraws) := by
  have raised : randomized linearLogarithm oneEmix negativeNumber zeroDraws =
      .error (.valueError "r must be non-negative") := rfl
  exact ⟨raised, raised ▸ not_meets_crash fun text same => nomatch same⟩

end Topology

end Prism.Config
