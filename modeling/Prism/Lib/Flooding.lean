import Mathlib.Algebra.BigOperators.Group.Finset.Basic
import Mathlib.Algebra.Order.BigOperators.Group.Finset
import Mathlib.Data.Multiset.AddSub
import Prism.Lib.Distance

/-!
Flooding with hop counts, in any order of deliveries.

A source sends copies with the hop count zero to its neighbors. A node accepts a copy when it
is the first one or has fewer hops than the last one that it accepted. It passes an accepted
copy on, with one hop more, to its neighbors other than the sender, as long as the hop count
is below a limit. Copies are delivered in any order, and several copies may be sent to one
neighbor, `fan` of them to all neighbors together.

`Spread` is the state of one flood, with the hop counts that every node has accepted and the
numbers of copies sent and received. Nothing is assumed of the graph but, for the number of
copies, that it is finite.

* `Reachable.decreasing`: a node accepts smaller and smaller hop counts.
* `Reachable.hops_le`: no copy has more hops than the limit.
* `Reachable.counted`: how many copies are sent at most.
* `Reachable.settled`: once no copy is on the way, every node within the limit has accepted
  its distance from the source.
-/

namespace Prism.Lib

/-- A copy on its way. -/
structure Copy (α : Type) where
  target : α
  hops : ℕ
  sender : α

/-- A graph to flood: accepted hop counts below `limit` are passed on, and `fan` bounds the
copies that a node sends at once. -/
structure Flooding (α : Type) where
  neighbors : α → List α
  limit : ℕ
  fan : α → ℕ

/-- One flood: the hop counts that each node has accepted, the newest first, the copies on
their way, and how many were sent and received. -/
structure Spread (α : Type) where
  seen : α → List ℕ
  flight : Multiset (Copy α)
  sent : ℕ
  received : ℕ

namespace Flooding

variable {α : Type} (net : Flooding α)

/-- There is an edge. -/
def Adj (u v : α) : Prop := v ∈ net.neighbors u

/-- Copies from a node to all its neighbors but one. -/
structure Sends (v : α) (but : Option α) (hops : ℕ) (sent : Multiset (Copy α)) : Prop where
  copies : ∀ c ∈ sent, c.sender = v ∧ c.hops = hops ∧ net.Adj v c.target
  all : ∀ x, net.Adj v x → some x ≠ but → ∃ c ∈ sent, c.target = x
  card : sent.card ≤ net.fan v

/-- What an accepted copy is followed by. -/
def Passes (copy : Copy α) (sent : Multiset (Copy α)) : Prop :=
  if copy.hops < net.limit then net.Sends copy.target (some copy.sender) (copy.hops + 1) sent
  else sent = 0

section Step

variable [DecidableEq α]

/-- The state after a copy is ignored. -/
def ignored (s : Spread α) (rest : Multiset (Copy α)) : Spread α :=
  { s with flight := rest, received := s.received + 1 }

/-- The state after a copy is accepted. -/
def accepted (s : Spread α) (copy : Copy α) (rest sent : Multiset (Copy α)) : Spread α where
  seen := Function.update s.seen copy.target (copy.hops :: s.seen copy.target)
  flight := rest + sent
  sent := s.sent + sent.card
  received := s.received + 1

/-- A delivery. -/
inductive Step : Spread α → Spread α → Prop
  | ignore {s : Spread α} {copy : Copy α} {rest : Multiset (Copy α)} {k : ℕ}
      (taken : s.flight = copy ::ₘ rest) (known : (s.seen copy.target).head? = some k)
      (old : k ≤ copy.hops) : Step s (ignored s rest)
  | accept {s : Spread α} {copy : Copy α} {rest sent : Multiset (Copy α)}
      (taken : s.flight = copy ::ₘ rest)
      (news : ∀ k, (s.seen copy.target).head? = some k → copy.hops < k)
      (pass : net.Passes copy sent) : Step s (accepted s copy rest sent)

/-- The states of a flood. -/
inductive Reachable (source : α) : Spread α → Prop
  | start {first : Multiset (Copy α)} (sends : net.Sends source none 0 first) :
      Reachable source ⟨fun _ => [], first, first.card, 0⟩
  | step {s s' : Spread α} (before : Reachable source s) (next : net.Step s s') :
      Reachable source s'

end Step

/-! ### The invariant -/

/-- A copy is on its way to the node, or the node has accepted one that is as good. -/
def Covered (s : Spread α) (x : α) (k : ℕ) : Prop :=
  (∃ c ∈ s.flight, c.target = x ∧ c.hops = k) ∨ ∃ j ≤ k, (s.seen x).head? = some j

/-- Hop counts are lengths of walks from the source, and a node whose hop count is below the
limit has its neighbors covered, all but one that is closer to the source. -/
structure Inv (source : α) (s : Spread α) : Prop where
  flight : ∀ c ∈ s.flight, Walk net.Adj c.hops source c.sender ∧
    net.Adj c.sender c.target ∧ c.hops ≤ net.limit
  seen : ∀ v k, (s.seen v).head? = some k → ∃ w, Walk net.Adj k source w ∧ net.Adj w v ∧
    (k < net.limit → ∀ x, net.Adj v x → x ≠ w → Covered s x (k + 1))
  first : ∀ x, net.Adj source x → Covered s x 0
  decreasing : ∀ v, (s.seen v).Pairwise (· < ·)

variable {net} {source : α} {s s' : Spread α}

section Step

variable [DecidableEq α]

/-- What is covered stays covered. -/
theorem Step.covered (step : net.Step s s') {x : α} {k : ℕ} (covered : Covered s x k) :
    Covered s' x k := by
  cases step with
  | @ignore copy rest seen taken known old =>
      rcases covered with ⟨c, mem, rfl, rfl⟩ | later
      · rw [taken, Multiset.mem_cons] at mem
        rcases mem with rfl | mem
        · exact .inr ⟨seen, old, known⟩
        · exact .inl ⟨c, mem, rfl, rfl⟩
      · exact .inr later
  | @accept copy rest sent taken news pass =>
      rcases covered with ⟨c, mem, rfl, rfl⟩ | ⟨j, le, known⟩
      · rw [taken, Multiset.mem_cons] at mem
        rcases mem with rfl | mem
        · exact .inr ⟨c.hops, le_rfl, by simp [accepted]⟩
        · exact .inl ⟨c, Multiset.mem_add.mpr (.inl mem), rfl, rfl⟩
      · right
        by_cases here : x = copy.target
        · subst here
          exact ⟨copy.hops, (news j known).le.trans le, by simp [accepted]⟩
        · exact ⟨j, le, by simpa [accepted, here] using known⟩

omit [DecidableEq α] in
theorem Inv.start {first : Multiset (Copy α)} (sends : net.Sends source none 0 first) :
    net.Inv source ⟨fun _ => [], first, first.card, 0⟩ := by
  constructor
  · intro c mem
    obtain ⟨rfl, hops, edge⟩ := sends.copies c mem
    rw [hops]
    exact ⟨.nil _, edge, Nat.zero_le _⟩
  · rintro v k ⟨⟩
  · intro x edge
    obtain ⟨c, mem, target⟩ := sends.all x edge (by simp)
    exact .inl ⟨c, mem, target, (sends.copies c mem).2.1⟩
  · exact fun v => .nil

/-- **A delivery keeps the invariant.** -/
theorem Inv.step (inv : net.Inv source s) (next : net.Step s s') : net.Inv source s' := by
  have covered : ∀ x k, Covered s x k → Covered s' x k := fun x k => next.covered
  have first : ∀ x, net.Adj source x → Covered s' x 0 := fun x edge =>
    covered x 0 (inv.first x edge)
  cases next with
  | @ignore copy rest k taken known old =>
      constructor
      · intro c mem
        apply inv.flight c
        rw [taken]
        exact Multiset.mem_cons_of_mem mem
      · intro v k known
        obtain ⟨w, walk, edge, pass⟩ := inv.seen v k known
        exact ⟨w, walk, edge, fun below x adj other => covered x _ (pass below x adj other)⟩
      · exact first
      · exact inv.decreasing
  | @accept copy rest sent taken news pass =>
      obtain ⟨walk, edge, le⟩ := inv.flight copy (taken ▸ Multiset.mem_cons_self copy rest)
      constructor
      · intro c mem
        rcases Multiset.mem_add.mp mem with mem | mem
        · apply inv.flight c
          rw [taken]
          exact Multiset.mem_cons_of_mem mem
        · by_cases below : copy.hops < net.limit
          · rw [Passes, if_pos below] at pass
            obtain ⟨sender, hops, adj⟩ := pass.copies c mem
            rw [sender, hops]
            exact ⟨walk.concat edge, adj, below⟩
          · rw [Passes, if_neg below] at pass
            rw [pass] at mem
            exact absurd mem (Multiset.notMem_zero c)
      · intro v k known
        by_cases here : v = copy.target
        · subst here
          obtain rfl : copy.hops = k := by simpa [accepted] using known
          refine ⟨copy.sender, walk, edge, fun below x adj other => ?_⟩
          rw [Passes, if_pos below] at pass
          obtain ⟨c, mem, target⟩ := pass.all x adj (by simpa using other)
          exact .inl ⟨c, Multiset.mem_add.mpr (.inr mem), target, (pass.copies c mem).2.1⟩
        · obtain ⟨w, walk, edge, pass⟩ := inv.seen v k (by simpa [accepted, here] using known)
          exact ⟨w, walk, edge, fun below x adj other => covered x _ (pass below x adj other)⟩
      · exact first
      · intro v
        by_cases here : v = copy.target
        · subst here
          have older := inv.decreasing copy.target
          simp only [accepted, Function.update_self, List.pairwise_cons]
          refine ⟨fun k mem => ?_, older⟩
          rcases known : s.seen copy.target with _ | ⟨j, rest⟩
          · rw [known] at mem
            exact absurd mem List.not_mem_nil
          · have smaller := news j (by rw [known]; rfl)
            rw [known] at mem older
            rcases List.mem_cons.mp mem with rfl | mem
            · exact smaller
            · exact smaller.trans (List.rel_of_pairwise_cons older mem)
        · simpa [accepted, here] using inv.decreasing v

theorem Reachable.inv (reachable : net.Reachable source s) : net.Inv source s := by
  induction reachable with
  | start sends => exact .start sends
  | step _ next ih => exact ih.step next

/-- **A node accepts smaller and smaller hop counts.** -/
theorem Reachable.decreasing (reachable : net.Reachable source s) (v : α) :
    (s.seen v).Pairwise (· < ·) :=
  reachable.inv.decreasing v

/-- **No copy has more hops than the limit.** -/
theorem Reachable.hops_le (reachable : net.Reachable source s) {c : Copy α}
    (mem : c ∈ s.flight) : c.hops ≤ net.limit :=
  (reachable.inv.flight c mem).2.2

/-- No node accepts a copy with more hops than the limit. -/
theorem Reachable.seen_le (reachable : net.Reachable source s) {v : α} {k : ℕ}
    (mem : k ∈ s.seen v) : k ≤ net.limit := by
  induction reachable with
  | start sends => exact absurd mem List.not_mem_nil
  | @step s s' before next ih =>
      cases next with
      | ignore taken known old => exact ih mem
      | @accept copy rest sent taken news pass =>
          have here : copy ∈ s.flight := taken ▸ Multiset.mem_cons_self copy rest
          change k ∈ Function.update s.seen copy.target (copy.hops :: s.seen copy.target) v at mem
          by_cases same : v = copy.target
          · subst same
            rw [Function.update_self] at mem
            rcases List.mem_cons.mp mem with rfl | mem
            · exact before.hops_le here
            · exact ih mem
          · rw [Function.update_of_ne same] at mem
            exact ih mem

/-! ### At rest -/

/-- **Once no copy is on the way**, every node within the limit has accepted its distance. -/
theorem Reachable.settled (reachable : net.Reachable source s) (quiet : s.flight = 0) {v : α}
    {d : ℕ} (dist : IsDist net.Adj source v (d + 1)) (le : d ≤ net.limit) :
    (s.seen v).head? = some d := by
  have inv := reachable.inv
  have settles : ∀ {x k}, Covered s x k → IsDist net.Adj source x (k + 1) →
      (s.seen x).head? = some k := by
    rintro x k (⟨c, mem, -⟩ | ⟨j, le, known⟩) dist
    · rw [quiet] at mem
      exact absurd mem (Multiset.notMem_zero c)
    · obtain ⟨w, walk, edge, -⟩ := inv.seen x j known
      have least := dist.least (j + 1) (walk.concat edge)
      rw [known, Nat.le_antisymm le (Nat.le_of_succ_le_succ least)]
  induction d generalizing v with
  | zero =>
      obtain ⟨u, near, edge⟩ := dist.last
      obtain rfl := isDist_zero.mp near
      exact settles (inv.first v edge) dist
  | succ d ih =>
      obtain ⟨u, near, edge⟩ := dist.last
      obtain ⟨w, walk, -, pass⟩ := inv.seen u d (ih near (Nat.le_of_succ_le le))
      -- The sender of the copy that `u` accepted is closer to the source than `v`.
      have other : v ≠ w := by
        rintro rfl
        have := dist.least d walk
        omega
      exact settles (pass le v edge other) dist

/-! ### How many copies there are -/

/-- How often a node may still pass a copy on. -/
def rank (limit : ℕ) (seen : List ℕ) : ℕ := min (seen.head?.getD limit) limit

/-- A node accepts fewer hops than it had. -/
theorem rank_cons_le {limit k : ℕ} {seen : List ℕ}
    (news : ∀ j, seen.head? = some j → k < j) : rank limit (k :: seen) ≤ rank limit seen := by
  unfold rank
  rcases known : seen.head? with _ | j
  · simp
  · have := news j known
    simp only [List.head?_cons, Option.getD_some]
    omega

/-- Below the limit it may pass on less often than before. -/
theorem rank_cons_lt {limit k : ℕ} {seen : List ℕ} (below : k < limit)
    (news : ∀ j, seen.head? = some j → k < j) : rank limit (k :: seen) < rank limit seen := by
  unfold rank
  rcases known : seen.head? with _ | j
  · simpa using below
  · have := news j known
    simp only [List.head?_cons, Option.getD_some]
    omega

/-- Only one node has passed something on. -/
theorem sum_update_le {nodes : Finset α} {f g : α → ℕ} {v : α} {k : ℕ} (mem : v ∈ nodes)
    (others : ∀ x, x ≠ v → g x = f x) (drop : k + g v ≤ f v) :
    k + ∑ x ∈ nodes, g x ≤ ∑ x ∈ nodes, f x := by
  have rest : ∑ x ∈ nodes.erase v, g x = ∑ x ∈ nodes.erase v, f x :=
    Finset.sum_congr rfl fun x hx => others x (Finset.ne_of_mem_erase hx)
  have whole := Finset.add_sum_erase nodes f mem
  have whole' := Finset.add_sum_erase nodes g mem
  omega

/-- What has been sent and what may still be sent. -/
structure Counted (net : Flooding α) (nodes : Finset α) (source : α) (s : Spread α) : Prop where
  sent : s.sent + ∑ v ∈ nodes, rank net.limit (s.seen v) * net.fan v ≤
    net.fan source + ∑ v ∈ nodes, net.limit * net.fan v
  received : s.received + s.flight.card = s.sent

theorem Counted.step {nodes : Finset α} (counted : Counted net nodes source s)
    (inv : net.Inv source s) (inside : ∀ v n, Walk net.Adj n source v → v ∈ nodes)
    (next : net.Step s s') : Counted net nodes source s' := by
  obtain ⟨sent, received⟩ := counted
  cases next with
  | @ignore copy rest k taken known old =>
      rw [taken, Multiset.card_cons] at received
      exact ⟨sent, by dsimp only [ignored]; omega⟩
  | @accept copy rest new taken news pass =>
      obtain ⟨walk, edge, -⟩ := inv.flight copy (taken ▸ Multiset.mem_cons_self copy rest)
      rw [taken, Multiset.card_cons] at received
      have mem : copy.target ∈ nodes := inside _ _ (walk.concat edge)
      have drop : new.card + rank net.limit (copy.hops :: s.seen copy.target) *
          net.fan copy.target ≤ rank net.limit (s.seen copy.target) * net.fan copy.target := by
        by_cases below : copy.hops < net.limit
        · rw [Passes, if_pos below] at pass
          calc new.card + rank net.limit (copy.hops :: s.seen copy.target) * net.fan copy.target
              ≤ net.fan copy.target + rank net.limit (copy.hops :: s.seen copy.target) *
                  net.fan copy.target := Nat.add_le_add_right pass.card _
            _ = (rank net.limit (copy.hops :: s.seen copy.target) + 1) *
                  net.fan copy.target := by rw [Nat.add_mul, Nat.one_mul, Nat.add_comm]
            _ ≤ rank net.limit (s.seen copy.target) * net.fan copy.target :=
                Nat.mul_le_mul_right _ (rank_cons_lt below news)
        · rw [Passes, if_neg below] at pass
          rw [pass, Multiset.card_zero, Nat.zero_add]
          exact Nat.mul_le_mul_right _ (rank_cons_le news)
      constructor
      · have total := sum_update_le (k := new.card)
          (f := fun v => rank net.limit (s.seen v) * net.fan v)
          (g := fun v => rank net.limit ((accepted s copy rest new).seen v) * net.fan v) mem
          (fun x other => by simp [accepted, other]) (by simpa [accepted] using drop)
        dsimp only [accepted] at total ⊢
        omega
      · dsimp only [accepted]
        rw [Multiset.card_add]
        omega

/-- **How many copies are sent at most**, on a finite graph. -/
theorem Reachable.counted {nodes : Finset α}
    (inside : ∀ v n, Walk net.Adj n source v → v ∈ nodes)
    (reachable : net.Reachable source s) : Counted net nodes source s := by
  induction reachable with
  | @start first sends =>
      constructor
      · have := sends.card
        simp only [rank, List.head?_nil, Option.getD_none, min_self]
        omega
      · exact Nat.zero_add _
  | step before next ih => exact ih.step before.inv inside next

end Step

end Flooding

end Prism.Lib
