import Prism.Lockfree.PollTask

/-!
What a find marks as checked when every peer answers (`handle_find_op` and `check_task` in
`prism/server/CS2/roles/lockfree/dropbox.py`).

A peer opens the masked differences from the first shares that it gathers, `threshold` of them. It
replies with a real share of the result for the targets that all of these were real for, and with a
dummy for the others; the leader opens the targets for which enough of the replies are real.

* `Valid.checked_of_answered`: the targets that are marked, by whose shares each peer gathered. It
  is what `PollSetting.opens` says of a turn.
-/

namespace Prism.Lockfree

open Prism.Crypto Prism.Lib Sharing

namespace Sharing

variable {self : Sharing}

/-- What a vector of sharings opens to, and which of them open at all. -/
theorem open_columns_iff (prime : self.modulus.Prime) (lt : self.nparties < self.modulus)
    {ks : List ℕ} {S : ℕ → Set ℕ} {v : ℕ → ZMod self.modulus} {f : ℕ → ℕ → Share}
    (shares : ∀ k ∈ ks, self.Shares (S k) self.threshold (v k) fun i => f i k)
    {is : List ℕ} (lacking : ∀ k ∈ ks, ∀ i ∈ is, i ∉ S k → f i k = dummy) (nodup : is.Nodup)
    (parties : ∀ i ∈ is, i < self.nparties) {p : ℕ → ℕ → Bool}
    (p_iff : ∀ k ∈ ks, ∀ i ∈ is, p k i = true ↔ i ∈ S k) :
    ∃ opened : ℕ → Option ℤ,
      (ks.map fun k => is.map fun i => f i k).mapM self.open = .ok (ks.map opened) ∧
      ∀ k ∈ ks, OpensTo (opened k) (v k) ∧
        (opened k ≠ none ↔ self.threshold ≤ (is.filter (p k)).length) := by
  classical
  have each : ∀ k ∈ ks, ∃ opened, self.open (is.map fun i => f i k) = .ok opened ∧
      OpensTo opened (v k) ∧
      (opened ≠ none ↔ self.threshold ≤ (is.filter (p k)).length) := by
    intro k hk
    have spec := open_spec prime lt (shares k hk) (lacking k hk) nodup parties
    have count : (is.filter fun i => decide (i ∈ S k)) = is.filter (p k) :=
      List.filter_congr fun i hi => by rw [← Bool.coe_iff_coe, decide_eq_true_eq, p_iff k hk i hi]
    rw [count] at spec
    split_ifs at spec with few
    · exact ⟨none, spec, nofun, iff_of_false (fun ne => ne rfl) (not_le.mpr few)⟩
    · obtain ⟨w, run, low, high, val⟩ := spec
      refine ⟨some w, run, fun w' eq => ?_, iff_of_true nofun (not_lt.mp few)⟩
      obtain rfl := Option.some.inj eq
      exact ⟨low, high, val⟩
  choose! opened run val using each
  refine ⟨opened, ?_, val⟩
  rw [List.mapM_map]
  exact mapM_ok run

end Sharing

namespace FindOp

/-- Every peer that is asked has what it takes to answer, and gathers the shares of `threshold` of
the others. -/
structure Answered (find : FindOp) (opPeers : List ℕ) : Prop where
  nodup : opPeers.Nodup
  parties : ∀ j ∈ opPeers, j < find.sharing.nparties
  chunk : ∀ j ∈ opPeers, (find.chunk j).isSome
  readPeer : ∀ j ∈ opPeers, (find.readPeer j).isSome
  asked : ∀ j ∈ opPeers, find.opPeers j = opPeers
  gathered_subperm : ∀ j ∈ opPeers, (find.gathered j).Subperm opPeers
  length_gathered : ∀ j ∈ opPeers, (find.gathered j).length = find.sharing.threshold
  enough : find.sharing.threshold ≤ opPeers.length
  targets_ne : find.targets ≠ []

/-- All the shares of the `k`-th target that a peer gathers are real. -/
def gathersReal (find : FindOp) (k j : ℕ) : Bool :=
  (find.gathered j).all fun i => (find.stored i (find.target k)).isSome

section Answered

variable {find : FindOp} {x : ℕ → ℤ} {y : ℤ} {r a b c : ℕ → ℤ} (valid : find.Valid x y r a b c)
  {opPeers : List ℕ} (answered : find.Answered opPeers)
include answered

theorem Answered.active {j : ℕ} (mem : j ∈ opPeers) : j ∈ find.Active :=
  ⟨answered.chunk j mem, answered.readPeer j mem, by
    rw [answered.asked j mem]
    exact List.ne_nil_of_mem mem⟩

include valid

/-- Every peer sends its masked shares to every other one. -/
theorem Valid.sent_of_answered {i j : ℕ} (sender : i ∈ opPeers) (receiver : j ∈ opPeers) :
    find.sent i j = some ((find.masked i).addressed j) := by
  obtain ⟨count, eq⟩ := valid.op_active (answered.active sender)
  unfold FindOp.sent
  rw [eq, answered.asked i sender]
  exact (find?_addressed (find.masked i) opPeers j).trans (if_pos receiver)

theorem Valid.gathered_of_answered {j : ℕ} (mem : j ∈ opPeers) :
    ((find.gathered j).filterMap fun i => find.sent i j) =
      (find.gathered j).map fun i => (find.masked i).addressed j := by
  rw [← List.filterMap_eq_map]
  refine List.filterMap_congr fun i inside => ?_
  exact valid.sent_of_answered answered ((answered.gathered_subperm j mem).subset inside) mem

/-- What a peer opens: the second masked values, and the first ones that were real everywhere. -/
theorem Valid.openResponses_of_answered {j : ℕ} (mem : j ∈ opPeers) :
    ∃ e d : ℕ → Option ℤ,
      MPCRole.openResponses find.sharing
          ((find.gathered j).map fun i => (find.masked i).addressed j) =
        .ok (find.indices.map e ++ find.indices.map d) ∧
      ∀ k ∈ find.indices,
        OpensTo (e k) ((x k - y - a k : ℤ) : ZMod find.sharing.modulus) ∧
        OpensTo (d k) ((r k - b k : ℤ) : ZMod find.sharing.modulus) ∧
        (e k ≠ none ↔ find.gathersReal k j = true) ∧ d k ≠ none := by
  have length := answered.length_gathered j mem
  have nodup := valid.gathered_nodup j
  have inside : ∀ i ∈ find.gathered j, i ∈ opPeers := fun i hi =>
    (answered.gathered_subperm j mem).subset hi
  have parties : ∀ i ∈ find.gathered j, i < find.sharing.nparties := fun i hi =>
    answered.parties i (inside i hi)
  have active : ∀ i ∈ find.gathered j, i ∈ find.Active := fun i hi =>
    answered.active (inside i hi)
  have ne : find.gathered j ≠ [] := by
    have positive := valid.threshold_pos
    exact List.ne_nil_of_length_pos (by omega)
  obtain ⟨e, openE, valE⟩ := open_columns_iff valid.prime valid.parties_lt
    (S := fun k => find.Holders k ∩ find.Active) (f := find.epsilon)
    (fun k hk => valid.epsilonShares hk)
    (fun k _ i hi lacks => epsilon_lacking fun holds => lacks ⟨holds, active i hi⟩) nodup parties
    (p := fun k i => (find.stored i (find.target k)).isSome)
    (fun k _ i hi => ⟨fun stored => ⟨stored, active i hi⟩, fun both => both.1⟩)
  obtain ⟨d, openD, valD⟩ := open_columns_iff valid.prime valid.parties_lt
    (S := fun _ => find.Active) (f := find.delta) (fun k hk => valid.deltaShares hk)
    (fun _ _ i hi lacks => absurd (active i hi) lacks) nodup parties (p := fun _ _ => true)
    (fun _ _ i hi => iff_of_true rfl (active i hi))
  refine ⟨e, d, ?_, fun k hk => ⟨?_, ?_, ?_, ?_⟩⟩
  · have rows : ((find.gathered j).map fun i => (find.masked i).addressed j).mapM Message.shares =
        .ok ((find.gathered j).map fun i => find.indices.map (find.epsilon i) ++
          find.indices.map (find.delta i)) := by
      rw [List.mapM_map]
      exact mapM_ok fun i _ => rfl
    unfold MPCRole.openResponses
    rw [if_neg (by simpa using ne), rows, ok_bind, zipStar_map_append ne, List.mapM_append, openE,
      openD]
    rfl
  · simpa using (valE k hk).1
  · simpa using (valD k hk).1
  · rw [(valE k hk).2, gathersReal, ← length]
    constructor
    · intro all
      have every := List.length_filter_eq_length_iff.mp (le_antisymm (List.length_filter_le _ _) all)
      exact List.all_eq_true.mpr every
    · intro all
      rw [List.filter_eq_self.mpr (List.all_eq_true.mp all)]
  · rw [(valD k hk).2, List.filter_eq_self.mpr fun _ _ => rfl, length]

/-- **The reply of a peer** to a find that it answers: a share for each target, and a dummy exactly
for those that a share it gathered was missing for. -/
theorem Valid.reply_of_answered {j : ℕ} (mem : j ∈ opPeers) :
    ∃ product : ℕ → Share,
      find.reply j = .ok (some ((⟨j, find.sharing⟩ : MPCRole).response .findHandler find.requestId
        (find.indices.map product) true)) ∧
      ∀ k ∈ find.indices, find.ProductShare x y r a b j k (product k) ∧
        (product k ≠ dummy ↔ find.gathersReal k j = true) := by
  have active := answered.active mem
  obtain ⟨count, opEq⟩ := valid.op_active active
  obtain ⟨e, d, opened, vals⟩ := valid.openResponses_of_answered answered mem
  have each : ∀ k ∈ find.indices, ∃ s, find.sharing.mulEd (e k) (d k) (find.triple j k) = .ok s ∧
      find.ProductShare x y r a b j k s ∧ (s ≠ dummy ↔ find.gathersReal k j = true) := by
    intro k hk
    obtain ⟨opensE, opensD, real, some⟩ := vals k hk
    obtain ⟨s, run, share⟩ := valid.mulEd_ok active hk opensE opensD
    refine ⟨s, run, share, ?_⟩
    rw [← real]
    constructor
    · rintro isReal none
      rw [mulEd_none _ (.inl none)] at run
      exact isReal (Except.ok.inj run).symm
    · intro ne
      obtain ⟨e', atE⟩ := Option.ne_none_iff_exists'.mp ne
      obtain ⟨d', atD⟩ := Option.ne_none_iff_exists'.mp some
      obtain ⟨v, product, -⟩ := mulEd_party find.sharing j e' d' (find.triple j k).a.share
        (find.triple j k).b.share (find.triple j k).c.share
      rw [atE, atD, valid.triple_eq active hk, product] at run
      obtain rfl := Except.ok.inj run
      intro isDummy
      have negative : (j : ℤ) = -1 := congrArg Share.x isDummy
      omega
  choose! product run val using each
  refine ⟨product, ?_, val⟩
  have some : find.indices ≠ [] := by
    have positive := List.length_pos_of_ne_nil answered.targets_ne
    exact List.ne_nil_of_length_pos (by rwa [indices, List.length_range])
  unfold FindOp.reply
  rw [opEq, Resumption.run_ask, valid.gathered_of_answered answered mem, Resumption.run_done,
    finish, MPCRole.mulmResponses, opened, ok_bind, if_neg (by simp [some]), combined_ok run,
    ok_bind, if_neg (by simp [some])]
  rfl

/-- **What is marked as checked** when every peer that was asked answers: the targets that enough
peers have gathered only real shares of. -/
theorem Valid.checked_of_answered {fragments : List Bytes} {size : ℕ}
    (targets : find.targets = fragments.take size) :
    ∃ checked, checkTask find.sharing opPeers fragments size (find.replies opPeers) = .ok checked ∧
      checked.checked = find.targets.filter fun target => find.sharing.threshold ≤
        (opPeers.filter fun j =>
          (find.gathered j).all fun i => (find.stored i target).isSome).length := by
  have each : ∀ j ∈ opPeers, ∃ product : ℕ → Share, _ := fun j mem =>
    valid.reply_of_answered answered mem
  choose! product replied vals using each
  have replies : find.replies opPeers = opPeers.map fun j =>
      (⟨j, find.sharing⟩ : MPCRole).response .findHandler find.requestId
        (find.indices.map (product j)) true := by
    rw [FindOp.replies, ← List.filterMap_eq_map]
    refine List.filterMap_congr fun j mem => ?_
    rw [replied j mem]
    rfl
  have ne : opPeers ≠ [] := by
    have positive := valid.threshold_pos
    have enough := answered.enough
    exact List.ne_nil_of_length_pos (by omega)
  obtain ⟨opened, run, val⟩ := open_columns_iff valid.prime valid.parties_lt
    (S := fun k => { j | j ∈ opPeers ∧ product j k ≠ dummy }) (f := product)
    (fun k hk => by
      have among := @Valid.productShares _ _ _ _ _ _ _ valid k hk
        (fun j => if j ∈ opPeers then product j k else dummy) fun j _ => by
          split_ifs with mem
          · exact (vals j mem k hk).1
          · exact .inl rfl
      refine ⟨fun j real => ?_, (among.shared.mono fun j real => ?_).congr fun j real => ?_⟩
      · have own := ((vals j real.1 k hk).1).resolve_left real.2
        exact own.1
      · exact ⟨answered.active real.1, by rw [if_pos real.1]; exact real.2⟩
      · rw [if_pos real.1])
    (fun k _ j mem lacks => by
      by_contra real
      exact lacks ⟨mem, real⟩)
    answered.nodup answered.parties (p := find.gathersReal)
    (fun k hk j mem => ((vals j mem k hk).2.symm.trans (and_iff_right mem).symm))
  have rows : (find.replies opPeers).mapM Message.shares =
      .ok (opPeers.map fun j => find.indices.map (product j)) := by
    rw [replies, List.mapM_map]
    exact mapM_ok fun j _ => rfl
  have successes : (find.replies opPeers).filterM (fun response =>
      MPCMap.opSuccess <$> response.map) = .ok (find.replies opPeers) := by
    refine filterM_ok fun response mem => ?_
    rw [replies] at mem
    obtain ⟨j, _, rfl⟩ := List.mem_map.mp mem
    rfl
  have enough := answered.enough
  refine ⟨{
    results := find.indices.map opened
    found := (((fragments.take size).zip (find.indices.map opened)).filter
      fun e => e.2 = some 0).map Prod.fst
    checked := ((fragments.zip (find.indices.map opened)).filter
      fun e => e.2 ≠ none).map Prod.fst }, ?_, ?_⟩
  · unfold checkTask
    rw [if_neg (by omega), successes, ok_bind, if_neg (by rw [replies, List.length_map]; omega),
      rows, ok_bind, zipStar_map ne, run, ok_bind]
    rfl
  · have zipped : fragments.zip (find.indices.map opened) =
        find.indices.map fun k => (find.target k, opened k) := by
      have length : (fragments.take size).length = (find.indices.map opened).length := by
        simp [indices, targets]
      rw [← List.append_nil (find.indices.map opened), ← List.take_append_drop size fragments,
        List.zip_append length, List.zip_nil_right, List.append_nil, ← targets, ← List.zip_map',
        ← targets_eq]
    rw [zipped, List.filter_map, List.map_map]
    conv_rhs => rw [targets_eq, List.filter_map]
    refine congrArg (List.map _) (List.filter_congr fun k hk => ?_)
    rw [← Bool.coe_iff_coe, Function.comp_apply, Function.comp_apply, decide_eq_true_eq,
      decide_eq_true_eq, (val k hk).2]
    rfl

end Answered

end FindOp

end Prism.Lockfree
