import Prism.Message.Enums
import Prism.Lockfree.Sharing

/-!
Message hooks and the pool of undelivered packages
(`prism/common/transport/transport.py` and `prism/server/CS2/roles/lockfree/hook.py`).

A package that some registered hook matches goes into the channel of every such hook.
Any other package waits in a pool, a dictionary keyed by `hexdigest`: a new hook takes
the pooled packages it matches, and the hook task offers the pool again and drops what
is too old.

`Transport.handed_of_events` is the account of a hook's channel that the gathering
loop works on: what the hook took from the pool when it was registered, then every
matching package in the order of submission, copies included.
-/

namespace Prism.Lockfree

open Prism.Crypto

/-- The fields of an `MPCMap` that a round of communication uses. -/
structure MPCMap where
  action : ActionEnum
  requestId : Bytes
  shares : List Share := []
  opSuccess : Bool := false
deriving DecidableEq, Repr

/-- The fields of a `PrismMessage` that a round of communication uses. Every message
that `mpc_message` makes carries the party id of its sender. -/
structure Message where
  msgType : TypeEnum
  partyId : ℕ
  destPartyId : Option ℕ := none
  pseudonym : Option Bytes := none
  nonce : Option Bytes := none
  mpcMap : Option MPCMap := none
deriving DecidableEq, Repr

namespace Message

/-- `message.mpc_map`, where the code goes on to read one of its fields. -/
def map (m : Message) : Py MPCMap :=
  match m.mpcMap with
  | some map => .ok map
  | none => .error .attributeError

/-- `message.mpc_map.shares`. -/
def shares (m : Message) : Py (List Share) := MPCMap.shares <$> m.map

/-- The action of the message, if it has an `mpc_map`. -/
def action? (m : Message) : Option ActionEnum := m.mpcMap.map (·.action)

end Message

/-- Waits for the responses of one round of one operation. -/
structure MPCResponseHook where
  pseudonym : Bytes
  partyId : ℕ
  opId : Bytes
  opAction : Option ActionEnum
deriving DecidableEq, Repr

/-- `MPCResponseHook.match`. An empty pseudonym and the action of value zero are
false in Python, so they do not restrict the match. -/
def MPCResponseHook.matches (hook : MPCResponseHook) (message : Message) : Bool :=
  if message.msgType ≠ .mpcResponse then false
  else if message.pseudonym.any fun p => p ≠ [] && p ≠ hook.pseudonym then false
  else if message.destPartyId ≠ some hook.partyId then false
  else if message.mpcMap.all fun map => map.requestId ≠ hook.opId then false
  else if message.mpcMap.any fun map =>
    hook.opAction.any fun action => action.value ≠ 0 && map.action ≠ action then false
  else true

/-! ### The transport -/

/-- The part of a transport that hands packages to hooks: the registered hooks with
their channels, and the pool, whose keys are digests. A hook that was removed leaves
its place empty, so that a place names one hook for good. -/
structure Transport (Digest : Type) where
  hooks : List (Option (MPCResponseHook × List Message)) := []
  messagePool : List (Digest × Message) := []

namespace Transport

variable {Digest : Type}

/-- `hook.put` on every hook that matches. -/
def put (t : Transport Digest) (message : Message) : Transport Digest :=
  { t with hooks := t.hooks.map <| Option.map fun (hook, channel) =>
      if hook.matches message then (hook, channel ++ [message]) else (hook, channel) }

/-- `_check_hooks`: whether there was a match. -/
def checkHooks (t : Transport Digest) (message : Message) : Bool :=
  t.hooks.any <| Option.any fun (hook, _) => hook.matches message

/-- `register_hook`: the new hook takes the pooled packages it matches. -/
def registerHook (t : Transport Digest) (hook : MPCResponseHook) : Transport Digest where
  hooks := t.hooks ++ [some (hook, (t.messagePool.map Prod.snd).filter hook.matches)]
  messagePool := t.messagePool.filter fun entry => !hook.matches entry.2

/-- `remove_hook`, for the hook at a place. -/
def removeHook (t : Transport Digest) (place : ℕ) : Transport Digest :=
  { t with hooks := t.hooks.set place none }

variable [DecidableEq Digest] (hexdigest : Message → Digest)

/-- Assignment to a key of the pool: an existing key keeps its place. -/
def poolInsert (key : Digest) (message : Message) : List (Digest × Message) →
    List (Digest × Message)
  | [] => [(key, message)]
  | entry :: pool =>
      if entry.1 = key then (key, message) :: pool else entry :: poolInsert key message pool

/-- `submit_to_hooks`. -/
def submitToHooks (t : Transport Digest) (message : Message) : Transport Digest :=
  if t.checkHooks message then t.put message
  else { t with messagePool := poolInsert (hexdigest message) message t.messagePool }

/-- What `_hook_task` does with one package of the pool: a package that is too old is
dropped without being offered. -/
def offerPooled (tooOld : Message → Bool) (t : Transport Digest) (entry : Digest × Message) :
    Transport Digest :=
  let offered := if tooOld entry.2 then t else t.put entry.2
  if tooOld entry.2 || t.checkHooks entry.2 then
    { offered with messagePool := offered.messagePool.filter fun other => other.1 ≠ entry.1 }
  else offered

/-- One pass of `_hook_task`. -/
def hookTask (t : Transport Digest) (tooOld : Message → Bool) : Transport Digest :=
  t.messagePool.foldl (offerPooled tooOld) t

/-- What happens at a transport. -/
inductive Event where
  | submit (message : Message)
  | hookTask (tooOld : Message → Bool)
  | register (hook : MPCResponseHook)
  | remove (place : ℕ)

/-- One event. -/
def step (t : Transport Digest) : Event → Transport Digest
  | .submit message => t.submitToHooks hexdigest message
  | .hookTask tooOld => t.hookTask tooOld
  | .register hook => t.registerHook hook
  | .remove place => t.removeHook place

/-- A run of events. -/
def run (t : Transport Digest) (events : List Event) : Transport Digest :=
  events.foldl (step hexdigest) t

/-- The messages submitted in a run. -/
def submitted (events : List Event) : List Message :=
  events.filterMap fun
    | .submit message => some message
    | _ => none

theorem submitted_cons (event : Event) (events : List Event) :
    submitted (event :: events) = submitted [event] ++ submitted events :=
  List.filterMap_append (l := [event])

/-! ### The pool -/

/-- No pooled package matches a registered hook. -/
def Offered (t : Transport Digest) : Prop :=
  ∀ entry ∈ t.messagePool, t.checkHooks entry.2 = false

theorem mem_poolInsert {pool : List (Digest × Message)} {key : Digest} {message : Message}
    {entry : Digest × Message} (h : entry ∈ poolInsert key message pool) :
    entry ∈ pool ∨ entry = (key, message) := by
  induction pool with
  | nil => exact .inr (List.mem_singleton.mp h)
  | cons head pool ih =>
      unfold poolInsert at h
      split_ifs at h with same
      · rcases List.mem_cons.mp h with eq | mem
        · exact .inr eq
        · exact .inl (List.mem_cons_of_mem _ mem)
      · rcases List.mem_cons.mp h with eq | mem
        · exact .inl (eq ▸ List.mem_cons_self)
        · exact (ih mem).imp_left (List.mem_cons_of_mem _)

/-- An assignment adds at most the new package to the pool. -/
theorem poolInsert_subperm (key : Digest) (message : Message) (pool : List (Digest × Message)) :
    ((poolInsert key message pool).map Prod.snd).Subperm (pool.map Prod.snd ++ [message]) := by
  induction pool with
  | nil => exact List.Subperm.refl _
  | cons head pool ih =>
      unfold poolInsert
      split_ifs with same
      · have moved : (message :: pool.map Prod.snd).Perm (pool.map Prod.snd ++ [message]) :=
          (List.perm_append_singleton _ _).symm
        exact moved.subperm.trans (List.sublist_cons_self _ _).subperm
      · exact (List.subperm_cons head.2).mpr ih

section

omit [DecidableEq Digest]

/-- A hook matches when the transport says so, in either form. -/
theorem checkHooks_eq_false {t : Transport Digest} {message : Message} :
    t.checkHooks message = false ↔
      ∀ hook channel, some (hook, channel) ∈ t.hooks → hook.matches message = false := by
  simp only [checkHooks, List.any_eq_false]
  constructor
  · intro none hook channel mem
    simpa using none _ mem
  · intro none entry mem
    cases entry with
    | none => simp
    | some entry => simpa using none entry.1 entry.2 mem

/-- A put moves no hook. -/
theorem checkHooks_put (t : Transport Digest) (message other : Message) :
    (t.put message).checkHooks other = t.checkHooks other := by
  unfold put checkHooks
  rw [List.any_map]
  congr 1
  funext entry
  cases entry with
  | none => rfl
  | some entry =>
      simp only [Function.comp_apply, Option.map_some, Option.any_some]
      split <;> rfl

/-- A put of a package that no hook matches changes nothing. -/
theorem put_unmatched {t : Transport Digest} {message : Message}
    (unmatched : t.checkHooks message = false) : t.put message = t := by
  have same : t.hooks.map (Option.map fun (hook, channel) =>
      if hook.matches message then (hook, channel ++ [message]) else (hook, channel)) =
      t.hooks.map id := by
    refine List.map_congr_left fun entry mem => ?_
    cases entry with
    | none => rfl
    | some entry => simp [checkHooks_eq_false.mp unmatched entry.1 entry.2 mem]
  simp only [put, same, List.map_id]

end

/-- Over a pool that was offered before, the hook task only drops packages. -/
theorem hookTask_eq {t : Transport Digest} (offered : t.Offered) (tooOld : Message → Bool) :
    ∃ pool, pool.Sublist t.messagePool ∧ t.hookTask tooOld = { t with messagePool := pool } := by
  have loop : ∀ (rest pool : List (Digest × Message)), pool.Sublist t.messagePool →
      (∀ entry ∈ rest, t.checkHooks entry.2 = false) →
      ∃ pool', pool'.Sublist t.messagePool ∧
        rest.foldl (offerPooled tooOld) { t with messagePool := pool } =
          { t with messagePool := pool' } := by
    intro rest
    induction rest with
    | nil => exact fun pool sub _ => ⟨pool, sub, rfl⟩
    | cons entry rest ih =>
        intro pool sub unmatched
        have none : ({ t with messagePool := pool } : Transport Digest).checkHooks entry.2 = false :=
          unmatched _ List.mem_cons_self
        have tail : ∀ entry ∈ rest, t.checkHooks entry.2 = false :=
          fun entry mem => unmatched entry (List.mem_cons_of_mem _ mem)
        rw [List.foldl_cons]
        by_cases old : tooOld entry.2
        · simp only [offerPooled, old, if_true, Bool.true_or]
          exact ih _ (List.filter_sublist.trans sub) tail
        · simp only [offerPooled, old, none, put_unmatched none, Bool.false_eq_true, if_false,
            Bool.or_self]
          exact ih pool sub tail
  exact loop t.messagePool t.messagePool (List.Sublist.refl _) offered

/-- Every event keeps the pool free of packages that a hook matches. -/
theorem Offered.step {t : Transport Digest} (offered : t.Offered) (event : Event) :
    (t.step hexdigest event).Offered := by
  cases event with
  | submit message =>
      simp only [Transport.step, submitToHooks]
      split_ifs with matched
      · intro entry mem
        rw [checkHooks_put]
        exact offered entry mem
      · intro entry mem
        rcases mem_poolInsert mem with old | rfl
        · exact offered entry old
        · simpa [checkHooks] using matched
  | hookTask tooOld =>
      obtain ⟨pool, sub, eq⟩ := hookTask_eq offered tooOld
      simp only [Transport.step, eq]
      exact fun entry mem => offered entry (sub.mem mem)
  | register hook =>
      intro entry mem
      obtain ⟨old, unmatched⟩ := List.mem_filter.mp mem
      have := offered entry old
      simp only [checkHooks] at this
      simp only [Transport.step, registerHook, checkHooks, List.any_append, this]
      simpa using unmatched
  | remove place =>
      intro entry mem
      refine checkHooks_eq_false.mpr fun hook channel at_place => ?_
      rcases List.mem_or_eq_of_mem_set at_place with old | eq
      · exact checkHooks_eq_false.mp (offered entry mem) hook channel old
      · cases eq

theorem Offered.run {t : Transport Digest} (offered : t.Offered) (events : List Event) :
    (t.run hexdigest events).Offered := by
  induction events generalizing t with
  | nil => exact offered
  | cons event events ih => exact ih (offered.step hexdigest event)

/-- One event adds at most the submitted package to the pool. -/
theorem step_pool_subperm {t : Transport Digest} (offered : t.Offered) (event : Event) :
    ((t.step hexdigest event).messagePool.map Prod.snd).Subperm
      (t.messagePool.map Prod.snd ++ submitted [event]) := by
  cases event with
  | submit message =>
      simp only [Transport.step, submitToHooks]
      split_ifs
      · exact (List.sublist_append_left _ _).subperm
      · exact poolInsert_subperm _ _ _
  | hookTask tooOld =>
      obtain ⟨pool, sub, eq⟩ := hookTask_eq offered tooOld
      simpa [Transport.step, eq, submitted] using (sub.map Prod.snd).subperm
  | register hook =>
      simpa [Transport.step, registerHook, submitted] using
        ((List.filter_sublist (l := t.messagePool)).map Prod.snd).subperm
  | remove place => exact (List.sublist_append_left _ _).subperm

/-- The pool holds only packages that were submitted, each copy at most once. -/
theorem pool_subperm {t : Transport Digest} (offered : t.Offered) (events : List Event) :
    ((t.run hexdigest events).messagePool.map Prod.snd).Subperm
      (t.messagePool.map Prod.snd ++ submitted events) := by
  induction events generalizing t with
  | nil =>
      simp only [run, submitted, List.foldl_nil, List.filterMap_nil, List.append_nil]
      exact List.Subperm.refl _
  | cons event events ih =>
      have rest := ih (offered.step hexdigest event)
      have head := (step_pool_subperm hexdigest offered event).append
        (List.Subperm.refl (submitted events))
      rw [submitted_cons, ← List.append_assoc]
      exact rest.trans head

/-! ### What a hook is handed -/

/-- One event, for a hook that it does not remove: the hook gets the submitted package
if it matches. -/
theorem step_hook {t : Transport Digest} (offered : t.Offered) {n : ℕ} {hook : MPCResponseHook}
    {channel : List Message} (at_n : t.hooks[n]? = some (some (hook, channel))) {event : Event}
    (kept : event ≠ .remove n) :
    (t.step hexdigest event).hooks[n]? =
      some (some (hook, channel ++ (submitted [event]).filter hook.matches)) := by
  cases event with
  | submit message =>
      simp only [Transport.step, submitToHooks, submitted, List.filterMap_cons,
        List.filterMap_nil]
      split_ifs with matched
      · simp only [put, List.getElem?_map, at_n, Option.map_some]
        by_cases m : hook.matches message <;> simp [m]
      · have unmatched := checkHooks_eq_false.mp (by simpa using matched) hook channel
          (List.mem_of_getElem? at_n)
        simp [at_n, unmatched]
  | hookTask tooOld =>
      obtain ⟨pool, _, eq⟩ := hookTask_eq offered tooOld
      simp [Transport.step, eq, at_n, submitted]
  | register other =>
      have lt : n < t.hooks.length := (List.getElem?_eq_some_iff.mp at_n).1
      simp [Transport.step, registerHook, submitted, List.getElem?_append_left lt, at_n]
  | remove place =>
      have ne : place ≠ n := fun eq => kept (by rw [eq])
      simp [Transport.step, removeHook, submitted, List.getElem?_set_ne ne, at_n]

/-- **What a hook is handed** while events happen that do not remove it: every
submitted package it matches, in the order of submission and with every copy. -/
theorem handed_of_events {t : Transport Digest} (offered : t.Offered) {n : ℕ}
    {hook : MPCResponseHook} {channel : List Message}
    (at_n : t.hooks[n]? = some (some (hook, channel))) {events : List Event}
    (kept : ∀ event ∈ events, event ≠ .remove n) :
    (t.run hexdigest events).hooks[n]? =
      some (some (hook, channel ++ (submitted events).filter hook.matches)) := by
  induction events generalizing t channel with
  | nil => simp [run, submitted, at_n]
  | cons event events ih =>
      have next := ih (offered.step hexdigest event)
        (step_hook hexdigest offered at_n (kept event List.mem_cons_self))
        fun event mem => kept event (List.mem_cons_of_mem _ mem)
      rw [submitted_cons, List.filter_append, ← List.append_assoc]
      exact next

end Transport

end Prism.Lockfree
