import Mathlib.Data.String.Basic
import Prism.Lib.Sorting
import Prism.Lockfree.Dropbox
import Prism.Routing.EarkStore
import Prism.Vrf.Committees

/-!
The committee of an epoch (`prism/server/CS2/roles/lockfree/dropbox.py`).

A dropbox forms its committee from the announcements that its previous role was flooded with. The
members are sorted by their pseudonyms, and the first `mpc_nparties` of them are active. A dropbox
finds its own party id by its name.

* `formEpochCommittee_eq`: the committee, in terms of the members that are announced.
* `seat_partyId`: the party id is the rank of the pseudonym.
* `committees_agree`: all members form the same committee.
-/

namespace Prism.Lockfree

open Lib (sortBy rank)
open Routing (Eark EARKStore)
open Vrf (Setting Settings)

/-! ### Numbers in a configuration -/

/-- `value + n`. -/
def Setting.plus (value : Setting) (n : ℤ) : Py ℚ :=
  match value with
  | .int i => .ok ((i + n : ℤ) : ℚ)
  | .float q => .ok (q + n)
  | .bool b => .ok (b.toNat + n)
  | _ => .error .typeError

/-- `xs[:stop]`. -/
def sliceTo {α : Type} (xs : List α) (stop : Setting) : Py (List α) :=
  match stop with
  | .none => .ok xs
  | .int n => .ok (pySlice xs 0 n)
  | .bool b => .ok (pySlice xs 0 b.toNat)
  | _ => .error .typeError

theorem pySlice_zero {α : Type} (xs : List α) (n : ℕ) : pySlice xs 0 n = xs.take n := by
  have start : sliceBound xs.length 0 = 0 := by simp [sliceBound]
  have stop : sliceBound xs.length n = min n xs.length := if_neg (by omega)
  rw [pySlice, start, stop, List.drop_zero, Nat.sub_zero, ← List.take_eq_take_min]

/-! ### The committee -/

/-- The order of a committee. -/
def orderingKey (member : String × Bytes) : String := hex member.2

/-- The peers are made of the active members, and the own party id is where the own name is. -/
def LockFreeDropbox.seat (self : LockFreeDropbox) (id : String)
    (activeMembers : List (String × Bytes)) : LockFreeDropbox :=
  { self with
    peers := activeMembers.zipIdx.map fun e => { partyId := e.2, name := e.1.1, pseudonym := e.1.2 }
    partyId := match activeMembers.findIdx? (·.1 = id) with
      | some i => i
      | none => self.partyId }

/-- `form_epoch_committee` of a server with this committee and this name. -/
def formEpochCommittee (configuration : Settings) (committeeName id : String)
    (payloads : List Eark) (self : LockFreeDropbox) : Py (LockFreeDropbox × Bool) := do
  let minimumParties ← Setting.plus (configuration.get "threshold" .none) 1
  let committeeMembers := sortBy (fun eark => hex eark.pseudonym)
    (payloads.filter (·.isIn committeeName))
  let activeMembers ← sliceTo committeeMembers (configuration.get "mpc_nparties" .none)
  return if (activeMembers.length : ℚ) < minimumParties then (self, false)
    else (self.seat id (activeMembers.map Eark.member), true)

/-- A member is active: the committee is large enough, and the member is among the first. -/
def IsActive (nparties : ℕ) (threshold : ℤ) (members : List (String × Bytes)) (id : String) : Prop :=
  threshold + 1 ≤ min nparties members.length ∧
    ∃ m ∈ members, m.1 = id ∧ rank orderingKey members m < nparties

/-- The own party id is the index of the own entry, or -1. -/
def LockFreeDropbox.IsSeated (self : LockFreeDropbox) (id : String) : Prop :=
  self.partyId = -1 ∨ ∃ (i : ℕ) (peer : DropboxPeer), self.partyId = i ∧
    self.peers[i]? = some peer ∧ peer.name = id

/-- With the same peers, servers with the same party id have the same name. -/
theorem LockFreeDropbox.IsSeated.unique {self self' : LockFreeDropbox} {id id' : String}
    (seated : self.IsSeated id) (seated' : self'.IsSeated id') (peers : self.peers = self'.peers)
    (same : self.partyId = self'.partyId) (some_id : self.partyId ≠ -1) : id = id' := by
  obtain none | ⟨i, peer, place, found, own⟩ := seated
  · exact absurd none some_id
  · obtain none | ⟨j, peer', place', found', own'⟩ := seated'
    · exact absurd (same.trans none) some_id
    · obtain rfl : i = j := by omega
      obtain rfl := Option.some.inj (found.symm.trans ((congrArg (·[i]?) peers).trans found'))
      exact own.symm.trans own'

section Committee

variable {configuration : Settings} {committeeName id : String} {nparties : ℕ} {threshold : ℤ}
  {members : List (String × Bytes)} {store : EARKStore}

/-- The members in their order are the announcements in their order. -/
theorem sorted_members (pseudonyms : (members.map Prod.snd).Nodup)
    (holds : store.Holds committeeName members) :
    (sortBy (fun eark : Eark => hex eark.pseudonym)
      (store.payloads.filter (·.isIn committeeName))).map Eark.member =
        sortBy orderingKey members := by
  refine (show _ = sortBy orderingKey _ from Lib.map_sortBy (fun _ => rfl) _).trans
    (Lib.sortBy_congr ?_ ?_ fun m => ?_)
  · have keys : (store.payloads.filter (·.isIn committeeName)).map Eark.pseudonym |>.Nodup :=
      store.distinct.sublist (List.filter_sublist.map _)
    have texts := keys.map hex_injective
    rw [List.map_map] at texts ⊢
    exact texts
  · have texts := pseudonyms.map hex_injective
    rwa [List.map_map] at texts
  · simp only [holds m, List.mem_map, List.mem_filter, and_assoc]

/-- **The committee** in terms of the announced members. -/
theorem formEpochCommittee_eq
    (parties : configuration.get "mpc_nparties" .none = .int nparties)
    (needed : configuration.get "threshold" .none = .int threshold)
    (pseudonyms : (members.map Prod.snd).Nodup) (holds : store.Holds committeeName members)
    (self : LockFreeDropbox) :
    formEpochCommittee configuration committeeName id store.payloads self =
      .ok (if threshold + 1 ≤ min nparties members.length then
        (self.seat id ((sortBy orderingKey members).take nparties), true) else (self, false)) := by
  have sorted := sorted_members pseudonyms holds
  have count : (sortBy (fun eark : Eark => hex eark.pseudonym)
      (store.payloads.filter (·.isIn committeeName))).length = members.length := by
    rw [← List.length_map, sorted, Lib.length_sortBy]
  rw [formEpochCommittee, needed, parties]
  simp only [Setting.plus, sliceTo, pySlice_zero, ok_bind, List.map_take, sorted,
    List.length_take, count]
  by_cases enough : threshold + 1 ≤ min nparties members.length
  · rw [if_pos enough, if_neg (by exact_mod_cast not_lt.mpr enough)]
    rfl
  · rw [if_neg enough, if_pos (by exact_mod_cast not_le.mp enough)]
    rfl

/-! ### Seats -/

variable {self : LockFreeDropbox} {active : List (String × Bytes)}

theorem getElem?_seat (self : LockFreeDropbox) (id : String) {i : ℕ} {peer : DropboxPeer} :
    (self.seat id active).peers[i]? = some peer ↔ ∃ m, active[i]? = some m ∧
      peer = { partyId := i, name := m.1, pseudonym := m.2 } := by
  simp [LockFreeDropbox.seat, List.getElem?_map, List.getElem?_zipIdx, eq_comm]

/-- Where names differ, the own name is at one place. -/
theorem seat_partyId_iff (names : (active.map Prod.fst).Nodup) (fresh : self.partyId = -1) {i : ℕ} :
    (self.seat id active).partyId = i ↔ ∃ m, active[i]? = some m ∧ m.1 = id := by
  cases found : active.findIdx? (·.1 = id) with
  | none =>
      have absent := List.findIdx?_eq_none_iff.mp found
      simp only [LockFreeDropbox.seat, found, fresh]
      constructor
      · intro negative
        omega
      · rintro ⟨m, here, own⟩
        have other := absent m (List.mem_of_getElem? here)
        simp [own] at other
  | some k =>
      obtain ⟨lt, own, -⟩ := List.findIdx?_eq_some_iff_getElem.mp found
      have here : active[k]? = some active[k] := List.getElem?_eq_getElem lt
      rw [decide_eq_true_eq] at own
      simp only [LockFreeDropbox.seat, found, Nat.cast_inj]
      constructor
      · rintro rfl
        exact ⟨_, here, own⟩
      · rintro ⟨m, there, same⟩
        refine (List.getElem?_inj (by rwa [List.length_map]) names).mp ?_
        rw [List.getElem?_map, List.getElem?_map, here, there]
        exact congrArg some (own.trans same.symm)

/-- **The party id is the rank** of the own pseudonym. -/
theorem seat_partyId (names : (members.map Prod.fst).Nodup)
    (pseudonyms : (members.map Prod.snd).Nodup) (fresh : self.partyId = -1) {i : ℕ} :
    (self.seat id ((sortBy orderingKey members).take nparties)).partyId = i ↔
      ∃ m ∈ members, m.1 = id ∧ rank orderingKey members m = i ∧ i < nparties := by
  have keys : (members.map orderingKey).Nodup := by
    have texts := pseudonyms.map hex_injective
    rwa [List.map_map] at texts
  have sortedNames : (((sortBy orderingKey members).take nparties).map Prod.fst).Nodup :=
    (((Lib.sortBy_perm members).map Prod.fst).nodup_iff.mpr names).sublist
      ((List.take_sublist _ _).map _)
  rw [seat_partyId_iff sortedNames fresh]
  simp only [List.getElem?_take, Option.ite_none_right_eq_some, Lib.getElem?_sortBy keys]
  constructor
  · rintro ⟨m, ⟨lt, mem, place⟩, own⟩
    exact ⟨m, mem, own, place, lt⟩
  · rintro ⟨m, mem, own, place, lt⟩
    exact ⟨m, ⟨lt, mem, place⟩, own⟩

/-- A dropbox that has formed a committee for itself has a party id when it is active. -/
theorem seat_partyId_none (names : (members.map Prod.fst).Nodup)
    (pseudonyms : (members.map Prod.snd).Nodup) (fresh : self.partyId = -1) :
    (self.seat id ((sortBy orderingKey members).take nparties)).partyId = -1 ↔
      ¬ ∃ m ∈ members, m.1 = id ∧ rank orderingKey members m < nparties := by
  have placed (i : ℕ) := @seat_partyId id nparties members self names pseudonyms fresh i
  constructor
  · rintro none ⟨m, mem, own, lt⟩
    have := (placed _).mpr ⟨m, mem, own, rfl, lt⟩
    omega
  · intro inactive
    by_contra some_id
    obtain ⟨i, here⟩ : ∃ i : ℕ,
        (self.seat id ((sortBy orderingKey members).take nparties)).partyId = i := by
      unfold LockFreeDropbox.seat at some_id ⊢
      dsimp only at some_id ⊢
      split at some_id
      · exact ⟨_, rfl⟩
      · exact absurd fresh some_id
    obtain ⟨m, mem, own, rfl, lt⟩ := (placed i).mp here
    exact inactive ⟨m, mem, own, lt⟩

theorem seat_isSeated (names : (members.map Prod.fst).Nodup)
    (pseudonyms : (members.map Prod.snd).Nodup) (fresh : self.partyId = -1) :
    (self.seat id ((sortBy orderingKey members).take nparties)).IsSeated id := by
  by_cases active : ∃ m ∈ members, m.1 = id ∧ rank orderingKey members m < nparties
  · obtain ⟨m, mem, own, lt⟩ := active
    have place := (seat_partyId names pseudonyms fresh).mpr ⟨m, mem, own, rfl, lt⟩
    have keys : (members.map orderingKey).Nodup := by
      have texts := pseudonyms.map hex_injective
      rwa [List.map_map] at texts
    refine .inr ⟨_, { partyId := rank orderingKey members m, name := m.1, pseudonym := m.2 }, place,
      (getElem?_seat self id).mpr ⟨m, ?_, rfl⟩, own⟩
    rw [List.getElem?_take, if_pos lt]
    exact (Lib.getElem?_sortBy keys).mpr ⟨mem, rfl⟩
  · exact .inl ((seat_partyId_none names pseudonyms fresh).mpr active)

end Committee

/-- **Committees agree on themselves.** Servers that hold announcements of the same members form the
same list of peers, numbered in order. Each server has the index of its own entry as its party id, so
that no two have the same one, and -1 if it is not active. -/
theorem committees_agree {configuration : Settings} {committeeName : String} {nparties : ℕ}
    {threshold : ℤ} {members : List (String × Bytes)} {earks earks' : List Eark}
    (parties : configuration.get "mpc_nparties" .none = .int nparties)
    (needed : configuration.get "threshold" .none = .int threshold)
    (names : (members.map Prod.fst).Nodup) (pseudonyms : (members.map Prod.snd).Nodup)
    (holds : (EARKStore.received earks).Holds committeeName members)
    (holds' : (EARKStore.received earks').Holds committeeName members) (id id' : String) :
    ∃ self self' formed,
      formEpochCommittee configuration committeeName id (EARKStore.received earks).payloads {} =
        .ok (self, formed) ∧
      formEpochCommittee configuration committeeName id' (EARKStore.received earks').payloads {} =
        .ok (self', formed) ∧
      self.peers = self'.peers ∧
      (∀ (i : ℕ) peer, self.peers[i]? = some peer → peer.partyId = i) ∧
      self.IsSeated id ∧ self'.IsSeated id' ∧
      (id ≠ id' → self.partyId = self'.partyId → self.partyId = -1) ∧
      (self.partyId = -1 ↔ ¬ IsActive nparties threshold members id) ∧
      (self'.partyId = -1 ↔ ¬ IsActive nparties threshold members id') := by
  rw [formEpochCommittee_eq parties needed pseudonyms holds,
    formEpochCommittee_eq parties needed pseudonyms holds']
  by_cases enough : threshold + 1 ≤ min nparties members.length
  · rw [if_pos enough, if_pos enough]
    have inactive (id : String) : ¬ IsActive nparties threshold members id ↔
        ¬ ∃ m ∈ members, m.1 = id ∧ rank orderingKey members m < nparties :=
      not_congr (and_iff_right enough)
    have none (id : String) := @seat_partyId_none id nparties members {} names pseudonyms rfl
    refine ⟨_, _, true, rfl, rfl, rfl, ?_, seat_isSeated names pseudonyms rfl,
      seat_isSeated names pseudonyms rfl, ?_, (none id).trans (inactive id).symm,
      (none id').trans (inactive id').symm⟩
    · intro i peer found
      obtain ⟨m, -, rfl⟩ := (getElem?_seat {} id).mp found
      rfl
    · intro ne same
      by_contra some_id
      exact ne ((seat_isSeated names pseudonyms rfl).unique (seat_isSeated names pseudonyms rfl) rfl
        same some_id)
  · rw [if_neg enough, if_neg enough]
    have inactive (id : String) : ¬ IsActive nparties threshold members id := fun active =>
      enough active.1
    exact ⟨{}, {}, false, rfl, rfl, rfl, (fun i peer found => by cases found), .inl rfl, .inl rfl,
      fun _ _ => rfl, iff_of_true rfl (inactive id), iff_of_true rfl (inactive id')⟩

/-- An announcement for the committee `c`. -/
def exampleEark (name : String) (pseudonym : Bytes) : Eark where
  message := PrismMessage.create 0 .epochArk
    [(.name, .str name), (.pseudonym, .bytes pseudonym), (.committee, .str "c")]
  name
  pseudonym
  name_eq := rfl
  pseudonym_eq := rfl

/-- The announcements of three servers, as one of them received them. -/
def exampleEarks : List Eark := [exampleEark "x" [3], exampleEark "y" [1], exampleEark "z" [2]]

/-- The announcements as another one received them. -/
def otherEarks : List Eark :=
  [exampleEark "z" [2], exampleEark "x" [3], exampleEark "z" [2], exampleEark "y" [1]]

/-- Two of the three servers are active, and have formed the same committee. -/
theorem example_committee :
    ∃ self self' formed,
      formEpochCommittee [("mpc_nparties", .int 2), ("threshold", .int 1)] "c" "y"
        (EARKStore.received exampleEarks).payloads {} = .ok (self, formed) ∧
      formEpochCommittee [("mpc_nparties", .int 2), ("threshold", .int 1)] "c" "z"
        (EARKStore.received otherEarks).payloads {} = .ok (self', formed) ∧
      self.peers = self'.peers ∧ self.partyId ≠ self'.partyId := by
  have holds : (EARKStore.received exampleEarks).Holds "c" [("x", [3]), ("y", [1]), ("z", [2])] :=
    EARKStore.holds_of_perm (by decide)
  have holds' : (EARKStore.received otherEarks).Holds "c" [("x", [3]), ("y", [1]), ("z", [2])] :=
    EARKStore.holds_of_perm (by decide)
  obtain ⟨self, self', formed, run, run', peers, -, -, -, apart, some_id, -⟩ :=
    @committees_agree [("mpc_nparties", .int 2), ("threshold", .int 1)] "c" 2 1
      [("x", [3]), ("y", [1]), ("z", [2])] exampleEarks otherEarks rfl rfl (by decide) (by decide)
      holds holds' "y" "z"
  have active : IsActive 2 1 [("x", [3]), ("y", [1]), ("z", [2])] "y" :=
    ⟨by decide, ("y", [1]), by decide, rfl, by decide⟩
  exact ⟨self, self', formed, run, run', peers, fun same =>
    some_id.mp (apart (by decide) same) active⟩

end Prism.Lockfree
