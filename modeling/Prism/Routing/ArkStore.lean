import Prism.Crypto.Verify
import Prism.Routing.Network

/-!
The announcements that a server knows (`prism/server/CS2/ark_store.py`,
`prism/common/server_db.py`).

A record is kept for each pseudonym. An announcement replaces the one of its pseudonym when it
expires later, and a record that has expired is removed when it is recorded. A message that is
no announcement, or has no expiration, is refused before anything changes.

* `ArkStore.Takes`: the announcements that are kept.
* `ArkStore.record_takes`, `ArkStore.mem_record`: recording keeps those, and no others.
* `ArkStore.Holds.record`, `ArkStore.Holds.of_record`: what holds of all announcements but the
  server's own still does, exactly when it holds of the new one or that is not kept.
-/

namespace Prism.Routing

open Crypto

/-- `datetime.utcfromtimestamp`, in microseconds. -/
def utcfromtimestamp (timestamp : Value) : Py ℤ := do
  let seconds ← asInt timestamp
  if -62135596800 ≤ seconds ∧ seconds ≤ 253402300799 then return seconds * 10 ^ 6
  else throw (.valueError "year is out of range")

/-! ### Records -/

/-- `ServerRecord`. -/
structure ServerRecord where
  pseudonym : Option Bytes
  ark : PrismMessage
  expiration : ℤ
  lastBroadcast : ℤ := 0

/-- The pseudonym of a message. -/
def pseudonymOf (message : PrismMessage) : Option Bytes := (message.get .pseudonym).bytes?

namespace ServerRecord

/-- `ServerRecord(ark)`. -/
def create (ark : PrismMessage) : Py ServerRecord := do
  pyAssert (isArk ark = true)
  let expiration ← utcfromtimestamp (ark.get .expiration)
  return { pseudonym := pseudonymOf ark, ark, expiration }

/-- `valid`. -/
def valid (self : ServerRecord) (now : ℤ) : Bool := self.expiration > now

/-- `update`. -/
def update (self : ServerRecord) (ark : PrismMessage) : Py ServerRecord := do
  let arkExpires ← utcfromtimestamp (ark.get .expiration)
  return if arkExpires > self.expiration then { self with ark, expiration := arkExpires } else self

end ServerRecord

/-- The records by their pseudonyms. -/
abbrev Servers := List (Option Bytes × ServerRecord)

/-- `ServerDB.record`: the records, and the one of the announcement. -/
def ServerDB.record (servers : Servers) (ark : PrismMessage) : Py (Servers × ServerRecord) := do
  pyAssert (isArk ark = true)
  match servers.lookup (pseudonymOf ark) with
  | none =>
    let created ← ServerRecord.create ark
    return (dictSet servers created.pseudonym created, created)
  | some known =>
    let updated ← known.update ark
    return (dictSet servers (pseudonymOf ark) updated, updated)

/-- `ArkStore`. -/
structure ArkStore where
  ownPseudonym : Bytes
  servers : Servers := []

namespace ArkStore

/-- `remove`. -/
def remove (self : ArkStore) (pseudonym : Option Bytes) : ArkStore :=
  { self with servers := self.servers.filter fun e => e.1 ≠ pseudonym }

/-- `record.last_broadcast = …` of the record that is kept for a pseudonym. -/
def setLastBroadcast (self : ArkStore) (pseudonym : Option Bytes) (lastBroadcast : ℤ) : ArkStore :=
  { self with servers := self.servers.map fun e =>
      if e.1 = pseudonym then (e.1, { e.2 with lastBroadcast }) else e }

/-- `record`. -/
def record (now : ℤ) (self : ArkStore) (ark : PrismMessage) (rebroadcast : Bool) :
    Py ArkStore := do
  let (servers, recorded) ← ServerDB.record self.servers ark
  let self : ArkStore := { self with servers }
  let self := if recorded.valid now then self else self.remove recorded.pseudonym
  return if rebroadcast then self.setLastBroadcast recorded.pseudonym 0 else self

/-- `own_ark`. -/
def ownArk (self : ArkStore) : Option PrismMessage :=
  (self.servers.lookup (some self.ownPseudonym)).map ServerRecord.ark

/-! ### What is kept -/

/-- **An announcement that is kept**: it has not expired, and it expires later than the one
that is known. -/
def Takes (now : ℤ) (self : ArkStore) (ark : PrismMessage) : Prop :=
  isArk ark = true ∧ ∃ expires, utcfromtimestamp (ark.get .expiration) = .ok expires ∧
    expires > now ∧ ∀ known, self.servers.lookup (pseudonymOf ark) = some known →
      expires > known.expiration

variable {now : ℤ} {self after : ArkStore} {ark : PrismMessage} {rebroadcast : Bool}

theorem setLastBroadcast_ark {e : Option Bytes × ServerRecord} {pseudonym : Option Bytes} {t : ℤ}
    (mem : e ∈ (self.setLastBroadcast pseudonym t).servers) :
    ∃ e' ∈ self.servers, e'.1 = e.1 ∧ e'.2.ark = e.2.ark := by
  obtain ⟨e', mem', rfl⟩ := List.mem_map.mp mem
  refine ⟨e', mem', ?_⟩
  split_ifs <;> exact ⟨rfl, rfl⟩

/-- **What is kept is recorded.** -/
theorem record_takes (takes : self.Takes now ark) :
    ∃ after kept, self.record now ark false = .ok after ∧ (pseudonymOf ark, kept) ∈ after.servers ∧
      kept.ark = ark := by
  obtain ⟨announced, expires, expiration, valid, newer⟩ := takes
  have recorded : ∃ kept, ServerDB.record self.servers ark =
      .ok (dictSet self.servers (pseudonymOf ark) kept, kept) ∧ kept.ark = ark ∧
        kept.expiration = expires := by
    unfold ServerDB.record
    rw [pyAssert_of_true announced, ok_bind]
    rcases known : self.servers.lookup (pseudonymOf ark) with _ | record
    · refine ⟨⟨pseudonymOf ark, ark, expires, 0⟩, ?_, rfl, rfl⟩
      simp only [ServerRecord.create, pyAssert_of_true announced, expiration, ok_bind]
      rfl
    · refine ⟨{ record with ark, expiration := expires }, ?_, rfl, rfl⟩
      simp only [ServerRecord.update, expiration, ok_bind, if_pos (newer record known)]
      rfl
  obtain ⟨kept, recorded, same, rfl⟩ := recorded
  refine ⟨{ self with servers := dictSet self.servers (pseudonymOf ark) kept }, kept, ?_, ?_, same⟩
  · unfold record
    rw [recorded, ok_bind]
    simp only [ServerRecord.valid, valid, decide_true, if_true]
    rfl
  · exact mem_dictSet.mpr (.inl rfl)

/-- What recording an announcement does to the records. -/
theorem recorded_cases {servers servers' : Servers} {recorded : ServerRecord}
    (run : ServerDB.record servers ark = .ok (servers', recorded)) :
    isArk ark = true ∧ servers' = dictSet servers (pseudonymOf ark) recorded ∧
      ((∃ expires, utcfromtimestamp (ark.get .expiration) = .ok expires ∧
          (∀ known, servers.lookup (pseudonymOf ark) = some known → expires > known.expiration ∧
            recorded.pseudonym = known.pseudonym) ∧
          (servers.lookup (pseudonymOf ark) = none → recorded.pseudonym = pseudonymOf ark) ∧
          recorded.ark = ark ∧ recorded.expiration = expires) ∨
        servers.lookup (pseudonymOf ark) = some recorded) := by
  unfold ServerDB.record at run
  by_cases announced : isArk ark = true
  swap
  · rw [pyAssert_of_false announced] at run
    cases run
  rw [pyAssert_of_true announced, ok_bind] at run
  refine ⟨announced, ?_⟩
  rcases known : servers.lookup (pseudonymOf ark) with _ | record
  · rw [known] at run
    obtain ⟨created, make, result⟩ := bind_eq_ok.mp run
    simp only [ServerRecord.create, pyAssert_of_true announced, ok_bind] at make
    obtain ⟨expires, expiration, shape⟩ := bind_eq_ok.mp make
    cases shape
    cases result
    exact ⟨rfl, .inl ⟨expires, expiration, (by rintro _ ⟨⟩), fun _ => rfl, rfl, rfl⟩⟩
  · rw [known] at run
    obtain ⟨updated, make, result⟩ := bind_eq_ok.mp run
    obtain ⟨expires, expiration, shape⟩ := bind_eq_ok.mp make
    cases result
    refine ⟨rfl, ?_⟩
    by_cases newer : expires > record.expiration
    · rw [if_pos newer] at shape
      cases shape
      refine .inl ⟨expires, expiration, ?_, (by rintro ⟨⟩), rfl, rfl⟩
      rintro _ ⟨⟩
      exact ⟨newer, rfl⟩
    · rw [if_neg newer] at shape
      cases shape
      exact .inr rfl

/-- The record of an announcement, where every record is kept under its own pseudonym. -/
theorem recorded_keyed {servers servers' : Servers} {recorded : ServerRecord}
    (keyed : ∀ e ∈ servers, e.2.pseudonym = e.1)
    (run : ServerDB.record servers ark = .ok (servers', recorded)) :
    recorded.pseudonym = pseudonymOf ark ∧ ∀ e ∈ servers', e.2.pseudonym = e.1 := by
  obtain ⟨-, rfl, origin⟩ := recorded_cases run
  have name : recorded.pseudonym = pseudonymOf ark := by
    rcases origin with ⟨expires, -, some, none, -⟩ | known
    · rcases known : servers.lookup (pseudonymOf ark) with _ | record
      · exact none known
      · rw [(some record known).2]
        exact keyed _ (mem_of_lookup known)
    · exact keyed _ (mem_of_lookup known)
  refine ⟨name, fun e mem => ?_⟩
  rcases mem_dictSet.mp mem with rfl | ⟨mem, -⟩
  · exact name
  · exact keyed e mem

/-- Every record is kept under its own pseudonym. -/
def Keyed (self : ArkStore) : Prop := ∀ e ∈ self.servers, e.2.pseudonym = e.1

/-- **What the store holds afterwards**: what it held, and the announcement if it is one that
is kept. -/
theorem mem_record (keyed : self.Keyed) (run : self.record now ark rebroadcast = .ok after) :
    after.ownPseudonym = self.ownPseudonym ∧ after.Keyed ∧ ∀ e ∈ after.servers,
      (∃ e' ∈ self.servers, e'.1 = e.1 ∧ e'.2.ark = e.2.ark) ∨
        (e.1 = pseudonymOf ark ∧ e.2.ark = ark ∧ self.Takes now ark) := by
  obtain ⟨⟨servers, recorded⟩, made, result⟩ := bind_eq_ok.mp run
  have name := (recorded_keyed keyed made).1
  obtain ⟨announced, rfl, origin⟩ := recorded_cases made
  have stored : ∀ e ∈ dictSet self.servers (pseudonymOf ark) recorded, e.2.pseudonym = e.1 ∧
      ((∃ e' ∈ self.servers, e'.1 = e.1 ∧ e'.2.ark = e.2.ark) ∨
        (e.1 = pseudonymOf ark ∧ e.2.ark = ark ∧
          (recorded.valid now = true → self.Takes now ark))) := by
    intro e mem
    rcases mem_dictSet.mp mem with rfl | ⟨mem, -⟩
    · refine ⟨name, ?_⟩
      rcases origin with ⟨expires, expiration, some, -, same, rfl⟩ | known
      · exact .inr ⟨rfl, same, fun valid => ⟨announced, recorded.expiration, expiration,
          of_decide_eq_true valid, fun known found => (some known found).1⟩⟩
      · exact .inl ⟨_, mem_of_lookup known, rfl, rfl⟩
    · exact ⟨keyed e mem, .inl ⟨e, mem, rfl, rfl⟩⟩
  set kept : ArkStore := if recorded.valid now then
      { self with servers := dictSet self.servers (pseudonymOf ark) recorded }
    else ArkStore.remove { self with servers := dictSet self.servers (pseudonymOf ark) recorded }
      recorded.pseudonym with hkept
  have own : kept.ownPseudonym = self.ownPseudonym := by
    rw [hkept]
    split_ifs <;> rfl
  have held : ∀ e ∈ kept.servers, e.2.pseudonym = e.1 ∧
      ((∃ e' ∈ self.servers, e'.1 = e.1 ∧ e'.2.ark = e.2.ark) ∨
        (e.1 = pseudonymOf ark ∧ e.2.ark = ark ∧ self.Takes now ark)) := by
    intro e mem
    rw [hkept] at mem
    split_ifs at mem with valid
    · obtain ⟨key, before⟩ := stored e mem
      exact ⟨key, before.imp_right fun ⟨here, same, takes⟩ => ⟨here, same, takes valid⟩⟩
    · obtain ⟨mem, other⟩ := List.mem_filter.mp mem
      obtain ⟨key, before⟩ := stored e mem
      refine ⟨key, before.imp_right ?_⟩
      rintro ⟨here, -⟩
      exact absurd (here.trans name.symm) (of_decide_eq_true other)
  obtain rfl : (if rebroadcast then kept.setLastBroadcast recorded.pseudonym 0 else kept) = after :=
    Except.ok.inj result
  cases rebroadcast with
  | false => exact ⟨own, fun e mem => (held e mem).1, fun e mem => (held e mem).2⟩
  | true =>
    refine ⟨own, ?_, ?_⟩
    · intro e mem
      obtain ⟨e', mem', rfl⟩ := List.mem_map.mp mem
      split_ifs <;> exact (held e' mem').1
    · intro e mem
      obtain ⟨e', mem', key, same⟩ := setLastBroadcast_ark mem
      rw [← key, ← same]
      exact (held e' mem').2

/-- What recording an announcement leaves for its pseudonym: the one of the two that expires
later, unless that has expired. -/
def keptAfter (now : ℤ) (self : ArkStore) (p : Bytes) (ark : PrismMessage) (expires : ℤ) :
    Option ServerRecord :=
  let kept := match self.servers.lookup (some p) with
    | some known => if expires > known.expiration then
        { known with ark, expiration := expires } else known
    | none => { pseudonym := some p, ark, expiration := expires }
  if kept.valid now then some kept else none

/-- **What is found after an announcement was recorded.** -/
theorem lookup_record {p : Bytes} {expires : ℤ} (keyed : self.Keyed)
    (announced : isArk ark = true) (expiration : utcfromtimestamp (ark.get .expiration) = .ok expires)
    (own : pseudonymOf ark = some p) :
    ∃ after, self.record now ark false = .ok after ∧ after.Keyed ∧
      after.ownPseudonym = self.ownPseudonym ∧
      (∀ q, q ≠ some p → after.servers.lookup q = self.servers.lookup q) ∧
      after.servers.lookup (some p) = self.keptAfter now p ark expires := by
  obtain ⟨kept, recorded, name, isKept⟩ : ∃ kept, ServerDB.record self.servers ark =
      .ok (dictSet self.servers (some p) kept, kept) ∧ kept.pseudonym = some p ∧
      self.keptAfter now p ark expires = if kept.valid now then some kept else none := by
    unfold ServerDB.record keptAfter
    rw [pyAssert_of_true announced, ok_bind, own]
    rcases known : self.servers.lookup (some p) with _ | record
    · refine ⟨⟨some p, ark, expires, 0⟩, ?_, rfl, rfl⟩
      simp only [ServerRecord.create, pyAssert_of_true announced, expiration, ok_bind, own]
      rfl
    · refine ⟨if expires > record.expiration then
        { record with ark, expiration := expires } else record, ?_, ?_, rfl⟩
      · simp only [ServerRecord.update, expiration, ok_bind]
        rfl
      · have name := keyed _ (mem_of_lookup known)
        split_ifs <;> exact name
  rw [isKept]
  have stored : ∀ q, (dictSet self.servers (some p) kept).lookup q =
      if q = some p then some kept else self.servers.lookup q := fun q => lookup_dictSet _ _ _ _
  refine ⟨if kept.valid now then { self with servers := dictSet self.servers (some p) kept }
    else ArkStore.remove { self with servers := dictSet self.servers (some p) kept } (some p),
    ?_, ?_, ?_, ?_, ?_⟩
  · unfold record
    rw [recorded, ok_bind]
    simp only [name]
    rfl
  · have held : ∀ e ∈ dictSet self.servers (some p) kept, e.2.pseudonym = e.1 := by
      intro e mem
      rcases mem_dictSet.mp mem with rfl | ⟨mem, -⟩
      · exact name
      · exact keyed e mem
    split_ifs
    · exact held
    · exact fun e mem => held e (List.mem_of_mem_filter mem)
  · split_ifs <;> rfl
  · intro q other
    split_ifs
    · exact (stored q).trans (if_neg other)
    · exact (lookup_filter_ne _ _ _).trans ((if_neg other).trans ((stored q).trans (if_neg other)))
  · split_ifs
    · exact (stored _).trans (if_pos rfl)
    · exact (lookup_filter_ne _ _ _).trans (if_pos rfl)

/-- A property of all announcements but the server's own. -/
def Holds (P : PrismMessage → Prop) (self : ArkStore) : Prop :=
  ∀ e ∈ self.servers, e.1 ≠ some self.ownPseudonym → P e.2.ark

/-- **The property is carried over** when it holds of the new announcement, if that is kept. -/
theorem Holds.record {P : PrismMessage → Prop} (holds : self.Holds P) (keyed : self.Keyed)
    (run : self.record now ark rebroadcast = .ok after)
    (new : self.Takes now ark → pseudonymOf ark ≠ some self.ownPseudonym → P ark) :
    after.Holds P := by
  obtain ⟨own, -, held⟩ := mem_record keyed run
  intro e mem other
  rw [own] at other
  rcases held e mem with ⟨e', mem', key, same⟩ | ⟨key, same, takes⟩
  · rw [← same]
    exact holds e' mem' (key ▸ other)
  · rw [same]
    exact new takes (key ▸ other)

/-- **And only then.** -/
theorem Holds.of_record {P : PrismMessage → Prop} (keyed : self.Keyed)
    (run : self.record now ark false = .ok after) (holds : after.Holds P)
    (takes : self.Takes now ark) (other : pseudonymOf ark ≠ some self.ownPseudonym) : P ark := by
  obtain ⟨after', kept, run', mem, same⟩ := record_takes takes
  obtain rfl : after' = after := Except.ok.inj (run'.symm.trans run)
  obtain ⟨own, -⟩ := mem_record keyed run
  rw [← same]
  exact holds _ mem (own ▸ other)

end ArkStore

end Prism.Routing
