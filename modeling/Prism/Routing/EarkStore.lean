import Prism.Message.PrismMessage

/-!
The announcements for the next epoch that a role has been flooded with
(`prism/server/routing/earkstore.py`).

Of every pseudonym the first announcement is kept.

* `EARKStore.mem_received`: the announcements that are kept are the first ones of their pseudonyms.
* `EARKStore.holds_received`: where the announcements of a pseudonym agree, their order and number do
  not matter.
-/

namespace Prism.Routing

/-- An `EPOCH_ARK`. It has a name and a pseudonym, which `make_epoch_ark` gives it. -/
structure Eark where
  message : PrismMessage
  name : String
  pseudonym : Bytes
  name_eq : message.get .name = .str name
  pseudonym_eq : message.get .pseudonym = .bytes pseudonym

/-- The server that is announced, by its name and its pseudonym. -/
def Eark.member (self : Eark) : String × Bytes := (self.name, self.pseudonym)

/-- `eark.committee == committee_name`. -/
def Eark.isIn (self : Eark) (committeeName : String) : Bool :=
  match self.message.get .committee with
  | .str committee => committee = committeeName
  | _ => false

/-- `EARKStore`, with the payloads of `_database` in the order in which they came. Their pseudonyms
are the keys. -/
structure EARKStore where
  payloads : List Eark := []
  distinct : (payloads.map Eark.pseudonym).Nodup := by exact List.nodup_nil

namespace EARKStore

/-- `handle_msg`. -/
def handleMsg (self : EARKStore) (message : Eark) : EARKStore :=
  if fresh : message.pseudonym ∉ self.payloads.map Eark.pseudonym then
    { payloads := self.payloads ++ [message]
      distinct := by
        rw [List.map_append]
        exact self.distinct.append (List.nodup_singleton _) (by simpa using fresh) }
  else self

/-- The store after some announcements have been received. -/
def received (messages : List Eark) : EARKStore := messages.foldl handleMsg {}

/-- The store holds announcements of these members of the committee, and of no others. -/
def Holds (self : EARKStore) (committeeName : String) (members : List (String × Bytes)) : Prop :=
  ∀ m, m ∈ members ↔ ∃ eark ∈ self.payloads, eark.isIn committeeName ∧ eark.member = m

variable {self : EARKStore} {messages : List Eark} {message eark : Eark}

theorem holds_of_perm {committeeName : String} {members : List (String × Bytes)}
    (perm : ((self.payloads.filter (·.isIn committeeName)).map Eark.member).Perm members) :
    self.Holds committeeName members := by
  intro m
  simp only [← perm.mem_iff, List.mem_map, List.mem_filter, and_assoc]

theorem mem_handleMsg : eark ∈ (self.handleMsg message).payloads ↔ eark ∈ self.payloads ∨
    eark = message ∧ message.pseudonym ∉ self.payloads.map Eark.pseudonym := by
  unfold handleMsg
  split_ifs with fresh
  · simp [fresh]
  · simp [fresh]

theorem received_concat (messages : List Eark) (message : Eark) :
    received (messages ++ [message]) = (received messages).handleMsg message :=
  List.foldl_concat ..

/-- A pseudonym is known when an announcement of it was received. -/
theorem pseudonym_mem_received {pseudonym : Bytes} :
    pseudonym ∈ (received messages).payloads.map Eark.pseudonym ↔
      pseudonym ∈ messages.map Eark.pseudonym := by
  induction messages using List.reverseRecOn with
  | nil => rfl
  | append_singleton messages message ih =>
      rw [received_concat, List.map_append, List.mem_append, ← ih]
      simp only [List.mem_map, mem_handleMsg, List.mem_singleton]
      constructor
      · rintro ⟨eark, mem | ⟨rfl, -⟩, rfl⟩
        · exact .inl ⟨eark, mem, rfl⟩
        · exact .inr ⟨eark, rfl, rfl⟩
      · rintro (⟨eark, mem, rfl⟩ | ⟨eark, rfl, rfl⟩)
        · exact ⟨eark, .inl mem, rfl⟩
        · by_cases known : ∃ other ∈ (received messages).payloads, other.pseudonym = eark.pseudonym
          · obtain ⟨other, mem, same⟩ := known
            exact ⟨other, .inl mem, same⟩
          · exact ⟨eark, .inr ⟨rfl, known⟩, rfl⟩

/-- **First come, first kept.** -/
theorem mem_received : eark ∈ (received messages).payloads ↔
    ∃ before after, messages = before ++ eark :: after ∧
      eark.pseudonym ∉ before.map Eark.pseudonym := by
  induction messages using List.reverseRecOn with
  | nil => simp [received]
  | append_singleton messages message ih =>
      rw [received_concat, mem_handleMsg, ih, pseudonym_mem_received]
      constructor
      · rintro (⟨before, after, rfl, fresh⟩ | ⟨rfl, fresh⟩)
        · exact ⟨before, after ++ [message], by simp, fresh⟩
        · exact ⟨messages, [], rfl, fresh⟩
      · rintro ⟨before, after, split, fresh⟩
        rcases List.eq_nil_or_concat after with rfl | ⟨after, last, rfl⟩
        · obtain ⟨rfl, same⟩ := List.append_inj' split rfl
          obtain rfl := (List.cons.inj same).1
          exact .inr ⟨rfl, fresh⟩
        · rw [List.concat_eq_append, ← List.cons_append, ← List.append_assoc] at split
          obtain ⟨rfl, -⟩ := List.append_inj' split rfl
          exact .inl ⟨before, after, rfl, fresh⟩

/-- **In any order, any number of times.** -/
theorem holds_received {committeeName : String} {members : List (String × Bytes)}
    (agree : ∀ e ∈ messages, ∀ e' ∈ messages, e.pseudonym = e'.pseudonym →
      e.member = e'.member ∧ e.isIn committeeName = e'.isIn committeeName) :
    (received messages).Holds committeeName members ↔
      ∀ m, m ∈ members ↔ ∃ eark ∈ messages, eark.isIn committeeName ∧ eark.member = m := by
  have kept : ∀ eark ∈ (received messages).payloads, eark ∈ messages := by
    intro eark mem
    obtain ⟨before, after, rfl, -⟩ := mem_received.mp mem
    simp
  refine forall_congr' fun m => iff_congr Iff.rfl ?_
  constructor
  · rintro ⟨eark, mem, facts⟩
    exact ⟨eark, kept eark mem, facts⟩
  · rintro ⟨eark, mem, inside, rfl⟩
    obtain ⟨first, mem', same⟩ :=
      List.mem_map.mp (pseudonym_mem_received.mpr (List.mem_map_of_mem mem))
    obtain ⟨sameMember, sameCommittee⟩ := agree first (kept first mem') eark mem same
    exact ⟨first, mem', sameCommittee ▸ inside, sameMember⟩

end EARKStore

end Prism.Routing
