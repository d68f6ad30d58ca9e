import Prism.Lockfree.Poll

/-!
The polls of a dropbox on a single server (`prism/server/CS2/roles/dropbox.py`).

A client polls with its pseudonym, which is not shared here, and the key of its request is that of
the message around it. The trace of a poll and its open links are left out.

* `Poll.fromMessage_ok`: the poll of a request.
-/

namespace Prism.Roles

/-- `Poll`. -/
structure Poll where
  nonce : Value
  pseudonym : Value
  expiration : Option ℤ
  linkAddresses : Value

namespace Poll

/-- `live`, at a time. -/
def live (self : Poll) (now : ℤ) : Bool :=
  match self.expiration with
  | none => true
  | some expiration => expiration > now

/-- `from_message`. -/
def fromMessage (message : PrismMessage) : Py Poll := do
  match message.get .msgType with
  | .enum (.type .readDropbox) => do
    let expiration ← Lockfree.Poll.expirationOf message
    let addresses := message.get .linkAddresses
    return {
      nonce := message.get .nonce
      pseudonym := message.get .pseudonym
      expiration
      linkAddresses := if addresses.truthy then addresses else .list [] }
  | _ => throw .assertionError

/-- The poll of a request to read. -/
theorem fromMessage_ok {message : PrismMessage} {expiration : Option ℤ}
    (type : message.get .msgType = .enum (.type .readDropbox))
    (expires : Lockfree.Poll.expirationOf message = .ok expiration) :
    ∃ poll, fromMessage message = .ok poll ∧ poll.nonce = message.get .nonce ∧
      poll.pseudonym = message.get .pseudonym ∧ poll.expiration = expiration := by
  let poll : Poll := {
    nonce := message.get .nonce
    pseudonym := message.get .pseudonym
    expiration
    linkAddresses :=
      if (message.get .linkAddresses).truthy then message.get .linkAddresses else .list [] }
  refine ⟨poll, ?_, rfl, rfl, rfl⟩
  rw [fromMessage, type]
  dsimp only
  rw [expires]
  rfl

end Poll

end Prism.Roles
