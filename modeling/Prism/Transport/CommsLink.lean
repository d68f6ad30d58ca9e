import Prism.Datetime
import Prism.Message.Clone
import Prism.Transport.EpochLinks
import Prism.Vrf.Vrf

/-!
The links of the RACE transport, and the packages that are sent on them
(`rib/prism/rib/connection/link.py`, `checksum.py`).

A package is the encoded message behind a checksum, which is the start of its hash. The message gets
the time at which it is sent: that is a time of UTC without a time zone, and `timestamp` takes it
for one of the sender's time zone.

* `Checksum.packageData_addChecksum`: the data are read back from behind their checksum.
* `CommsLink.makePackage_ok`: what is in the package of a typed message.
-/

namespace Prism.Transport

open Vrf

/-! ### Packages -/

/-- `EncPkg`. -/
structure EncPkg where
  traceId : ℕ
  spanId : ℕ
  cipherText : Bytes
deriving DecidableEq, Repr

/-- `Checksum`. -/
structure Checksum where
  sha : Sha256
  checksumBytes : ℕ

/-- `CHECKSUM_BYTES`. -/
def checksumBytes : ℕ := 16

namespace Checksum

variable (self : Checksum)

/-- `checksum`. -/
def checksum (data : Bytes) : Bytes := (self.sha.digest data).take self.checksumBytes

/-- `package_data`: nothing stands for a `CorruptPackageError`. -/
def packageData (pkg : EncPkg) : Option Bytes :=
  let cipherText := pkg.cipherText
  if self.checksumBytes ≠ 0 then
    let claimedChecksum := cipherText.take self.checksumBytes
    let data := cipherText.drop self.checksumBytes
    let calculatedChecksum := self.checksum data
    if calculatedChecksum ≠ claimedChecksum then none else some data
  else some cipherText

/-- `add_checksum`. -/
def addChecksum (pkg : EncPkg) : EncPkg :=
  if self.checksumBytes = 0 then pkg
  else { pkg with cipherText := self.checksum pkg.cipherText ++ pkg.cipherText }

theorem length_checksum {self : Checksum} (short : self.checksumBytes ≤ 32) (data : Bytes) :
    (self.checksum data).length = self.checksumBytes := by
  rw [checksum, List.length_take, self.sha.length_digest, min_eq_left short]

/-- **Data are read back** from behind their checksum. -/
theorem packageData_addChecksum {self : Checksum} (short : self.checksumBytes ≤ 32)
    (pkg : EncPkg) : self.packageData (self.addChecksum pkg) = some pkg.cipherText := by
  by_cases disabled : self.checksumBytes = 0
  · rw [addChecksum, if_pos disabled, packageData]
    exact if_neg (not_not.mpr disabled)
  · have length := length_checksum short pkg.cipherText
    rw [addChecksum, if_neg disabled, packageData]
    dsimp only
    rw [if_pos disabled, List.take_left' length, List.drop_left' length]
    exact if_neg (not_not.mpr rfl)

/-- Data are refused if and only if the checksum before them is not theirs. -/
theorem packageData_eq_none {self : Checksum} (enabled : self.checksumBytes ≠ 0) {pkg : EncPkg} :
    self.packageData pkg = none ↔ self.checksum (pkg.cipherText.drop self.checksumBytes) ≠
      pkg.cipherText.take self.checksumBytes := by
  rw [packageData]
  dsimp only
  rw [if_pos enabled]
  split_ifs with differ
  · exact iff_of_true rfl differ
  · exact iff_of_false nofun differ

end Checksum

/-! ### Links -/

/-- `ConnectionStatus`. -/
inductive ConnectionStatus where
  | invalid | open | closed | awaitingContact | initFailed | available | unavailable
deriving DecidableEq, Repr

/-- `CommsLink`. Times are in microseconds. -/
structure CommsLink where
  linkId : String
  endpoints : List String
  createTime : ℤ
  connectionStatus : ConnectionStatus := .closed
  connectionId : Option String := none
  manuallyClosed : Bool := false
  failures : ℕ := 0
  pendingSends : ℤ := 0
  lastSend : ℤ := 0
  lastReceive : ℤ := 0
  references : List EpochLink := []
deriving DecidableEq, Repr

namespace CommsLink

variable (self : CommsLink)

/-- `active`. -/
def active : Bool := self.connectionStatus = .open || self.connectionStatus = .available

/-- `if not self.connection_id`: an empty id is none. -/
def connected : Bool := self.connectionId.any (· ≠ "")

/-- The link has been quiet since before the delay. -/
def quiet (reaperDelay now : ℤ) : Bool :=
  now - self.lastSend > reaperDelay && now - self.createTime > reaperDelay

/-- `disposable`. -/
def disposable (reaperDelay now : ℤ) : Bool :=
  self.active && self.pendingSends = 0 && self.references.isEmpty && self.quiet reaperDelay now

/-- `close`, with the connection that RACE is asked to close. -/
def close : CommsLink × Option String :=
  ({ self with manuallyClosed := true }, self.connectionId.filter (· ≠ ""))

section Send

variable (cbor : Cbor2) (builtins : Builtins) (checksum : Checksum) (offset now : ℤ)

/-- `int(datetime.utcnow().timestamp())`, on a host whose clock is ahead of UTC by `offset`
seconds. -/
def utcTimestamp : Py ℤ := integerPart <$> timestamp offset now

/-- The package that `send` makes of a message, in a context with a trace and a span or in none. -/
def makePackage (message : PrismMessage) (context : Option (ℕ × ℕ)) : Py EncPkg := do
  let message ← message.clone builtins now
    [(.transportTimestamp, .int (← utcTimestamp offset now))]
  let (traceId, spanId) := context.getD (0, 0)
  return checksum.addChecksum ⟨traceId, spanId, ← message.encode cbor⟩

theorem makePackage_ok {message : PrismMessage} (typed : message.Typed) {stamp : ℤ}
    (sent : utcTimestamp offset now = .ok stamp) (context : Option (ℕ × ℕ)) :
    ∃ data, (message.replace [(.transportTimestamp, .int stamp)]).encode cbor = .ok data ∧
      makePackage cbor builtins checksum offset now message context =
        .ok (checksum.addChecksum ⟨(context.getD (0, 0)).1, (context.getD (0, 0)).2, data⟩) := by
  obtain ⟨cloned, typed'⟩ := PrismMessage.clone_single builtins now typed
    (PrismMessage.scalar_clonable (f := .transportTimestamp) (v := .int stamp) rfl (.inr rfl))
  obtain ⟨data, encoded, -, -⟩ := PrismMessage.decode_encode cbor builtins now typed'
  refine ⟨data, encoded, ?_⟩
  rw [makePackage, sent, ok_bind, cloned, ok_bind]
  dsimp only
  rw [encoded, ok_bind]
  rfl

end Send

end CommsLink

end Prism.Transport
