import Prism.Message.Cbor
import Prism.Routing.Network
import Prism.Transport.CommsLink
import Prism.Vrf.Uniqueness

/-!
Packages that arrive (`CommsTransport.processEncPkg` in
`rib/prism/rib/connection/CommsTransport.py`, `log_receive` in `prism/common/replay.py`).

A package with the right checksum is decoded and put on the queue of incoming packages, unless its
message is older than the transport. The age is found from the clocks of two hosts: the receiver
writes down the timestamp of its start as it is, and the sender one that is off by its time zone.
The package is queued under the link of the first of its connections that is known; without one,
the attempt to write down when the link was last used raises, and the package is lost.

* `processEncPkg_of_sent`: what becomes of a message that was sent.
* `processEncPkg_exact_iff`: which messages are delivered, and which corrupt packages refused.
-/

namespace Prism.Transport

open Vrf

/-- `Package`, with the place of its link. -/
structure LinkPackage where
  message : Option PrismMessage
  traceId : ℕ
  spanId : ℕ
  timestamp : ℤ
  link : ℕ

/-- `PLUGIN_OK` and `PLUGIN_TEMP_ERROR`. -/
inductive PluginResponse where
  | pluginOk | pluginTempError
deriving DecidableEq, Repr

/-- `CommsTransport`, as far as it receives packages: the links by their places, those with an open
connection by its id, and the queue of packages. -/
structure Receiver where
  startTimestamp : ℤ
  transportIgnoreOld : Bool
  logPath : Bool
  link : ℕ → CommsLink
  connectionLinks : List (String × ℕ)
  incomingPackageQueue : List LinkPackage := []

/-- `start_timestamp`, of a transport that is made at a time. -/
def startTimestamp (offset now transportIgnoreTolerance : ℤ) : Py ℤ := do
  return (← integerPart <$> timestamp offset (now + offset * 10 ^ 6)) - transportIgnoreTolerance

/-- The checksum of a package is not that of the data behind it. -/
def Checksum.Corrupt (self : Checksum) (pkg : EncPkg) : Prop :=
  self.checksum (pkg.cipherText.drop self.checksumBytes) ≠ pkg.cipherText.take self.checksumBytes

namespace Receiver

variable (self : Receiver)

/-- `log_receive`: a log entry has the first endpoint of a single link. -/
def logReceive (links : List CommsLink) : Py Unit :=
  if self.logPath then
    match links with
    | [link] => (fun _ => ()) <$> pyIndex link.endpoints 0
    | _ => .ok ()
  else .ok ()

/-- The message is from before the start. -/
def ignores (message : Option PrismMessage) : Py Bool :=
  if self.transportIgnoreOld then
    match message with
    | none => .error .attributeError
    | some message =>
      match message.get .transportTimestamp with
      | .none => .ok false
      | transportTimestamp => (decide <| · < self.startTimestamp) <$>
          Routing.asInt transportTimestamp
  else .ok false

/-- The links of the connections, as far as they are known, up to the first. -/
def linksFor (connIds : List String) : List ℕ :=
  (connIds.filterMap fun connId => self.connectionLinks.lookup connId).take 1

variable (cbor : Cbor2) (builtins : Builtins) (checksum : Checksum) (now : ℤ)

/-- What `processEncPkg` tries with the data. -/
def receive (pkg : EncPkg) (data : Bytes) (links : List ℕ) : Py Receiver := do
  let message ← PrismMessage.decode cbor builtins now data
  if ← self.ignores message then return self
  else
    match links with
    | [] => throw .attributeError
    | link :: _ =>
      return { self with
        link := Function.update self.link link { self.link link with lastReceive := now }
        incomingPackageQueue := self.incomingPackageQueue ++
          [{ message, traceId := pkg.traceId, spanId := pkg.spanId, timestamp := now, link }] }

/-- `processEncPkg`. -/
def processEncPkg (pkg : EncPkg) (connIds : List String) : Receiver × Py PluginResponse :=
  let links := self.linksFor connIds
  match self.logReceive (links.map self.link) with
  | .error e => (self, .error e)
  | .ok _ =>
    match checksum.packageData pkg with
    | none => (self, .ok .pluginTempError)
    | some data =>
      match self.receive cbor builtins now pkg data links with
      | .ok self => (self, .ok .pluginOk)
      | .error _ => (self, .ok .pluginTempError)

/-! ### What is promised -/

/-- **The message is delivered**: one package with it is queued, and the caller is told so. It has
the time at which it was sent. -/
def Delivers (message : PrismMessage) (pkg : EncPkg) (connIds : List String) : Prop :=
  ∃ package stamp, package.message =
      some (message.replace [(.transportTimestamp, .int stamp)]) ∧
    (self.processEncPkg cbor builtins checksum now pkg connIds).1.incomingPackageQueue =
      self.incomingPackageQueue ++ [package] ∧
    (self.processEncPkg cbor builtins checksum now pkg connIds).2 = .ok .pluginOk

/-- **The package is refused**: nothing is queued, and the caller is told so. -/
def Refuses (pkg : EncPkg) (connIds : List String) : Prop :=
  (self.processEncPkg cbor builtins checksum now pkg connIds).1.incomingPackageQueue =
      self.incomingPackageQueue ∧
    (self.processEncPkg cbor builtins checksum now pkg connIds).2 = .ok .pluginTempError

/-- A package on the link can be logged. -/
def Loggable (link : ℕ) : Prop := self.logPath = true → (self.link link).endpoints ≠ []

/-- The message was sent late enough. -/
def Timely (stamp : ℤ) : Prop := self.transportIgnoreOld = true → self.startTimestamp ≤ stamp

variable {self} {cbor} {builtins} {checksum} {now}

theorem linksFor_cases (connIds : List String) :
    self.linksFor connIds = [] ∨ ∃ link, self.linksFor connIds = [link] := by
  unfold linksFor
  cases connIds.filterMap fun connId => self.connectionLinks.lookup connId with
  | nil => exact .inl rfl
  | cons link _ => exact .inr ⟨link, rfl⟩

theorem logReceive_nil : self.logReceive [] = .ok () := by
  unfold logReceive
  split_ifs <;> rfl

theorem logReceive_single (link : ℕ) :
    (self.Loggable link ∧ self.logReceive [self.link link] = .ok ()) ∨
      (¬ self.Loggable link ∧ self.logReceive [self.link link] = .error .indexError) := by
  unfold Loggable logReceive
  by_cases logged : self.logPath = true
  · rw [if_pos logged]
    dsimp only
    cases (self.link link).endpoints with
    | nil => exact .inr ⟨fun ne => ne logged rfl, rfl⟩
    | cons endpoint endpoints => exact .inl ⟨fun _ => nofun, rfl⟩
  · rw [if_neg logged]
    exact .inl ⟨fun h => absurd h logged, rfl⟩

theorem ignores_stamped {message : PrismMessage} {stamp : ℤ}
    (stamped : message.get .transportTimestamp = .int stamp) :
    (self.Timely stamp ∧ self.ignores (some message) = .ok false) ∨
      (¬ self.Timely stamp ∧ self.ignores (some message) = .ok true) := by
  unfold Timely ignores
  by_cases ignoring : self.transportIgnoreOld = true
  · rw [if_pos ignoring]
    dsimp only
    rw [stamped]
    dsimp only [Routing.asInt]
    by_cases old : stamp < self.startTimestamp
    · exact .inr ⟨fun timely => absurd (timely ignoring) (not_le.mpr old),
        congrArg Except.ok (decide_eq_true old)⟩
    · exact .inl ⟨fun _ => not_lt.mp old, congrArg Except.ok (decide_eq_false old)⟩
  · rw [if_neg ignoring]
    exact .inl ⟨fun h => absurd h ignoring, rfl⟩

section Sent

variable {message sent : PrismMessage} {stamp : ℤ} {pkg : EncPkg} {data : Bytes}
  (decoded : PrismMessage.decode cbor builtins now data = .ok (some sent))
  (stamped : sent.get .transportTimestamp = .int stamp)
include decoded stamped

theorem receive_of_old (old : ¬ self.Timely stamp) (links : List ℕ) :
    self.receive cbor builtins now pkg data links = .ok self := by
  have ignored := (@ignores_stamped self sent stamp stamped).resolve_left fun h => old h.1
  rw [receive, decoded, ok_bind, ignored.2, ok_bind]
  rfl

theorem receive_of_timely (timely : self.Timely stamp) (links : List ℕ) :
    self.receive cbor builtins now pkg data links =
      match links with
      | [] => .error .attributeError
      | link :: _ =>
        .ok { self with
          link := Function.update self.link link { self.link link with lastReceive := now }
          incomingPackageQueue := self.incomingPackageQueue ++
            [⟨some sent, pkg.traceId, pkg.spanId, now, link⟩] } := by
  have fresh := (@ignores_stamped self sent stamp stamped).resolve_right fun h => h.1 timely
  rw [receive, decoded, ok_bind, fresh.2, ok_bind]
  cases links with
  | nil => rfl
  | cons link links => rfl

/-- **Which messages are delivered**, of those that arrive intact. -/
theorem delivers_iff (intact : checksum.packageData pkg = some data)
    (same : sent = message.replace [(.transportTimestamp, .int stamp)]) (connIds : List String) :
    self.Delivers cbor builtins checksum now message pkg connIds ↔
      (∃ link, self.linksFor connIds = [link] ∧ self.Loggable link) ∧ self.Timely stamp := by
  have longer {package : LinkPackage} :
      self.incomingPackageQueue ≠ self.incomingPackageQueue ++ [package] := by simp
  unfold Delivers processEncPkg
  dsimp only
  by_cases timely : self.Timely stamp
  · have received := @receive_of_timely self cbor builtins now sent stamp pkg data decoded stamped
      timely
    rcases @linksFor_cases self connIds with none | ⟨link, single⟩
    · rw [none, List.map_nil, logReceive_nil, intact]
      dsimp only
      rw [received]
      simp
    · rw [single, List.map_singleton]
      rcases @logReceive_single self link with ⟨loggable, written⟩ | ⟨unlogged, raised⟩
      · rw [written, intact]
        dsimp only
        rw [received]
        refine iff_of_true ⟨_, stamp, congrArg some same, rfl, rfl⟩ ⟨⟨link, rfl, loggable⟩, timely⟩
      · rw [raised]
        simp [unlogged]
  · have received := @receive_of_old self cbor builtins now sent stamp pkg data decoded stamped
      timely (self.linksFor connIds)
    refine iff_of_false ?_ fun h => timely h.2
    rintro ⟨package, stamp', -, queued, -⟩
    cases written : self.logReceive ((self.linksFor connIds).map self.link) with
    | error e =>
        rw [written] at queued
        exact longer queued
    | ok done =>
        rw [written, intact] at queued
        dsimp only at queued
        rw [received] at queued
        exact longer queued

end Sent

/-- **Which corrupt packages are refused**: all that can be logged. -/
theorem refuses_iff {pkg : EncPkg} (enabled : checksum.checksumBytes ≠ 0)
    (corrupt : checksum.Corrupt pkg) (connIds : List String) :
    self.Refuses cbor builtins checksum now pkg connIds ↔
      ∀ link, self.linksFor connIds = [link] → self.Loggable link := by
  have none := (Checksum.packageData_eq_none enabled).mpr corrupt
  unfold Refuses processEncPkg
  dsimp only
  rcases @linksFor_cases self connIds with unknown | ⟨link, single⟩
  · rw [unknown, List.map_nil, logReceive_nil, none]
    simp
  · rw [single, List.map_singleton]
    rcases @logReceive_single self link with ⟨loggable, written⟩ | ⟨unlogged, raised⟩
    · rw [written, none]
      simpa using loggable
    · rw [raised]
      simpa using unlogged

end Receiver

/-! ### Two hosts -/

/-- The time of a clock, after 1970 and before 2242. -/
def IsClock (t : ℤ) : Prop := 2 * 86400 ≤ t / 10 ^ 6 ∧ t / 10 ^ 6 ≤ 2 ^ 33 - 2 * 86400

section Hosts

variable (cbor : Cbor2) (builtins : Builtins) (sha : Sha256) {offset : ℤ}
  (zone : |offset| ≤ 86400)
include zone

/-- The receiver writes down when it starts. -/
theorem startTimestamp_eq {started : ℤ} (clock : IsClock started) (tolerance : ℤ) :
    startTimestamp offset started tolerance = .ok (started / 10 ^ 6 - tolerance) := by
  obtain ⟨low, high⟩ := clock
  have whole : (started + offset * 10 ^ 6) / 10 ^ 6 - offset = started / 10 ^ 6 := by omega
  have read := @integerPart_timestamp offset (started + offset * 10 ^ 6) zone
    (by rw [whole]; omega) (by rw [whole]; omega)
  rw [startTimestamp, read, whole]
  rfl

/-- The sender is off by its time zone. -/
theorem utcTimestamp_eq {sent : ℤ} (clock : IsClock sent) :
    CommsLink.utcTimestamp offset sent = .ok (sent / 10 ^ 6 - offset) := by
  obtain ⟨low, high⟩ := clock
  have near := abs_le.mp zone
  exact integerPart_timestamp zone (by omega) (by omega)

/-- **What becomes of a message that was sent.** -/
theorem processEncPkg_of_sent (self : Receiver) {sent : ℤ} (clock : IsClock sent)
    {message : PrismMessage} (typed : message.Typed) (context : Option (ℕ × ℕ)) :
    ∃ pkg, CommsLink.makePackage cbor builtins ⟨sha, checksumBytes⟩ offset sent message context =
        .ok pkg ∧
      ∀ now connIds, self.Delivers cbor builtins ⟨sha, checksumBytes⟩ now message pkg connIds ↔
        (∃ link, self.linksFor connIds = [link] ∧ self.Loggable link) ∧
          self.Timely (sent / 10 ^ 6 - offset) := by
  obtain ⟨data, encoded, made⟩ := CommsLink.makePackage_ok cbor builtins ⟨sha, checksumBytes⟩
    offset sent typed (utcTimestamp_eq zone clock) context
  have typed' := (PrismMessage.clone_single builtins sent typed
    (PrismMessage.scalar_clonable (f := .transportTimestamp)
      (v := .int (sent / 10 ^ 6 - offset)) rfl (.inr rfl))).2
  refine ⟨_, made, fun now connIds => Receiver.delivers_iff ?_ ?_
    (Checksum.packageData_addChecksum (show checksumBytes ≤ 32 by decide) _) rfl connIds⟩
  · obtain ⟨data', encoded', -, decoded⟩ := PrismMessage.decode_encode cbor builtins now typed'
    obtain rfl := Except.ok.inj (encoded.symm.trans encoded')
    exact decoded
  · rw [PrismMessage.get_replace typed _ (by decide)]
    rfl

end Hosts

/-- **What the transport delivers.** A message that was sent is delivered exactly if one of the
connections is known, the first such has a link with an endpoint for the log, and the sender's time
zone is not so far ahead of UTC that the message seems to be from before the start. A corrupt
package is refused exactly if there is an endpoint for the log. -/
theorem processEncPkg_exact_iff (cbor : Cbor2) (builtins : Builtins) (sha : Sha256)
    {offset offset' : ℤ} (zone : |offset| ≤ 86400) (zone' : |offset'| ≤ 86400)
    {started sent tolerance : ℤ} (clock : IsClock started) (clock' : IsClock sent)
    {self : Receiver} (start : startTimestamp offset' started tolerance = .ok self.startTimestamp)
    {message : PrismMessage} (typed : message.Typed) (context : Option (ℕ × ℕ)) :
    (∃ pkg, CommsLink.makePackage cbor builtins ⟨sha, checksumBytes⟩ offset sent message context =
        .ok pkg ∧
      ∀ now connIds, self.Delivers cbor builtins ⟨sha, checksumBytes⟩ now message pkg connIds ↔
        (∃ link, self.linksFor connIds = [link] ∧ self.Loggable link) ∧
          (self.transportIgnoreOld = true →
            offset ≤ sent / 10 ^ 6 - started / 10 ^ 6 + tolerance)) ∧
    ∀ pkg, Checksum.Corrupt ⟨sha, checksumBytes⟩ pkg → ∀ now connIds,
      self.Refuses cbor builtins ⟨sha, checksumBytes⟩ now pkg connIds ↔
        ∀ link, self.linksFor connIds = [link] → self.Loggable link := by
  have begun := Except.ok.inj (start.symm.trans (startTimestamp_eq zone' clock tolerance))
  obtain ⟨pkg, made, delivers⟩ := processEncPkg_of_sent cbor builtins sha zone self clock' typed
    context
  refine ⟨⟨pkg, made, fun now connIds => ?_⟩, fun pkg corrupt now connIds =>
    Receiver.refuses_iff (show checksumBytes ≠ 0 by decide) corrupt connIds⟩
  rw [delivers now connIds]
  refine and_congr_right fun _ => imp_congr_right fun _ => ?_
  rw [begun]
  omega

/-- A receiver with one connection, which started a thousand million seconds after 1970. -/
def exampleReceiver : Receiver where
  startTimestamp := 10 ^ 9 - 5
  transportIgnoreOld := true
  logPath := true
  link _ := { linkId := "link", endpoints := ["persona"], createTime := 0 }
  connectionLinks := [("connection", 0)]

theorem loggable_exampleReceiver (link : ℕ) : exampleReceiver.Loggable link :=
  fun _ => List.cons_ne_nil _ _

theorem isClock_example : IsClock (10 ^ 15) ∧ IsClock (10 ^ 15 + 10 ^ 6) := by
  unfold IsClock
  omega

/-- A message from a host in UTC is delivered. -/
theorem example_exact :
    ∃ pkg, CommsLink.makePackage Cbor.package Builtins.strict ⟨exampleSha, checksumBytes⟩ 0
        (10 ^ 15 + 10 ^ 6) (.create 0 .lspFlood []) none = .ok pkg ∧
      exampleReceiver.Delivers Cbor.package Builtins.strict ⟨exampleSha, checksumBytes⟩ 0
        (.create 0 .lspFlood []) pkg ["connection"] := by
  obtain ⟨⟨pkg, made, delivers⟩, -⟩ := @processEncPkg_exact_iff Cbor.package Builtins.strict
    exampleSha 0 3600 (by decide) (by decide) (10 ^ 15) (10 ^ 15 + 10 ^ 6) 5 isClock_example.1
    isClock_example.2 exampleReceiver (startTimestamp_eq (by decide) isClock_example.1 5)
    (.create 0 .lspFlood []) (PrismMessage.typed_create (by simp)) none
  exact ⟨pkg, made, (delivers 0 _).mpr ⟨⟨0, rfl, loggable_exampleReceiver 0⟩, fun _ => by omega⟩⟩

/-- A message from a host that is an hour ahead of UTC is ignored, and one on a connection that is
not known is lost. -/
theorem intact_not_delivered :
    (∃ pkg, CommsLink.makePackage Cbor.package Builtins.strict ⟨exampleSha, checksumBytes⟩ 3600
        (10 ^ 15 + 10 ^ 6) (.create 0 .lspFlood []) none = .ok pkg ∧
      ¬ exampleReceiver.Delivers Cbor.package Builtins.strict ⟨exampleSha, checksumBytes⟩ 0
        (.create 0 .lspFlood []) pkg ["connection"]) ∧
    ∃ pkg, CommsLink.makePackage Cbor.package Builtins.strict ⟨exampleSha, checksumBytes⟩ 0
        (10 ^ 15 + 10 ^ 6) (.create 0 .lspFlood []) none = .ok pkg ∧
      ¬ exampleReceiver.Delivers Cbor.package Builtins.strict ⟨exampleSha, checksumBytes⟩ 0
        (.create 0 .lspFlood []) pkg ["unknown"] := by
  constructor
  · obtain ⟨pkg, made, delivers⟩ := processEncPkg_of_sent Cbor.package Builtins.strict exampleSha
      (by decide : |(3600 : ℤ)| ≤ 86400) exampleReceiver isClock_example.2
      (PrismMessage.typed_create (by simp) : (PrismMessage.create 0 .lspFlood []).Typed) none
    refine ⟨pkg, made, fun delivered => ?_⟩
    have timely := ((delivers 0 _).mp delivered).2 rfl
    norm_num [exampleReceiver] at timely
  · obtain ⟨pkg, made, delivers⟩ := processEncPkg_of_sent Cbor.package Builtins.strict exampleSha
      (by decide : |(0 : ℤ)| ≤ 86400) exampleReceiver isClock_example.2
      (PrismMessage.typed_create (by simp) : (PrismMessage.create 0 .lspFlood []).Typed) none
    refine ⟨pkg, made, fun delivered => ?_⟩
    obtain ⟨⟨link, known, -⟩, -⟩ := (delivers 0 _).mp delivered
    cases known

end Prism.Transport
