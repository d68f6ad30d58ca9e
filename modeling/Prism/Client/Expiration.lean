import Prism.Client.Requests
import Prism.Message.Cbor
import Prism.Message.Floats
import Prism.Roles.Dropbox

/-!
How long a client's poll is live (`Dropboxes.expiration` and `read_request` in
`prism/client/dropbox.py`).

A client that polls for some time writes into the request when the poll ends, as the timestamp of
a time without a time zone. That is a time of UTC on both sides, but `timestamp` takes it for one
of the client's time zone. The timestamp is a float; it becomes an integer when the dropbox
decodes the request.

* `liveFor_timestamp_iff`: the ends of a poll that are right, up to whole seconds.
* `polls_live_iff`: both kinds of dropbox keep a poll for the announced time exactly if the client
  is in a time zone without an offset, or one ahead of UTC and the poll is shorter than a second.
-/

namespace Prism.Client

open Crypto

/-! ### Requests with an end -/

/-- `datetime + timedelta(milliseconds=...)`. -/
def plusMilliseconds (t ms : ℤ) : Py ℤ :=
  if IsTime (t + ms * 1000) then .ok (t + ms * 1000) else .error .overflowError

/-- `Dropboxes.expiration`, on a host whose clock is ahead of UTC by `offset` seconds. -/
def expiration (dropboxPollWithDuration : Bool) (pollTimingMs offset now : ℤ) :
    Py (Option ℚ) :=
  if dropboxPollWithDuration then do
    return some (← timestamp offset (← plusMilliseconds now pollTimingMs))
  else return none

/-- A float: a number, and the bits of it that a message holds. -/
structure PyFloat where
  bits : UInt64
  value : ℚ
  holds : floatValue? bits = some value

/-- What `PseudonymDropbox.read_request` sends, inside the encryption. -/
def readDropboxMessage (now : ℤ) (pseudonym requestId : Bytes) (returnLinks : List Value)
    (expiration : Option Value) : PrismMessage :=
  PrismMessage.create now .readDropbox
    ([(.nonce, .bytes requestId), (.pseudonym, .bytes pseudonym)] ++
      ((expiration.map fun expires => (.expiration, expires)).toList ++
        if returnLinks.isEmpty then [] else [(.linkAddresses, .list returnLinks)]))

/-- What `MPCDropbox.read_request` sends, inside the encryption for the leader. -/
def readObliviousDropboxMessage (now : ℤ) (requestId : Bytes) (halfKey : Value)
    (submessages : List PrismMessage) (returnLinks : List Value) (expiration : Option Value) :
    PrismMessage :=
  PrismMessage.create now .readObliviousDropbox
    ([(.nonce, .bytes requestId), (.halfKey, halfKey),
      (.submessages, .list (submessages.map PrismMessage.toValue)),
      (.linkAddresses, .list returnLinks)] ++
      [(.expiration, expiration.getD .none)])

/-! ### Times that a poll is live -/

/-- The poll is live from when it was sent until it ends, and not later, up to rounding to whole
seconds. -/
def LiveFor (live : ℤ → Bool) (sent : ℤ) (pollTimingMs : ℕ) : Prop :=
  ∀ now, sent ≤ now →
    (now + 10 ^ 6 ≤ sent + pollTimingMs * 1000 → live now = true) ∧
      (sent + pollTimingMs * 1000 + 10 ^ 6 ≤ now → live now = false)

/-- A time that is one of the years 1970 to 9999 in every time zone. -/
def InCalendar (t : ℤ) : Prop :=
  2 * 24 * 3600 * 10 ^ 6 ≤ t ∧ t ≤ (maxSecond - 2 * 24 * 3600) * 10 ^ 6

instance (t : ℤ) : Decidable (InCalendar t) := inferInstanceAs (Decidable (_ ∧ _))

theorem InCalendar.isTime {t : ℤ} (inside : InCalendar t) : IsTime t := by
  obtain ⟨low, high⟩ := inside
  unfold IsTime minSecond maxSecond at *
  omega

/-- The end of a poll that a client announces. -/
theorem expiration_eq {minutes sent : ℤ} {pollTimingMs : ℕ} (zone : |minutes| < 24 * 60)
    (ends : InCalendar (sent + pollTimingMs * 1000)) :
    expiration true pollTimingMs (60 * minutes) sent =
      .ok (some (floatSeconds ((sent + pollTimingMs * 1000) / 10 ^ 6 - 60 * minutes)
        ((sent + pollTimingMs * 1000) % 10 ^ 6))) := by
  obtain ⟨low, high⟩ := ends
  obtain ⟨west, east⟩ := abs_lt.mp zone
  have made : timestamp (60 * minutes) (sent + pollTimingMs * 1000) =
      .ok (floatSeconds ((sent + pollTimingMs * 1000) / 10 ^ 6 - 60 * minutes)
        ((sent + pollTimingMs * 1000) % 10 ^ 6)) := by
    unfold maxSecond at high
    exact timestamp_ok (abs_le.mpr ⟨by omega, by omega⟩) (by omega)
      (by unfold maxSecond; omega)
  rw [expiration, if_pos rfl, plusMilliseconds, if_pos (InCalendar.isTime ⟨low, high⟩), ok_bind,
    made]
  rfl

/-- The whole seconds that the dropbox reads. -/
theorem seconds_bounds {minutes t : ℤ} (zone : |minutes| < 24 * 60) (inside : InCalendar t) :
    t / 10 ^ 6 - 60 * minutes ≤
        integerPart (floatSeconds (t / 10 ^ 6 - 60 * minutes) (t % 10 ^ 6)) ∧
      integerPart (floatSeconds (t / 10 ^ 6 - 60 * minutes) (t % 10 ^ 6)) ≤
        t / 10 ^ 6 - 60 * minutes + 1 := by
  obtain ⟨low, high⟩ := inside
  obtain ⟨west, east⟩ := abs_lt.mp zone
  unfold maxSecond at high
  exact integerPart_floatSeconds (by omega) (by omega) (Int.emod_nonneg t (by norm_num))
    (Int.emod_lt_of_pos t (by norm_num))

/-- **The ends of a poll that are right**, up to whole seconds. -/
theorem liveFor_timestamp_iff {minutes sent seconds : ℤ} {pollTimingMs : ℕ}
    (low : (sent + pollTimingMs * 1000) / 10 ^ 6 - 60 * minutes ≤ seconds)
    (high : seconds ≤ (sent + pollTimingMs * 1000) / 10 ^ 6 - 60 * minutes + 1) :
    LiveFor (fun now => seconds * 10 ^ 6 > now) sent pollTimingMs ↔
      minutes = 0 ∨ 0 < minutes ∧ pollTimingMs < 1000 := by
  constructor
  · intro live
    rcases lt_trichotomy minutes 0 with west | utc | east
    · have late := (live (sent + pollTimingMs * 1000 + 10 ^ 6) (by omega)).2 le_rfl
      have ended := of_decide_eq_false late
      omega
    · exact .inl utc
    · refine .inr ⟨east, ?_⟩
      by_contra long
      have early := (live (sent + pollTimingMs * 1000 - 10 ^ 6) (by omega)).1 (by omega)
      have alive := of_decide_eq_true early
      omega
  · intro zone now _
    refine ⟨fun before => decide_eq_true ?_, fun after => decide_eq_false ?_⟩
    · rcases zone with utc | ⟨-, short⟩
      · omega
      · omega
    · omega

/-! ### Both dropboxes -/

section Polls

variable (cbor : Cbor2) (builtins : Builtins)

/-- What a dropbox makes of the request that it decrypted. -/
def pollOf {Poll : Type} (fromMessage : PrismMessage → Py Poll) (now : ℤ) (data : Bytes) :
    Py Poll := do
  match ← PrismMessage.decode cbor builtins now data with
  | some message => fromMessage message
  | none => throw .attributeError

/-- The dropbox reads the request, and its poll is live for the announced time. -/
def KeptLive {Poll : Type} (request : PrismMessage) (fromMessage : PrismMessage → Py Poll)
    (live : Poll → ℤ → Bool) (sent : ℤ) (pollTimingMs : ℕ) : Prop :=
  ∃ data, request.encode cbor = .ok data ∧
    ∀ now, ∃ poll, pollOf cbor builtins fromMessage now data = .ok poll ∧
      LiveFor (live poll) sent pollTimingMs

variable {cbor builtins}

/-- The declaration of the end of a poll. -/
def expirationField : FieldInfo := ⟨.expiration, .scalar .int, .absent⟩

theorem argumentTyped_expiration (seconds : ℤ) :
    argumentTyped .prismMessage (.expiration, .int seconds) = true := rfl

theorem expirationOf_int {message : PrismMessage} {seconds : ℤ}
    (given : message.get .expiration = .int seconds) (later : 0 < seconds)
    (year : seconds ≤ maxSecond) :
    Lockfree.Poll.expirationOf message = .ok (some (seconds * 10 ^ 6)) := by
  unfold maxSecond at year
  have truthy : (Value.int seconds).truthy = true := decide_eq_true later.ne'
  have converted : Routing.utcfromtimestamp (.int seconds) = .ok (seconds * 10 ^ 6) := by
    rw [Routing.utcfromtimestamp, Routing.asInt, ok_bind, if_pos (by omega)]
    rfl
  rw [Lockfree.Poll.expirationOf, given, if_pos truthy, converted]
  rfl

/-- What a dropbox decodes from a request whose end is a float. -/
theorem keptLive_iff (truncates : builtins.Truncates) {Poll : Type}
    {fromMessage : PrismMessage → Py Poll} {live : Poll → ℤ → Bool} {sent : ℤ} {pollTimingMs : ℕ}
    {made : ℤ} {msgType : TypeEnum} {before after : List (FieldName × Value)} (float : PyFloat)
    (first : FieldName.expiration ∉ before.map Prod.fst)
    (typed : ∀ arg ∈ before ++ after, argumentTyped .prismMessage arg = true)
    (opens : ∃ poll, fromMessage (PrismMessage.create made msgType
        (before ++ (.expiration, .int (integerPart float.value)) :: after)) = .ok poll ∧
      live poll = fun now => integerPart float.value * 10 ^ 6 > now) :
    KeptLive cbor builtins
        (PrismMessage.create made msgType (before ++ (.expiration, .float float.bits) :: after))
        fromMessage live sent pollTimingMs ↔
      LiveFor (fun now => integerPart float.value * 10 ^ 6 > now) sent pollTimingMs := by
  obtain ⟨poll, opened, lives⟩ := opens
  have whole : (PrismMessage.create made msgType
      (before ++ (.expiration, .int (integerPart float.value)) :: after)).Typed := by
    apply PrismMessage.typed_create
    intro arg mem
    rcases List.mem_append.mp mem with mem | mem
    · exact typed arg (List.mem_append_left _ mem)
    · rcases List.mem_cons.mp mem with rfl | mem
      · exact argumentTyped_expiration _
      · exact typed arg (List.mem_append_right _ mem)
  obtain ⟨k, at_k⟩ := List.getElem?_of_mem
    (by decide : expirationField ∈ ClassName.prismMessage.schema)
  have sentTo : ∀ now, ∃ data, (PrismMessage.create made msgType
      (before ++ (.expiration, .float float.bits) :: after)).encode cbor = .ok data ∧
      data ≠ [] ∧ PrismMessage.decode cbor builtins now data = .ok (some (PrismMessage.create made
        msgType (before ++ (.expiration, .int (integerPart float.value)) :: after))) := fun now =>
    @PrismMessage.decode_encode_converted cbor builtins made now msgType before after k
      expirationField .int .float (.float float.bits) _ at_k rfl rfl (fun same => nomatch same)
      first whole (fun none => nomatch none) rfl (truncates float.bits float.value float.holds)
  constructor
  · rintro ⟨data, encoded, received⟩
    obtain ⟨poll', received, live'⟩ := received 0
    obtain ⟨data', encoded', -, decoded⟩ := sentTo 0
    obtain rfl := Except.ok.inj (encoded.symm.trans encoded')
    rw [pollOf, decoded, ok_bind] at received
    obtain rfl := Except.ok.inj (opened.symm.trans received)
    rwa [lives] at live'
  · intro right
    obtain ⟨data, encoded, -, -⟩ := sentTo 0
    refine ⟨data, encoded, fun now => ⟨poll, ?_, lives ▸ right⟩⟩
    obtain ⟨data', encoded', -, decoded⟩ := sentTo now
    obtain rfl := Except.ok.inj (encoded.symm.trans encoded')
    rw [pollOf, decoded, ok_bind]
    exact opened

/-- The dropbox on a single server keeps a poll until the seconds that it reads. -/
theorem keptLive_readDropbox_iff (truncates : builtins.Truncates) {sent : ℤ} {pollTimingMs : ℕ}
    (float : PyFloat) (later : 0 < integerPart float.value)
    (year : integerPart float.value ≤ maxSecond) (made : ℤ) (pseudonym requestId : Bytes)
    {returnLinks : List Value}
    (links : Value.hasElements returnLinks (.object .linkAddress) = true) :
    KeptLive cbor builtins
        (readDropboxMessage made pseudonym requestId returnLinks (some (.float float.bits)))
        Roles.Poll.fromMessage Roles.Poll.live sent pollTimingMs ↔
      LiveFor (fun now => integerPart float.value * 10 ^ 6 > now) sent pollTimingMs := by
  rw [readDropboxMessage, Option.map_some, Option.toList_some, List.singleton_append]
  refine keptLive_iff truncates float (by simp) ?_ ?_
  · intro arg mem
    split_ifs at mem
    · simp only [List.append_nil, List.mem_cons, List.not_mem_nil, or_false] at mem
      rcases mem with rfl | rfl <;> rfl
    · simp only [List.cons_append, List.nil_append, List.mem_cons, List.not_mem_nil,
        or_false] at mem
      rcases mem with rfl | rfl | rfl
      · rfl
      · rfl
      · exact argumentTyped_list rfl links
  · have expires : Lockfree.Poll.expirationOf (PrismMessage.create made .readDropbox
        ([(.nonce, .bytes requestId), (.pseudonym, .bytes pseudonym)] ++
          (.expiration, .int (integerPart float.value)) ::
            if returnLinks.isEmpty then [] else [(.linkAddresses, .list returnLinks)])) =
        .ok (some (integerPart float.value * 10 ^ 6)) :=
      expirationOf_int rfl later year
    obtain ⟨poll, opened, -, -, same⟩ := Roles.Poll.fromMessage_ok rfl expires
    refine ⟨poll, opened, funext fun now => ?_⟩
    rw [Roles.Poll.live, same]

variable {package : CryptoPackage}

/-- The committee's dropbox keeps a poll until the seconds that it reads. -/
theorem keptLive_readObliviousDropbox_iff (truncates : builtins.Truncates) {sent : ℤ}
    {pollTimingMs : ℕ} (float : PyFloat) (later : 0 < integerPart float.value)
    (year : integerPart float.value ≤ maxSecond) (made : ℤ) (requestId : Bytes)
    (owner : package.PublicKey) {submessages : List PrismMessage}
    (typed : ∀ m ∈ submessages, m.Typed) {returnLinks : List Value}
    (links : Value.hasElements returnLinks (.object .linkAddress) = true) :
    KeptLive cbor builtins
        (readObliviousDropboxMessage made requestId (halfKeyMap package owner) submessages
          returnLinks (some (.float float.bits)))
        (Lockfree.Poll.fromMessage package) Lockfree.Poll.live sent pollTimingMs ↔
      LiveFor (fun now => integerPart float.value * 10 ^ 6 > now) sent pollTimingMs := by
  rw [readObliviousDropboxMessage, Option.getD_some]
  refine keptLive_iff truncates float (by simp) ?_ ?_
  · simp only [List.append_nil, List.forall_mem_cons, List.not_mem_nil, false_implies,
      implies_true, and_true]
    exact ⟨rfl, rfl, argumentTyped_list rfl (hasElements_messages typed),
      argumentTyped_list rfl links⟩
  · have expires : Lockfree.Poll.expirationOf (PrismMessage.create made .readObliviousDropbox
        ([(.nonce, .bytes requestId), (.halfKey, halfKeyMap package owner),
          (.submessages, .list (submessages.map PrismMessage.toValue)),
          (.linkAddresses, .list returnLinks)] ++
          [(.expiration, .int (integerPart float.value))])) =
        .ok (some (integerPart float.value * 10 ^ 6)) :=
      expirationOf_int rfl later year
    obtain ⟨poll, opened, -, -, -⟩ := @Lockfree.Poll.fromMessage_ok package _ owner submessages
      rfl rfl rfl ⟨_, expires⟩
    have same := Except.ok.inj
      ((Lockfree.Poll.expiration_of_fromMessage opened).symm.trans expires)
    refine ⟨poll, opened, funext fun now => ?_⟩
    rw [Lockfree.Poll.live, same]

/-- **Both kinds of dropbox keep a poll for the announced time** exactly if the client's clock has
no offset from UTC, or is ahead and the poll is shorter than a second. -/
theorem polls_live_iff (truncates : builtins.Truncates) {minutes sent : ℤ} {pollTimingMs : ℕ}
    (zone : |minutes| < 24 * 60) (ends : InCalendar (sent + pollTimingMs * 1000)) :
    ∃ x, expiration true pollTimingMs (60 * minutes) sent = .ok (some x) ∧
      ∀ float : PyFloat, float.value = x →
        ∀ (made : ℤ) (requestId : Bytes) (returnLinks : List Value),
          Value.hasElements returnLinks (.object .linkAddress) = true →
          (∀ pseudonym, KeptLive cbor builtins
              (readDropboxMessage made pseudonym requestId returnLinks (some (.float float.bits)))
              Roles.Poll.fromMessage Roles.Poll.live sent pollTimingMs ↔
            minutes = 0 ∨ 0 < minutes ∧ pollTimingMs < 1000) ∧
          ∀ (owner : package.PublicKey) (submessages : List PrismMessage),
            (∀ m ∈ submessages, m.Typed) →
            (KeptLive cbor builtins
              (readObliviousDropboxMessage made requestId (halfKeyMap package owner) submessages
                returnLinks (some (.float float.bits)))
              (Lockfree.Poll.fromMessage package) Lockfree.Poll.live sent pollTimingMs ↔
            minutes = 0 ∨ 0 < minutes ∧ pollTimingMs < 1000) := by
  have bounds := seconds_bounds zone ends
  refine ⟨_, expiration_eq zone ends, fun float value made requestId returnLinks links => ?_⟩
  rw [← value] at bounds
  have right := liveFor_timestamp_iff bounds.1 bounds.2
  obtain ⟨low, high⟩ := ends
  obtain ⟨west, east⟩ := abs_lt.mp zone
  have later : 0 < integerPart float.value := by
    unfold maxSecond at *
    omega
  have year : integerPart float.value ≤ maxSecond := by
    unfold maxSecond at *
    omega
  constructor
  · intro pseudonym
    rw [keptLive_readDropbox_iff truncates float later year made pseudonym requestId links, right]
  · intro owner submessages typed
    rw [keptLive_readObliviousDropbox_iff truncates float later year made requestId owner typed
      links, right]

end Polls

/-! ### A client in another time zone -/

/-- The key of a client's poll. -/
def exampleOwner : CryptoPackage.additive.PublicKey := [1]

/-- The end of a poll of one minute that is sent a thousand million seconds after 1970. -/
def exampleEnd : PyFloat where
  bits := UInt64.ofNat (1052 * 2 ^ 52 + (1000000060 * 2 ^ 23 - 2 ^ 52))
  value := 1000000060
  holds := by decide +kernel

/-- The same end, as a client writes it that is two hours ahead of UTC. -/
def exampleEndAhead : PyFloat where
  bits := UInt64.ofNat (1052 * 2 ^ 52 + (999992860 * 2 ^ 23 - 2 ^ 52))
  value := 999992860
  holds := by decide +kernel

theorem example_polls_live :
    ∃ x, expiration true 60000 (60 * 0) (10 ^ 15) = .ok (some x) ∧ exampleEnd.value = x ∧
      KeptLive Cbor.package Builtins.truncating
        (readDropboxMessage 0 [7] [1] [] (some (.float exampleEnd.bits)))
        Roles.Poll.fromMessage Roles.Poll.live (10 ^ 15) 60000 ∧
      KeptLive Cbor.package Builtins.truncating
        (readObliviousDropboxMessage 0 [1] (halfKeyMap CryptoPackage.additive exampleOwner) [] []
          (some (.float exampleEnd.bits)))
        (Lockfree.Poll.fromMessage CryptoPackage.additive) Lockfree.Poll.live (10 ^ 15) 60000 := by
  obtain ⟨x, announced, kept⟩ := @polls_live_iff Cbor.package Builtins.truncating
    CryptoPackage.additive Builtins.truncates_truncating 0 (10 ^ 15) 60000 (by decide) (by decide)
  have value : exampleEnd.value = x := by
    have made := announced.symm.trans
      (show _ = .ok (some exampleEnd.value) by decide +kernel)
    exact (Option.some.inj (Except.ok.inj made)).symm
  obtain ⟨single, committee⟩ := kept exampleEnd value 0 [1] [] rfl
  exact ⟨x, announced, value, (single [7]).mpr (.inl rfl),
    (committee exampleOwner [] (by simp)).mpr (.inl rfl)⟩

/-- The poll of a client that is two hours ahead of UTC is dead when it arrives. -/
theorem ahead_client_poll_dead :
    expiration true 60000 (60 * 120) (10 ^ 15) = .ok (some exampleEndAhead.value) ∧
      ¬ KeptLive Cbor.package Builtins.truncating
        (readDropboxMessage 0 [7] [1] [] (some (.float exampleEndAhead.bits)))
        Roles.Poll.fromMessage Roles.Poll.live (10 ^ 15) 60000 ∧
      ¬ KeptLive Cbor.package Builtins.truncating
        (readObliviousDropboxMessage 0 [1] (halfKeyMap CryptoPackage.additive exampleOwner) [] []
          (some (.float exampleEndAhead.bits)))
        (Lockfree.Poll.fromMessage CryptoPackage.additive) Lockfree.Poll.live (10 ^ 15) 60000 := by
  have whole : integerPart exampleEndAhead.value = 999992860 := by decide +kernel
  have late : ¬ LiveFor (fun now => integerPart exampleEndAhead.value * 10 ^ 6 > now) (10 ^ 15)
      60000 := by
    intro live
    have alive := of_decide_eq_true ((live (10 ^ 15) le_rfl).1 (by norm_num))
    rw [whole] at alive
    omega
  refine ⟨by decide +kernel, ?_, ?_⟩
  · rwa [keptLive_readDropbox_iff Builtins.truncates_truncating exampleEndAhead (by rw [whole]; decide)
      (by rw [whole]; decide) 0 [7] [1] rfl]
  · rwa [keptLive_readObliviousDropbox_iff Builtins.truncates_truncating exampleEndAhead
      (by rw [whole]; decide) (by rw [whole]; decide) 0 [1] exampleOwner (by simp) rfl]

end Prism.Client
