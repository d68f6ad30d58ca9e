import Prism.Bfibe.Failures
import Prism.Config.GeneratedIbe
import Prism.Message.Tracing

/-!
Messages between users (`prism/common/cleartext.py`, `encrypt_user_message` and
`decrypt_user_message` in `prism/common/message_utils.py`, `prism/common/crypto/ibe/ibe.py` and
`prism/common/crypto/ibe/boneh_franklin.py`).

A clear text becomes a message, which is encrypted with a random key. The key is encrypted to the
name of the receiver, under the public parameters of a system that may have many shards. The
receiver has the private key that the system has for its name.

* `privateKey_of_shards`, `load_of_texts`: the keys of a system that was created.
* `decryptUserMessage_ok`: what was encrypted to a name is decrypted with the key for the name.
* `user_message_received`: the receiver gets the clear text.
-/

namespace Prism.Client

open Bfibe Bfibe.BFPublicParameters Config Crypto

/-- `text.encode("utf-8")`. -/
def utf8 (text : String) : Bytes := text.toUTF8.data.toList

/-! ### Clear texts -/

/-- `ClearText`. What is read from a message may be missing. -/
structure ClearText (SpanContext : Type) where
  receiver : String
  sender : Option String
  message : Option String := none
  messageBytes : Option Bytes := none
  nonce : Option Bytes
  timestamp : Option ℤ
  context : Option SpanContext := none
  useIbe : Bool := true

/-- A string that may be missing, in a message. -/
def strValue : Option String → Value
  | none => .none
  | some s => .str s

/-- Bytes that may be missing. -/
def bytesValue : Option Bytes → Value
  | none => .none
  | some data => .bytes data

/-- A number that may be missing. -/
def intValue : Option ℤ → Value
  | none => .none
  | some n => .int n

@[simp] theorem text?_strValue (s : Option String) : (strValue s).text? = s := by cases s <;> rfl

@[simp] theorem bytes?_bytesValue (data : Option Bytes) : (bytesValue data).bytes? = data := by
  cases data <;> rfl

@[simp] theorem int?_intValue (n : Option ℤ) : (intValue n).int? = n := by cases n <;> rfl

namespace ClearText

variable {SpanContext : Type} (tracer : Tracer SpanContext)

/-- `__len__`. -/
def length (self : ClearText SpanContext) : ℕ :=
  (self.message.elim 0 String.length) + (self.messageBytes.elim 0 List.length)

/-- `to_prism`. -/
def toPrism (self : ClearText SpanContext) : PrismMessage :=
  PrismMessage.create 0 .userMessage
    [(.name, strValue self.sender), (.messagetext, strValue self.message),
      (.ciphertext, bytesValue self.messageBytes), (.nonce, bytesValue self.nonce),
      (.originationTimestamp, intValue self.timestamp)]

/-- `from_prism`. -/
def fromPrism (message : PrismMessage) (receiver : String) : Py (ClearText SpanContext) :=
  match message.get .msgType with
  | .enum (.type .userMessage) => do
    let context ← extractSpanContext tracer message
    return {
      receiver
      sender := (message.get .name).text?
      message := (message.get .messagetext).text?
      messageBytes := (message.get .ciphertext).bytes?
      nonce := (message.get .nonce).bytes?
      timestamp := (message.get .originationTimestamp).int?
      context }
  | _ => .error .assertionError

theorem toPrism_typed {self : ClearText SpanContext} (timed : self.timestamp.isSome) :
    self.toPrism.Typed := by
  refine PrismMessage.typed_create ?_
  obtain ⟨time, timed⟩ := Option.isSome_iff_exists.mp timed
  simp only [List.forall_mem_cons, List.not_mem_nil, false_implies, implies_true, and_true, timed]
  refine ⟨?_, ?_, ?_, ?_, rfl⟩
  · cases self.sender <;> rfl
  · cases self.message <;> rfl
  · cases self.messageBytes <;> rfl
  · cases self.nonce <;> rfl

/-- A clear text is read back from its message, whatever the debug information. -/
theorem fromPrism_toPrism (self : ClearText SpanContext) {m : PrismMessage}
    (same : PrismMessage.SameBut [.debugInfo] self.toPrism m) (traceable : Traceable tracer m)
    (receiver : String) :
    ∃ context, fromPrism tracer m receiver =
      .ok { self with receiver, context, useIbe := true } := by
  obtain ⟨context, extracted⟩ := traceable
  refine ⟨context, ?_⟩
  rw [fromPrism, same .msgType (by decide) (by decide)]
  change (do
    let context ← extractSpanContext tracer m
    _ : Py (ClearText SpanContext)) = _
  rw [extracted, ok_bind, same .name (by decide) (by decide),
    same .messagetext (by decide) (by decide), same .ciphertext (by decide) (by decide),
    same .nonce (by decide) (by decide), same .originationTimestamp (by decide) (by decide)]
  have name : self.toPrism.get .name = strValue self.sender := rfl
  have text : self.toPrism.get .messagetext = strValue self.message := rfl
  have data : self.toPrism.get .ciphertext = bytesValue self.messageBytes := rfl
  have nonce : self.toPrism.get .nonce = bytesValue self.nonce := rfl
  have time : self.toPrism.get .originationTimestamp = intValue self.timestamp := rfl
  rw [name, text, data, nonce, time, text?_strValue, text?_strValue, bytes?_bytesValue,
    bytes?_bytesValue, int?_intValue]
  rfl

end ClearText

/-! ### Encryption to a name -/

/-- What a user message is encrypted with: a random key, a nonce, what `RAND_bytes` returns, and the
time. -/
structure UserDraws (hashlen : ℕ) where
  key : Bytes
  nonce : Bytes
  rho : Bytes
  now : ℤ
  key_length : key.length = 32
  nonce_length : nonce.length = 12
  rho_length : rho.length = hashlen

section

variable {G T : Type} [AddCommGroup G] [CommGroup T] {pbc : Pbc G T}

/-- The `BonehFranklin` of a user, which decrypts once it has a key. -/
structure UserIBE (pbc : Pbc G T) where
  params : BFPublicParameters pbc
  key : Option G

variable (ssl : OpenSsl) (package : CryptoPackage) (cbor : Cbor2) (builtins : Builtins)
  {SpanContext : Type} (tracer : Tracer SpanContext) (now : ℤ)

namespace UserIBE

/-- `load`. -/
def load (privateKey : Option CString) (publicParams : CString) : Py (UserIBE pbc) := do
  let params ← BonehFranklin.parsePublicParams ssl publicParams
  return ⟨params, (privateKey.filter (!·.isEmpty)).map (parsePrivateKey pbc)⟩

/-- `can_decrypt`. -/
def canDecrypt (self : UserIBE pbc) : Bool := self.key.isSome

/-- `encrypt_raw`, where `RAND_bytes` does not fail. -/
def encryptRaw (self : UserIBE pbc) (address : String) (plaintext rho : Bytes) : Bytes :=
  (self.params.encryptIbe (utf8 address) plaintext (some rho)).getD []

/-- `IdentityBasedEncryption.encrypt`. -/
def encrypt (self : UserIBE pbc) (address : String) (plaintext : Bytes)
    (draws : UserDraws self.params.security.hashlen) : Py EncryptedMessage := do
  let ciphertext ← package.aesEncrypt draws.key draws.nonce plaintext
  return {
    ciphertext
    key := self.encryptRaw address draws.key draws.rho
    nonce := draws.nonce }

variable [DecidableEq G]

/-- `IdentityBasedEncryption.decrypt`. -/
def decrypt (self : UserIBE pbc) (message : EncryptedMessage) : Py Bytes :=
  match self.key with
  | some key => self.params.decrypt package key message
  | none => .error .typeError

end UserIBE

/-- `encrypt_user_message`. -/
def encryptUserMessage (ibe : UserIBE pbc) (address : String) (message : PrismMessage)
    (draws : UserDraws ibe.params.security.hashlen) : Py PrismMessage := do
  let encrypted ← ibe.encrypt package address (← message.encode cbor) draws
  return PrismMessage.create draws.now .encryptUserMessage
    [(.cipher, .enum (.cipher .aesGcm)), (.ciphertext, .bytes encrypted.ciphertext),
      (.nonce, .bytes encrypted.nonce), (.encryptedMsgKey, .bytes encrypted.key)]

/-- `decrypt_user_message`. The encoding of `None` is decrypted to `None`. -/
def decryptUserMessage [DecidableEq G] (ibe : UserIBE pbc) (message : PrismMessage) :
    Py (Option PrismMessage) := do
  let context ← extractSpanContext tracer message
  match (message.get .ciphertext).bytes?, (message.get .encryptedMsgKey).bytes?,
    (message.get .nonce).bytes? with
  | some ciphertext, some key, some nonce =>
    let plaintext ← ibe.decrypt package ⟨ciphertext, key, nonce⟩
    match ← PrismMessage.decode cbor builtins now plaintext with
    | some inner => some <$> injectSpanContext tracer builtins now inner context
    | none => return none
  | _, _, _ => .error .typeError

/-! ### The keys of a system -/

variable {ssl}

/-- The private key that a system has for a name. -/
theorem privateKey_of_shards {base : BFPublicParameters pbc} {s : ℕ} {rest : List ℕ}
    {ibe : GeneratedIBE pbc}
    (shards : ibe.ibeShards = (s :: rest).map fun s => ⟨base.withSecret s, s⟩) (name : Bytes) :
    ibe.privateKey name =
      .ok (formatPrivateKey pbc ((s + rest.sum) • base.bfGeneratePublicKey name)) := by
  have keys : ibe.ibeShards.map (fun shard => shard.params.generatePrivateKey shard.secret name) =
      (s :: rest).map fun s => formatPrivateKey pbc (s • base.bfGeneratePublicKey name) := by
    rw [shards, List.map_map]
    rfl
  rw [GeneratedIBE.privateKey, keys, List.map_cons]
  exact congrArg Except.ok (sumSecrets_eq _ s rest)

/-- A key is no empty text. -/
theorem formatPrivateKey_ne (key : G) : (formatPrivateKey pbc key).isEmpty = false := by
  obtain ⟨c, line, start, -⟩ := pbc.print_start key
  rw [formatPrivateKey, start]
  rfl

/-- What is loaded from the texts of a system. -/
theorem load_of_texts {base : BFPublicParameters pbc} (secured : base.Secured ssl) (s : ℕ)
    (key : Option G) :
    UserIBE.load ssl (key.map (formatPrivateKey pbc)) (base.withSecret s).toString =
      .ok ⟨base.withSecret s, key⟩ := by
  have copied := copyParams_withSecret secured s
  rw [copyParams] at copied
  rw [UserIBE.load, BonehFranklin.parsePublicParams, copied, ok_bind]
  cases key with
  | none => rfl
  | some key =>
      simp only [Option.map_some, Option.filter_some, formatPrivateKey_ne, Bool.not_false,
        if_true, parse_format]
      rfl

/-! ### Through encryption -/

/-- The digests of the levels have at most 64 bytes. -/
theorem hashlen_le {base : BFPublicParameters pbc} (secured : base.Secured ssl) :
    base.security.hashlen ≤ 64 := by
  have set : setupSecurity ssl base.security.level = some base.security := secured
  rcases (setupSecurity_cases set).2 with level | level | level | level | level <;>
    rw [level] at set <;> rw [← Option.some.inj set] <;> simp only [BFSecurityLevel.hashlen]
  · exact ssl.sha1_length.trans_le (by decide)
  · exact ssl.sha224_length.trans_le (by decide)
  · exact ssl.sha256_length.trans_le (by decide)
  · exact ssl.sha384_length.trans_le (by decide)
  · exact ssl.sha512_length.le

/-- The bytes of a short message fit an `int`. -/
theorem length_bfMessageToBytes_le {base : BFPublicParameters pbc} (secured : base.Secured ssl)
    (small : ∀ P, (pbc.elementToBytes P).length < 2 ^ 30) (s : ℕ) {msg : BFMessage G}
    (short : msg.length ≤ 2 ^ 20) :
    ((base.withSecret s).bfMessageToBytes msg).length < 2 ^ 31 := by
  have hashlen := hashlen_le secured
  have point := small msg.U
  rw [bfMessageToBytes, sizeBytes]
  simp only [List.length_append, List.length_reverse, Lib.BigEndian.length_toBytes,
    List.length_take, List.length_singleton]
  change 8 + (1 + (_ + (min base.security.hashlen _ + _))) < _
  omega

variable {package cbor builtins tracer now} [DecidableEq G]

/-- **What was encrypted to a name is decrypted** with the key of the system for the name. -/
theorem UserIBE.decrypt_encrypt {base : BFPublicParameters pbc} (secured : base.Secured ssl)
    (small : ∀ P, (pbc.elementToBytes P).length < 2 ^ 30) (s : ℕ) (k : Option G)
    (address : String) (plaintext : Bytes) (draws : UserDraws base.security.hashlen) :
    ∃ encrypted, (⟨base.withSecret s, k⟩ : UserIBE pbc).encrypt package address plaintext draws =
        .ok encrypted ∧
      (⟨base.withSecret s, some (s • base.bfGeneratePublicKey (utf8 address))⟩ :
        UserIBE pbc).decrypt package encrypted = .ok plaintext := by
  have nonce_ne : draws.nonce ≠ [] := List.ne_nil_of_length_pos (by rw [draws.nonce_length]; decide)
  obtain ⟨ciphertext, run, -, back⟩ :=
    package.decrypt_encrypt draws.key draws.nonce plaintext draws.key_length nonce_ne
  obtain ⟨msg, length, sent, decrypted⟩ := decryptIbe_withSecret base s (utf8 address)
    (show draws.key.length < 2 ^ 64 by rw [draws.key_length]; decide) draws.rho_length
  have short := length_bfMessageToBytes_le secured small s
    (show msg.length ≤ 2 ^ 20 by rw [length, draws.key_length]; decide)
  refine ⟨⟨ciphertext, (base.withSecret s).bfMessageToBytes msg, draws.nonce⟩, ?_, ?_⟩
  · unfold UserIBE.encrypt UserIBE.encryptRaw
    rw [run, ok_bind, sent]
    rfl
  · unfold UserIBE.decrypt BFPublicParameters.decrypt
    dsimp only
    rw [decryptRaw, if_neg (not_le.mpr short), decrypted, ok_bind, Option.getD_some, back]
    rfl

/-- A user message is decrypted to the message that was encrypted, with the trace information of its
envelope. -/
theorem decryptUserMessage_ok {base : BFPublicParameters pbc} (secured : base.Secured ssl)
    (small : ∀ P, (pbc.elementToBytes P).length < 2 ^ 30) (s : ℕ) (k : Option G)
    (address : String) {m : PrismMessage} (typed : m.Typed) (untraced : Traceable tracer m)
    (draws : UserDraws base.security.hashlen) :
    ∃ packet, encryptUserMessage package cbor ⟨base.withSecret s, k⟩ address m draws =
        .ok packet ∧ packet.Typed ∧ packet.get .msgType = .enum (.type .encryptUserMessage) ∧
      Traceable tracer packet ∧
      ∀ now arrived, PrismMessage.SameBut [.debugInfo] packet arrived → Traceable tracer arrived →
        ∃ inner, decryptUserMessage package cbor builtins tracer now
            ⟨base.withSecret s, some (s • base.bfGeneratePublicKey (utf8 address))⟩ arrived =
              .ok (some inner) ∧
          inner.Typed ∧ PrismMessage.SameBut [.debugInfo] m inner ∧ Traceable tracer inner := by
  obtain ⟨data, encoded, -, -⟩ := PrismMessage.decode_encode cbor builtins 0 typed
  obtain ⟨encrypted, run, back⟩ :=
    @UserIBE.decrypt_encrypt _ _ _ _ _ ssl package _ base secured small s k address data draws
  refine ⟨PrismMessage.create draws.now .encryptUserMessage
    [(.cipher, .enum (.cipher .aesGcm)), (.ciphertext, .bytes encrypted.ciphertext),
      (.nonce, .bytes encrypted.nonce), (.encryptedMsgKey, .bytes encrypted.key)],
    ?_, ?_, rfl, ⟨none, rfl⟩, ?_⟩
  · unfold encryptUserMessage
    rw [encoded, ok_bind, run]
    rfl
  · refine PrismMessage.typed_create ?_
    simp only [List.forall_mem_cons, List.not_mem_nil, false_implies, implies_true, and_true]
    exact ⟨rfl, rfl, rfl, rfl⟩
  · rintro now arrived same ⟨context, extracted⟩
    obtain ⟨data', encoded', -, decoded⟩ := PrismMessage.decode_encode cbor builtins now typed
    obtain rfl := Except.ok.inj (encoded.symm.trans encoded')
    obtain ⟨inner, injected, innerTyped, sameInner, traceable⟩ :=
      injectSpanContext_ok tracer builtins now typed context
    refine ⟨inner, ?_, innerTyped, sameInner, traceable untraced⟩
    rw [decryptUserMessage, extracted, ok_bind, same .ciphertext (by decide) (by decide),
      same .encryptedMsgKey (by decide) (by decide), same .nonce (by decide) (by decide)]
    change (do
      let plaintext ← UserIBE.decrypt package _ encrypted
      match ← PrismMessage.decode cbor builtins now plaintext with
      | some inner => some <$> injectSpanContext tracer builtins now inner context
      | none => return none : Py (Option PrismMessage)) = _
    rw [back, ok_bind, decoded, ok_bind]
    exact congrArg (some <$> ·) injected

variable (package cbor builtins tracer)

/-- **The receiver gets the clear text**: whatever system was generated and into however many shards
it was cut, a message to a name is decrypted with the key that the system has for the name, however
it was traced on its way. -/
theorem user_message_received {gmp : SecretText} {shards : ℕ} {level : ℤ} {draws : SystemDraws pbc}
    {ibe : GeneratedIBE pbc} {file : GeneratedIBE.PathFile}
    (created : GeneratedIBE.create ssl gmp (some none) shards level draws = .ok (ibe, file))
    (small : ∀ P, (pbc.elementToBytes P).length < 2 ^ 30) (name : String) :
    ∃ (publicParams privateKey : CString) (alice bob : UserIBE pbc),
      ibe.publicParams = some publicParams ∧
      ibe.privateKey (utf8 name) = .ok privateKey ∧
      UserIBE.load ssl none publicParams = .ok alice ∧
      UserIBE.load ssl (some privateKey) publicParams = .ok bob ∧
      ∀ (clear : ClearText SpanContext) (draws : UserDraws alice.params.security.hashlen),
        clear.timestamp.isSome →
        ∃ packet, encryptUserMessage package cbor alice name clear.toPrism draws = .ok packet ∧
          ∀ now arrived, PrismMessage.SameBut [.debugInfo] packet arrived →
            Traceable tracer arrived →
            ∃ inner context, decryptUserMessage package cbor builtins tracer now bob arrived =
                .ok (some inner) ∧
              ClearText.fromPrism tracer inner name =
                .ok { clear with receiver := name, context, useIbe := true } := by
  obtain ⟨base, s, rest, secured, listed, -, texts⟩ := GeneratedIBE.shards_of_create created
  refine ⟨_, _, ⟨base.withSecret (s + rest.sum), none⟩, ⟨base.withSecret (s + rest.sum),
    some ((s + rest.sum) • base.bfGeneratePublicKey (utf8 name))⟩, texts,
    privateKey_of_shards listed (utf8 name), load_of_texts secured _ none,
    load_of_texts secured _ (some _), fun clear draws timed => ?_⟩
  obtain ⟨packet, encrypted, -, -, -, decrypts⟩ := @decryptUserMessage_ok _ _ _ _ _ ssl package cbor
    builtins _ tracer _ base secured small (s + rest.sum) none name clear.toPrism
    (ClearText.toPrism_typed timed) ⟨none, rfl⟩ draws
  refine ⟨packet, encrypted, fun now arrived same traceable => ?_⟩
  obtain ⟨inner, run, -, sameInner, innerTraceable⟩ := decrypts now arrived same traceable
  obtain ⟨context, read⟩ := clear.fromPrism_toPrism tracer sameInner innerTraceable name
  exact ⟨inner, context, run, read⟩

end

/-- A tracer whose spans have numbers, and that reads nothing back. -/
def numberTracer : Tracer ℕ where
  inject n := [("span", Nat.repr n)]
  nodup_inject _ := List.nodup_singleton _
  extract _ := .ok none
  extract_inject _ := ⟨none, rfl⟩

/-- A message in the system of two shards. -/
theorem two_shards_message_received :
    ∃ (ibe : GeneratedIBE examplePbc) (publicParams privateKey : CString)
      (alice bob : UserIBE examplePbc),
      (∃ file, GeneratedIBE.create exampleSsl exampleGmp (some none) 2 3 exampleDraws =
        .ok (ibe, file)) ∧
      ibe.publicParams = some publicParams ∧
      ibe.privateKey (utf8 "bob") = .ok privateKey ∧
      UserIBE.load exampleSsl none publicParams = .ok alice ∧
      UserIBE.load exampleSsl (some privateKey) publicParams = .ok bob ∧
      ∀ (clear : ClearText ℕ) (draws : UserDraws alice.params.security.hashlen),
        clear.timestamp.isSome →
        ∃ packet, encryptUserMessage CryptoPackage.additive Cbor.package alice "bob" clear.toPrism
            draws = .ok packet ∧
          ∀ now arrived, PrismMessage.SameBut [.debugInfo] packet arrived →
            Traceable numberTracer arrived →
            ∃ inner context, decryptUserMessage CryptoPackage.additive Cbor.package Builtins.strict
                numberTracer now bob arrived = .ok (some inner) ∧
              ClearText.fromPrism numberTracer inner "bob" =
                .ok { clear with receiver := "bob", context, useIbe := true } := by
  obtain ⟨ibe, created, -⟩ := GeneratedIBE.example_created
  obtain ⟨publicParams, privateKey, alice, bob, received⟩ :=
    user_message_received CryptoPackage.additive Cbor.package Builtins.strict numberTracer created
      (fun _ => show 1 < 2 ^ 30 by decide) "bob"
  exact ⟨ibe, publicParams, privateKey, alice, bob, ⟨_, created⟩, received⟩

end Prism.Client
