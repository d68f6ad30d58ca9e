import Mathlib.Data.UInt
import Prism.Message.PrismMessage

/-!
Messages encrypted for a server (`prism/common/crypto/server_message.py`,
`prism/common/crypto/halfkey` and `encrypt_message` in `prism/common/message_utils.py`).

The sender of a message makes a fresh key pair for it, derives the AES key from its
private key and the receiver's public key, and sends the public key along; the receiver
derives the same AES key from that and its own private key. The curve, the key
derivation and AES-GCM are those of a cryptography package (`CryptoPackage`).

* `Encrypted.decryptData_eq`, `Encrypted.decrypt_eq`: whoever has the private key for which a
  message was encrypted gets its data back.
* `encryptMessage_ok`, `eq_of_encryptMessage`: what `encrypt_message` returns.
-/

namespace Prism.Crypto

/-- The cryptography package: key pairs on a curve, with export in PEM format; the `x`
coordinate of the product of a public key and a private key; the key derivation
function; and encryption with AES in GCM mode, which keeps the length. -/
structure CryptoPackage where
  PublicKey : Type
  PrivateKey : Type
  publicKey : PrivateKey → PublicKey
  exportKey : PublicKey → Bytes
  importKey : Bytes → Py PublicKey
  import_export : ∀ key, importKey (exportKey key) = .ok key
  multiply : PublicKey → PrivateKey → ℤ
  multiply_comm : ∀ a b, multiply (publicKey a) b = multiply (publicKey b) a
  hkdf : Bytes → Bytes → Bytes
  hkdf_length : ∀ master salt, (hkdf master salt).length = 32
  aesEncrypt : Bytes → Bytes → Bytes → Py Bytes
  aesDecrypt : Bytes → Bytes → Bytes → Py Bytes
  decrypt_encrypt : ∀ key nonce data, key.length = 32 → nonce ≠ [] → ∃ ciphertext,
    aesEncrypt key nonce data = .ok ciphertext ∧ ciphertext.length = data.length ∧
      aesDecrypt key nonce ciphertext = .ok data

/-- Keys that are multiplied as numbers. -/
theorem multiply_id_comm (a b : Bytes) :
    (intFromBytes (id a) * intFromBytes b : ℤ) = intFromBytes (id b) * intFromBytes a :=
  mul_comm _ _

/-- A package that meets the laws with no security: keys are byte strings and are added to
the data. -/
def CryptoPackage.additive : CryptoPackage where
  PublicKey := Bytes
  PrivateKey := Bytes
  publicKey := id
  exportKey := id
  importKey := .ok
  import_export := ok_id
  multiply a b := intFromBytes a * intFromBytes b
  multiply_comm := multiply_id_comm
  hkdf master salt := (master ++ salt ++ List.replicate 32 0).take 32
  hkdf_length master salt := by
    rw [List.length_take, List.length_append, List.length_replicate]
    omega
  aesEncrypt key _ data := .ok (data.map fun b => b + key.sum)
  aesDecrypt key _ data := .ok (data.map fun b => b - key.sum)
  decrypt_encrypt key nonce data _ _ := by
    refine ⟨_, rfl, List.length_map _, ?_⟩
    rw [List.map_map]
    exact congrArg Except.ok (List.map_id'' (fun b => by simp) data)

/-- The random values of an encryption: the sender's key and the nonce, and the time at
which the message is made. `make_nonce` returns 12 bytes. -/
structure Fresh (package : CryptoPackage) where
  privateKey : package.PrivateKey
  nonce : Bytes
  now : ℤ
  nonce_length : nonce.length = 12

theorem Fresh.nonce_ne_nil {package : CryptoPackage} (fresh : Fresh package) :
    fresh.nonce ≠ [] := by
  intro empty
  have length := fresh.nonce_length
  rw [empty] at length
  cases length

section Keys

variable (package : CryptoPackage)

/-- `ECDHPrivateKey.exchange`, of a public key and a salt. -/
def exchange (privateKey : package.PrivateKey) (publicKey : package.PublicKey) (salt : Bytes) :
    Bytes :=
  package.hkdf (toString (package.multiply publicKey privateKey)).toUTF8.data.toList salt

/-- Both ends derive the same key. -/
theorem exchange_comm (a b : package.PrivateKey) (salt : Bytes) :
    exchange package a (package.publicKey b) salt =
      exchange package b (package.publicKey a) salt := by
  rw [exchange, exchange, package.multiply_comm]

/-- `ECDHPublicKey.cbor`. -/
def publicKeyCbor (key : package.PublicKey) : List (ℤ × Value) :=
  [(0, .int 1), (5, .bytes (package.exportKey key))]

/-- `KeySystem.load_public`: a key of another kind is not loaded. -/
def loadPublic (cbor : Value) : Py (Option package.PublicKey) :=
  match cbor with
  | .dict entries =>
    match entries.lookup 0 with
    | none => .error .keyError
    | some keyType =>
      if keyType.number? = some 1 then
        match entries.lookup 5 with
        | none => .error .keyError
        | some (.bytes data) => some <$> package.importKey data
        | some _ => .error .typeError
      else .ok none
  | _ => .error .typeError

/-- `HalfKeyMap.to_key`. -/
def toKey (halfKey : Value) : Py (Option package.PublicKey) := do
  loadPublic package (← halfKey.asCborDict)

variable (builtins : Builtins)

/-- `create_HKM`, without a key type. -/
def createHKM (publicDict : List (ℤ × Value)) : Py Value :=
  let mapDict := if (publicDict.map Prod.fst).contains 0 then publicDict
    else (0, .enum (.halfKeyType .diffieHellman)) :: publicDict
  Value.fromCborDict builtins 0 (.dict mapDict) .halfKeyMap

/-- `HalfKeyMap.from_key`. -/
def fromKey (key : package.PublicKey) : Py Value := createHKM builtins (publicKeyCbor package key)

/-- The half key map of a public key. -/
def halfKeyMap (key : package.PublicKey) : Value :=
  .object .halfKeyMap [.enum (.halfKeyType .ecdh), .none, .none, .none, .none,
    .bytes (package.exportKey key)]

theorem fromKey_eq (key : package.PublicKey) :
    fromKey package builtins key = .ok (halfKeyMap package key) := by
  have pem : builtins.call .bytes (.bytes (package.exportKey key)) =
      .ok (.bytes (package.exportKey key)) := builtins.call_isScalar _ _ rfl
  simp [fromKey, createHKM, publicKeyCbor, Value.fromCborDict, Value.convertEntries, Value.convert,
    Value.convertAtom, Value.number?, EnumKind.ofValue, HalfKeyTypeEnum.ofValue, Value.buildClass,
    Value.readFields, Value.readDict, List.lookup_cons, Value.construct, Value.initField, halfKeyMap,
    ClassName.schema, pem]
  rfl

/-- A half key map carries its key. -/
theorem toKey_halfKeyMap (key : package.PublicKey) :
    toKey package (halfKeyMap package key) = .ok (some key) := by
  have loaded : toKey package (halfKeyMap package key) =
      some <$> package.importKey (package.exportKey key) := rfl
  rw [loaded, package.import_export]
  rfl

end Keys

/-! ### Encryption and decryption -/

section Messages

variable (package : CryptoPackage) (cbor : Cbor2) (builtins : Builtins) (now : ℤ)

/-- The exceptions that `decrypt_data` catches. -/
def isDecryptError : PyError → Bool
  | .valueError _ | .keyError => true
  | _ => false

/-- The key that `decrypt_data` decrypts with: that of the message, if it carries one. -/
def senderKey (encryptedMsg : PrismMessage) (pubKey : Option package.PublicKey) :
    Py (Option package.PublicKey) :=
  if (encryptedMsg.get .halfKey).truthy then toKey package (encryptedMsg.get .halfKey)
  else .ok pubKey

/-- `decrypt_data`. -/
def decryptData (encryptedMsg : PrismMessage) (privateKey : package.PrivateKey)
    (pubKey : Option package.PublicKey) : Py (Option Bytes) := do
  match ← senderKey package encryptedMsg pubKey, (encryptedMsg.get .ciphertext).bytes?,
    (encryptedMsg.get .nonce).bytes? with
  | some pubKey, some ciphertext, some nonce =>
    if ciphertext = [] ∨ nonce = [] then return none
    else
      match package.aesDecrypt (exchange package privateKey pubKey []) nonce ciphertext with
      | .ok plaintext => return some plaintext
      | .error e => if isDecryptError e then return none else throw e
  | _, _, _ => return none

/-- `decrypt`: any exception while decoding is caught. -/
def decrypt (encryptedMsg : PrismMessage) (privateKey : package.PrivateKey)
    (pubKey : Option package.PublicKey) : Py (Option PrismMessage) := do
  match ← decryptData package encryptedMsg privateKey pubKey with
  | none => return none
  | some plaintext =>
    match PrismMessage.decode cbor builtins now plaintext with
    | .ok message => return message
    | .error _ => return none

/-- `encrypt_data`. -/
def encryptData (plaintext : Bytes) (privateKey : package.PrivateKey)
    (peerKey : package.PublicKey) (nonce : Bytes) : Py Bytes :=
  package.aesEncrypt (exchange package privateKey peerKey []) nonce plaintext

/-- `encrypt`. -/
def encrypt (message : PrismMessage) (privateKey : package.PrivateKey)
    (peerKey : package.PublicKey) (nonce : Bytes) : Py Bytes := do
  encryptData package (← message.encode cbor) privateKey peerKey nonce

/-- The message carries data encrypted for the owner of a private key: its half key and
nonce are those that the ciphertext was made with. -/
def Encrypted (m : PrismMessage) (owner : package.PrivateKey) (data : Bytes) : Prop :=
  ∃ (sender : package.PrivateKey) (nonce ciphertext : Bytes), nonce ≠ [] ∧ ciphertext ≠ [] ∧
    m.get .halfKey = halfKeyMap package (package.publicKey sender) ∧
    m.get .nonce = .bytes nonce ∧ m.get .ciphertext = .bytes ciphertext ∧
    package.aesDecrypt (exchange package sender (package.publicKey owner) []) nonce ciphertext =
      .ok data

variable {package} {cbor} {builtins} {now}

/-- What `encrypt_data` returns on some data. -/
theorem encryptData_ok {data : Bytes} (ne : data ≠ []) (privateKey : package.PrivateKey)
    (peerKey : package.PublicKey) {nonce : Bytes} (nonce_ne : nonce ≠ []) :
    ∃ ciphertext, encryptData package data privateKey peerKey nonce = .ok ciphertext ∧
      ciphertext ≠ [] ∧
      package.aesDecrypt (exchange package privateKey peerKey []) nonce ciphertext = .ok data := by
  obtain ⟨ciphertext, run, length, back⟩ := package.decrypt_encrypt
    (exchange package privateKey peerKey []) nonce data (package.hkdf_length _ _) nonce_ne
  refine ⟨ciphertext, run, ?_, back⟩
  rintro rfl
  exact ne (List.eq_nil_of_length_eq_zero length.symm)

/-- What `encrypt` returns on a typed message. -/
theorem encrypt_ok {m : PrismMessage} (typed : m.Typed) (privateKey : package.PrivateKey)
    (peerKey : package.PublicKey) {nonce : Bytes} (nonce_ne : nonce ≠ []) :
    ∃ data ciphertext, encrypt package cbor m privateKey peerKey nonce = .ok ciphertext ∧
      ciphertext ≠ [] ∧
      package.aesDecrypt (exchange package privateKey peerKey []) nonce ciphertext = .ok data ∧
      ∀ now, PrismMessage.decode cbor builtins now data = .ok (some m) := by
  obtain ⟨data, encoded, data_ne, -⟩ := PrismMessage.decode_encode cbor builtins 0 typed
  obtain ⟨ciphertext, run, ne, back⟩ := encryptData_ok data_ne privateKey peerKey nonce_ne
  refine ⟨data, ciphertext, ?_, ne, back, fun now => ?_⟩
  · rw [encrypt, encoded, ok_bind, run]
  · obtain ⟨data', encoded', -, decoded⟩ := PrismMessage.decode_encode cbor builtins now typed
    rw [encoded] at encoded'
    cases encoded'
    exact decoded

/-- `decrypt_data` with the right key. -/
theorem decryptData_of_key {m : PrismMessage} {owner : package.PrivateKey}
    {pubKey : Option package.PublicKey} {sender : package.PublicKey} {nonce ciphertext data : Bytes}
    (key : senderKey package m pubKey = .ok (some sender)) (nonce_ne : nonce ≠ [])
    (ciphertext_ne : ciphertext ≠ []) (atNonce : m.get .nonce = .bytes nonce)
    (atCiphertext : m.get .ciphertext = .bytes ciphertext)
    (back : package.aesDecrypt (exchange package owner sender []) nonce ciphertext = .ok data) :
    decryptData package m owner pubKey = .ok (some data) := by
  rw [decryptData, key, ok_bind, atNonce, atCiphertext]
  simp only [Value.bytes?, ciphertext_ne, nonce_ne, or_self, if_false]
  rw [back]
  rfl

/-- `decrypt` of what `decrypt_data` returns. -/
theorem decrypt_of_data {m inner : PrismMessage} {owner : package.PrivateKey}
    {pubKey : Option package.PublicKey} {data : Bytes}
    (decrypted : decryptData package m owner pubKey = .ok (some data))
    (decoded : PrismMessage.decode cbor builtins now data = .ok (some inner)) :
    decrypt package cbor builtins now m owner pubKey = .ok (some inner) := by
  simp only [decrypt, decrypted, ok_bind, decoded]
  rfl

/-- **Who has the private key decrypts the data.** -/
theorem Encrypted.decryptData_eq {m : PrismMessage} {owner : package.PrivateKey} {data : Bytes}
    (encrypted : Encrypted package m owner data) :
    decryptData package m owner none = .ok (some data) := by
  obtain ⟨sender, nonce, ciphertext, nonce_ne, ciphertext_ne, halfKey, atNonce, atCiphertext,
    back⟩ := encrypted
  have key : senderKey package m none = .ok (some (package.publicKey sender)) := by
    rw [senderKey, halfKey, if_pos (show (halfKeyMap package _).truthy = true from rfl),
      toKey_halfKeyMap]
  apply decryptData_of_key key nonce_ne ciphertext_ne atNonce atCiphertext
  rw [exchange_comm, back]

/-- The same for a message. -/
theorem Encrypted.decrypt_eq {m inner : PrismMessage} {owner : package.PrivateKey} {data : Bytes}
    (encrypted : Encrypted package m owner data)
    (decoded : PrismMessage.decode cbor builtins now data = .ok (some inner)) :
    decrypt package cbor builtins now m owner none = .ok (some inner) :=
  decrypt_of_data encrypted.decryptData_eq decoded

end Messages

/-! ### Encrypting for a server -/

/-- A server, by its announcement. -/
structure ServerRecord where
  ark : PrismMessage

section Server

variable (package : CryptoPackage) (cbor : Cbor2) (builtins : Builtins)

namespace ServerRecord

/-- `ServerRecord.public_key`: the key of the server itself, or that of the party of a
committee. The party 0 is false in Python. -/
def publicKey (server : ServerRecord) (partyId : Option ℕ) : Py (Option package.PublicKey) :=
  match partyId with
  | none | some 0 => toKey package (server.ark.get .halfKey)
  | some i =>
    match server.ark.get .workerKeys with
    | .list keys =>
      match keys[i]? with
      | some key => toKey package key
      | none => .error .indexError
    | _ => .error .typeError

end ServerRecord

def emixRoles : List String := ["EMIX"]

def dropboxRoles : List String := ["DROPBOX", "DROPBOX_LF"]

/-- The type of a message that is encrypted for a server. -/
def encryptedType (server : ServerRecord) : TypeEnum :=
  match server.ark.get .role with
  | .str role =>
    if role ∈ emixRoles then .encryptEmixMessage
    else if role ∈ dropboxRoles then .encryptDropboxMessage
    else .encryptPeerMessage
  | _ => .encryptPeerMessage

/-- The fields of a message that is encrypted for a server. -/
def encryptedFields (server : ServerRecord) (ciphertext : Bytes) (halfKey : Value) (nonce : Bytes)
    (partyId : Option ℕ) (includePseudonym : Bool) : List (FieldName × Value) :=
  [(.cipher, .enum (.cipher .aesGcm)), (.ciphertext, .bytes ciphertext), (.halfKey, halfKey),
    (.nonce, .bytes nonce)] ++
    (if includePseudonym then [(.pseudonym, server.ark.get .pseudonym)] else []) ++
    (match partyId with
      | some i => [(.partyId, .int i)]
      | none => [])

/-- `encrypt_message`, for a server. -/
def encryptMessage (server : ServerRecord) (message : PrismMessage) (partyId : Option ℕ)
    (includePseudonym : Bool) (fresh : Fresh package) : Py PrismMessage := do
  match ← server.publicKey package partyId with
  | none => throw .attributeError
  | some publicKey =>
    let ciphertext ← encrypt package cbor message fresh.privateKey publicKey fresh.nonce
    let halfKey ← createHKM builtins (publicKeyCbor package (package.publicKey fresh.privateKey))
    return PrismMessage.create fresh.now (encryptedType server)
      (encryptedFields server ciphertext halfKey fresh.nonce partyId includePseudonym)

variable {package} {cbor} {builtins}

/-- What `encrypt_message` makes of a typed message: a typed message that the owner of the
server's key decrypts to it. -/
theorem encryptMessage_ok {server : ServerRecord} {message : PrismMessage} {partyId : Option ℕ}
    {includePseudonym : Bool} {owner : package.PrivateKey} (fresh : Fresh package)
    (key : server.publicKey package partyId = .ok (some (package.publicKey owner)))
    (typed : message.Typed)
    (pseudonym : argumentTyped .prismMessage (.pseudonym, server.ark.get .pseudonym) = true) :
    ∃ m data, encryptMessage package cbor builtins server message partyId includePseudonym fresh =
        .ok m ∧ m.Typed ∧ Encrypted package m owner data ∧
      (∀ now, PrismMessage.decode cbor builtins now data = .ok (some message)) ∧
      m.get .partyId = (partyId.elim .none fun i => .int i) ∧ m.get .debugInfo = .none := by
  obtain ⟨data, ciphertext, run, ciphertext_ne, back, decoded⟩ := @encrypt_ok package cbor builtins
    message typed fresh.privateKey (package.publicKey owner) fresh.nonce fresh.nonce_ne_nil
  have halfKey := fromKey_eq package builtins (package.publicKey fresh.privateKey)
  rw [fromKey] at halfKey
  set fields := encryptedFields server ciphertext
    (halfKeyMap package (package.publicKey fresh.privateKey)) fresh.nonce partyId includePseudonym
    with hfields
  have fieldsTyped : ∀ arg ∈ fields, argumentTyped .prismMessage arg = true := by
    intro arg mem
    simp only [hfields, encryptedFields, List.mem_append, List.mem_cons, List.not_mem_nil,
      or_false] at mem
    rcases mem with ((rfl | rfl | rfl | rfl) | mem) | mem
    · rfl
    · rfl
    · rfl
    · rfl
    · split at mem
      · rw [List.mem_singleton.mp mem]
        exact pseudonym
      · cases mem
    · split at mem
      · rw [List.mem_singleton.mp mem]
        rfl
      · cases mem
  refine ⟨PrismMessage.create fresh.now (encryptedType server) fields, data, ?_,
    PrismMessage.typed_create fieldsTyped, ⟨fresh.privateKey, fresh.nonce, ciphertext,
    fresh.nonce_ne_nil, ciphertext_ne, rfl, rfl, rfl, back⟩, decoded, ?_, ?_⟩
  · simp only [encryptMessage, key, ok_bind, run, halfKey]
    rfl
  · cases includePseudonym <;> cases partyId <;> rfl
  · cases includePseudonym <;> cases partyId <;> rfl

/-- The message that `encrypt_message` returns, by its fields. -/
theorem eq_of_encryptMessage {server : ServerRecord} {message m : PrismMessage}
    {partyId : Option ℕ} {includePseudonym : Bool} {fresh : Fresh package}
    (run : encryptMessage package cbor builtins server message partyId includePseudonym fresh =
      .ok m) :
    ∃ ciphertext halfKey, m = PrismMessage.create fresh.now (encryptedType server)
      (encryptedFields server ciphertext halfKey fresh.nonce partyId includePseudonym) := by
  obtain ⟨key, -, run⟩ := bind_eq_ok.mp run
  cases key with
  | none => cases run
  | some publicKey =>
      obtain ⟨ciphertext, -, run⟩ := bind_eq_ok.mp run
      obtain ⟨halfKey, -, run⟩ := bind_eq_ok.mp run
      exact ⟨ciphertext, halfKey, (Except.ok.inj run).symm⟩

end Server

end Prism.Crypto
