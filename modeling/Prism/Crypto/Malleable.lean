import Prism.Crypto.ServerMessage
import Prism.Message.Cbor

/-!
Ciphertexts that were altered (`prism/common/crypto/server_message.py`).

The messages are encrypted with AES in GCM mode, but the tag that the mode computes is neither sent
nor checked. Without it the mode XORs the data with a stream of bytes that depends on the key and
on the nonce (`StreamCipher`). So an altered ciphertext is decrypted like any other, to the data
with the same bits flipped, and who knows the data can put any other of the same length in its
place.

* `decryptData_altered`: what a ciphertext decrypts to, altered or not.
* `decrypt_substituted`: a message is replaced by another one without any key.
* `rejects_altered_iff`: an altered ciphertext is rejected exactly when nothing is left of it.
-/

namespace Prism.Crypto

/-! ### Streams -/

/-- The XOR of some data with a stream. -/
def xorStream (stream : ℕ → UInt8) (data : Bytes) : Bytes :=
  data.mapIdx fun i b => b ^^^ stream i

/-- The XOR of two byte strings, byte by byte. -/
def xorBytes (a b : Bytes) : Bytes := List.zipWith (· ^^^ ·) a b

section Streams

variable (stream : ℕ → UInt8)

@[simp] theorem length_xorStream (data : Bytes) : (xorStream stream data).length = data.length :=
  List.length_mapIdx

@[simp] theorem xorStream_xorStream (data : Bytes) :
    xorStream stream (xorStream stream data) = data := by
  unfold xorStream
  rw [List.mapIdx_mapIdx]
  refine List.ext_getElem (List.length_mapIdx) fun i _ _ => ?_
  rw [List.getElem_mapIdx, Function.comp_apply, UInt8.xor_assoc, UInt8.xor_self, UInt8.xor_zero]

@[simp] theorem xorStream_eq_nil {data : Bytes} : xorStream stream data = [] ↔ data = [] := by
  rw [← List.length_eq_zero_iff, length_xorStream, List.length_eq_zero_iff]

/-- Flipping bits before or after the stream is XORed comes to the same. -/
theorem xorStream_xorBytes {data flips : Bytes} :
    xorStream stream (xorBytes data flips) = xorBytes (xorStream stream data) flips := by
  refine List.ext_getElem (by simp [xorBytes]) fun i _ _ => ?_
  simp only [xorStream, xorBytes, List.getElem_mapIdx, List.getElem_zipWith]
  rw [UInt8.xor_assoc, UInt8.xor_assoc, UInt8.xor_comm (stream i)]

theorem xorBytes_cancel {a b : Bytes} (same : a.length = b.length) :
    xorBytes a (xorBytes a b) = b := by
  refine List.ext_getElem (by simp [xorBytes, same]) fun i _ _ => ?_
  simp only [xorBytes, List.getElem_zipWith, ← UInt8.xor_assoc, UInt8.xor_self, UInt8.zero_xor]

end Streams

/-- AES in GCM mode, without its tag: the data are XORed with a stream, and there is no encryption
without a nonce. -/
structure StreamCipher (package : CryptoPackage) where
  stream : Bytes → Bytes → ℕ → UInt8
  encrypt_eq : ∀ key nonce data, key.length = 32 → nonce ≠ [] →
    package.aesEncrypt key nonce data = .ok (xorStream (stream key nonce) data)
  decrypt_eq : ∀ key nonce data, key.length = 32 → nonce ≠ [] →
    package.aesDecrypt key nonce data = .ok (xorStream (stream key nonce) data)
  nonce_ne_nil : ∀ key nonce data ciphertext,
    package.aesEncrypt key nonce data = .ok ciphertext → nonce ≠ []

/-- A package whose cipher is such, with no security. -/
def CryptoPackage.xoring : CryptoPackage where
  PublicKey := Bytes
  PrivateKey := Bytes
  publicKey := id
  exportKey := id
  importKey := .ok
  import_export := ok_id
  multiply a b := intFromBytes a * intFromBytes b
  multiply_comm := multiply_id_comm
  hkdf _ _ := List.replicate 32 0
  hkdf_length _ _ := List.length_replicate
  aesEncrypt _ nonce data :=
    if nonce = [] then .error (.valueError "Nonce cannot be empty")
    else .ok (xorStream (fun i => nonce.sum + UInt8.ofNat i) data)
  aesDecrypt _ nonce data := .ok (xorStream (fun i => nonce.sum + UInt8.ofNat i) data)
  decrypt_encrypt _ nonce data _ nonce_ne := by
    refine ⟨_, if_neg nonce_ne, length_xorStream _ _, ?_⟩
    rw [xorStream_xorStream]

/-- The cipher of that package. -/
def xoringCipher : StreamCipher CryptoPackage.xoring where
  stream _ nonce i := nonce.sum + UInt8.ofNat i
  encrypt_eq _ _ _ _ nonce_ne := if_neg nonce_ne
  decrypt_eq _ _ _ _ _ := rfl
  nonce_ne_nil _ nonce _ _ run := by
    rintro rfl
    cases run

/-! ### Altered messages -/

section Altered

variable {package : CryptoPackage} {cbor : Cbor2} {builtins : Builtins}
  {sender owner : package.PrivateKey} {nonce ciphertext altered : Bytes} {m : PrismMessage}

/-- The message has the half key of a sender, a nonce and a ciphertext. -/
structure CarriesCiphertext (package : CryptoPackage) (m : PrismMessage)
    (sender : package.PrivateKey) (nonce ciphertext : Bytes) : Prop where
  halfKey : m.get .halfKey = halfKeyMap package (package.publicKey sender)
  nonce : m.get .nonce = .bytes nonce
  ciphertext : m.get .ciphertext = .bytes ciphertext

/-- The ciphertext is one that `encrypt_data` or `encrypt` made for the owner of a key. -/
def Produced (cbor : Cbor2) (sender owner : package.PrivateKey) (nonce ciphertext : Bytes) : Prop :=
  (∃ data, encryptData package data sender (package.publicKey owner) nonce = .ok ciphertext) ∨
    ∃ message, encrypt package cbor message sender (package.publicKey owner) nonce = .ok ciphertext

/-- `encrypt` encrypts the encoding of a message. -/
theorem Produced.data (produced : Produced cbor sender owner nonce ciphertext) :
    ∃ data, encryptData package data sender (package.publicKey owner) nonce = .ok ciphertext := by
  rcases produced with made | ⟨message, run⟩
  · exact made
  · obtain ⟨data, -, run⟩ := bind_eq_ok.mp run
    exact ⟨data, run⟩

/-- The stream between a sender and the owner of a key. -/
def StreamCipher.between (cipher : StreamCipher package) (sender owner : package.PrivateKey)
    (nonce : Bytes) : ℕ → UInt8 :=
  cipher.stream (exchange package sender (package.publicKey owner) []) nonce

/-- **What a ciphertext decrypts to**, whoever made it: there is always something. -/
theorem decryptData_altered (cipher : StreamCipher package) (owner : package.PrivateKey)
    (carries : CarriesCiphertext package m sender nonce altered) (nonce_ne : nonce ≠ [])
    (ne : altered ≠ []) (pubKey : Option package.PublicKey) :
    decryptData package m owner pubKey =
      .ok (some (xorStream (cipher.between sender owner nonce) altered)) := by
  have key : senderKey package m pubKey = .ok (some (package.publicKey sender)) := by
    rw [senderKey, carries.halfKey, if_pos (show (halfKeyMap package _).truthy = true from rfl),
      toKey_halfKeyMap]
  refine decryptData_of_key key nonce_ne ne carries.nonce carries.ciphertext ?_
  rw [← exchange_comm]
  exact cipher.decrypt_eq _ nonce altered (package.hkdf_length _ _) nonce_ne

/-- A message without a ciphertext is not decrypted. -/
theorem decryptData_empty (owner : package.PrivateKey)
    (carries : CarriesCiphertext package m sender nonce [])
    (pubKey : Option package.PublicKey) : decryptData package m owner pubKey = .ok none := by
  have key : senderKey package m pubKey = .ok (some (package.publicKey sender)) := by
    rw [senderKey, carries.halfKey, if_pos (show (halfKeyMap package _).truthy = true from rfl),
      toKey_halfKeyMap]
  rw [decryptData, key, ok_bind, carries.nonce, carries.ciphertext]
  rfl

/-- What `encrypt_data` makes of some data. -/
theorem encryptData_eq (cipher : StreamCipher package) {data : Bytes}
    (run : encryptData package data sender (package.publicKey owner) nonce = .ok ciphertext) :
    nonce ≠ [] ∧ ciphertext = xorStream (cipher.between sender owner nonce) data := by
  have nonce_ne := cipher.nonce_ne_nil _ _ _ _ run
  have made := cipher.encrypt_eq _ nonce data
    (package.hkdf_length _ _ : (exchange package sender (package.publicKey owner) []).length = 32)
    nonce_ne
  exact ⟨nonce_ne, Except.ok.inj (run.symm.trans made)⟩

/-- **A message is replaced by another one without any key**: who knows the data of a ciphertext
makes the one for other data of the same length. -/
theorem decrypt_substituted (cipher : StreamCipher package) {data other : Bytes}
    {inner : PrismMessage}
    (run : encryptData package data sender (package.publicKey owner) nonce = .ok ciphertext)
    (carries : CarriesCiphertext package m sender nonce
      (xorBytes ciphertext (xorBytes data other)))
    (same : data.length = other.length) (ne : other ≠ []) {now : ℤ}
    (decoded : PrismMessage.decode cbor builtins now other = .ok (some inner)) :
    decrypt package cbor builtins now m owner none = .ok (some inner) := by
  obtain ⟨nonce_ne, rfl⟩ := encryptData_eq cipher run
  have turned : xorBytes (xorStream (cipher.between sender owner nonce) data) (xorBytes data other) =
      xorStream (cipher.between sender owner nonce) other := by
    rw [← xorStream_xorBytes, xorBytes_cancel same]
  rw [turned] at carries
  refine decrypt_of_data ?_ decoded
  rw [decryptData_altered cipher owner carries nonce_ne (by simpa using ne) none, xorStream_xorStream]

/-- The message is not decrypted: neither to data nor to a message. -/
def Rejected (cbor : Cbor2) (builtins : Builtins) (now : ℤ) (owner : package.PrivateKey)
    (pubKey : Option package.PublicKey) (m : PrismMessage) : Prop :=
  decryptData package m owner pubKey = .ok none ∧
    decrypt package cbor builtins now m owner pubKey = .ok none

/-- **An altered ciphertext is rejected exactly when nothing is left of it.** -/
theorem rejects_altered_iff (cipher : StreamCipher package)
    (produced : Produced cbor sender owner nonce ciphertext)
    (carries : CarriesCiphertext package m sender nonce altered)
    (pubKey : Option package.PublicKey) (now : ℤ) :
    (altered ≠ ciphertext → Rejected cbor builtins now owner pubKey m) ↔
      altered = ciphertext ∨ altered = [] := by
  obtain ⟨data, run⟩ := produced.data
  obtain ⟨nonce_ne, -⟩ := encryptData_eq cipher run
  constructor
  · intro rejects
    by_contra accepted
    obtain ⟨other, ne⟩ := not_or.mp accepted
    have decrypted := decryptData_altered cipher owner carries nonce_ne ne pubKey
    rw [(rejects other).1] at decrypted
    cases decrypted
  · rintro (same | rfl) other
    · exact absurd same other
    · have empty := decryptData_empty owner carries pubKey
      refine ⟨empty, ?_⟩
      rw [decrypt, empty, ok_bind]
      rfl

end Altered

/-- A message with a ciphertext, for the nonce 7 and the sender's key 1. -/
def carrying (ciphertext : Bytes) : PrismMessage :=
  PrismMessage.create 0 .encryptDropboxMessage [(.ciphertext, .bytes ciphertext),
    (.halfKey, halfKeyMap CryptoPackage.xoring [1]), (.nonce, .bytes [7])]

theorem carrying_carries (ciphertext : Bytes) :
    CarriesCiphertext CryptoPackage.xoring (carrying ciphertext) [1] [7] ciphertext :=
  ⟨rfl, rfl, rfl⟩

/-- Nothing is left of the ciphertext of one byte. -/
theorem emptied_rejected :
    @Rejected CryptoPackage.xoring Cbor.package Builtins.strict 0 [2] none (carrying []) :=
  have produced : @Produced CryptoPackage.xoring Cbor.package [1] [2] [7] [70] := .inl ⟨[65], rfl⟩
  (rejects_altered_iff xoringCipher produced (carrying_carries []) none 0).mpr (.inr rfl)
    (by decide)

/-- **One bit is flipped, and another byte is read.** -/
theorem flipped_bit_accepted :
    encryptData CryptoPackage.xoring [65] [1] [2] [7] = .ok [70] ∧
      decryptData CryptoPackage.xoring (carrying [71]) [2] none = .ok (some [64]) ∧
      ¬ @Rejected CryptoPackage.xoring Cbor.package Builtins.strict 0 [2] none (carrying [71]) := by
  have read : decryptData CryptoPackage.xoring (carrying [71]) [2] none = .ok (some [64]) :=
    decryptData_altered xoringCipher [2] (carrying_carries [71]) (by decide) (by decide) none
  refine ⟨rfl, read, fun rejected => ?_⟩
  have none_read := rejected.1
  rw [read] at none_read
  cases none_read

end Prism.Crypto
