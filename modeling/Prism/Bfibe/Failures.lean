import Prism.Bfibe.MessageFormat
import Prism.Bfibe.Stream
import Prism.Crypto.ServerMessage

/-!
Messages that cannot be decrypted (`decrypt_ibe` in `bfibe/src/api.c`, `decrypt_raw` in
`prism/common/crypto/ibe/boneh_franklin.py`, and `prism/common/crypto/ibe/ibe.py`).

`bf_decrypt` checks what it decrypted against the point of the message. When the check fails it
clears the buffer and returns false. Its caller does not look at that, and returns the buffer. So
what Python gets is as many zeros as the message has bytes, and uses them as a key.

* `fromBytes_of_parseMessage`: a message that is accepted is the one that is decrypted.
* `failed_check_unreported`: a failed check is not reported, by any layer.
-/

namespace Prism.Bfibe

open Crypto

section

variable {G T : Type} [AddCommGroup G] [CommGroup T] {pbc : Pbc G T}

namespace BFPublicParameters

variable {params : BFPublicParameters pbc} {format : PointFormat pbc} {data : Bytes}

/-- **A message that is accepted** is the one that `bf_message_from_bytes` hands over. -/
theorem fromBytes_of_parseMessage {message : BFMessage G}
    (accepted : params.parseMessage format data = some (some message)) :
    params.bfMessageFromBytes data = some message := by
  have enough : 9 ≤ data.length := by
    by_contra short
    rw [parseMessage_short (by omega)] at accepted
    cases accepted
  have level : levelOf data = [params.security.level] := by
    by_contra other
    rw [parseMessage_refused enough other] at accepted
    cases accepted
  rw [parseMessage_eq enough level] at accepted
  split_ifs at accepted with fits
  obtain rfl := Option.some.inj (Option.some.inj accepted)
  unfold formatLength at fits
  have first : (data.drop 8).headD 0 = params.security.level := by
    unfold levelOf at level
    cases rest : data.drop 8 with
    | nil =>
        rw [rest] at level
        cases level
    | cons b rest' =>
        rw [rest] at level
        exact (List.cons.inj level).1
  have room : format.elementLength ≤ (data.drop 9).length := by
    rw [List.length_drop]
    omega
  rw [bfMessageFromBytes]
  dsimp only
  rw [if_neg (not_not.mpr first), List.drop_drop, format.read _ room, format.local_read _ room,
    List.drop_drop, List.drop_drop]
  rfl

variable (params) [DecidableEq G] (package : CryptoPackage)

/-! ### The layers -/

/-- `EncryptedMessage`. -/
structure EncryptedMessage where
  ciphertext : Bytes
  key : Bytes
  nonce : Bytes

/-- `BonehFranklin.decrypt_raw`: the length is handed over as an `int`, and there are no bytes
behind a null pointer. -/
def decryptRaw (key : G) (ciphertext : Bytes) : Py Bytes :=
  if 2 ^ 31 ≤ ciphertext.length then .error .overflowError
  else .ok ((params.decryptIbe key ciphertext).getD [])

/-- What `except (ValueError, KeyError)` makes of an exception. -/
def decryptionError : PyError → PyError
  | .valueError _ => .decryptException
  | .keyError => .decryptException
  | e => e

/-- `IdentityBasedEncryption.decrypt`. -/
def decrypt (key : G) (message : EncryptedMessage) : Py Bytes := do
  let raw ← params.decryptRaw key message.key
  match package.aesDecrypt raw message.nonce message.ciphertext with
  | .ok plaintext => return plaintext
  | .error e => throw (decryptionError e)

/-- **A failure is reported**: by a null pointer, and by exceptions. -/
def Reported (key : G) (message : EncryptedMessage) : Prop :=
  params.decryptIbe key message.key = none ∧ (∃ e, params.decryptRaw key message.key = .error e) ∧
    ∃ e, params.decrypt package key message = .error e

variable {params}

section Failed

variable {key : G} {message : EncryptedMessage} {parsed : BFMessage G}
  (accepted : params.parseMessage format message.key = some (some parsed))
  (failed : (params.bfDecrypt (List.replicate parsed.length 0) key parsed).1 = false)

include accepted failed

/-- The cleared buffer is returned. -/
theorem decryptIbe_of_failed :
    params.decryptIbe key message.key = some (List.replicate parsed.length 0) := by
  rw [decryptIbe, fromBytes_of_parseMessage accepted, Option.map_some]
  unfold bfDecrypt at failed ⊢
  dsimp only at failed ⊢
  split_ifs at failed ⊢
  rfl

theorem decryptRaw_of_failed (short : message.key.length < 2 ^ 31) :
    params.decryptRaw key message.key = .ok (List.replicate parsed.length 0) := by
  rw [decryptRaw, if_neg (not_le.mpr short), decryptIbe_of_failed accepted failed,
    Option.getD_some]

/-- The zeros are used as a key. -/
theorem decrypt_of_failed (short : message.key.length < 2 ^ 31) :
    params.decrypt package key message =
      (package.aesDecrypt (List.replicate parsed.length 0) message.nonce
        message.ciphertext).mapError decryptionError := by
  rw [decrypt, decryptRaw_of_failed accepted failed short, ok_bind]
  cases package.aesDecrypt (List.replicate parsed.length 0) message.nonce message.ciphertext <;>
    rfl

/-- **A failed check is not reported.** Whatever the message is, zeros are returned, and used as a
key. -/
theorem failed_check_unreported :
    ¬ params.Reported package key message ∧
      params.decryptIbe key message.key = some (List.replicate parsed.length 0) ∧
      (message.key.length < 2 ^ 31 →
        params.decryptRaw key message.key = .ok (List.replicate parsed.length 0) ∧
        params.decrypt package key message =
          (package.aesDecrypt (List.replicate parsed.length 0) message.nonce
            message.ciphertext).mapError decryptionError) := by
  have zeros := decryptIbe_of_failed accepted failed
  refine ⟨fun reported => ?_, zeros, fun short => ⟨?_, ?_⟩⟩
  · exact absurd (zeros.symm.trans reported.1) (Option.some_ne_none _)
  · exact decryptRaw_of_failed accepted failed short
  · exact decrypt_of_failed package accepted failed short

end Failed

end BFPublicParameters

end

/-! ### A message for somebody else -/

/-- A message of 16 bytes that was not encrypted to anybody. -/
def misaddressed : BFPublicParameters.EncryptedMessage where
  ciphertext := [7]
  key := [16] ++ List.replicate 7 0 ++ [1, 3] ++ List.replicate 36 0
  nonce := List.replicate 12 1

/-- What its key is parsed to. -/
def misaddressedKey : BFMessage (ZMod 5) := ⟨16, 3, List.replicate 20 0, List.replicate 16 0⟩

theorem misaddressed_parsed :
    exampleSystem.parseMessage exampleFormat misaddressed.key = some (some misaddressedKey) := by
  have accepted := (@BFPublicParameters.parseMessage_eq _ _ _ _ _ exampleSystem exampleFormat
    misaddressed.key (by decide +kernel) (by decide +kernel)).trans (if_pos (by decide +kernel))
  exact accepted

/-- The check fails. -/
theorem misaddressed_fails : (exampleSystem.bfDecrypt (List.replicate 16 0) 1
    misaddressedKey).1 = false := by
  unfold BFPublicParameters.bfDecrypt
  dsimp only
  rw [exampleSystem.security.hashToBytes_short (by decide +kernel) _ (by rfl)]
  decide +kernel

/-- It is not reported. -/
theorem misaddressed_unreported :
    ¬ exampleSystem.Reported .additive 1 misaddressed ∧
      exampleSystem.decryptIbe 1 misaddressed.key = some (List.replicate 16 0) ∧
      (misaddressed.key.length < 2 ^ 31 →
        exampleSystem.decryptRaw 1 misaddressed.key = .ok (List.replicate 16 0) ∧
        exampleSystem.decrypt .additive 1 misaddressed =
          (CryptoPackage.additive.aesDecrypt (List.replicate 16 0) misaddressed.nonce
            misaddressed.ciphertext).mapError BFPublicParameters.decryptionError) :=
  BFPublicParameters.failed_check_unreported _ misaddressed_parsed misaddressed_fails

/-- The message is decrypted with a key of zeros. -/
theorem misaddressed_decrypted :
    (exampleSystem.bfDecrypt (List.replicate 16 0) 1 misaddressedKey).1 = false ∧
      exampleSystem.decryptIbe 1 misaddressed.key ≠ none ∧
      exampleSystem.decryptRaw 1 misaddressed.key = .ok (List.replicate 16 0) ∧
      exampleSystem.decrypt .additive 1 misaddressed = .ok [7] := by
  have returned := BFPublicParameters.decryptIbe_of_failed misaddressed_parsed misaddressed_fails
  refine ⟨misaddressed_fails, fun null => absurd (returned.symm.trans null) nofun, ?_, ?_⟩
  · exact BFPublicParameters.decryptRaw_of_failed misaddressed_parsed misaddressed_fails
      (by decide +kernel)
  · rw [BFPublicParameters.decrypt_of_failed _ misaddressed_parsed misaddressed_fails
      (by decide +kernel)]
    rfl

end Prism.Bfibe
