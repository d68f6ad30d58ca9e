import Mathlib.Data.ZMod.Basic
import Prism.Bfibe.Export

/-!
Systems of several shards (`bfibe/src/api.c`).

Each shard of a system has a secret of its own. The public parameters of the shards are added up,
and so are the private keys that the shards make for an identity. The sums belong together: they
are those of one shard whose secret is the sum of the secrets (`withSecret`).

* `sumPublic_eq`, `sumSecrets_eq`: the sums of the shards.
* `fused_decrypts_iff`: with the sums, messages are decrypted exactly into buffers that are cleared
  behind the last full block.
* `decryptIbe_encryptIbe`: the API hands over a cleared buffer, and so it always decrypts.
-/

namespace Prism.Bfibe

section

variable {G T : Type} [AddCommGroup G] [CommGroup T] {pbc : Pbc G T}

namespace BFPublicParameters

/-! ### Systems and shards -/

/-- `bf_setup`: the curve that is drawn, its order `q` and cofactor `h`, and the random elements, of
which the first with a multiple other than zero gives `P`. -/
def bfSetup [DecidableEq G] (ssl : OpenSsl) (level : UInt8) (pbcPar : pbc.Par) (q h : ℕ)
    (elements : List G) (drawn : ℕ) : Option (BFPublicParameters pbc × ℕ) := do
  let security ← setupSecurity ssl level
  let P ← (elements.map (h • ·)).find? (· ≠ 0)
  return bfGenerateShard { security, pbcPar, P, pPub := 0, pPubPrecomp := 0, q } drawn

variable (ssl : OpenSsl) (params : BFPublicParameters pbc)

/-- `copy_params`: through the text. -/
def copyParams : Option (BFPublicParameters pbc) := fromString pbc ssl params.toString

/-- `generate_shard`. -/
def generateShard (drawn : ℕ) : Option (BFPublicParameters pbc × ℕ) :=
  (params.copyParams ssl).map (bfGenerateShard · drawn)

/-- `add_public`: nothing for parameters of another level or order. -/
def addPublic (params1 params2 : BFPublicParameters pbc) : Option (BFPublicParameters pbc) :=
  if params1.security.level ≠ params2.security.level ∨ params1.q ≠ params2.q then none
  else
    (params1.copyParams ssl).map fun copied =>
      let pPub := params1.pPub + params2.pPub
      { copied with pPub, pPubPrecomp := pPub }

/-- The parameters of several shards, added up from the first. -/
def sumPublic (first : BFPublicParameters pbc) (rest : List (BFPublicParameters pbc)) :
    Option (BFPublicParameters pbc) :=
  rest.foldlM (addPublic ssl) first

/-! ### Private keys -/

/-- `format_private_key`. -/
def formatPrivateKey (pbc : Pbc G T) (privateKey : G) : CString := pbc.elementPrint privateKey

/-- `parse_private_key`. A text that is no element leaves the zero that the key starts as. -/
def parsePrivateKey (pbc : Pbc G T) (keyString : CString) : G :=
  (pbc.elementSetStr keyString).getD 0

/-- `generate_private_key`. -/
def generatePrivateKey (secret : ℕ) (address : Bytes) : CString :=
  formatPrivateKey pbc (params.bfGeneratePrivateKey secret address)

/-- `add_secret`. -/
def addSecret (pbc : Pbc G T) (secret1 secret2 : CString) : CString :=
  formatPrivateKey pbc (parsePrivateKey pbc secret1 + parsePrivateKey pbc secret2)

/-- The private keys of several shards, added up from the first. -/
def sumSecrets (pbc : Pbc G T) (first : CString) (rest : List CString) : CString :=
  rest.foldl (addSecret pbc) first

/-! ### Encryption -/

/-- `encrypt_ibe`. -/
def encryptIbe (address message : Bytes) (randBytes : Option Bytes) : Option Bytes :=
  (params.bfEncrypt (params.bfGeneratePublicKey address) message randBytes).map
    params.bfMessageToBytes

/-- `decrypt_ibe`: into a buffer of zeros, whatever `bf_decrypt` returns. -/
def decryptIbe [DecidableEq G] (key : G) (ciphertext : Bytes) : Option Bytes :=
  (params.bfMessageFromBytes ciphertext).map fun msg =>
    (params.bfDecrypt (List.replicate msg.length 0) key msg).2

/-! ### Sums of shards -/

/-- The system with this secret. -/
def withSecret (s : ℕ) : BFPublicParameters pbc :=
  { params with pPub := s • params.P, pPubPrecomp := s • params.P }

variable {ssl params}

theorem copyParams_withSecret (secured : params.Secured ssl) (s : ℕ) :
    (params.withSecret s).copyParams ssl = some (params.withSecret s) :=
  (params.withSecret s).fromString_toString secured

theorem generateShard_eq (secured : params.Secured ssl) (drawn : ℕ) :
    params.generateShard ssl drawn = some (params.withSecret (drawn + 2), drawn + 2) := by
  rw [generateShard, copyParams, params.fromString_toString secured]
  rfl

theorem addPublic_eq (secured : params.Secured ssl) (s₁ s₂ : ℕ) :
    addPublic ssl (params.withSecret s₁) (params.withSecret s₂) =
      some (params.withSecret (s₁ + s₂)) := by
  have same : ¬ ((params.withSecret s₁).security.level ≠ (params.withSecret s₂).security.level ∨
      (params.withSecret s₁).q ≠ (params.withSecret s₂).q) := fun h => h.elim (· rfl) (· rfl)
  rw [addPublic, if_neg same, copyParams_withSecret secured, Option.map_some]
  simp only [withSecret, add_nsmul]

/-- The public parameters of the shards add up to those of the summed secret. -/
theorem sumPublic_eq (secured : params.Secured ssl) (s : ℕ) (secrets : List ℕ) :
    sumPublic ssl (params.withSecret s) (secrets.map params.withSecret) =
      some (params.withSecret (s + secrets.sum)) := by
  induction secrets generalizing s with
  | nil => rfl
  | cons s' secrets ih =>
      have added := ih (s + s')
      rw [sumPublic] at added ⊢
      rw [List.map_cons, List.foldlM_cons, addPublic_eq secured, Option.bind_eq_bind,
        Option.bind_some, added, List.sum_cons, Nat.add_assoc]

@[simp] theorem parse_format (key : G) : parsePrivateKey pbc (formatPrivateKey pbc key) = key := by
  have read := pbc.setStr_print key []
  rw [List.append_nil] at read
  rw [parsePrivateKey, formatPrivateKey, read, Option.getD_some]

/-- The private keys of the shards add up to the one of the summed secret. -/
theorem sumSecrets_eq (Q : G) (s : ℕ) (secrets : List ℕ) :
    sumSecrets pbc (formatPrivateKey pbc (s • Q))
        (secrets.map fun s => formatPrivateKey pbc (s • Q)) =
      formatPrivateKey pbc ((s + secrets.sum) • Q) := by
  induction secrets generalizing s with
  | nil => rfl
  | cons s' secrets ih =>
      have added := ih (s + s')
      rw [sumSecrets] at added ⊢
      rw [List.map_cons, List.foldl_cons, addSecret, parse_format, parse_format, ← add_nsmul, added,
        List.sum_cons, Nat.add_assoc]

/-- The mask of the sender and the one of the receiver, in the system with a secret. -/
theorem withSecret_mask (s l : ℕ) (Q : G) :
    (params.withSecret s).pairing.pair (params.withSecret s).pPubPrecomp Q ^ l =
      (params.withSecret s).pairing.pair (l • (params.withSecret s).P) (s • Q) :=
  params.pairing.pair_mask s l params.P Q

end BFPublicParameters

end

/-! ### A small system -/

/-- A hash function by its length alone. -/
def HashFn.ofLength (hashlen : ℕ) (pos : 0 < hashlen) : HashFn where
  digest data := (data ++ List.replicate hashlen 0).take hashlen
  hashlen := hashlen
  hashlen_pos := pos
  length_digest data := by
    rw [List.length_take, List.length_append, List.length_replicate]
    omega

/-- Hash functions with the lengths of OpenSSL's. -/
def exampleSsl : OpenSsl where
  sha1 := .ofLength 20 (by decide)
  sha224 := .ofLength 28 (by decide)
  sha256 := .ofLength 32 (by decide)
  sha384 := .ofLength 48 (by decide)
  sha512 := .ofLength 64 (by decide)
  sha1_length := rfl
  sha224_length := rfl
  sha256_length := rfl
  sha384_length := rfl
  sha512_length := rfl

theorem byte_read : ∀ P : ZMod 5, (((UInt8.ofNat (ZMod.val P)).toNat : ℕ) : ZMod 5) = P := by
  decide

theorem digit_read :
    ∀ P : ZMod 5, (((Char.ofNat (48 + ZMod.val P)).toNat - 48 : ℕ) : ZMod 5) = P := by
  decide

/-- A pairing of the numbers modulo 5, whose product is the exponent of the value. -/
def examplePbc : Pbc (ZMod 5) (Multiplicative (ZMod 5)) where
  Par := Unit
  pairing _ := {
    pair P Q := Multiplicative.ofAdd (P * Q)
    pair_add_left P Q R := by rw [add_mul, ofAdd_add]
    pair_comm P Q := by rw [mul_comm] }
  elementFromHash _ data := ((intFromBytes data : ℕ) : ZMod 5)
  targetToBytes t := [UInt8.ofNat (ZMod.val t.toAdd)]
  elementToBytes P := [UInt8.ofNat (ZMod.val P)]
  elementFromBytes data := (((data.headD 0).toNat : ℕ), 1)
  fromBytes_toBytes P _ := by
    rw [List.singleton_append, List.headD_cons, byte_read, List.length_singleton]
  elementPrint P := [Char.ofNat (48 + ZMod.val P)]
  elementSetStr text := text.head?.map fun c => ((c.toNat - 48 : ℕ) : ZMod 5)
  setStr_print P _ := by
    rw [List.singleton_append, List.head?_cons, Option.map_some, digit_read]
  print_start P := ⟨_, [], rfl, by revert P; decide⟩
  print_line := by decide
  print_short _ := by simp
  mpzOutStr n := List.replicate n '1'
  mpzInpStr text :=
    some ((text.takeWhile (· = '1')).length, text.dropWhile (· = '1'))
  inpStr_outStr n rest := by
    rw [List.takeWhile_append_of_pos (by simp), List.dropWhile_append_of_pos (by simp)]
    simp
  parOutStr _ := ['t']
  parSetStr _ := some ()
  parSetStr_outStr _ := rfl

/-- A system of level 1, whose digests have 20 bytes. -/
def exampleSystem : BFPublicParameters examplePbc where
  security := ⟨1, 512, 160, exampleSsl.sha1⟩
  pbcPar := ()
  P := 1
  pPub := 1
  pPubPrecomp := 1
  q := 5

section

open BFPublicParameters

variable {G T : Type} [AddCommGroup G] [CommGroup T] {pbc : Pbc G T}

/-! ### Decryption with the sums -/

/-- What the shards of a system come to for an identity: the parameters that a sender uses, and the
private key of the receiver. -/
def fuse (ssl : OpenSsl) (base : BFPublicParameters pbc) (drawn : ℕ) (more : List ℕ)
    (identifier : Bytes) : Option (BFPublicParameters pbc × G) := do
  let first ← base.generateShard ssl drawn
  let rest ← more.mapM (base.generateShard ssl)
  let system ← sumPublic ssl first.1 (rest.map Prod.fst)
  let key := sumSecrets pbc (first.1.generatePrivateKey first.2 identifier)
    (rest.map fun shard => shard.1.generatePrivateKey shard.2 identifier)
  return (system, parsePrivateKey pbc key)

theorem fuse_eq {ssl : OpenSsl} {base : BFPublicParameters pbc} (secured : base.Secured ssl)
    (drawn : ℕ) (more : List ℕ) (identifier : Bytes) :
    ∃ s, fuse ssl base drawn more identifier =
      some (base.withSecret s, s • (base.withSecret s).bfGeneratePublicKey identifier) := by
  let Q := base.bfGeneratePublicKey identifier
  let secrets := more.map (· + 2)
  have made : more.mapM (base.generateShard ssl) =
      some (secrets.map fun s => (base.withSecret s, s)) := by
    induction more with
    | nil => rfl
    | cons d more ih =>
        rw [List.mapM_cons, generateShard_eq secured, ih]
        rfl
  have public_sum := sumPublic_eq secured (drawn + 2) secrets
  have secret_sum := @sumSecrets_eq G T _ _ pbc Q (drawn + 2) secrets
  have systems : (secrets.map fun s => (base.withSecret s, s)).map Prod.fst =
      secrets.map base.withSecret := by
    rw [List.map_map]
    rfl
  have keys : (secrets.map fun s => (base.withSecret s, s)).map
      (fun shard => shard.1.generatePrivateKey shard.2 identifier) =
      secrets.map fun s => formatPrivateKey pbc (s • Q) := by
    rw [List.map_map]
    rfl
  refine ⟨drawn + 2 + secrets.sum, ?_⟩
  rw [fuse, generateShard_eq secured, made]
  simp only [Option.bind_eq_bind, Option.bind_some, systems, keys, public_sum, Option.pure_def]
  have whole : sumSecrets pbc ((base.withSecret (drawn + 2)).generatePrivateKey (drawn + 2)
      identifier) (secrets.map fun s => formatPrivateKey pbc (s • Q)) = _ := secret_sum
  rw [whole, parse_format]
  rfl

theorem encrypted_of_random (params : BFPublicParameters pbc) (identifier m rho : Bytes) :
    ∃ msg, params.bfEncrypt (params.bfGeneratePublicKey identifier) m (some rho) = some msg :=
  ⟨_, rfl⟩

variable [DecidableEq G]

/-- **Decryption with fused shards.** For every system, any number of shards made from it and every
identity: a message is decrypted, as it was sent and through its bytes, exactly when the buffer it is
decrypted into has only zeros behind the last full block. -/
theorem fused_decrypts_iff {ssl : OpenSsl} {base : BFPublicParameters pbc}
    (secured : base.Secured ssl) (drawn : ℕ) (more : List ℕ) (identifier : Bytes)
    {m rho output : Bytes} (size : m.length < 2 ^ 64)
    (fresh : rho.length = base.security.hashlen) (same : output.length = m.length) :
    ∃ system key msg, fuse ssl base drawn more identifier = some (system, key) ∧
      system.bfEncrypt (system.bfGeneratePublicKey identifier) m (some rho) = some msg ∧
      (system.bfDecrypt output key msg = (true, m) ∧
          (∃ received, system.bfMessageFromBytes (system.bfMessageToBytes msg) = some received ∧
            system.bfDecrypt output key received = (true, m)) ↔
        base.Cleared output) := by
  obtain ⟨s, fused⟩ := fuse_eq secured drawn more identifier
  obtain ⟨msg, sent⟩ := encrypted_of_random (base.withSecret s) identifier m rho
  have decrypts := (base.withSecret s).bfDecrypt_eq_iff fresh same
    (fun l => withSecret_mask s l _) sent
  refine ⟨_, _, msg, fused, sent, ?_⟩
  rw [(base.withSecret s).fromBytes_encrypted size fresh sent]
  constructor
  · intro both
    exact decrypts.mp both.1
  · intro cleared
    exact ⟨decrypts.mpr cleared, _, rfl, decrypts.mpr cleared⟩

theorem exampleSystem_secured : exampleSystem.Secured exampleSsl := rfl

/-- A message of 32 bytes for two shards, and a cleared buffer. -/
theorem cleared_decrypts :
    exampleSystem.Cleared (List.replicate 32 0) ∧
      ∃ system key msg, fuse exampleSsl exampleSystem 0 [1] [97] = some (system, key) ∧
        system.bfEncrypt (system.bfGeneratePublicKey [97]) (List.replicate 32 7)
          (some (List.replicate 20 1)) = some msg ∧
        (system.bfDecrypt (List.replicate 32 0) key msg = (true, List.replicate 32 7) ∧
            (∃ received, system.bfMessageFromBytes (system.bfMessageToBytes msg) = some received ∧
              system.bfDecrypt (List.replicate 32 0) key received =
                (true, List.replicate 32 7)) ↔
          exampleSystem.Cleared (List.replicate 32 0)) := by
  refine ⟨fun b mem => List.eq_of_mem_replicate (List.mem_of_mem_drop mem), ?_⟩
  exact fused_decrypts_iff exampleSystem_secured 0 [1] [97] (by simp) rfl rfl

/-- The same message is not decrypted into a buffer with other bytes, even with one shard. -/
theorem uncleared_not_decrypted :
    ∃ system key msg, fuse exampleSsl exampleSystem 0 [] [97] = some (system, key) ∧
      system.bfEncrypt (system.bfGeneratePublicKey [97]) (List.replicate 32 7)
        (some (List.replicate 20 1)) = some msg ∧
      system.bfDecrypt (List.replicate 32 255) key msg ≠ (true, List.replicate 32 7) := by
  obtain ⟨s, fused⟩ := fuse_eq exampleSystem_secured 0 [] [97]
  obtain ⟨msg, sent⟩ := encrypted_of_random (exampleSystem.withSecret s) [97]
    (List.replicate 32 7) (List.replicate 20 1)
  refine ⟨_, _, msg, fused, sent, fun decrypted => ?_⟩
  have cleared : exampleSystem.Cleared (List.replicate 32 255) :=
    ((exampleSystem.withSecret s).bfDecrypt_eq_iff rfl (by simp)
      (fun l => withSecret_mask s l _) sent).mp decrypted
  have behind : (255 : UInt8) ∈ (List.replicate 32 (255 : UInt8)).drop 20 := by decide
  exact absurd (cleared 255 behind) (by decide)

/-- Through the API, the buffer is cleared, and the message is decrypted. -/
theorem decryptIbe_withSecret (base : BFPublicParameters pbc) (s : ℕ) (identifier : Bytes)
    {m rho : Bytes} (size : m.length < 2 ^ 64) (fresh : rho.length = base.security.hashlen) :
    ∃ msg : BFMessage G, msg.length = m.length ∧
      (base.withSecret s).encryptIbe identifier m (some rho) =
        some ((base.withSecret s).bfMessageToBytes msg) ∧
      (base.withSecret s).decryptIbe (s • base.bfGeneratePublicKey identifier)
        ((base.withSecret s).bfMessageToBytes msg) = some m := by
  obtain ⟨msg, sent⟩ := encrypted_of_random (base.withSecret s) identifier m rho
  have length_msg : msg.length = m.length := by
    cases Option.some.inj sent
    rfl
  have cleared : base.Cleared (List.replicate m.length 0) := fun b mem =>
    List.eq_of_mem_replicate (List.mem_of_mem_drop mem)
  have decrypted := ((base.withSecret s).bfDecrypt_eq_iff fresh List.length_replicate
    (fun l => withSecret_mask s l _) sent).mpr cleared
  refine ⟨msg, length_msg, ?_, ?_⟩
  · rw [encryptIbe, sent, Option.map_some]
  · rw [decryptIbe, (base.withSecret s).fromBytes_encrypted size fresh sent, Option.map_some,
      length_msg]
    exact congrArg (some ∘ Prod.snd) decrypted

/-- So what was encrypted to an identity is always decrypted with the fused key. -/
theorem decryptIbe_encryptIbe {ssl : OpenSsl} {base : BFPublicParameters pbc}
    (secured : base.Secured ssl) (drawn : ℕ) (more : List ℕ) (identifier : Bytes)
    {m rho : Bytes} (size : m.length < 2 ^ 64) (fresh : rho.length = base.security.hashlen) :
    ∃ system key ciphertext, fuse ssl base drawn more identifier = some (system, key) ∧
      system.encryptIbe identifier m (some rho) = some ciphertext ∧
      system.decryptIbe key ciphertext = some m := by
  obtain ⟨s, fused⟩ := fuse_eq secured drawn more identifier
  obtain ⟨msg, -, sent, decrypted⟩ := decryptIbe_withSecret base s identifier size fresh
  exact ⟨_, _, _, fused, sent, decrypted⟩

end

end Prism.Bfibe
