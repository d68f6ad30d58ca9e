import Mathlib.NumberTheory.Bertrand
import Prism.Lib.Cbor
import Prism.Vrf.Uniqueness

/-!
Honest proofs verify.

The prover's mask has one byte less than the modulus, so it is a number below the modulus,
and RSA decrypts what it encrypts, also where the mask is not coprime to the modulus. The
one conversion that can overflow is that of the length of the modulus to four bytes.

* `vrfVerify_vrfProve`: the proof made for an input is made, valid and hashed.
* `vrf_complete`: the same with serialization in between.
* `vrfProve_overflow`: from `2 ^ 32` bytes on, nothing is proved.
-/

namespace Prism.Vrf

open Lib.BigEndian

/-- A private key of exactly `8 * k` bits, with the primes of its modulus. -/
structure ValidKey (sk : RSAPrivateKey) (p q k : ℕ) : Prop where
  prime_p : p.Prime
  prime_q : q.Prime
  distinct : p ≠ q
  modulus : sk.n = p * q
  inverse : sk.e * sk.d ≡ 1 [MOD Nat.lcm (p - 1) (q - 1)]
  two_le_e : 2 ≤ sk.e
  two_le_d : 2 ≤ sk.d
  size : sk.keySize = 8 * k

namespace ValidKey

variable {sk : RSAPrivateKey} {p q k : ℕ} (key : ValidKey sk p q k)
include key

theorem pos : 1 ≤ k := by
  have six_le : 2 ^ 1 ≤ sk.n := by
    rw [key.modulus]
    exact (Nat.mul_le_mul key.prime_p.two_le key.prime_q.two_le).trans' (by decide)
  have lt := Nat.lt_size.mpr six_le
  have size := key.size
  rw [RSAPrivateKey.keySize, bitLength] at size
  omega

theorem modulus_lt : sk.n < 256 ^ k := by
  rw [show (256 : ℕ) = 2 ^ 8 from rfl, ← pow_mul, ← key.size]
  exact Nat.lt_size_self sk.n

/-- A number of fewer bytes than the modulus is below it. -/
theorem lt_modulus {m : ℕ} (lt : m < 256 ^ (k - 1)) : m < sk.n := by
  have pos := key.pos
  have top : 2 ^ (8 * k - 1) ≤ sk.n := Nat.lt_size.mp (by
    have size : sk.n.size = 8 * k := key.size
    omega)
  rw [show (256 : ℕ) = 2 ^ 8 from rfl, ← pow_mul] at lt
  exact lt_of_lt_of_le lt ((Nat.pow_le_pow_right (by decide) (by omega)).trans top)

/-- **RSA verifies what it signs.** -/
theorem rsavp1_rsasp1 {m : ℕ} (lt : m < sk.n) :
    ∃ s, rsasp1 sk m = .ok s ∧ s < sk.n ∧ rsavp1 sk.publicKey s = .ok m := by
  have inverse := Lib.Rsa.pow_pow_mod key.prime_p key.prime_q key.distinct key.inverse
    (Nat.mul_pos (by have := key.two_le_e; omega) (by have := key.two_le_d; omega))
    (key.modulus ▸ lt)
  rw [← key.modulus] at inverse
  refine ⟨m ^ sk.d % sk.n, modExp_eq key.two_le_d m sk.n, Nat.mod_lt _ (by omega), ?_⟩
  exact (modExp_eq key.two_le_e _ _).trans (congrArg Except.ok inverse)

/-- **An honest proof is valid**: for every input a proof is made, and its hash is that of
the verifier. -/
theorem vrfVerify_vrfProve (sha : Sha256) (short : k < 2 ^ 32) (alpha : Bytes) :
    ∃ pi, vrfProve sha sk alpha = .ok pi ∧
      vrfHash sha sk alpha = .ok (sha.digest ([2] ++ pi)) ∧
      vrfVerify sha sk.publicKey alpha pi = .ok (true, some (sha.digest ([2] ++ pi))) := by
  have pos := key.pos
  have quotient : sk.keySize / 8 = k := by
    have := key.size
    omega
  obtain ⟨em, masked, em_length⟩ := @mask_ok sha sk.n sk.keySize (by omega) (by omega)
    (by rw [quotient]; exact key.modulus_lt) alpha
  rw [quotient] at em_length
  have em_lt := ofBytes_lt em
  rw [em_length] at em_lt
  obtain ⟨s, signed, s_lt, verified⟩ := key.rsavp1_rsasp1 (key.lt_modulus em_lt)
  have proved : vrfProve sha sk alpha = .ok (toBytes s k) := by
    have written := i2bytes_ok (s_lt.trans key.modulus_lt)
    rw [← quotient] at written
    simp only [vrfProve, RSAPrivateKey.publicKey, masked, ok_bind, bytes2ip, intFromBytes, signed,
      written]
    rw [quotient]
  refine ⟨toBytes s k, proved, ?_, ?_⟩
  · rw [vrfHash, proved, ok_bind, vrfProofToHash_ok]
  · have back : i2bytes (ofBytes em) ((sk.publicKey.keySize / 8 : ℕ) - 1) = .ok em := by
      have written := i2bytes_ok em_lt
      rw [← em_length, toBytes_ofBytes, em_length, Nat.cast_sub pos, Nat.cast_one] at written
      rw [show sk.publicKey.keySize / 8 = k from quotient]
      exact written
    refine (vrfVerify_valid_iff sha _ _ _ _).mpr ⟨rfl, ofBytes em, em, ?_, back, masked⟩
    rw [bytes2ip, intFromBytes, ofBytes_toBytes (s_lt.trans key.modulus_lt)]
    exact verified

/-- A modulus of too many bytes has no proofs: its length does not fit in four. -/
theorem vrfProve_overflow (sha : Sha256) (long : 2 ^ 32 ≤ k) (alpha : Bytes) :
    vrfProve sha sk alpha = .error .overflowError := by
  have quotient : sk.keySize / 8 = k := by
    have := key.size
    omega
  have length : i2bytes k 4 = .error .overflowError := by
    rw [i2bytes, intToBytes, if_neg (by decide), if_neg]
    rw [show Int.toNat 4 = 4 from rfl]
    omega
  have one : i2bytes 1 1 = .ok (toBytes 1 1) := @i2bytes_ok 1 1 (by decide)
  rw [vrfProve, mask, quotient, Int.toNat_natCast, one, ok_bind, length]
  rfl

end ValidKey

/-- **Completeness.** For every key of fewer than `2 ^ 32` bytes and every input, a proof
is made, the verifier accepts it with the hash that the prover computes, and serialization
preserves it. -/
theorem vrf_complete (sha : Sha256) (pem : PemFormat) {sk : RSAPrivateKey} {p q k : ℕ}
    (key : ValidKey sk p q k) (short : k < 2 ^ 32) (alpha : Bytes) :
    ∃ pi beta, vrfProve sha sk alpha = .ok pi ∧ vrfHash sha sk alpha = .ok beta ∧
      vrfVerify sha sk.publicKey alpha pi = .ok (true, some beta) ∧
      deserializeProof pem (serializeProof pem sk.publicKey alpha pi) =
        .ok (sk.publicKey, alpha, pi) := by
  obtain ⟨pi, proved, hashed, verified⟩ := key.vrfVerify_vrfProve sha short alpha
  exact ⟨pi, _, proved, hashed, verified, deserialize_serialize pem _ _ _⟩

/-! ### Keys -/

theorem exampleKey_valid : ValidKey exampleKey 251 257 2 where
  prime_p := by norm_num
  prime_q := by norm_num
  distinct := by decide
  modulus := rfl
  inverse := by decide
  two_le_e := by decide
  two_le_d := by decide
  size := by decide

/-- Keys in a format of two numbers, one after the other. -/
def examplePem : PemFormat where
  publicBytes key := Lib.Cbor.head 0 key.n ++ Lib.Cbor.head 0 key.e
  loadPublicKey bytes :=
    match Lib.Cbor.readHead bytes with
    | some (n, rest) =>
      match Lib.Cbor.readHead rest with
      | some (e, _) => .ok ⟨n.argument, e.argument⟩
      | none => .error (.valueError "Could not deserialize key data.")
    | none => .error (.valueError "Could not deserialize key data.")
  load_publicBytes key := by
    have second := Lib.Cbor.readHead_head (by decide : 0 < 8) key.e []
    rw [List.append_nil] at second
    simp only [Lib.Cbor.readHead_head (by decide : 0 < 8), second]

/-- The proof of the example key for the empty input. -/
theorem exampleKey_complete :
    ∃ pi beta, vrfProve exampleSha exampleKey [] = .ok pi ∧
      vrfHash exampleSha exampleKey [] = .ok beta ∧
      vrfVerify exampleSha exampleKey.publicKey [] pi = .ok (true, some beta) ∧
      deserializeProof examplePem (serializeProof examplePem exampleKey.publicKey [] pi) =
        .ok (exampleKey.publicKey, [], pi) :=
  vrf_complete exampleSha examplePem exampleKey_valid (by decide) []

/-- There are keys of every size: one of the primes is three. -/
theorem exists_validKey {k : ℕ} (pos : 1 ≤ k) : ∃ sk p q, ValidKey sk p q k := by
  have large : 2 ^ 7 ≤ 2 ^ (8 * k - 1) := Nat.pow_le_pow_right (by decide) (by omega)
  set half := 2 ^ (8 * k - 1) with hhalf
  obtain ⟨q, prime, lower, upper⟩ := Nat.exists_prime_lt_and_le_two_mul (half / 3) (by omega)
  have double : 2 ^ (8 * k) = 2 * half := by
    rw [hhalf, ← pow_succ']
    congr 1
    omega
  have not_multiple : 3 * q ≠ 2 ^ (8 * k) := by
    intro eq
    have divides : 3 ∣ 2 := Nat.prime_three.dvd_of_dvd_pow ⟨q, eq.symm⟩
    omega
  have odd : q % 2 = 1 := prime.eq_two_or_odd.resolve_left (by omega)
  refine ⟨⟨3 * q, q - 2, q - 2⟩, 3, q, ?_⟩
  refine {
    prime_p := Nat.prime_three
    prime_q := prime
    distinct := by omega
    modulus := rfl
    inverse := ?_
    two_le_e := by dsimp only; omega
    two_le_d := by dsimp only; omega
    size := ?_ }
  · -- the exponents are `-1` modulo `q - 1`
    have lcm : Nat.lcm (3 - 1) (q - 1) = q - 1 := Nat.lcm_eq_right (by omega)
    rw [lcm]
    obtain ⟨t, rfl⟩ : ∃ t, q = t + 3 := ⟨q - 3, by omega⟩
    have square : (t + 3 - 2) * (t + 3 - 2) = 1 + (t + 3 - 1) * t := by
      rw [show t + 3 - 2 = t + 1 by omega, show t + 3 - 1 = t + 2 by omega]
      ring
    dsimp only
    rw [square]
    rw [mul_comm]
    exact Nat.add_mul_modulus_modEq_iff.mpr rfl
  · have le : (3 * q).size ≤ 8 * k := Nat.size_le.mpr (by omega)
    have lt : 8 * k - 1 < (3 * q).size := Nat.lt_size.mpr (by omega)
    change (3 * q).size = 8 * k
    omega

/-- **Completeness fails** for some key of too many bytes: no proof is made. -/
theorem vrf_incomplete :
    ¬ ∀ (sha : Sha256) (pem : PemFormat) (sk : RSAPrivateKey) (p q k : ℕ), ValidKey sk p q k →
      ∀ alpha, ∃ pi beta, vrfProve sha sk alpha = .ok pi ∧ vrfHash sha sk alpha = .ok beta ∧
        vrfVerify sha sk.publicKey alpha pi = .ok (true, some beta) ∧
        deserializeProof pem (serializeProof pem sk.publicKey alpha pi) =
          .ok (sk.publicKey, alpha, pi) := by
  intro complete
  obtain ⟨k, long⟩ : ∃ k : ℕ, 2 ^ 32 ≤ k := ⟨_, le_rfl⟩
  obtain ⟨sk, p, q, key⟩ := @exists_validKey k (by omega)
  obtain ⟨pi, beta, proved, -⟩ := complete exampleSha examplePem sk p q k key []
  rw [key.vrfProve_overflow exampleSha long] at proved
  cases proved

end Prism.Vrf
