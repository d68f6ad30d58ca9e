import Mathlib.Tactic.NormNum.Prime
import Prism.Lib.Rsa
import Prism.Vrf.Vrf

/-!
How many proofs are valid for one key and one input.

The verifier reads the proof as a number and looks at nothing else of it, so a valid proof
stays valid with zero bytes in front, while the output hash is over the bytes of the proof
(`valid_zero_cons`). The verifier accepts something only where the modulus fits exactly in
its bytes (`valid_keySize`), and there it accepts a proof for every input (`exists_valid`).

* `vrf_unique_iff`: at most one proof is valid only where none is.
* `vrf_not_unique`: a key and an input with two valid proofs and two output hashes.
-/

namespace Prism.Vrf

open Lib.BigEndian

/-- The proof is valid for the input. -/
def Valid (sha : Sha256) (pk : RSAPublicKey) (alpha pi : Bytes) : Prop :=
  ∃ beta, vrfVerify sha pk alpha pi = .ok (true, beta)

/-- RSA exponentiation is a bijection on the numbers below the modulus. -/
def RsaBijective (pk : RSAPublicKey) : Prop :=
  ∀ m < pk.n, ∃! s, s < pk.n ∧ rsavp1 pk s = .ok m

theorem rsavp1_eq {pk : RSAPublicKey} (two_le : 2 ≤ pk.e) (s : ℕ) :
    rsavp1 pk s = .ok (s ^ pk.e % pk.n) :=
  modExp_eq two_le s pk.n

/-- Exponents that are inverse to each other make a bijection. -/
theorem rsaBijective_of_inverse {p q e d : ℕ} (hp : p.Prime) (hq : q.Prime) (ne : p ≠ q)
    (inverse : e * d ≡ 1 [MOD Nat.lcm (p - 1) (q - 1)]) (two_le_e : 2 ≤ e) (pos : 1 ≤ d) :
    RsaBijective ⟨p * q, e⟩ := by
  have product : 1 ≤ e * d := Nat.mul_pos (by omega) pos
  intro m lt
  dsimp only at lt
  refine ⟨m ^ d % (p * q), ⟨?_, ?_⟩, ?_⟩
  · exact Nat.mod_lt _ (Nat.mul_pos hp.pos hq.pos)
  · rw [rsavp1_eq two_le_e]
    exact congrArg Except.ok (Lib.Rsa.pow_pow_mod hp hq ne inverse product lt)
  · rintro s ⟨s_lt, power⟩
    rw [rsavp1_eq two_le_e] at power
    rw [← Except.ok.inj power]
    exact (Lib.Rsa.pow_pow_mod hp hq ne (mul_comm e d ▸ inverse) (mul_comm e d ▸ product)
      s_lt).symm

section Proofs

variable {sha : Sha256} {pk : RSAPublicKey} {alpha pi : Bytes}

theorem valid_iff : Valid sha pk alpha pi ↔ ∃ m em, rsavp1 pk (bytes2ip pi) = .ok m ∧
    i2bytes m ((pk.keySize / 8 : ℕ) - 1) = .ok em ∧ mask sha pk.n pk.keySize alpha = .ok em := by
  simp only [Valid, vrfVerify_valid_iff, exists_and_right, exists_eq, true_and]

/-- **A zero byte in front of a valid proof** leaves it valid. -/
theorem valid_zero_cons (valid : Valid sha pk alpha pi) : Valid sha pk alpha (0 :: pi) := by
  rw [valid_iff] at valid ⊢
  rwa [bytes2ip, intFromBytes, ofBytes_zero_cons]

/-- Where a proof is valid, the modulus fills whole bytes, and not too many. -/
theorem valid_keySize (valid : Valid sha pk alpha pi) :
    8 ∣ pk.keySize ∧ 8 ≤ pk.keySize ∧ pk.keySize < 8 * 2 ^ 32 := by
  obtain ⟨m, em, -, number, masked⟩ := valid_iff.mp valid
  obtain ⟨nonneg, -, -⟩ := i2bytes_eq_ok number
  obtain ⟨short, fits⟩ := mask_eq_ok sha masked
  have size : pk.keySize ≤ 8 * (pk.keySize / 8) := by
    refine Nat.size_le.mpr ?_
    rwa [pow_mul]
  omega

/-- **Every input has a valid proof** where the modulus fills whole bytes. -/
theorem exists_valid (bijective : RsaBijective pk) (divides : 8 ∣ pk.keySize)
    (pos : 8 ≤ pk.keySize) (short : pk.keySize < 8 * 2 ^ 32) (alpha : Bytes) :
    ∃ pi, Valid sha pk alpha pi := by
  obtain ⟨k, size⟩ := divides
  have quotient : pk.keySize / 8 = k := by omega
  have fits : pk.n < 256 ^ k := by
    rw [show (256 : ℕ) = 2 ^ 8 from rfl, ← pow_mul, ← size]
    exact Nat.lt_size_self pk.n
  obtain ⟨em, masked, em_length⟩ := @mask_ok sha pk.n pk.keySize (by omega)
    (by omega) (by rwa [quotient]) alpha
  rw [quotient] at em_length
  have mask_lt : ofBytes em < pk.n := by
    have top : 2 ^ (8 * k - 1) ≤ pk.n := Nat.lt_size.mp (by
      have : pk.keySize = pk.n.size := rfl
      omega)
    have em_lt := ofBytes_lt em
    rw [em_length, show (256 : ℕ) = 2 ^ 8 from rfl, ← pow_mul] at em_lt
    exact lt_of_lt_of_le em_lt ((Nat.pow_le_pow_right (by decide) (by omega)).trans top)
  obtain ⟨s, ⟨s_lt, power⟩, -⟩ := bijective (ofBytes em) mask_lt
  refine ⟨toBytes s k, valid_iff.mpr ⟨ofBytes em, em, ?_, ?_, masked⟩⟩
  · rwa [bytes2ip, intFromBytes, ofBytes_toBytes (s_lt.trans fits)]
  · have em_lt := ofBytes_lt em
    rw [em_length] at em_lt
    have written := i2bytes_ok em_lt
    rw [← em_length, toBytes_ofBytes] at written
    rwa [quotient, ← Nat.cast_one, ← Nat.cast_sub (by omega), ← em_length]

end Proofs

/-- **When a key has unique proofs.** At most one byte string is a valid proof for an input
exactly when the size of the modulus is not a positive number of whole bytes below `2 ^ 32`;
then there is none. -/
theorem vrf_unique_iff (sha : Sha256) {pk : RSAPublicKey} (bijective : RsaBijective pk)
    (alpha : Bytes) :
    (∀ pi pi', Valid sha pk alpha pi → Valid sha pk alpha pi' → pi = pi') ↔
      ¬ (8 ∣ pk.keySize ∧ 8 ≤ pk.keySize ∧ pk.keySize < 8 * 2 ^ 32) := by
  constructor
  · rintro unique ⟨divides, pos, short⟩
    obtain ⟨pi, valid⟩ := @exists_valid sha pk bijective divides pos short alpha
    have same := unique pi (0 :: pi) valid (valid_zero_cons valid)
    exact absurd (congrArg List.length same) (by simp)
  · intro none pi pi' valid
    exact absurd (valid_keySize valid) none

/-- A key of 16 bits. -/
def exampleKey : RSAPrivateKey := ⟨251 * 257, 3, 10667⟩

/-- A hash function that keeps the first 32 bytes of its input. -/
def exampleSha : Sha256 where
  digest inp := (inp ++ List.replicate 32 0).take 32
  length_digest inp := by
    rw [List.length_take, List.length_append, List.length_replicate]
    omega

theorem exampleKey_bijective : RsaBijective exampleKey.publicKey :=
  rsaBijective_of_inverse (by norm_num) (by norm_num) (by decide)
    (by decide : 3 * 10667 ≡ 1 [MOD Nat.lcm (251 - 1) (257 - 1)]) (by decide) (by decide)

/-- **Two valid proofs** for one key and one input, with two output hashes. -/
theorem vrf_not_unique : RsaBijective exampleKey.publicKey ∧
    vrfVerify exampleSha exampleKey.publicKey [] [0, 1] =
      .ok (true, some ([2, 0, 1] ++ List.replicate 29 0)) ∧
    vrfVerify exampleSha exampleKey.publicKey [] [1] =
      .ok (true, some ([2, 1] ++ List.replicate 30 0)) :=
  ⟨exampleKey_bijective, by decide +kernel, by decide +kernel⟩

/-- The key has no unique proofs. -/
theorem exampleKey_not_unique :
    ¬ ∀ pi pi', Valid exampleSha exampleKey.publicKey [] pi →
      Valid exampleSha exampleKey.publicKey [] pi' → pi = pi' :=
  fun unique => (vrf_unique_iff exampleSha exampleKey_bijective []).mp unique (by decide)

end Prism.Vrf
