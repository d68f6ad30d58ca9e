import Prism.Lib.Base64
import Prism.Lib.Json
import Prism.Python
import Mathlib.Data.Nat.Size
import Mathlib.Tactic.Ring

/-!
The verifiable random function (`prism/common/vrf/vrf.py`), RSA with a full domain hash.

The prover masks its input to a number below the modulus and raises it to the private
exponent; the verifier raises the proof to the public exponent and compares the result
with the mask. SHA-256 is any function to 32 bytes (`Sha256`), and the PEM format of
public keys is a parameter (`PemFormat`).

* `modExp_eq`: square and multiply computes the power, for exponents from 2 on.
* `modExp_eq_iff`: for which arguments it does.
* `mgf1_ok`: a mask that is not too long has the length that was asked for.
* `vrfVerify_valid_iff`: which proofs are valid.
* `deserialize_serialize`: a serialized proof is read back.
-/

namespace Prism.Vrf

/-- SHA-256. -/
structure Sha256 where
  digest : Bytes → Bytes
  length_digest : ∀ inp, (digest inp).length = 32

/-- An RSA public key. -/
structure RSAPublicKey where
  n : ℕ
  e : ℕ
deriving DecidableEq, Repr

/-- An RSA private key. -/
structure RSAPrivateKey where
  n : ℕ
  e : ℕ
  d : ℕ
deriving DecidableEq, Repr

/-- `key_size`: the bit length of the modulus. -/
def RSAPublicKey.keySize (key : RSAPublicKey) : ℕ := bitLength key.n

def RSAPrivateKey.publicKey (key : RSAPrivateKey) : RSAPublicKey := ⟨key.n, key.e⟩

def RSAPrivateKey.keySize (key : RSAPrivateKey) : ℕ := bitLength key.n

/-- `bytes2ip`. -/
def bytes2ip (x : Bytes) : ℕ := intFromBytes x

/-- `i2bytes`. -/
def i2bytes (x : ℕ) (xLen : ℤ) : Py Bytes := intToBytes x xLen

/-- `HASH_OUTLEN`. -/
def hashOutlen : ℕ := 32

/-- `MGF1`: the mask is made of the hashes of the seed and a counter. -/
def mgf1 (sha : Sha256) (seed : Bytes) (masklen : ℤ) : Py Bytes := do
  if masklen > 2 ^ 32 * hashOutlen then throw (.valueError "mask too long")
  let blocks ← (List.range ((masklen + hashOutlen - 1) / hashOutlen).toNat).mapM fun i => do
    return sha.digest (seed ++ (← i2bytes i 4))
  return blocks.flatten.take masklen.toNat

/-- `mod_mult`. -/
def modMult (a b mod : ℕ) : ℕ := a * b % mod

/-- The loop of `mod_exp` and the product after it. The exponent is halved in each round,
so there are no more rounds than it has bits. -/
def modExpLoop (mod : ℕ) : ℕ → ℕ → ℕ → ℕ → ℕ
  | 0, b, accum, _ => modMult b accum mod
  | rounds + 1, b, accum, power =>
    if 1 < power then
      if power % 2 = 1 then
        modExpLoop mod rounds (modMult b b mod) (modMult b accum mod) ((power - 1) / 2)
      else modExpLoop mod rounds (modMult b b mod) accum (power / 2)
    else modMult b accum mod

/-- `mod_exp`: the powers 0 and 1 are not reduced. -/
def modExp (b : ℕ) (power : ℤ) (mod : ℕ) : Py ℕ :=
  if power < 0 then .error (.valueError "invalid power")
  else if power = 0 then .ok 1
  else if power = 1 then .ok b
  else .ok (modExpLoop mod (bitLength power.toNat) b 1 power.toNat)

/-- `RSASP1`. -/
def rsasp1 (key : RSAPrivateKey) (m : ℕ) : Py ℕ := modExp m key.d key.n

/-- `RSAVP1`. -/
def rsavp1 (key : RSAPublicKey) (s : ℕ) : Py ℕ := modExp s key.e key.n

section Vrf

variable (sha : Sha256)

/-- `VRF_proof_to_hash`. -/
def vrfProofToHash (pi : Bytes) : Py Bytes := do
  return sha.digest ((← i2bytes 2 1) ++ pi)

/-- The mask of an input: what the prover signs and the verifier compares with. -/
def mask (n keySize : ℕ) (alpha : Bytes) : Py Bytes := do
  let ksize : ℤ := (keySize / 8 : ℕ)
  let one ← i2bytes 1 1
  let length ← i2bytes ksize.toNat 4
  let modulus ← i2bytes n ksize
  mgf1 sha (one ++ length ++ modulus ++ alpha) (ksize - 1)

/-- `VRF_prove`. -/
def vrfProve (sk : RSAPrivateKey) (alpha : Bytes) : Py Bytes := do
  let em ← mask sha sk.publicKey.n sk.keySize alpha
  let s ← rsasp1 sk (bytes2ip em)
  i2bytes s (sk.keySize / 8 : ℕ)

/-- `VRF_hash`. -/
def vrfHash (sk : RSAPrivateKey) (alpha : Bytes) : Py Bytes := do
  vrfProofToHash sha (← vrfProve sha sk alpha)

/-- `VRF_verify`: a number that is too long for the mask is caught, any other exception
is not. -/
def vrfVerify (pk : RSAPublicKey) (alpha pi : Bytes) : Py (Bool × Option Bytes) := do
  let m ← rsavp1 pk (bytes2ip pi)
  match i2bytes m ((pk.keySize / 8 : ℕ) - 1) with
  | .error .overflowError => return (false, none)
  | .error e => throw e
  | .ok em => do
    let emCheck ← mask sha pk.n pk.keySize alpha
    if em = emCheck then return (true, some (← vrfProofToHash sha pi))
    else return (false, none)

end Vrf

/-! ### Serialization -/

/-- The PEM format of RSA public keys. -/
structure PemFormat where
  publicBytes : RSAPublicKey → Bytes
  loadPublicKey : Bytes → Py RSAPublicKey
  load_publicBytes : ∀ key, loadPublicKey (publicBytes key) = .ok key

section Serialization

variable (pem : PemFormat)

/-- The members of a serialized proof. -/
def proofMembers (pk : RSAPublicKey) (alpha pi : Bytes) : List (List Char × List Char) :=
  [("pk".toList, Lib.Base64.encode (pem.publicBytes pk)),
    ("alpha".toList, Lib.Base64.encode alpha), ("proof".toList, Lib.Base64.encode pi)]

/-- `serialize_proof`. -/
def serializeProof (pk : RSAPublicKey) (alpha pi : Bytes) : String :=
  String.ofList (Lib.Json.dumps (proofMembers pem pk alpha pi))

/-- `base64.decodebytes(bytes(d[key], encoding='utf8'))`. Of equal keys the last one
counts. -/
def decodeMember (d : List (List Char × List Char)) (key : String) : Py Bytes :=
  match d.reverse.lookup key.toList with
  | none => .error .keyError
  | some text =>
    match Lib.Base64.decode text with
    | some bytes => .ok bytes
    | none => .error (.valueError "Incorrect padding")

/-- `deserialize_proof`. -/
def deserializeProof (serial : String) : Py (RSAPublicKey × Bytes × Bytes) :=
  match Lib.Json.loads serial.toList with
  | none => .error (.valueError "Expecting value")
  | some d => do
    let pkstr ← decodeMember d "pk"
    let dalpha ← decodeMember d "alpha"
    let dpi ← decodeMember d "proof"
    let pk ← pem.loadPublicKey pkstr
    return (pk, dalpha, dpi)

theorem decodeMember_encode {d : List (List Char × List Char)} {key : String} {bytes : Bytes}
    (found : d.reverse.lookup key.toList = some (Lib.Base64.encode bytes)) :
    decodeMember d key = .ok bytes := by
  rw [decodeMember, found]
  simp only [Lib.Base64.decode_encode]

/-- **A serialized proof is read back.** -/
theorem deserialize_serialize (pk : RSAPublicKey) (alpha pi : Bytes) :
    deserializeProof pem (serializeProof pem pk alpha pi) = .ok (pk, alpha, pi) := by
  have plain : ∀ member ∈ proofMembers pem pk alpha pi, Lib.Json.PlainMember member := by
    have keys : Lib.Json.Plain "pk".toList ∧ Lib.Json.Plain "alpha".toList ∧
        Lib.Json.Plain "proof".toList := by
      simp [Lib.Json.Plain]
    simp only [proofMembers, List.forall_mem_cons, List.not_mem_nil, false_implies, implies_true,
      and_true]
    exact ⟨⟨keys.1, Lib.Base64.encode_plain _⟩, ⟨keys.2.1, Lib.Base64.encode_plain _⟩,
      ⟨keys.2.2, Lib.Base64.encode_plain _⟩⟩
  have read : Lib.Json.loads (serializeProof pem pk alpha pi).toList =
      some (proofMembers pem pk alpha pi) := by
    rw [serializeProof, String.toList_ofList]
    exact Lib.Json.loads_dumps plain
  have atPk : decodeMember (proofMembers pem pk alpha pi) "pk" = .ok (pem.publicBytes pk) :=
    decodeMember_encode rfl
  have atAlpha : decodeMember (proofMembers pem pk alpha pi) "alpha" = .ok alpha :=
    decodeMember_encode rfl
  have atProof : decodeMember (proofMembers pem pk alpha pi) "proof" = .ok pi :=
    decodeMember_encode rfl
  rw [deserializeProof, read]
  simp only [atPk, atAlpha, atProof, ok_bind, pem.load_publicBytes]
  rfl

end Serialization

/-! ### Square and multiply -/

/-- Loop invariant of `mod_exp`: the product of the accumulator and the remaining power. -/
theorem modExpLoop_eq (mod rounds b accum power : ℕ) (pos : 1 ≤ power) (lt : power < 2 ^ rounds) :
    modExpLoop mod rounds b accum power = b ^ power * accum % mod := by
  induction rounds generalizing b accum power with
  | zero => omega
  | succ rounds ih =>
      rw [modExpLoop]
      rw [pow_succ] at lt
      split_ifs with more odd
      · have half : power = 2 * ((power - 1) / 2) + 1 := by omega
        rw [ih _ _ _ (by omega) (by omega), modMult, modMult, Nat.mul_mod, Nat.mod_mod,
          ← Nat.pow_mod, ← Nat.mul_mod]
        conv_rhs => rw [half]
        ring_nf
      · have half : power = 2 * (power / 2) := by omega
        rw [ih _ _ _ (by omega) (by omega), modMult, Nat.mul_mod, ← Nat.pow_mod, ← Nat.mul_mod]
        conv_rhs => rw [half]
        ring_nf
      · have one : power = 1 := by omega
        rw [one, pow_one, modMult]

/-- **Square and multiply** computes the power, for exponents from 2 on. -/
theorem modExp_eq {power : ℕ} (two_le : 2 ≤ power) (b mod : ℕ) :
    modExp b power mod = .ok (b ^ power % mod) := by
  have enough : power < 2 ^ bitLength power := Nat.lt_size_self power
  rw [modExp, if_neg (by omega), if_neg (by omega), if_neg (by omega), Int.toNat_natCast,
    modExpLoop_eq mod _ b 1 power (by omega) enough, mul_one]

/-- **For which arguments the power is right**: the power 0 is not reduced modulo 1, and the power 1
of a number is not reduced at all. -/
theorem modExp_eq_iff {power : ℤ} {mod : ℕ} (nonneg : 0 ≤ power) (pos : 1 ≤ mod) (b : ℕ) :
    (∃ v, modExp b power mod = .ok v ∧ v = b ^ power.toNat % mod ∧ v < mod) ↔
      (power = 0 → mod ≠ 1) ∧ (power = 1 → b < mod) := by
  have reduced : b ^ power.toNat % mod < mod := Nat.mod_lt _ pos
  have run : (∃ v, modExp b power mod = .ok v ∧ v = b ^ power.toNat % mod ∧ v < mod) ↔
      modExp b power mod = .ok (b ^ power.toNat % mod) := by
    constructor
    · rintro ⟨v, run, rfl, -⟩
      exact run
    · intro run
      exact ⟨_, run, rfl, reduced⟩
  rw [run]
  obtain ⟨n, rfl⟩ := Int.eq_ofNat_of_zero_le nonneg
  rw [Int.toNat_natCast] at reduced ⊢
  obtain none | one | more : n = 0 ∨ n = 1 ∨ 2 ≤ n := by omega
  · have value : modExp b (n : ℤ) mod = .ok 1 := by
      rw [none]
      rfl
    rw [value, none, pow_zero, Except.ok.injEq]
    constructor
    · intro same
      refine ⟨fun _ trivial => ?_, by simp⟩
      rw [trivial] at same
      cases same
    · rintro ⟨proper, -⟩
      have := proper rfl
      exact (Nat.mod_eq_of_lt (by omega)).symm
  · have value : modExp b (n : ℤ) mod = .ok b := by
      rw [one]
      rfl
    rw [value, one, pow_one, Except.ok.injEq, eq_comm, Nat.mod_eq_iff_lt (by omega)]
    simp
  · exact iff_of_true (modExp_eq more b mod) ⟨by omega, by omega⟩

/-- An exponent from 2 on. -/
theorem modExp_square :
    (∃ v, modExp 9 2 7 = .ok v ∧ v = 9 ^ (2 : ℤ).toNat % 7 ∧ v < 7) ↔
      ((2 : ℤ) = 0 → 7 ≠ 1) ∧ ((2 : ℤ) = 1 → 9 < 7) :=
  modExp_eq_iff (by decide) (by decide) 9

/-- The power 1 of a number that is not below the modulus. -/
theorem modExp_one_unreduced :
    ¬ ∃ v, modExp 10 1 7 = .ok v ∧ v = 10 ^ (1 : ℤ).toNat % 7 ∧ v < 7 := by
  rintro ⟨v, run, -, lt⟩
  cases run
  exact absurd lt (by decide)

/-! ### Masks and proofs -/

theorem i2bytes_ok {x len : ℕ} (fits : x < 256 ^ len) :
    i2bytes x len = .ok (Lib.BigEndian.toBytes x len) := by
  rw [i2bytes, intToBytes, if_neg (by omega), Int.toNat_natCast, if_pos fits]

/-- What a returning `i2bytes` says. -/
theorem i2bytes_eq_ok {x : ℕ} {len : ℤ} {bytes : Bytes} (eq : i2bytes x len = .ok bytes) :
    0 ≤ len ∧ x < 256 ^ len.toNat ∧ bytes = Lib.BigEndian.toBytes x len.toNat := by
  rw [i2bytes, intToBytes] at eq
  split_ifs at eq with neg fits
  exact ⟨by omega, fits, (Except.ok.inj eq).symm⟩

section Masks

variable (sha : Sha256)

/-- **A mask has the length that was asked for**, up to `2 ^ 32` blocks. -/
theorem mgf1_ok (seed : Bytes) {masklen : ℕ} (le : masklen ≤ 2 ^ 32 * hashOutlen) :
    ∃ bytes, mgf1 sha seed masklen = .ok bytes ∧ bytes.length = masklen := by
  have blocks : (((masklen : ℤ) + hashOutlen - 1) / hashOutlen).toNat =
      (masklen + 31) / 32 := by
    rw [hashOutlen]
    omega
  rw [hashOutlen] at le
  have hashes : (List.range ((masklen + 31) / 32)).mapM
      (fun i => do return sha.digest (seed ++ (← i2bytes i 4)) : ℕ → Py Bytes) =
      .ok ((List.range ((masklen + 31) / 32)).map fun i =>
        sha.digest (seed ++ Lib.BigEndian.toBytes i 4)) := by
    refine mapM_ok fun i mem => ?_
    have lt := List.mem_range.mp mem
    have counter : i2bytes i 4 = .ok (Lib.BigEndian.toBytes i 4) := @i2bytes_ok i 4 (by omega)
    rw [counter]
    rfl
  refine ⟨(((List.range ((masklen + 31) / 32)).map fun i =>
    sha.digest (seed ++ Lib.BigEndian.toBytes i 4)).flatten).take masklen, ?_, ?_⟩
  · rw [mgf1, if_neg (by rw [hashOutlen]; omega), blocks, hashes]
    rfl
  · have total : (((List.range ((masklen + 31) / 32)).map fun i =>
        sha.digest (seed ++ Lib.BigEndian.toBytes i 4)).flatten).length =
        (masklen + 31) / 32 * 32 := by
      rw [List.length_flatten, List.map_map]
      simp [Function.comp_def, sha.length_digest]
    rw [List.length_take, total]
    omega

/-- **The mask of an input**, for a modulus that fits in `k` bytes: it has one byte less. -/
theorem mask_ok {n keySize : ℕ} (pos : 1 ≤ keySize / 8) (short : keySize / 8 < 2 ^ 32)
    (fits : n < 256 ^ (keySize / 8)) (alpha : Bytes) :
    ∃ em, mask sha n keySize alpha = .ok em ∧ em.length = keySize / 8 - 1 := by
  have one : i2bytes 1 1 = .ok (Lib.BigEndian.toBytes 1 1) := @i2bytes_ok 1 1 (by decide)
  have length : i2bytes (((keySize / 8 : ℕ) : ℤ)).toNat 4 =
      .ok (Lib.BigEndian.toBytes (keySize / 8) 4) := @i2bytes_ok _ 4 (by omega)
  obtain ⟨em, run, em_length⟩ := mgf1_ok sha (Lib.BigEndian.toBytes 1 1 ++
    Lib.BigEndian.toBytes (keySize / 8) 4 ++ Lib.BigEndian.toBytes n (keySize / 8) ++ alpha)
    (by rw [hashOutlen]; omega : keySize / 8 - 1 ≤ 2 ^ 32 * hashOutlen)
  refine ⟨em, ?_, em_length⟩
  rw [Nat.cast_sub pos, Nat.cast_one] at run
  simp only [mask, one, length, i2bytes_ok fits, ok_bind, run]

/-- What a returning `mask` says about the modulus. -/
theorem mask_eq_ok {n keySize : ℕ} {alpha em : Bytes} (eq : mask sha n keySize alpha = .ok em) :
    keySize / 8 < 2 ^ 32 ∧ n < 256 ^ (keySize / 8) := by
  unfold mask at eq
  obtain ⟨one, -, eq⟩ := bind_eq_ok.mp eq
  obtain ⟨length, atLength, eq⟩ := bind_eq_ok.mp eq
  obtain ⟨modulus, atModulus, -⟩ := bind_eq_ok.mp eq
  obtain ⟨-, short, -⟩ := i2bytes_eq_ok atLength
  obtain ⟨-, fits, -⟩ := i2bytes_eq_ok atModulus
  rw [Int.toNat_natCast] at short fits
  exact ⟨short, fits⟩

theorem vrfProofToHash_ok (pi : Bytes) : vrfProofToHash sha pi = .ok (sha.digest ([2] ++ pi)) := rfl

/-- **Which proofs are valid**: those whose number is raised to the mask of the input. -/
theorem vrfVerify_valid_iff (pk : RSAPublicKey) (alpha pi : Bytes) (beta : Option Bytes) :
    vrfVerify sha pk alpha pi = .ok (true, beta) ↔
      beta = some (sha.digest ([2] ++ pi)) ∧ ∃ m em, rsavp1 pk (bytes2ip pi) = .ok m ∧
        i2bytes m ((pk.keySize / 8 : ℕ) - 1) = .ok em ∧
        mask sha pk.n pk.keySize alpha = .ok em := by
  rw [vrfVerify]
  constructor
  · intro valid
    obtain ⟨m, power, valid⟩ := bind_eq_ok.mp valid
    cases number : i2bytes m ((pk.keySize / 8 : ℕ) - 1) with
    | error e =>
        rw [number] at valid
        cases e <;> cases valid
    | ok em =>
        rw [number] at valid
        obtain ⟨emCheck, masked, valid⟩ := bind_eq_ok.mp valid
        split_ifs at valid with same
        · subst same
          rw [vrfProofToHash_ok] at valid
          cases valid
          exact ⟨rfl, m, em, power, number, masked⟩
        · cases valid
  · rintro ⟨rfl, m, em, power, number, masked⟩
    rw [power, ok_bind, number]
    simp only [masked, ok_bind, if_true, vrfProofToHash_ok]
    rfl

end Masks

end Prism.Vrf
