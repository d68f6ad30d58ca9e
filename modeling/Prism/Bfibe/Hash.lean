import Prism.Python

/-!
Hashing to numbers and to byte strings (`bfibe/src/security.c`, `bfibe/src/hash.c`).

`hash_to_bytes` stretches a seed to a mask of any length, one digest at a time. Every full block goes
behind the one before it, but the last block is written to the *start* of the buffer. So the bytes
behind the full blocks keep what was in the buffer, unless there is no full block before the last.

* `hashToBytes_eq`: the seed decides the bytes before `written`, and the buffer those after.
-/

namespace Prism.Bfibe

/-! ### Security levels -/

/-- A hash function, with the length of its digests. -/
structure HashFn where
  digest : Bytes → Bytes
  hashlen : ℕ
  hashlen_pos : 0 < hashlen
  length_digest : ∀ data, (digest data).length = hashlen

/-- The hash functions of OpenSSL that the levels use. -/
structure OpenSsl where
  sha1 : HashFn
  sha224 : HashFn
  sha256 : HashFn
  sha384 : HashFn
  sha512 : HashFn
  sha1_length : sha1.hashlen = 20
  sha224_length : sha224.hashlen = 28
  sha256_length : sha256.hashlen = 32
  sha384_length : sha384.hashlen = 48
  sha512_length : sha512.hashlen = 64

/-- `BFSecurityLevel`. The length and the function of `hashfcn` are one value here. -/
structure BFSecurityLevel where
  level : UInt8
  nP : ℕ
  nQ : ℕ
  hashfcn : HashFn

/-- `setup_security`: nothing for a level that is not between 1 and 5. -/
def setupSecurity (ssl : OpenSsl) (level : UInt8) : Option BFSecurityLevel :=
  match level with
  | 1 => some ⟨level, 512, 160, ssl.sha1⟩
  | 2 => some ⟨level, 1024, 224, ssl.sha224⟩
  | 3 => some ⟨level, 1536, 256, ssl.sha256⟩
  | 4 => some ⟨level, 3840, 384, ssl.sha384⟩
  | 5 => some ⟨level, 7680, 512, ssl.sha512⟩
  | _ => none

theorem setupSecurity_cases {ssl : OpenSsl} {level : UInt8} {security : BFSecurityLevel}
    (set : setupSecurity ssl level = some security) :
    security.level = level ∧
      (level = 1 ∨ level = 2 ∨ level = 3 ∨ level = 4 ∨ level = 5) := by
  unfold setupSecurity at set
  split at set <;> cases set <;> simp

/-- `memcpy(result + offset, source, …)`. -/
def memcpy (result : Bytes) (offset : ℕ) (source : Bytes) : Bytes :=
  result.take offset ++ source ++ result.drop (offset + source.length)

/-- A copy right behind a prefix. -/
theorem memcpy_append (front tail source : Bytes) :
    memcpy (front ++ tail) front.length source = (front ++ source) ++ tail.drop source.length := by
  rw [memcpy, List.take_left, List.drop_length_add_append]

/-- A copy into a prefix. -/
theorem memcpy_zero (front tail source : Bytes) (fits : source.length ≤ front.length) :
    memcpy (front ++ tail) 0 source = (source ++ front.drop source.length) ++ tail := by
  rw [memcpy, List.take_zero, List.nil_append, Nat.zero_add, List.drop_append_of_le_length fits,
    List.append_assoc]

namespace BFSecurityLevel

variable (security : BFSecurityLevel)

/-- The length of a digest. -/
def hashlen : ℕ := security.hashfcn.hashlen

theorem hashlen_pos : 0 < security.hashlen := security.hashfcn.hashlen_pos

@[simp] theorem length_digest (data : Bytes) :
    (security.hashfcn.digest data).length = security.hashlen :=
  security.hashfcn.length_digest data

/-! ### Numbers -/

/-- `hash_to_range`: two rounds of digests, read as one big-endian number modulo `q`. -/
def hashToRange (input : Bytes) (q : ℕ) : ℕ :=
  let h₁ := security.hashfcn.digest (List.replicate security.hashlen 0 ++ input)
  let h₂ := security.hashfcn.digest (h₁ ++ input)
  let v := 0 * 256 ^ security.hashlen + intFromBytes h₁
  (v * 256 ^ security.hashlen + intFromBytes h₂) % q

/-! ### Byte strings -/

/-- The loop of `hash_to_bytes`. A full block is copied to `result + copied`, the last block to
`result`. -/
def hashToBytesLoop (K : Bytes) (result h : Bytes) (copied remaining : ℕ) : Bytes :=
  if remaining = 0 then result
  else
    let h := security.hashfcn.digest h
    let r := security.hashfcn.digest (h ++ K)
    if remaining > security.hashlen then
      hashToBytesLoop K (memcpy result copied r) h (copied + security.hashlen)
        (remaining - security.hashlen)
    else
      memcpy result 0 (r.take remaining)
  termination_by remaining
  decreasing_by
    have := security.hashlen_pos
    omega

/-- `hash_to_bytes`: `outlen` bytes from a seed, written into the buffer `result`. -/
def hashToBytes (result : Bytes) (outlen : ℕ) (seed : Bytes) : Bytes :=
  security.hashToBytesLoop (security.hashfcn.digest seed) result
    (List.replicate security.hashlen 0) 0 outlen

/-- The full blocks before the last one. -/
def filled (outlen : ℕ) : ℕ := security.hashlen * ((outlen - 1) / security.hashlen)

theorem filled_of_le {outlen : ℕ} (short : outlen ≤ security.hashlen) :
    security.filled outlen = 0 := by
  have := security.hashlen_pos
  rw [filled, Nat.div_eq_of_lt (by omega), Nat.mul_zero]

theorem filled_of_gt {outlen : ℕ} (long : security.hashlen < outlen) :
    security.filled outlen = security.hashlen + security.filled (outlen - security.hashlen) := by
  have pos := security.hashlen_pos
  have shifted : outlen - 1 = outlen - security.hashlen - 1 + security.hashlen := by omega
  rw [filled, filled, shifted, Nat.add_div_right _ pos, Nat.mul_succ, Nat.add_comm]

theorem filled_lt {outlen : ℕ} (pos : 0 < outlen) : security.filled outlen < outlen := by
  have := Nat.mul_div_le (outlen - 1) security.hashlen
  unfold filled
  omega

/-- Once there is a full block, the last one only overwrites bytes in front: what follows the full
blocks is left. -/
theorem hashToBytesLoop_eq (K front h : Bytes) (remaining : ℕ)
    (block : security.hashlen ≤ front.length) :
    ∃ mask : Bytes, mask.length = front.length + security.filled remaining ∧
      ∀ tail : Bytes, remaining ≤ tail.length →
        security.hashToBytesLoop K (front ++ tail) h front.length remaining =
          mask ++ tail.drop (security.filled remaining) := by
  induction remaining using Nat.strong_induction_on generalizing front h with
  | _ remaining ih =>
      have pos := security.hashlen_pos
      by_cases none_left : remaining = 0
      · refine ⟨front, ?_, fun tail _ => ?_⟩
        · rw [security.filled_of_le (by omega), Nat.add_zero]
        · rw [hashToBytesLoop, if_pos none_left, security.filled_of_le (by omega), List.drop_zero]
      · by_cases more : remaining > security.hashlen
        · have shorter : remaining - security.hashlen < remaining := by omega
          let r := security.hashfcn.digest (security.hashfcn.digest h ++ K)
          have length_r : r.length = security.hashlen := security.length_digest _
          obtain ⟨mask, length_mask, runs⟩ := ih _ shorter (front ++ r)
            (security.hashfcn.digest h) (by rw [List.length_append]; omega)
          refine ⟨mask, ?_, fun tail room => ?_⟩
          · rw [length_mask, security.filled_of_gt more, List.length_append, length_r]
            omega
          · have rest := runs (tail.drop security.hashlen) (by rw [List.length_drop]; omega)
            rw [List.length_append, length_r] at rest
            rw [hashToBytesLoop, if_neg none_left, if_pos more]
            rw [memcpy_append, security.length_digest, rest, List.drop_drop,
              ← security.filled_of_gt more]
        · have last := security.filled_of_le (Nat.le_of_not_gt more)
          let r := (security.hashfcn.digest (security.hashfcn.digest h ++ K)).take remaining
          have length_r : r.length = remaining := by
            rw [List.length_take, security.length_digest]
            omega
          refine ⟨r ++ front.drop r.length, ?_, fun tail _ => ?_⟩
          · rw [List.length_append, List.length_drop, last]
            omega
          · rw [hashToBytesLoop, if_neg none_left, if_neg more, last, List.drop_zero]
            exact memcpy_zero front tail r (by omega)

/-- The bytes of the buffer that the seed decides. -/
def written (outlen : ℕ) : ℕ :=
  if outlen ≤ security.hashlen then outlen else security.filled outlen

theorem written_le (outlen : ℕ) : security.written outlen ≤ outlen := by
  unfold written
  split
  · exact Nat.le_refl _
  · exact (security.filled_lt (by omega)).le

/-- **What `hash_to_bytes` writes.** The seed decides the bytes before `written`; those behind are
the buffer's own. -/
theorem hashToBytes_eq (outlen : ℕ) (seed : Bytes) :
    ∃ mask : Bytes, mask.length = security.written outlen ∧
      ∀ result : Bytes, result.length = outlen →
        security.hashToBytes result outlen seed =
          mask ++ result.drop (security.written outlen) := by
  have pos := security.hashlen_pos
  let K := security.hashfcn.digest seed
  let h := security.hashfcn.digest (List.replicate security.hashlen 0)
  let r := security.hashfcn.digest (h ++ K)
  have length_r : r.length = security.hashlen := security.length_digest _
  by_cases short : outlen ≤ security.hashlen
  · have whole : security.written outlen = outlen := if_pos short
    refine ⟨r.take outlen, ?_, fun result same => ?_⟩
    · rw [List.length_take, length_r, whole]
      omega
    · rw [whole, List.drop_eq_nil_of_le (by omega), List.append_nil, hashToBytes, hashToBytesLoop]
      by_cases none_left : outlen = 0
      · rw [if_pos none_left, none_left, List.take_zero]
        exact List.length_eq_zero_iff.mp (by omega)
      · rw [if_neg none_left, if_neg (by omega)]
        have fits : (r.take outlen).length = outlen := by
          rw [List.length_take]
          omega
        have copied := memcpy_zero result [] (r.take outlen) (by omega)
        rw [List.append_nil, List.append_nil, fits, List.drop_eq_nil_of_le (by omega),
          List.append_nil] at copied
        exact copied
  · have long : security.hashlen < outlen := by omega
    have partly : security.written outlen = security.filled outlen := if_neg short
    obtain ⟨mask, length_mask, runs⟩ :=
      security.hashToBytesLoop_eq K r h (outlen - security.hashlen) (by omega)
    refine ⟨mask, ?_, fun result same => ?_⟩
    · rw [length_mask, partly, security.filled_of_gt long, length_r]
    · have rest := runs (result.drop security.hashlen) (by rw [List.length_drop]; omega)
      rw [length_r, List.drop_drop, ← security.filled_of_gt long] at rest
      have copied : memcpy result 0 r = r ++ result.drop security.hashlen := by
        rw [memcpy, List.take_zero, List.nil_append, Nat.zero_add, length_r]
      rw [partly, hashToBytes, hashToBytesLoop, if_neg (by omega), if_pos long, Nat.zero_add]
      exact copied ▸ rest

end BFSecurityLevel

end Prism.Bfibe
