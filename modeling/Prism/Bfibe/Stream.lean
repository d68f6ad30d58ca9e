import Prism.Bfibe.Scheme

/-!
The stream that masks a message (`hash_to_bytes` in `bfibe/src/hash.c`, and its use in
`bfibe/src/bfibe.c`).

The stream of a seed is made of blocks, and a mask is as much of it as the message has bytes. The
code writes the last block to the start of the buffer. As long as one block is enough, that is where
it belongs. Beyond, the last bytes of a message are not masked.

* `hashToBytes_short`: what is written for at most one block.
* `masks_iff`: for which lengths messages are masked with the stream.
-/

namespace Prism.Bfibe

open Crypto (xorBytes)

namespace BFSecurityLevel

variable (security : BFSecurityLevel)

/-- `h_i`: the digests of the zeros, one of the other. -/
def hashChain (i : ℕ) : Bytes := security.hashfcn.digest^[i] (List.replicate security.hashlen 0)

/-- `r_i`: the blocks of the stream. -/
def streamBlock (seed : Bytes) (i : ℕ) : Bytes :=
  security.hashfcn.digest (security.hashChain i ++ security.hashfcn.digest seed)

/-- **The stream of a seed**: the first bytes of `r_1`, `r_2` and so on. Each block has a byte at
least. -/
def stream (seed : Bytes) (outlen : ℕ) : Bytes :=
  ((List.range outlen).flatMap fun i => security.streamBlock seed (i + 1)).take outlen

@[simp] theorem length_streamBlock (seed : Bytes) (i : ℕ) :
    (security.streamBlock seed i).length = security.hashlen := security.length_digest _

/-- One block is enough for a short mask. -/
theorem stream_short {outlen : ℕ} (short : outlen ≤ security.hashlen) (seed : Bytes) :
    security.stream seed outlen = (security.streamBlock seed 1).take outlen := by
  cases outlen with
  | zero => simp [stream]
  | succ n =>
      rw [stream, List.range_succ_eq_map, List.flatMap_cons, List.take_append_of_le_length]
      rwa [length_streamBlock]

/-- **At most one block** is written where it belongs. -/
theorem hashToBytes_short {outlen : ℕ} (short : outlen ≤ security.hashlen) (seed : Bytes)
    {result : Bytes} (room : result.length = outlen) :
    security.hashToBytes result outlen seed = security.stream seed outlen := by
  rw [security.stream_short short, hashToBytes, hashToBytesLoop]
  by_cases none_left : outlen = 0
  · rw [if_pos none_left, none_left, List.take_zero]
    exact List.length_eq_zero_iff.mp (room.trans none_left)
  · rw [if_neg none_left, if_neg (not_lt.mpr short), memcpy, List.take_zero, List.nil_append]
    have length : ((security.streamBlock seed 1).take outlen).length = outlen := by
      rw [List.length_take, length_streamBlock]
      omega
    change (security.streamBlock seed 1).take outlen ++ List.drop
      (0 + ((security.streamBlock seed 1).take outlen).length) result = _
    rw [length, List.drop_eq_nil_of_le (by omega), List.append_nil]

/-- What is written for more than one block depends on the buffer. -/
theorem hashToBytes_long {outlen : ℕ} (long : security.hashlen < outlen) (seed : Bytes)
    (b : UInt8) :
    (security.hashToBytes (List.replicate outlen b) outlen seed).getLast? = some b := by
  obtain ⟨mask, -, runs⟩ := security.hashToBytes_eq outlen seed
  have behind : security.written outlen < outlen := by
    rw [written, if_neg (by omega)]
    exact security.filled_lt (by omega)
  rw [runs _ List.length_replicate, List.drop_replicate, List.getLast?_append,
    List.getLast?_replicate, if_neg (by omega)]
  rfl

end BFSecurityLevel

section

variable {G T : Type} [AddCommGroup G] [CommGroup T] {pbc : Pbc G T}

theorem encrypted_W {params : BFPublicParameters pbc} {Q : G} {m rho : Bytes}
    {message : BFMessage G} (sent : params.bfEncrypt Q m (some rho) = some message) :
    message.W = xorBytes
      (params.security.hashToBytes (List.replicate m.length 0) m.length rho) m := by
  cases Option.some.inj sent
  rfl

/-- **The lengths that are masked.** For every seed and buffer the stream is written, and each
message is masked with it, exactly for the lengths of at most one digest. Of a longer message, the
bytes behind the full blocks are sent as they are. -/
theorem masks_iff (params : BFPublicParameters pbc) (outlen : ℕ) :
    (((∀ (seed result : Bytes), result.length = outlen →
          params.security.hashToBytes result outlen seed = params.security.stream seed outlen) ∧
        ∀ Q m rho message, m.length = outlen → params.bfEncrypt Q m (some rho) = some message →
          message.W = xorBytes (params.security.stream rho outlen) m) ↔
      outlen ≤ params.security.hashlen) ∧
    (params.security.hashlen < outlen → params.security.filled outlen < outlen ∧
      ∀ Q m rho message, m.length = outlen → params.bfEncrypt Q m (some rho) = some message →
        message.W.drop (params.security.filled outlen) =
          m.drop (params.security.filled outlen)) := by
  refine ⟨⟨?_, fun short => ⟨fun seed result room => ?_, ?_⟩⟩, fun long => ⟨?_, ?_⟩⟩
  · rintro ⟨written, -⟩
    by_contra long
    have zeros := params.security.hashToBytes_long (not_le.mp long) [] 0
    have ones := params.security.hashToBytes_long (not_le.mp long) [] 1
    rw [written [] _ List.length_replicate] at zeros ones
    exact absurd (zeros.symm.trans ones) (by decide)
  · exact params.security.hashToBytes_short short seed room
  · intro Q m rho message length sent
    rw [encrypted_W sent, length,
      params.security.hashToBytes_short short rho List.length_replicate]
  · exact params.security.filled_lt (by omega)
  · intro Q m rho message length sent
    obtain ⟨mask, length_mask, runs⟩ := params.security.hashToBytes_eq outlen rho
    have partly : params.security.written outlen = params.security.filled outlen :=
      if_neg (not_le.mpr long)
    have zeros : xorBytes (List.replicate (m.drop (params.security.filled outlen)).length 0)
        (m.drop (params.security.filled outlen)) = m.drop (params.security.filled outlen) :=
      (xorBytes_eq_right List.length_replicate).mpr fun x mem => List.eq_of_mem_replicate mem
    rw [encrypted_W sent, length, runs _ List.length_replicate, partly, List.drop_replicate,
      xorBytes, List.drop_zipWith, List.drop_append_of_le_length (by omega),
      List.drop_eq_nil_of_le (by omega), List.nil_append]
    rwa [List.length_drop, length] at zeros

end

/-- A hash function whose digests are all the same. -/
def HashFn.constant (hashlen : ℕ) (pos : 0 < hashlen) (b : UInt8) : HashFn where
  digest _ := List.replicate hashlen b
  hashlen := hashlen
  hashlen_pos := pos
  length_digest _ := List.length_replicate

/-- A mask of one byte more than a digest: the last one is missing. -/
theorem last_byte_unmasked :
    let security : BFSecurityLevel := ⟨1, 512, 160, .constant 20 (by decide) 7⟩
    security.hashToBytes (List.replicate 21 0) 21 [1] ≠ security.stream [1] 21 := by
  intro security same
  have long : security.hashlen < 21 := by decide
  have last := security.hashToBytes_long long [1] 0
  rw [same] at last
  exact absurd last (by decide +kernel)

end Prism.Bfibe
