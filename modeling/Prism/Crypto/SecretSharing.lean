import Prism.Crypto.Shamir
import Prism.Message.Codec

/-!
Sharing byte strings (`prism/common/crypto/secretsharing/secretsharing.py`).

A byte string is cut into chunks of `chunk_size_bytes`, each chunk is framed by `cbor2`
and read as a number, and the numbers are shared. What one party gets is a list of
shares, one for each chunk, packed into bytes by `join_shares`.

* `encodeChunk_ok`: a chunk of at most 253 bytes is a number below the modulus, and
  `decode_chunk` gives it back.
* `encodeChunk_inj`: different chunks of at most 255 bytes are different numbers.
* `shareBytes_eq`, `reconstructBytes_ok`: sharing raises nothing, and the shares of
  enough distinct parties give the byte string back.
* `splitShares_joinShares`: packing shares loses nothing.
-/

namespace Prism.Crypto

/-- The slices `data[i : i + size]` for `i` in `range(0, len(data), size)`. -/
def chunksOf (size : ℕ) (data : Bytes) : List Bytes :=
  (List.range ((data.length + size - 1) / size)).map fun k => (data.drop (k * size)).take size

namespace ShamirSS

variable (ss : ShamirSS) (cbor : Cbor2)

/-- `chunk_size_bytes`: the carrying capacity of a single share when splitting a secret
into chunks. -/
def chunkSizeBytes : ℤ := ((bitLength ss.modulus - 1) / 8 : ℕ) - 2

/-- `encode_chunk`. -/
def encodeChunk (data : Bytes) : Py ℤ := do
  let result := intFromBytes (← cbor.dumps (.bytes data))
  pyAssert (result < ss.modulus)
  return result

/-- `decode_chunk`, of a secret that is not negative. The result is joined to a byte
string, which raises a `TypeError` if it is none. -/
def decodeChunk (secret : ℤ) : Py Bytes := do
  pyAssert (secret < ss.modulus)
  let value ← cbor.loads
    (← intToBytes secret.toNat ((bitLength secret.toNat + 7) / 8 : ℕ))
  match value with
  | .bytes data => return data
  | _ => throw .typeError

/-- `encode_bytes`. With a negative step the range of the chunks is empty. -/
def encodeBytes (data : Bytes) : Py (List ℤ) :=
  if ss.chunkSizeBytes = 0 then .error (.valueError "range() arg 3 must not be zero")
  else if ss.chunkSizeBytes < 0 then .ok []
  else (chunksOf ss.chunkSizeBytes.toNat data).mapM (ss.encodeChunk cbor)

/-- `decode_bytes`. -/
def decodeBytes (secrets : List ℤ) : Py Bytes := List.flatten <$> secrets.mapM (ss.decodeChunk cbor)

/-- `share_bytes`: the outer list is indexed by party, the inner lists by chunk. The
`k`-th chunk is shared with the `k`-th draw. -/
def shareBytes (data : Bytes) (drawn : ℕ → ss.Draw) : Py (List (List Share)) := do
  let secrets ← ss.encodeBytes cbor data
  return zipStar (secrets.zipIdx.map fun (secret, k) => ss.share secret (drawn k))

/-- `reconstruct_bytes`. -/
def reconstructBytes (shares : List (List Share)) (iq : ℤ) : Py Bytes := do
  ss.decodeBytes cbor (← (zipStar shares).mapM fun chunk => ss.reconstruct chunk iq)

/-- `join_shares`. -/
def joinShares (shares : List Share) : Py Bytes :=
  match shares with
  | [] => .error .indexError
  | first :: _ => cbor.dumps (.list (.int first.x :: shares.map fun share => .int share.share))

/-- `split_shares`. -/
def splitShares (data : Bytes) : Py (List Share) := do
  match ← cbor.loads data with
  | .list [] => return []
  | .list (x :: values) =>
    match x.int? with
    | none => throw .typeError
    | some x => values.mapM fun value =>
      match value.int? with
      | none => throw .typeError
      | some share => return ⟨share, x⟩
  | _ => throw .typeError

end ShamirSS

/-! ### Chunks -/

theorem chunksOf_flatten {size : ℕ} (pos : 0 < size) (data : Bytes) :
    (chunksOf size data).flatten = data := by
  have taken : ∀ n, ((List.range n).map fun k => (data.drop (k * size)).take size).flatten =
      data.take (n * size) := by
    intro n
    induction n with
    | zero => simp
    | succ n ih =>
        rw [List.range_succ, List.map_append, List.flatten_append, ih, Nat.succ_mul, List.take_add]
        simp
  rw [chunksOf, taken]
  apply List.take_of_length_le
  have := Nat.lt_div_mul_add (a := data.length + size - 1) pos
  omega

theorem chunksOf_length_le {size : ℕ} {data chunk : Bytes} (mem : chunk ∈ chunksOf size data) :
    chunk.length ≤ size := by
  obtain ⟨k, -, rfl⟩ := List.mem_map.mp mem
  exact List.length_take_le _ _

/-- The first chunk. -/
theorem chunksOf_eq_cons {size : ℕ} (pos : 0 < size) {data : Bytes} (ne : data ≠ []) :
    ∃ rest, chunksOf size data = data.take size :: rest := by
  have len : 0 < data.length := List.length_pos_iff.mpr ne
  obtain ⟨n, eq⟩ : ∃ n, (data.length + size - 1) / size = n + 1 := by
    refine Nat.exists_eq_succ_of_ne_zero ?_
    have := Nat.div_pos (a := data.length + size - 1) (b := size) (by omega) pos
    omega
  refine ⟨(List.range n).map fun k => (data.drop ((k + 1) * size)).take size, ?_⟩
  rw [chunksOf, eq, List.range_succ_eq_map, List.map_cons, List.map_map]
  simp [Function.comp_def]

theorem cborBytesHead_eq_cons (length : ℕ) :
    ∃ b bs, cborBytesHead length = b :: bs ∧ b ≠ 0 ∧ bs.length ≤ 1 := by
  unfold cborBytesHead
  split_ifs with short
  · refine ⟨_, [], rfl, fun eq => ?_, by simp⟩
    have value := congrArg UInt8.toNat eq
    simp only [UInt8.toNat_ofNat', UInt8.toNat_zero] at value
    omega
  · exact ⟨_, _, rfl, by decide, by simp⟩

namespace ShamirSS

variable {ss : ShamirSS} {cbor : Cbor2}

/-- The number that a framed chunk spells. -/
def framed (chunk : Bytes) : ℕ := intFromBytes (cborBytesHead chunk.length ++ chunk)

/-- `encode_chunk` on a chunk that is not long. -/
theorem encodeChunk_eq {chunk : Bytes} (short : chunk.length < 256) {n : ℤ} :
    ss.encodeChunk cbor chunk = .ok n ↔ n = framed chunk ∧ framed chunk < ss.modulus := by
  rw [encodeChunk, cbor.dumps_bytes chunk short, ok_bind]
  change (do pyAssert (framed chunk < ss.modulus); return (framed chunk : ℤ)) = .ok n ↔ _
  by_cases fits : framed chunk < ss.modulus
  · rw [pyAssert_of_true fits, ok_bind]
    constructor
    · intro eq
      exact ⟨(Except.ok.inj eq).symm, fits⟩
    · rintro ⟨rfl, -⟩
      rfl
  · rw [pyAssert_of_false fits, error_bind]
    constructor
    · intro eq
      cases eq
    · rintro ⟨-, lt⟩
      exact absurd lt fits

/-- **Different chunks are different numbers.** -/
theorem encodeChunk_inj {a b : Bytes} (shortA : a.length < 256) (shortB : b.length < 256)
    {n : ℤ} (ha : ss.encodeChunk cbor a = .ok n) (hb : ss.encodeChunk cbor b = .ok n) : a = b := by
  obtain ⟨eqA, -⟩ := (encodeChunk_eq shortA).mp ha
  obtain ⟨eqB, -⟩ := (encodeChunk_eq shortB).mp hb
  obtain ⟨x, xs, headA, nonzeroA, -⟩ := cborBytesHead_eq_cons a.length
  obtain ⟨y, ys, headB, nonzeroB, -⟩ := cborBytesHead_eq_cons b.length
  have numbers : framed a = framed b := by exact_mod_cast eqA.symm.trans eqB
  have frames : cborBytesHead a.length ++ a = cborBytesHead b.length ++ b := by
    rw [framed, framed, headA, headB] at numbers
    rw [headA, headB]
    exact Lib.BigEndian.ofBytes_inj_of_nonzero nonzeroA nonzeroB numbers
  -- the frames are equal, so what the package reads from them is
  obtain ⟨bytesA, dumpsA, loadsA⟩ := cbor.loads_dumps (.bytes a) rfl
  obtain ⟨bytesB, dumpsB, loadsB⟩ := cbor.loads_dumps (.bytes b) rfl
  rw [cbor.dumps_bytes a shortA] at dumpsA
  rw [cbor.dumps_bytes b shortB, ← frames] at dumpsB
  cases dumpsA
  cases dumpsB
  rw [loadsA] at loadsB
  exact Value.bytes.inj (Except.ok.inj loadsB)

theorem two_pow_le_modulus {size : ℕ} (capacity : (size : ℤ) ≤ ss.chunkSizeBytes)
    (pos : 0 < size) : 256 ^ (size + 2) ≤ ss.modulus := by
  have bits : 8 * (size + 2) < ss.modulus.size := by
    rw [chunkSizeBytes, bitLength] at capacity
    omega
  have le := Nat.lt_size.mp bits
  rwa [show (256 : ℕ) = 2 ^ 8 from rfl, ← pow_mul]

/-- **A chunk round trips**: a chunk that is no longer than the capacity, and at most 253
bytes, is a number below the modulus, and decoding that gives the chunk back. -/
theorem encodeChunk_ok {chunk : Bytes} (capacity : (chunk.length : ℤ) ≤ ss.chunkSizeBytes)
    (one_le : 1 ≤ ss.chunkSizeBytes) (le : ss.chunkSizeBytes ≤ 253) :
    ∃ n : ℕ, ss.encodeChunk cbor chunk = .ok n ∧ n < ss.modulus ∧
      ss.decodeChunk cbor n = .ok chunk := by
  have short : chunk.length < 256 := by omega
  obtain ⟨b, bs, head, nonzero, len⟩ := cborBytesHead_eq_cons chunk.length
  have fits : framed chunk < ss.modulus := by
    have lt := Lib.BigEndian.ofBytes_lt (cborBytesHead chunk.length ++ chunk)
    have length : (cborBytesHead chunk.length ++ chunk).length ≤ ss.chunkSizeBytes.toNat + 2 := by
      rw [head, List.length_append, List.length_cons]
      omega
    have room := @two_pow_le_modulus ss ss.chunkSizeBytes.toNat (by omega) (by omega)
    exact lt_of_lt_of_le lt ((Nat.pow_le_pow_right (by decide) length).trans room)
  refine ⟨framed chunk, (encodeChunk_eq short).mpr ⟨rfl, fits⟩, fits, ?_⟩
  -- the first byte of the head is not zero, so the bit length gives the byte length
  have written : intToBytes (framed chunk) ((bitLength (framed chunk) + 7) / 8 : ℕ) =
      .ok (cborBytesHead chunk.length ++ chunk) := by
    have back := Lib.BigEndian.toBytes_byteLength nonzero (bs ++ chunk)
    have size := Lib.BigEndian.byteLength_ofBytes nonzero (bs ++ chunk)
    have lt := Lib.BigEndian.ofBytes_lt (b :: (bs ++ chunk))
    rw [List.length_cons, ← size, Lib.BigEndian.byteLength] at lt
    rw [Lib.BigEndian.byteLength] at back
    rw [framed, head, List.cons_append, intToBytes, intFromBytes, bitLength, if_neg (by omega),
      Int.toNat_natCast, if_pos lt, back]
  obtain ⟨bytes, dumps, loads⟩ := cbor.loads_dumps (.bytes chunk) rfl
  rw [cbor.dumps_bytes chunk short] at dumps
  cases dumps
  rw [decodeChunk, pyAssert_of_true (by exact_mod_cast fits), ok_bind, Int.toNat_natCast, written,
    ok_bind, loads]
  rfl

/-! ### Byte strings -/

/-- With a capacity between 1 and 253 every byte string is encoded, to numbers below the
modulus that decode to it; a string that is not empty has a first chunk. -/
theorem encodeBytes_ok (one_le : 1 ≤ ss.chunkSizeBytes) (le : ss.chunkSizeBytes ≤ 253)
    (data : Bytes) :
    ∃ secrets : List ℤ, ss.encodeBytes cbor data = .ok secrets ∧
      (∀ secret ∈ secrets, 0 ≤ secret ∧ secret < ss.modulus) ∧
      ss.decodeBytes cbor secrets = .ok data ∧ (data ≠ [] → secrets ≠ []) := by
  have pos : 0 < ss.chunkSizeBytes.toNat := by omega
  have each : ∀ chunk ∈ chunksOf ss.chunkSizeBytes.toNat data, ∃ n : ℕ,
      ss.encodeChunk cbor chunk = .ok n ∧ n < ss.modulus ∧ ss.decodeChunk cbor n = .ok chunk := by
    intro chunk mem
    have len := chunksOf_length_le mem
    exact encodeChunk_ok (by omega) one_le le
  choose! n encode lt decode using each
  refine ⟨(chunksOf ss.chunkSizeBytes.toNat data).map fun chunk => (n chunk : ℤ), ?_, ?_, ?_, ?_⟩
  · rw [encodeBytes, if_neg (by omega), if_neg (by omega)]
    exact mapM_ok encode
  · intro secret mem
    obtain ⟨chunk, memChunk, rfl⟩ := List.mem_map.mp mem
    exact ⟨by positivity, by exact_mod_cast lt chunk memChunk⟩
  · have decoded := mapM_ok (f := fun chunk => ss.decodeChunk cbor (n chunk)) (g := id) decode
    rw [List.map_id] at decoded
    rw [decodeBytes, List.mapM_map]
    change List.flatten <$> List.mapM (fun chunk => ss.decodeChunk cbor (n chunk)) _ = _
    rw [decoded]
    exact congrArg Except.ok (chunksOf_flatten pos data)
  · intro ne
    obtain ⟨rest, eq⟩ := chunksOf_eq_cons pos ne
    rw [eq]
    exact List.cons_ne_nil _ _

/-- The first secret of a byte string is its first chunk. -/
theorem encodeBytes_head (pos : 0 < ss.chunkSizeBytes) {data : Bytes} (ne : data ≠ [])
    {secrets : List ℤ} (encoded : ss.encodeBytes cbor data = .ok secrets) :
    ∃ secret rest, secrets = secret :: rest ∧
      ss.encodeChunk cbor (data.take ss.chunkSizeBytes.toNat) = .ok secret := by
  obtain ⟨chunks, eq⟩ := @chunksOf_eq_cons ss.chunkSizeBytes.toNat (by omega) _ ne
  rw [encodeBytes, if_neg (by omega), if_neg (by omega), eq, List.mapM_cons] at encoded
  obtain ⟨secret, first, encoded⟩ := bind_eq_ok.mp encoded
  obtain ⟨rest, -, encoded⟩ := bind_eq_ok.mp encoded
  exact ⟨secret, rest, (Except.ok.inj encoded).symm, first⟩

/-- What a party is handed for each of the secrets. -/
def partyShares (ss : ShamirSS) (secrets : List ℤ) (drawn : ℕ → ss.Draw) (party : ℕ) :
    List Share :=
  secrets.zipIdx.map fun (secret, k) => ss.shareOf secret (drawn k).1 party

/-- `share_bytes` transposes the shares of the chunks. -/
theorem shareBytes_eq {data : Bytes} {secrets : List ℤ}
    (encoded : ss.encodeBytes cbor data = .ok secrets) (ne : secrets ≠ [])
    (drawn : ℕ → ss.Draw) :
    ss.shareBytes cbor data drawn =
      .ok ((List.range ss.nparties).map (ss.partyShares secrets drawn)) := by
  have indexed : secrets.zipIdx ≠ [] := by simpa using ne
  rw [shareBytes, encoded, ok_bind]
  refine congrArg Except.ok ?_
  exact zipStar_map indexed (List.range ss.nparties) fun (secret, k) party =>
    ss.shareOf secret (drawn k).1 party

/-- The secrets from the shares of enough distinct parties. -/
theorem reconstruct_partyShares (prime : ss.modulus.Prime) (lt : ss.nparties < ss.modulus)
    (threshold_pos : 1 ≤ ss.threshold) {secrets : List ℤ}
    (range : ∀ secret ∈ secrets, 0 ≤ secret ∧ secret < ss.modulus) (drawn : ℕ → ss.Draw)
    {js : List ℕ} (nodup : js.Nodup) (parties : ∀ j ∈ js, j < ss.nparties)
    (enough : ss.threshold ≤ js.length) :
    (zipStar (js.map (ss.partyShares secrets drawn))).mapM (fun chunk => ss.reconstruct chunk 0) =
      .ok secrets := by
  have : Fact ss.modulus.Prime := ⟨prime⟩
  have ne : js ≠ [] := by
    rintro rfl
    simp at enough
    omega
  have each : ∀ entry ∈ secrets.zipIdx, ss.reconstruct
      (js.map fun party => ss.shareOf entry.1 (drawn entry.2).1 party) 0 = .ok entry.1 := by
    rintro ⟨secret, k⟩ mem
    obtain ⟨low, high⟩ := range secret (List.fst_mem_of_mem_zipIdx mem)
    obtain ⟨w, run, lowW, highW, value⟩ := reconstruct_shared lt
      (share_sharesOf ss threshold_pos secret (drawn k)) (fun i _ => rfl) parties nodup parties
      enough
    rw [ZMod.intCast_eq_intCast_iff', Int.emod_eq_of_lt lowW highW, Int.emod_eq_of_lt low high]
      at value
    rw [run, value]
  have columns : zipStar (js.map (ss.partyShares secrets drawn)) =
      secrets.zipIdx.map fun entry => js.map fun party =>
        ss.shareOf entry.1 (drawn entry.2).1 party :=
    zipStar_map ne secrets.zipIdx fun party entry => ss.shareOf entry.1 (drawn entry.2).1 party
  rw [columns, List.mapM_map]
  refine (mapM_ok (g := Prod.fst) each).trans ?_
  exact congrArg Except.ok (List.zipIdx_map_fst 0 secrets)

/-- **A shared byte string comes back** from the shares of enough distinct parties. -/
theorem reconstructBytes_ok (prime : ss.modulus.Prime) (lt : ss.nparties < ss.modulus)
    (threshold_pos : 1 ≤ ss.threshold) {data : Bytes} {secrets : List ℤ}
    (range : ∀ secret ∈ secrets, 0 ≤ secret ∧ secret < ss.modulus)
    (decoded : ss.decodeBytes cbor secrets = .ok data) (drawn : ℕ → ss.Draw) {js : List ℕ}
    (nodup : js.Nodup) (parties : ∀ j ∈ js, j < ss.nparties)
    (enough : ss.threshold ≤ js.length) :
    ss.reconstructBytes cbor (js.map (ss.partyShares secrets drawn)) 0 = .ok data := by
  rw [reconstructBytes, reconstruct_partyShares prime lt threshold_pos range drawn nodup parties
    enough, ok_bind, decoded]

theorem intList_plain (x : ℤ) (shares : List Share) :
    (Value.list (.int x :: shares.map fun share => .int share.share)).isPlain = true := by
  have all : Value.allPlain (shares.map fun share => .int share.share) = true := by
    induction shares with
    | nil => rfl
    | cons share shares ih => rw [List.map_cons, Value.allPlain, ih]; rfl
  rw [Value.isPlain, Value.allPlain, all]
  rfl

theorem intList_loaded (x : ℤ) (shares : List Share) :
    (Value.list (.int x :: shares.map fun share => .int share.share)).loaded =
      .list (.int x :: shares.map fun share => .int share.share) := by
  have all : Value.allLoaded (shares.map fun share => .int share.share) =
      shares.map fun share => .int share.share := by
    induction shares with
    | nil => rfl
    | cons share shares ih => rw [List.map_cons, Value.allLoaded, ih]; rfl
  rw [Value.loaded, Value.allLoaded, all]
  rfl

/-- **Packing shares loses nothing**: the shares of one party are packed into some bytes,
and unpacked from them. -/
theorem splitShares_joinShares {secrets : List ℤ} (ne : secrets ≠ []) (drawn : ℕ → ss.Draw)
    (party : ℕ) :
    ∃ data, joinShares cbor (ss.partyShares secrets drawn party) = .ok data ∧ data ≠ [] ∧
      splitShares cbor data = .ok (ss.partyShares secrets drawn party) := by
  set shares := ss.partyShares secrets drawn party with hshares
  have own : ∀ share ∈ shares, share.x = party := by
    intro share mem
    obtain ⟨entry, -, rfl⟩ := List.mem_map.mp mem
    rfl
  have packed : joinShares cbor shares =
      cbor.dumps (.list (.int party :: shares.map fun share => .int share.share)) := by
    cases eq : shares with
    | nil => exact absurd (by simpa [hshares, partyShares] using eq) ne
    | cons first rest => rw [joinShares, own first (by simp [eq])]
  obtain ⟨data, dumps, loads⟩ := cbor.loads_dumps
    (.list (.int party :: shares.map fun share => .int share.share)) (intList_plain _ _)
  refine ⟨data, packed.trans dumps, cbor.dumps_ne_nil _ _ dumps, ?_⟩
  rw [splitShares, loads, intList_loaded]
  simp only [ok_bind, Value.int?, List.mapM_map]
  refine (mapM_ok (g := id) fun share mem => ?_).trans (by rw [List.map_id])
  rw [id, ← own share mem]
  rfl

end ShamirSS

end Prism.Crypto
