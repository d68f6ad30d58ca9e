import Prism.Bfibe.Shards

/-!
The byte format of messages (`bf_message_to_bytes` and `bf_message_from_bytes` in
`bfibe/src/export.c`).

A message is its length, the security level, a point, and two byte strings, the first as long as a
digest and the second of the announced length. The parser follows these lengths through memory, and
never asks how many bytes it was given. So it reads behind the end of a string that is too short,
and does not see what is left of one that is too long.

* `parseMessage_toBytes`: what is written is read back.
* `parseMessage_eq`: what the parser does, by the lengths.
* `exact_iff`: which strings are treated as the format says.
-/

namespace Prism.Bfibe

/-- The bytes of points: all points have the same number of bytes, as many are read as points have,
and no others count. -/
structure PointFormat {G T : Type} [AddCommGroup G] [CommGroup T] (pbc : Pbc G T) where
  elementLength : ℕ
  length_toBytes : ∀ P, (pbc.elementToBytes P).length = elementLength
  read : ∀ data, elementLength ≤ data.length → (pbc.elementFromBytes data).2 = elementLength
  local_read : ∀ data, elementLength ≤ data.length →
    (pbc.elementFromBytes data).1 = (pbc.elementFromBytes (data.take elementLength)).1

/-- A read of the next bytes, if there are as many. -/
def readBytes (n : ℕ) (data : Bytes) : Option (Bytes × Bytes) :=
  if n ≤ data.length then some (data.take n, data.drop n) else none

theorem readBytes_of_le {n : ℕ} {data : Bytes} (le : n ≤ data.length) :
    readBytes n data = some (data.take n, data.drop n) := if_pos le

theorem readBytes_append {n : ℕ} {front : Bytes} (length : front.length = n) (rest : Bytes) :
    readBytes n (front ++ rest) = some (front, rest) := by
  subst length
  rw [readBytes_of_le (by simp), List.take_left, List.drop_left]

theorem readBytes_of_lt {n : ℕ} {data : Bytes} (lt : data.length < n) :
    readBytes n data = none := if_neg (not_le.mpr lt)

section

variable {G T : Type} [AddCommGroup G] [CommGroup T] {pbc : Pbc G T}

namespace BFPublicParameters

variable (params : BFPublicParameters pbc) (format : PointFormat pbc)

/-- `bf_message_from_bytes`, of a string with an end: nothing where it reads behind that, and a
message or a refusal else. -/
def parseMessage (data : Bytes) : Option (Option (BFMessage G)) := do
  let (header, data) ← readBytes 8 data
  let (level, data) ← readBytes 1 data
  if level ≠ [params.security.level] then some none
  else do
    let (point, data) ← readBytes format.elementLength data
    let (V, data) ← readBytes params.security.hashlen data
    let (W, _) ← readBytes (sizeFromBytes header) data
    some (some {
      length := sizeFromBytes header
      U := (pbc.elementFromBytes point).1
      V
      W })

/-! ### Lengths -/

/-- The length that is announced. -/
def announced (data : Bytes) : ℕ := sizeFromBytes (data.take 8)

/-- The level of a message. -/
def levelOf (data : Bytes) : Bytes := (data.drop 8).take 1

/-- The bytes of the point. -/
def pointOf (data : Bytes) : Bytes := (data.drop 9).take format.elementLength

/-- How many bytes a message has. -/
def formatLength (data : Bytes) : ℕ :=
  9 + format.elementLength + params.security.hashlen + announced data

/-- The message that a string of enough bytes is parsed to. -/
def parsed (data : Bytes) : BFMessage G where
  length := announced data
  U := (pbc.elementFromBytes (pointOf format data)).1
  V := (data.drop (9 + format.elementLength)).take params.security.hashlen
  W := (data.drop (9 + format.elementLength + params.security.hashlen)).take (announced data)

variable {params format} {data : Bytes}

/-- Another level is refused. -/
theorem parseMessage_refused (enough : 9 ≤ data.length)
    (other : levelOf data ≠ [params.security.level]) :
    params.parseMessage format data = some none := by
  rw [parseMessage, readBytes_of_le (by omega), Option.bind_eq_bind, Option.bind_some]
  dsimp only
  rw [readBytes_of_le (by rw [List.length_drop]; omega), Option.bind_some]
  exact if_pos other

/-- A string without a level is read over. -/
theorem parseMessage_short (short : data.length < 9) : params.parseMessage format data = none := by
  rw [parseMessage]
  by_cases header : 8 ≤ data.length
  · rw [readBytes_of_le header, Option.bind_eq_bind, Option.bind_some]
    dsimp only
    rw [readBytes_of_lt (by rw [List.length_drop]; omega)]
    rfl
  · rw [readBytes_of_lt (by omega)]
    rfl

/-- **What the parser does with the right level**: it takes the bytes that it needs, if there are as
many, and reads over the end if not. -/
theorem parseMessage_eq (enough : 9 ≤ data.length)
    (level : levelOf data = [params.security.level]) :
    params.parseMessage format data =
      if params.formatLength format data ≤ data.length then some (some (params.parsed format data))
      else none := by
  rw [parseMessage, readBytes_of_le (by omega), Option.bind_eq_bind, Option.bind_some]
  dsimp only
  rw [readBytes_of_le (by rw [List.length_drop]; omega), Option.bind_some]
  dsimp only
  have same : ¬ (data.drop 8).take 1 ≠ [params.security.level] := not_not.mpr level
  rw [if_neg same, List.drop_drop]
  unfold formatLength
  by_cases point : 9 + format.elementLength ≤ data.length
  swap
  · rw [readBytes_of_lt (by rw [List.length_drop]; omega), if_neg (by omega)]
    rfl
  rw [readBytes_of_le (by rw [List.length_drop]; omega), Option.bind_some]
  dsimp only
  rw [List.drop_drop]
  by_cases digest : 9 + format.elementLength + params.security.hashlen ≤ data.length
  swap
  · rw [readBytes_of_lt (by rw [List.length_drop]; omega), if_neg (by omega)]
    rfl
  rw [readBytes_of_le (by rw [List.length_drop]; omega), Option.bind_some]
  dsimp only
  rw [List.drop_drop]
  by_cases message :
      9 + format.elementLength + params.security.hashlen + announced data ≤ data.length
  · have rest : sizeFromBytes (data.take 8) ≤
        (data.drop (8 + 1 + format.elementLength + params.security.hashlen)).length := by
      rw [List.length_drop]
      unfold announced at message
      omega
    rw [readBytes_of_le rest, if_pos message]
    rfl
  · have rest : (data.drop (8 + 1 + format.elementLength + params.security.hashlen)).length <
        sizeFromBytes (data.take 8) := by
      rw [List.length_drop]
      unfold announced at message
      omega
    rw [readBytes_of_lt rest, if_neg message]
    rfl

/-! ### The format -/

/-- The point is written as points are. -/
def CanonicalPoint (format : PointFormat pbc) (data : Bytes) : Prop :=
  pbc.elementToBytes (pbc.elementFromBytes (pointOf format data)).1 = pointOf format data

/-- A string is put together from its parts. -/
theorem split_parts (params : BFPublicParameters pbc) (format : PointFormat pbc) (data : Bytes) :
    data = data.take 8 ++ (levelOf data ++ (pointOf format data ++
      ((data.drop (9 + format.elementLength)).take params.security.hashlen ++
        data.drop (9 + format.elementLength + params.security.hashlen)))) := by
  have tail : ∀ n k, (data.drop n).take k ++ data.drop (n + k) = data.drop n := fun n k => by
    rw [← List.drop_drop, List.take_append_drop]
  rw [tail, pointOf, tail, levelOf, tail 8 1, List.take_append_drop]

/-- **Written again**: a message that fills its string is written to the same string, if its point
is written as points are. -/
theorem toBytes_parsed_iff (enough : 9 ≤ data.length)
    (level : levelOf data = [params.security.level])
    (whole : data.length = params.formatLength format data) :
    params.bfMessageToBytes (params.parsed format data) = data ↔ CanonicalPoint format data := by
  unfold formatLength at whole
  have header : sizeBytes (announced data) = data.take 8 := by
    have length : (data.take 8).reverse.length = 8 := by
      rw [List.length_reverse, List.length_take]
      omega
    have back := Lib.BigEndian.toBytes_ofBytes (data.take 8).reverse
    rw [length] at back
    rw [sizeBytes, announced, sizeFromBytes, back, List.reverse_reverse]
  have rest : (data.drop (9 + format.elementLength + params.security.hashlen)).take
      (announced data) = data.drop (9 + format.elementLength + params.security.hashlen) := by
    rw [List.take_of_length_le]
    rw [List.length_drop]
    omega
  have written : params.bfMessageToBytes (params.parsed format data) =
      data.take 8 ++ (levelOf data ++
        (pbc.elementToBytes (pbc.elementFromBytes (pointOf format data)).1 ++
        ((data.drop (9 + format.elementLength)).take params.security.hashlen ++
          data.drop (9 + format.elementLength + params.security.hashlen)))) := by
    rw [bfMessageToBytes, parsed, level]
    dsimp only
    rw [header, List.take_take, Nat.min_self, List.take_take, Nat.min_self, rest]
  rw [written]
  conv_lhs =>
    rhs
    rw [split_parts params format data]
  rw [List.append_cancel_left_eq, List.append_cancel_left_eq, List.append_cancel_right_eq]
  rfl

/-- **A string is treated as the format says**: it is not read over, and only accepted if it has
the length of its message, which is then written to the same string. -/
def Exact (params : BFPublicParameters pbc) (format : PointFormat pbc) (data : Bytes) : Prop :=
  params.parseMessage format data ≠ none ∧
    ∀ message, params.parseMessage format data = some (some message) →
      data.length = params.formatLength format data ∧ params.bfMessageToBytes message = data

/-- **The strings that are treated as the format says.** -/
theorem exact_iff (params : BFPublicParameters pbc) (format : PointFormat pbc) (data : Bytes) :
    Exact params format data ↔ 9 ≤ data.length ∧ (levelOf data ≠ [params.security.level] ∨
      (data.length = params.formatLength format data ∧ CanonicalPoint format data)) := by
  unfold Exact
  by_cases enough : 9 ≤ data.length
  swap
  · rw [parseMessage_short (by omega)]
    simp [enough]
  by_cases level : levelOf data = [params.security.level]
  swap
  · rw [parseMessage_refused enough level]
    simp [enough, level]
  rw [parseMessage_eq enough level]
  by_cases fits : params.formatLength format data ≤ data.length
  swap
  · rw [if_neg fits]
    have other : data.length ≠ params.formatLength format data := by omega
    simp [level, other]
  rw [if_pos fits]
  by_cases whole : data.length = params.formatLength format data
  · rw [← whole]
    simp [enough, level, toBytes_parsed_iff enough level whole]
  · simp [level, whole]

/-- What is written is read back. -/
theorem parseMessage_toBytes (params : BFPublicParameters pbc) (format : PointFormat pbc)
    {message : BFMessage G} (size : message.length < 2 ^ 64)
    (length_V : message.V.length = params.security.hashlen)
    (length_W : message.W.length = message.length) :
    params.parseMessage format (params.bfMessageToBytes message) = some (some message) := by
  have eight : (sizeBytes message.length).length = 8 := by
    rw [sizeBytes, List.length_reverse, Lib.BigEndian.length_toBytes]
  have whole_W : message.W.take message.length = message.W := List.take_of_length_le length_W.le
  have read_W : readBytes message.length message.W = some (message.W, []) := by
    rw [readBytes_of_le length_W.ge, whole_W, List.drop_eq_nil_of_le length_W.le]
  have point : (pbc.elementFromBytes (pbc.elementToBytes message.U)).1 = message.U := by
    have read := pbc.fromBytes_toBytes message.U []
    rw [List.append_nil] at read
    rw [read]
  rw [parseMessage, bfMessageToBytes, List.take_of_length_le length_V.le, whole_W,
    readBytes_append eight, Option.bind_eq_bind, Option.bind_some]
  dsimp only
  rw [readBytes_append List.length_singleton, Option.bind_some]
  dsimp only
  rw [if_neg (not_not.mpr rfl), readBytes_append (format.length_toBytes _),
    Option.bind_some]
  dsimp only
  rw [readBytes_append length_V, Option.bind_some, sizeFromBytes_sizeBytes size]
  dsimp only
  rw [read_W, Option.bind_some, point]

/-- **The parser**: what is written is read back, and the strings that are treated as the format
says are those with another level, and those that are as long as they announce. -/
theorem format_exact (params : BFPublicParameters pbc) (format : PointFormat pbc) :
    (∀ message : BFMessage G, message.length < 2 ^ 64 →
      message.V.length = params.security.hashlen → message.W.length = message.length →
      params.parseMessage format (params.bfMessageToBytes message) = some (some message)) ∧
    ∀ data, Exact params format data ↔ 9 ≤ data.length ∧
      (levelOf data ≠ [params.security.level] ∨
        (data.length = params.formatLength format data ∧ CanonicalPoint format data)) :=
  ⟨fun _ size length_V length_W => parseMessage_toBytes params format size length_V length_W,
    exact_iff params format⟩

end BFPublicParameters

end

/-! ### A string that is too long -/

/-- The points of the small system have one byte. -/
def exampleFormat : PointFormat examplePbc where
  elementLength := 1
  length_toBytes _ := rfl
  read _ _ := rfl
  local_read data _ := by
    cases data <;> rfl

/-- A message of no bytes, and one byte after it. -/
def overlong : Bytes := List.replicate 8 0 ++ [1, 3] ++ List.replicate 20 0 ++ [9]

/-- It is accepted, and the byte is lost. -/
theorem overlong_accepted :
    (∃ message, exampleSystem.parseMessage exampleFormat overlong = some (some message)) ∧
      ¬ BFPublicParameters.Exact exampleSystem exampleFormat overlong := by
  have accepted := (@BFPublicParameters.parseMessage_eq _ _ _ _ _ exampleSystem exampleFormat
    overlong (by decide +kernel) (by decide +kernel)).trans (if_pos (by decide +kernel))
  refine ⟨⟨_, accepted⟩, fun exact => ?_⟩
  exact absurd (exact.2 _ accepted).1 (by decide +kernel)

end Prism.Bfibe
