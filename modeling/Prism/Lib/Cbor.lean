import Prism.Lib.BigEndian

/-!
The framing of CBOR data items.

An item starts with a head: an initial byte with the major type and the additional
information, and the bytes of an argument where the information does not hold it. What
follows is a string of as many bytes as the argument says (`readString`) or that many
items (`readMany`).

* `readHead_head`: a head is read back, whatever follows it.
* `readMany_encoded`: so are items one after another, once each of them is.

A length that does not fit in 64 bits is written after the additional information 28,
which is unassigned, so that every number has a head.
-/

namespace Prism.Lib.Cbor

open BigEndian

/-- The initial byte of an item. -/
def initialByte (major info : ℕ) : UInt8 := UInt8.ofNat (major * 32 + info)

/-- The number of bytes of the argument for each additional information that has one. -/
def argumentLength : ℕ → Option ℕ
  | 24 => some 1
  | 25 => some 2
  | 26 => some 4
  | 27 => some 8
  | _ => none

/-- The shortest additional information for an argument. -/
def infoOf (n : ℕ) : ℕ :=
  if n < 24 then n
  else if n < 256 ^ 1 then 24
  else if n < 256 ^ 2 then 25
  else if n < 256 ^ 4 then 26
  else if n < 256 ^ 8 then 27
  else 28

/-- The head of an item of a major type, with an argument. -/
def head (major n : ℕ) : List UInt8 :=
  initialByte major (infoOf n) ::
    if n < 24 then []
    else match argumentLength (infoOf n) with
      | some len => toBytes n len
      | none => List.replicate (byteLength n) 1 ++ 0 :: toBytes n (byteLength n)

/-- What a head says. -/
structure Head where
  major : ℕ
  info : ℕ
  argument : ℕ
deriving DecidableEq, Repr

/-- The first bytes, and those after them. -/
def readString (len : ℕ) (bs : List UInt8) : Option (List UInt8 × List UInt8) :=
  if len ≤ bs.length then some (bs.take len, bs.drop len) else none

/-- A number of bytes in unary, with the bytes after it. -/
def readUnary : List UInt8 → ℕ × List UInt8
  | 1 :: bs => ((readUnary bs).1 + 1, (readUnary bs).2)
  | bs => (0, bs.drop 1)

/-- The head at the front of a byte string, and the bytes after it. -/
def readHead : List UInt8 → Option (Head × List UInt8)
  | [] => none
  | b :: bs =>
    let major := b.toNat / 32
    let info := b.toNat % 32
    if info < 24 then some (⟨major, info, info⟩, bs)
    else match argumentLength info with
      | some len => (readString len bs).map fun (argument, rest) =>
          (⟨major, info, ofBytes argument⟩, rest)
      | none =>
        if info = 28 then
          (readString (readUnary bs).1 (readUnary bs).2).map fun (argument, rest) =>
            (⟨major, info, ofBytes argument⟩, rest)
        else none

/-- As many items as the argument says, each read with `item`. -/
def readMany {α : Type} (item : List UInt8 → Option (α × List UInt8)) :
    ℕ → List UInt8 → Option (List α × List UInt8)
  | 0, bs => some ([], bs)
  | n + 1, bs => do
      let (x, bs) ← item bs
      let (xs, bs) ← readMany item n bs
      return (x :: xs, bs)

theorem readString_append (s rest : List UInt8) :
    readString s.length (s ++ rest) = some (s, rest) := by
  simp [readString]

theorem readUnary_replicate (k : ℕ) (bs : List UInt8) :
    readUnary (List.replicate k 1 ++ 0 :: bs) = (k, bs) := by
  induction k with
  | zero => rfl
  | succ k ih => rw [List.replicate_succ, List.cons_append, readUnary, ih]

theorem infoOf_lt (n : ℕ) : infoOf n < 32 := by
  unfold infoOf
  split_ifs <;> omega

/-- The parts of an initial byte. -/
theorem initialByte_toNat {major info : ℕ} (major_lt : major < 8) (info_lt : info < 32) :
    (initialByte major info).toNat / 32 = major ∧ (initialByte major info).toNat % 32 = info := by
  have value : (initialByte major info).toNat = major * 32 + info := by
    rw [initialByte, UInt8.toNat_ofNat']
    omega
  omega

/-- A number fits in the bytes of its argument. -/
theorem lt_of_argumentLength {n len : ℕ} (ge : 24 ≤ n) (eq : argumentLength (infoOf n) = some len) :
    n < 256 ^ len := by
  unfold infoOf at eq
  split_ifs at eq with h0 h1 h2 h4 h8
  · omega
  · cases eq
    exact h1
  · cases eq
    exact h2
  · cases eq
    exact h4
  · cases eq
    exact h8
  · cases eq

theorem infoOf_of_argumentLength {n : ℕ} (ge : 24 ≤ n) (eq : argumentLength (infoOf n) = none) :
    infoOf n = 28 := by
  by_contra ne
  unfold infoOf at eq ne
  split_ifs at eq ne with small
  · omega
  all_goals first | exact ne rfl | cases eq

theorem lt_byteLength (n : ℕ) : n < 256 ^ byteLength n := by
  rw [show (256 : ℕ) = 2 ^ 8 from rfl, ← pow_mul]
  refine Nat.lt_of_lt_of_le (Nat.lt_size_self n) (Nat.pow_le_pow_right (by decide) ?_)
  unfold byteLength
  omega

/-- **A head is read back**, whatever follows it. -/
theorem readHead_head {major : ℕ} (major_lt : major < 8) (n : ℕ) (rest : List UInt8) :
    readHead (head major n ++ rest) = some (⟨major, infoOf n, n⟩, rest) := by
  obtain ⟨atMajor, atInfo⟩ := initialByte_toNat major_lt (infoOf_lt n)
  rw [head, List.cons_append, readHead]
  simp only [atMajor, atInfo]
  by_cases small : n < 24
  · have info : infoOf n = n := if_pos small
    rw [info, if_pos small, if_pos small]
    rfl
  have large : ¬ infoOf n < 24 := by
    unfold infoOf
    split_ifs <;> omega
  rw [if_neg small, if_neg large]
  cases length : argumentLength (infoOf n) with
  | some len =>
      have read := readString_append (toBytes n len) rest
      rw [length_toBytes] at read
      simp only [read, Option.map_some]
      rw [ofBytes_toBytes (lt_of_argumentLength (by omega) length)]
  | none =>
      have read := readString_append (toBytes n (byteLength n)) rest
      rw [length_toBytes] at read
      rw [if_pos (infoOf_of_argumentLength (by omega) length)]
      simp only [List.append_assoc, List.cons_append, readUnary_replicate, read, Option.map_some]
      rw [ofBytes_toBytes (lt_byteLength n)]

theorem head_ne_nil (major n : ℕ) : head major n ≠ [] := List.cons_ne_nil _ _

/-- **Items one after another are read back**, once each of them is. -/
theorem readMany_encoded {α β : Type} {item : List UInt8 → Option (α × List UInt8)}
    {xs : List β} {encode : β → List UInt8} {value : β → α}
    (each : ∀ x ∈ xs, ∀ rest, item (encode x ++ rest) = some (value x, rest))
    (rest : List UInt8) :
    readMany item xs.length ((xs.map encode).flatten ++ rest) = some (xs.map value, rest) := by
  induction xs with
  | nil => rfl
  | cons x xs ih =>
      have first := each x List.mem_cons_self ((xs.map encode).flatten ++ rest)
      have others := ih fun y mem => each y (List.mem_cons_of_mem _ mem)
      rw [List.length_cons, readMany, List.map_cons, List.flatten_cons, List.append_assoc, first]
      simp only [Option.bind_eq_bind, Option.bind_some, others]
      rfl

end Prism.Lib.Cbor
