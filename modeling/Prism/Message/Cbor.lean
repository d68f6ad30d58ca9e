import Prism.Lib.Cbor
import Prism.Message.RoundTrip

/-!
CBOR, as the `cbor2` package writes and reads it.

The results about messages hold for any package that meets the laws of `Cbor2`. Here are
the writer and the reader of the format itself, over the values that messages are encoded
to, and `Cbor.package` is the proof that they meet those laws.

* `readItem_item`: an item is read back, whatever follows it.
-/

namespace Prism

namespace Cbor

open Lib.Cbor Lib.BigEndian

/-- An integer. One that does not fit in 64 bits is a tagged byte string. -/
def intItem (n : ℤ) : Bytes :=
  let (major, tag, argument) := if 0 ≤ n then (0, 2, n.toNat) else (1, 3, (-1 - n).toNat)
  if argument < 256 ^ 8 then head major argument
  else head 6 tag ++ (head 2 (byteLength argument) ++ toBytes argument (byteLength argument))

/-- A text, in UTF-8. -/
def textItem (s : String) : Bytes :=
  head 3 s.toByteArray.data.toList.length ++ s.toByteArray.data.toList

mutual

/-- The item of a value. Messages and enumeration members have none. -/
def item : Value → Bytes
  | .none => [initialByte 7 22]
  | .bool b => [initialByte 7 (if b then 21 else 20)]
  | .int n => intItem n
  | .float bits => initialByte 7 27 :: toBytes bits.toNat 8
  | .str s => textItem s
  | .bytes bs => head 2 bs.length ++ bs
  | .list xs => head 4 xs.length ++ items xs
  | .tuple xs => head 4 xs.length ++ items xs
  | .dict entries => head 5 entries.length ++ entryItems entries
  | .enum _ | .object _ _ => []

/-- The items of a list. -/
def items : List Value → Bytes
  | [] => []
  | x :: xs => item x ++ items xs

/-- The items of a dictionary, keys and values in turn. -/
def entryItems : List (ℤ × Value) → Bytes
  | [] => []
  | (key, value) :: entries => intItem key ++ item value ++ entryItems entries

end

/-- An integer key and a value. -/
def readEntry (read : Bytes → Option (Value × Bytes)) (bs : Bytes) :
    Option ((ℤ × Value) × Bytes) := do
  let (key, bs) ← read bs
  let (value, bs) ← read bs
  let key ← key.int?
  return ((key, value), bs)

/-- The simple values and the doubles. -/
def simple (info argument : ℕ) : Option Value :=
  match info with
  | 20 => some (.bool false)
  | 21 => some (.bool true)
  | 22 => some .none
  | 27 => some (.float (UInt64.ofNat argument))
  | _ => none

/-- The value with a tag: the two of a big number. -/
def tagged (tag : ℕ) (value : Value) : Option Value :=
  match tag, value.bytes? with
  | 2, some bs => some (.int (ofBytes bs))
  | 3, some bs => some (.int (-1 - ofBytes bs))
  | _, _ => none

/-- What follows a head, and the bytes after it; `read` reads the items inside. -/
def readBody (read : Bytes → Option (Value × Bytes)) (h : Head) (bs : Bytes) :
    Option (Value × Bytes) :=
  match h.major with
  | 0 => some (.int h.argument, bs)
  | 1 => some (.int (-1 - h.argument), bs)
  | 2 => do
    let (s, bs) ← readString h.argument bs
    return (.bytes s, bs)
  | 3 => do
    let (s, bs) ← readString h.argument bs
    let text ← String.fromUTF8? ⟨s.toArray⟩
    return (.str text, bs)
  | 4 => do
    let (xs, bs) ← readMany read h.argument bs
    return (.list xs, bs)
  | 5 => do
    let (entries, bs) ← readMany (readEntry read) h.argument bs
    return (.dict entries, bs)
  | 6 => do
    let (value, bs) ← read bs
    let value ← tagged h.argument value
    return (value, bs)
  | _ => do
    let value ← simple h.info h.argument
    return (value, bs)

/-- The item at the front of a byte string, nested less than `fuel` deep, and the bytes
after it. -/
def readItem : ℕ → Bytes → Option (Value × Bytes)
  | 0, _ => none
  | fuel + 1, bs => do
    let (h, bs) ← readHead bs
    readBody (readItem fuel) h bs

/-- `cbor2.dumps`. -/
def dumps (v : Value) : Py Bytes := if v.isPlain then .ok (item v) else .error .typeError

/-- `cbor2.loads`. -/
def loads (bs : Bytes) : Py Value :=
  match readItem (bs.length + 1) bs with
  | some (v, _) => .ok v
  | none => .error (.valueError "premature end of stream")

/-! ### Reading what was written -/

theorem items_eq (xs : List Value) : items xs = (xs.map item).flatten := by
  induction xs with
  | nil => rfl
  | cons x xs ih => rw [items, ih, List.map_cons, List.flatten_cons]

theorem entryItems_eq (entries : List (ℤ × Value)) :
    entryItems entries = (entries.map fun entry => intItem entry.1 ++ item entry.2).flatten := by
  induction entries with
  | nil => rfl
  | cons entry entries ih => rw [entryItems, ih, List.map_cons, List.flatten_cons]

theorem readItem_head {major : ℕ} (major_lt : major < 8) (fuel argument : ℕ) (rest : Bytes) :
    readItem (fuel + 1) (head major argument ++ rest) =
      readBody (readItem fuel) ⟨major, infoOf argument, argument⟩ rest := by
  rw [readItem, readHead_head major_lt]
  rfl

/-- A byte string is read back. -/
theorem readItem_bytes (fuel : ℕ) (bs rest : Bytes) :
    readItem (fuel + 1) (head 2 bs.length ++ bs ++ rest) = some (.bytes bs, rest) := by
  rw [List.append_assoc, readItem_head (by decide), readBody]
  simp only [readString_append, Option.bind_eq_bind, Option.bind_some]
  rfl

/-- An integer is read back. -/
theorem readItem_int (fuel : ℕ) (n : ℤ) (rest : Bytes) :
    readItem (fuel + 2) (intItem n ++ rest) = some (.int n, rest) := by
  unfold intItem
  by_cases nonneg : 0 ≤ n
  · simp only [nonneg, if_true]
    split_ifs with small
    · rw [readItem_head (by decide), readBody]
      simp only [Int.toNat_of_nonneg nonneg]
    · have length := length_toBytes n.toNat (byteLength n.toNat)
      have string := readItem_bytes fuel (toBytes n.toNat (byteLength n.toNat)) rest
      rw [length, List.append_assoc] at string
      rw [List.append_assoc, List.append_assoc, readItem_head (by decide), readBody]
      simp only [string, Option.bind_eq_bind, Option.bind_some, tagged, Value.bytes?,
        ofBytes_toBytes (lt_byteLength n.toNat), Int.toNat_of_nonneg nonneg]
      rfl
  · simp only [nonneg, if_false]
    have value : -1 - ((-1 - n).toNat : ℤ) = n := by omega
    split_ifs with small
    · rw [readItem_head (by decide), readBody]
      simp only [value]
    · have length := length_toBytes (-1 - n).toNat (byteLength (-1 - n).toNat)
      have string := readItem_bytes fuel (toBytes (-1 - n).toNat (byteLength (-1 - n).toNat)) rest
      rw [length, List.append_assoc] at string
      rw [List.append_assoc, List.append_assoc, readItem_head (by decide), readBody]
      simp only [string, Option.bind_eq_bind, Option.bind_some, tagged, Value.bytes?,
        ofBytes_toBytes (lt_byteLength (-1 - n).toNat), value]
      rfl

/-- A text is read back. -/
theorem readItem_text (fuel : ℕ) (s : String) (rest : Bytes) :
    readItem (fuel + 1) (textItem s ++ rest) = some (.str s, rest) := by
  have text : String.fromUTF8? ⟨s.toByteArray.data.toList.toArray⟩ = some s := by
    rw [Array.toArray_toList]
    exact dif_pos s.isValidUTF8
  rw [textItem, List.append_assoc, readItem_head (by decide), readBody]
  simp only [readString_append, Option.bind_eq_bind, Option.bind_some, text]
  rfl

theorem intItem_length_pos (n : ℤ) : 0 < (intItem n).length := by
  refine List.length_pos_of_ne_nil ?_
  unfold intItem
  dsimp only
  split_ifs
  all_goals first
    | exact head_ne_nil _ _
    | exact List.append_ne_nil_of_left_ne_nil (head_ne_nil _ _) _

/-- A value is read back, whatever follows its item. -/
def ReadsBack (v : Value) : Prop :=
  v.isPlain = true → ∀ fuel rest, (item v).length < fuel →
    readItem fuel (item v ++ rest) = some (v.loaded, rest)

theorem readsBack_atom {v : Value} (atom : v.isAtom = true) : ReadsBack v := by
  intro plain fuel rest enough
  obtain ⟨fuel, rfl⟩ := Nat.exists_eq_succ_of_ne_zero (Nat.ne_zero_of_lt enough)
  cases v with
  | none => rfl
  | bool b => cases b <;> rfl
  | int n =>
      have pos := intItem_length_pos n
      rw [item] at enough
      obtain ⟨fuel, rfl⟩ := Nat.exists_eq_succ_of_ne_zero (n := fuel) (by omega)
      exact readItem_int fuel n rest
  | float bits =>
      have fits : bits.toNat < 256 ^ 8 := bits.toNat_lt
      have string := readString_append (toBytes bits.toNat 8) rest
      rw [length_toBytes] at string
      obtain ⟨atMajor, atInfo⟩ := @initialByte_toNat 7 27 (by decide) (by decide)
      rw [item, List.cons_append, readItem, readHead]
      simp only [atMajor, atInfo, argumentLength, string]
      simp [readBody, simple, Value.loaded, ofBytes_toBytes fits]
  | str s => exact readItem_text fuel s rest
  | bytes bs => exact readItem_bytes fuel bs rest
  | enum e => cases plain
  | list xs => cases atom
  | tuple xs => cases atom
  | dict entries => cases atom
  | object c fields => cases atom

theorem allPlain_mem {xs : List Value} (plain : Value.allPlain xs = true) :
    ∀ x ∈ xs, x.isPlain = true := by
  induction xs with
  | nil => simp
  | cons x xs ih =>
      rw [Value.allPlain, Bool.and_eq_true] at plain
      exact List.forall_mem_cons.mpr ⟨plain.1, ih plain.2⟩

theorem entriesPlain_mem {entries : List (ℤ × Value)} (plain : Value.entriesPlain entries = true) :
    ∀ entry ∈ entries, entry.2.isPlain = true := by
  induction entries with
  | nil => simp
  | cons entry entries ih =>
      rw [Value.entriesPlain, Bool.and_eq_true] at plain
      exact List.forall_mem_cons.mpr ⟨plain.1, ih plain.2⟩

/-- The items of a list are read back, in a list of any kind. -/
theorem readMany_items {xs : List Value} (ih : ∀ x ∈ xs, ReadsBack x)
    (plain : Value.allPlain xs = true) (fuel : ℕ) (enough : (items xs).length < fuel)
    (rest : Bytes) :
    readMany (readItem fuel) xs.length (items xs ++ rest) = some (Value.allLoaded xs, rest) := by
  rw [items_eq, Value.allLoaded_eq_map]
  refine readMany_encoded (fun x mem rest => ?_) rest
  have le := (List.sublist_flatten_of_mem (List.mem_map_of_mem (f := item) mem)).length_le
  rw [items_eq] at enough
  exact ih x mem (allPlain_mem plain x mem) fuel rest (by omega)

/-- The keys and values of a dictionary are read back. -/
theorem readMany_entries {entries : List (ℤ × Value)} (ih : ∀ e ∈ entries, ReadsBack e.2)
    (plain : Value.entriesPlain entries = true) (fuel : ℕ)
    (enough : (entryItems entries).length < fuel) (rest : Bytes) :
    readMany (readEntry (readItem fuel)) entries.length (entryItems entries ++ rest) =
      some (Value.entriesLoaded entries, rest) := by
  rw [entryItems_eq, Value.entriesLoaded_eq_map]
  refine readMany_encoded (fun entry mem rest => ?_) rest
  have le := (List.sublist_flatten_of_mem (List.mem_map_of_mem
    (f := fun entry : ℤ × Value => intItem entry.1 ++ item entry.2) mem)).length_le
  rw [entryItems_eq] at enough
  rw [List.length_append] at le
  have pos := intItem_length_pos entry.1
  have key : readItem fuel (intItem entry.1 ++ (item entry.2 ++ rest)) =
      some (.int entry.1, item entry.2 ++ rest) := by
    obtain ⟨fuel', rfl⟩ : ∃ f, fuel = f + 2 := ⟨fuel - 2, by omega⟩
    exact readItem_int fuel' entry.1 _
  have value := ih entry mem (entriesPlain_mem plain entry mem) fuel rest (by omega)
  rw [List.append_assoc, readEntry, key]
  simp only [Option.bind_eq_bind, Option.bind_some, value]
  rfl

/-- **An item is read back**, whatever follows it; tuples come back as lists. -/
theorem readItem_item (v : Value) : ReadsBack v := by
  induction v using Value.induction with
  | atom v atom => exact readsBack_atom atom
  | list xs ih | tuple xs ih =>
      intro plain fuel rest enough
      obtain ⟨fuel, rfl⟩ := Nat.exists_eq_succ_of_ne_zero (Nat.ne_zero_of_lt enough)
      have pos := List.length_pos_of_ne_nil (head_ne_nil 4 xs.length)
      rw [item, List.length_append] at enough
      have read := readMany_items ih plain fuel (by omega) rest
      rw [item, List.append_assoc, readItem_head (by decide), readBody]
      simp only [read, Option.bind_eq_bind, Option.bind_some]
      rfl
  | dict entries ih =>
      intro plain fuel rest enough
      obtain ⟨fuel, rfl⟩ := Nat.exists_eq_succ_of_ne_zero (Nat.ne_zero_of_lt enough)
      have pos := List.length_pos_of_ne_nil (head_ne_nil 5 entries.length)
      rw [Value.isPlain, Bool.and_eq_true] at plain
      rw [item, List.length_append] at enough
      have read := readMany_entries ih plain.2 fuel (by omega) rest
      rw [item, List.append_assoc, readItem_head (by decide), readBody]
      simp only [read, Option.bind_eq_bind, Option.bind_some]
      rfl
  | object c fields ih =>
      intro plain
      cases plain

theorem item_ne_nil {v : Value} (plain : v.isPlain = true) : item v ≠ [] := by
  cases v with
  | int n => exact List.ne_nil_of_length_pos (intItem_length_pos n)
  | enum e => cases plain
  | object c fields => cases plain
  | _ => simp [item, textItem, head]

theorem head_bytes {length : ℕ} (short : length < 256) : head 2 length = cborBytesHead length := by
  rw [head, cborBytesHead]
  by_cases small : length < 24
  · rw [if_pos small, if_pos small, infoOf, if_pos small]
    rfl
  · have info : infoOf length = 24 := by
      rw [infoOf, if_neg small, if_pos (by omega)]
    rw [if_neg small, if_neg small, info]
    rfl

/-- The package as a reader and a writer of the format. -/
def package : Cbor2 where
  dumps := dumps
  loads := loads
  loads_dumps v plain := by
    refine ⟨item v, if_pos plain, ?_⟩
    have read := readItem_item v plain ((item v).length + 1) [] (Nat.lt_succ_self _)
    rw [List.append_nil] at read
    rw [loads, read]
  dumps_ne_nil v bytes eq := by
    unfold dumps at eq
    split_ifs at eq with plain
    cases eq
    exact item_ne_nil plain
  dumps_bytes bs short := by
    rw [← head_bytes short]
    exact if_pos rfl

end Cbor

/-- The builtin types on values of their own; any other is an error. -/
def Builtins.strict : Builtins where
  call s v := if v.isScalar s then .ok v else .error .typeError
  call_isScalar _ _ typed := if_pos typed

end Prism
