import Prism.Message.Schema

/-!
Encoding and decoding of messages (`CBORFactory` in `prism/common/message.py`).

`as_cbor_dict` turns a message into a dictionary from field positions to values, nested
messages into nested dictionaries, and `from_cbor_dict` converts back, field by field
after its declared type. `clone` goes through both. The bytes are those of `cbor2`, which
is a parameter (`Cbor2`), and so are the conversions of the builtin types (`Builtins`).
-/

namespace Prism

/-- The builtin types as functions: `int(v)`, `str(v)` and so on. A value of the type is
returned as it is. -/
structure Builtins where
  call : Scalar → Value → Py Value
  call_isScalar : ∀ s v, v.isScalar s = true → call s v = .ok v

namespace Value

/-! ### Encoding -/

mutual

/-- `as_cbor_dict`. -/
def asCborDict : Value → Py Value
  | object c fields => do return dict (← asEntries fields c.schema 0)
  | _ => .error .attributeError

/-- The entries of the fields from position `index` on that hold a value. -/
def asEntries : List Value → List FieldInfo → ℕ → Py (List (ℤ × Value))
  | none :: values, _ :: rest, index => asEntries values rest (index + 1)
  | value :: values, field :: rest, index => do
      let entry ← asEntry value field.type
      return (index, entry) :: (← asEntries values rest (index + 1))
  | _, _, _ => .ok []

/-- The entry of one field. -/
def asEntry : Value → FieldType → Py Value
  | object c fields, .object _ => do return dict (← asEntries fields c.schema 0)
  | object c fields, .generic _ => do return dict (← asEntries fields c.schema 0)
  | _, .object _ => .error .attributeError
  | _, .generic _ => .error .attributeError
  | enum e, _ => .ok (int e.value)
  | list xs, _ => do return list (← asItems xs)
  | value, _ => .ok value

/-- The elements of a list. -/
def asItems : List Value → Py (List Value)
  | [] => .ok []
  | object c fields :: xs => do
      let x := dict (← asEntries fields c.schema 0)
      return x :: (← asItems xs)
  | x :: xs => do return x :: (← asItems xs)

end

/-! ### Decoding -/

section Decoding

variable (builtins : Builtins) (now : ℤ)

/-- A conversion of one value to the declared type of a field. -/
abbrev Conversion := FieldType → Py Value

/-- The values of the constructor's parameters, from the fields at `index` on: `read`
gives the conversion of what is found at a position, if it is there and not `None`. -/
def readFields (read : ℕ → Py (Option Conversion)) :
    List FieldInfo → ℕ → Py (List (Option Value))
  | [], _ => .ok []
  | field :: rest, index => do
      match field.default with
      | .fixed _ => return Option.none :: (← readFields read rest (index + 1))
      | _ =>
        match ← read index with
        | Option.none => return Option.none :: (← readFields read rest (index + 1))
        | some convert => do
          let value ← convert field.type
          return some value :: (← readFields read rest (index + 1))

/-- What a field is set to by `__init__`, or nothing if a required value is missing. -/
def initField (field : FieldInfo) (arg : Option Value) : Option Value :=
  match field.default, arg with
  | .fixed n, _ => some (int n)
  | _, some value => some value
  | .required, Option.none => Option.none
  | .absent, Option.none => some none
  | .now, Option.none => some (int now)

/-- A call of the class with the given parameters; a missing one is a `TypeError`. -/
def construct (c : ClassName) (args : List (Option Value)) : Py Value :=
  match (c.schema.zip args).mapM fun (field, arg) => initField now field arg with
  | some fields => .ok (object c fields)
  | Option.none => .error .typeError

/-- `from_cbor_dict`, given how to read the dictionary. The missing parameter is reported
as a `ValueError`. -/
def buildClass (c : ClassName) (read : ℕ → Py (Option Conversion)) : Py Value := do
  let args ← readFields read c.schema 0
  match construct now c args with
  | .ok value => return value
  | .error _ => throw (.valueError "Cannot create an instance")

/-- Reading a dictionary. -/
def readDict (entries : List (ℤ × Option Conversion)) (index : ℕ) : Py (Option Conversion) :=
  .ok (entries.lookup (index : ℤ)).join

/-- Reading a sequence in the place of a dictionary: `in` looks for an element equal to the
index, and the subscript takes the element at the index. -/
def readSequence (xs : List Value) (conversions : List (Option Conversion)) (index : ℕ) :
    Py (Option Conversion) :=
  if xs.any fun x => x.number? = some (index : ℤ) then
    match conversions[index]? with
    | some conversion => .ok conversion
    | Option.none => .error .indexError
  else .ok Option.none

/-- The conversion of a value that is neither a dictionary nor a list. -/
def convertAtom (value : Value) : Conversion
  | .object _ | .generic _ => .error (.valueError "Expected a dictionary")
  | .scalar s => builtins.call s value
  | .enum k =>
    match value.number?.bind k.ofValue with
    | some e => .ok (enum e)
    | Option.none => .error (.valueError "not a valid member")
  | .list _ => .error .typeError

/-- `tuple(datum)`. -/
def toTuple : Value → Py Value
  | list xs => .ok (tuple xs)
  | tuple xs => .ok (tuple xs)
  | str s => .ok (tuple (s.toList.map fun c => str (String.ofList [c])))
  | bytes bs => .ok (tuple (bs.map fun b => int b.toNat))
  | dict entries => .ok (tuple (entries.map fun entry => int entry.1))
  | _ => .error .typeError

/-- The conversion of a list: `elements` are those of its elements as messages. -/
def convertList (xs : List Value) (elements : List (ClassName → Py Value)) : Conversion
  | .object _ | .generic _ => .error (.valueError "Expected a dictionary")
  | .scalar _ | .enum _ => .error .attributeError
  | .list (.scalar _) => .ok (list xs)
  | .list (.pair _ _) => do return list (← xs.mapM toTuple)
  | .list (.object c) | .list (.generic c) => do
      return list (← elements.mapM fun element => element c)

/-- The conversion of a dictionary. The class named in the metadata of a field need not
exist. -/
def convertDict (entries : List (ℤ × Value)) (conversions : List (ℤ × Option Conversion)) :
    Conversion
  | .object c | .generic (some c) => buildClass now c (readDict conversions)
  | .generic Option.none => .error .keyError
  | .scalar s => builtins.call s (dict entries)
  | .enum _ => .error (.valueError "not a valid member")
  | .list _ => .error .typeError

/-- Bytes in the place of a dictionary read as the numbers they are. -/
def readBytes (bs : Bytes) : ℕ → Py (Option Conversion) :=
  readSequence (bs.map fun b => int b.toNat)
    (bs.map fun b => some (convertAtom builtins (int b.toNat)))

mutual

/-- The conversion of `d[index]` to the declared type of the field. -/
def convert : Value → Conversion
  | dict entries => convertDict builtins now entries (convertEntries entries)
  | list xs => convertList xs (elementReaders xs)
  | value => convertAtom builtins value

/-- The conversions of the entries of a dictionary. -/
def convertEntries : List (ℤ × Value) → List (ℤ × Option Conversion)
  | [] => []
  | (key, none) :: entries => (key, Option.none) :: convertEntries entries
  | (key, value) :: entries => (key, some (convert value)) :: convertEntries entries

/-- The conversions of the elements of a sequence. -/
def convertElements : List Value → List (Option Conversion)
  | [] => []
  | none :: xs => Option.none :: convertElements xs
  | value :: xs => some (convert value) :: convertElements xs

/-- `from_cbor_dict` of a class on what was decoded. -/
def fromCborDict : Value → ClassName → Py Value
  | none, _ => .ok none
  | dict entries, c => buildClass now c (readDict (convertEntries entries))
  | list xs, c => buildClass now c (readSequence xs (convertElements xs))
  | tuple xs, c => buildClass now c (readSequence xs (convertElements xs))
  | bytes bs, c => buildClass now c (readBytes builtins bs)
  | _, _ => .error .typeError

/-- `from_cbor_dict` on each element of a list. -/
def elementReaders : List Value → List (ClassName → Py Value)
  | [] => []
  | x :: xs => fromCborDict x :: elementReaders xs

end

/-! ### Bytes -/

mutual

/-- Data that `cbor2` encodes: no messages and enumeration members, and dictionaries with
distinct keys. -/
def isPlain : Value → Bool
  | enum _ => false
  | object _ _ => false
  | list xs => allPlain xs
  | tuple xs => allPlain xs
  | dict entries => (entries.map Prod.fst).Nodup && entriesPlain entries
  | _ => true

def allPlain : List Value → Bool
  | [] => true
  | x :: xs => x.isPlain && allPlain xs

def entriesPlain : List (ℤ × Value) → Bool
  | [] => true
  | (_, value) :: entries => value.isPlain && entriesPlain entries

end

mutual

/-- What is decoded from the encoding of plain data: tuples come back as lists. -/
def loaded : Value → Value
  | list xs => list (allLoaded xs)
  | tuple xs => list (allLoaded xs)
  | dict entries => dict (entriesLoaded entries)
  | value => value

def allLoaded : List Value → List Value
  | [] => []
  | x :: xs => x.loaded :: allLoaded xs

def entriesLoaded : List (ℤ × Value) → List (ℤ × Value)
  | [] => []
  | (key, value) :: entries => (key, value.loaded) :: entriesLoaded entries

end

end Decoding

end Value

/-- The head of the CBOR encoding of a byte string of fewer than 256 bytes. -/
def cborBytesHead (length : ℕ) : Bytes :=
  if length < 24 then [UInt8.ofNat (0x40 + length)] else [0x58, UInt8.ofNat length]

/-- The `cbor2` package: plain data round trips, an encoding is never empty, and that of a
byte string that is not long is its head followed by the bytes themselves. -/
structure Cbor2 where
  dumps : Value → Py Bytes
  loads : Bytes → Py Value
  loads_dumps : ∀ v, v.isPlain = true → ∃ bytes, dumps v = .ok bytes ∧ loads bytes = .ok v.loaded
  dumps_ne_nil : ∀ v bytes, dumps v = .ok bytes → bytes ≠ []
  dumps_bytes : ∀ bs : Bytes, bs.length < 256 →
    dumps (.bytes bs) = .ok (cborBytesHead bs.length ++ bs)

namespace Value

/-! ### The methods of a message -/

variable (cbor : Cbor2) (builtins : Builtins) (now : ℤ)

/-- `encode`. -/
def encode (message : Value) : Py Bytes := do cbor.dumps (← message.asCborDict)

/-- `decode`, of a class. -/
def decode (c : ClassName) (data : Bytes) : Py Value := do
  fromCborDict builtins now (← cbor.loads data) c

/-- `lookup_field_index`. -/
def lookupFieldIndex (c : ClassName) (fieldName : FieldName) : ℤ :=
  match c.schema.findIdx? fun field => field.name = fieldName with
  | some index => index
  | Option.none => -1

/-- `d[index] = value`. -/
def setEntry (entries : List (ℤ × Value)) (index : ℤ) (value : Value) : List (ℤ × Value) :=
  if (entries.map Prod.fst).contains index then
    entries.map fun entry => if entry.1 = index then (index, value) else entry
  else entries ++ [(index, value)]

/-- What `clone` stores for a value. -/
def asArgument : Value → Py Value
  | object c fields => asCborDict (object c fields)
  | value => .ok value

/-- `clone`. -/
def clone (message : Value) (kwargs : List (FieldName × Value)) : Py Value :=
  match message with
  | object c fields => do
      let entries ← asEntries fields c.schema 0
      let entries ← kwargs.foldlM (fun entries (key, value) => do
        return setEntry entries (lookupFieldIndex c key) (← asArgument value)) entries
      fromCborDict builtins now (dict entries) c
  | _ => .error .attributeError

end Value

end Prism
