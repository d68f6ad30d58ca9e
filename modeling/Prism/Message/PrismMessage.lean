import Prism.Message.RoundTrip

/-!
`PrismMessage` (`prism/common/message.py`).

A message is made from keyword arguments, `PrismMessage.create`, and read field by field,
`PrismMessage.get`; what is not given is absent, and the origination timestamp is the
time of creation. `PrismMessage.Typed` says that every field holds a value of its
declared type.

* `typed_create`: typed arguments make a typed message.
* `PrismMessage.decode_encode`: a typed message survives encoding.
-/

namespace Prism

/-- The declaration of a field of a class. -/
def ClassName.info (c : ClassName) (f : FieldName) : Option FieldInfo :=
  c.schema.find? fun field => field.name = f

/-- The value of a field among the values of the fields of a class. -/
def fieldOf (infos : List FieldInfo) (values : List Value) (f : FieldName) : Value :=
  (((infos.zip values).find? fun entry => entry.1.name = f).map Prod.snd).getD .none

/-- The values of the fields of a new object, from the arguments of its constructor.
Every call gives the required ones. -/
def initFields (now : ℤ) (infos : List FieldInfo) (kwargs : List (FieldName × Value)) :
    List Value :=
  infos.map fun field => (Value.initField now field (kwargs.lookup field.name)).getD .none

theorem fieldOf_map {infos : List FieldInfo} {f : FieldName} {info : FieldInfo}
    (found : infos.find? (fun field => field.name = f) = some info) (g : FieldInfo → Value) :
    fieldOf infos (infos.map g) f = g info := by
  induction infos with
  | nil => cases found
  | cons field infos ih =>
      rw [List.find?_cons] at found
      by_cases same : field.name = f
      · simp only [same, decide_true] at found
        cases found
        simp [fieldOf, same]
      · simp only [same, decide_false] at found
        have rest := ih found
        simpa [fieldOf, same] using rest

/-- The value fits the declaration of a field. -/
def valueTyped (info : FieldInfo) (v : Value) : Bool :=
  match v with
  | .none => info.default = .absent
  | v => v.hasType info.type && v.admittedBy info.default

theorem hasFields_cons_iff (info : FieldInfo) (infos : List FieldInfo) (v : Value)
    (fields : List Value) :
    Value.hasFields (v :: fields) (info :: infos) = true ↔
      valueTyped info v = true ∧ Value.hasFields fields infos = true := by
  by_cases absent : v = .none
  · rw [absent, Value.hasFields, Bool.and_eq_true]
    rfl
  · rw [Value.hasFields_cons absent, Bool.and_eq_true, valueTyped]
    exact absent

theorem hasFields_map {infos : List FieldInfo} {g : FieldInfo → Value}
    (typed : ∀ info ∈ infos, valueTyped info (g info) = true) :
    Value.hasFields (infos.map g) infos = true := by
  induction infos with
  | nil => rfl
  | cons info infos ih =>
      rw [List.map_cons, hasFields_cons_iff]
      exact ⟨typed info List.mem_cons_self,
        ih fun other mem => typed other (List.mem_cons_of_mem _ mem)⟩

/-- An argument fits the declaration of its field. -/
def argumentTyped (c : ClassName) (arg : FieldName × Value) : Bool :=
  (c.info arg.1).any fun info => valueTyped info arg.2

/-- What has the type of an optional field fits its declaration. -/
theorem argumentTyped_of_hasType {c : ClassName} {f : FieldName} {t : FieldType} {v : Value}
    (declared : c.info f = some ⟨f, t, .absent⟩) (typed : v.hasType t = true) :
    argumentTyped c (f, v) = true := by
  rw [argumentTyped, declared, Option.any_some]
  by_cases absent : v = .none
  · rw [absent]
    rfl
  · rw [valueTyped, typed]
    · rfl
    · exact absent

/-- A field of a list type fits its declaration. -/
theorem argumentTyped_list {c : ClassName} {f : FieldName} {t : ElementType} {xs : List Value}
    (declared : c.info f = some ⟨f, .list t, .absent⟩) (typed : Value.hasElements xs t = true) :
    argumentTyped c (f, .list xs) = true :=
  argumentTyped_of_hasType declared (by rw [Value.hasType, typed])

/-- A `PrismMessage`, by the values of its fields. -/
structure PrismMessage where
  fields : List Value
deriving Inhabited

namespace PrismMessage

/-- The message as a Python object. -/
def toValue (m : PrismMessage) : Value := .object .prismMessage m.fields

/-- A Python object that is a message. -/
def ofValue? : Value → Option PrismMessage
  | .object .prismMessage fields => some ⟨fields⟩
  | _ => none

@[simp] theorem ofValue?_toValue (m : PrismMessage) : ofValue? m.toValue = some m := rfl

/-- An attribute of the message. -/
def get (m : PrismMessage) (f : FieldName) : Value :=
  fieldOf ClassName.prismMessage.schema m.fields f

/-- `PrismMessage(msg_type=..., **kwargs)`, at time `now`. -/
def create (now : ℤ) (msgType : TypeEnum) (kwargs : List (FieldName × Value)) : PrismMessage :=
  ⟨initFields now ClassName.prismMessage.schema ((.msgType, .enum (.type msgType)) :: kwargs)⟩

/-- Every field holds a value of its declared type. -/
def Typed (m : PrismMessage) : Prop :=
  Value.hasFields m.fields ClassName.prismMessage.schema = true

instance (m : PrismMessage) : Decidable m.Typed := inferInstanceAs (Decidable (_ = true))

/-- A Python object that is a message of declared types. -/
theorem typed_iff (m : PrismMessage) (t : FieldType)
    (message : t = .object .prismMessage ∨ t = .generic (some .prismMessage)) :
    m.toValue.hasType t = true ↔ m.Typed := by
  rcases message with rfl | rfl <;> simp [toValue, Value.hasType, Typed]

theorem valueTyped_now {info : FieldInfo} (type : info.type = .scalar .int)
    (default : info.default = .now) (n : ℤ) : valueTyped info (.int n) = true := by
  obtain ⟨fieldName, _, _⟩ := info
  subst type default
  rfl

/-- A fixed value fits the type of its field. -/
def fixedTyped (info : FieldInfo) : Bool :=
  match info.default with
  | .fixed n => valueTyped info (.int n)
  | _ => true

/-- The fields of a `PrismMessage`: their names are distinct, the fixed one and the one set
to the time are integers, and the message type is the required one. -/
theorem schema_prismMessage : ∀ info ∈ ClassName.prismMessage.schema,
    ClassName.prismMessage.info info.name = some info ∧
    (∀ n, info.default = .fixed n → valueTyped info (.int n) = true) ∧
    (info.default = .now → info.type = .scalar .int) ∧
    (info.default = .required → info.name = .msgType) := by
  have distinct : ∀ info ∈ ClassName.prismMessage.schema,
      ClassName.prismMessage.info info.name = some info := by decide
  have fixed : ∀ info ∈ ClassName.prismMessage.schema, fixedTyped info = true := by decide
  have timed : ∀ info ∈ ClassName.prismMessage.schema,
      info.default = .now → info.type = .scalar .int := by decide
  have required : ∀ info ∈ ClassName.prismMessage.schema,
      info.default = .required → info.name = .msgType := by decide
  intro info mem
  refine ⟨distinct info mem, fun n default => ?_, timed info mem, required info mem⟩
  have at_info := fixed info mem
  rwa [fixedTyped, default] at at_info

/-- **Typed arguments make a typed message.** -/
theorem typed_create {now : ℤ} {msgType : TypeEnum} {kwargs : List (FieldName × Value)}
    (typed : ∀ arg ∈ kwargs, argumentTyped .prismMessage arg = true) :
    (create now msgType kwargs).Typed := by
  have all : ∀ arg ∈ (FieldName.msgType, Value.enum (.type msgType)) :: kwargs,
      argumentTyped .prismMessage arg = true := by
    intro arg mem
    rcases List.mem_cons.mp mem with rfl | mem
    · rfl
    · exact typed arg mem
  refine hasFields_map fun info mem => ?_
  obtain ⟨unique, fixed, timed, required⟩ := schema_prismMessage info mem
  cases given : ((FieldName.msgType, Value.enum (.type msgType)) :: kwargs).lookup info.name with
  | none =>
      cases default : info.default with
      | fixed n => simpa [Value.initField, default] using fixed n default
      | required =>
          rw [required default, List.lookup_cons_self] at given
          cases given
      | absent => simp [Value.initField, default, valueTyped]
      | now => simpa [Value.initField, default] using valueTyped_now (timed default) default now
  | some v =>
      obtain ⟨before, after, split, -⟩ := List.lookup_eq_some_iff.mp given
      have argument := all (info.name, v) (by rw [split]; simp)
      rw [argumentTyped, unique, Option.any_some] at argument
      cases default : info.default with
      | fixed n => simpa [Value.initField, default] using fixed n default
      | _ => simpa [Value.initField, default] using argument

/-! ### Methods -/

section Methods

variable (cbor : Cbor2) (builtins : Builtins) (now : ℤ)

/-- `encode`. -/
def encode (m : PrismMessage) : Py Bytes := m.toValue.encode cbor

/-- `decode`: the encoding of `None` is decoded to `None`. -/
def decode (data : Bytes) : Py (Option PrismMessage) :=
  ofValue? <$> Value.decode cbor builtins now .prismMessage data

/-- `clone`. -/
def clone (m : PrismMessage) (kwargs : List (FieldName × Value)) : Py PrismMessage := do
  match ofValue? (← m.toValue.clone builtins now kwargs) with
  | some m => return m
  | none => throw .attributeError

/-- `digest`, over the debug information left out. -/
def digest (sha256 : Bytes → Bytes) (m : PrismMessage) : Py Bytes := do
  let bare ← m.clone builtins now [(.debugInfo, .none)]
  return sha256 (← bare.encode cbor)

/-- A typed message survives encoding. -/
theorem decode_encode {m : PrismMessage} (typed : m.Typed) :
    ∃ data, m.encode cbor = .ok data ∧ data ≠ [] ∧
      decode cbor builtins now data = .ok (some m) := by
  obtain ⟨data, encoded, ne, decoded⟩ :=
    @Value.decode_encode builtins now cbor .prismMessage m.fields typed
  refine ⟨data, encoded, ne, ?_⟩
  rw [decode, decoded]
  rfl

/-- A typed message survives the way through its dictionary. -/
theorem fromCborDict_asCborDict {m : PrismMessage} (typed : m.Typed) :
    ∃ entries, m.toValue.asCborDict = .ok entries ∧
      Value.fromCborDict builtins now entries .prismMessage = .ok m.toValue := by
  obtain ⟨entries, h⟩ :=
    (@Value.roundTrips builtins now m.toValue).message .prismMessage m.fields rfl typed
  refine ⟨.dict entries, ?_, ?_⟩
  · rw [toValue, Value.asCborDict, h.run]
    rfl
  · have back := Value.dict_back builtins now typed h false
    rwa [Value.carriedEntries, List.map_id''] at back
    exact fun _ => rfl

end Methods

end PrismMessage

/-- Messages of declared types fit a list of messages. -/
theorem hasElements_messages {ms : List PrismMessage} (typed : ∀ m ∈ ms, m.Typed) :
    Value.hasElements (ms.map PrismMessage.toValue) (.generic .prismMessage) = true := by
  induction ms with
  | nil => rfl
  | cons m ms ih =>
      have rest := ih fun other mem => typed other (List.mem_cons_of_mem _ mem)
      have first : Value.hasFields m.fields ClassName.prismMessage.schema = true :=
        typed m List.mem_cons_self
      rw [List.map_cons, PrismMessage.toValue, Value.hasElements, rest, first]
      rfl

end Prism
