import Prism.Datetime
import Prism.Message.PrismMessage

/-!
Floats where a message declares an integer (`CBORFactory` in `prism/common/message.py`).

Types are not checked when a message is made or encoded: the value of a field is copied. It is
converted to the declared type when the message is decoded, so the message that is decoded
differs from the one that was sent in that field.

* `PrismMessage.decode_encode_converted`: a message with one argument of another builtin type is
  decoded to the message with the converted argument.
-/

namespace Prism

/-- The number that a double stands for. -/
def floatValue? (bits : UInt64) : Option ℚ :=
  let exponent := bits.toNat / 2 ^ 52 % 2048
  let fraction := bits.toNat % 2 ^ 52
  let mantissa : ℕ := if exponent = 0 then fraction else fraction + 2 ^ 52
  let magnitude : ℚ := mantissa * 2 ^ ((max exponent 1 : ℕ) - 1075 : ℤ)
  if exponent = 2047 then none
  else some (if bits.toNat < 2 ^ 63 then magnitude else -magnitude)

/-- `int(x)` of a float drops the fraction. -/
def Builtins.Truncates (builtins : Builtins) : Prop :=
  ∀ bits x, floatValue? bits = some x →
    builtins.call .int (.float bits) = .ok (.int (integerPart x))

/-- The builtin types on values of their own, and `int` on floats. -/
def Builtins.truncating : Builtins where
  call s v :=
    if v.isScalar s then .ok v
    else
      match s, v with
      | .int, .float bits =>
        match floatValue? bits with
        | some x => .ok (.int (integerPart x))
        | none => .error (.valueError "cannot convert float to integer")
      | _, _ => .error .typeError
  call_isScalar _ _ typed := if_pos typed

theorem Builtins.truncates_truncating : Builtins.truncating.Truncates := by
  intro bits x value
  simp [truncating, Value.isScalar, value]

namespace Value

/-! ### One field of another type -/

/-- A dictionary of fields with another value at one position. -/
def replaceEntry (entries : List (ℤ × Value)) (key : ℤ) (d : Value) : List (ℤ × Value) :=
  entries.map fun entry => if entry.1 = key then (key, d) else entry

theorem replaceEntry_keys (entries : List (ℤ × Value)) (key : ℤ) (d : Value) :
    (replaceEntry entries key d).map Prod.fst = entries.map Prod.fst := by
  rw [replaceEntry, List.map_map]
  refine List.map_congr_left fun entry _ => ?_
  rw [Function.comp_apply]
  split_ifs with same
  · exact same.symm
  · rfl

theorem replaceEntry_of_absent {entries : List (ℤ × Value)} {key : ℤ}
    (absent : ∀ entry ∈ entries, entry.1 ≠ key) (d : Value) :
    replaceEntry entries key d = entries := by
  rw [replaceEntry, List.map_congr_left fun entry mem => if_neg (absent entry mem), List.map_id']

theorem entriesPlain_replaceEntry {entries : List (ℤ × Value)} (plain : entriesPlain entries = true)
    (key : ℤ) {d : Value} (valuePlain : d.isPlain = true) :
    entriesPlain (replaceEntry entries key d) = true := by
  induction entries with
  | nil => rfl
  | cons entry entries ih =>
      rw [entriesPlain, Bool.and_eq_true] at plain
      rw [replaceEntry, List.map_cons]
      split_ifs with same
      · rw [entriesPlain, Bool.and_eq_true]
        exact ⟨valuePlain, ih plain.2⟩
      · rw [entriesPlain, Bool.and_eq_true]
        exact ⟨plain.1, ih plain.2⟩

theorem carriedEntries_replaceEntry (viaBytes : Bool) (entries : List (ℤ × Value)) (key : ℤ)
    {d : Value} (atom : d.isAtom = true) :
    carriedEntries viaBytes (replaceEntry entries key d) =
      replaceEntry (carriedEntries viaBytes entries) key d := by
  rw [carriedEntries, carriedEntries, replaceEntry, replaceEntry, List.map_map, List.map_map]
  refine List.map_congr_left fun entry _ => ?_
  simp only [Function.comp_apply]
  split_ifs
  · rw [carried_atom viaBytes atom]
  · rfl

/-- The positions of the encoded fields are those from `index` on. -/
theorem le_of_mem_asEntries {fields : List Value} {infos : List FieldInfo} {index : ℕ}
    {entries : List (ℤ × Value)} (run : asEntries fields infos index = .ok entries) :
    ∀ entry ∈ entries, (index : ℤ) ≤ entry.1 := by
  induction fields generalizing infos index entries with
  | nil =>
      cases run
      simp
  | cons v fields ih =>
      cases infos with
      | nil =>
          cases v <;> cases run <;> simp
      | cons field infos =>
          by_cases absent : v = none
          · subst absent
            intro entry mem
            have later := ih run entry mem
            push_cast at later
            omega
          · rw [asEntries_cons absent] at run
            obtain ⟨d, -, run⟩ := bind_eq_ok.mp run
            obtain ⟨rest, tail, made⟩ := bind_eq_ok.mp run
            obtain rfl := Except.ok.inj made
            intro entry mem
            rcases List.mem_cons.mp mem with rfl | mem
            · exact le_rfl
            · have later := ih tail entry mem
              push_cast at later
              omega

/-- A builtin value is copied, whatever the field is declared as. -/
theorem asEntry_scalar {v : Value} {s' s : Scalar} (scalar : v.isScalar s' = true) :
    asEntry v (.scalar s) = .ok v := by
  cases v <;> first | rfl | (cases s' <;> cases scalar)

/-- Fields with another builtin value at one position. -/
theorem asEntries_set {fields : List Value} {infos : List FieldInfo} {index k : ℕ}
    {entries : List (ℤ × Value)} {field : FieldInfo} {s s' : Scalar} {v w : Value}
    (run : asEntries fields infos index = .ok entries) (at_k : infos[k]? = some field)
    (type : field.type = .scalar s) (value : fields[k]? = some w) (present : w ≠ none)
    (scalar : v.isScalar s' = true) :
    asEntries (fields.set k v) infos index = .ok (replaceEntry entries (index + k : ℕ) v) := by
  induction fields generalizing infos index k entries with
  | nil => cases value
  | cons u fields ih =>
      cases infos with
      | nil => cases at_k
      | cons head infos =>
          cases k with
          | zero =>
              obtain rfl := Option.some.inj at_k
              obtain rfl := Option.some.inj value
              rw [asEntries_cons present] at run
              obtain ⟨d, -, run⟩ := bind_eq_ok.mp run
              obtain ⟨rest, tail, made⟩ := bind_eq_ok.mp run
              obtain rfl := Except.ok.inj made
              rw [List.set_cons_zero, asEntries_cons (isAtom_of_isScalar scalar).2.2, type,
                asEntry_scalar scalar, ok_bind, tail, ok_bind, replaceEntry, List.map_cons,
                if_pos (by simp)]
              have later : ∀ entry ∈ rest, entry.1 ≠ ((index + 0 : ℕ) : ℤ) := by
                intro entry mem
                have after := le_of_mem_asEntries tail entry mem
                push_cast at after ⊢
                omega
              have others := replaceEntry_of_absent later v
              rw [replaceEntry] at others
              rw [others]
              rfl
          | succ k =>
              have shift : index + (k + 1) = index + 1 + k := by omega
              rw [List.set_cons_succ]
              by_cases absent : u = none
              · subst absent
                rw [shift]
                exact ih run at_k value
              · rw [asEntries_cons absent] at run ⊢
                obtain ⟨d, entry, run⟩ := bind_eq_ok.mp run
                obtain ⟨rest, tail, made⟩ := bind_eq_ok.mp run
                obtain rfl := Except.ok.inj made
                rw [entry, ok_bind, ih tail at_k value, ok_bind, replaceEntry, replaceEntry,
                  List.map_cons, if_neg (by push_cast; omega), shift]
                rfl

section Decode

variable (builtins : Builtins) (now : ℤ)

/-- Reading fields of which one was stored as a value that converts to it. -/
theorem reads_replaceEntry {fields : List Value} {infos : List FieldInfo} {k : ℕ}
    {entries : List (ℤ × Value)} {field : FieldInfo} {s s' : Scalar} {v w : Value}
    (reads : Reads (readDict (convertEntries builtins now entries)) fields infos 0)
    (at_k : infos[k]? = some field) (type : field.type = .scalar s) (value : fields[k]? = some w)
    (stored : (k : ℤ) ∈ entries.map Prod.fst) (scalar : v.isScalar s' = true)
    (converted : builtins.call s v = .ok w) :
    Reads (readDict (convertEntries builtins now (replaceEntry entries k v))) fields infos 0 := by
  intro j info u at_j at_j'
  rw [ReadsAs, readDict_eq]
  by_cases same : j = k
  · subst same
    obtain rfl := Option.some.inj (at_k.symm.trans at_j)
    obtain rfl := Option.some.inj (value.symm.trans at_j')
    refine .inr ⟨convert builtins now v, ?_, ?_⟩
    · rw [Nat.zero_add, replaceEntry, lookup_replaced_self v stored]
      exact congrArg Except.ok (conversion?_some builtins now (isAtom_of_isScalar scalar).2.2)
    · rw [type]
      cases v <;> first | exact converted | (cases s' <;> cases scalar)
  · have kept := reads j info u at_j at_j'
    rw [ReadsAs, readDict_eq] at kept
    rwa [replaceEntry, lookup_replaced_ne entries v (by push_cast; omega)]

/-- **A builtin value is converted when a message is decoded**, and the other fields come back. -/
theorem decode_encode_converted (cbor : Cbor2) (c : ClassName) {fields : List Value}
    (typed : hasFields fields c.schema = true) {k : ℕ} {field : FieldInfo} {s s' : Scalar}
    {v w : Value} (at_k : c.schema[k]? = some field) (type : field.type = .scalar s)
    (value : fields[k]? = some w) (present : w ≠ none) (scalar : v.isScalar s' = true)
    (converted : builtins.call s v = .ok w) :
    ∃ data, encode cbor (object c (fields.set k v)) = .ok data ∧ data ≠ [] ∧
      decode cbor builtins now c data = .ok (object c fields) := by
  obtain ⟨entries, h⟩ := (@roundTrips builtins now (object c fields)).message c fields rfl typed
  obtain ⟨atom, valuePlain, -⟩ := isAtom_of_isScalar scalar
  have run := asEntries_set h.run at_k type value present scalar
  rw [Nat.zero_add] at run
  have plain : (dict (replaceEntry entries k v)).isPlain = true := by
    rw [isPlain, replaceEntry_keys, entriesPlain_replaceEntry h.plain k valuePlain,
      decide_eq_true h.nodup]
    rfl
  obtain ⟨data, dumps, loads⟩ := cbor.loads_dumps _ plain
  have stored : (k : ℤ) ∈ (carriedEntries true entries).map Prod.fst := by
    by_contra absent
    have reads := h.reads true k field w at_k value
    rw [ReadsAs, readDict_eq, Nat.zero_add, lookup_absent absent] at reads
    rcases reads with ⟨none, -⟩ | ⟨convert, found, -⟩
    · exact present none
    · cases found
  have reads := reads_replaceEntry builtins now (h.reads true) at_k type value stored scalar
    converted
  rw [← carriedEntries_replaceEntry true entries k atom] at reads
  refine ⟨data, ?_, cbor.dumps_ne_nil _ _ dumps, ?_⟩
  · rw [encode, asCborDict, run]
    exact dumps
  · have carried := carried_dict true (replaceEntry entries k v)
    rw [Value.carried, if_pos rfl] at carried
    rw [decode, loads, ok_bind, carried, fromCborDict]
    exact buildClass_of_reads now typed reads

end Decode

end Value

/-! ### Arguments -/

theorem lookup_argument_ne {before after : List (FieldName × Value)} {f other : FieldName}
    (ne : other ≠ f) (v w : Value) :
    (before ++ (f, v) :: after).lookup other = (before ++ (f, w) :: after).lookup other := by
  rw [List.lookup_append, List.lookup_append, List.lookup_cons, List.lookup_cons,
    beq_false_of_ne ne]

theorem lookup_argument_self {before : List (FieldName × Value)} {f : FieldName}
    (first : f ∉ before.map Prod.fst) (after : List (FieldName × Value)) (v : Value) :
    (before ++ (f, v) :: after).lookup f = some v := by
  have absent : before.lookup f = none := by
    rw [List.lookup_eq_none_iff]
    intro e mem
    rw [bne_iff_ne]
    rintro rfl
    exact first (List.mem_map_of_mem mem)
  rw [List.lookup_append, absent, List.lookup_cons_self]
  rfl

/-- Another argument for one field changes the value of that field only. -/
theorem initFields_argument {now : ℤ} {infos : List FieldInfo} {k : ℕ} {info : FieldInfo}
    (nodup : (infos.map FieldInfo.name).Nodup) (at_k : infos[k]? = some info)
    (default : info.default = .absent) {before : List (FieldName × Value)}
    (first : info.name ∉ before.map Prod.fst) (after : List (FieldName × Value)) (v w : Value) :
    initFields now infos (before ++ (info.name, v) :: after) =
      (initFields now infos (before ++ (info.name, w) :: after)).set k v := by
  refine List.ext_getElem? fun j => ?_
  rw [List.getElem?_set]
  by_cases same : k = j
  · subst same
    have small := (List.getElem?_eq_some_iff.mp at_k).1
    have init : Value.initField now info (some v) = some v := by simp [Value.initField, default]
    rw [if_pos rfl, initFields, initFields, List.length_map, if_pos small, List.getElem?_map, at_k,
      Option.map_some, lookup_argument_self first, init]
    rfl
  · rw [if_neg same, initFields, initFields, List.getElem?_map, List.getElem?_map]
    cases at_j : infos[j]? with
    | none => rfl
    | some other =>
        have ne : other.name ≠ info.name := by
          intro eq
          have names : (infos.map FieldInfo.name)[k]? = (infos.map FieldInfo.name)[j]? := by
            rw [List.getElem?_map, List.getElem?_map, at_k, at_j, Option.map_some,
              Option.map_some, eq]
          have small := (List.getElem?_eq_some_iff.mp at_k).1
          exact same (List.getElem?_inj (by rwa [List.length_map]) nodup |>.mp names)
        rw [Option.map_some, Option.map_some, lookup_argument_ne ne v w]

theorem nodup_prismMessage : (ClassName.prismMessage.schema.map FieldInfo.name).Nodup := by decide

/-- **A message with one argument of another builtin type** is decoded to the message with the
converted argument. -/
theorem PrismMessage.decode_encode_converted (cbor : Cbor2) (builtins : Builtins) (sent now : ℤ)
    {msgType : TypeEnum} {before after : List (FieldName × Value)} {k : ℕ} {info : FieldInfo}
    {s s' : Scalar} {v w : Value} (at_k : ClassName.prismMessage.schema[k]? = some info)
    (type : info.type = .scalar s) (default : info.default = .absent)
    (ne : info.name ≠ .msgType) (first : info.name ∉ before.map Prod.fst)
    (typed : (create sent msgType (before ++ (info.name, w) :: after)).Typed) (present : w ≠ .none)
    (scalar : v.isScalar s' = true) (converted : builtins.call s v = .ok w) :
    ∃ data, (create sent msgType (before ++ (info.name, v) :: after)).encode cbor = .ok data ∧
      data ≠ [] ∧ decode cbor builtins now data =
        .ok (some (create sent msgType (before ++ (info.name, w) :: after))) := by
  have outside : info.name ∉
      ((FieldName.msgType, Value.enum (.type msgType)) :: before).map Prod.fst := by
    rw [List.map_cons, List.mem_cons, not_or]
    exact ⟨ne, first⟩
  have fields : (create sent msgType (before ++ (info.name, v) :: after)).fields =
      (create sent msgType (before ++ (info.name, w) :: after)).fields.set k v :=
    initFields_argument nodup_prismMessage at_k default outside after v w
  have value : (create sent msgType (before ++ (info.name, w) :: after)).fields[k]? = some w := by
    have own := @initFields_argument sent _ _ _ nodup_prismMessage at_k default _ outside after w w
    have small := (List.getElem?_eq_some_iff.mp at_k).1
    rw [create, ← List.cons_append, own, List.getElem?_set, if_pos rfl, if_pos]
    rwa [initFields, List.length_map]
  obtain ⟨data, encoded, data_ne, decoded⟩ := Value.decode_encode_converted builtins now cbor
    .prismMessage typed at_k type value present scalar converted
  refine ⟨data, ?_, data_ne, ?_⟩
  · rw [encode, toValue, fields]
    exact encoded
  · rw [decode, decoded]
    rfl

end Prism
