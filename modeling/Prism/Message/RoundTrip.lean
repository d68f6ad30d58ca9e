import Prism.Message.Codec

/-!
Decoding undoes encoding (`CBORFactory` in `prism/common/message.py`).

A value that is absent is not encoded, so positions are skipped. `Reads` says that every
position of a dictionary holds what converts to the value of its field; `Entries` says of
the dictionary of the fields from some position on that it can be made and reads so,
`Converts` the same for one field and `Items` for a list. A dictionary is read as it was
made by `clone`, and after it went through `cbor2` by `decode`: `carried` is what it looks
like then. There is one lemma for every way to make a field or an element, and
`roundTrips` puts them together by induction over the nesting of the message.

* `decode_encode`: a message of any class whose fields hold values of their declared
  types is encoded, and decoding the bytes gives it back.
* `lookup_setEntry`: what `clone` finds after it stored an argument.
-/

namespace Prism

namespace Value

/-- Data as it is read: as it was made, or after it was encoded and decoded. -/
def carried (viaBytes : Bool) (v : Value) : Value := if viaBytes then v.loaded else v

theorem allLoaded_eq_map (xs : List Value) : allLoaded xs = xs.map loaded := by
  induction xs with
  | nil => rfl
  | cons x xs ih => rw [allLoaded, ih, List.map_cons]

theorem entriesLoaded_eq_map (entries : List (ℤ × Value)) :
    entriesLoaded entries = entries.map fun e => (e.1, e.2.loaded) := by
  induction entries with
  | nil => rfl
  | cons e entries ih => rw [entriesLoaded, ih, List.map_cons]

/-- Entries as they are read. -/
def carriedEntries (viaBytes : Bool) (entries : List (ℤ × Value)) : List (ℤ × Value) :=
  entries.map fun e => (e.1, carried viaBytes e.2)

theorem carried_list (viaBytes : Bool) (xs : List Value) :
    carried viaBytes (list xs) = list (xs.map (carried viaBytes)) := by
  cases viaBytes with
  | false => exact congrArg list (List.map_id xs).symm
  | true => simp [carried, loaded, allLoaded_eq_map]

theorem carried_dict (viaBytes : Bool) (entries : List (ℤ × Value)) :
    carried viaBytes (dict entries) = dict (carriedEntries viaBytes entries) := by
  cases viaBytes with
  | false => simp [carried, carriedEntries]
  | true => simp [carried, carriedEntries, loaded, entriesLoaded_eq_map]

/-- An atom is carried as it is. -/
theorem carried_atom (viaBytes : Bool) {v : Value} (atom : v.isAtom = true) :
    carried viaBytes v = v := by
  cases viaBytes with
  | false => rfl
  | true => cases v <;> first | rfl | cases atom

theorem isAtom_of_isScalar {v : Value} {s : Scalar} (typed : v.isScalar s = true) :
    v.isAtom = true ∧ v.isPlain = true ∧ v ≠ none := by
  cases s <;> cases v <;> simp [isScalar] at typed <;> simp [isAtom, isPlain]

section RoundTrip

variable (builtins : Builtins) (now : ℤ)

theorem asEntries_cons {value : Value} (some : value ≠ none) (values : List Value)
    (field : FieldInfo) (rest : List FieldInfo) (index : ℕ) :
    asEntries (value :: values) (field :: rest) index = do
      let entry ← asEntry value field.type
      return ((index : ℤ), entry) :: (← asEntries values rest (index + 1)) := by
  rw [asEntries]
  exact some

theorem hasFields_cons {v : Value} (some : v ≠ none) (vs : List Value) (field : FieldInfo)
    (rest : List FieldInfo) :
    hasFields (v :: vs) (field :: rest) =
      (v.hasType field.type && v.admittedBy field.default && hasFields vs rest) := by
  rw [hasFields]
  exact some

/-- What the dictionary reader makes of a value that it finds. -/
def conversion? (v : Value) : Option Conversion :=
  match v with
  | none => Option.none
  | value => some (convert builtins now value)

theorem conversion?_some {v : Value} (present : v ≠ none) :
    conversion? builtins now v = some (convert builtins now v) := by
  rw [conversion?]
  exact present

/-- Reading a dictionary is looking up the position. -/
theorem readDict_eq (entries : List (ℤ × Value)) (index : ℕ) :
    readDict (convertEntries builtins now entries) index =
      .ok ((entries.lookup (index : ℤ)).bind (conversion? builtins now)) := by
  induction entries with
  | nil => rfl
  | cons e entries ih =>
      obtain ⟨key, v⟩ := e
      have head : convertEntries builtins now ((key, v) :: entries) =
          (key, conversion? builtins now v) :: convertEntries builtins now entries := by
        cases v <;> rfl
      rw [readDict] at ih ⊢
      rw [head, List.lookup_cons, List.lookup_cons]
      by_cases same : (index : ℤ) = key
      · rw [beq_iff_eq.mpr same]
        rfl
      · rw [beq_false_of_ne same]
        exact ih

theorem lookup_absent {entries : List (ℤ × Value)} {key : ℤ}
    (absent : key ∉ entries.map Prod.fst) : entries.lookup key = Option.none := by
  rw [List.lookup_eq_none_iff]
  intro e mem
  rw [bne_iff_ne]
  rintro rfl
  exact absent (List.mem_map_of_mem mem)

/-! ### Reading entries -/

/-- Position `index` of a dictionary holds what converts to `v`, or nothing. -/
def ReadsAs (read : ℕ → Py (Option Conversion)) (index : ℕ) (field : FieldInfo) (v : Value) :
    Prop :=
  (v = none ∧ read index = .ok Option.none) ∨
    ∃ convert, read index = .ok (some convert) ∧ convert field.type = .ok v

/-- The positions of a dictionary from `index` on hold what converts to the values of the
fields. -/
def Reads (read : ℕ → Py (Option Conversion)) (fields : List Value) (infos : List FieldInfo)
    (index : ℕ) : Prop :=
  ∀ (k : ℕ) (field : FieldInfo) (v : Value), infos[k]? = some field → fields[k]? = some v →
    ReadsAs read (index + k) field v

theorem reads_cons {read : ℕ → Py (Option Conversion)} {v : Value} {fields : List Value}
    {field : FieldInfo} {infos : List FieldInfo} {index : ℕ} :
    Reads read (v :: fields) (field :: infos) index ↔
      ReadsAs read index field v ∧ Reads read fields infos (index + 1) := by
  constructor
  · intro reads
    refine ⟨reads 0 field v rfl rfl, fun k field' v' at_k at_k' => ?_⟩
    have later := reads (k + 1) field' v' at_k at_k'
    rwa [show index + (k + 1) = index + 1 + k by omega] at later
  · rintro ⟨head, rest⟩ k field' v' at_k at_k'
    cases k with
    | zero =>
        cases at_k
        cases at_k'
        exact head
    | succ k =>
        have later := rest k field' v' at_k at_k'
        rwa [show index + 1 + k = index + (k + 1) by omega] at later

/-- Reading typed fields from a dictionary that holds them gives them back. -/
theorem readFields_of_reads {read : ℕ → Py (Option Conversion)} {fields : List Value}
    {infos : List FieldInfo} {index : ℕ} (typed : hasFields fields infos = true)
    (reads : Reads read fields infos index) :
    ∃ args, readFields read infos index = .ok args ∧
      (infos.zip args).mapM (fun (field, arg) => initField now field arg) = some fields := by
  induction infos generalizing fields index with
  | nil =>
      cases fields with
      | nil => exact ⟨[], rfl, rfl⟩
      | cons v fields => cases v <;> cases typed
  | cons field infos ih =>
      cases fields with
      | nil => cases typed
      | cons v fields =>
          obtain ⟨head, tail⟩ := reads_cons.mp reads
          by_cases absent : v = none
          · subst absent
            rw [hasFields, Bool.and_eq_true, decide_eq_true_eq] at typed
            obtain ⟨args, run, init⟩ := ih typed.2 tail
            rcases head with ⟨-, nothing⟩ | ⟨convert, found, converted⟩
            · refine ⟨Option.none :: args, ?_, ?_⟩
              · rw [readFields, typed.1, nothing, ok_bind, run]
                rfl
              · rw [List.zip_cons_cons, List.mapM_cons, init]
                simp [initField, typed.1]
            · refine ⟨some none :: args, ?_, ?_⟩
              · rw [readFields, typed.1, found]
                simp only [ok_bind, converted, run]
                rfl
              · rw [List.zip_cons_cons, List.mapM_cons, init]
                simp [initField, typed.1]
          · rw [hasFields_cons absent, Bool.and_eq_true, Bool.and_eq_true] at typed
            obtain ⟨args, run, init⟩ := ih typed.2 tail
            obtain ⟨convert, found, converted⟩ := head.resolve_left fun h => absent h.1
            cases default : field.default with
            | fixed n =>
                have admitted := typed.1.2
                rw [default] at admitted
                refine ⟨Option.none :: args, ?_, ?_⟩
                · rw [readFields, default, run]
                  rfl
                · rw [List.zip_cons_cons, List.mapM_cons, init]
                  cases v <;> simp [admittedBy] at admitted
                  simp [initField, default, admitted]
            | _ =>
                refine ⟨some v :: args, ?_, ?_⟩
                · rw [readFields, default, found]
                  simp only [ok_bind, converted, run]
                  rfl
                · rw [List.zip_cons_cons, List.mapM_cons, init]
                  simp [initField, default]

/-- A class whose dictionary holds its fields. -/
theorem buildClass_of_reads {c : ClassName} {read : ℕ → Py (Option Conversion)}
    {fields : List Value} (typed : hasFields fields c.schema = true)
    (reads : Reads read fields c.schema 0) :
    buildClass now c read = .ok (object c fields) := by
  obtain ⟨args, run, init⟩ := readFields_of_reads now typed reads
  rw [buildClass, run, ok_bind, construct, init]
  rfl

theorem carriedEntries_keys (viaBytes : Bool) (entries : List (ℤ × Value)) :
    (carriedEntries viaBytes entries).map Prod.fst = entries.map Prod.fst := by
  rw [carriedEntries, List.map_map]
  rfl

/-! ### Fields -/

/-- The encoding of one value: converting it back gives the value. -/
structure Converts (v : Value) (t : FieldType) (d : Value) : Prop where
  run : asEntry v t = .ok d
  plain : d.isPlain = true
  present : ∀ viaBytes, carried viaBytes d ≠ none
  back : ∀ viaBytes, convert builtins now (carried viaBytes d) t = .ok v

/-- The encoding of the fields from position `index` on: reading it gives them back. -/
structure Entries (fields : List Value) (infos : List FieldInfo) (index : ℕ)
    (entries : List (ℤ × Value)) : Prop where
  run : asEntries fields infos index = .ok entries
  plain : entriesPlain entries = true
  after : ∀ key ∈ entries.map Prod.fst, (index : ℤ) ≤ key
  nodup : (entries.map Prod.fst).Nodup
  reads : ∀ viaBytes, Reads
    (readDict (convertEntries builtins now (carriedEntries viaBytes entries))) fields infos index

theorem converts_scalar {v : Value} {s : Scalar} (typed : v.isScalar s = true) :
    Converts builtins now v (.scalar s) v := by
  obtain ⟨atom, plain, present⟩ := isAtom_of_isScalar typed
  refine ⟨?_, plain, fun viaBytes => ?_, fun viaBytes => ?_⟩
  · cases v <;> first | rfl | (cases s <;> cases typed)
  · rwa [carried_atom viaBytes atom]
  · rw [carried_atom viaBytes atom]
    have call := builtins.call_isScalar s v typed
    cases v <;> first | exact call | (cases s <;> cases typed)

/-- An enumeration member is encoded as its integer. -/
theorem converts_enum (e : EnumValue) :
    Converts builtins now (enum e) (.enum e.kind) (int e.value) := by
  refine ⟨rfl, rfl, fun viaBytes => ?_, fun viaBytes => ?_⟩
  · rw [carried_atom viaBytes rfl]
    simp
  · rw [carried_atom viaBytes rfl]
    simp [convert, convertAtom, number?]

theorem entries_nil (index : ℕ) : Entries builtins now [] [] index [] :=
  ⟨rfl, rfl, by simp, by simp, fun _ k field v at_k _ => by simp at at_k⟩

/-- An absent field is not encoded. -/
theorem entries_absent {fields : List Value} {infos : List FieldInfo} {index : ℕ}
    {entries : List (ℤ × Value)} (field : FieldInfo)
    (rest : Entries builtins now fields infos (index + 1) entries) :
    Entries builtins now (none :: fields) (field :: infos) index entries := by
  have after : ∀ key ∈ entries.map Prod.fst, (index : ℤ) < key := by
    intro key mem
    have := rest.after key mem
    push_cast at this
    omega
  refine ⟨?_, rest.plain, fun key mem => (after key mem).le, rest.nodup, fun viaBytes => ?_⟩
  · rw [asEntries, rest.run]
  · rw [reads_cons]
    refine ⟨.inl ⟨rfl, ?_⟩, rest.reads viaBytes⟩
    rw [readDict_eq, lookup_absent fun mem => ?_]
    · rfl
    · rw [carriedEntries_keys] at mem
      exact (after _ mem).ne rfl

/-- A field that holds a value. -/
theorem entries_present {fields : List Value} {infos : List FieldInfo} {index : ℕ}
    {entries : List (ℤ × Value)} {field : FieldInfo} {v d : Value} (present : v ≠ none)
    (value : Converts builtins now v field.type d)
    (rest : Entries builtins now fields infos (index + 1) entries) :
    Entries builtins now (v :: fields) (field :: infos) index ((↑index, d) :: entries) := by
  have after : ∀ key ∈ entries.map Prod.fst, (index : ℤ) < key := by
    intro key mem
    have := rest.after key mem
    push_cast at this
    omega
  refine ⟨?_, ?_, ?_, ?_, fun viaBytes => ?_⟩
  · rw [asEntries_cons present, value.run, ok_bind, rest.run]
    rfl
  · rw [entriesPlain, value.plain, rest.plain]
    rfl
  · intro key mem
    rcases List.mem_cons.mp mem with rfl | mem
    · exact le_rfl
    · exact (after key mem).le
  · rw [List.map_cons, List.nodup_cons]
    exact ⟨fun mem => (after _ mem).ne rfl, rest.nodup⟩
  · have cons : carriedEntries viaBytes ((↑index, d) :: entries) =
        (↑index, carried viaBytes d) :: carriedEntries viaBytes entries := rfl
    rw [reads_cons, cons]
    refine ⟨.inr ⟨_, ?_, value.back viaBytes⟩, fun k field' v' at_k at_k' => ?_⟩
    · rw [readDict_eq, List.lookup_cons_self]
      exact congrArg Except.ok (conversion?_some builtins now (value.present viaBytes))
    · have later := rest.reads viaBytes k field' v' at_k at_k'
      have ne : ((index + 1 + k : ℕ) : ℤ) ≠ index := by
        push_cast
        omega
      rw [ReadsAs, readDict_eq] at later ⊢
      rwa [List.lookup_cons, beq_false_of_ne ne]

/-- The dictionary of all fields of a class gives the object back. -/
theorem dict_back {c : ClassName} {fields : List Value} {entries : List (ℤ × Value)}
    (typed : hasFields fields c.schema = true)
    (h : Entries builtins now fields c.schema 0 entries) (viaBytes : Bool) :
    buildClass now c
      (readDict (convertEntries builtins now (carriedEntries viaBytes entries))) =
        .ok (object c fields) :=
  buildClass_of_reads now typed (h.reads viaBytes)

theorem dict_plain {c : ClassName} {fields : List Value} {entries : List (ℤ × Value)}
    (h : Entries builtins now fields c.schema 0 entries) : (dict entries).isPlain = true := by
  rw [isPlain, h.plain, decide_eq_true h.nodup]
  rfl

/-- A nested message is encoded as its dictionary. -/
theorem converts_object {c : ClassName} {fields : List Value} {entries : List (ℤ × Value)}
    {t : FieldType} (message : t = .object c ∨ t = .generic (some c))
    (typed : hasFields fields c.schema = true)
    (h : Entries builtins now fields c.schema 0 entries) :
    Converts builtins now (object c fields) t (dict entries) := by
  refine ⟨?_, dict_plain builtins now h, fun viaBytes => ?_, fun viaBytes => ?_⟩
  · rcases message with rfl | rfl <;>
    · rw [asEntry, h.run]
      rfl
  · rw [carried_dict]
    simp
  · have back := dict_back builtins now typed h viaBytes
    rw [carried_dict]
    rcases message with rfl | rfl <;> exact back

/-! ### Lists -/

/-- The elements of a decoded list, after the declared type. -/
def itemsBack (ys : List Value) : ElementType → Py (List Value)
  | .scalar _ => .ok ys
  | .pair _ _ => ys.mapM toTuple
  | .object c | .generic c => (elementReaders builtins now ys).mapM fun element => element c

theorem convertList_eq (ys : List Value) (t : ElementType) :
    convertList ys (elementReaders builtins now ys) (.list t) =
      list <$> itemsBack builtins now ys t := by
  cases t <;> rfl

/-- The encoding of the elements of a list: converting them back gives the elements. -/
structure Items (xs : List Value) (t : ElementType) (ys : List Value) : Prop where
  run : asItems xs = .ok ys
  plain : allPlain ys = true
  back : ∀ viaBytes, itemsBack builtins now (ys.map (carried viaBytes)) t = .ok xs

theorem items_nil (t : ElementType) : Items builtins now [] t [] :=
  ⟨rfl, rfl, fun _ => by cases t <;> rfl⟩

/-- A list of messages or scalars with a gap. -/
theorem items_gap {xs ys : List Value} {t : ElementType}
    (gaps : (∃ c, t = .object c ∨ t = .generic c) ∨ ∃ s, t = .scalar s)
    (rest : Items builtins now xs t ys) : Items builtins now (none :: xs) t (none :: ys) := by
  refine ⟨?_, ?_, fun viaBytes => ?_⟩
  · rw [asItems, rest.run]
    · rfl
    · simp
  · rw [allPlain, rest.plain]
    rfl
  · have back := rest.back viaBytes
    rw [List.map_cons, carried_atom viaBytes rfl]
    rcases gaps with ⟨c, rfl | rfl⟩ | ⟨s, rfl⟩
    · rw [itemsBack] at back
      rw [itemsBack, elementReaders, List.mapM_cons, fromCborDict, ok_bind, back]
      rfl
    · rw [itemsBack] at back
      rw [itemsBack, elementReaders, List.mapM_cons, fromCborDict, ok_bind, back]
      rfl
    · rw [itemsBack] at back
      rw [itemsBack, Except.ok.inj back]

theorem items_object {xs ys : List Value} {t : ElementType} {c : ClassName} {fields : List Value}
    {entries : List (ℤ × Value)} (message : t = .object c ∨ t = .generic c)
    (typed : hasFields fields c.schema = true)
    (object : Entries builtins now fields c.schema 0 entries)
    (rest : Items builtins now xs t ys) :
    Items builtins now (.object c fields :: xs) t (dict entries :: ys) := by
  refine ⟨?_, ?_, fun viaBytes => ?_⟩
  · rw [asItems, object.run, ok_bind, rest.run]
    rfl
  · rw [allPlain, rest.plain, dict_plain builtins now object]
    rfl
  · have back := rest.back viaBytes
    have built := dict_back builtins now typed object viaBytes
    rw [List.map_cons, carried_dict]
    rcases message with rfl | rfl <;>
    · rw [itemsBack] at back
      rw [itemsBack, elementReaders, List.mapM_cons, fromCborDict, built, ok_bind, back]
      rfl

theorem items_scalar {v : Value} {xs ys : List Value} {s : Scalar} (typed : v.isScalar s = true)
    (rest : Items builtins now xs (.scalar s) ys) :
    Items builtins now (v :: xs) (.scalar s) (v :: ys) := by
  obtain ⟨atom, plain, -⟩ := isAtom_of_isScalar typed
  refine ⟨?_, ?_, fun viaBytes => ?_⟩
  · rw [asItems, rest.run]
    · rfl
    · rintro c fields rfl
      cases atom
  · rw [allPlain, plain, rest.plain]
    rfl
  · have back := rest.back viaBytes
    rw [itemsBack] at back
    rw [List.map_cons, carried_atom viaBytes atom, itemsBack, Except.ok.inj back]

/-- A pair is encoded as a list and becomes a tuple again. -/
theorem items_pair {v : Value} {xs ys : List Value} {s s' : Scalar} (typed : v.isPair s s' = true)
    (rest : Items builtins now xs (.pair s s') ys) :
    Items builtins now (v :: xs) (.pair s s') (v :: ys) := by
  obtain ⟨a, b, rfl, ha, hb⟩ :
      ∃ a b, v = tuple [a, b] ∧ a.isScalar s = true ∧ b.isScalar s' = true := by
    unfold isPair at typed
    split at typed
    · rw [Bool.and_eq_true] at typed
      exact ⟨_, _, rfl, typed.1, typed.2⟩
    · cases typed
  obtain ⟨atomA, plainA, -⟩ := isAtom_of_isScalar ha
  obtain ⟨atomB, plainB, -⟩ := isAtom_of_isScalar hb
  refine ⟨?_, ?_, fun viaBytes => ?_⟩
  · rw [asItems, rest.run]
    · rfl
    · simp
  · simp [allPlain, isPlain, rest.plain, plainA, plainB]
  · have back := rest.back viaBytes
    have tupled : toTuple (carried viaBytes (tuple [a, b])) = .ok (tuple [a, b]) := by
      cases viaBytes with
      | false => rfl
      | true =>
          have loadedA : a.loaded = a := carried_atom true atomA
          have loadedB : b.loaded = b := carried_atom true atomB
          simp [carried, loaded, allLoaded, loadedA, loadedB, toTuple]
    rw [itemsBack] at back
    rw [List.map_cons, itemsBack, List.mapM_cons, tupled, ok_bind, back]
    rfl

theorem converts_list {xs ys : List Value} {t : ElementType} (h : Items builtins now xs t ys) :
    Converts builtins now (list xs) (.list t) (list ys) := by
  refine ⟨?_, h.plain, fun viaBytes => ?_, fun viaBytes => ?_⟩
  · rw [asEntry, h.run]
    · rfl
    all_goals simp
  · rw [carried_list]
    simp
  · rw [carried_list, convert, convertList_eq, h.back viaBytes]
    rfl

/-! ### Nested messages -/

/-- Induction over the values inside a value. -/
theorem induction {P : Value → Prop} (atom : ∀ v, v.isAtom = true → P v)
    (list : ∀ xs, (∀ x ∈ xs, P x) → P (list xs)) (tuple : ∀ xs, (∀ x ∈ xs, P x) → P (tuple xs))
    (dict : ∀ entries, (∀ e ∈ entries, P e.2) → P (dict entries))
    (object : ∀ c fields, (∀ x ∈ fields, P x) → P (object c fields)) (v : Value) : P v := by
  refine @Value.rec P (fun xs => ∀ x ∈ xs, P x) (fun es => ∀ e ∈ es, P e.2) (fun e => P e.2)
    (atom _ rfl) (fun _ => atom _ rfl) (fun _ => atom _ rfl) (fun _ => atom _ rfl)
    (fun _ => atom _ rfl) (fun _ => atom _ rfl) (fun _ => atom _ rfl) list tuple dict object
    (by simp) (fun x xs hx hxs => by simpa using ⟨hx, hxs⟩) (by simp)
    (fun e es he hes => List.forall_mem_cons.mpr ⟨he, hes⟩) (fun _ _ h => h) v

/-- What the round trip is for one value: a value of a declared type, and a message. -/
structure RoundTrips (v : Value) : Prop where
  field : ∀ t, v.hasType t = true → ∃ d, Converts builtins now v t d
  message : ∀ c fields, v = object c fields → hasFields fields c.schema = true →
    ∃ entries, Entries builtins now fields c.schema 0 entries

variable {builtins now}

/-- Typed fields are encoded, once the values in them are. -/
theorem entries_of_hasFields {fields : List Value} (ih : ∀ v ∈ fields, RoundTrips builtins now v)
    (infos : List FieldInfo) (index : ℕ) (typed : hasFields fields infos = true) :
    ∃ entries, Entries builtins now fields infos index entries := by
  induction fields generalizing infos index with
  | nil =>
      cases infos with
      | nil => exact ⟨[], entries_nil builtins now index⟩
      | cons field infos => cases typed
  | cons v fields ihFields =>
      have ihRest := ihFields fun w mem => ih w (List.mem_cons_of_mem _ mem)
      cases infos with
      | nil => cases v <;> cases typed
      | cons field infos =>
          by_cases absent : v = none
          · subst absent
            rw [hasFields, Bool.and_eq_true] at typed
            obtain ⟨entries, rest⟩ := ihRest infos (index + 1) typed.2
            exact ⟨entries, entries_absent builtins now field rest⟩
          · rw [hasFields_cons absent, Bool.and_eq_true, Bool.and_eq_true] at typed
            obtain ⟨entries, rest⟩ := ihRest infos (index + 1) typed.2
            obtain ⟨d, value⟩ := (ih v List.mem_cons_self).field field.type typed.1.1
            exact ⟨_, entries_present builtins now absent value rest⟩

/-- A typed list of messages is encoded, once its elements are. -/
theorem items_of_messages {v : Value} {xs : List Value} {c : ClassName} {t : ElementType}
    (message : t = .object c ∨ t = .generic c) (head : RoundTrips builtins now v)
    (rest : hasElements xs t = true → ∃ ys, Items builtins now xs t ys)
    (typed : hasElements (v :: xs) t = true) : ∃ ys, Items builtins now (v :: xs) t ys := by
  cases v with
  | none =>
      have restTyped : hasElements xs t = true := by rcases message with rfl | rfl <;> exact typed
      obtain ⟨ys, rest⟩ := rest restTyped
      exact ⟨none :: ys, items_gap builtins now (.inl ⟨c, message⟩) rest⟩
  | object c' fields =>
      have parts : c' = c ∧ hasFields fields c'.schema = true ∧ hasElements xs t = true := by
        rcases message with rfl | rfl <;>
        · rw [hasElements, Bool.and_eq_true, Bool.and_eq_true, decide_eq_true_eq] at typed
          exact ⟨typed.1.1, typed.1.2, typed.2⟩
      obtain ⟨rfl, fieldsTyped, restTyped⟩ := parts
      obtain ⟨ys, rest⟩ := rest restTyped
      obtain ⟨entries, encoded⟩ := head.message c' fields rfl fieldsTyped
      exact ⟨_, items_object builtins now message fieldsTyped encoded rest⟩
  | _ => rcases message with rfl | rfl <;> cases typed

/-- A typed list is encoded, once its elements are. -/
theorem items_of_hasElements {xs : List Value} (ih : ∀ v ∈ xs, RoundTrips builtins now v)
    (t : ElementType) (typed : hasElements xs t = true) : ∃ ys, Items builtins now xs t ys := by
  induction xs with
  | nil => exact ⟨[], items_nil builtins now t⟩
  | cons v xs ihXs =>
      have ihRest := ihXs fun w mem => ih w (List.mem_cons_of_mem _ mem)
      have head := ih v List.mem_cons_self
      cases t with
      | scalar s =>
          by_cases gap : v = none
          · subst gap
            obtain ⟨ys, rest⟩ := ihRest typed
            exact ⟨none :: ys, items_gap builtins now (.inr ⟨s, rfl⟩) rest⟩
          · rw [hasElements, Bool.and_eq_true] at typed
            · obtain ⟨ys, rest⟩ := ihRest typed.2
              exact ⟨v :: ys, items_scalar builtins now typed.1 rest⟩
            · exact gap
      | pair s s' =>
          rw [hasElements, Bool.and_eq_true] at typed
          obtain ⟨ys, rest⟩ := ihRest typed.2
          exact ⟨v :: ys, items_pair builtins now typed.1 rest⟩
      | object c => exact items_of_messages (.inl rfl) head ihRest typed
      | generic c => exact items_of_messages (.inr rfl) head ihRest typed

/-- Every value round trips. -/
theorem roundTrips (v : Value) : RoundTrips builtins now v := by
  induction v using induction with
  | atom v atom =>
      constructor
      · intro t typed
        cases t with
        | scalar s =>
            exact ⟨v, converts_scalar builtins now (by cases v <;> simpa [hasType] using typed)⟩
        | enum k =>
            cases v with
            | enum e =>
                rw [hasType, decide_eq_true_eq] at typed
                subst typed
                exact ⟨_, converts_enum builtins now e⟩
            | _ => simp [hasType] at typed
        | _ => cases v <;> simp [isAtom, hasType] at typed atom
      · rintro c fields rfl
        cases atom
  | list xs ih =>
      constructor
      · intro t typed
        cases t with
        | list t =>
            rw [hasType] at typed
            obtain ⟨ys, h⟩ := items_of_hasElements ih t typed
            exact ⟨_, converts_list builtins now h⟩
        | scalar s => cases s <;> simp [hasType, isScalar] at typed
        | _ => simp [hasType] at typed
      · rintro c fields eq
        cases eq
  | tuple xs ih =>
      constructor
      · intro t typed
        cases t with
        | scalar s => cases s <;> simp [hasType, isScalar] at typed
        | _ => simp [hasType] at typed
      · rintro c fields eq
        cases eq
  | dict entries ih =>
      constructor
      · intro t typed
        cases t with
        | scalar s => cases s <;> simp [hasType, isScalar] at typed
        | _ => simp [hasType] at typed
      · rintro c fields eq
        cases eq
  | object c fields ih =>
      have message : hasFields fields c.schema = true →
          ∃ entries, Entries builtins now fields c.schema 0 entries :=
        entries_of_hasFields ih c.schema 0
      constructor
      · intro t typed
        cases t with
        | object c' =>
            rw [hasType, Bool.and_eq_true, decide_eq_true_eq] at typed
            obtain ⟨rfl, typed⟩ := typed
            obtain ⟨entries, h⟩ := message typed
            exact ⟨_, converts_object builtins now (.inl rfl) typed h⟩
        | generic c' =>
            rw [hasType, Bool.and_eq_true, decide_eq_true_eq] at typed
            obtain ⟨rfl, typed⟩ := typed
            obtain ⟨entries, h⟩ := message typed
            exact ⟨_, converts_object builtins now (.inr rfl) typed h⟩
        | scalar s => cases s <;> simp [hasType, isScalar] at typed
        | _ => simp [hasType] at typed
      · rintro c' fields' eq typed
        obtain ⟨rfl, rfl⟩ := Value.object.inj eq
        exact message typed

/-- **Decoding undoes encoding.** A message of any class whose fields hold values of their
declared types, or none where they may be absent, is encoded to some bytes without an
error, and decoding them gives it back. -/
theorem decode_encode (cbor : Cbor2) (c : ClassName) (fields : List Value)
    (typed : hasFields fields c.schema = true) :
    ∃ data, encode cbor (object c fields) = .ok data ∧ data ≠ [] ∧
      decode cbor builtins now c data = .ok (object c fields) := by
  obtain ⟨entries, h⟩ := (@roundTrips builtins now (object c fields)).message c fields rfl typed
  obtain ⟨data, dumps, loads⟩ := cbor.loads_dumps (dict entries) (dict_plain builtins now h)
  refine ⟨data, ?_, cbor.dumps_ne_nil _ _ dumps, ?_⟩
  · rw [encode, asCborDict, h.run]
    exact dumps
  · have carried := carried_dict true entries
    rw [Value.carried, if_pos rfl] at carried
    rw [decode, loads, ok_bind, carried, fromCborDict]
    exact dict_back builtins now typed h true

/-! ### Cloning -/

theorem lookup_replaced_self {entries : List (ℤ × Value)} {key : ℤ} (d : Value)
    (present : key ∈ entries.map Prod.fst) :
    (entries.map fun entry => if entry.1 = key then (key, d) else entry).lookup key = some d := by
  induction entries with
  | nil => cases present
  | cons e entries ih =>
      rw [List.map_cons]
      by_cases head : e.1 = key
      · rw [if_pos head, List.lookup_cons_self]
      · rw [if_neg head, List.lookup_cons, beq_false_of_ne fun eq => head eq.symm]
        exact ih ((List.mem_cons.mp present).resolve_left fun eq => head eq.symm)

theorem lookup_replaced_ne (entries : List (ℤ × Value)) {key key' : ℤ} (d : Value)
    (ne : key' ≠ key) :
    (entries.map fun entry => if entry.1 = key then (key, d) else entry).lookup key' =
      entries.lookup key' := by
  induction entries with
  | nil => rfl
  | cons e entries ih =>
      rw [List.map_cons, List.lookup_cons, List.lookup_cons, ih]
      by_cases head : e.1 = key
      · rw [if_pos head, head, beq_false_of_ne ne]
      · rw [if_neg head]

theorem lookup_setEntry (entries : List (ℤ × Value)) (key key' : ℤ) (d : Value) :
    (setEntry entries key d).lookup key' =
      if key' = key then some d else entries.lookup key' := by
  unfold setEntry
  split_ifs with present same same
  · rw [same, lookup_replaced_self d (List.contains_iff_mem.mp present)]
  · rw [lookup_replaced_ne entries d same]
  · have absent : key ∉ entries.map Prod.fst := fun mem => present (List.contains_iff_mem.mpr mem)
    rw [List.lookup_append, same, lookup_absent absent, List.lookup_cons_self]
    rfl
  · rw [List.lookup_append, List.lookup_cons, beq_false_of_ne same]
    simp

end RoundTrip

end Value

end Prism
