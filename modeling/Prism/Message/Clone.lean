import Prism.Message.Cbor
import Prism.Message.PrismMessage

/-!
What encoding and cloning do to a message, for every message and all arguments
(`CBORFactory.encode`, `decode` and `clone` in `prism/common/message.py`).

`clone` stores its arguments in the dictionary of the message and builds a message from
that dictionary again. A nested message among the arguments is stored as its own dictionary,
but a list of messages is stored as it is, though the conversion back expects dictionaries
in it; and an argument that is `None` reads like a field that was never given.

* `buildClass_at`: what a message that was built holds in each field.
* `Value.clone_eq_replaced_iff`: `clone` replaces the given fields and nothing else exactly when no
  argument is a list with a message in it, and `None` is given only for fields that may be
  absent.
* `PrismMessage.clone_replaces_iff`: the same for `PrismMessage`.
* `Value.encode_then_decode`: decoding undoes encoding.
-/

namespace Prism

namespace Value

/-- The value is a message. -/
def isMessage : Value → Bool
  | object _ _ => true
  | _ => false

/-- The value is a list with a message in it. -/
def hasMessages : Value → Bool
  | list xs => xs.any isMessage
  | _ => false

/-! ### Built messages -/

section Built

variable (now : ℤ)

/-- What is passed to the constructor for a field at position `index`. -/
def FieldRead (read : ℕ → Py (Option Conversion)) (index : ℕ) (field : FieldInfo)
    (arg : Option Value) : Prop :=
  (read index = .ok Option.none ∧ arg = Option.none) ∨
    ∃ convert v, read index = .ok (some convert) ∧ convert field.type = .ok v ∧ arg = some v

/-- The arguments that were read, field by field. -/
theorem readFields_at {read : ℕ → Py (Option Conversion)} {infos : List FieldInfo} {index : ℕ}
    {args : List (Option Value)} (run : readFields read infos index = .ok args) {k : ℕ}
    {field : FieldInfo} (at_k : infos[k]? = some field) (settable : ∀ n, field.default ≠ .fixed n) :
    ∃ arg, args[k]? = some arg ∧ FieldRead read (index + k) field arg := by
  induction infos generalizing index args k with
  | nil => cases at_k
  | cons head infos ih =>
      have shift : ∀ j, index + 1 + j = index + (j + 1) := fun j => by omega
      rw [readFields] at run
      split at run
      next n fixed =>
        obtain ⟨rest, runRest, eq⟩ := bind_eq_ok.mp run
        cases eq
        cases k with
        | zero =>
            cases at_k
            exact absurd fixed (settable n)
        | succ k =>
            obtain ⟨arg, found, reads⟩ := ih runRest at_k
            exact ⟨arg, found, shift k ▸ reads⟩
      next =>
        obtain ⟨conversion, atIndex, run⟩ := bind_eq_ok.mp run
        cases conversion with
        | none =>
            obtain ⟨rest, runRest, eq⟩ := bind_eq_ok.mp run
            cases eq
            cases k with
            | zero =>
                cases at_k
                exact ⟨Option.none, rfl, .inl ⟨atIndex, rfl⟩⟩
            | succ k =>
                obtain ⟨arg, found, reads⟩ := ih runRest at_k
                exact ⟨arg, found, shift k ▸ reads⟩
        | some convert =>
            obtain ⟨v, converted, run⟩ := bind_eq_ok.mp run
            obtain ⟨rest, runRest, eq⟩ := bind_eq_ok.mp run
            cases eq
            cases k with
            | zero =>
                cases at_k
                exact ⟨some v, rfl, .inr ⟨convert, v, atIndex, converted, rfl⟩⟩
            | succ k =>
                obtain ⟨arg, found, reads⟩ := ih runRest at_k
                exact ⟨arg, found, shift k ▸ reads⟩

/-- The fields that `__init__` set, one for each argument. -/
theorem initFields_at {infos : List FieldInfo} {args : List (Option Value)} {fields : List Value}
    (init : (infos.zip args).mapM (fun (field, arg) => initField now field arg) = some fields)
    {k : ℕ} {field : FieldInfo} {arg : Option Value} (at_k : infos[k]? = some field)
    (atArg : args[k]? = some arg) :
    ∃ v, initField now field arg = some v ∧ fields[k]? = some v := by
  induction infos generalizing args fields k with
  | nil => cases at_k
  | cons head infos ih =>
      cases args with
      | nil => cases atArg
      | cons headArg args =>
          rw [List.zip_cons_cons, List.mapM_cons] at init
          obtain ⟨v, atHead, init⟩ := Option.bind_eq_some_iff.mp init
          obtain ⟨rest, initRest, eq⟩ := Option.bind_eq_some_iff.mp init
          cases eq
          cases k with
          | zero =>
              cases at_k
              cases atArg
              exact ⟨v, atHead, rfl⟩
          | succ k => exact ih initRest at_k atArg

/-- A field of a message that was built holds what its position of the dictionary converts
to, or what it is set to without an argument. -/
theorem buildClass_at {c : ClassName} {read : ℕ → Py (Option Conversion)} {fields : List Value}
    (built : buildClass now c read = .ok (object c fields)) {k : ℕ} {field : FieldInfo}
    (at_k : c.schema[k]? = some field) (settable : ∀ n, field.default ≠ .fixed n) :
    ∃ arg v, FieldRead read k field arg ∧ initField now field arg = some v ∧
      fields[k]? = some v := by
  obtain ⟨args, run, constructed⟩ := bind_eq_ok.mp built
  rw [construct] at constructed
  split at constructed
  next value eq =>
    split at eq
    next fields' init =>
      cases eq
      cases constructed
      obtain ⟨arg, atArg, reads⟩ := readFields_at run at_k settable
      obtain ⟨v, initialised, atField⟩ := initFields_at now init at_k atArg
      rw [Nat.zero_add] at reads
      exact ⟨arg, v, reads, initialised, atField⟩
    next => cases eq
  next => cases constructed

end Built

/-! ### Arguments of `clone` -/

section Arguments

variable (builtins : Builtins) (now : ℤ)

/-- What `clone` stores for an argument of a declared type. -/
def stored (v : Value) : Value := v.asArgument.toOption.getD none

theorem elementReaders_eq (xs : List Value) :
    elementReaders builtins now xs = xs.map (fromCborDict builtins now) := by
  induction xs with
  | nil => rfl
  | cons x xs ih => rw [elementReaders, ih, List.map_cons]

/-- A list of messages is converted only where all its elements are gaps. -/
theorem messages_back {xs : List Value} {t : ElementType} {c : ClassName}
    (message : t = .object c ∨ t = .generic c) (typed : hasElements xs t = true) :
    (xs.map (fromCborDict builtins now)).mapM (fun element => element c) =
      if xs.any isMessage then .error .typeError else .ok xs := by
  induction xs with
  | nil => rfl
  | cons x xs ih =>
      rw [List.map_cons, List.mapM_cons]
      cases x with
      | none =>
          have rest := ih (by rcases message with rfl | rfl <;> exact typed)
          rw [fromCborDict, ok_bind, rest, List.any_cons]
          by_cases messages : xs.any isMessage
          · simp [messages, isMessage]
          · simp only [messages, isMessage]
            rfl
      | object c' fields => rfl
      | _ => rcases message with rfl | rfl <;> cases typed

/-- A list of pairs is converted to itself, and has no messages. -/
theorem pairs_back {xs : List Value} {s s' : Scalar} (typed : hasElements xs (.pair s s') = true) :
    xs.mapM toTuple = .ok xs ∧ xs.any isMessage = false := by
  induction xs with
  | nil => exact ⟨rfl, rfl⟩
  | cons x xs ih =>
      rw [hasElements, Bool.and_eq_true] at typed
      obtain ⟨rest, none⟩ := ih typed.2
      have pair := typed.1
      unfold isPair at pair
      split at pair
      · constructor
        · rw [List.mapM_cons, rest]
          rfl
        · rw [List.any_cons, none]
          rfl
      · cases pair

theorem scalars_noMessages {xs : List Value} {s : Scalar}
    (typed : hasElements xs (.scalar s) = true) : xs.any isMessage = false := by
  induction xs with
  | nil => rfl
  | cons x xs ih =>
      by_cases gap : x = none
      · subst gap
        rw [List.any_cons, ih typed]
        rfl
      · rw [hasElements, Bool.and_eq_true] at typed
        · rw [List.any_cons, ih typed.2]
          cases x with
          | object c fields => cases s <;> cases typed.1
          | _ => rfl
        · exact gap

/-- Reading a typed list as it is stored. -/
theorem list_back {xs : List Value} {t : ElementType} (typed : hasElements xs t = true) :
    convertList xs (elementReaders builtins now xs) (.list t) =
      if xs.any isMessage then .error .typeError else .ok (list xs) := by
  rw [convertList_eq]
  cases t with
  | scalar s =>
      rw [scalars_noMessages typed]
      rfl
  | pair s s' =>
      obtain ⟨back, none⟩ := pairs_back typed
      rw [itemsBack, back, none]
      rfl
  | object c =>
      rw [itemsBack, elementReaders_eq, messages_back builtins now (.inl rfl) typed]
      split <;> rfl
  | generic c =>
      rw [itemsBack, elementReaders_eq, messages_back builtins now (.inr rfl) typed]
      split <;> rfl

/-- What `clone` stores for an argument of a declared type converts back to the argument,
unless it is a list with a message in it. -/
structure ArgumentBack (v : Value) (t : FieldType) : Prop where
  run : v.asArgument = .ok v.stored
  present : v.stored ≠ none
  back : v.hasMessages = false → convert builtins now v.stored t = .ok v
  fails : v.hasMessages = true → ∃ e, convert builtins now v.stored t = .error e

theorem argumentBack_scalar {v : Value} {s : Scalar} (typed : v.isScalar s = true) :
    ArgumentBack builtins now v (.scalar s) := by
  have value := converts_scalar builtins now typed
  have run : v.asArgument = .ok v := by
    cases v with
    | object c fields => cases s <;> cases typed
    | _ => rfl
  have eq : v.stored = v := by
    rw [stored, run]
    rfl
  have single : v.hasMessages = false := by
    cases v with
    | list xs => cases s <;> cases typed
    | _ => rfl
  refine ⟨run.trans (congrArg _ eq.symm), ?_, fun _ => ?_, fun messages => ?_⟩
  · rw [eq]
    exact value.present false
  · rw [eq]
    exact value.back false
  · rw [single] at messages
    cases messages

theorem argumentBack {v : Value} {t : FieldType} (typed : v.hasType t = true) :
    ArgumentBack builtins now v t := by
  cases v with
  | object c fields =>
      obtain ⟨c', message, typed⟩ : ∃ c', (t = .object c' ∨ t = .generic (some c')) ∧
          (c = c' ∧ hasFields fields c.schema = true) := by
        cases t with
        | object c' => exact ⟨c', .inl rfl, by simpa [hasType] using typed⟩
        | generic c' =>
            rw [hasType, Bool.and_eq_true, decide_eq_true_eq] at typed
            exact ⟨c, .inr (congrArg _ typed.1.symm), rfl, typed.2⟩
        | scalar s => cases s <;> simp [hasType, isScalar] at typed
        | _ => simp [hasType] at typed
      obtain ⟨rfl, typed⟩ := typed
      obtain ⟨entries, h⟩ :=
        (@roundTrips builtins now (.object c fields)).message c fields rfl typed
      have run : asArgument (.object c fields) = .ok (dict entries) := by
        rw [asArgument, asCborDict, h.run]
        rfl
      have eq : stored (.object c fields) = dict entries := by
        rw [stored, run]
        rfl
      refine ⟨run.trans (congrArg _ eq.symm), eq ▸ by simp, fun _ => ?_, by simp [hasMessages]⟩
      have value := converts_object builtins now message typed h
      rw [eq]
      exact value.back false
  | list xs =>
      cases t with
      | list t =>
          rw [hasType] at typed
          have back := list_back builtins now typed
          refine ⟨rfl, by simp [stored, asArgument, Except.toOption], ?_, ?_⟩
          · intro none
            rw [hasMessages] at none
            rw [none] at back
            exact back
          · intro some
            rw [hasMessages] at some
            rw [some] at back
            exact ⟨_, back⟩
      | scalar s => cases s <;> simp [hasType, isScalar] at typed
      | _ => simp [hasType] at typed
  | enum e =>
      cases t with
      | enum k =>
          rw [hasType, decide_eq_true_eq] at typed
          subst typed
          refine ⟨rfl, by simp [stored, asArgument, Except.toOption], fun _ => ?_,
            by simp [hasMessages]⟩
          change convertAtom builtins (enum e) (.enum e.kind) = _
          simp [convertAtom, number?]
      | scalar s => cases s <;> simp [hasType, isScalar] at typed
      | _ => simp [hasType] at typed
  | _ =>
      cases t with
      | scalar s =>
          exact argumentBack_scalar builtins now (by simpa only [hasType] using typed)
      | _ => simp [hasType] at typed

end Arguments

/-! ### Positions -/

/-- The fields of a class have distinct names. -/
theorem schema_distinct (c : ClassName) : (c.schema.map fun field => field.name).Nodup := by
  cases c <;> decide +kernel

/-- The position of a field, by its name. -/
theorem lookupFieldIndex_iff {c : ClassName} {k : ℕ} {info : FieldInfo}
    (at_k : c.schema[k]? = some info) (f : FieldName) :
    lookupFieldIndex c f = k ↔ f = info.name := by
  obtain ⟨lt, at_k⟩ := List.getElem?_eq_some_iff.mp at_k
  unfold lookupFieldIndex
  constructor
  · intro position
    split at position
    next index found =>
      obtain ⟨ltIndex, named, -⟩ := List.findIdx?_eq_some_iff_getElem.mp found
      obtain rfl : index = k := by exact_mod_cast position
      rw [at_k] at named
      exact (of_decide_eq_true named).symm
    next => omega
  · rintro rfl
    have found : c.schema.findIdx? (fun field => field.name = info.name) = some k := by
      rw [List.findIdx?_eq_some_iff_getElem]
      refine ⟨lt, by rw [at_k]; exact decide_eq_true rfl, fun j before => ?_⟩
      intro same
      have names : (c.schema.map fun field => field.name)[j]? =
          (c.schema.map fun field => field.name)[k]? := by
        simpa [lt, before.trans lt, at_k] using same
      have eq : j = k := 
        (List.getElem?_inj (by simpa using before.trans lt) (schema_distinct c)).mp names
      omega
    rw [found]

theorem mem_of_info {c : ClassName} {f : FieldName} {info : FieldInfo} (found : c.info f = some info) :
    info ∈ c.schema ∧ info.name = f := by
  have named := List.find?_some found
  exact ⟨List.mem_of_find?_eq_some found, of_decide_eq_true named⟩

/-- A field of a class is declared once. -/
theorem info_iff {c : ClassName} {f : FieldName} {info : FieldInfo} :
    c.info f = some info ↔ info ∈ c.schema ∧ info.name = f := by
  constructor
  · exact mem_of_info
  · rintro ⟨mem, rfl⟩
    obtain ⟨other, found⟩ : ∃ other, c.info info.name = some other :=
      Option.isSome_iff_exists.mp (List.find?_isSome.mpr ⟨info, mem, decide_eq_true rfl⟩)
    obtain ⟨otherMem, named⟩ := mem_of_info found
    rw [found, List.inj_on_of_nodup_map (schema_distinct c) otherMem mem named]

/-! ### Cloning -/

section Clone

variable (builtins : Builtins) (now : ℤ)

/-- The dictionary with the arguments stored in it. -/
def setArguments (c : ClassName) (kwargs : List (FieldName × Value))
    (entries : List (ℤ × Value)) : List (ℤ × Value) :=
  kwargs.foldl (fun entries arg => setEntry entries (lookupFieldIndex c arg.1) arg.2.stored) entries

/-- A position of the dictionary holds the argument for its field, or what it held. -/
theorem lookup_setArguments {c : ClassName} {k : ℕ} {info : FieldInfo}
    (at_k : c.schema[k]? = some info) {kwargs : List (FieldName × Value)}
    (distinct : (kwargs.map Prod.fst).Nodup) (entries : List (ℤ × Value)) :
    (setArguments c kwargs entries).lookup (k : ℤ) =
      ((kwargs.lookup info.name).map stored).or (entries.lookup (k : ℤ)) := by
  induction kwargs generalizing entries with
  | nil => rfl
  | cons arg kwargs ih =>
      obtain ⟨f, v⟩ := arg
      rw [List.map_cons, List.nodup_cons] at distinct
      have rest := ih distinct.2 (setEntry entries (lookupFieldIndex c f) v.stored)
      have fold : setArguments c ((f, v) :: kwargs) entries =
          setArguments c kwargs (setEntry entries (lookupFieldIndex c f) v.stored) := rfl
      rw [fold, rest, lookup_setEntry, List.lookup_cons]
      by_cases same : f = info.name
      · have later : kwargs.lookup info.name = Option.none := by
          rw [List.lookup_eq_none_iff]
          intro other mem
          refine bne_iff_ne.mpr fun eq => ?_
          exact distinct.1 (List.mem_map.mpr ⟨other, mem, eq.symm.trans same.symm⟩)
        rw [later, if_pos ((lookupFieldIndex_iff at_k f).mpr same).symm, same, beq_self_eq_true]
        rfl
      · rw [if_neg fun eq => same ((lookupFieldIndex_iff at_k f).mp eq.symm),
          beq_false_of_ne fun eq => same eq.symm]

/-- `clone` as one call of the class on the dictionary with the arguments. -/
theorem clone_eq {c : ClassName} {fields : List Value} {entries : List (ℤ × Value)}
    (encoded : asEntries fields c.schema 0 = .ok entries) {kwargs : List (FieldName × Value)}
    (stores : ∀ arg ∈ kwargs, arg.2.asArgument = .ok arg.2.stored) :
    clone builtins now (object c fields) kwargs =
      buildClass now c (readDict (convertEntries builtins now (setArguments c kwargs entries))) := by
  have fold : ∀ entries, kwargs.foldlM (fun entries (arg : FieldName × Value) => do
      return setEntry entries (lookupFieldIndex c arg.1) (← asArgument arg.2)) entries =
        Except.ok (setArguments c kwargs entries) := by
    clear encoded
    induction kwargs with
    | nil => exact fun entries => rfl
    | cons arg kwargs ih =>
        intro entries
        rw [List.foldlM_cons, stores arg List.mem_cons_self]
        exact ih (fun other mem => stores other (List.mem_cons_of_mem _ mem)) _
  rw [clone, encoded, ok_bind]
  exact congrArg (· >>= fun entries => fromCborDict builtins now (dict entries) c) (fold entries)

/-- The fields with the arguments in their places. -/
def replaced (c : ClassName) (fields : List Value) (kwargs : List (FieldName × Value)) :
    List Value :=
  List.zipWith (fun info v => (kwargs.lookup info.name).getD v) c.schema fields

/-- A parameter of the constructor and a value for it: one of the declared type, or `None`. -/
def Assignable (c : ClassName) (arg : FieldName × Value) : Prop :=
  ∃ info, c.info arg.1 = some info ∧ (∀ n, info.default ≠ .fixed n) ∧
    (arg.2 = none ∨ arg.2.hasType info.type = true)

/-- The argument is no list with a message in it, and `None` only for a field that may be
absent. -/
def Clonable (c : ClassName) (arg : FieldName × Value) : Prop :=
  arg.2.hasMessages = false ∧
    (arg.2 = none → (c.info arg.1).map (fun info => info.default) = some .absent)

theorem replaced_at {c : ClassName} {fields : List Value} {kwargs : List (FieldName × Value)}
    {k : ℕ} {info : FieldInfo} {v : Value} (at_k : c.schema[k]? = some info)
    (atField : fields[k]? = some v) :
    (replaced c fields kwargs)[k]? = some ((kwargs.lookup info.name).getD v) := by
  rw [replaced, List.getElem?_zipWith, at_k, atField]

theorem hasFields_zipWith {infos : List FieldInfo} {fields : List Value}
    {g : FieldInfo → Value → Value} (typed : hasFields fields infos = true)
    (step : ∀ info ∈ infos, ∀ v, valueTyped info v = true → valueTyped info (g info v) = true) :
    hasFields (List.zipWith g infos fields) infos = true := by
  induction infos generalizing fields with
  | nil => rfl
  | cons info infos ih =>
      cases fields with
      | nil => cases typed
      | cons v fields =>
          obtain ⟨head, rest⟩ := (hasFields_cons_iff info infos v fields).mp typed
          rw [List.zipWith_cons_cons, hasFields_cons_iff]
          exact ⟨step info List.mem_cons_self v head,
            ih rest fun other mem => step other (List.mem_cons_of_mem _ mem)⟩

theorem length_of_hasFields {infos : List FieldInfo} {fields : List Value}
    (typed : hasFields fields infos = true) : fields.length = infos.length := by
  induction infos generalizing fields with
  | nil =>
      cases fields with
      | nil => rfl
      | cons v fields => cases v <;> cases typed
  | cons info infos ih =>
      cases fields with
      | nil => cases typed
      | cons v fields =>
          rw [List.length_cons, List.length_cons,
            ih ((hasFields_cons_iff info infos v fields).mp typed).2]

section Replaces

variable {c : ClassName} {fields : List Value} {entries : List (ℤ × Value)}
  {kwargs : List (FieldName × Value)}

theorem Assignable.stores {arg : FieldName × Value} (assignable : Assignable c arg) :
    arg.2.asArgument = .ok arg.2.stored := by
  obtain ⟨info, -, -, none | typed⟩ := assignable
  · rw [none]
    rfl
  · exact (argumentBack Builtins.strict 0 typed).run

/-- An argument that `clone` can carry fits the declaration of its field. -/
theorem valueTyped_argument {arg : FieldName × Value} {info : FieldInfo} (mem : info ∈ c.schema)
    (named : info.name = arg.1) (assignable : Assignable c arg) (clonable : Clonable c arg) :
    valueTyped info arg.2 = true := by
  obtain ⟨info', found, settable, value⟩ := assignable
  obtain rfl : info = info' := Option.some.inj ((info_iff.mpr ⟨mem, named⟩).symm.trans found)
  by_cases absent : arg.2 = none
  · have default := clonable.2 absent
    rw [found, Option.map_some, Option.some.injEq] at default
    rw [absent]
    exact decide_eq_true default
  · rw [valueTyped, value.resolve_left absent]
    · cases eq : info.default with
      | fixed n => exact absurd eq (settable n)
      | _ => rfl
    · exact absent

/-- A typed message with arguments that `clone` can carry is typed. -/
theorem hasFields_replaced (typed : hasFields fields c.schema = true)
    (assignable : ∀ arg ∈ kwargs, Assignable c arg) (clonable : ∀ arg ∈ kwargs, Clonable c arg) :
    hasFields (replaced c fields kwargs) c.schema = true := by
  refine hasFields_zipWith typed fun info mem v old => ?_
  cases given : kwargs.lookup info.name with
  | none => exact old
  | some w =>
      have inArgs := mem_of_lookup given
      exact valueTyped_argument mem rfl (assignable _ inArgs) (clonable _ inArgs)

/-- What is read at the position of a field that is given. -/
theorem readDict_argument {k : ℕ} {info : FieldInfo} {v : Value}
    (at_k : c.schema[k]? = some info) (distinct : (kwargs.map Prod.fst).Nodup)
    (given : kwargs.lookup info.name = some v) :
    readDict (convertEntries builtins now (setArguments c kwargs entries)) k =
      .ok (conversion? builtins now v.stored) := by
  rw [readDict_eq, lookup_setArguments at_k distinct, given]
  rfl

/-- Arguments that `clone` can carry replace the fields. -/
theorem replaces_of_clonable (typed : hasFields fields c.schema = true)
    (h : Entries builtins now fields c.schema 0 entries) (distinct : (kwargs.map Prod.fst).Nodup)
    (assignable : ∀ arg ∈ kwargs, Assignable c arg) (clonable : ∀ arg ∈ kwargs, Clonable c arg) :
    buildClass now c (readDict (convertEntries builtins now (setArguments c kwargs entries))) =
      .ok (object c (replaced c fields kwargs)) := by
  apply buildClass_of_reads now (hasFields_replaced typed assignable clonable)
  intro k info v at_k atField
  rw [Nat.zero_add]
  have lt : k < fields.length := by
    rw [length_of_hasFields typed]
    exact (List.getElem?_eq_some_iff.mp at_k).1
  obtain ⟨old, atOld⟩ : ∃ old, fields[k]? = some old := ⟨_, List.getElem?_eq_getElem lt⟩
  obtain rfl := Option.some.inj (atField.symm.trans (replaced_at at_k atOld))
  cases given : kwargs.lookup info.name with
  | none =>
      have before := h.reads false k info old at_k atOld
      have same : carriedEntries false entries = entries := by simp [carriedEntries, carried]
      rw [Nat.zero_add, same, ReadsAs, readDict_eq] at before
      rw [ReadsAs, readDict_eq, lookup_setArguments at_k distinct, given]
      exact before
  | some w =>
      have inArgs := mem_of_lookup given
      obtain ⟨info', found, -, value⟩ := assignable _ inArgs
      obtain ⟨-, named⟩ := mem_of_info found
      obtain rfl : info' = info := by
        have here := info_iff.mpr ⟨List.mem_of_getElem? at_k, rfl⟩
        exact Option.some.inj (found.symm.trans here)
      have read := @readDict_argument builtins now c entries kwargs k info' w at_k distinct given
      rcases value with absent | wTyped
      · change w = none at absent
        subst absent
        exact .inl ⟨rfl, read⟩
      · have back := argumentBack builtins now wTyped
        rw [conversion?_some builtins now back.present] at read
        exact .inr ⟨_, read, back.back (clonable _ inArgs).1⟩

/-- An argument that replaced its field is one that `clone` can carry. -/
theorem clonable_of_replaces (typed : hasFields fields c.schema = true)
    (distinct : (kwargs.map Prod.fst).Nodup) (assignable : ∀ arg ∈ kwargs, Assignable c arg)
    (built : buildClass now c
      (readDict (convertEntries builtins now (setArguments c kwargs entries))) =
        .ok (object c (replaced c fields kwargs)))
    {arg : FieldName × Value} (mem : arg ∈ kwargs) : Clonable c arg := by
  obtain ⟨info, found, settable, value⟩ := assignable arg mem
  obtain ⟨inSchema, named⟩ := mem_of_info found
  obtain ⟨k, at_k⟩ := List.getElem?_of_mem inSchema
  have given : kwargs.lookup info.name = some arg.2 := by
    rw [named]
    exact lookup_of_mem distinct mem
  have read := @readDict_argument builtins now c entries kwargs k info arg.2 at_k distinct given
  obtain ⟨passed, v, fieldRead, init, atField⟩ := buildClass_at now built at_k settable
  have lt : k < fields.length := by
    rw [length_of_hasFields typed]
    exact (List.getElem?_eq_some_iff.mp at_k).1
  have replaced := @replaced_at c fields kwargs k info _ at_k (List.getElem?_eq_getElem lt)
  rw [given, atField] at replaced
  obtain rfl : v = arg.2 := Option.some.inj replaced
  constructor
  · by_contra messages
    rw [Bool.not_eq_false] at messages
    rcases value with absent | vTyped
    · rw [absent] at messages
      cases messages
    · have back := argumentBack builtins now vTyped
      obtain ⟨e, fails⟩ := back.fails messages
      rw [conversion?_some builtins now back.present] at read
      rcases fieldRead with ⟨nothing, -⟩ | ⟨convert, w, something, converted, -⟩
      · rw [read] at nothing
        cases nothing
      · rw [read] at something
        cases something
        rw [fails] at converted
        cases converted
  · intro absent
    rw [found, Option.map_some]
    rw [absent] at read init
    rcases fieldRead with ⟨-, rfl⟩ | ⟨convert, w, something, -⟩
    · cases eq : info.default with
      | absent => rfl
      | fixed n => exact absurd eq (settable n)
      | required => simp [initField, eq] at init
      | now => simp [initField, eq] at init
    · rw [read] at something
      cases something

/-- **When `clone` is field update.** -/
theorem clone_eq_replaced_iff (typed : hasFields fields c.schema = true)
    (distinct : (kwargs.map Prod.fst).Nodup) (assignable : ∀ arg ∈ kwargs, Assignable c arg) :
    clone builtins now (object c fields) kwargs = .ok (object c (replaced c fields kwargs)) ↔
      ∀ arg ∈ kwargs, Clonable c arg := by
  obtain ⟨entries, h⟩ := (@roundTrips builtins now (object c fields)).message c fields rfl typed
  rw [clone_eq builtins now h.run fun arg mem => (assignable arg mem).stores]
  constructor
  · intro built arg mem
    exact clonable_of_replaces builtins now typed distinct assignable built mem
  · exact replaces_of_clonable builtins now typed h distinct assignable

end Replaces

end Clone

/-- **Decoding undoes encoding**, for a message of any class with values of the declared types
in its fields, absent only where a field may be. -/
theorem encode_then_decode (cbor : Cbor2) (builtins : Builtins) (now : ℤ) (c : ClassName)
    (fields : List Value) (typed : hasFields fields c.schema = true) :
    (do
      let data ← encode cbor (object c fields)
      decode cbor builtins now c data) = .ok (object c fields) := by
  obtain ⟨data, encoded, -, decoded⟩ := @decode_encode builtins now cbor c fields typed
  rw [encoded, ok_bind, decoded]

/-- The fields of a message of some class without a value for any but the given ones. -/
def onlyFields (c : ClassName) (given : List (FieldName × Value)) : List Value :=
  c.schema.map fun field => (given.lookup field.name).getD none

/-- A flood with an announcement inside, whose list of link addresses has a gap. -/
theorem flood_roundTrip :
    let fields := onlyFields .prismMessage
      [(.version, .int 0), (.msgType, .enum (.type .lspFlood)), (.originationTimestamp, .int 7),
        (.subMsg, object .prismMessage (onlyFields .prismMessage
          [(.version, .int 0), (.msgType, .enum (.type .announceRoleKey)),
            (.originationTimestamp, .int 3),
            (.linkAddresses, .list [.none, object .linkAddress [.str "channel", .str "address"]])]))]
    (do
      let data ← encode Cbor.package (object .prismMessage fields)
      decode Cbor.package Builtins.strict 9 .prismMessage data) = .ok (object .prismMessage fields) :=
  encode_then_decode Cbor.package Builtins.strict 9 .prismMessage _ rfl

/-- Neither a message without a type nor one with a gap in its list of pairs is decoded from its
encoding. -/
theorem decode_undecodable :
    (do
      let data ← encode Cbor.package (object .prismMessage (onlyFields .prismMessage
        [(.version, .int 0), (.originationTimestamp, .int 0)]))
      decode Cbor.package Builtins.strict 0 .prismMessage data) =
        .error (.valueError "Cannot create an instance") ∧
    (do
      let data ← encode Cbor.package (object .prismMessage (onlyFields .prismMessage
        [(.version, .int 0), (.msgType, .enum (.type .mpcHelloResponse)),
          (.originationTimestamp, .int 0), (.helloList, .list [.none])]))
      decode Cbor.package Builtins.strict 0 .prismMessage data) = .error .typeError :=
  ⟨rfl, rfl⟩

end Value

namespace PrismMessage

/-- The message with the arguments in the places of the fields that they name. -/
def replace (m : PrismMessage) (kwargs : List (FieldName × Value)) : PrismMessage :=
  ⟨Value.replaced .prismMessage m.fields kwargs⟩

/-- A message that was cloned is the object that the generic method returned. -/
theorem clone_eq_ok_iff {builtins : Builtins} {now : ℤ} {m m' : PrismMessage}
    {kwargs : List (FieldName × Value)} :
    m.clone builtins now kwargs = .ok m' ↔
      m.toValue.clone builtins now kwargs = .ok m'.toValue := by
  rw [clone]
  constructor
  · intro run
    obtain ⟨v, cloned, rest⟩ := bind_eq_ok.mp run
    rw [cloned]
    unfold ofValue? at rest
    split at rest
    next m'' eq =>
      split at eq
      · cases eq
        cases rest
        rfl
      · cases eq
    next => cases rest
  · intro cloned
    rw [cloned]
    rfl

/-! ### Fields of a message -/

theorem fieldOf_at {infos : List FieldInfo} {fields : List Value} {k : ℕ} {info : FieldInfo}
    (distinct : (infos.map fun field => field.name).Nodup) (at_k : infos[k]? = some info) :
    fieldOf infos fields info.name = fields[k]?.getD .none := by
  induction infos generalizing fields k with
  | nil => cases at_k
  | cons head infos ih =>
      rw [List.map_cons, List.nodup_cons] at distinct
      cases fields with
      | nil => simp [fieldOf]
      | cons v fields =>
          cases k with
          | zero =>
              cases at_k
              simp [fieldOf]
          | succ k =>
              have rest := @ih fields k distinct.2 at_k
              have ne : head.name ≠ info.name := fun same =>
                distinct.1 (same ▸ List.mem_map_of_mem (List.mem_of_getElem? at_k))
              simpa [fieldOf, ne] using rest

/-- The names of the fields of a `PrismMessage`. -/
abbrev names : List FieldName := ClassName.prismMessage.schema.map fun field => field.name

theorem get_at {m : PrismMessage} (typed : m.Typed) {k : ℕ} {info : FieldInfo}
    (at_k : ClassName.prismMessage.schema[k]? = some info) :
    m.fields[k]? = some (m.get info.name) := by
  have lt : k < m.fields.length := by
    rw [Value.length_of_hasFields typed]
    exact (List.getElem?_eq_some_iff.mp at_k).1
  rw [get, fieldOf_at (Value.schema_distinct _) at_k, List.getElem?_eq_getElem lt]
  rfl

theorem valueTyped_at {infos : List FieldInfo} {fields : List Value}
    (typed : Value.hasFields fields infos = true) {k : ℕ} {info : FieldInfo} {v : Value}
    (at_k : infos[k]? = some info) (atField : fields[k]? = some v) : valueTyped info v = true := by
  induction infos generalizing fields k with
  | nil => cases at_k
  | cons head infos ih =>
      cases fields with
      | nil => cases typed
      | cons w fields =>
          obtain ⟨headTyped, restTyped⟩ := (hasFields_cons_iff head infos w fields).mp typed
          cases k with
          | zero =>
              cases at_k
              cases atField
              exact headTyped
          | succ k => exact ih restTyped at_k atField

/-- A field of an object of declared types holds a value that fits its declaration. -/
theorem fieldOf_typed {c : ClassName} {fields : List Value}
    (typed : Value.hasFields fields c.schema = true) {f : FieldName} {info : FieldInfo}
    (declared : c.info f = some info) : valueTyped info (fieldOf c.schema fields f) = true := by
  obtain ⟨mem, rfl⟩ := Value.mem_of_info declared
  obtain ⟨k, at_k⟩ := List.getElem?_of_mem mem
  have lt : k < fields.length := by
    rw [Value.length_of_hasFields typed]
    exact (List.getElem?_eq_some_iff.mp at_k).1
  have atField : fields[k]? = some fields[k] := List.getElem?_eq_getElem lt
  rw [fieldOf_at (Value.schema_distinct _) at_k, atField]
  exact valueTyped_at typed at_k atField

/-- A field of a typed message holds a value that fits its declaration. -/
theorem get_typed {m : PrismMessage} (typed : m.Typed) {f : FieldName} {info : FieldInfo}
    (declared : ClassName.prismMessage.info f = some info) : valueTyped info (m.get f) = true :=
  fieldOf_typed typed declared

/-- What fits a declaration is `None` or a value of the type. -/
theorem hasType_of_valueTyped {info : FieldInfo} {v : Value} (typed : valueTyped info v = true) :
    v = .none ∨ v.hasType info.type = true := by
  by_cases absent : v = .none
  · exact .inl absent
  · right
    rw [valueTyped, Bool.and_eq_true] at typed
    · exact typed.1
    · exact absent

/-- A field of a builtin type is absent or holds a value of the type. -/
theorem get_scalar {m : PrismMessage} (typed : m.Typed) {f : FieldName} {s : Scalar}
    (declared : ClassName.prismMessage.info f = some ⟨f, .scalar s, .absent⟩) :
    m.get f = .none ∨ (m.get f).isScalar s = true := by
  refine (hasType_of_valueTyped (get_typed typed declared)).imp_right fun fits => ?_
  cases value : m.get f <;> rw [value] at fits <;> simpa [Value.hasType] using fits

/-- A field whose values are messages is absent or holds one of declared types. -/
theorem get_object {m : PrismMessage} (typed : m.Typed) {f : FieldName} {c : ClassName}
    (declared : ClassName.prismMessage.info f = some ⟨f, .object c, .absent⟩) :
    m.get f = .none ∨ ∃ fields, m.get f = .object c fields ∧
      Value.hasFields fields c.schema = true := by
  refine (hasType_of_valueTyped (get_typed typed declared)).imp_right fun fits => ?_
  cases value : m.get f with
  | object c' fields =>
      rw [value] at fits
      simp only [Value.hasType, Bool.and_eq_true, decide_eq_true_eq] at fits
      obtain ⟨rfl, fits⟩ := fits
      exact ⟨fields, rfl, fits⟩
  | _ =>
      rw [value] at fits
      cases fits

/-- A message is what its fields are. -/
theorem ext_get {m m' : PrismMessage} (typed : m.Typed) (typed' : m'.Typed)
    (same : ∀ f ∈ names, m.get f = m'.get f) : m = m' := by
  have fields : m.fields = m'.fields := by
    refine List.ext_getElem? fun k => ?_
    cases at_k : ClassName.prismMessage.schema[k]? with
    | none =>
        have long := List.getElem?_eq_none_iff.mp at_k
        rw [List.getElem?_eq_none_iff.mpr, List.getElem?_eq_none_iff.mpr]
        · rwa [Value.length_of_hasFields typed']
        · rwa [Value.length_of_hasFields typed]
    | some info =>
        rw [get_at typed at_k, get_at typed' at_k,
          same _ (List.mem_map_of_mem (List.mem_of_getElem? at_k))]
  cases m
  cases m'
  exact congrArg mk fields

/-- A field of a message with arguments in the places of fields. -/
theorem get_replace {m : PrismMessage} (typed : m.Typed) (kwargs : List (FieldName × Value))
    {f : FieldName} (declared : f ∈ names) :
    (m.replace kwargs).get f = (kwargs.lookup f).getD (m.get f) := by
  obtain ⟨info, mem, rfl⟩ := List.mem_map.mp declared
  obtain ⟨k, at_k⟩ := List.getElem?_of_mem mem
  rw [get, fieldOf_at (Value.schema_distinct _) at_k, replace,
    Value.replaced_at at_k (get_at typed at_k)]
  rfl

/-- An argument of `clone` for a field that may be absent. -/
theorem none_clonable {f : FieldName} {t : FieldType}
    (declared : ClassName.prismMessage.info f = some ⟨f, t, .absent⟩) :
    Value.Assignable .prismMessage (f, .none) ∧ Value.Clonable .prismMessage (f, .none) :=
  ⟨⟨_, declared, by simp, .inl rfl⟩, ⟨rfl, fun _ => by rw [declared]; rfl⟩⟩

/-- An argument of `clone` of the declared type that is no list. -/
theorem value_clonable {f : FieldName} {t : FieldType} {v : Value}
    (declared : ClassName.prismMessage.info f = some ⟨f, t, .absent⟩)
    (typed : v.hasType t = true) (single : v.hasMessages = false) :
    Value.Assignable .prismMessage (f, v) ∧ Value.Clonable .prismMessage (f, v) :=
  ⟨⟨_, declared, by simp, .inr typed⟩, ⟨single, fun _ => by rw [declared]; rfl⟩⟩

/-- An argument of `clone` for a field of a builtin type. -/
theorem scalar_clonable {f : FieldName} {s : Scalar} {v : Value}
    (declared : ClassName.prismMessage.info f = some ⟨f, .scalar s, .absent⟩)
    (value : v = .none ∨ v.isScalar s = true) :
    Value.Assignable .prismMessage (f, v) ∧ Value.Clonable .prismMessage (f, v) := by
  rcases value with rfl | scalar
  · exact none_clonable declared
  · apply value_clonable declared
    · cases v <;> simp_all [Value.hasType, Value.isScalar]
    · cases v <;> first | rfl | (cases s <;> cases scalar)

/-- Cloning with arguments for different fields. -/
theorem clone_ok (builtins : Builtins) (now : ℤ) {m : PrismMessage} (typed : m.Typed)
    {kwargs : List (FieldName × Value)} (distinct : (kwargs.map Prod.fst).Nodup)
    (fits : ∀ arg ∈ kwargs, Value.Assignable .prismMessage arg ∧ Value.Clonable .prismMessage arg) :
    m.clone builtins now kwargs = .ok (m.replace kwargs) ∧ (m.replace kwargs).Typed := by
  have assignable : ∀ arg ∈ kwargs, Value.Assignable .prismMessage arg :=
    fun arg mem => (fits arg mem).1
  have clonable : ∀ arg ∈ kwargs, Value.Clonable .prismMessage arg := fun arg mem => (fits arg mem).2
  refine ⟨clone_eq_ok_iff.mpr ?_, Value.hasFields_replaced typed assignable clonable⟩
  exact (Value.clone_eq_replaced_iff builtins now typed distinct assignable).mpr clonable

/-- Cloning with one argument. -/
theorem clone_single (builtins : Builtins) (now : ℤ) {m : PrismMessage} (typed : m.Typed)
    {arg : FieldName × Value}
    (fits : Value.Assignable .prismMessage arg ∧ Value.Clonable .prismMessage arg) :
    m.clone builtins now [arg] = .ok (m.replace [arg]) ∧ (m.replace [arg]).Typed :=
  clone_ok builtins now typed (by simp) (by simpa using fits)

/-! ### Results -/

/-- **When `clone` is field update.** For a typed message and arguments of the declared types
or `None`, each for another parameter of the constructor, `clone` returns the message with
exactly those fields replaced if and only if no argument is a list with a message in it and
`None` is given only for fields that may be absent. -/
theorem clone_replaces_iff (builtins : Builtins) (now : ℤ) {m : PrismMessage} (typed : m.Typed)
    {kwargs : List (FieldName × Value)} (distinct : (kwargs.map Prod.fst).Nodup)
    (assignable : ∀ arg ∈ kwargs, Value.Assignable .prismMessage arg) :
    m.clone builtins now kwargs = .ok (m.replace kwargs) ↔
      ∀ arg ∈ kwargs, Value.Clonable .prismMessage arg := by
  rw [clone_eq_ok_iff]
  exact Value.clone_eq_replaced_iff builtins now typed distinct assignable

/-- A flood as it is forwarded: the hop count is one more and the sender is left out. -/
theorem clone_forwarded : (create 0 .lspFlood []).clone Builtins.strict 0
    [(.hopCount, .int 1), (.sender, .none)] =
      .ok ((create 0 .lspFlood []).replace [(.hopCount, .int 1), (.sender, .none)]) := by
  refine (clone_replaces_iff Builtins.strict 0 (typed_create (by simp)) (by decide) ?_).mpr ?_
  · simp only [List.forall_mem_cons, List.not_mem_nil, false_implies, implies_true, and_true]
    exact ⟨⟨⟨.hopCount, .scalar .int, .absent⟩, rfl, by simp, .inr rfl⟩,
      ⟨⟨.sender, .scalar .bytes, .absent⟩, rfl, by simp, .inl rfl⟩⟩
  · simp only [List.forall_mem_cons, List.not_mem_nil, false_implies, implies_true, and_true]
    exact ⟨⟨rfl, by simp⟩, ⟨rfl, fun _ => rfl⟩⟩

/-- **`clone` does not take a list of messages**: the announcements of an ARKS message, well
typed, are not replaced but raise a `TypeError`. -/
theorem clone_messages_fail :
    (create 0 .arks []).Typed ∧
    Value.Assignable .prismMessage
      (.submessages, .list [(create 0 .announceRoleKey []).toValue]) ∧
    (create 0 .arks []).clone Builtins.strict 0
      [(.submessages, .list [(create 0 .announceRoleKey []).toValue])] = .error .typeError :=
  ⟨rfl, ⟨⟨.submessages, .list (.generic .prismMessage), .absent⟩, rfl, by simp, .inr rfl⟩, rfl⟩

end PrismMessage

end Prism
