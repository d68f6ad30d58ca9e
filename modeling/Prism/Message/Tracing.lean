import Prism.Message.Clone

/-!
Trace information in messages (`prism/common/tracing.py`, and `DebugMap` in
`prism/common/message.py`).

The context of a span travels in the debug information of a message, as a list of strings in
which keys and values alternate. The tracer is that of a tracing package (`Tracer`).

* `PrismMessage.SameBut`: two messages agree but for some fields.
* `getCarrier_createTraceInfo`: a carrier is read back from the list it is written as.
* `injectSpanContext_some`: injecting a context changes nothing but the debug information.
-/

namespace Prism

/-- A value that is a string. -/
def Value.text? : Value → Option String
  | .str s => some s
  | _ => Option.none

/-- What a context is extracted from: a dictionary of strings, where a gap of the list that it
was read from is `none`. -/
abbrev Carrier := List (Option String × Option String)

/-- The tracer of a tracing package. What it injects is a dictionary of strings, and extracting
from that raises nothing. -/
structure Tracer (SpanContext : Type) where
  inject : SpanContext → List (String × String)
  nodup_inject : ∀ context, ((inject context).map Prod.fst).Nodup
  extract : Carrier → Py (Option SpanContext)
  extract_inject : ∀ context, ∃ found,
    extract ((inject context).map fun e => (some e.1, some e.2)) = .ok found

/-! ### Carriers -/

/-- `create_trace_info`. -/
def createTraceInfo (carrier : List (String × String)) : List Value :=
  carrier.flatMap fun e => [.str e.1, .str e.2]

/-- `zip(trace_info[::2], trace_info[1::2])`. -/
def alternating : List Value → Carrier
  | key :: value :: rest => (key.text?, value.text?) :: alternating rest
  | _ => []

/-- `get_carrier`, of the fields of a `DebugMap`. -/
def getCarrier (fields : List Value) : Option Carrier :=
  match fieldOf ClassName.debugMap.schema fields .traceInfo with
  | .list info =>
    if info ≠ [] ∧ info.length % 2 = 0 then some (dictOf (alternating info)) else none
  | _ => none

theorem alternating_createTraceInfo (carrier : List (String × String)) :
    alternating (createTraceInfo carrier) = carrier.map fun e => (some e.1, some e.2) := by
  induction carrier with
  | nil => rfl
  | cons e carrier ih => exact congrArg ((some e.1, some e.2) :: ·) ih

theorem length_createTraceInfo (carrier : List (String × String)) :
    (createTraceInfo carrier).length = 2 * carrier.length := by
  induction carrier with
  | nil => rfl
  | cons e carrier ih =>
      rw [createTraceInfo, List.flatMap_cons, List.length_append, List.length_cons]
      rw [createTraceInfo] at ih
      rw [ih]
      simp only [List.length_cons, List.length_nil]
      omega

theorem hasElements_createTraceInfo (carrier : List (String × String)) :
    Value.hasElements (createTraceInfo carrier) (.scalar .str) = true := by
  induction carrier with
  | nil => rfl
  | cons e carrier ih => exact ih

/-- **A carrier is read back** from the list it is written as. An empty one is not. -/
theorem getCarrier_createTraceInfo {fields : List Value} {carrier : List (String × String)}
    (nodup : (carrier.map Prod.fst).Nodup)
    (info : fieldOf ClassName.debugMap.schema fields .traceInfo = .list (createTraceInfo carrier)) :
    getCarrier fields =
      if carrier = [] then none else some (carrier.map fun e => (some e.1, some e.2)) := by
  have even : (createTraceInfo carrier).length % 2 = 0 := by
    rw [length_createTraceInfo]
    omega
  have keys : ((alternating (createTraceInfo carrier)).map Prod.fst).Nodup := by
    rw [alternating_createTraceInfo, List.map_map]
    have injective : Function.Injective (some : String → Option String) := Option.some_injective _
    have mapped := nodup.map injective
    rwa [List.map_map] at mapped
  cases carrier with
  | nil =>
      rw [getCarrier, info]
      rfl
  | cons e carrier =>
      rw [getCarrier, info]
      dsimp only
      rw [if_pos ⟨List.cons_ne_nil _ _, even⟩, dictOf_of_nodup keys, alternating_createTraceInfo,
        if_neg (List.cons_ne_nil _ _)]

/-! ### Contexts of messages -/

section Contexts

variable {SpanContext : Type} (tracer : Tracer SpanContext) (builtins : Builtins) (now : ℤ)

/-- `extract_span_context`. -/
def extractSpanContext (message : PrismMessage) : Py (Option SpanContext) :=
  match message.get .debugInfo with
  | .object .debugMap fields =>
    match getCarrier fields with
    | some carrier => tracer.extract carrier
    | none => .ok none
  | _ => .ok none

/-- A field of the debug information, if the message has any. -/
def debugField (message : PrismMessage) (f : FieldName) : Value :=
  match message.get .debugInfo with
  | .object .debugMap fields => fieldOf ClassName.debugMap.schema fields f
  | _ => .none

/-- The debug information that `inject_span_context` makes. -/
def tracedDebugMap (message : PrismMessage) (context : SpanContext) : List Value :=
  initFields now ClassName.debugMap.schema
    [(.traceInfo, .list (createTraceInfo (tracer.inject context))),
      (.decryptionKey, debugField message .decryptionKey),
      (.nextHopName, debugField message .nextHopName)]

/-- `inject_span_context`. -/
def injectSpanContext (message : PrismMessage) (context : Option SpanContext) : Py PrismMessage :=
  match context with
  | some context =>
    message.clone builtins now [(.debugInfo, .object .debugMap (tracedDebugMap tracer now message
      context))]
  | none => .ok message

/-- Extracting the context of a message raises nothing. -/
def Traceable (message : PrismMessage) : Prop :=
  ∃ found, extractSpanContext tracer message = .ok found

end Contexts

/-- The messages agree, but for some fields. -/
def PrismMessage.SameBut (fs : List FieldName) (m m' : PrismMessage) : Prop :=
  ∀ f ∈ PrismMessage.names, f ∉ fs → m'.get f = m.get f

namespace PrismMessage

variable {fs gs : List FieldName} {m m' m'' : PrismMessage}

theorem SameBut.refl (fs : List FieldName) (m : PrismMessage) : SameBut fs m m :=
  fun _ _ _ => rfl

theorem SameBut.trans (first : SameBut fs m m') (second : SameBut fs m' m'') :
    SameBut fs m m'' :=
  fun f declared apart => (second f declared apart).trans (first f declared apart)

theorem SameBut.mono (same : SameBut fs m m') (sub : ∀ f ∈ fs, f ∈ gs) : SameBut gs m m' :=
  fun f declared apart => same f declared fun mem => apart (sub f mem)

/-- **A clone** differs from the message in the fields that were given. -/
theorem clone_sameBut (builtins : Builtins) (now : ℤ) (typed : m.Typed)
    (kwargs : List (FieldName × Value)) (distinct : (kwargs.map Prod.fst).Nodup)
    (fits : ∀ arg ∈ kwargs, Value.Assignable .prismMessage arg ∧ Value.Clonable .prismMessage arg) :
    ∃ m', m.clone builtins now kwargs = .ok m' ∧ m'.Typed ∧ SameBut (kwargs.map Prod.fst) m m' ∧
      ∀ f ∈ names, ∀ v, kwargs.lookup f = some v → m'.get f = v := by
  obtain ⟨cloned, clonedTyped⟩ := clone_ok builtins now typed distinct fits
  refine ⟨_, cloned, clonedTyped, ?_, ?_⟩
  · intro f declared apart
    rw [get_replace typed kwargs declared, List.lookup_eq_none_iff.mpr]
    · rfl
    · intro arg mem
      rw [bne_iff_ne]
      rintro rfl
      exact apart (List.mem_map_of_mem mem)
  · intro f declared v given
    rw [get_replace typed kwargs declared, given]
    rfl

end PrismMessage

section Inject

variable {SpanContext : Type} (tracer : Tracer SpanContext) (builtins : Builtins) (now : ℤ)
  {m : PrismMessage}

theorem debugField_typed (typed : m.Typed) {f : FieldName} {info : FieldInfo}
    (declared : ClassName.debugMap.info f = some info) (absent : info.default = .absent) :
    valueTyped info (debugField m f) = true := by
  unfold debugField
  rcases PrismMessage.get_object typed (f := .debugInfo) (c := .debugMap) rfl with
    none | ⟨fields, object, fits⟩
  · rw [none]
    exact decide_eq_true absent
  · rw [object]
    exact PrismMessage.fieldOf_typed fits declared

/-- The debug information with a context is of the declared types. -/
theorem tracedDebugMap_typed (typed : m.Typed) (context : SpanContext) :
    Value.hasFields (tracedDebugMap tracer now m context) ClassName.debugMap.schema = true := by
  unfold tracedDebugMap initFields
  apply hasFields_map
  intro info mem
  rcases List.mem_cons.mp mem with rfl | mem
  · simp only [List.lookup_cons_self, Value.initField, Option.getD_some, valueTyped,
      Value.hasType, hasElements_createTraceInfo]
    rfl
  rcases List.mem_cons.mp mem with rfl | mem
  · exact debugField_typed typed (f := .decryptionKey) rfl rfl
  rcases List.mem_cons.mp mem with rfl | mem
  · exact debugField_typed typed (f := .nextHopName) rfl rfl
  · rw [List.mem_singleton.mp mem]
    rfl

/-- What was injected is extracted without an exception. -/
theorem traceable_of_debugInfo {context : SpanContext} {m' : PrismMessage}
    (traced : m'.get .debugInfo = .object .debugMap (tracedDebugMap tracer now m context)) :
    Traceable tracer m' := by
  have carrier := getCarrier_createTraceInfo (tracer.nodup_inject context)
    (show fieldOf ClassName.debugMap.schema (tracedDebugMap tracer now m context) .traceInfo =
      .list (createTraceInfo (tracer.inject context)) from rfl)
  obtain ⟨found, extracted⟩ := tracer.extract_inject context
  unfold Traceable extractSpanContext
  rw [traced]
  dsimp only
  rw [carrier]
  split_ifs with empty
  · exact ⟨none, rfl⟩
  · exact ⟨found, extracted⟩

/-- **Injecting a context changes nothing but the debug information**, and the context can be
extracted from the result. -/
theorem injectSpanContext_some (typed : m.Typed) (context : SpanContext) :
    ∃ m', injectSpanContext tracer builtins now m (some context) = .ok m' ∧ m'.Typed ∧
      PrismMessage.SameBut [.debugInfo] m m' ∧ Traceable tracer m' := by
  set fields := tracedDebugMap tracer now m context with hfields
  have fieldsTyped := tracedDebugMap_typed tracer now typed context
  have fits := PrismMessage.value_clonable (f := .debugInfo) (t := .object .debugMap)
    (v := .object .debugMap fields) rfl (by simp [Value.hasType, hfields, fieldsTyped]) rfl
  obtain ⟨m', cloned, clonedTyped, same, given⟩ := PrismMessage.clone_sameBut builtins now typed
    [(.debugInfo, .object .debugMap fields)] (by simp) (by simpa using fits)
  exact ⟨m', cloned, clonedTyped, same,
    traceable_of_debugInfo tracer now (given _ (by decide) _ rfl)⟩

/-- Without a context nothing is injected, and a context can be extracted from the result where one
could be extracted before. -/
theorem injectSpanContext_ok (typed : m.Typed) (context : Option SpanContext) :
    ∃ m', injectSpanContext tracer builtins now m context = .ok m' ∧ m'.Typed ∧
      PrismMessage.SameBut [.debugInfo] m m' ∧ (Traceable tracer m → Traceable tracer m') := by
  cases context with
  | none => exact ⟨m, rfl, typed, .refl _ _, id⟩
  | some context =>
      obtain ⟨m', injected, typed', same, traceable⟩ :=
        injectSpanContext_some tracer builtins now typed context
      exact ⟨m', injected, typed', same, fun _ => traceable⟩

end Inject

end Prism
