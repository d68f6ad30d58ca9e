import Prism.Message.Cbor
import Prism.Message.PrismMessage

/-!
Sizes of encoded messages.

A message is encoded to the items of its fields. Where each field of a message is the same as that
of another one, or its item is not longer, the message is not longer either. A time has the same
size for long, and a list of messages is not shorter than one that holds one of them only.

* `length_encode_le`: messages whose fields are not longer are not longer.
* `lighter_list`, `lighter_int`: fields that are not longer.
* `length_encode_create_le`: new messages.
-/

namespace Prism

namespace Value

open Cbor

/-! ### Fields -/

/-- **A field is not longer** than another one, of a type. -/
def Lighter (type : FieldType) (v w : Value) : Prop :=
  v = w ∨ (v ≠ none ∧ w ≠ none ∧ ∀ a b, asEntry v type = .ok a → asEntry w type = .ok b →
    (item a).length ≤ (item b).length)

theorem lighter_int {m n : ℤ} (le : (intItem m).length ≤ (intItem n).length) (type : FieldType) :
    Lighter type (int m) (int n) := by
  refine .inr ⟨nofun, nofun, fun a b run run' => ?_⟩
  cases type with
  | object | generic => cases run
  | _ =>
      cases run
      cases run'
      exact le

/-- The elements of a list, one after the other. -/
theorem asItems_cons (x : Value) (xs : List Value) :
    asItems (x :: xs) = do
      let first ← asItems [x]
      return first ++ (← asItems xs) := by
  cases x with
  | object c fields =>
      rw [asItems, asItems, asItems]
      cases asEntries fields c.schema 0 <;> simp
  | _ => simp [asItems]

theorem length_asItems {xs ys : List Value} (run : asItems xs = .ok ys) :
    ys.length = xs.length := by
  induction xs generalizing ys with
  | nil =>
      cases run
      rfl
  | cons x xs ih =>
      have one : ∀ first, asItems [x] = .ok first → first.length = 1 := by
        intro first run
        cases x with
        | object c fields =>
            rw [asItems, asItems] at run
            obtain ⟨entries, -, run⟩ := bind_eq_ok.mp run
            cases run
            rfl
        | _ =>
            cases run
            rfl
      rw [asItems_cons] at run
      obtain ⟨first, single, run⟩ := bind_eq_ok.mp run
      obtain ⟨rest, others, run⟩ := bind_eq_ok.mp run
      cases run
      rw [List.length_append, one first single, ih others, List.length_cons, Nat.add_comm]

/-- An element of a list is not longer than the list. -/
theorem length_items_le {x : Value} {one xs ys : List Value} (single : asItems [x] = .ok one)
    (run : asItems xs = .ok ys) (mem : x ∈ xs) : (items one).length ≤ (items ys).length := by
  induction xs generalizing ys with
  | nil => cases mem
  | cons y xs ih =>
      rw [asItems_cons] at run
      obtain ⟨first, firstRun, run⟩ := bind_eq_ok.mp run
      obtain ⟨rest, others, run⟩ := bind_eq_ok.mp run
      obtain rfl := Except.ok.inj run
      rw [items_eq (first ++ rest), List.map_append, List.flatten_append, ← items_eq, ← items_eq,
        List.length_append]
      rcases List.mem_cons.mp mem with rfl | mem
      · obtain rfl := Except.ok.inj (single.symm.trans firstRun)
        exact Nat.le_add_right _ _
      · exact (ih others mem).trans (Nat.le_add_left _ _)

/-- A list with one of its elements is not longer. -/
theorem lighter_list {x : Value} {xs : List Value} (mem : x ∈ xs) (type : FieldType) :
    Lighter type (list [x]) (list xs) := by
  refine .inr ⟨nofun, nofun, fun a b run run' => ?_⟩
  have listed : ∀ ys a, asEntry (list ys) type = .ok a →
      ∃ zs, asItems ys = .ok zs ∧ a = list zs := by
    intro ys a run
    cases type with
    | object | generic => cases run
    | _ =>
        obtain ⟨zs, each, run⟩ := bind_eq_ok.mp run
        exact ⟨zs, each, (Except.ok.inj run).symm⟩
  obtain ⟨one, single, rfl⟩ := listed [x] a run
  obtain ⟨ys, all, rfl⟩ := listed xs b run'
  have small : (Lib.Cbor.head 4 one.length).length = 1 := by
    rw [length_asItems single]
    rfl
  have some : 1 ≤ (Lib.Cbor.head 4 ys.length).length := Nat.succ_le_succ (Nat.zero_le _)
  rw [item, item, List.length_append, List.length_append, small]
  exact Nat.add_le_add some (length_items_le single all mem)

/-- **Fields that are not longer** make entries that are not longer. -/
theorem length_entries_le {infos : List FieldInfo} {f g : FieldInfo → Value} {index : ℕ}
    {es es' : List (ℤ × Value)} (run : asEntries (infos.map f) infos index = .ok es)
    (run' : asEntries (infos.map g) infos index = .ok es')
    (lighter : ∀ info ∈ infos, Lighter info.type (f info) (g info)) :
    es.length = es'.length ∧ (entryItems es).length ≤ (entryItems es').length := by
  induction infos generalizing index es es' with
  | nil =>
      cases run
      cases run'
      exact ⟨rfl, le_rfl⟩
  | cons info infos ih =>
      obtain ⟨here, later⟩ := List.forall_mem_cons.mp lighter
      rw [List.map_cons] at run run'
      -- a field that is absent is absent in both messages
      have absent : f info = none ↔ g info = none := by
        rcases here with same | ⟨present, present', -⟩
        · rw [same]
        · exact iff_of_false present present'
      by_cases gap : f info = none
      · rw [gap, asEntries] at run
        rw [absent.mp gap, asEntries] at run'
        exact ih run run' later
      · rw [asEntries_cons gap] at run
        rw [asEntries_cons (fun other => gap (absent.mpr other))] at run'
        obtain ⟨a, entry, run⟩ := bind_eq_ok.mp run
        obtain ⟨rest, others, run⟩ := bind_eq_ok.mp run
        obtain ⟨b, entry', run'⟩ := bind_eq_ok.mp run'
        obtain ⟨rest', others', run'⟩ := bind_eq_ok.mp run'
        obtain rfl := Except.ok.inj run
        obtain rfl := Except.ok.inj run'
        obtain ⟨length, le⟩ := ih others others' later
        have first : (item a).length ≤ (item b).length := by
          rcases here with same | ⟨-, -, lengths⟩
          · rw [same, entry'] at entry
            exact (Except.ok.inj entry ▸ le_rfl)
          · exact lengths a b entry entry'
        refine ⟨by rw [List.length_cons, List.length_cons, length], ?_⟩
        rw [entryItems, entryItems]
        simp only [List.length_append]
        omega

end Value

namespace PrismMessage

/-- **Messages whose fields are not longer** are not longer. -/
theorem length_encode_le {f g : FieldInfo → Value} {data data' : Bytes}
    (run : PrismMessage.encode Cbor.package ⟨ClassName.prismMessage.schema.map f⟩ = .ok data)
    (run' : PrismMessage.encode Cbor.package ⟨ClassName.prismMessage.schema.map g⟩ = .ok data')
    (lighter : ∀ info ∈ ClassName.prismMessage.schema, Value.Lighter info.type (f info) (g info)) :
    data.length ≤ data'.length := by
  have item_of : ∀ (h : FieldInfo → Value) (data : Bytes),
      PrismMessage.encode Cbor.package ⟨ClassName.prismMessage.schema.map h⟩ = .ok data →
      ∃ es, Value.asEntries (ClassName.prismMessage.schema.map h) ClassName.prismMessage.schema 0 =
        .ok es ∧ data = Cbor.item (.dict es) := by
    intro h data run
    obtain ⟨dict, made, dumped⟩ := bind_eq_ok.mp run
    rw [toValue, Value.asCborDict] at made
    obtain ⟨es, entries, made⟩ := bind_eq_ok.mp made
    obtain rfl := Except.ok.inj made
    change Cbor.dumps _ = _ at dumped
    unfold Cbor.dumps at dumped
    split_ifs at dumped
    exact ⟨es, entries, (Except.ok.inj dumped).symm⟩
  obtain ⟨es, entries, rfl⟩ := item_of f data run
  obtain ⟨es', entries', rfl⟩ := item_of g data' run'
  obtain ⟨length, le⟩ := Value.length_entries_le entries entries' lighter
  rw [Cbor.item, Cbor.item, List.length_append, List.length_append, length]
  omega

/-- **New messages** whose arguments are not longer are not longer. -/
theorem length_encode_create_le {now now' : ℤ} {msgType : TypeEnum}
    {kwargs kwargs' : List (FieldName × Value)} {data data' : Bytes}
    (run : (create now msgType kwargs).encode Cbor.package = .ok data)
    (run' : (create now' msgType kwargs').encode Cbor.package = .ok data')
    (time : (Cbor.intItem now).length ≤ (Cbor.intItem now').length)
    (arguments : List.Forall₂ (fun a b => a.1 = b.1 ∧ ∀ type, Value.Lighter type a.2 b.2)
      kwargs kwargs') : data.length ≤ data'.length := by
  have found : ∀ {xs ys : List (FieldName × Value)},
      List.Forall₂ (fun a b => a.1 = b.1 ∧ ∀ type, Value.Lighter type a.2 b.2) xs ys → ∀ f,
      (xs.lookup f = none ∧ ys.lookup f = none) ∨ ∃ v w, xs.lookup f = some v ∧
        ys.lookup f = some w ∧ ∀ type, Value.Lighter type v w := by
    intro xs ys each f
    induction each with
    | nil => exact .inl ⟨rfl, rfl⟩
    | @cons x y xs ys here later ih =>
        obtain ⟨key, v⟩ := x
        obtain ⟨key', w⟩ := y
        obtain ⟨rfl, lighter⟩ := here
        by_cases same : f = key
        · subst same
          exact .inr ⟨v, w, List.lookup_cons_self, List.lookup_cons_self, lighter⟩
        · have other : (f == key) = false := by simpa using same
          rw [List.lookup_cons, List.lookup_cons, other]
          exact ih
  refine length_encode_le run run' fun info mem => ?_
  have both := found (.cons ⟨rfl, fun _ => .inl rfl⟩ arguments :
    List.Forall₂ _ ((.msgType, .enum (.type msgType)) :: kwargs)
      ((.msgType, .enum (.type msgType)) :: kwargs')) info.name
  rcases both with ⟨given, given'⟩ | ⟨v, w, given, given', lighter⟩
  · rw [given, given']
    cases default : info.default with
    | now =>
        simp only [Value.initField, default]
        exact Value.lighter_int time info.type
    | _ =>
        simp only [Value.initField, default]
        exact .inl rfl
  · rw [given, given']
    cases default : info.default with
    | fixed n =>
        simp only [Value.initField, default]
        exact .inl rfl
    | _ =>
        simp only [Value.initField, default]
        exact lighter info.type

end PrismMessage

end Prism
