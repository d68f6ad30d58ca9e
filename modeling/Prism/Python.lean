import Prism.Lib.BigEndian
import Mathlib.Data.List.Sort

/-!
The Python builtins that the modelled code uses.

Code that can raise returns `Except PyError`; the constructors of `PyError` are the
exception classes that the modelled functions raise themselves or let through, with
the text they raise where the source gives one. `zipStar` is `zip(*lists)`, and
`intToBytes` is `int.to_bytes` with its overflow check.
-/

namespace Prism

/-- Byte strings. -/
abbrev Bytes := List UInt8

instance : LawfulBEq Bytes := inferInstance

instance : LawfulBEq (Option Bytes) := inferInstance

/-- The exceptions that the modelled code raises. -/
inductive PyError where
  | noModularInverse (text : String)
  | valueError (text : String)
  | overflowError
  | assertionError
  | indexError
  | keyError
  | typeError
  | attributeError
  | closedResourceError
  | zeroDivisionError
  | configError (text : String)
  | networkXError (text : String)
  | runtimeError (text : String)
  | decryptException
deriving DecidableEq, Repr

/-- A computation that may raise. -/
abbrev Py := Except PyError

/-- Bytes that stand for themselves. -/
theorem ok_id (x : Bytes) : (.ok (id x) : Py Bytes) = .ok x := rfl

/-- `assert`. -/
def pyAssert (p : Prop) [Decidable p] : Py Unit :=
  if p then .ok () else .error .assertionError

@[simp] theorem pyAssert_of_true {p : Prop} [Decidable p] (h : p) : pyAssert p = .ok () :=
  if_pos h

theorem pyAssert_of_false {p : Prop} [Decidable p] (h : ¬ p) :
    pyAssert p = .error .assertionError :=
  if_neg h

/-- `xs[i]` of a list, for an index that is not negative. -/
def pyIndex {α : Type} (xs : List α) (i : ℕ) : Py α :=
  match xs[i]? with
  | some x => .ok x
  | none => .error .indexError

theorem pyIndex_map_range {α : Type} (f : ℕ → α) {n i : ℕ} (lt : i < n) :
    pyIndex ((List.range n).map f) i = .ok (f i) := by
  simp [pyIndex, lt]

/-- The place of an index that may count from the end, in a list of `n` elements. -/
def pyPlace (n : ℕ) (i : ℤ) : Option ℕ :=
  if 0 ≤ i then (if i < n then some i.toNat else none)
  else if 0 ≤ n + i then some (n + i).toNat else none

theorem lt_of_pyPlace {n p : ℕ} {i : ℤ} (place : pyPlace n i = some p) : p < n := by
  unfold pyPlace at place
  split_ifs at place <;> simp only [Option.some.injEq] at place <;> omega

/-- The bound of a slice as a place in a list of `n` elements. -/
def sliceBound (n : ℕ) (i : ℤ) : ℕ := if i < 0 then (n + i).toNat else min i.toNat n

/-- The places that `xs[start:stop]` takes from a list of `n` elements. -/
def slicePlaces (n : ℕ) (start stop : ℤ) : List ℕ :=
  List.range' (sliceBound n start) (sliceBound n stop - sliceBound n start)

/-- `xs[start:stop]`. -/
def pySlice {α : Type} (xs : List α) (start stop : ℤ) : List α :=
  (xs.drop (sliceBound xs.length start)).take
    (sliceBound xs.length stop - sliceBound xs.length start)

theorem sliceBound_le (n : ℕ) (i : ℤ) : sliceBound n i ≤ n := by
  unfold sliceBound
  split_ifs <;> omega

/-- A slice holds what is at its places. -/
theorem pySlice_eq {α : Type} (xs : List α) (start stop : ℤ) :
    (pySlice xs start stop).map some = (slicePlaces xs.length start stop).map fun k => xs[k]? := by
  have high := sliceBound_le xs.length stop
  refine List.ext_getElem? fun k => ?_
  rw [List.getElem?_map, List.getElem?_map, pySlice, slicePlaces]
  by_cases inside : k < sliceBound xs.length stop - sliceBound xs.length start
  · have lt : sliceBound xs.length start + k < xs.length := by omega
    rw [List.getElem?_range' inside, List.getElem?_take_of_lt inside, List.getElem?_drop]
    simp [lt]
  · rw [List.getElem?_take_eq_none (by omega), List.getElem?_eq_none (by simpa using inside)]
    rfl

theorem nodup_slicePlaces (n : ℕ) (start stop : ℤ) : (slicePlaces n start stop).Nodup :=
  List.nodup_range'

/-- The places of `xs[start:start + size]` are those of the indices from `start` on. -/
theorem pyPlace_of_mem_slice {n p : ℕ} {start size : ℤ} (pos : 0 ≤ size)
    (mem : p ∈ slicePlaces n start (start + size)) :
    ∃ j : ℕ, j < size.toNat ∧ pyPlace n (start + j) = some p := by
  rw [slicePlaces, List.mem_range'_1] at mem
  have low := mem.1
  have high : p < sliceBound n (start + size) := by omega
  unfold sliceBound at low high
  by_cases wrapped : start + size < 0
  · -- both ends count from the end of the list
    rw [if_pos wrapped] at high
    rw [if_pos (by omega)] at low
    refine ⟨(p - n - start : ℤ).toNat, by omega, ?_⟩
    rw [pyPlace, if_neg (by omega), if_pos (by omega)]
    exact congrArg some (by omega)
  · rw [if_neg wrapped] at high
    refine ⟨(p - start : ℤ).toNat, ?_, ?_⟩
    · split_ifs at low <;> omega
    · have eq : start + ((p - start : ℤ).toNat : ℤ) = p := by split_ifs at low <;> omega
      rw [eq, pyPlace, if_pos (by omega), if_pos (by omega)]
      rfl

/-! ### A changed element -/

section Modify

variable {α β : Type} {xs : List α} {i : ℕ}

/-- A change is what it does to the element that is there. -/
theorem modify_congr {f g : α → α} (same : ∀ x, xs[i]? = some x → f x = g x) :
    xs.modify i f = xs.modify i g := by
  refine List.ext_getElem? fun j => ?_
  rw [List.getElem?_modify, List.getElem?_modify]
  by_cases here : i = j
  · subst here
    cases found : xs[i]? with
    | none => rfl
    | some x => simp [same x found]
  · simp [here]

theorem modify_of_same {f : α → α} (same : ∀ x, xs[i]? = some x → f x = x) : xs.modify i f = xs :=
  (modify_congr same).trans (List.modify_id i xs)

/-- What a change does not touch. -/
theorem map_modify {f : α → α} {g : α → β} (same : ∀ x, g (f x) = g x) (xs : List α) (i : ℕ) :
    (xs.modify i f).map g = xs.map g := by
  refine List.ext_getElem? fun j => ?_
  rw [List.getElem?_map, List.getElem?_map, List.getElem?_modify]
  split_ifs
  · cases xs[j]? <;> simp [same]
  · simp

end Modify

/-! ### Dictionaries -/

section Dictionaries

variable {κ β : Type} [DecidableEq κ]

/-- `d[k] = v`: a key keeps its place. -/
def dictSet (d : List (κ × β)) (k : κ) (v : β) : List (κ × β) :=
  if k ∈ d.map Prod.fst then d.map fun e => if e.1 = k then (k, v) else e else d ++ [(k, v)]

/-- The dictionary of some items. -/
def dictOf (items : List (κ × β)) : List (κ × β) :=
  items.foldl (fun d e => dictSet d e.1 e.2) []

theorem keys_dictSet (d : List (κ × β)) (k : κ) (v : β) :
    (dictSet d k v).map Prod.fst =
      if k ∈ d.map Prod.fst then d.map Prod.fst else d.map Prod.fst ++ [k] := by
  unfold dictSet
  split_ifs with present
  · rw [List.map_map]
    refine List.map_congr_left fun e _ => ?_
    by_cases same : e.1 = k <;> simp [same]
  · simp

theorem nodup_dictSet {d : List (κ × β)} (nodup : (d.map Prod.fst).Nodup) (k : κ) (v : β) :
    ((dictSet d k v).map Prod.fst).Nodup := by
  rw [keys_dictSet]
  split_ifs with present
  · exact nodup
  · rw [List.nodup_append]
    refine ⟨nodup, List.nodup_singleton k, fun a mem b single => ?_⟩
    rw [List.mem_singleton.mp single]
    rintro rfl
    exact present mem

theorem mem_dictSet {d : List (κ × β)} {k : κ} {v : β} {e : κ × β} :
    e ∈ dictSet d k v ↔ e = (k, v) ∨ (e ∈ d ∧ e.1 ≠ k) := by
  unfold dictSet
  split_ifs with present
  · rw [List.mem_map]
    constructor
    · rintro ⟨old, mem, rfl⟩
      split_ifs with same
      · exact .inl rfl
      · exact .inr ⟨mem, same⟩
    · rintro (rfl | ⟨mem, ne⟩)
      · obtain ⟨old, mem, same⟩ := List.mem_map.mp present
        exact ⟨old, mem, if_pos same⟩
      · exact ⟨e, mem, if_neg ne⟩
  · rw [List.mem_append, List.mem_singleton]
    constructor
    · rintro (mem | rfl)
      · exact .inr ⟨mem, fun same => present (same ▸ List.mem_map_of_mem mem)⟩
      · exact .inl rfl
    · rintro (rfl | ⟨mem, -⟩)
      · exact .inr rfl
      · exact .inl mem

/-- `d.update(items)`, entry by entry. -/
def dictUpdate (d items : List (κ × β)) : List (κ × β) :=
  items.foldl (fun d e => dictSet d e.1 e.2) d

theorem nodup_dictUpdate {d : List (κ × β)} (nodup : (d.map Prod.fst).Nodup)
    (items : List (κ × β)) : ((dictUpdate d items).map Prod.fst).Nodup := by
  induction items generalizing d with
  | nil => exact nodup
  | cons e items ih => exact ih (nodup_dictSet nodup e.1 e.2)

/-- What a dictionary holds after it was updated with items of distinct keys. -/
theorem mem_dictUpdate {d items : List (κ × β)} (distinct : (items.map Prod.fst).Nodup)
    {e : κ × β} :
    e ∈ dictUpdate d items ↔ e ∈ items ∨ (e ∈ d ∧ e.1 ∉ items.map Prod.fst) := by
  induction items generalizing d with
  | nil => simp [dictUpdate]
  | cons item items ih =>
      rw [List.map_cons, List.nodup_cons] at distinct
      have rest := @ih (dictSet d item.1 item.2) distinct.2
      rw [mem_dictSet] at rest
      refine rest.trans ?_
      rw [List.mem_cons, List.map_cons, List.mem_cons, not_or]
      constructor
      · rintro (mem | ⟨rfl | ⟨mem, ne⟩, absent⟩)
        · exact .inl (.inr mem)
        · exact .inl (.inl rfl)
        · exact .inr ⟨mem, ne, absent⟩
      · rintro ((rfl | mem) | ⟨mem, ne, absent⟩)
        · exact .inr ⟨.inl rfl, distinct.1⟩
        · exact .inl mem
        · exact .inr ⟨.inr ⟨mem, ne⟩, absent⟩

/-- A dictionary of items with distinct keys is the items. -/
theorem dictOf_of_nodup {items : List (κ × β)} (nodup : (items.map Prod.fst).Nodup) :
    dictOf items = items := by
  have fold : ∀ (rest d : List (κ × β)), ((d ++ rest).map Prod.fst).Nodup →
      rest.foldl (fun d e => dictSet d e.1 e.2) d = d ++ rest := by
    intro rest
    induction rest with
    | nil => simp
    | cons e rest ih =>
        intro d nodup
        have fresh : e.1 ∉ d.map Prod.fst := by
          rw [List.map_append, List.map_cons, List.nodup_append] at nodup
          exact fun mem => nodup.2.2 _ mem _ List.mem_cons_self rfl
        rw [List.foldl_cons, dictSet, if_neg fresh, ih _ (by simpa using nodup)]
        simp
  exact fold items [] nodup

theorem nodup_dictOf (items : List (κ × β)) : ((dictOf items).map Prod.fst).Nodup :=
  nodup_dictUpdate (d := []) List.nodup_nil items

section Lookup

variable [BEq κ] [LawfulBEq κ]

omit [DecidableEq κ] in
theorem mem_of_lookup {d : List (κ × β)} {k : κ} {v : β} (found : d.lookup k = some v) :
    (k, v) ∈ d := by
  obtain ⟨before, after, rfl, -⟩ := List.lookup_eq_some_iff.mp found
  simp

omit [DecidableEq κ] in
/-- An entry of a dictionary is found by its key. -/
theorem lookup_of_mem {d : List (κ × β)} (nodup : (d.map Prod.fst).Nodup) {k : κ} {v : β}
    (mem : (k, v) ∈ d) : d.lookup k = some v := by
  obtain ⟨before, after, rfl⟩ := List.append_of_mem mem
  rw [List.lookup_eq_some_iff]
  refine ⟨before, after, rfl, fun e inBefore => ?_⟩
  rw [List.map_append, List.map_cons, List.nodup_append] at nodup
  exact bne_iff_ne.mpr (nodup.2.2 e.1 (List.mem_map_of_mem inBefore) k List.mem_cons_self).symm

theorem lookup_dictSet (d : List (κ × β)) (k j : κ) (v : β) :
    (dictSet d k v).lookup j = if j = k then some v else d.lookup j := by
  unfold dictSet
  split_ifs with present same same
  · subst same
    induction d with
    | nil => exact absurd present List.not_mem_nil
    | cons e d ih =>
        by_cases here : e.1 = j
        · simp [here]
        · rw [List.map_cons, if_neg here, List.lookup_cons, beq_false_of_ne (Ne.symm here)]
          exact ih (by simpa [Ne.symm here] using present)
  · clear present
    induction d with
    | nil => rfl
    | cons e d ih =>
        rw [List.map_cons, List.lookup_cons, List.lookup_cons, ih]
        by_cases here : e.1 = k
        · rw [if_pos here, here, beq_false_of_ne same]
        · rw [if_neg here]
  · rw [List.lookup_append, same, List.lookup_eq_none_iff.mpr, Option.none_or]
    · simp
    · intro e mem
      exact bne_iff_ne.mpr fun eq => present (eq ▸ List.mem_map_of_mem mem)
  · rw [List.lookup_append, List.lookup_cons, beq_false_of_ne same]
    simp

/-- An entry that is deleted is not found, and the others are as before. -/
theorem lookup_filter_ne (d : List (κ × β)) (k j : κ) :
    (d.filter fun e => e.1 ≠ k).lookup j = if j = k then none else d.lookup j := by
  induction d with
  | nil => simp
  | cons e d ih =>
      by_cases here : e.1 = k
      · rw [List.filter_cons_of_neg (by simp [here]), ih]
        by_cases same : j = k
        · rw [if_pos same, if_pos same]
        · rw [if_neg same, if_neg same, List.lookup_cons,
            beq_false_of_ne fun eq => same (eq.trans here)]
      · rw [List.filter_cons_of_pos (by simp [here]), List.lookup_cons, List.lookup_cons, ih]
        by_cases same : j = k
        · rw [if_pos same, if_pos same, beq_false_of_ne fun eq => here (eq.symm.trans same)]
        · rw [if_neg same, if_neg same]

/-- A comprehension over a dictionary keeps what meets the condition. -/
theorem lookup_filter {d : List (κ × β)} (nodup : (d.map Prod.fst).Nodup) (q : κ × β → Bool)
    (j : κ) :
    (d.filter q).lookup j = (d.lookup j).filter fun v => q (j, v) := by
  induction d with
  | nil => rfl
  | cons e d ih =>
      rw [List.map_cons, List.nodup_cons] at nodup
      have rest := ih nodup.2
      rw [List.lookup_cons]
      by_cases same : j = e.1
      · subst same
        have absent : d.lookup e.1 = none := by
          rw [List.lookup_eq_none_iff]
          intro other mem
          exact bne_iff_ne.mpr fun eq => nodup.1 (eq ▸ List.mem_map_of_mem mem)
        rw [beq_self_eq_true]
        by_cases kept : q e
        · rw [List.filter_cons_of_pos kept, List.lookup_cons_self, Option.filter_some]
          exact (if_pos kept).symm
        · rw [List.filter_cons_of_neg kept, rest, absent, Option.filter_some]
          exact (if_neg kept).symm
      · rw [beq_false_of_ne same]
        by_cases kept : q e
        · rw [List.filter_cons_of_pos kept, List.lookup_cons, beq_false_of_ne same]
          exact rest
        · rw [List.filter_cons_of_neg kept]
          exact rest

omit [DecidableEq κ] [LawfulBEq κ] in
theorem lookup_map {γ : Type} (f : β → γ) (d : List (κ × β)) (k : κ) :
    (d.map fun e => (e.1, f e.2)).lookup k = (d.lookup k).map f := by
  induction d with
  | nil => rfl
  | cons e d ih =>
      rw [List.map_cons, List.lookup_cons, List.lookup_cons, ih]
      cases k == e.1 <;> rfl

/-- A value that is replaced by one that looks the same. -/
theorem map_dictSet {γ : Type} (f : β → γ) {d : List (κ × β)} (nodup : (d.map Prod.fst).Nodup)
    {k : κ} {v v' : β} (found : d.lookup k = some v) (same : f v' = f v) :
    (dictSet d k v').map (fun e => (e.1, f e.2)) = d.map fun e => (e.1, f e.2) := by
  have mem := mem_of_lookup found
  rw [dictSet, if_pos (List.mem_map_of_mem (f := Prod.fst) mem), List.map_map]
  refine List.map_congr_left fun e inDict => ?_
  by_cases here : e.1 = k
  · have value := lookup_of_mem nodup (k := e.1) (v := e.2) inDict
    rw [here, found] at value
    rw [Function.comp, if_pos here, here, same, Option.some.inj value]
  · rw [Function.comp, if_neg here]

/-- An update with items that look like what they replace. -/
theorem lookup_dictUpdate {γ : Type} (f : β → γ) {items d : List (κ × β)}
    (same : ∀ e ∈ items, (d.lookup e.1).map f = some (f e.2)) (k : κ) :
    ((dictUpdate d items).lookup k).map f = (d.lookup k).map f := by
  induction items generalizing d with
  | nil => rfl
  | cons item items ih =>
      have first : ∀ j, ((dictSet d item.1 item.2).lookup j).map f = (d.lookup j).map f := by
        intro j
        rw [lookup_dictSet]
        split_ifs with here
        · rw [here, same item List.mem_cons_self]
          rfl
        · rfl
      refine Eq.trans (ih fun e mem => ?_) (first k)
      rw [first]
      exact same e (List.mem_cons_of_mem _ mem)

end Lookup

end Dictionaries

/-! ### Runs that raise nothing -/

section Runs

variable {α β : Type}

/-- A comprehension over calls that all return collects their results. -/
theorem mapM_ok {f : α → Py β} {g : α → β} {xs : List α} (h : ∀ x ∈ xs, f x = .ok (g x)) :
    xs.mapM f = .ok (xs.map g) := by
  induction xs with
  | nil => rfl
  | cons x xs ih =>
      rw [List.mapM_cons, h x List.mem_cons_self, ih fun y hy => h y (List.mem_cons_of_mem _ hy)]
      rfl

/-- A comprehension whose condition holds throughout keeps everything. -/
theorem filterM_ok {f : α → Py Bool} {xs : List α} (h : ∀ x ∈ xs, f x = .ok true) :
    xs.filterM f = .ok xs := by
  have loop : ∀ ys acc : List α, (∀ y ∈ ys, f y = .ok true) →
      ys.filterAuxM f acc = .ok (ys.reverse ++ acc) := by
    intro ys
    induction ys with
    | nil => exact fun acc _ => rfl
    | cons y ys ih =>
        intro acc all
        rw [List.filterAuxM, all y List.mem_cons_self]
        have rest := ih (y :: acc) fun z mem => all z (List.mem_cons_of_mem _ mem)
        rw [List.reverse_cons, List.append_assoc]
        exact rest
  unfold List.filterM
  rw [loop xs [] h]
  simp

/-- A partial map that agrees with a function where it is defined. -/
theorem filterMap_eq_map_filter {f : α → Option β} {g : α → β} {xs : List α}
    (h : ∀ x ∈ xs, ∀ y, f x = some y → y = g x) :
    xs.filterMap f = (xs.filter fun x => (f x).isSome).map g := by
  induction xs with
  | nil => rfl
  | cons x xs ih =>
      have rest := ih fun y mem => h y (List.mem_cons_of_mem _ mem)
      cases eq : f x with
      | none => simp [eq, rest]
      | some y => simp [eq, rest, h x List.mem_cons_self y eq]

/-- A returned bind ran both parts. -/
theorem bind_eq_ok {x : Py α} {f : α → Py β} {b : β} :
    x >>= f = .ok b ↔ ∃ a, x = .ok a ∧ f a = .ok b := by
  cases x with
  | error e => simp [bind, Except.bind]
  | ok a => simp [bind, Except.bind]

@[simp] theorem ok_bind (a : α) (f : α → Py β) : (Except.ok a : Py α) >>= f = f a := rfl

@[simp] theorem error_bind (e : PyError) (f : α → Py β) :
    (Except.error e : Py α) >>= f = .error e := rfl

theorem map_eq_ok {f : α → β} {x : Py α} {b : β} :
    x.map f = .ok b ↔ ∃ a, x = .ok a ∧ f a = b := by
  cases x with
  | ok a => simp [Except.map]
  | error e => simp [Except.map]

theorem exists_of_isOk {x : Py α} (ok : x.isOk = true) : ∃ a, x = .ok a := by
  cases x with
  | ok a => exact ⟨a, rfl⟩
  | error e => cases ok

/-- The results of a comprehension that returned, one of each call. -/
theorem mem_mapM {f : α → Py β} {xs : List α} {ys : List β} (run : xs.mapM f = .ok ys) :
    (∀ x ∈ xs, ∃ y ∈ ys, f x = .ok y) ∧ ∀ y ∈ ys, ∃ x ∈ xs, f x = .ok y := by
  induction xs generalizing ys with
  | nil =>
      obtain rfl : [] = ys := Except.ok.inj run
      exact ⟨fun x mem => (List.not_mem_nil mem).elim, fun y mem => (List.not_mem_nil mem).elim⟩
  | cons x xs ih =>
      rw [List.mapM_cons] at run
      obtain ⟨y, here, run⟩ := bind_eq_ok.mp run
      obtain ⟨rest, others, run⟩ := bind_eq_ok.mp run
      obtain rfl : y :: rest = ys := Except.ok.inj run
      obtain ⟨called, returned⟩ := ih others
      constructor
      · rw [List.forall_mem_cons]
        refine ⟨⟨y, List.mem_cons_self, here⟩, fun x mem => ?_⟩
        obtain ⟨y, inRest, eq⟩ := called x mem
        exact ⟨y, List.mem_cons_of_mem _ inRest, eq⟩
      · rw [List.forall_mem_cons]
        refine ⟨⟨x, List.mem_cons_self, here⟩, fun y mem => ?_⟩
        obtain ⟨x, inXs, eq⟩ := returned y mem
        exact ⟨x, List.mem_cons_of_mem _ inXs, eq⟩

/-- The computation does not raise. -/
def Returns (x : Py α) : Prop := ∃ a, x = .ok a

@[simp] theorem returns_ok (a : α) : Returns (.ok a : Py α) := ⟨a, rfl⟩

@[simp] theorem returns_pure (a : α) : Returns (pure a : Py α) := ⟨a, rfl⟩

@[simp] theorem not_returns_error (e : PyError) : ¬ Returns (.error e : Py α) :=
  fun ⟨_, run⟩ => nomatch run

theorem returns_bind {x : Py α} {f : α → Py β} :
    Returns (x >>= f) ↔ ∃ a, x = .ok a ∧ Returns (f a) := by
  constructor
  · rintro ⟨b, run⟩
    obtain ⟨a, first, second⟩ := bind_eq_ok.mp run
    exact ⟨a, first, b, second⟩
  · rintro ⟨a, first, b, second⟩
    exact ⟨b, bind_eq_ok.mpr ⟨a, first, second⟩⟩

theorem returns_pyIndex {xs : List α} {i : ℕ} : Returns (pyIndex xs i) ↔ i < xs.length := by
  rw [pyIndex]
  cases atPlace : xs[i]? with
  | none => simpa using List.getElem?_eq_none_iff.mp atPlace
  | some x => simpa using (List.getElem?_eq_some_iff.mp atPlace).1

/-- A computation that goes on without raising. -/
theorem returns_bind_of {x : Py α} {f : α → Py β} (goesOn : ∀ a, Returns (f a)) :
    Returns (x >>= f) ↔ Returns x := by
  rw [returns_bind]
  exact exists_congr fun a => and_iff_left (goesOn a)

/-- A computation whose result is not used raises where one of the two parts does. -/
theorem returns_then {x : Py α} {y : Py β} :
    Returns (x >>= fun _ => y) ↔ Returns x ∧ Returns y := by
  rw [returns_bind]
  exact ⟨fun ⟨a, first, second⟩ => ⟨⟨a, first⟩, second⟩,
    fun ⟨⟨a, first⟩, second⟩ => ⟨a, first, second⟩⟩

/-- A comprehension raises where one of its elements does. -/
theorem returns_mapM {f : α → Py β} {xs : List α} :
    Returns (xs.mapM f) ↔ ∀ x ∈ xs, Returns (f x) := by
  constructor
  · rintro ⟨ys, run⟩ x mem
    obtain ⟨y, -, here⟩ := (mem_mapM run).1 x mem
    exact ⟨y, here⟩
  · intro each
    induction xs with
    | nil => exact ⟨[], rfl⟩
    | cons x xs ih =>
        obtain ⟨y, here⟩ := each x List.mem_cons_self
        obtain ⟨ys, others⟩ := ih fun other mem => each other (List.mem_cons_of_mem _ mem)
        refine ⟨y :: ys, ?_⟩
        rw [List.mapM_cons, here, ok_bind, others]
        rfl

/-- What all calls of a comprehension have in common. -/
theorem map_of_mapM {γ : Type} {f : α → Py β} {g : β → γ} {h : α → γ}
    (each : ∀ a b, f a = .ok b → g b = h a) {xs : List α} {ys : List β}
    (run : xs.mapM f = .ok ys) : ys.map g = xs.map h := by
  induction xs generalizing ys with
  | nil =>
      obtain rfl : [] = ys := Except.ok.inj run
      rfl
  | cons x xs ih =>
      rw [List.mapM_cons] at run
      obtain ⟨y, first, run⟩ := bind_eq_ok.mp run
      obtain ⟨zs, rest, run⟩ := bind_eq_ok.mp run
      obtain rfl : y :: zs = ys := Except.ok.inj run
      rw [List.map_cons, List.map_cons, each x y first, ih rest]

/-- A comprehension is undone by another one exactly where each of its calls is. -/
theorem mapM_undone {f : α → Py β} {g : β → Py α} {xs : List α} :
    (xs.mapM f >>= fun ys => ys.mapM g) = .ok xs ↔ ∀ x ∈ xs, f x >>= g = .ok x := by
  induction xs with
  | nil => exact iff_of_true rfl fun x mem => (List.not_mem_nil mem).elim
  | cons x xs ih =>
      rw [List.forall_mem_cons, ← ih, List.mapM_cons]
      constructor
      · intro run
        obtain ⟨ys, run, undone⟩ := bind_eq_ok.mp run
        obtain ⟨y, here, run⟩ := bind_eq_ok.mp run
        obtain ⟨zs, others, run⟩ := bind_eq_ok.mp run
        obtain rfl : y :: zs = ys := Except.ok.inj run
        rw [List.mapM_cons] at undone
        obtain ⟨x', back, undone⟩ := bind_eq_ok.mp undone
        obtain ⟨xs', rest, undone⟩ := bind_eq_ok.mp undone
        obtain ⟨rfl, rfl⟩ := List.cons.inj (Except.ok.inj undone)
        exact ⟨bind_eq_ok.mpr ⟨y, here, back⟩, bind_eq_ok.mpr ⟨zs, others, rest⟩⟩
      · rintro ⟨first, rest⟩
        obtain ⟨y, here, back⟩ := bind_eq_ok.mp first
        obtain ⟨ys, others, undone⟩ := bind_eq_ok.mp rest
        refine bind_eq_ok.mpr ⟨y :: ys, ?_, ?_⟩
        · rw [here, ok_bind, others]
          rfl
        · rw [List.mapM_cons, back, ok_bind, undone]
          rfl

/-- What two comprehensions in a row leave as it was. -/
theorem map_of_mapM_mapM {γ : Type} {f : α → Py β} {g : β → Py α} {k : α → γ} {xs zs : List α}
    {ys : List β} (each : ∀ x ∈ xs, ∀ y z, f x = .ok y → g y = .ok z → k z = k x)
    (run : xs.mapM f = .ok ys) (run' : ys.mapM g = .ok zs) : zs.map k = xs.map k := by
  induction xs generalizing ys zs with
  | nil =>
      obtain rfl : [] = ys := Except.ok.inj run
      obtain rfl : [] = zs := Except.ok.inj run'
      rfl
  | cons x xs ih =>
      rw [List.mapM_cons] at run
      obtain ⟨y, here, run⟩ := bind_eq_ok.mp run
      obtain ⟨rest, others, run⟩ := bind_eq_ok.mp run
      obtain rfl : y :: rest = ys := Except.ok.inj run
      rw [List.mapM_cons] at run'
      obtain ⟨z, back, run'⟩ := bind_eq_ok.mp run'
      obtain ⟨rest', others', run'⟩ := bind_eq_ok.mp run'
      obtain rfl : z :: rest' = zs := Except.ok.inj run'
      rw [List.map_cons, List.map_cons, each x List.mem_cons_self y z here back,
        ih (fun x mem => each x (List.mem_cons_of_mem _ mem)) others others']

end Runs

/-! ### `zip(*lists)` -/

section ZipStar

variable {α β : Type}

/-- `zip(*lists)`: the columns of the rows, as many as the shortest row has. -/
def zipStar : List (List α) → List (List α)
  | [] => []
  | [row] => row.map fun a => [a]
  | row :: rows => List.zipWith List.cons row (zipStar rows)

/-- The columns of rows that are all indexed by one list. -/
theorem zipStar_map {κ ι : Type} {is : List ι} (ne : is ≠ []) (ks : List κ) (f : ι → κ → α) :
    zipStar (is.map fun i => ks.map (f i)) = ks.map fun k => is.map fun i => f i k := by
  induction is with
  | nil => exact absurd rfl ne
  | cons i is ih =>
      cases is with
      | nil => simp [zipStar]
      | cons j js =>
          have rest := ih (List.cons_ne_nil j js)
          rw [List.map_cons] at rest
          rw [List.map_cons, List.map_cons, zipStar, rest, List.zipWith_map, List.zipWith_self]
          · rfl
          · simp

/-- The columns of rows made of two halves: the columns of the left halves, then
those of the right halves. -/
theorem zipStar_map_append {κ ι : Type} {is : List ι} (ne : is ≠ []) (ks ls : List κ)
    (f g : ι → κ → α) :
    zipStar (is.map fun i => ks.map (f i) ++ ls.map (g i)) =
      (ks.map fun k => is.map fun i => f i k) ++ ls.map fun l => is.map fun i => g i l := by
  have rows : ∀ i, ks.map (f i) ++ ls.map (g i) =
      (ks.map Sum.inl ++ ls.map Sum.inr).map (Sum.elim (f i) (g i)) := by
    intro i
    simp [Function.comp_def]
  simp only [rows]
  rw [zipStar_map ne]
  simp [Function.comp_def]

end ZipStar

/-! ### Integers and bytes -/

/-- `int.bit_length` of a natural number. -/
def bitLength (n : ℕ) : ℕ := n.size

/-- `int.from_bytes(data, "big")`. -/
def intFromBytes (data : Bytes) : ℕ := Lib.BigEndian.ofBytes data

/-- `n.to_bytes(len, "big")`: a negative length is a `ValueError`, a number that
does not fit an `OverflowError`. -/
def intToBytes (n : ℕ) (len : ℤ) : Py Bytes :=
  if len < 0 then .error (.valueError "length argument must be non-negative")
  else if n < 256 ^ len.toNat then .ok (Lib.BigEndian.toBytes n len.toNat)
  else .error .overflowError

end Prism
