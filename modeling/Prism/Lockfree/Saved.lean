import Prism.Crypto.Shamir
import Prism.Lib.Hex
import Prism.Message.RoundTrip

/-!
What the lock-free roles write to their state store and read back
(`prism/server/CS2/roles/lockfree/`).

State is saved as JSON, with byte strings and encoded messages as hexadecimal text. A writer
and a reader that undo each other are `Restores`; there is one lemma for each way to put
them together.

* `restores_share`: a share is read back from its text.
-/

namespace Prism.Lockfree

open Prism.Crypto Prism.Lib

/-! ### Writers and readers -/

section Restores

variable {α β γ : Type}

/-- Everything is written without an error, and read back from what was written. -/
def Restores (write : α → Py β) (read : β → Py α) : Prop :=
  ∀ x, ∃ y, write x = .ok y ∧ read y = .ok x

/-- A list is read back, where its elements are. -/
theorem Restores.mapM_of_mem {write : α → Py β} {read : β → Py α} {xs : List α}
    (restores : ∀ x ∈ xs, ∃ y, write x = .ok y ∧ read y = .ok x) :
    ∃ ys, xs.mapM write = .ok ys ∧ ys.mapM read = .ok xs := by
  induction xs with
  | nil => exact ⟨[], rfl, rfl⟩
  | cons x xs ih =>
      obtain ⟨y, written, readBack⟩ := restores x List.mem_cons_self
      obtain ⟨ys, rest, restBack⟩ := ih fun z mem => restores z (List.mem_cons_of_mem _ mem)
      refine ⟨y :: ys, ?_, ?_⟩
      · rw [List.mapM_cons, written, ok_bind, rest]
        rfl
      · rw [List.mapM_cons, readBack, ok_bind, restBack]
        rfl

theorem Restores.mapM {write : α → Py β} {read : β → Py α} (restores : Restores write read) :
    Restores (fun xs : List α => xs.mapM write) (fun ys : List β => ys.mapM read) :=
  fun _ => Restores.mapM_of_mem fun x _ => restores x

/-- `f(x) if x else None`, for values that are always true. -/
def optional (f : α → Py β) : Option α → Py (Option β)
  | none => .ok none
  | some x => some <$> f x

theorem Restores.optional {write : α → Py β} {read : β → Py α} (restores : Restores write read) :
    Restores (optional write) (optional read) := by
  intro x
  cases x with
  | none => exact ⟨none, rfl, rfl⟩
  | some x =>
      obtain ⟨y, written, readBack⟩ := restores x
      refine ⟨some y, ?_, ?_⟩
      · rw [Lockfree.optional, written]
        rfl
      · rw [Lockfree.optional, readBack]
        rfl

end Restores

/-! ### Hexadecimal text -/

/-- `b.hex()`. -/
def hex (bs : Bytes) : String := String.ofList (Hex.toHex bs)

/-- `bytes.fromhex(s)`. -/
def fromHex (s : String) : Py Bytes :=
  match Hex.ofHex s.toList with
  | some bs => .ok bs
  | none => .error (.valueError "non-hexadecimal number found in fromhex() arg")

@[simp] theorem fromHex_hex (bs : Bytes) : fromHex (hex bs) = .ok bs := by
  rw [fromHex, hex, String.toList_ofList, Hex.ofHex_toHex]

theorem hex_injective : Function.Injective hex := by
  intro bs cs same
  have read := congrArg fromHex same
  rw [fromHex_hex, fromHex_hex] at read
  exact Except.ok.inj read

theorem mapM_fromHex (bs : List Bytes) : (bs.map hex).mapM fromHex = .ok bs := by
  induction bs with
  | nil => rfl
  | cons b bs ih =>
      rw [List.map_cons, List.mapM_cons, fromHex_hex, ok_bind, ih]
      rfl

/-! ### Dictionaries by byte strings -/

section Dict

variable {α β : Type}

/-- `{k.hex(): write(v) for k, v in d.items()}`. -/
def saveDict (write : α → Py β) (d : List (Bytes × α)) : Py (List (String × β)) :=
  dictOf <$> d.mapM fun e => do return (hex e.1, ← write e.2)

/-- `{bytes.fromhex(k): read(v) for k, v in d.items()}`. -/
def loadDict (read : β → Py α) (d : List (String × β)) : Py (List (Bytes × α)) :=
  dictOf <$> d.mapM fun e => do return (← fromHex e.1, ← read e.2)

/-- Writing a dictionary raises nothing, where writing a value does not. -/
theorem saveDict_ok {write : α → Py β} (written : ∀ x, ∃ y, write x = .ok y)
    (d : List (Bytes × α)) : ∃ saved, saveDict write d = .ok saved := by
  choose g eq using written
  refine ⟨_, congrArg (dictOf <$> ·) (@mapM_ok _ _ _ (fun e => (hex e.1, g e.2)) d ?_)⟩
  intro e _
  rw [eq]
  rfl

/-- A dictionary is read back, where its values are. -/
theorem restores_dict {write : α → Py β} {read : β → Py α} (restores : Restores write read)
    {d : List (Bytes × α)} (nodup : (d.map Prod.fst).Nodup) :
    ∃ saved, saveDict write d = .ok saved ∧ loadDict read saved = .ok d := by
  obtain ⟨items, written, readBack, keys⟩ : ∃ items : List (String × β),
      (d.mapM fun e => (do return (hex e.1, ← write e.2) : Py _)) = .ok items ∧
      (items.mapM fun e => (do return (← fromHex e.1, ← read e.2) : Py _)) = .ok d ∧
      items.map Prod.fst = (d.map Prod.fst).map hex := by
    clear nodup
    induction d with
    | nil => exact ⟨[], rfl, rfl, rfl⟩
    | cons e d ih =>
        obtain ⟨k, v⟩ := e
        obtain ⟨j, writtenV, readV⟩ := restores v
        obtain ⟨items, written, readBack, keys⟩ := ih
        refine ⟨(hex k, j) :: items, ?_, ?_, ?_⟩
        · simp only [List.mapM_cons, writtenV, ok_bind, written, pure_bind]
          rfl
        · simp only [List.mapM_cons, fromHex_hex, readV, ok_bind, readBack, pure_bind]
          rfl
        · rw [List.map_cons, keys]
          rfl
  have distinct : (items.map Prod.fst).Nodup := by
    rw [keys]
    exact nodup.map hex_injective
  refine ⟨items, ?_, ?_⟩
  · rw [saveDict, written]
    exact congrArg Except.ok (dictOf_of_nodup distinct)
  · rw [loadDict, readBack]
    exact congrArg Except.ok (dictOf_of_nodup nodup)

end Dict

/-! ### Encoded messages -/

section Messages

variable (cbor : Cbor2) (builtins : Builtins) (now : ℤ)

/-- `m.encode().hex()`. -/
def hexMessage (m : Value) : Py String := do return hex (← m.encode cbor)

/-- `c.decode(bytes.fromhex(s))`. -/
def messageOfHex (c : ClassName) (s : String) : Py Value := do
  Value.decode cbor builtins now c (← fromHex s)

/-- A typed message is read back from its text. -/
theorem messageOfHex_hexMessage {c : ClassName} {fields : List Value}
    (typed : Value.hasFields fields c.schema = true) :
    ∃ s, hexMessage cbor (.object c fields) = .ok s ∧ s ≠ "" ∧
      messageOfHex cbor builtins now c s = .ok (.object c fields) := by
  obtain ⟨data, encoded, ne, decoded⟩ := @Value.decode_encode builtins now cbor c fields typed
  refine ⟨hex data, ?_, ?_, ?_⟩
  · rw [hexMessage, encoded]
    rfl
  · intro empty
    have none : hex data = hex [] := empty
    exact ne (hex_injective none)
  · rw [messageOfHex, fromHex_hex, ok_bind, decoded]

/-- A share as a message; the commitments are those of another scheme. -/
def shareMessage (s : Share) : Value := .object .share [.int s.share, .int s.x, .none, .none]

/-- A message as a share. -/
def shareOfMessage : Value → Py Share
  | .object .share (.int share :: .int x :: _) => .ok ⟨share, x⟩
  | _ => .error .attributeError

/-- `share.encode().hex()`. -/
def hexShare (s : Share) : Py String := hexMessage cbor (shareMessage s)

/-- `Share.decode(bytes.fromhex(s))`. -/
def shareOfHex (s : String) : Py Share := do
  shareOfMessage (← messageOfHex cbor builtins now .share s)

/-- **A share is read back from its text.** -/
theorem restores_share : Restores (hexShare cbor) (shareOfHex cbor builtins now) := by
  intro s
  obtain ⟨text, written, -, read⟩ := messageOfHex_hexMessage cbor builtins now
    (show Value.hasFields [.int s.share, .int s.x, .none, .none] ClassName.share.schema = true
      from rfl)
  refine ⟨text, written, ?_⟩
  rw [shareOfHex, read]
  rfl

end Messages

end Prism.Lockfree
