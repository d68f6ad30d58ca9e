import Mathlib.Data.List.Basic
import Mathlib.Tactic.IntervalCases

/-!
Byte strings as hexadecimal text.

* `ofHex_toHex`: the text of a byte string is read back.
-/

namespace Prism.Lib.Hex

/-- The lower case digit of a number below sixteen. -/
def digit (n : ℕ) : Char := Char.ofNat (if n < 10 then 48 + n else 87 + n)

/-- The number of a digit, in lower or upper case. -/
def digit? (c : Char) : Option ℕ :=
  if 48 ≤ c.toNat ∧ c.toNat ≤ 57 then some (c.toNat - 48)
  else if 97 ≤ c.toNat ∧ c.toNat ≤ 102 then some (c.toNat - 87)
  else if 65 ≤ c.toNat ∧ c.toNat ≤ 70 then some (c.toNat - 55)
  else none

/-- Two digits for each byte. -/
def toHex : List UInt8 → List Char
  | [] => []
  | b :: bs => digit (b.toNat / 16) :: digit (b.toNat % 16) :: toHex bs

/-- A blank between two bytes. -/
def isBlank (c : Char) : Bool := c.toNat = 32 ∨ (9 ≤ c.toNat ∧ c.toNat ≤ 13)

/-- The bytes of a text. Blanks are skipped between bytes. -/
def ofHex : List Char → Option (List UInt8)
  | [] => some []
  | [c] => if isBlank c then some [] else none
  | c :: d :: cs =>
    if isBlank c then ofHex (d :: cs)
    else do
      let high ← digit? c
      let low ← digit? d
      return UInt8.ofNat (16 * high + low) :: (← ofHex cs)

theorem digit_spec {n : ℕ} (lt : n < 16) : digit? (digit n) = some n ∧ isBlank (digit n) = false := by
  interval_cases n <;> exact ⟨rfl, rfl⟩

/-- **The text of a byte string is read back.** -/
theorem ofHex_toHex (bs : List UInt8) : ofHex (toHex bs) = some bs := by
  induction bs with
  | nil => rfl
  | cons b bs ih =>
      have high := digit_spec (n := b.toNat / 16) (by have := b.toNat_lt; omega)
      have low := digit_spec (n := b.toNat % 16) (by omega)
      rw [toHex, ofHex, high.2, if_neg Bool.false_ne_true, high.1, low.1, ih]
      have byte : UInt8.ofNat (16 * (b.toNat / 16) + b.toNat % 16) = b := by
        rw [Nat.div_add_mod, UInt8.ofNat_toNat]
      exact congrArg (fun byte => some (byte :: bs)) byte

theorem toHex_injective : Function.Injective toHex := by
  intro bs cs same
  have read := congrArg ofHex same
  rw [ofHex_toHex, ofHex_toHex] at read
  exact Option.some.inj read

end Prism.Lib.Hex
