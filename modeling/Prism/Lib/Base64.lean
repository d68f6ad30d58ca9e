import Mathlib.Data.List.Basic
import Mathlib.Tactic.Common

/-!
Base64.

`encode` writes three bytes as four characters, with `=` for what is missing in the last
group. `decode` is the lenient reader of `binascii.a2b_base64`: it skips characters outside
the alphabet and stops at the padding.

* `decode_encode`: an encoding is decoded to the bytes it was made of.
* `encode_plain`: an encoding has characters of the alphabet and padding only.
-/

namespace Prism.Lib.Base64

/-- The padding character. -/
def pad : Char := Char.ofNat 61

/-- The character of a digit. -/
def digit (n : ℕ) : Char :=
  Char.ofNat (if n < 26 then 65 + n else if n < 52 then 71 + n else if n < 62 then n - 4
    else if n = 62 then 43 else 47)

/-- The digit of a character. -/
def digitValue (c : Char) : Option ℕ :=
  let n := c.toNat
  if 65 ≤ n ∧ n ≤ 90 then some (n - 65)
  else if 97 ≤ n ∧ n ≤ 122 then some (n - 71)
  else if 48 ≤ n ∧ n ≤ 57 then some (n + 4)
  else if n = 43 then some 62
  else if n = 47 then some 63
  else none

/-- The encoding of a byte string. -/
def encode : List UInt8 → List Char
  | [] => []
  | [a] => [digit (a.toNat / 4), digit (a.toNat % 4 * 16), pad, pad]
  | [a, b] =>
      [digit (a.toNat / 4), digit (a.toNat % 4 * 16 + b.toNat / 16), digit (b.toNat % 16 * 4), pad]
  | a :: b :: c :: rest =>
      digit (a.toNat / 4) :: digit (a.toNat % 4 * 16 + b.toNat / 16) ::
        digit (b.toNat % 16 * 4 + c.toNat / 64) :: digit (c.toNat % 64) :: encode rest

/-- The bytes from some characters on, in the middle of a group: `quad` digits of the group
were read, `left` is what remains of the last of them, and `pads` counts the padding. -/
def decodeFrom (quad left pads : ℕ) : List Char → Option (List UInt8)
  | [] => if quad = 0 then some [] else none
  | c :: cs =>
    if c = pad then
      if 2 ≤ quad ∧ 4 ≤ quad + (pads + 1) then some []
      else decodeFrom quad left (if 2 ≤ quad then pads + 1 else pads) cs
    else
      match digitValue c with
      | none => decodeFrom quad left pads cs
      | some v =>
        match quad with
        | 0 => decodeFrom 1 v 0 cs
        | 1 => (decodeFrom 2 (v % 16) 0 cs).map (UInt8.ofNat (left * 4 + v / 16) :: ·)
        | 2 => (decodeFrom 3 (v % 4) 0 cs).map (UInt8.ofNat (left * 16 + v / 4) :: ·)
        | _ => (decodeFrom 0 0 0 cs).map (UInt8.ofNat (left * 64 + v) :: ·)

/-- The bytes that an encoding stands for. -/
def decode (cs : List Char) : Option (List UInt8) := decodeFrom 0 0 0 cs

/-- The digits are told apart, and from the padding. -/
theorem digit_spec : ∀ n < 64, digit n ≠ pad ∧ digitValue (digit n) = some n := by decide

/-- The characters of an encoding are printable and none is a quote or a backslash. -/
theorem digit_plain : ∀ n < 64, 32 ≤ (digit n).toNat ∧ (digit n).toNat < 127 ∧
    (digit n).toNat ≠ 34 ∧ (digit n).toNat ≠ 92 := by decide

/-- Reading the digit `v` with `quad` digits of the group already read. -/
theorem decodeFrom_digit {v : ℕ} (lt : v < 64) (quad left pads : ℕ) (cs : List Char) :
    decodeFrom quad left pads (digit v :: cs) =
      match quad with
      | 0 => decodeFrom 1 v 0 cs
      | 1 => (decodeFrom 2 (v % 16) 0 cs).map (UInt8.ofNat (left * 4 + v / 16) :: ·)
      | 2 => (decodeFrom 3 (v % 4) 0 cs).map (UInt8.ofNat (left * 16 + v / 4) :: ·)
      | _ => (decodeFrom 0 0 0 cs).map (UInt8.ofNat (left * 64 + v) :: ·) := by
  obtain ⟨ne, value⟩ := digit_spec v lt
  rw [decodeFrom, if_neg ne]
  simp only [value]

theorem ofNat_eq {n : ℕ} {b : UInt8} (eq : n = b.toNat) : UInt8.ofNat n = b := by
  rw [eq]
  exact UInt8.ofNat_toNat

/-- **An encoding is decoded to the bytes it was made of.** -/
theorem decode_encode (bs : List UInt8) : decode (encode bs) = some bs := by
  unfold decode
  induction bs using encode.induct with
  | case1 => rfl
  | case2 a =>
      have ha := a.toNat_lt
      have first : UInt8.ofNat (a.toNat / 4 * 4 + a.toNat % 4 * 16 / 16) = a := ofNat_eq (by omega)
      rw [encode, decodeFrom_digit (by omega), decodeFrom_digit (by omega)]
      simp only [first]
      rfl
  | case3 a b =>
      have ha := a.toNat_lt
      have hb := b.toNat_lt
      have first : UInt8.ofNat (a.toNat / 4 * 4 + (a.toNat % 4 * 16 + b.toNat / 16) / 16) = a :=
        ofNat_eq (by omega)
      have second : UInt8.ofNat ((a.toNat % 4 * 16 + b.toNat / 16) % 16 * 16 +
          b.toNat % 16 * 4 / 4) = b := ofNat_eq (by omega)
      rw [encode, decodeFrom_digit (by omega), decodeFrom_digit (by omega)]
      simp only [first]
      rw [decodeFrom_digit (by omega)]
      simp only [second]
      rfl
  | case4 a b c rest ih =>
      have ha := a.toNat_lt
      have hb := b.toNat_lt
      have hc := c.toNat_lt
      have first : UInt8.ofNat (a.toNat / 4 * 4 + (a.toNat % 4 * 16 + b.toNat / 16) / 16) = a :=
        ofNat_eq (by omega)
      have second : UInt8.ofNat ((a.toNat % 4 * 16 + b.toNat / 16) % 16 * 16 +
          (b.toNat % 16 * 4 + c.toNat / 64) / 4) = b := ofNat_eq (by omega)
      have third : UInt8.ofNat ((b.toNat % 16 * 4 + c.toNat / 64) % 4 * 64 + c.toNat % 64) = c :=
        ofNat_eq (by omega)
      rw [encode, decodeFrom_digit (by omega), decodeFrom_digit (by omega)]
      simp only [first]
      rw [decodeFrom_digit (by omega)]
      simp only [second]
      rw [decodeFrom_digit (by omega)]
      simp only [third, ih, Option.map_some]

/-- **An encoding has plain characters only.** -/
theorem encode_plain (bs : List UInt8) : ∀ c ∈ encode bs,
    32 ≤ c.toNat ∧ c.toNat < 127 ∧ c.toNat ≠ 34 ∧ c.toNat ≠ 92 := by
  have padding : 32 ≤ pad.toNat ∧ pad.toNat < 127 ∧ pad.toNat ≠ 34 ∧ pad.toNat ≠ 92 := by decide
  induction bs using encode.induct with
  | case1 => simp [encode]
  | case2 a =>
      have ha := a.toNat_lt
      simp only [encode, List.forall_mem_cons, List.not_mem_nil, false_implies, implies_true,
        and_true]
      exact ⟨digit_plain _ (by omega), digit_plain _ (by omega), padding, padding⟩
  | case3 a b =>
      have ha := a.toNat_lt
      have hb := b.toNat_lt
      simp only [encode, List.forall_mem_cons, List.not_mem_nil, false_implies, implies_true,
        and_true]
      exact ⟨digit_plain _ (by omega), digit_plain _ (by omega), digit_plain _ (by omega), padding⟩
  | case4 a b c rest ih =>
      have ha := a.toNat_lt
      have hb := b.toNat_lt
      have hc := c.toNat_lt
      simp only [encode, List.forall_mem_cons]
      exact ⟨digit_plain _ (by omega), digit_plain _ (by omega), digit_plain _ (by omega),
        digit_plain _ (by omega), ih⟩

end Prism.Lib.Base64
