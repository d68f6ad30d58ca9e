import Mathlib.Data.List.Basic
import Mathlib.Tactic.Common

/-!
JSON objects whose members are strings, as Python's `json` writes and reads them.

`dumps` writes the members in order, with a blank after each comma and colon, and escapes
what is not printable ASCII. `loads` skips blanks between tokens and resolves escapes; a
document with a value that is not a string is not read.

* `loads_dumps`: an object of plain strings is read back.
-/

namespace Prism.Lib.Json

/-- The characters of the grammar. -/
def quote : Char := Char.ofNat 34
def comma : Char := Char.ofNat 44
def colon : Char := Char.ofNat 58
def backslash : Char := Char.ofNat 92
def openBrace : Char := Char.ofNat 123
def closeBrace : Char := Char.ofNat 125
def blank : Char := Char.ofNat 32

/-! ### Writing -/

/-- A hexadecimal digit. -/
def hexDigit (n : ℕ) : Char := Char.ofNat (if n < 10 then 48 + n else 87 + n)

/-- The escape of a 16-bit code unit. -/
def escapeUnit (n : ℕ) : List Char :=
  [backslash, 'u', hexDigit (n / 4096 % 16), hexDigit (n / 256 % 16), hexDigit (n / 16 % 16),
    hexDigit (n % 16)]

/-- The character that stands for another one after a backslash. -/
def shortEscape (n : ℕ) : Option Char :=
  match n with
  | 34 => some quote
  | 92 => some backslash
  | 8 => some 'b'
  | 9 => some 't'
  | 10 => some 'n'
  | 12 => some 'f'
  | 13 => some 'r'
  | _ => none

/-- A character of a string. -/
def writeChar (c : Char) : List Char :=
  match shortEscape c.toNat with
  | some e => [backslash, e]
  | none =>
    if 32 ≤ c.toNat ∧ c.toNat < 127 then [c]
    else if c.toNat < 0x10000 then escapeUnit c.toNat
    else escapeUnit (0xd800 + (c.toNat - 0x10000) / 1024) ++
      escapeUnit (0xdc00 + (c.toNat - 0x10000) % 1024)

/-- A string. -/
def writeString (s : List Char) : List Char := quote :: (s.flatMap writeChar ++ [quote])

/-- A member of an object. -/
def writeMember (member : List Char × List Char) : List Char :=
  writeString member.1 ++ colon :: blank :: writeString member.2

/-- The members from the second on. -/
def writeMembers (members : List (List Char × List Char)) : List Char :=
  members.flatMap fun member => comma :: blank :: writeMember member

/-- `json.dumps`. -/
def dumps : List (List Char × List Char) → List Char
  | [] => [openBrace, closeBrace]
  | member :: members => openBrace :: (writeMember member ++ writeMembers members ++ [closeBrace])

/-! ### Reading -/

/-- The value of a hexadecimal digit. -/
def hexValue (c : Char) : Option ℕ :=
  let n := c.toNat
  if 48 ≤ n ∧ n ≤ 57 then some (n - 48)
  else if 65 ≤ n ∧ n ≤ 70 then some (n - 55)
  else if 97 ≤ n ∧ n ≤ 102 then some (n - 87)
  else none

/-- A code unit of four digits. -/
def unitValue (a b c d : Char) : Option ℕ := do
  return (((← hexValue a) * 16 + (← hexValue b)) * 16 + (← hexValue c)) * 16 + (← hexValue d)

/-- What a character after a backslash stands for. -/
def shortValue (n : ℕ) : Option Char :=
  match n with
  | 34 => some quote
  | 47 => some '/'
  | 92 => some backslash
  | 98 => some (Char.ofNat 8)
  | 102 => some (Char.ofNat 12)
  | 110 => some (Char.ofNat 10)
  | 114 => some (Char.ofNat 13)
  | 116 => some (Char.ofNat 9)
  | _ => none

/-- The rest of a string, up to its closing quote, and what follows it. Code units of a
surrogate pair make one character. -/
def readString : List Char → Option (List Char × List Char)
  | [] => none
  | c :: cs =>
    if c = quote then some ([], cs)
    else if c = backslash then
      match cs with
      | 'u' :: a :: b :: c :: d :: cs =>
        match unitValue a b c d with
        | none => none
        | some high =>
          if 0xd800 ≤ high ∧ high < 0xdc00 then
            match cs with
            | _ :: 'u' :: a :: b :: c :: d :: cs => do
              let low ← unitValue a b c d
              let (s, rest) ← readString cs
              return (Char.ofNat (0x10000 + (high - 0xd800) * 1024 + (low - 0xdc00)) :: s, rest)
            | _ => none
          else do
            let (s, rest) ← readString cs
            return (Char.ofNat high :: s, rest)
      | e :: cs => do
        let c ← shortValue e.toNat
        let (s, rest) ← readString cs
        return (c :: s, rest)
      | [] => none
    else if c.toNat < 32 then none
    else do
      let (s, rest) ← readString cs
      return (c :: s, rest)

/-- The characters that may stand between tokens. -/
def isBlank (c : Char) : Bool := c.toNat = 32 || c.toNat = 9 || c.toNat = 10 || c.toNat = 13

/-- The text after blanks. -/
def skipBlanks (cs : List Char) : List Char := cs.dropWhile isBlank

/-- The text after blanks and a given character. -/
def expect (c : Char) (cs : List Char) : Option (List Char) :=
  match skipBlanks cs with
  | d :: cs => if d = c then some cs else none
  | [] => none

/-- A member, and what follows it. -/
def readMember (cs : List Char) : Option ((List Char × List Char) × List Char) := do
  let (key, cs) ← readString (← expect quote cs)
  let (value, cs) ← readString (← expect quote (← expect colon cs))
  return ((key, value), cs)

/-- The members from the second on, up to the closing brace, at most `fuel` of them. -/
def readMembers : ℕ → List Char → Option (List (List Char × List Char) × List Char)
  | 0, _ => none
  | fuel + 1, cs =>
    match expect closeBrace cs with
    | some cs => some ([], cs)
    | none => do
      let (member, cs) ← readMember (← expect comma cs)
      let (members, cs) ← readMembers fuel cs
      return (member :: members, cs)

/-- The members of an object, after its opening brace. -/
def readBody (cs : List Char) : Option (List (List Char × List Char) × List Char) :=
  match expect closeBrace cs with
  | some cs => some ([], cs)
  | none => do
    let (member, cs) ← readMember cs
    let (members, cs) ← readMembers (cs.length + 1) cs
    return (member :: members, cs)

/-- `json.loads`: the members of an object. -/
def loads (cs : List Char) : Option (List (List Char × List Char)) := do
  let (members, cs) ← readBody (← expect openBrace cs)
  if skipBlanks cs = [] then some members else none

/-! ### Plain strings -/

/-- A string of printable ASCII characters without quotes and backslashes. -/
def Plain (s : List Char) : Prop :=
  ∀ c ∈ s, 32 ≤ c.toNat ∧ c.toNat < 127 ∧ c.toNat ≠ 34 ∧ c.toNat ≠ 92

theorem plain_cons {c : Char} {s : List Char} : Plain (c :: s) ↔
    (32 ≤ c.toNat ∧ c.toNat < 127 ∧ c.toNat ≠ 34 ∧ c.toNat ≠ 92) ∧ Plain s :=
  List.forall_mem_cons

/-- A plain character is written as it is. -/
theorem writeChar_plain {c : Char}
    (plain : 32 ≤ c.toNat ∧ c.toNat < 127 ∧ c.toNat ≠ 34 ∧ c.toNat ≠ 92) : writeChar c = [c] := by
  obtain ⟨low, high, quote, backslash⟩ := plain
  have none : shortEscape c.toNat = none := by
    unfold shortEscape
    split <;> first | omega | rfl
  rw [writeChar, none]
  exact if_pos ⟨low, high⟩

theorem writeString_plain {s : List Char} (plain : Plain s) :
    writeString s = quote :: (s ++ [quote]) := by
  have same : s.flatMap writeChar = s := by
    induction s with
    | nil => rfl
    | cons c s ih =>
        obtain ⟨first, rest⟩ := plain_cons.mp plain
        rw [List.flatMap_cons, writeChar_plain first, ih rest]
        rfl
  rw [writeString, same]

/-- A plain string is read up to its closing quote. -/
theorem readString_plain {s : List Char} (plain : Plain s) (rest : List Char) :
    readString (s ++ quote :: rest) = some (s, rest) := by
  induction s with
  | nil =>
      rw [List.nil_append, readString.eq_def]
      exact if_pos rfl
  | cons c s ih =>
      obtain ⟨⟨low, high, notQuote, notBackslash⟩, others⟩ := plain_cons.mp plain
      have ne : ∀ d : Char, c.toNat ≠ d.toNat → c ≠ d := fun d ne eq => ne (by rw [eq])
      rw [List.cons_append, readString.eq_def]
      dsimp only
      rw [if_neg (ne quote notQuote), if_neg (ne backslash notBackslash), if_neg (by omega),
        ih others]
      rfl

theorem expect_self {c : Char} (token : isBlank c = false) (cs : List Char) :
    expect c (c :: cs) = some cs := by
  rw [expect, skipBlanks, List.dropWhile_cons_of_neg (by simp [token])]
  exact if_pos rfl

theorem expect_other {c d : Char} (token : isBlank d = false) (ne : d ≠ c) (cs : List Char) :
    expect c (d :: cs) = none := by
  rw [expect, skipBlanks, List.dropWhile_cons_of_neg (by simp [token])]
  exact if_neg ne

theorem expect_blank {c : Char} (cs : List Char) : expect c (blank :: cs) = expect c cs := by
  rw [expect, expect, skipBlanks, List.dropWhile_cons_of_pos (by decide)]
  rfl

/-- The members of plain strings. -/
def PlainMember (member : List Char × List Char) : Prop := Plain member.1 ∧ Plain member.2

theorem readMember_blank (cs : List Char) : readMember (blank :: cs) = readMember cs := by
  rw [readMember, expect_blank]
  rfl

theorem readMember_writeMember {member : List Char × List Char} (plain : PlainMember member)
    (rest : List Char) : readMember (writeMember member ++ rest) = some (member, rest) := by
  obtain ⟨key, value⟩ := member
  have text : writeMember (key, value) ++ rest =
      quote :: (key ++ quote :: colon :: blank :: quote :: (value ++ quote :: rest)) := by
    simp [writeMember, writeString_plain plain.1, writeString_plain plain.2]
  rw [text, readMember, expect_self (by decide)]
  simp only [Option.bind_eq_bind, Option.bind_some]
  rw [readString_plain plain.1]
  simp only [Option.bind_some]
  rw [expect_self (by decide)]
  simp only [Option.bind_some]
  rw [expect_blank, expect_self (by decide)]
  simp only [Option.bind_some]
  rw [readString_plain plain.2]
  rfl

theorem readMembers_writeMembers {members : List (List Char × List Char)}
    (plain : ∀ member ∈ members, PlainMember member) {fuel : ℕ} (enough : members.length < fuel) :
    readMembers fuel (writeMembers members ++ [closeBrace]) = some (members, []) := by
  induction members generalizing fuel with
  | nil =>
      obtain ⟨fuel, rfl⟩ := Nat.exists_eq_succ_of_ne_zero (Nat.ne_zero_of_lt enough)
      rfl
  | cons member members ih =>
      obtain ⟨fuel, rfl⟩ := Nat.exists_eq_succ_of_ne_zero (Nat.ne_zero_of_lt enough)
      have rest := ih (fun other mem => plain other (List.mem_cons_of_mem _ mem))
        (Nat.lt_of_succ_lt_succ enough)
      have text : writeMembers (member :: members) ++ [closeBrace] =
          comma :: blank :: (writeMember member ++ (writeMembers members ++ [closeBrace])) := by
        simp [writeMembers]
      rw [text, readMembers, expect_other (by decide) (by decide)]
      simp only [Option.bind_eq_bind]
      rw [expect_self (by decide)]
      simp only [Option.bind_some]
      rw [readMember_blank, readMember_writeMember (plain member List.mem_cons_self)]
      simp only [Option.bind_some]
      rw [rest]
      rfl

theorem length_le_writeMembers (members : List (List Char × List Char)) :
    members.length ≤ (writeMembers members).length := by
  induction members with
  | nil => simp
  | cons member members ih =>
      have text : writeMembers (member :: members) =
          comma :: blank :: (writeMember member ++ writeMembers members) := rfl
      rw [text]
      simp only [List.length_cons, List.length_append]
      omega

/-- **An object of plain strings is read back.** -/
theorem loads_dumps {member : List Char × List Char} {members : List (List Char × List Char)}
    (plain : ∀ m ∈ member :: members, PlainMember m) :
    loads (dumps (member :: members)) = some (member :: members) := by
  obtain ⟨first, others⟩ := List.forall_mem_cons.mp plain
  have notClosed : expect closeBrace
      (writeMember member ++ (writeMembers members ++ [closeBrace])) = none := by
    rw [writeMember, writeString_plain first.1]
    exact expect_other (by decide) (by decide) _
  have rest : readMembers ((writeMembers members ++ [closeBrace]).length + 1)
      (writeMembers members ++ [closeBrace]) = some (members, []) := by
    refine readMembers_writeMembers others ?_
    have := length_le_writeMembers members
    rw [List.length_append]
    omega
  have body : readBody (writeMember member ++ (writeMembers members ++ [closeBrace])) =
      some (member :: members, []) := by
    rw [readBody, notClosed]
    simp only [Option.bind_eq_bind]
    rw [readMember_writeMember first]
    simp only [Option.bind_some]
    rw [rest]
    rfl
  rw [loads, dumps, expect_self (by decide), List.append_assoc]
  simp only [Option.bind_eq_bind, Option.bind_some]
  rw [body]
  rfl

end Prism.Lib.Json
