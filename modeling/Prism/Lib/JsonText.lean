import Prism.Lib.Json

/-!
JSON texts of any value, as Python's `json` writes and reads them, and texts whose end is missing.

Numbers and literals are words, and a number is kept as its text. An object is the list of its
members. The reader of a value leaves what follows it; a reader that has come to the end of a
bracket, a brace or a string reads the same whatever else follows.

* `readString_writeString`: a string is read back.
* `loads_dumps`: a value is read back.
* `loads_torn`: the text of an object is not read as long as its end is missing.
-/

namespace Prism.Lib.JsonText

open Json (quote comma colon openBrace closeBrace blank backslash hexDigit escapeUnit shortEscape
  writeChar writeString hexValue unitValue shortValue readString isBlank skipBlanks expect
  expect_self expect_other expect_blank)

def openBracket : Char := '['
def closeBracket : Char := ']'

/-! ### Words -/

/-- The characters of numbers and literals. -/
def isWordChar (c : Char) : Bool := c.isAlphanum || c = '+' || c = '-' || c = '.'

def isDigits (cs : List Char) : Bool := !cs.isEmpty && cs.all Char.isDigit

/-- An integer, without zeros at its front. -/
def isInteger : List Char → Bool
  | '-' :: cs => isDigits cs && (cs.head? ≠ some '0' || cs = ['0'])
  | cs => isDigits cs && (cs.head? ≠ some '0' || cs = ['0'])

/-- The digits of an exponent, with a sign or without. -/
def isExponent : List Char → Bool
  | '+' :: cs => isDigits cs
  | '-' :: cs => isDigits cs
  | cs => isDigits cs

/-- A number: an integer, a fraction and an exponent. -/
def isNumber (cs : List Char) : Bool :=
  let (mantissa, exponent) := cs.span fun c => c ≠ 'e' && c ≠ 'E'
  let (integer, fraction) := mantissa.span (· ≠ '.')
  isInteger integer && (fraction.isEmpty || isDigits fraction.tail) &&
    (exponent.isEmpty || isExponent exponent.tail)

/-- What is written without quotes and brackets. -/
def literals : List (List Char) :=
  ["null", "true", "false", "NaN", "Infinity", "-Infinity"].map String.toList

def isWord (cs : List Char) : Bool :=
  cs.all isWordChar && (literals.contains cs || isNumber cs)

/-- A number or a literal. -/
structure Word where
  text : List Char
  valid : isWord text = true

/-! ### Values -/

mutual

/-- A value. -/
inductive Value where
  | word (word : Word)
  | string (s : List Char)
  | array (items : Items)
  | object (members : Members)

inductive Items where
  | nil
  | cons (item : Value) (items : Items)

inductive Members where
  | nil
  | cons (key : List Char) (value : Value) (members : Members)

end

mutual

/-- The text of a value. -/
def Value.write : Value → List Char
  | .word word => word.text
  | .string s => writeString s
  | .array .nil => [openBracket, closeBracket]
  | .array (.cons item items) => openBracket :: (item.write ++ items.write)
  | .object .nil => [openBrace, closeBrace]
  | .object (.cons key value members) =>
    openBrace :: (writeString key ++ colon :: blank :: (value.write ++ members.write))

/-- The items from the second on. -/
def Items.write : Items → List Char
  | .nil => [closeBracket]
  | .cons item items => comma :: blank :: (item.write ++ items.write)

/-- The members from the second on. -/
def Members.write : Members → List Char
  | .nil => [closeBrace]
  | .cons key value members =>
    comma :: blank :: (writeString key ++ colon :: blank :: (value.write ++ members.write))

end

/-- `json.dumps`. -/
def dumps (value : Value) : List Char := value.write

/-- A word, and what follows it. -/
def readWord (cs : List Char) : Option (Value × List Char) :=
  if valid : isWord (cs.takeWhile isWordChar) = true then
    some (.word ⟨cs.takeWhile isWordChar, valid⟩, cs.dropWhile isWordChar)
  else none

/-- The key of a member, and what follows its colon. -/
def readKey (cs : List Char) : Option (List Char × List Char) := do
  let (key, cs) ← readString (← expect quote cs)
  return (key, ← expect colon cs)

mutual

/-- A value, and what follows it. -/
def readValue : ℕ → List Char → Option (Value × List Char)
  | 0, _ => none
  | fuel + 1, cs =>
    match skipBlanks cs with
    | [] => none
    | c :: cs =>
      if c = quote then do
        let (s, cs) ← readString cs
        return (.string s, cs)
      else if c = openBracket then
        match expect closeBracket cs with
        | some cs => some (.array .nil, cs)
        | none => do
          let (item, cs) ← readValue fuel cs
          let (items, cs) ← readItems fuel cs
          return (.array (.cons item items), cs)
      else if c = openBrace then
        match expect closeBrace cs with
        | some cs => some (.object .nil, cs)
        | none => do
          let (key, cs) ← readKey cs
          let (value, cs) ← readValue fuel cs
          let (members, cs) ← readMembers fuel cs
          return (.object (.cons key value members), cs)
      else readWord (c :: cs)

/-- The items from the second on, up to the closing bracket. -/
def readItems : ℕ → List Char → Option (Items × List Char)
  | 0, _ => none
  | fuel + 1, cs =>
    match expect closeBracket cs with
    | some cs => some (.nil, cs)
    | none => do
      let (item, cs) ← readValue fuel (← expect comma cs)
      let (items, cs) ← readItems fuel cs
      return (.cons item items, cs)

/-- The members from the second on, up to the closing brace. -/
def readMembers : ℕ → List Char → Option (Members × List Char)
  | 0, _ => none
  | fuel + 1, cs =>
    match expect closeBrace cs with
    | some cs => some (.nil, cs)
    | none => do
      let (key, cs) ← readKey (← expect comma cs)
      let (value, cs) ← readValue fuel cs
      let (members, cs) ← readMembers fuel cs
      return (.cons key value members, cs)

end

/-- `json.loads`. -/
def loads (cs : List Char) : Option Value := do
  let (value, cs) ← readValue (cs.length + 1) cs
  if skipBlanks cs = [] then some value else none

/-! ### Strings -/

theorem readString_plain {c : Char} (notQuote : c ≠ quote) (notBackslash : c ≠ backslash)
    (printed : ¬ c.toNat < 32) (cs : List Char) :
    readString (c :: cs) = (readString cs).map fun (s, rest) => (c :: s, rest) := by
  rw [Json.readString.eq_def]
  dsimp only
  rw [if_neg notQuote, if_neg notBackslash, if_neg printed]
  cases readString cs <;> rfl

theorem readString_short {e c : Char} (short : shortValue e.toNat = some c) (cs : List Char) :
    readString (backslash :: e :: cs) = (readString cs).map fun (s, rest) => (c :: s, rest) := by
  have notU : e ≠ 'u' := by
    rintro rfl
    have none : shortValue 'u'.toNat = none := rfl
    rw [none] at short
    cases short
  rw [Json.readString.eq_def]
  dsimp only
  rw [if_neg (by decide), if_pos rfl]
  split
  · rename_i same
    cases same
    exact absurd rfl notU
  · rename_i same
    cases same
    rw [short]
    cases readString cs <;> rfl
  · rename_i same
    cases same

/-- An escaped unit is a character of its own, or the first half of a pair. -/
theorem readString_u (a b c d : Char) (cs : List Char) :
    readString (backslash :: 'u' :: a :: b :: c :: d :: cs) =
      (unitValue a b c d).bind fun high =>
        if 0xd800 ≤ high ∧ high < 0xdc00 then
          match cs with
          | _ :: 'u' :: a :: b :: c :: d :: cs => do
            let low ← unitValue a b c d
            let (s, rest) ← readString cs
            return (Char.ofNat (0x10000 + (high - 0xd800) * 1024 + (low - 0xdc00)) :: s, rest)
          | _ => none
        else do
          let (s, rest) ← readString cs
          return (Char.ofNat high :: s, rest) := by
  rw [Json.readString.eq_def]
  dsimp only
  rw [if_neg (by decide), if_pos rfl]
  split
  · rename_i same
    cases same
    cases unitValue a b c d <;> rfl
  · rename_i none same
    cases same
    exact (none _ _ _ _ _ rfl rfl).elim
  · rename_i same
    cases same

theorem readString_unit {a b c d : Char} {high : ℕ} (unit : unitValue a b c d = some high)
    (single : ¬ (0xd800 ≤ high ∧ high < 0xdc00)) (cs : List Char) :
    readString (backslash :: 'u' :: a :: b :: c :: d :: cs) =
      (readString cs).map fun (s, rest) => (Char.ofNat high :: s, rest) := by
  rw [readString_u, unit, Option.bind_some, if_neg single]
  cases readString cs <;> rfl

theorem readString_pair {a b c d a' b' c' d' : Char} {high : ℕ}
    (unit : unitValue a b c d = some high) (paired : 0xd800 ≤ high ∧ high < 0xdc00)
    (e : Char) (cs : List Char) :
    readString (backslash :: 'u' :: a :: b :: c :: d :: e :: 'u' :: a' :: b' :: c' :: d' :: cs) =
      (unitValue a' b' c' d').bind fun low => (readString cs).map fun (s, rest) =>
        (Char.ofNat (0x10000 + (high - 0xd800) * 1024 + (low - 0xdc00)) :: s, rest) := by
  rw [readString_u, unit, Option.bind_some, if_pos paired]
  split
  · rename_i same
    cases same
    cases unitValue a' b' c' d' with
    | none => rfl
    | some low => cases readString cs <;> rfl
  · rename_i others
    exact (others _ _ _ _ _ _ rfl).elim

/-- **Reading a string stops at its quote**, whatever follows. -/
theorem readString_append {cs s rest : List Char} (read : readString cs = some (s, rest))
    (t : List Char) : readString (cs ++ t) = some (s, rest ++ t) := by
  induction cs using Json.readString.induct generalizing s rest with
  | case1 => cases read
  | case2 cs =>
      rw [Json.readString.eq_def] at read
      dsimp only at read
      rw [if_pos rfl] at read
      cases read
      rw [List.cons_append, Json.readString.eq_def]
      exact if_pos rfl
  | case3 a b c d cs unit =>
      rw [readString_u, unit] at read
      cases read
  | case4 a b c d high unit paired e a' b' c' d' cs _ ih =>
      rw [readString_pair unit paired] at read
      obtain ⟨low, low', read⟩ := Option.bind_eq_some_iff.mp read
      obtain ⟨⟨s', rest'⟩, read', same⟩ := Option.map_eq_some_iff.mp read
      cases same
      simp only [List.cons_append]
      rw [readString_pair unit paired, low', Option.bind_some, ih read']
      rfl
  | case5 a b c d cs high unit paired alone =>
      rw [readString_u, unit, Option.bind_some, if_pos paired] at read
      split at read
      · exact (alone _ _ _ _ _ _ rfl).elim
      · cases read
  | case6 a b c d cs high unit single _ ih =>
      rw [readString_unit unit single] at read
      obtain ⟨⟨s', rest'⟩, read', same⟩ := Option.map_eq_some_iff.mp read
      cases same
      simp only [List.cons_append]
      rw [readString_unit unit single, ih read']
      rfl
  | case7 e cs others ne ih =>
      cases short : shortValue e.toNat with
      | none =>
          rw [Json.readString.eq_def] at read
          dsimp only at read
          rw [if_neg ne, if_pos rfl] at read
          split at read
          · rename_i same
            cases same
            exact (others _ _ _ _ _ rfl rfl).elim
          · rename_i same
            cases same
            rw [short] at read
            cases read
          · cases read
      | some c =>
          rw [readString_short short] at read
          obtain ⟨⟨s', rest'⟩, read', same⟩ := Option.map_eq_some_iff.mp read
          cases same
          simp only [List.cons_append]
          rw [readString_short short, ih read']
          rfl
  | case8 ne =>
      rw [Json.readString.eq_def] at read
      dsimp only at read
      rw [if_neg ne, if_pos rfl] at read
      cases read
  | case9 c cs notQuote notBackslash control =>
      rw [Json.readString.eq_def] at read
      dsimp only at read
      rw [if_neg notQuote, if_neg notBackslash, if_pos control] at read
      cases read
  | case10 c cs notQuote notBackslash printed ih =>
      rw [readString_plain notQuote notBackslash printed] at read
      obtain ⟨⟨s', rest'⟩, read', same⟩ := Option.map_eq_some_iff.mp read
      cases same
      rw [List.cons_append, readString_plain notQuote notBackslash printed, ih read']
      rfl

theorem hexValue_hexDigit : ∀ n < 16, hexValue (hexDigit n) = some n := by decide

theorem unitValue_escape {n : ℕ} (lt : n < 0x10000) :
    unitValue (hexDigit (n / 4096 % 16)) (hexDigit (n / 256 % 16)) (hexDigit (n / 16 % 16))
      (hexDigit (n % 16)) = some n := by
  have digit : ∀ m, hexValue (hexDigit (m % 16)) = some (m % 16) := fun m =>
    hexValue_hexDigit _ (Nat.mod_lt _ (by decide))
  rw [unitValue, digit, digit, digit, digit]
  refine congrArg some ?_
  omega

/-- A character is read back. -/
theorem readString_writeChar (c : Char) (cs : List Char) :
    readString (writeChar c ++ cs) = (readString cs).map fun (s, rest) => (c :: s, rest) := by
  have toNat : Char.ofNat c.toNat = c := Char.ofNat_toNat c
  have valid : c.toNat < 0xd800 ∨ 0xdfff < c.toNat ∧ c.toNat < 0x110000 := c.valid
  have short : ∀ e, shortEscape c.toNat = some e → shortValue e.toNat = some c := by
    intro e short
    rw [← toNat]
    generalize c.toNat = n at short
    unfold shortEscape at short
    split at short <;> cases short <;> rfl
  rw [writeChar]
  cases escaped : shortEscape c.toNat with
  | some e => exact readString_short (short e escaped) cs
  | none =>
      dsimp only
      split_ifs with plain unit
      · refine readString_plain ?_ ?_ (by omega) cs
        · rintro rfl
          cases escaped
        · rintro rfl
          cases escaped
      · rw [escapeUnit]
        refine (readString_unit (unitValue_escape unit) (by omega) cs).trans ?_
        rw [toNat]
      · rw [escapeUnit, escapeUnit]
        refine (readString_pair (unitValue_escape (by omega)) (by omega) _ cs).trans ?_
        rw [unitValue_escape (by omega), Option.bind_some]
        have whole : 0x10000 + (0xd800 + (c.toNat - 0x10000) / 1024 - 0xd800) * 1024 +
            (0xdc00 + (c.toNat - 0x10000) % 1024 - 0xdc00) = c.toNat := by omega
        rw [whole, toNat]

/-- **A string is read back.** -/
theorem readString_writeString (s rest : List Char) :
    readString (s.flatMap writeChar ++ quote :: rest) = some (s, rest) := by
  induction s with
  | nil =>
      rw [List.flatMap_nil, List.nil_append, Json.readString.eq_def]
      exact if_pos rfl
  | cons c s ih =>
      rw [List.flatMap_cons, List.append_assoc, readString_writeChar, ih]
      rfl

/-! ### Reading on -/

theorem skipBlanks_append {cs cs' : List Char} {c : Char} (skipped : skipBlanks cs = c :: cs')
    (t : List Char) : skipBlanks (cs ++ t) = c :: (cs' ++ t) := by
  induction cs with
  | nil => cases skipped
  | cons d cs ih =>
      rw [skipBlanks] at skipped ⊢
      cases blank : isBlank d with
      | false =>
          rw [List.dropWhile_cons_of_neg (by simp [blank])] at skipped
          rw [List.cons_append, List.dropWhile_cons_of_neg (by simp [blank])]
          cases skipped
          rfl
      | true =>
          rw [List.dropWhile_cons_of_pos blank] at skipped
          rw [List.cons_append, List.dropWhile_cons_of_pos blank]
          exact ih skipped

theorem expect_eq_some {c : Char} {cs rest : List Char} (found : expect c cs = some rest) :
    skipBlanks cs = c :: rest := by
  rw [expect] at found
  split at found
  · rename_i d cs' skipped
    split_ifs at found with same
    cases found
    rw [skipped, same]
  · cases found

theorem expect_append {c : Char} {cs rest : List Char} (found : expect c cs = some rest)
    (t : List Char) : expect c (cs ++ t) = some (rest ++ t) := by
  rw [expect, skipBlanks_append (expect_eq_some found)]
  exact if_pos rfl

theorem expect_none_append {c : Char} {cs : List Char} (missing : expect c cs = none)
    (more : skipBlanks cs ≠ []) (t : List Char) : expect c (cs ++ t) = none := by
  obtain ⟨d, cs', skipped⟩ := List.exists_cons_of_ne_nil more
  rw [expect, skipped] at missing
  rw [expect, skipBlanks_append skipped]
  dsimp only at missing ⊢
  split_ifs at missing with same
  exact if_neg same

theorem readKey_append {cs key rest : List Char} (read : readKey cs = some (key, rest))
    (t : List Char) : readKey (cs ++ t) = some (key, rest ++ t) := by
  obtain ⟨cs', opened, read⟩ := Option.bind_eq_some_iff.mp read
  obtain ⟨⟨key', cs''⟩, string, read⟩ := Option.bind_eq_some_iff.mp read
  obtain ⟨rest', separated, read⟩ := Option.bind_eq_some_iff.mp read
  cases read
  rw [readKey, expect_append opened]
  simp only [Option.bind_eq_bind, Option.bind_some]
  rw [readString_append string]
  simp only [Option.bind_some]
  rw [expect_append separated]
  rfl

/-- A word is read the same, unless it may go on. -/
theorem readWord_append {cs rest : List Char} {value : Value}
    (read : readWord cs = some (value, rest)) (ended : rest ≠ []) (t : List Char) :
    readWord (cs ++ t) = some (value, rest ++ t) := by
  unfold readWord at read
  split_ifs at read with valid
  cases read
  have shorter : (cs.takeWhile isWordChar).length ≠ cs.length := fun whole => by
    have length := congrArg List.length
      (List.takeWhile_append_dropWhile (p := isWordChar) (l := cs))
    rw [List.length_append, whole] at length
    exact ended (List.eq_nil_of_length_eq_zero (by omega))
  have same : (cs ++ t).takeWhile isWordChar = cs.takeWhile isWordChar := by
    rw [List.takeWhile_append, if_neg shorter]
  have rest : (cs ++ t).dropWhile isWordChar = cs.dropWhile isWordChar ++ t := by
    rw [List.dropWhile_append, if_neg (by simpa using ended)]
  unfold readWord
  simp only [same, rest, valid, dite_true]

/-- A value whose text shows its end. -/
def Value.Closed : Value → Prop
  | .word _ => False
  | _ => True

theorem readValue_nonempty {fuel : ℕ} {cs : List Char} {read : Value × List Char}
    (run : readValue fuel cs = some read) : skipBlanks cs ≠ [] := by
  intro empty
  cases fuel with
  | zero => cases run
  | succ fuel =>
      rw [readValue, empty] at run
      cases run

theorem readItems_nonempty {fuel : ℕ} {cs : List Char} {read : Items × List Char}
    (run : readItems fuel cs = some read) : cs ≠ [] := by
  rintro rfl
  cases fuel with
  | zero => cases run
  | succ fuel =>
      rw [readItems] at run
      cases run

theorem readMembers_nonempty {fuel : ℕ} {cs : List Char} {read : Members × List Char}
    (run : readMembers fuel cs = some read) : cs ≠ [] := by
  rintro rfl
  cases fuel with
  | zero => cases run
  | succ fuel =>
      rw [readMembers] at run
      cases run

/-- Readers with so much fuel read the same whatever else follows, with any more fuel. -/
structure ReadsOn (fuel : ℕ) : Prop where
  value : ∀ {cs value rest}, readValue fuel cs = some (value, rest) →
    value.Closed ∨ rest ≠ [] → ∀ fuel' ≥ fuel, ∀ t,
      readValue fuel' (cs ++ t) = some (value, rest ++ t)
  items : ∀ {cs items rest}, readItems fuel cs = some (items, rest) →
    ∀ fuel' ≥ fuel, ∀ t, readItems fuel' (cs ++ t) = some (items, rest ++ t)
  members : ∀ {cs members rest}, readMembers fuel cs = some (members, rest) →
    ∀ fuel' ≥ fuel, ∀ t, readMembers fuel' (cs ++ t) = some (members, rest ++ t)

theorem ReadsOn.items_succ {fuel : ℕ} (on : ReadsOn fuel) {cs rest : List Char} {items : Items}
    (read : readItems (fuel + 1) cs = some (items, rest)) (fuel' : ℕ) (more : fuel' ≥ fuel)
    (t : List Char) : readItems (fuel' + 1) (cs ++ t) = some (items, rest ++ t) := by
  rw [readItems] at read ⊢
  cases closed : expect closeBracket cs with
  | some after =>
      rw [closed] at read
      cases read
      rw [expect_append closed]
  | none =>
      rw [closed] at read
      obtain ⟨cs', separated, read⟩ := Option.bind_eq_some_iff.mp read
      obtain ⟨⟨item, cs''⟩, first, read⟩ := Option.bind_eq_some_iff.mp read
      obtain ⟨⟨items', rest'⟩, others, read⟩ := Option.bind_eq_some_iff.mp read
      cases read
      have nonblank : skipBlanks cs ≠ [] := by
        rw [expect_eq_some separated]
        exact List.cons_ne_nil _ _
      rw [expect_none_append closed nonblank]
      simp only [Option.bind_eq_bind]
      rw [expect_append separated]
      simp only [Option.bind_some]
      rw [on.value first (.inr (readItems_nonempty others)) fuel' more]
      simp only [Option.bind_some]
      rw [on.items others fuel' more]
      rfl

theorem ReadsOn.members_succ {fuel : ℕ} (on : ReadsOn fuel) {cs rest : List Char}
    {members : Members} (read : readMembers (fuel + 1) cs = some (members, rest)) (fuel' : ℕ)
    (more : fuel' ≥ fuel) (t : List Char) :
    readMembers (fuel' + 1) (cs ++ t) = some (members, rest ++ t) := by
  rw [readMembers] at read ⊢
  cases closed : expect closeBrace cs with
  | some after =>
      rw [closed] at read
      cases read
      rw [expect_append closed]
  | none =>
      rw [closed] at read
      obtain ⟨cs', separated, read⟩ := Option.bind_eq_some_iff.mp read
      obtain ⟨⟨key, cs''⟩, keyed, read⟩ := Option.bind_eq_some_iff.mp read
      obtain ⟨⟨value, cs₃⟩, first, read⟩ := Option.bind_eq_some_iff.mp read
      obtain ⟨⟨members', rest'⟩, others, read⟩ := Option.bind_eq_some_iff.mp read
      cases read
      have nonblank : skipBlanks cs ≠ [] := by
        rw [expect_eq_some separated]
        exact List.cons_ne_nil _ _
      rw [expect_none_append closed nonblank]
      simp only [Option.bind_eq_bind]
      rw [expect_append separated]
      simp only [Option.bind_some]
      rw [readKey_append keyed]
      simp only [Option.bind_some]
      rw [on.value first (.inr (readMembers_nonempty others)) fuel' more]
      simp only [Option.bind_some]
      rw [on.members others fuel' more]
      rfl

theorem readKey_nonempty {cs : List Char} {read : List Char × List Char}
    (run : readKey cs = some read) : skipBlanks cs ≠ [] := by
  obtain ⟨cs', opened, -⟩ := Option.bind_eq_some_iff.mp run
  rw [expect_eq_some opened]
  exact List.cons_ne_nil _ _

theorem ReadsOn.value_succ {fuel : ℕ} (on : ReadsOn fuel) {cs rest : List Char} {value : Value}
    (read : readValue (fuel + 1) cs = some (value, rest)) (ended : value.Closed ∨ rest ≠ [])
    (fuel' : ℕ) (more : fuel' ≥ fuel) (t : List Char) :
    readValue (fuel' + 1) (cs ++ t) = some (value, rest ++ t) := by
  obtain ⟨c, cs', skipped⟩ := List.exists_cons_of_ne_nil (readValue_nonempty read)
  rw [readValue, skipped] at read
  rw [readValue, skipBlanks_append skipped]
  dsimp only at read ⊢
  split_ifs at read ⊢ with quoted bracket brace
  · obtain ⟨⟨s, cs''⟩, string, read⟩ := Option.bind_eq_some_iff.mp read
    cases read
    rw [readString_append string]
    rfl
  · cases closed : expect closeBracket cs' with
    | some after =>
        rw [closed] at read
        cases read
        rw [expect_append closed]
    | none =>
        rw [closed] at read
        obtain ⟨⟨item, cs''⟩, first, read⟩ := Option.bind_eq_some_iff.mp read
        obtain ⟨⟨items, rest'⟩, others, read⟩ := Option.bind_eq_some_iff.mp read
        cases read
        rw [expect_none_append closed (readValue_nonempty first)]
        simp only [Option.bind_eq_bind]
        rw [on.value first (.inr (readItems_nonempty others)) fuel' more]
        simp only [Option.bind_some]
        rw [on.items others fuel' more]
        rfl
  · cases closed : expect closeBrace cs' with
    | some after =>
        rw [closed] at read
        cases read
        rw [expect_append closed]
    | none =>
        rw [closed] at read
        obtain ⟨⟨key, cs''⟩, keyed, read⟩ := Option.bind_eq_some_iff.mp read
        obtain ⟨⟨value, cs₃⟩, first, read⟩ := Option.bind_eq_some_iff.mp read
        obtain ⟨⟨members, rest'⟩, others, read⟩ := Option.bind_eq_some_iff.mp read
        cases read
        rw [expect_none_append closed (readKey_nonempty keyed)]
        simp only [Option.bind_eq_bind]
        rw [readKey_append keyed]
        simp only [Option.bind_some]
        rw [on.value first (.inr (readMembers_nonempty others)) fuel' more]
        simp only [Option.bind_some]
        rw [on.members others fuel' more]
        rfl
  · have open' : rest ≠ [] := by
      refine ended.resolve_left ?_
      unfold readWord at read
      split_ifs at read
      cases read
      exact id
    exact readWord_append read open' t

theorem readsOn (fuel : ℕ) : ReadsOn fuel := by
  induction fuel with
  | zero =>
      constructor
      · rintro cs value rest read
        cases read
      · rintro cs items rest read
        cases read
      · rintro cs members rest read
        cases read
  | succ fuel on =>
      constructor
      · intro cs value rest read ended fuel' more t
        obtain ⟨fuel', rfl⟩ := Nat.exists_eq_add_of_le' (Nat.one_le_of_lt more)
        exact on.value_succ read ended fuel' (Nat.le_of_succ_le_succ more) t
      · intro cs items rest read fuel' more t
        obtain ⟨fuel', rfl⟩ := Nat.exists_eq_add_of_le' (Nat.one_le_of_lt more)
        exact on.items_succ read fuel' (Nat.le_of_succ_le_succ more) t
      · intro cs members rest read fuel' more t
        obtain ⟨fuel', rfl⟩ := Nat.exists_eq_add_of_le' (Nat.one_le_of_lt more)
        exact on.members_succ read fuel' (Nat.le_of_succ_le_succ more) t

/-! ### Reading back -/

/-- What follows does not go on with a word. -/
def Ends (rest : List Char) : Prop := ∀ c ∈ rest.head?, isWordChar c = false

theorem skipBlanks_token {c : Char} (token : isBlank c = false) (cs : List Char) :
    skipBlanks (c :: cs) = c :: cs := by
  rw [skipBlanks, List.dropWhile_cons_of_neg (by simp [token])]

theorem Word.ne_nil (word : Word) : word.text ≠ [] := by
  intro empty
  have valid := word.valid
  rw [empty] at valid
  exact absurd valid (by decide)

theorem Word.isWordChar_of_mem (word : Word) {c : Char} (mem : c ∈ word.text) :
    isWordChar c = true := by
  have valid := word.valid
  rw [isWord, Bool.and_eq_true, List.all_eq_true] at valid
  exact valid.1 c mem

theorem readWord_text (word : Word) {rest : List Char} (ends : Ends rest) :
    readWord (word.text ++ rest) = some (.word word, rest) := by
  have none : rest.takeWhile isWordChar = [] ∧ rest.dropWhile isWordChar = rest := by
    cases rest with
    | nil => exact ⟨rfl, rfl⟩
    | cons c rest =>
        have other := ends c rfl
        rw [List.takeWhile_cons_of_neg (by simp [other]),
          List.dropWhile_cons_of_neg (by simp [other])]
        exact ⟨rfl, rfl⟩
  have taken : (word.text ++ rest).takeWhile isWordChar = word.text := by
    rw [List.takeWhile_append_of_pos fun c mem => word.isWordChar_of_mem mem, none.1,
      List.append_nil]
  have dropped : (word.text ++ rest).dropWhile isWordChar = rest := by
    rw [List.dropWhile_append_of_pos fun c mem => word.isWordChar_of_mem mem, none.2]
  unfold readWord
  simp only [taken, dropped, word.valid, dite_true]

theorem isBlank_of_isWordChar {c : Char} (char : isWordChar c = true) : isBlank c = false := by
  by_contra blank
  rw [Bool.not_eq_false] at blank
  have cases : c.toNat = 32 ∨ c.toNat = 9 ∨ c.toNat = 10 ∨ c.toNat = 13 := by
    simpa [isBlank, or_assoc] using blank
  have same : Char.ofNat c.toNat = c := Char.ofNat_toNat c
  rcases cases with code | code | code | code <;>
    · rw [code] at same
      rw [← same] at char
      exact absurd char (by decide)

theorem ends_items (items : Items) (rest : List Char) : Ends (items.write ++ rest) := by
  rintro c head
  cases items with
  | nil =>
      cases head
      decide
  | cons item items =>
      cases head
      decide

theorem ends_members (members : Members) (rest : List Char) : Ends (members.write ++ rest) := by
  rintro c head
  cases members with
  | nil =>
      cases head
      decide
  | cons key value members =>
      cases head
      decide

theorem readKey_write (key rest : List Char) :
    readKey (writeString key ++ colon :: rest) = some (key, rest) := by
  have text : writeString key ++ colon :: rest =
      quote :: (key.flatMap writeChar ++ quote :: colon :: rest) := by
    simp [writeString]
  rw [text, readKey, expect_self (by decide)]
  simp only [Option.bind_eq_bind, Option.bind_some]
  rw [readString_writeString]
  simp only [Option.bind_some]
  rw [expect_self (by decide)]
  rfl

theorem readKey_blank (cs : List Char) : readKey (blank :: cs) = readKey cs := by
  rw [readKey, expect_blank]
  rfl

theorem readValue_blank (fuel : ℕ) (cs : List Char) :
    readValue fuel (blank :: cs) = readValue fuel cs := by
  cases fuel with
  | zero => rfl
  | succ fuel =>
      have skipped : skipBlanks (blank :: cs) = skipBlanks cs :=
        List.dropWhile_cons_of_pos (by decide)
      rw [readValue, readValue, skipped]

/-- A value's text does not begin with a closing bracket. -/
theorem expect_write (value : Value) (rest : List Char) :
    expect closeBracket (value.write ++ rest) = none := by
  match value with
  | .word word =>
      obtain ⟨c, cs, text⟩ := List.exists_cons_of_ne_nil word.ne_nil
      have char : isWordChar c = true := word.isWordChar_of_mem (text ▸ List.mem_cons_self)
      rw [Value.write, text, List.cons_append]
      refine expect_other (isBlank_of_isWordChar char) ?_ _
      rintro rfl
      exact absurd char (by decide)
  | .string s => exact expect_other (by decide) (by decide) _
  | .array .nil => exact expect_other (by decide) (by decide) _
  | .array (.cons item items) => exact expect_other (by decide) (by decide) _
  | .object .nil => exact expect_other (by decide) (by decide) _
  | .object (.cons key value members) => exact expect_other (by decide) (by decide) _

mutual

/-- **A value is read back**, and what follows it is left. -/
theorem readValue_write (value : Value) (fuel : ℕ) (rest : List Char)
    (enough : value.write.length ≤ fuel) (ends : Ends rest) :
    readValue fuel (value.write ++ rest) = some (value, rest) := by
  match value with
  | .word word =>
      obtain ⟨c, cs, text⟩ := List.exists_cons_of_ne_nil word.ne_nil
      have char : isWordChar c = true := word.isWordChar_of_mem (text ▸ List.mem_cons_self)
      have ne : ∀ d, isWordChar d = false → c ≠ d := by
        rintro d other rfl
        rw [char] at other
        cases other
      rw [Value.write] at enough ⊢
      obtain ⟨fuel, rfl⟩ : ∃ more, fuel = more + 1 := by
        rw [text, List.length_cons] at enough
        exact Nat.exists_eq_add_of_le' (by omega)
      have read := readWord_text word ends
      rw [text, List.cons_append] at read ⊢
      rw [readValue, skipBlanks_token (isBlank_of_isWordChar char)]
      dsimp only
      rw [if_neg (ne _ (by decide)), if_neg (ne _ (by decide)), if_neg (ne _ (by decide)), read]
  | .string s =>
      have length : (Value.string s).write ++ rest =
          quote :: (s.flatMap writeChar ++ quote :: rest) := by
        simp [Value.write, writeString]
      obtain ⟨fuel, rfl⟩ : ∃ more, fuel = more + 1 := by
        simp only [Value.write, writeString, List.length_cons] at enough
        exact Nat.exists_eq_add_of_le' (by omega)
      rw [length, readValue, skipBlanks_token (by decide)]
      dsimp only
      rw [if_pos rfl, readString_writeString]
      rfl
  | .array .nil =>
      obtain ⟨fuel, rfl⟩ : ∃ more, fuel = more + 1 := by
        simp only [Value.write, List.length_cons] at enough
        exact Nat.exists_eq_add_of_le' (by omega)
      rfl
  | .array (.cons item items) =>
      simp only [Value.write, List.length_cons, List.length_append] at enough
      obtain ⟨fuel, rfl⟩ : ∃ more, fuel = more + 1 := Nat.exists_eq_add_of_le' (by omega)
      have first := readValue_write item fuel _ (by omega) (ends_items items rest)
      have others := readItems_write items fuel rest (by omega)
      rw [Value.write, List.cons_append, List.append_assoc, readValue,
        skipBlanks_token (by decide)]
      dsimp only
      rw [if_neg (by decide), if_pos rfl, expect_write]
      simp only [Option.bind_eq_bind]
      rw [first]
      simp only [Option.bind_some]
      rw [others]
      rfl
  | .object .nil =>
      obtain ⟨fuel, rfl⟩ : ∃ more, fuel = more + 1 := by
        simp only [Value.write, List.length_cons] at enough
        exact Nat.exists_eq_add_of_le' (by omega)
      rfl
  | .object (.cons key value members) =>
      simp only [Value.write, List.length_cons, List.length_append] at enough
      obtain ⟨fuel, rfl⟩ : ∃ more, fuel = more + 1 := Nat.exists_eq_add_of_le' (by omega)
      have first := readValue_write value fuel _ (by omega) (ends_members members rest)
      have others := readMembers_write members fuel rest (by omega)
      have text : (Value.object (.cons key value members)).write ++ rest =
          openBrace :: (writeString key ++
            colon :: blank :: (value.write ++ (members.write ++ rest))) := by
        simp [Value.write]
      have notClosed : expect closeBrace (writeString key ++
          colon :: blank :: (value.write ++ (members.write ++ rest))) = none := by
        rw [writeString]
        exact expect_other (by decide) (by decide) _
      rw [text, readValue, skipBlanks_token (by decide)]
      dsimp only
      rw [if_neg (by decide), if_neg (by decide), if_pos rfl, notClosed]
      simp only [Option.bind_eq_bind]
      rw [readKey_write]
      simp only [Option.bind_some]
      rw [readValue_blank, first]
      simp only [Option.bind_some]
      rw [others]
      rfl

theorem readItems_write (items : Items) (fuel : ℕ) (rest : List Char)
    (enough : items.write.length ≤ fuel) :
    readItems fuel (items.write ++ rest) = some (items, rest) := by
  match items with
  | .nil =>
      obtain ⟨fuel, rfl⟩ : ∃ more, fuel = more + 1 := by
        simp only [Items.write, List.length_cons] at enough
        exact Nat.exists_eq_add_of_le' (by omega)
      rfl
  | .cons item items =>
      simp only [Items.write, List.length_cons, List.length_append] at enough
      obtain ⟨fuel, rfl⟩ : ∃ more, fuel = more + 1 := Nat.exists_eq_add_of_le' (by omega)
      have first := readValue_write item fuel _ (by omega) (ends_items items rest)
      have others := readItems_write items fuel rest (by omega)
      have text : (Items.cons item items).write ++ rest =
          comma :: blank :: (item.write ++ (items.write ++ rest)) := by
        simp [Items.write]
      rw [text, readItems, expect_other (by decide) (by decide)]
      simp only [Option.bind_eq_bind]
      rw [expect_self (by decide)]
      simp only [Option.bind_some]
      rw [readValue_blank, first]
      simp only [Option.bind_some]
      rw [others]
      rfl

theorem readMembers_write (members : Members) (fuel : ℕ) (rest : List Char)
    (enough : members.write.length ≤ fuel) :
    readMembers fuel (members.write ++ rest) = some (members, rest) := by
  match members with
  | .nil =>
      obtain ⟨fuel, rfl⟩ : ∃ more, fuel = more + 1 := by
        simp only [Members.write, List.length_cons] at enough
        exact Nat.exists_eq_add_of_le' (by omega)
      rfl
  | .cons key value members =>
      simp only [Members.write, List.length_cons, List.length_append] at enough
      obtain ⟨fuel, rfl⟩ : ∃ more, fuel = more + 1 := Nat.exists_eq_add_of_le' (by omega)
      have first := readValue_write value fuel _ (by omega) (ends_members members rest)
      have others := readMembers_write members fuel rest (by omega)
      have text : (Members.cons key value members).write ++ rest =
          comma :: blank :: (writeString key ++
            colon :: blank :: (value.write ++ (members.write ++ rest))) := by
        simp [Members.write]
      rw [text, readMembers, expect_other (by decide) (by decide)]
      simp only [Option.bind_eq_bind]
      rw [expect_self (by decide)]
      simp only [Option.bind_some]
      rw [readKey_blank, readKey_write]
      simp only [Option.bind_some]
      rw [readValue_blank, first]
      simp only [Option.bind_some]
      rw [others]
      rfl

end

/-- **What is written is read.** -/
theorem loads_dumps (value : Value) : loads (dumps value) = some value := by
  have read := readValue_write value (value.write.length + 1) [] (by omega)
    (fun _ mem => nomatch mem)
  rw [List.append_nil] at read
  rw [loads, dumps, read]
  rfl

theorem exists_write_object (members : Members) :
    ∃ cs, (Value.object members).write = openBrace :: cs := by
  cases members with
  | nil => exact ⟨_, rfl⟩
  | cons key value members => exact ⟨_, rfl⟩

/-- What begins with a brace is read as an object. -/
theorem closed_of_readValue {fuel : ℕ} {cs rest : List Char} {value : Value}
    (read : readValue fuel (openBrace :: cs) = some (value, rest)) : value.Closed := by
  cases fuel with
  | zero => cases read
  | succ fuel =>
      rw [readValue, skipBlanks_token (by decide)] at read
      dsimp only at read
      rw [if_neg (by decide), if_neg (by decide), if_pos rfl] at read
      split at read
      · cases read
        trivial
      · obtain ⟨⟨key, cs''⟩, -, read⟩ := Option.bind_eq_some_iff.mp read
        obtain ⟨⟨value, cs₃⟩, -, read⟩ := Option.bind_eq_some_iff.mp read
        obtain ⟨⟨members, rest'⟩, -, read⟩ := Option.bind_eq_some_iff.mp read
        cases read
        trivial

/-- **A torn object is not read**: its text without its end. -/
theorem loads_torn {members : Members} {part missing : List Char}
    (text : dumps (.object members) = part ++ missing) (torn : missing ≠ []) :
    loads part = none := by
  cases loaded : loads part with
  | none => rfl
  | some value =>
      obtain ⟨⟨value', rest⟩, read, -⟩ := Option.bind_eq_some_iff.mp loaded
      have closed : value'.Closed := by
        obtain ⟨cs, opened⟩ := exists_write_object members
        cases part with
        | nil => exact (readValue_nonempty read rfl).elim
        | cons c part =>
            have same : c = openBrace := (List.cons.inj (text.symm.trans opened)).1
            rw [same] at read
            exact closed_of_readValue read
      -- with what is missing, the same value would be read and all of that left
      have longer := (readsOn _).value read (.inl closed) (part.length + missing.length + 1)
        (by omega) missing
      rw [← text] at longer
      have whole := readValue_write (.object members) (part.length + missing.length + 1) []
        (by
          have length := congrArg List.length text
          rw [List.length_append, dumps] at length
          omega)
        (fun _ mem => nomatch mem)
      rw [List.append_nil, ← dumps, longer] at whole
      have left : rest ++ missing = [] := congrArg Prod.snd (Option.some.inj whole)
      exact (torn (List.append_eq_nil_iff.mp left).2).elim

end Prism.Lib.JsonText
