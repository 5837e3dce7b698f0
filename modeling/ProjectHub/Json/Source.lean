import ProjectHub.Reading
import ProjectHub.Text.Hex

/-!
# JSON text, read as syntax

The grammar of JSON, without the limits that readers of a value put on it. A
number keeps its digits and text keeps its escapes, so a part that nobody looks
at is never refused for what it means: only a reader of that part can find a
number out of range, an unpaired surrogate, or too deep a nesting.
-/

namespace ProjectHub.Json

/-- A piece of text in a JSON string. -/
inductive TextUnit where
  /-- A character, written as itself or by a short escape. -/
  | char (c : Char)
  /-- A UTF-16 unit, written as an escape of four hexadecimal digits. -/
  | code (unit : Nat)
  deriving DecidableEq

/-- The digits of a number as written. -/
structure Numeral where
  /-- Whether a minus sign stands in front. -/
  negative : Bool
  /-- The digits of the integer part. -/
  whole : List Nat
  /-- The digits after the point, if there is one. -/
  fraction : Option (List Nat)
  /-- The sign, true for minus, and the digits of the exponent, if there is one. -/
  exponent : Option (Bool × List Nat)
  deriving DecidableEq

/-- A JSON text as syntax. -/
inductive Source where
  | null
  | bool (value : Bool)
  | number (numeral : Numeral)
  | text (units : List TextUnit)
  | array (items : List Source)
  | object (members : List (List TextUnit × Source))
  deriving Inhabited

/-- The blanks of JSON. -/
def isSpace (c : Char) : Bool :=
  c == ' ' || c == '\t' || c == '\n' || c == '\r'

/-- The text after its leading blanks. -/
def skipSpace (cs : List Char) : List Char :=
  cs.dropWhile isSpace

theorem length_skipSpace (cs : List Char) : (skipSpace cs).length ≤ cs.length :=
  (List.dropWhile_sublist _).length_le

/-- The character a short escape stands for. -/
def shortEscape? : Char → Option Char
  | '"' => some '"'
  | '\\' => some '\\'
  | '/' => some '/'
  | 'b' => some '\x08'
  | 'f' => some '\x0c'
  | 'n' => some '\n'
  | 'r' => some '\r'
  | 't' => some '\t'
  | _ => none

/-- A string up to its closing quote. Control characters must be escaped. -/
def readUnits : (cs : List Char) → Option (Reading (List TextUnit) cs)
  | [] => none
  | '"' :: rest => some ⟨[], rest, Nat.lt_succ_self _⟩
  | '\\' :: 'u' :: a :: b :: c :: d :: rest => do
    let unit := 4096 * (← Text.hexValue a) + 256 * (← Text.hexValue b) + 16 * (← Text.hexValue c) +
      (← Text.hexValue d)
    let tail ← readUnits rest
    return ⟨.code unit :: tail.value, tail.rest,
      Nat.lt_of_lt_of_le tail.shorter (Nat.le_add_right rest.length 6)⟩
  | '\\' :: c :: rest => do
    let char ← shortEscape? c
    let tail ← readUnits rest
    return ⟨.char char :: tail.value, tail.rest,
      Nat.lt_of_lt_of_le tail.shorter (Nat.le_add_right rest.length 2)⟩
  | c :: rest =>
    if c.toNat < 32 ∨ c = '\\' then none
    else (readUnits rest).map fun tail => (tail.map (.char c :: ·)).behind c

/-- A quote ends a string. -/
theorem readUnits_quote (rest : List Char) :
    readUnits ('"' :: rest) = some ⟨[], rest, Nat.lt_succ_self _⟩ := by
  rw [readUnits]

/-- The values of decimal digits. -/
def digitValues (cs : List Char) : List Nat :=
  cs.map fun c => c.toNat - 48

/-- The digits at the front, at least one, and the text after them. -/
def readDigits? (cs : List Char) : Option (List Nat × List Char) :=
  match cs.takeWhile Char.isDigit with
  | [] => none
  | digits => some (digitValues digits, cs.dropWhile Char.isDigit)

/-- A fraction, if a point comes next. -/
def readFraction? : List Char → Option (Option (List Nat) × List Char)
  | '.' :: rest => (readDigits? rest).map fun (digits, after) => (some digits, after)
  | cs => some (none, cs)

/-- An exponent, if its letter comes next. -/
def readExponent? (cs : List Char) : Option (Option (Bool × List Nat) × List Char) :=
  match cs with
  | c :: rest =>
    if c = 'e' ∨ c = 'E' then
      let (minus, digits) := match rest with
        | '-' :: more => (true, more)
        | '+' :: more => (false, more)
        | more => (false, more)
      (readDigits? digits).map fun (digits, after) => (some (minus, digits), after)
    else some (none, cs)
  | [] => some (none, cs)

/-- A number without its sign. No digit may follow a leading zero. -/
def readNumeral? (negative : Bool) (cs : List Char) : Option (Numeral × List Char) := do
  let (whole, afterWhole) ← readDigits? cs
  if whole.head? = some 0 ∧ whole.length ≠ 1 then none
  let (fraction, afterFraction) ← readFraction? afterWhole
  let (exponent, rest) ← readExponent? afterFraction
  return (⟨negative, whole, fraction, exponent⟩, rest)

/-- A rest that is no longer than what follows the first character, as a reading. -/
def Source.reading? {c : Char} {cs : List Char} (value : Source) (rest : List Char) :
    Option (Reading Source (c :: cs)) :=
  if h : rest.length ≤ cs.length then some ⟨value, rest, Nat.lt_succ_of_le h⟩ else none

/-- A word and nothing more of it. -/
def Source.word? {c : Char} {cs : List Char} (letters : List Char) (value : Source) :
    Option (Reading Source (c :: cs)) :=
  if letters.isPrefixOf cs then Source.reading? value (cs.drop letters.length) else none

mutual

/-- One value at the front of the text. -/
def readSource : (cs : List Char) → Option (Reading Source cs)
  | [] => none
  | c :: rest =>
    if c = '"' then (readUnits rest).map fun units => (units.map .text).behind c
    else if c = '[' then
      match h : skipSpace rest with
      | ']' :: after => some ⟨.array [], after, by
          have := length_skipSpace rest
          simp only [h, List.length_cons] at *
          omega⟩
      | _ => (readElements rest).map fun items => (items.map .array).behind c
    else if c = '\x7b' then
      match h : skipSpace rest with
      | '\x7d' :: after => some ⟨.object [], after, by
          have := length_skipSpace rest
          simp only [h, List.length_cons] at *
          omega⟩
      | _ => (readMembers rest).map fun members => (members.map .object).behind c
    else if c = 'n' then Source.word? "ull".toList .null
    else if c = 't' then Source.word? "rue".toList (.bool true)
    else if c = 'f' then Source.word? "alse".toList (.bool false)
    else if c = '-' then do
      let (numeral, after) ← readNumeral? true rest
      Source.reading? (.number numeral) after
    else do
      let (numeral, after) ← readNumeral? false (c :: rest)
      Source.reading? (.number numeral) after
termination_by cs => (cs.length, 0)

/-- The items of an array, up to and with its closing bracket. -/
def readElements (cs : List Char) : Option (Reading (List Source) cs) := do
  let item ← readSource (skipSpace cs)
  match h : skipSpace item.rest with
  | ']' :: after =>
    return ⟨[item.value], after, by
      have := length_skipSpace cs
      have := length_skipSpace item.rest
      have := item.shorter
      simp only [h, List.length_cons] at *
      omega⟩
  | ',' :: more => do
    let items ← readElements more
    return ⟨item.value :: items.value, items.rest, by
      have := length_skipSpace cs
      have := length_skipSpace item.rest
      have := item.shorter
      have := items.shorter
      simp only [h, List.length_cons] at *
      omega⟩
  | _ => none
termination_by (cs.length, 1)
decreasing_by
  · have := length_skipSpace cs
    rcases Nat.lt_or_eq_of_le this with h | h
    · exact .left _ _ h
    · rw [h]
      exact .right _ Nat.zero_lt_one
  · have := length_skipSpace cs
    have := length_skipSpace item.rest
    have := item.shorter
    simp only [h, List.length_cons] at *
    omega

/-- The members of an object, up to and with its closing brace. -/
def readMembers (cs : List Char) : Option (Reading (List (List TextUnit × Source)) cs) := do
  match hName : skipSpace cs with
  | '"' :: nameText =>
    let name ← readUnits nameText
    match hColon : skipSpace name.rest with
    | ':' :: valueText =>
      let value ← readSource (skipSpace valueText)
      match h : skipSpace value.rest with
      | '\x7d' :: after =>
        return ⟨[(name.value, value.value)], after, by
          have := length_skipSpace cs
          have := length_skipSpace name.rest
          have := length_skipSpace valueText
          have := length_skipSpace value.rest
          have := name.shorter
          have := value.shorter
          simp only [h, hName, hColon, List.length_cons] at *
          omega⟩
      | ',' :: more => do
        let members ← readMembers more
        return ⟨(name.value, value.value) :: members.value, members.rest, by
          have := length_skipSpace cs
          have := length_skipSpace name.rest
          have := length_skipSpace valueText
          have := length_skipSpace value.rest
          have := name.shorter
          have := value.shorter
          have := members.shorter
          simp only [h, hName, hColon, List.length_cons] at *
          omega⟩
      | _ => none
    | _ => none
  | _ => none
termination_by (cs.length, 1)
decreasing_by
  · have := length_skipSpace cs
    have := length_skipSpace name.rest
    have := length_skipSpace valueText
    have := name.shorter
    simp only [hName, hColon, List.length_cons] at *
    omega
  · have := length_skipSpace cs
    have := length_skipSpace name.rest
    have := length_skipSpace valueText
    have := length_skipSpace value.rest
    have := name.shorter
    have := value.shorter
    simp only [h, hName, hColon, List.length_cons] at *
    omega

end

/-- The syntax of a whole text: one value, with blanks around it. -/
def Source.parse? (text : String) : Option Source := do
  let value ← readSource (skipSpace text.toList)
  if (skipSpace value.rest).isEmpty then some value.value else none

end ProjectHub.Json
