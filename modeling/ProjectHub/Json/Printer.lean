import ProjectHub.Decimal.Double
import ProjectHub.Json.Basic
import ProjectHub.Text.Hex

/-!
# Writing JSON

Compact text: no blanks, members in the order of the object, and in strings
only the quote, the backslash and control characters escaped. A double is
written with the fewest digits that read back.
-/

namespace ProjectHub.Json

/-- How a double is laid out once its digits are chosen. -/
structure FloatLayout where
  /-- The least decimal exponent written in positional notation. -/
  leastPositional : Int
  /-- The greatest decimal exponent written in positional notation. -/
  greatestPositional : Int
  /-- What a whole number in positional notation ends in. -/
  wholeEnding : String
  /-- What stands before a positive exponent. -/
  exponentMark : String
  /-- What stands before the size of a negative exponent. -/
  negativeExponentMark : String

/-- Doubles are positional from `1e-5` to below `1e16`, with at least one place, and
scientific elsewhere, with a sign on every exponent. -/
def floatLayout : FloatLayout := ⟨-5, 15, ".0", "e+", "e-"⟩

namespace FloatLayout

/-- The text of `digits · 10 ^ place`. -/
def layOut (layout : FloatLayout) (digits : List Char) (place : Int) : String :=
  let exponent := place + digits.length - 1
  if layout.leastPositional ≤ exponent ∧ exponent ≤ layout.greatestPositional then
    if 0 ≤ place then
      String.ofList (digits ++ List.replicate place.toNat '0') ++ layout.wholeEnding
    else if 0 ≤ exponent then
      let whole := exponent.toNat + 1
      String.ofList (digits.take whole ++ ['.'] ++ digits.drop whole)
    else
      String.ofList (['0', '.'] ++ List.replicate (exponent.natAbs - 1) '0' ++ digits)
  else
    let significand := match digits with
      | first :: second :: rest => first :: '.' :: second :: rest
      | short => short
    String.ofList significand ++
      (if 0 ≤ exponent then layout.exponentMark else layout.negativeExponentMark) ++
      toString exponent.natAbs

/-- The text of a finite double. -/
def textOfBits (layout : FloatLayout) (bits : UInt64) : String :=
  let sign := if bits < 0x8000000000000000 then "" else "-"
  let magnitude := Decimal.Binary.ofBits bits
  if magnitude.mantissa = 0 then sign ++ "0" ++ layout.wholeEnding
  else
    let (digits, place) := magnitude.shortest
    sign ++ layout.layOut (toString digits).toList place

end FloatLayout

namespace Number

/-- The text of a number. -/
def render : Number → String
  | int value => toString value
  | float bits => floatLayout.textOfBits bits

end Number

/-- One character inside a string. -/
def escapeChar (c : Char) : List Char :=
  if c = '"' then ['\\', '"']
  else if c = '\\' then ['\\', '\\']
  else if c = '\x08' then ['\\', 'b']
  else if c = '\t' then ['\\', 't']
  else if c = '\n' then ['\\', 'n']
  else if c = '\x0c' then ['\\', 'f']
  else if c = '\r' then ['\\', 'r']
  else if c.toNat < 32 then
    ['\\', 'u', '0', '0', Text.hexDigit (c.toNat / 16), Text.hexDigit (c.toNat % 16)]
  else [c]

/-- A string between quotes. -/
def renderText (s : String) : String :=
  String.ofList ('"' :: s.toList.flatMap escapeChar ++ ['"'])

mutual

/-- The compact text of a value. -/
def render : Json → String
  | .null => "null"
  | .bool true => "true"
  | .bool false => "false"
  | .number value => value.render
  | .text value => renderText value
  | .array items => "[" ++ renderItems items ++ "]"
  | .object members => "\x7b" ++ renderMembers members ++ "\x7d"

/-- The items of an array, separated by commas. -/
def renderItems : List Json → String
  | [] => ""
  | [item] => render item
  | item :: rest => render item ++ "," ++ renderItems rest

/-- The members of an object, separated by commas. -/
def renderMembers : List (String × Json) → String
  | [] => ""
  | [(name, value)] => renderText name ++ ":" ++ render value
  | (name, value) :: rest =>
    renderText name ++ ":" ++ render value ++ "," ++ renderMembers rest

end

/-- The text of an object whose members stand in the given order. -/
def renderRecord (members : List (String × String)) : String :=
  "\x7b" ++ ",".intercalate (members.map fun (name, value) => renderText name ++ ":" ++ value) ++
    "\x7d"

end ProjectHub.Json
