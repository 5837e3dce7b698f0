import ProjectHub.Text.Blank
import ProjectHub.Time.Instant

/-!
# Timestamps in lenient form

A timestamp in JSON may be written more freely than RFC 3339 has it: numbers
need not be padded, blanks may stand before every number and every mark, a year
may carry a sign and then have any number of digits, and the offset may be
spelled `UTC` or have its hours and minutes next to each other.
-/

namespace ProjectHub.Instant

/-- The text without blanks at its front. -/
def skipBlanks (cs : List Char) : List Char :=
  cs.dropWhile Text.isBlank

/-- A number of at least one digit and at most `width`, blanks before it aside, and what
follows it. -/
def number? (width : Nat) (cs : List Char) : Option (Nat × List Char) :=
  let digits := ((skipBlanks cs).take width).takeWhile Char.isDigit
  if digits.isEmpty then none
  else some (Text.natOfDigits digits, (skipBlanks cs).drop digits.length)

/-- What follows a mark, blanks before it aside. -/
def mark? (mark : Char) (cs : List Char) : Option (List Char) :=
  match skipBlanks cs with
  | c :: rest => if c = mark then some rest else none
  | [] => none

/-- A year and what follows it: four digits at most, or any number of them after a sign. -/
def signedYear? (cs : List Char) : Option (Int × List Char) :=
  let digitsOf (cs : List Char) : Option (Nat × List Char) :=
    if cs.head?.any Char.isDigit then number? cs.length cs else none
  match skipBlanks cs with
  | '-' :: rest => (digitsOf rest).map fun (year, rest) => (-(year : Int), rest)
  | '+' :: rest => (digitsOf rest).map fun (year, rest) => ((year : Int), rest)
  | rest => (number? 4 rest).map fun (year, rest) => ((year : Int), rest)

/-- The seconds of an offset of two digits for the hours and two for the minutes, with colons
and blanks between them. -/
def offsetSize? (cs : List Char) : Option (Nat × List Char) :=
  match cs with
  | a :: b :: rest =>
    match rest.dropWhile fun c => c == ':' || Text.isBlank c with
    | c :: d :: after =>
      if [a, b, c, d].all Char.isDigit && c.toNat < 54 then
        some (3600 * Text.natOfDigits [a, b] + 60 * Text.natOfDigits [c, d], after)
      else none
    | _ => none
  | _ => none

/-- The seconds that an offset from UTC adds, and what follows it. -/
def offset? (cs : List Char) : Option (Int × List Char) :=
  if (cs.take 3).map Char.toUpper = ['U', 'T', 'C'] then some (0, cs.drop 3)
  else
    match cs with
    | 'Z' :: rest => some (0, rest)
    | 'z' :: rest => some (0, rest)
    | '+' :: rest => (offsetSize? rest).map fun (seconds, rest) => ((seconds : Int), rest)
    | '-' :: rest => (offsetSize? rest).map fun (seconds, rest) => (-(seconds : Int), rest)
    | '−' :: rest => (offsetSize? rest).map fun (seconds, rest) => (-(seconds : Int), rest)
    | _ => none

/-- The years that a calendar date can have. -/
def isYear (year : Int) : Bool :=
  -262143 ≤ year && year ≤ 262142

/-- The days of a date before the mark of the time, and what follows the mark. -/
def lenientDate? (cs : List Char) : Option (Int × List Char) := do
  let (year, cs) ← signedYear? cs
  let (month, cs) ← number? 2 (← mark? '-' cs)
  let (day, cs) ← number? 2 (← mark? '-' cs)
  if !isYear year || month = 0 || 12 < month || day = 0 || daysInMonth year month < day then none
  match cs with
  | c :: rest => if ['T', 't', ' '].contains c then some (daysOfDate year month day, rest) else none
  | [] => none

/-- The seconds since midnight, the nanoseconds, and what follows the time. -/
def lenientTime? (cs : List Char) : Option (Nat × Nat × List Char) := do
  let (hour, cs) ← number? 2 cs
  let (minute, cs) ← number? 2 (← mark? ':' cs)
  let (second, cs) ← number? 2 (← mark? ':' cs)
  let (nanos, rest) ← (readFraction cs).toOption
  if 23 < hour || 59 < minute || 60 < second then none
  let leap := second / 60
  return (3600 * hour + 60 * minute + (second - leap), nanos + leap * 1000000000, rest)

/-- The instant of a timestamp in lenient form. -/
def parseLenient? (text : String) : Option Instant := do
  let (days, cs) ← lenientDate? text.toList
  let (time, nanos, cs) ← lenientTime? cs
  let (offset, rest) ← offset? (skipBlanks cs)
  if !rest.all Text.isBlank || 86400 ≤ offset.natAbs then none
  return ⟨86400 * days + time - offset, nanos⟩

end ProjectHub.Instant
