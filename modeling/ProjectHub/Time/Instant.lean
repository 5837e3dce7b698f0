import ProjectHub.Text.Numeral

/-!
# Instants

Points of time in UTC, to the nanosecond, in the proleptic Gregorian calendar.
A leap second is the second second numbered 59: its nanoseconds run from 10^9 on.
Instants are read from and written as RFC 3339 timestamps.
-/

namespace ProjectHub

/-- A point of time: seconds since 1970-01-01T00:00:00Z, and nanoseconds, from 10^9 on in a
leap second. -/
structure Instant where
  /-- Seconds since the epoch. -/
  seconds : Int
  /-- Nanoseconds within the second. -/
  nanos : Nat
  deriving DecidableEq, Inhabited

namespace Instant

/-- The start of 1970. -/
def epoch : Instant := ⟨0, 0⟩

/-- Whether a year has 366 days. -/
def isLeap (year : Int) : Bool :=
  year % 4 == 0 && (year % 100 != 0 || year % 400 == 0)

/-- The number of days of a month. -/
def daysInMonth (year : Int) (month : Nat) : Nat :=
  if month = 2 then (if isLeap year then 29 else 28)
  else if month = 4 ∨ month = 6 ∨ month = 9 ∨ month = 11 then 30
  else 31

/-- The days from 0000-03-01 to a date, counting years from March. -/
def daysFromMarch (year : Int) (month day : Nat) : Int :=
  let y := if month ≤ 2 then year - 1 else year
  let m := if month ≤ 2 then month + 9 else month - 3
  365 * y + y / 4 - y / 100 + y / 400 + (153 * m + 2) / 5 + day - 1

/-- The days from 1970-01-01 to a date. -/
def daysOfDate (year : Int) (month day : Nat) : Int :=
  daysFromMarch year month day - 719468

/-- The date that lies a number of days after 1970-01-01: year, month and day. -/
def dateOfDays (days : Int) : Int × Nat × Nat :=
  let z := days + 719468
  let era := z / 146097
  let doe := (z - era * 146097).toNat
  let yoe := (doe - doe / 1460 + doe / 36524 - doe / 146096) / 365
  let doy := doe - (365 * yoe + yoe / 4 - yoe / 100)
  let mp := (5 * doy + 2) / 153
  let day := doy - (153 * mp + 2) / 5 + 1
  let month := if mp < 10 then mp + 3 else mp - 9
  let year := (yoe : Int) + era * 400
  (if month ≤ 2 then year + 1 else year, month, day)

/-- The parts of an instant as a clock and a calendar show them. -/
structure Parts where
  year : Int
  month : Nat
  day : Nat
  hour : Nat
  minute : Nat
  second : Nat
  /-- Nanoseconds below 10^9. -/
  fraction : Nat

/-- The parts of an instant; a leap second has the number 60. -/
def parts (t : Instant) : Parts :=
  let days := t.seconds / 86400
  let time := (t.seconds - days * 86400).toNat
  let (year, month, day) := dateOfDays days
  let leap := t.nanos / 1000000000
  ⟨year, month, day, time / 3600, time / 60 % 60, time % 60 + leap, t.nanos % 1000000000⟩

/-- A year, in four digits where it has no more. -/
def yearText (year : Int) : String :=
  if 0 ≤ year ∧ year ≤ 9999 then Text.paddedNat 4 year.toNat
  else (if year < 0 then "-" else "+") ++ Text.paddedNat 4 year.natAbs

/-- A fraction of a second in the fewest of 0, 3, 6 and 9 digits that are exact. -/
def fractionText (nanos : Nat) : String :=
  if nanos = 0 then ""
  else if nanos % 1000000 = 0 then "." ++ Text.paddedNat 3 (nanos / 1000000)
  else if nanos % 1000 = 0 then "." ++ Text.paddedNat 6 (nanos / 1000)
  else "." ++ Text.paddedNat 9 nanos

/-- The timestamp of an instant, with the given mark for UTC at its end. -/
def render (t : Instant) (utcMark : String) : String :=
  let p := t.parts
  yearText p.year ++ "-" ++ Text.paddedNat 2 p.month ++ "-" ++ Text.paddedNat 2 p.day ++ "T" ++
    Text.paddedNat 2 p.hour ++ ":" ++ Text.paddedNat 2 p.minute ++ ":" ++
    Text.paddedNat 2 p.second ++ fractionText p.fraction ++ utcMark

/-- The timestamp that ends in `Z`. -/
def toZulu (t : Instant) : String := t.render "Z"

/-- The timestamp that ends in an offset of zero. -/
def toRfc3339 (t : Instant) : String := t.render "+00:00"

/-- Year, month, day, hour, minute and second as fourteen digits. -/
def compact (t : Instant) : String :=
  let p := t.parts
  yearText p.year ++ Text.paddedNat 2 p.month ++ Text.paddedNat 2 p.day ++
    Text.paddedNat 2 p.hour ++ Text.paddedNat 2 p.minute ++ Text.paddedNat 2 p.second

/-- Why a text is no timestamp. -/
inductive Fault where
  | premature
  | invalid
  | outOfRange
  | trailing
  deriving DecidableEq

/-- The wording of a fault. -/
def Fault.message : Fault → String
  | premature => "premature end of input"
  | invalid => "input contains invalid characters"
  | outOfRange => "input is out of range"
  | trailing => "trailing input"

/-- Decimal digits, exactly `count` of them, and what follows. -/
def readFixed : Nat → Nat → List Char → Except Fault (Nat × List Char)
  | 0, n, cs => .ok (n, cs)
  | _ + 1, _, [] => .error .premature
  | count + 1, n, c :: rest =>
    if c.isDigit then readFixed count (10 * n + (c.toNat - 48)) rest else .error .invalid

/-- What follows one of the given characters. -/
def expectOneOf (marks : List Char) : List Char → Except Fault (List Char)
  | [] => .error .premature
  | c :: rest => if marks.contains c then .ok rest else .error .invalid

/-- The nanoseconds after a point, from at least one digit; digits past the ninth are
dropped. -/
def readFraction (cs : List Char) : Except Fault (Nat × List Char) :=
  match cs with
  | '.' :: rest =>
    let digits := rest.takeWhile Char.isDigit
    match rest with
    | [] => .error .premature
    | _ =>
      if digits.isEmpty then .error .invalid
      else
        let kept := digits.take 9
        .ok (Text.natOfDigits kept * Nat.pow 10 (9 - kept.length), rest.dropWhile Char.isDigit)
  | _ => .ok (0, cs)

/-- The number of UTF-8 bytes of a text. -/
def byteLength (cs : List Char) : Nat :=
  (String.ofList cs).utf8ByteSize

/-- Two digits of an offset, the first of which may not exceed `most`. -/
def readOffsetPart (beyond : Fault) (most : Nat) (cs : List Char) :
    Except Fault (Nat × List Char) :=
  if byteLength cs < 2 then .error .premature
  else
    match cs with
    | a :: b :: rest =>
      if a.isDigit && b.isDigit then
        if a.toNat - 48 ≤ most then .ok (Text.natOfDigits [a, b], rest) else .error beyond
      else .error .invalid
    | _ => .error .invalid

/-- The seconds that an offset from UTC adds, and what follows it. -/
def readOffset (cs : List Char) : Except Fault (Int × List Char) := do
  let size (cs : List Char) : Except Fault (Int × List Char) := do
    let (hours, afterHours) ← readOffsetPart .outOfRange 9 cs
    let afterColon ← expectOneOf [':'] afterHours
    let (minutes, rest) ← readOffsetPart .outOfRange 5 afterColon
    return ((3600 * hours + 60 * minutes : Nat), rest)
  match cs with
  | [] => throw .premature
  | 'Z' :: rest => return (0, rest)
  | 'z' :: rest => return (0, rest)
  | '+' :: rest => size rest
  | '-' :: rest => do
    let (seconds, rest) ← size rest
    return (-seconds, rest)
  | '−' :: rest => do
    let (seconds, rest) ← size rest
    return (-seconds, rest)
  | _ => throw .invalid

/-- The instant of a timestamp. The text is read from left to right and the first problem is
the answer; the ranges of the time are looked at after its fraction. -/
def parse (text : String) : Except Fault Instant := do
  let cs := text.toList
  if byteLength cs < 19 then throw .premature
  let (year, cs) ← readFixed 4 0 cs
  let cs ← expectOneOf ['-'] cs
  let (month, cs) ← readFixed 2 0 cs
  let cs ← expectOneOf ['-'] cs
  let (day, cs) ← readFixed 2 0 cs
  if month = 0 ∨ 12 < month ∨ day = 0 ∨ daysInMonth year month < day then throw .outOfRange
  let cs ← expectOneOf ['T', 't', ' '] cs
  let (hour, cs) ← readFixed 2 0 cs
  let cs ← expectOneOf [':'] cs
  let (minute, cs) ← readFixed 2 0 cs
  let cs ← expectOneOf [':'] cs
  let (second, cs) ← readFixed 2 0 cs
  let (nanos, cs) ← readFraction cs
  if 23 < hour ∨ 59 < minute ∨ 60 < second then throw .outOfRange
  let (offset, rest) ← readOffset cs
  if !rest.isEmpty then throw .trailing
  if 86400 ≤ offset.natAbs then throw .outOfRange
  let leap := second / 60
  let time := 3600 * hour + 60 * minute + (second - leap)
  return ⟨86400 * daysOfDate year month day + time - offset, nanos + leap * 1000000000⟩

end Instant

end ProjectHub
