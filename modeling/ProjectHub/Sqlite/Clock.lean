import ProjectHub.Sqlite.Value
import ProjectHub.Time.Instant

/-!
# Dates and times in expressions

Points of time as texts and numbers, moved by modifiers and written in formats.
A point is a number of milliseconds since 1970. The clock is set to one instant
and goes on by a millisecond with each row; no answer shows what it says.
-/

namespace ProjectHub.Sqlite

/-- What the clock of a statement is asked for. -/
inductive ClockPart where
  | date
  | time
  | timestamp
  deriving DecidableEq

namespace Clock

open Decimal (Double)

/-- The point that the clock is set to. -/
def start : Int := 1767225600123

/-- The milliseconds of a day. -/
def day : Int := 86400000

/-- The milliseconds from the start of Julian days to 1970. -/
def julianStart : Int := 210866760000000

/-- The points of time that have a date. -/
def isPoint (ms : Int) : Bool :=
  -julianStart ≤ ms && ms ≤ 253402300799999

/-- The parts of a point as a calendar and a clock show them. -/
def parts (ms : Int) : Instant.Parts :=
  Instant.parts ⟨ms / 1000, (ms % 1000).toNat * 1000000⟩

/-- Exactly `count` digits and what follows them. -/
def digits? (count : Nat) (cs : List Char) : Option (Nat × List Char) :=
  let digits := cs.take count
  if digits.length = count && digits.all Char.isDigit then
    some (Text.natOfDigits digits, cs.drop count)
  else none

/-- What follows a character. -/
def mark? (mark : Char) : List Char → Option (List Char)
  | c :: rest => if c = mark then some rest else none
  | [] => none

/-- The milliseconds of an offset from UTC at the end of a text. -/
def zone? (cs : List Char) : Option Int := do
  let cs := cs.dropWhile Value.isTextBlank
  match cs with
  | [] => return 0
  | sign :: rest =>
    if (sign = 'Z' || sign = 'z') && rest.all Value.isTextBlank then return 0
    else if sign = '+' ∨ sign = '-' then
      let (hours, rest) ← digits? 2 rest
      let (minutes, rest) ← digits? 2 (← mark? ':' rest)
      if 14 < hours || 59 < minutes || !rest.all Value.isTextBlank then none
      let size : Int := (60 * hours + minutes : Nat) * 60000
      return if sign = '-' then -size else size
    else none

/-- The milliseconds of a time of day, the offset at its end taken off. -/
def time? (cs : List Char) : Option Int := do
  let (hour, cs) ← digits? 2 cs
  let (minute, cs) ← digits? 2 (← mark? ':' cs)
  if 24 < hour || 59 < minute then none
  let (ms, rest) ← match mark? ':' cs with
    | none => some (0, cs)
    | some cs => do
      let (second, rest) ← digits? 2 cs
      if 59 < second then none
      match mark? '.' rest with
      | some more =>
        let places := more.takeWhile Char.isDigit
        if places.isEmpty then some (1000 * second, rest)
        else
          let ms := Text.natOfDigits ((places ++ ['0', '0', '0']).take 3)
          some (1000 * second + ms, more.drop places.length)
      | none => some (1000 * second, rest)
  return ((60 * hour + minute) * 60000 + ms : Nat) - (← zone? rest)

/-- The point that a date names, with a time of day after it or none. -/
def date? (cs : List Char) : Option Int := do
  let (isBefore, cs) := match mark? '-' cs with
    | some rest => (true, rest)
    | none => (false, cs)
  let (year, cs) ← digits? 4 cs
  let (month, cs) ← digits? 2 (← mark? '-' cs)
  let (dayOfMonth, cs) ← digits? 2 (← mark? '-' cs)
  if month = 0 || 12 < month || dayOfMonth = 0 || 31 < dayOfMonth then none
  let days := Instant.daysOfDate (if isBefore then -(year : Int) else year) month dayOfMonth
  let rest := cs.dropWhile fun c => Value.isTextBlank c || c == 'T' || c == 't'
  if cs.isEmpty || rest.isEmpty then return days * day
  else if cs.length = rest.length then none
  else return days * day + (← time? rest)

/-- The point that a number of days since the start of Julian days is. -/
def ofJulian (d : Double) : Int :=
  let scaled := Double.ofFloat (d.toFloat * 86400000.0 + 0.5)
  scaled.truncate - julianStart

/-- The point that a value names. -/
def ofValue? (now : Int) (v : Value) : Option Int :=
  match v with
  | .integer n => some (n * day - julianStart)
  | .real d => some (ofJulian d)
  | .null => none
  | v =>
    let s := v.text?.getD ""
    if Text.sameAscii s "now" then some now
    else
      match date? s.toList with
      | some ms => some ms
      | none =>
        match time? s.toList with
        | some ms => some (Instant.daysOfDate 2000 1 1 * day + ms)
        | none => (Value.ofNumericText? s).map fun v => ofJulian v.toDouble

/-- The point a number of months later, days past the end of a month counted into the next. -/
def addMonths (ms months : Int) : Int :=
  let p := parts ms
  let total := 12 * p.year + (p.month - 1 : Nat) + months
  let days := Instant.daysOfDate (total / 12) ((total % 12).toNat + 1) p.day
  days * day + ms % day

/-- The milliseconds of a unit that always lasts as long. -/
def unit? (name : String) : Option Int :=
  match name with
  | "second" | "seconds" => some 1000
  | "minute" | "minutes" => some 60000
  | "hour" | "hours" => some 3600000
  | "day" | "days" => some day
  | _ => none

/-- The start of the year, the month or the day that a point lies in. -/
def startOf? (name : String) (ms : Int) : Option Int :=
  let p := parts ms
  match name with
  | "day" => some (ms - ms % day)
  | "month" => some (Instant.daysOfDate p.year p.month 1 * day)
  | "year" => some (Instant.daysOfDate p.year 1 1 * day)
  | _ => none

/-- A point moved by a number of units. -/
def move? (amount : Value) (name : String) (ms : Int) : Option Int :=
  let count := amount.toDouble
  match unit? name with
  | some size =>
    let step := count.toFloat * (Double.ofInt size).toFloat
    let half := if count.isNegative then -0.5 else 0.5
    some (ms + (Double.ofFloat (step + half)).truncate)
  | none =>
    match name with
    | "month" | "months" => some (addMonths ms count.truncate)
    | "year" | "years" => some (addMonths ms (12 * count.truncate))
    | _ => none

/-- A point changed by a modifier. -/
def modify? (first : Value) (modifier : String) (ms : Int) : Option Int :=
  match modifier with
  | "utc" | "localtime" | "subsec" | "subsecond" | "julianday" | "floor" | "ceiling" => some ms
  | "unixepoch" => some (1000 * first.toInt)
  | "auto" =>
    match first with
    | .integer n => if n < 5373485 then some ms else some (1000 * n)
    | _ => some ms
  | modifier =>
    if "start of ".toList.isPrefixOf modifier.toList then
      startOf? (String.ofList (modifier.toList.drop 9)) ms
    else if "weekday ".toList.isPrefixOf modifier.toList then
      match Value.ofNumericText? (String.ofList (modifier.toList.drop 8)) with
      | some (.integer n) =>
        if 0 ≤ n ∧ n ≤ 6 then some (ms + (n - (ms / day + 4)) % 7 * day) else none
      | _ => none
    else
      match Value.numberFront? modifier.toList with
      | some (amount, rest) =>
        move? amount (String.ofList (Value.skipTextBlanks rest)) ms
      | none => none

/-- The point that the arguments of a function name: a value and modifiers; no arguments name
the present. -/
def point? (now : Int) : List Value → Option Int
  | [] => some now
  | first :: modifiers => do
    let start ← ofValue? now first
    let ms ← modifiers.foldlM (fun ms m => do
      modify? first (Text.lowerAscii (← m.text?)) ms) start
    if isPoint ms then some ms else none

/-- The date of a point. -/
def dateText (ms : Int) : String :=
  let p := parts ms
  (if p.year < 0 then "-" else "") ++ Text.paddedNat 4 p.year.natAbs ++ "-" ++
    Text.paddedNat 2 p.month ++ "-" ++ Text.paddedNat 2 p.day

/-- The time of day of a point. -/
def timeText (ms : Int) : String :=
  let p := parts ms
  Text.paddedNat 2 p.hour ++ ":" ++ Text.paddedNat 2 p.minute ++ ":" ++ Text.paddedNat 2 p.second

/-- A point as a number of Julian days. -/
def toJulian (ms : Int) : Double :=
  Double.ofFloat ((Double.ofInt (ms + julianStart)).toFloat / 86400000.0)

/-- What a letter of a format stands for. -/
def formatPart? (ms : Int) (letter : Char) : Option String :=
  let p := parts ms
  let two := Text.paddedNat 2
  let dayOfYear := Instant.daysOfDate p.year p.month p.day - Instant.daysOfDate p.year 1 1
  let weekday := ((ms / day + 4) % 7).toNat
  let hour12 := if p.hour % 12 = 0 then 12 else p.hour % 12
  match letter with
  | 'd' => some (two p.day)
  | 'e' => some (("".pushn ' ' (2 - (toString p.day).length)) ++ toString p.day)
  | 'f' => some (two p.second ++ "." ++ Text.paddedNat 3 (ms % 1000).toNat)
  | 'F' => some (dateText ms)
  | 'H' => some (two p.hour)
  | 'I' => some (two hour12)
  | 'j' => some (Text.paddedNat 3 (dayOfYear.toNat + 1))
  | 'J' => some (Value.doubleText (toJulian ms))
  | 'm' => some (two p.month)
  | 'M' => some (two p.minute)
  | 'p' => some (if p.hour < 12 then "AM" else "PM")
  | 'P' => some (if p.hour < 12 then "am" else "pm")
  | 'R' => some (two p.hour ++ ":" ++ two p.minute)
  | 's' => some (toString (ms / 1000))
  | 'S' => some (two p.second)
  | 'T' => some (timeText ms)
  | 'u' => some (toString (if weekday = 0 then 7 else weekday))
  | 'w' => some (toString weekday)
  | 'W' => some (two ((dayOfYear.toNat + 7 - (weekday + 6) % 7) / 7))
  | 'U' => some (two ((dayOfYear.toNat + 7 - weekday) / 7))
  | 'Y' => some (Text.paddedNat 4 p.year.natAbs)
  | '%' => some "%"
  | _ => none

/-- A point in a format; none if a letter of it has no meaning. -/
def format? (ms : Int) : List Char → Option String
  | '%' :: letter :: rest => do return (← formatPart? ms letter) ++ (← format? ms rest)
  | ['%'] => none
  | c :: rest => (format? ms rest).map fun s => String.singleton c ++ s
  | [] => some ""

/-- What a statement at a point reads off the clock. -/
def partText (ms : Int) : ClockPart → String
  | .date => dateText ms
  | .time => timeText ms
  | .timestamp => dateText ms ++ " " ++ timeText ms

/-- The months from the month of one point to that of another. -/
def monthsBetween (a b : Int) : Int :=
  let p := parts a
  let q := parts b
  12 * (q.year - p.year) + ((q.month : Int) - p.month)

/-- The greatest number of months that passes a test, which the number given or one of the two
before it does. -/
def monthsThat (test : Int → Bool) (months : Int) : Int :=
  if test months then months else if test (months - 1) then months - 1 else months - 2

/-- The difference of two points, as a sign, years, months, days and a time of day. The second
point is moved by whole months towards the first one as far as it goes, the rest is counted in
days. -/
def difference (now : Int) (a b : Value) : Value :=
  match point? now [a], point? now [b] with
  | some a, some b =>
    let moved (months : Int) : Int := addMonths b (if a < b then -months else months)
    let months := monthsThat (fun n => if a < b then a ≤ moved n else moved n ≤ a)
      (monthsBetween (min a b) (max a b))
    let rest : Int := (a - moved months).natAbs
    let two := fun (n : Int) => Text.paddedNat 2 n.natAbs
    .text ((if a < b then "-" else "+") ++ Text.paddedNat 4 (months / 12).natAbs ++ "-" ++
      two (months % 12) ++ "-" ++ two (rest / day) ++ " " ++ timeText (rest % day) ++ "." ++
      Text.paddedNat 3 (rest % 1000).natAbs)
  | _, _ => .null

/-- What a function of dates and times gives; NULL where its arguments name no point. -/
def call (now : Int) (function : String) (args : List Value) : Value :=
  let subsecond := args.any fun v => v == .text "subsec" || v == .text "subsecond"
  let shown (f : Int → Value) (args : List Value) : Value := ((point? now args).map f).getD .null
  match function with
  | "date" => shown (fun ms => .text (dateText ms)) args
  | "time" => shown (fun ms => .text (timeText ms)) args
  | "datetime" => shown (fun ms => .text (dateText ms ++ " " ++ timeText ms)) args
  | "julianday" => shown (fun ms => .real (toJulian ms)) args
  | "unixepoch" =>
    shown (fun ms =>
      if subsecond then .real (Double.ofFloat ((Double.ofInt ms).toFloat / 1000.0))
      else .integer (ms / 1000)) args
  | _ =>
    match args with
    | [] => .null
    | format :: rest =>
      match format.text? with
      | none => .null
      | some format =>
        shown (fun ms => ((format? ms format.toList).map Value.text).getD .null) rest

end Clock

end ProjectHub.Sqlite
