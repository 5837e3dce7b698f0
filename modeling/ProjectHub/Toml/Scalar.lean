import ProjectHub.Decimal.Double
import ProjectHub.Text.Hex
import ProjectHub.Text.Numeral
import ProjectHub.Time.Instant
import ProjectHub.Toml.Basic

/-!
# TOML numbers and times

Integers of 64 bits in four bases, numbers with a fraction or an exponent, and
dates and times. Underscores may stand between digits. Readers here take the
longest value at the front; what cannot belong to it is left for the reader of
the line, which refuses it.
-/

namespace ProjectHub.Toml

/-- The digits at the front, without the single underscores between them, and what
follows. -/
def takeDigits (isDigit : Char → Bool) : List Char → List Char × List Char
  | [] => ([], [])
  | '_' :: c :: rest =>
    if isDigit c then
      let (digits, after) := takeDigits isDigit rest
      (c :: digits, after)
    else ([], '_' :: c :: rest)
  | c :: rest =>
    if isDigit c then
      let (digits, after) := takeDigits isDigit rest
      (c :: digits, after)
    else ([], c :: rest)

/-- One or more digits. -/
def readDigits? (isDigit : Char → Bool) : List Char → Option (List Char × List Char)
  | c :: rest =>
    if isDigit c then
      let (digits, after) := takeDigits isDigit rest
      some (c :: digits, after)
    else none
  | [] => none

/-- A whole decimal number: zero, or digits that do not start with zero. -/
def readWhole? : List Char → Option (List Char × List Char)
  | '0' :: rest => some (['0'], rest)
  | cs => readDigits? Char.isDigit cs

/-- The digits after a point, if there are any. -/
def readPlaces? : List Char → Option (List Char × List Char)
  | '.' :: rest => readDigits? Char.isDigit rest
  | _ => none

/-- The sign and digits after the letter of an exponent, if there are any. -/
def readPower? : List Char → Option (Int × List Char)
  | c :: rest =>
    if c = 'e' ∨ c = 'E' then
      let (sign, digits) : Int × List Char := match rest with
        | '-' :: more => (-1, more)
        | '+' :: more => (1, more)
        | more => (1, more)
      (readDigits? Char.isDigit digits).map fun (digits, after) =>
        (sign * Text.natOfDigits digits, after)
    else none
  | [] => none

/-- An integer, if it fits 64 bits. -/
def integer? (n : Int) : Option Toml :=
  if -0x8000000000000000 ≤ n ∧ n < 0x8000000000000000 then some (.integer n) else none

/-- The number that digits in a base spell. -/
def numberOf (base : Nat) (digits : List Char) : Nat :=
  digits.foldl (fun n c => base * n + (Text.hexValue c).getD 0) 0

/-- Whether a character is a digit in a base. -/
def isDigitIn (base : Nat) (c : Char) : Bool :=
  match Text.hexValue c with
  | some value => value < base
  | none => false

/-- An integer in another base, after what announces it. -/
def readBased? (base : Nat) (cs : List Char) : Option (Toml × List Char) := do
  let (digits, rest) ← readDigits? (isDigitIn base) cs
  return (← integer? (numberOf base digits), rest)

/-- The characters read from a text of which `rest` is left. -/
def spelling (cs rest : List Char) : String :=
  String.ofList (cs.take (cs.length - rest.length))

/-- A decimal number after its sign: an integer, or with a fraction or an exponent a float.
A positive one beyond all doubles is refused. -/
def readDecimal? (negative : Bool) (cs : List Char) : Option (Toml × List Char) := do
  let (whole, afterWhole) ← readWhole? cs
  let places := readPlaces? afterWhole
  let afterPlaces := (places.map Prod.snd).getD afterWhole
  let power := readPower? afterPlaces
  let rest := (power.map Prod.snd).getD afterPlaces
  if places.isNone && power.isNone then
    let n : Int := Text.natOfDigits whole
    return (← integer? (if negative then -n else n), rest)
  else
    let digits := (places.map Prod.fst).getD []
    let exponent := (power.map Prod.fst).getD 0 - digits.length
    if !negative && Decimal.roundsToInfinity (Text.natOfDigits (whole ++ digits)) exponent then
      none
    else return (.float (spelling cs rest), rest)

/-- A number. -/
def readNumber? (cs : List Char) : Option (Toml × List Char) :=
  let signed (negative : Bool) (rest : List Char) : Option (Toml × List Char) :=
    match rest with
    | 'i' :: 'n' :: 'f' :: after => some (.float "inf", after)
    | 'n' :: 'a' :: 'n' :: after => some (.float "nan", after)
    | _ => readDecimal? negative rest
  match cs with
  | '+' :: rest => signed false rest
  | '-' :: rest => signed true rest
  | '0' :: 'x' :: rest => readBased? 16 rest
  | '0' :: 'o' :: rest => readBased? 8 rest
  | '0' :: 'b' :: rest => readBased? 2 rest
  | _ => signed false cs

/-- A number of two digits. -/
def readTwo? : List Char → Option (Nat × List Char)
  | a :: b :: rest =>
    if a.isDigit && b.isDigit then some (Text.natOfDigits [a, b], rest) else none
  | _ => none

/-- A number of two digits within bounds. -/
def readWithin? (low high : Nat) (cs : List Char) : Option (Nat × List Char) := do
  let (n, rest) ← readTwo? cs
  if low ≤ n ∧ n ≤ high then some (n, rest) else none

/-- What follows a character. -/
def readChar? (c : Char) : List Char → Option (List Char)
  | d :: rest => if d = c then some rest else none
  | [] => none

/-- What follows a date. -/
def readDate? : List Char → Option (List Char)
  | a :: b :: c :: d :: '-' :: rest => do
    if [a, b, c, d].all Char.isDigit then
      let (month, rest) ← readWithin? 1 12 rest
      let rest ← readChar? '-' rest
      let (_, rest) ← readWithin? 1 (Instant.daysInMonth (Text.natOfDigits [a, b, c, d]) month) rest
      return rest
    else none
  | _ => none

/-- What follows a time of day. -/
def readClock? (cs : List Char) : Option (List Char) := do
  let (_, rest) ← readWithin? 0 23 cs
  let rest ← readChar? ':' rest
  let (_, rest) ← readWithin? 0 59 rest
  let rest ← readChar? ':' rest
  let (_, rest) ← readWithin? 0 60 rest
  match rest with
  | '.' :: c :: _ => if c.isDigit then some ((rest.drop 1).dropWhile Char.isDigit) else some rest
  | _ => some rest

/-- What follows an offset, if there is one. -/
def skipOffset : List Char → List Char
  | [] => []
  | c :: rest =>
    if c = 'Z' ∨ c = 'z' then rest
    else if c = '+' ∨ c = '-' then
      let offset := do
        let (_, rest) ← readWithin? 0 23 rest
        let rest ← readChar? ':' rest
        let (_, rest) ← readWithin? 0 59 rest
        return rest
      offset.getD (c :: rest)
    else c :: rest

/-- What follows a date, a time of day, or both. -/
def readTime? (cs : List Char) : Option (List Char) :=
  match readDate? cs with
  | none => readClock? cs
  | some [] => some []
  | some (c :: rest) =>
    if c = 'T' ∨ c = 't' ∨ c = ' ' then
      match readClock? rest with
      | some after => some (skipOffset after)
      | none => some (c :: rest)
    else some (c :: rest)

/-- A time or a number. -/
def readScalar? (cs : List Char) : Option (Toml × List Char) :=
  match readTime? cs with
  | some rest => some (.time (spelling cs rest), rest)
  | none => readNumber? cs

end ProjectHub.Toml
