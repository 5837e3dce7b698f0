import ProjectHub.Sqlite.Value

/-!
# Formatted text

Text with places for values. A place is a percent sign, flags, a width, a
precision, and a letter that says how the value is written. The text ends at the
first place that has no meaning.
-/

namespace ProjectHub.Sqlite.Format

open Decimal (Double)

/-- How a place of a format is filled. -/
structure Place where
  leftAligned : Bool := false
  /-- What stands before a number that is not negative. -/
  plus : String := ""
  /-- Whether hexadecimal and octal numbers show their base. -/
  showsBase : Bool := false
  zeroPadded : Bool := false
  /-- Whether a comma stands between groups of three digits. -/
  grouped : Bool := false
  /-- Whether a double has a point with a digit after it in any case. -/
  pointed : Bool := false
  width : Nat := 0
  precision : Option Nat := none

/-- Takes in the flags at the front of a place. -/
def readFlags (place : Place) : List Char → Place × List Char
  | '-' :: rest => readFlags { place with leftAligned := true } rest
  | '+' :: rest => readFlags { place with plus := "+" } rest
  | ' ' :: rest => readFlags { place with plus := if place.plus = "+" then "+" else " " } rest
  | '#' :: rest => readFlags { place with showsBase := true } rest
  | '!' :: rest => readFlags { place with pointed := true } rest
  | '0' :: rest => readFlags { place with zeroPadded := true } rest
  | ',' :: rest => readFlags { place with grouped := true } rest
  | cs => (place, cs)

/-- The greatest width and precision that count. -/
def maxWidth : Nat := 100000

/-- A number of the format, or the next value, as a number of 32 bits, in place of an asterisk,
with what is left of the format and of the values. -/
def readSize (cs : List Char) (args : List Value) : Option Int × List Char × List Value :=
  match cs with
  | '*' :: rest => (some (wrap32 (args.head?.getD .null).toInt), rest, args.drop 1)
  | cs =>
    let digits := cs.takeWhile Char.isDigit
    (if digits.isEmpty then none else some (Text.natOfDigits digits : Int),
      cs.drop digits.length, args)

/-- Digits in groups of three from the right, with commas between them. -/
def groupThrees (digits : List Char) : List Char :=
  let back := digits.reverse
  ((back.zip (List.range back.length)).flatMap fun (c, i) =>
    if i != 0 && i % 3 == 0 then [',', c] else [c]).reverse

/-- A sign and digits brought to the width of a place by zeros, where the place asks for
them. -/
def padZeros (place : Place) (sign : String) (digits : List Char) : String :=
  let missing := if place.zeroPadded && !place.leftAligned then
      place.width - sign.length - digits.length else 0
  sign ++ String.ofList (List.replicate missing '0' ++ digits)

/-- A text brought to the width of a place by spaces. -/
def pad (place : Place) (s : String) : String :=
  let spaces := "".pushn ' ' (place.width - s.length)
  if place.leftAligned then s ++ spaces else spaces ++ s

/-- A whole number in decimal digits. -/
def decimalText (place : Place) (n : Int) : String :=
  let sign := if n < 0 then "-" else place.plus
  let least := (Text.paddedNat (place.precision.getD 1) n.natAbs).toList
  padZeros place sign (if place.grouped then groupThrees least else least)

/-- A number of 64 bits in digits of base eight or sixteen. -/
def basedText (place : Place) (base : Nat) (upper : Bool) (n : Int) : String :=
  let size := (n % 0x10000000000000000).toNat
  let digits := (Nat.toDigits base size).map fun c => if upper then c.toUpper else c
  let least := List.replicate (place.precision.getD 1 - digits.length) '0' ++ digits
  let mark := if !place.showsBase || size = 0 then "" else if base = 8 then "0"
    else if upper then "0X" else "0x"
  padZeros place mark least

/-- The digits of a number from `10 ^ power` down to `10 ^ -places`, from its significant
digits. -/
def spread (digits : List Char) (power : Int) (places : Nat) : List Char × List Char :=
  let zeros (n : Int) : List Char := List.replicate n.toNat '0'
  let whole := if power < 0 then ['0'] else
    digits.take (power.toNat + 1) ++ zeros (power + 1 - digits.length)
  let fraction := zeros (-1 - power) ++ digits.drop (power + 1).toNat
  (whole, fraction.take places ++ zeros ((places : Int) - fraction.length))

/-- The significant digits that count. -/
def maxDigits (place : Place) : Nat := if place.pointed then 26 else 16

/-- The digits of a double rounded to a number of places, and the power of ten of the first. -/
def roundedDigits (place : Place) (b : Decimal.Binary) (places : Nat) : List Char × Int :=
  if b.mantissa = 0 then (['0'], 0)
  else
    let power := (Double.digits 17 b).2
    let count := power + 1 + places
    if count < 0 then (['0'], 0)
    else if count = 0 then
      let (first, power) := Double.digits 1 b
      if first.head?.any fun c => '5' ≤ c then (['1'], power + 1) else (['0'], 0)
    else Double.digits (min count.toNat (maxDigits place)) b

/-- A point and what follows it, where something does. -/
def fractionText (place : Place) (digits : List Char) : List Char :=
  if !digits.isEmpty then '.' :: digits
  else if place.pointed then ".0".toList
  else if place.showsBase then ['.']
  else []

/-- A double with a fixed number of places. -/
def fixedText (place : Place) (sign : String) (b : Decimal.Binary) (places : Nat) : String :=
  let (digits, power) := roundedDigits place b places
  let (whole, fraction) := spread digits power places
  let whole := if place.grouped then groupThrees whole else whole
  padZeros place sign (whole ++ fractionText place fraction)

/-- A double in scientific form, with a fixed number of places. -/
def scientificText (place : Place) (sign : String) (b : Decimal.Binary) (places : Nat)
    (upper : Bool) : String :=
  let (digits, power) := if b.mantissa = 0 then (['0'], 0)
    else Double.digits (min (places + 1) (maxDigits place)) b
  let (whole, fraction) := spread digits 0 places
  let exponent := (Value.exponentText power).toList
  padZeros place sign (whole ++ fractionText place fraction ++
    exponent.map fun c => if upper then c.toUpper else c)

/-- A double in the shorter of the two forms, without zeros at the end. -/
def generalText (place : Place) (sign : String) (b : Decimal.Binary) (upper : Bool) : String :=
  let precision := max 1 (place.precision.getD 6)
  let (digits, power) := if b.mantissa = 0 then (['0'], 0)
    else Double.digits (min precision (maxDigits place)) b
  let kept := if place.showsBase then digits else Value.dropZeros digits
  if power < -4 ∨ precision ≤ power then
    let exponent := (Value.exponentText power).toList
    padZeros place sign (kept.take 1 ++ fractionText place (kept.drop 1) ++
      exponent.map fun c => if upper then c.toUpper else c)
  else
    let places := (kept.length : Int) - 1 - power
    let (whole, fraction) := spread kept power places.toNat
    padZeros place sign (whole ++ fractionText place fraction)

/-- A double as a letter says. -/
def doubleText (place : Place) (letter : Char) (d : Double) : String :=
  let sign := if d.isNegative && d.magnitude.mantissa != 0 then "-" else place.plus
  if d.isInfinite then sign ++ "Inf"
  else
    let places := place.precision.getD 6
    let upper := letter.isUpper
    if letter = 'f' then fixedText place sign d.magnitude places
    else if letter = 'e' ∨ letter = 'E' then scientificText place sign d.magnitude places upper
    else generalText place sign d.magnitude upper

/-- Text with a quote doubled. -/
def doubled (quote : Char) (s : String) : String :=
  String.ofList (s.toList.flatMap fun c => if c = quote then [c, c] else [c])

/-- The characters of a value that a precision admits. -/
def cut (place : Place) (v : Value) : String :=
  let s := v.text?.getD ""
  match place.precision with
  | some n => String.ofList (s.toList.take n)
  | none => s

/-- What fills a place of a letter; nothing if the letter has no meaning. -/
def fillPlace? (place : Place) (letter : Char) (v : Value) : Option String :=
  match letter with
  | 'd' | 'i' => some (pad place (decimalText place v.toInt))
  | 'u' => some (pad place (decimalText { place with plus := "" } (v.toInt % 0x10000000000000000)))
  | 'x' => some (pad place (basedText place 16 false v.toInt))
  | 'X' | 'p' => some (pad place (basedText place 16 true v.toInt))
  | 'o' => some (pad place (basedText place 8 false v.toInt))
  | 'f' | 'e' | 'E' | 'g' | 'G' => some (pad place (doubleText place letter v.toDouble))
  | 's' | 'z' => some (pad place (cut place v))
  | 'c' =>
    let count := max 1 (place.precision.getD 1)
    let first := (v.text?.getD "").toList.take 1
    some (pad place (String.ofList ((List.replicate count first).flatten)))
  | 'q' => some (pad place (doubled '\'' (if v == .null then "(NULL)" else cut place v)))
  | 'w' => some (pad place (doubled '"' (if v == .null then "(NULL)" else cut place v)))
  | 'Q' =>
    some (pad place (if v == .null then "NULL" else "'" ++ doubled '\'' (cut place v) ++ "'"))
  | _ => none

/-- The text before a place, as a list of one part or none. -/
def partOf (cs : List Char) : List String :=
  if cs.isEmpty then [] else [String.ofList cs]

/-- The parts of a format, its places filled; `steps` bounds them. -/
def parts : Nat → List Char → List Value → List String
  | 0, _, _ => []
  | steps + 1, cs, args =>
    let front := partOf (cs.takeWhile fun c => c != '%')
    match cs.dropWhile fun c => c != '%' with
    | [] => front
    | [_] => front ++ ["%"]
    | _ :: spec =>
      let (place, afterFlags) := readFlags {} spec
      let (width, afterWidth, args) := readSize afterFlags args
      let place := { place with
        width := min (width.getD 0).natAbs maxWidth
        leftAligned := place.leftAligned || width.any fun n => n < 0 }
      let (precision, afterPrecision, args) := match afterWidth with
        | '.' :: rest =>
          let (n, after, args) := readSize rest args
          (some (min (n.getD 0).natAbs maxWidth), after, args)
        | rest => (none, rest, args)
      let place := { place with precision := precision }
      match afterPrecision.dropWhile fun c => c == 'l' with
      | '%' :: rest => front ++ pad place "%" :: parts steps rest args
      | 'n' :: rest => front ++ "" :: parts steps rest args
      | letter :: rest =>
        match fillPlace? place letter (args.head?.getD .null) with
        | some filled => front ++ filled :: parts steps rest (args.drop 1)
        | none => front
      | [] => front

/-- The text of a format with its places filled from values; places without a value are filled
as if with NULL. Of a format without parts nothing comes. -/
def fill? (format : String) (args : List Value) : Option String :=
  let cs := Value.beforeNul format
  match parts (cs.length + 1) cs args with
  | [] => none
  | filled => some (String.join filled)

end ProjectHub.Sqlite.Format
