import ProjectHub.Decimal.Double
import ProjectHub.Text.Letter
import ProjectHub.Text.Utf8

/-!
# Values

What a column of a row holds. A number is a whole number of 64 bits or a double;
the two are compared as the numbers they are. Text can be read as a number, and
every value can be read as text.
-/

namespace ProjectHub.Sqlite

open Decimal (Double)

/-- A value. -/
inductive Value where
  | null
  | integer (n : Int)
  | real (d : Double)
  | text (s : String)
  | blob (bytes : List UInt8)
  deriving DecidableEq, Inhabited

/-- The least whole number of a value. -/
def minInteger : Int := -0x8000000000000000

/-- The greatest whole number of a value. -/
def maxInteger : Int := 0x7FFFFFFFFFFFFFFF

/-- Whether a whole number fits a value. -/
def isInteger64 (n : Int) : Bool :=
  minInteger ≤ n && n ≤ maxInteger

/-- A whole number brought into the range of a value by whole turns of `2 ^ 64`. -/
def wrap64 (n : Int) : Int :=
  let m := n % 0x10000000000000000
  if m ≤ maxInteger then m else m - 0x10000000000000000

/-- A whole number brought into the range of a value by the nearest end of it. -/
def clamp64 (n : Int) : Int :=
  max minInteger (min maxInteger n)

/-- A whole number brought into the range of 32 bits by whole turns of `2 ^ 32`. -/
def wrap32 (n : Int) : Int :=
  let m := n % 0x100000000
  if m < 0x80000000 then m else m - 0x100000000

namespace Value

/-- A truth value as a number. -/
def ofBool (b : Bool) : Value := .integer (if b then 1 else 0)

/-- A double; what is no number is NULL. -/
def ofDouble (d : Double) : Value :=
  if d.isNaN then .null else .real d

/-- A whole number, as a double where it does not fit. -/
def ofInt (n : Int) : Value :=
  if isInteger64 n then .integer n else .real (Double.ofInt n)

/-! ## Numbers as text -/

/-- The digits without the zeros at their end, one digit at least. -/
def dropZeros (digits : List Char) : List Char :=
  let kept := (digits.reverse.dropWhile fun c => c == '0').reverse
  if kept.isEmpty then ['0'] else kept

/-- The exponent of scientific form: a sign and at least two digits. -/
def exponentText (exponent : Int) : String :=
  (if exponent < 0 then "e-" else "e+") ++ Text.paddedNat 2 exponent.natAbs

/-- The text of a positive number from its digits and the power of ten of the first one:
scientific for powers below minus four and above fourteen, with a digit on each side of the
point. -/
def placedText (digits : List Char) (power : Int) : String :=
  let kept := dropZeros digits
  let orZero (cs : List Char) : List Char := if cs.isEmpty then ['0'] else cs
  if power < -4 ∨ 14 < power then
    String.ofList (kept.take 1 ++ ['.'] ++ orZero (kept.drop 1)) ++ exponentText power
  else if power < 0 then
    String.ofList ("0.".toList ++ List.replicate (power.natAbs - 1) '0' ++ kept)
  else
    let whole := power.toNat + 1
    let padded := kept ++ List.replicate (whole - kept.length) '0'
    String.ofList (padded.take whole ++ ['.'] ++ orZero (padded.drop whole))

/-- The text of a double, in fifteen digits at most. -/
def doubleText (d : Double) : String :=
  let sign := if d.isNegative then "-" else ""
  if d.isInfinite then sign ++ "Inf"
  else if d.magnitude.mantissa = 0 then "0.0"
  else
    let (digits, power) := Double.digits 15 d.magnitude
    sign ++ placedText digits power

/-- The value as text; NULL has none. -/
def text? : Value → Option String
  | null => none
  | integer n => some (toString n)
  | real d => some (doubleText d)
  | text s => some s
  | blob bytes => some (Text.ofUtf8Lossy bytes)

/-- The characters of a text before one of code zero. -/
def beforeNul (s : String) : List Char :=
  s.toList.takeWhile fun c => c != '\x00'

/-- The bytes of the value as text. -/
def bytes : Value → List UInt8
  | blob bytes => bytes
  | v => Text.toUtf8 (v.text?.getD "")

/-! ## Text as numbers -/

/-- The blanks that may stand around a number in text. -/
def isTextBlank (c : Char) : Bool :=
  [' ', '\t', '\n', '\x0b', '\x0c', '\r'].contains c

/-- The text without blanks at its front. -/
def skipTextBlanks (cs : List Char) : List Char :=
  cs.dropWhile isTextBlank

/-- The longest front of a text that spells an unsigned decimal. -/
def decimalFront (cs : List Char) : List Char :=
  let whole := cs.takeWhile Char.isDigit
  let fraction := match cs.drop whole.length with
    | '.' :: rest => '.' :: rest.takeWhile Char.isDigit
    | _ => []
  let significand := whole ++ fraction
  if !significand.any Char.isDigit then []
  else
    let after := cs.drop significand.length
    match after with
    | e :: rest =>
      let sign := rest.take (rest.length - (Text.dropSign rest).length)
      let digits := (Text.dropSign rest).takeWhile Char.isDigit
      if (e == 'e' || e == 'E') && !digits.isEmpty then significand ++ [e] ++ sign ++ digits
      else significand
    | [] => significand

/-- The number at the front of a text, and the text after it. Digits alone are a whole number
where it fits. -/
def numberFront? (cs : List Char) : Option (Value × List Char) :=
  let signed := skipTextBlanks cs
  let unsigned := Text.dropSign signed
  let isNegative := signed.head? == some '-'
  let spelling := decimalFront unsigned
  if spelling.isEmpty then none
  else
    let rest := unsigned.drop spelling.length
    if spelling.all Char.isDigit then
      let n : Int := Text.natOfDigits spelling
      let whole := if isNegative then -n else n
      if isInteger64 whole then some (.integer whole, rest)
      else some (.real (Double.ofNumeral isNegative spelling), rest)
    else some (.real (Double.ofNumeral isNegative spelling), rest)

/-- The number that a whole text spells, blanks around it aside. -/
def ofNumericText? (s : String) : Option Value :=
  match numberFront? s.toList with
  | some (v, rest) => if rest.all isTextBlank then some v else none
  | none => none

/-- A double that is a whole number within the range of values, its ends aside, as that. -/
def wholeIfExact : Value → Value
  | real d =>
    match d.toInt? with
    | some n => if minInteger < n ∧ n < maxInteger then .integer n else .real d
    | none => .real d
  | v => v

/-- The value as a number for arithmetic: of text and blobs, the number at their front. -/
def toNumber : Value → Value
  | integer n => .integer n
  | real d => .real d
  | null => .null
  | v =>
    match numberFront? (v.text?.getD "").toList with
    | some (n, _) => n
    | none => .integer 0

/-- The value as a double. -/
def toDouble (v : Value) : Double :=
  match v.toNumber with
  | integer n => Double.ofInt n
  | real d => d
  | _ => ⟨0⟩

/-- The value as a whole number: of a double, the part before the point. Of text, only digits
at the front count. -/
def toInt (v : Value) : Int :=
  match v with
  | integer n => n
  | real d =>
    if d.isInfinite then (if d.isNegative then minInteger else maxInteger) else clamp64 d.truncate
  | null => 0
  | v =>
    let signed := skipTextBlanks (v.text?.getD "").toList
    let n : Int := Text.natOfDigits ((Text.dropSign signed).takeWhile Char.isDigit)
    clamp64 (if signed.head? == some '-' then -n else n)

/-- The truth of a value; that of NULL is unknown. -/
def truth? : Value → Option Bool
  | null => none
  | integer n => some (n != 0)
  | v => some (v.toDouble.magnitude.mantissa != 0)

/-! ## Order -/

/-- The order of two numbers. -/
def compareNumbers : Value → Value → Ordering
  | integer a, integer b => Ord.compare a b
  | integer a, real b => Double.compareInt a b
  | real a, integer b => (Double.compareInt b a).swap
  | real a, real b => Double.compare a b
  | _, _ => .eq

end Value

/-- How texts are compared. -/
inductive Collation where
  /-- By their bytes. -/
  | binary
  /-- Without regard to the case of A to Z. -/
  | noCase
  /-- Without regard to spaces at their end. -/
  | rightTrim
  deriving DecidableEq, Inhabited

namespace Collation

/-- The collation of a name. -/
def ofName? (name : String) : Option Collation :=
  match Text.upperAscii name with
  | "BINARY" => some .binary
  | "NOCASE" => some .noCase
  | "RTRIM" => some .rightTrim
  | _ => none

/-- The text that stands for all texts equal to one. -/
def normal (c : Collation) (s : String) : String :=
  match c with
  | binary => s
  | noCase => Text.lowerAscii s
  | rightTrim => String.ofList (s.toList.reverse.dropWhile fun c => c == ' ').reverse

/-- The order of two texts. -/
def compare (c : Collation) (a b : String) : Ordering :=
  Ord.compare (c.normal a) (c.normal b)

end Collation

/-- The order of byte sequences. -/
def compareBytes : List UInt8 → List UInt8 → Ordering
  | [], [] => .eq
  | [], _ :: _ => .lt
  | _ :: _, [] => .gt
  | a :: as, b :: bs => (Ord.compare a b).then (compareBytes as bs)

namespace Value

/-- The class of a value in the order of values: NULL, numbers, text, blobs. -/
def rank : Value → Nat
  | null => 0
  | integer _ | real _ => 1
  | text _ => 2
  | blob _ => 3

/-- The order of two values. -/
def compare (c : Collation) (a b : Value) : Ordering :=
  match a, b with
  | text a, text b => c.compare a b
  | blob a, blob b => compareBytes a b
  | a, b => if a.rank = b.rank then compareNumbers a b else Ord.compare a.rank b.rank

/-- The value that stands for all values equal to one. -/
def normal (c : Collation) (v : Value) : Value :=
  match v with
  | text s => .text (c.normal s)
  | real d =>
    match d.toInt? with
    | some n => if isInteger64 n then .integer n else .real d
    | none => .real d
  | v => v

end Value

/-- How a column prefers its values. -/
inductive Affinity where
  /-- Values as they come. -/
  | blob
  /-- Text in place of numbers. -/
  | text
  /-- Numbers where the text of a value spells one, whole ones where they are. -/
  | numeric
  /-- The same, for types that name whole numbers. -/
  | integer
  /-- Numbers, as doubles. -/
  | real
  deriving DecidableEq, Inhabited

namespace Affinity

/-- Whether a word occurs in a text. -/
def occurs (word : List Char) : List Char → Bool
  | [] => word.isEmpty
  | c :: rest => word.isPrefixOf (c :: rest) || occurs word rest

/-- The affinity of a type, by the words that occur in it. -/
def ofType (type : String) : Affinity :=
  let cs := type.toList.map Char.toUpper
  let has (word : String) : Bool := occurs word.toList cs
  if has "INT" then .integer
  else if has "CHAR" || has "CLOB" || has "TEXT" then .text
  else if has "BLOB" then .blob
  else if has "REAL" || has "FLOA" || has "DOUB" then .real
  else .numeric

/-- Whether the affinity is for numbers. -/
def isNumeric : Affinity → Bool
  | numeric | integer | real => true
  | blob | text => false

/-- A number as text; other values stay. -/
def toText : Value → Value
  | .integer n => .text (toString n)
  | .real d => .text (Value.doubleText d)
  | v => v

/-- Text that spells a number as that; other values stay. -/
def ofSpelling : Value → Value
  | .text s => (Value.ofNumericText? s).getD (.text s)
  | v => v

/-- A value as a column of the affinity stores it. -/
def store (affinity : Affinity) (v : Value) : Value :=
  match affinity with
  | blob => v
  | text => toText v
  | numeric | integer => (ofSpelling v).wholeIfExact
  | real =>
    match ofSpelling v with
    | .integer n => .real (Double.ofInt n)
    | v => v

end Affinity

end ProjectHub.Sqlite
