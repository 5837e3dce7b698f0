/-!
# Decimal numerals

The two spellings of numbers that settings and default values use: unsigned
whole numbers below a bound, and decimals with a fraction and an exponent.
-/

namespace ProjectHub.Text

/-- The text after one sign, if it starts with one. -/
def dropSign : List Char → List Char
  | '+' :: rest => rest
  | '-' :: rest => rest
  | cs => cs

/-- Nothing, or an exponent: its letter, an optional sign and at least one digit. -/
def isExponent : List Char → Bool
  | [] => true
  | c :: rest =>
    let digits := dropSign rest
    (c == 'e' || c == 'E') && !digits.isEmpty && digits.all Char.isDigit

/-- An unsigned decimal: digits around an optional point, at least one in all, and an
optional exponent. -/
def isDecimal (cs : List Char) : Bool :=
  let whole := cs.takeWhile Char.isDigit
  match cs.dropWhile Char.isDigit with
  | '.' :: rest =>
    let places := rest.takeWhile Char.isDigit
    (!whole.isEmpty || !places.isEmpty) && isExponent (rest.dropWhile Char.isDigit)
  | rest => !whole.isEmpty && isExponent rest

/-- The number that decimal digits spell. -/
def natOfDigits (digits : List Char) : Nat :=
  digits.foldl (fun n c => 10 * n + (c.toNat - 48)) 0

/-- A whole number below `bound`: digits after an optional plus sign. -/
def natBelow? (bound : Nat) (s : String) : Option Nat :=
  let digits := match s.toList with
    | '+' :: rest => rest
    | cs => cs
  if !digits.isEmpty && digits.all Char.isDigit && natOfDigits digits < bound then
    some (natOfDigits digits)
  else
    none

/-- The decimal digits of a number, padded with zeros to at least `width` places. -/
def paddedNat (width n : Nat) : String :=
  let digits := (toString n).toList
  String.ofList (List.replicate (width - digits.length) '0' ++ digits)

end ProjectHub.Text
