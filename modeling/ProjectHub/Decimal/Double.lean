import ProjectHub.Text.Numeral

/-!
# Doubles

Numbers of 64 bits with a binary point, compared with each other and with whole
numbers by what they are, not by what they round to. Arithmetic is that of the
machine; decimals are read to the nearest double and written in fifteen digits.
-/

namespace ProjectHub.Decimal

/-!
## Shortest decimals

A double stands for every real that rounds to it. Its shortest decimal is the
multiple of the largest power of ten among those reals, and of two such
multiples the one nearer to the double itself. A decimal from the midpoint
between the largest double and the next power of two on rounds to infinity. All
arithmetic is exact, on natural numbers.
-/

/-- A positive double `mantissa · 2 ^ exponent`, and whether the double below it is closer
than the one above. -/
structure Binary where
  /-- The mantissa, below `2 ^ 53`. -/
  mantissa : Nat
  /-- The exponent of two. -/
  exponent : Int
  /-- Whether the gap below is half the gap above. -/
  narrowBelow : Bool

namespace Binary

/-- The magnitude of the double with the given bits. -/
def ofBits (bits : UInt64) : Binary :=
  let field : Nat := (bits >>> 52).toNat % 2048
  let fraction : Nat := bits.toNat % 0x10000000000000
  if field = 0 then ⟨fraction, -1074, false⟩
  else ⟨0x10000000000000 + fraction, (field : Int) - 1075, fraction == 0 && field != 1⟩

/-- The nearest multiple of `10 ^ place` among the reals that round to the double. -/
def multipleAt? (b : Binary) (place : Int) : Option Nat :=
  let quarter := b.exponent - 2
  let scale (x : Nat) : Nat := x * Nat.pow 2 quarter.toNat * Nat.pow 10 (-place).toNat
  let unit := Nat.pow 10 place.toNat * Nat.pow 2 (-quarter).toNat
  let centre := scale (4 * b.mantissa)
  let low := scale (4 * b.mantissa - if b.narrowBelow then 1 else 2)
  let high := scale (4 * b.mantissa + 2)
  let inside (n : Nat) : Bool :=
    if b.mantissa % 2 = 0 then low ≤ n * unit && n * unit ≤ high
    else low < n * unit && n * unit < high
  let floor := centre / unit
  let below := centre - floor * unit
  let above := (floor + 1) * unit - centre
  let lowFirst := below < above || (below == above && floor % 2 == 0)
  if floor != 0 && inside floor && (lowFirst || !inside (floor + 1)) then some floor
  else if inside (floor + 1) then some (floor + 1)
  else none

/-- The first multiple found from `place` downwards, with its power of ten. -/
def multipleFrom (b : Binary) : Nat → Int → Nat × Int
  | 0, place => (b.mantissa, place)
  | steps + 1, place =>
    match b.multipleAt? place with
    | some n => (n, place)
    | none => multipleFrom b steps (place - 1)

/-- The shortest decimal of a positive double, as a whole number and a power of ten. No
double needs more than seventeen digits, and the search starts at most two places above the
first digit. -/
def shortest (b : Binary) : Nat × Int :=
  b.multipleFrom 24 ((b.exponent + (Nat.log2 b.mantissa : Int)) * 30103 / 100000 + 2)

end Binary

/-- The least number that rounds to infinity. -/
def infinityThreshold : Nat := Nat.pow 2 1024 - Nat.pow 2 970

/-- Whether `n · 10 ^ exponent` rounds to infinity. The number of digits decides all but the few
decimals near that point, so no large power is computed for the others. -/
def roundsToInfinity (n : Nat) (exponent : Int) : Bool :=
  let digits : Int := (toString n).length
  if n = 0 then false
  else if 310 < digits + exponent then true
  else if digits + exponent < 308 then false
  else infinityThreshold * Nat.pow 10 (-exponent).toNat ≤ n * Nat.pow 10 exponent.toNat

/-! ## Doubles as numbers -/

/-- A double, by its bits. -/
structure Double where
  bits : UInt64
  deriving DecidableEq, Inhabited

namespace Double

/-- The double of a machine number. -/
def ofFloat (x : Float) : Double := ⟨x.toBits⟩

/-- The machine number of a double. -/
def toFloat (d : Double) : Float := Float.ofBits d.bits

/-- Positive infinity. -/
def infinity : Double := ⟨0x7FF0000000000000⟩

/-- Whether the sign is minus. -/
def isNegative (d : Double) : Bool :=
  0x8000000000000000 ≤ d.bits

/-- Whether the double is an infinity. -/
def isInfinite (d : Double) : Bool :=
  d.bits % 0x8000000000000000 == infinity.bits

/-- Whether the double is no number. -/
def isNaN (d : Double) : Bool :=
  infinity.bits < d.bits % 0x8000000000000000

/-- The double with the other sign. -/
def negate (d : Double) : Double :=
  ⟨d.bits ^^^ 0x8000000000000000⟩

/-- The magnitude. -/
def magnitude (d : Double) : Binary := Binary.ofBits d.bits

/-- The magnitude times `2 ^ 1074`, a whole number. An infinity counts as more than any other
double. -/
def scaled (d : Double) : Int :=
  let b := d.magnitude
  let size : Int := (b.mantissa * Nat.pow 2 (b.exponent + 1074).toNat : Nat)
  if d.isNegative then -size else size

/-- A whole number times `2 ^ 1074`. -/
def scaledInt (n : Int) : Int :=
  n * (Nat.pow 2 1074 : Nat)

/-- The order of two doubles. -/
def compare (a b : Double) : Ordering :=
  Ord.compare a.scaled b.scaled

/-- The order of a whole number and a double. -/
def compareInt (n : Int) (d : Double) : Ordering :=
  if d.isInfinite then (if d.isNegative then .gt else .lt)
  else Ord.compare (scaledInt n) d.scaled

/-- The whole number towards zero from a finite double. -/
def truncate (d : Double) : Int :=
  let b := d.magnitude
  let size : Nat :=
    if 0 ≤ b.exponent then b.mantissa * Nat.pow 2 b.exponent.toNat
    else b.mantissa / Nat.pow 2 b.exponent.natAbs
  if d.isNegative then -(size : Int) else size

/-- The whole number that a finite double is. -/
def toInt? (d : Double) : Option Int :=
  if !d.isInfinite && scaledInt d.truncate = d.scaled then some d.truncate else none

/-- The double nearest to a whole number. -/
def ofInt (n : Int) : Double :=
  let size := Float.ofScientific n.natAbs false 0
  ofFloat (if n < 0 then -size else size)

/-- The first digits of a decimal that count, and the number of those left out. -/
def keptDigits (digits : List Char) : List Char × Nat :=
  let significant := digits.dropWhile fun c => c == '0'
  (significant.take 19, significant.length - 19)

/-- The double nearest to `digits · 10 ^ exponent`. Nineteen digits count. -/
def ofDecimal (negative : Bool) (digits : List Char) (exponent : Int) : Double :=
  let (kept, dropped) := keptDigits digits
  let n := Text.natOfDigits kept
  let place : Int := exponent + dropped
  let size : Float :=
    if n = 0 then 0.0
    else if 400 < place + kept.length then infinity.toFloat
    else if place + kept.length < -400 then 0.0
    else if 0 ≤ place then Float.ofScientific n false place.toNat
    else Float.ofScientific n true place.natAbs
  ofFloat (if negative then -size else size)

/-- The exponent that a text after its letter spells. -/
def exponentOf (cs : List Char) : Int :=
  match cs with
  | '-' :: digits => -(Text.natOfDigits digits : Int)
  | '+' :: digits => Text.natOfDigits digits
  | digits => Text.natOfDigits digits

/-- The double that an unsigned decimal spells, with a sign. -/
def ofNumeral (negative : Bool) (cs : List Char) : Double :=
  let significand := cs.takeWhile fun c => c != 'e' && c != 'E'
  let exponent := exponentOf (cs.drop (significand.length + 1))
  let whole := significand.takeWhile Char.isDigit
  let places := significand.drop (whole.length + 1)
  ofDecimal negative (whole ++ places) (exponent - places.length)

/-- The first `count` significant digits of a positive finite double, rounded half up, and the
power of ten of the first of them. -/
def digits (count : Nat) (b : Binary) : List Char × Int :=
  let ratio (place : Int) : Nat :=
    let up := b.mantissa * Nat.pow 2 b.exponent.toNat * Nat.pow 10 (-place).toNat
    let down := Nat.pow 2 (-b.exponent).toNat * Nat.pow 10 place.toNat
    (2 * up + down) / (2 * down)
  let guess : Int := (b.exponent + (Nat.log2 b.mantissa : Int)) * 30103 / 100000
  let leading : Int :=
    if Nat.pow 10 count ≤ ratio (guess + 1 - count) then guess + 1 else guess
  let rounded := ratio (leading + 1 - count)
  if Nat.pow 10 count ≤ rounded then ((toString (rounded / 10)).toList, leading + 1)
  else ((toString rounded).toList, leading)

end Double

end ProjectHub.Decimal
