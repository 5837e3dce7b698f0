import ProjectHub.Text.Utf8

/-!
# Hexadecimal digits

Lower-case digits of numbers and of bytes, upper-case digits for percent
encoding, and the value of a digit in either case.
-/

namespace ProjectHub.Text

/-- The lower-case hexadecimal digit of a value below sixteen. -/
def hexDigit (n : Nat) : Char :=
  if n < 10 then Char.ofNat (48 + n) else Char.ofNat (87 + n)

/-- The upper-case hexadecimal digit of a value below sixteen. -/
def hexDigitUpper (n : Nat) : Char :=
  if n < 10 then Char.ofNat (48 + n) else Char.ofNat (55 + n)

/-- The value of a hexadecimal digit in either case. -/
def hexValue (c : Char) : Option Nat :=
  if '0' ≤ c ∧ c ≤ '9' then some (c.toNat - 48)
  else if 'a' ≤ c ∧ c ≤ 'f' then some (c.toNat - 87)
  else if 'A' ≤ c ∧ c ≤ 'F' then some (c.toNat - 55)
  else none

/-- The digits of a number without leading zeros, in front of `rest`. -/
def hexDigits (n : Nat) (rest : List Char) : List Char :=
  if n < 16 then hexDigit n :: rest
  else hexDigits (n / 16) (hexDigit (n % 16) :: rest)
termination_by n

/-- Two digits for each byte. -/
def hexOfBytes (bytes : List UInt8) : String :=
  String.ofList (bytes.flatMap fun b => [hexDigit (b.toNat / 16), hexDigit (b.toNat % 16)])

/-- The bytes of an even number of hexadecimal digits. -/
def bytesOfHex : List Char → Option (List UInt8)
  | [] => some []
  | a :: b :: rest => do
    let high ← hexValue a
    let low ← hexValue b
    return UInt8.ofNat (16 * high + low) :: (← bytesOfHex rest)
  | [_] => none

/-!
## Percent encoding

A byte may be written as a percent sign and two hexadecimal digits. Reading
leaves a percent sign alone where no two digits follow it.
-/

/-- The bytes that percent-encoded bytes stand for. -/
def percentDecode : List UInt8 → List UInt8
  | 37 :: a :: b :: rest =>
    match hexValue (Char.ofNat a.toNat), hexValue (Char.ofNat b.toNat) with
    | some high, some low => UInt8.ofNat (16 * high + low) :: percentDecode rest
    | _, _ => 37 :: percentDecode (a :: b :: rest)
  | byte :: rest => byte :: percentDecode rest
  | [] => []

/-- A byte as a percent sign and two upper-case digits. -/
def percentByte (byte : UInt8) : List Char :=
  ['%', hexDigitUpper (byte.toNat / 16), hexDigitUpper (byte.toNat % 16)]

/-- The characters that pass the test as they are, the UTF-8 bytes of all others encoded. -/
def percentEncode (keep : Char → Bool) (cs : List Char) : List Char :=
  cs.flatMap fun c =>
    if keep c then [c] else (toUtf8 c.toString).flatMap percentByte

/-- The name and value pairs of a query. -/
def queryPairs (query : String) : List (String × String) :=
  let decode (s : String) : String :=
    ofUtf8Lossy (percentDecode ((toUtf8 s).map fun byte => if byte = 43 then 32 else byte))
  (query.splitOn "&").filterMap fun part =>
    if part.isEmpty then none
    else
      match part.splitOn "=" with
      | name :: value => some (decode name, decode ("=".intercalate value))
      | [] => none

end ProjectHub.Text
