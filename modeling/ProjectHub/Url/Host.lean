import ProjectHub.Text.Blank
import ProjectHub.Text.Numeral
import ProjectHub.Text.Printable
import ProjectHub.Url.Basic
import ProjectHub.Url.Punycode

/-!
# Hosts

A host is a domain, an address of four bytes, or one of eight pieces in
brackets. Schemes that are not special take other hosts as they are. A domain
whose last label is a number must be an address.
-/

namespace ProjectHub.Url

/-- Why a text is no URL. -/
inductive Fault where
  | noScheme
  | opaqueBase
  | emptyHost
  | domain
  | portNumber
  | address4
  | address6
  | hostCharacter
  deriving DecidableEq

/-- The wording of a fault. -/
def Fault.message : Fault → String
  | .noScheme => "relative URL without a base"
  | .opaqueBase => "relative URL with a cannot-be-a-base base"
  | .emptyHost => "empty host"
  | .domain => "invalid international domain name"
  | .portNumber => "invalid port number"
  | .address4 => "invalid IPv4 address"
  | .address6 => "invalid IPv6 address"
  | .hostCharacter => "invalid domain character"

/-- The value of digits in a base; none where one is no digit. -/
def digitsValue? (base : Nat) (cs : List Char) : Option Nat :=
  cs.foldlM (fun n c => do
    let digit ← Text.hexValue c
    if digit < base then some (base * n + digit) else none) 0

/-- A number as addresses spell it: hexadecimal after `0x`, octal after `0`. -/
def addressNumber? : List Char → Option Nat
  | [] => none
  | ['0'] => some 0
  | '0' :: 'x' :: digits => digitsValue? 16 digits
  | '0' :: 'X' :: digits => digitsValue? 16 digits
  | '0' :: digits => digitsValue? 8 digits
  | digits => digitsValue? 10 digits

/-- The labels of a domain, without the empty one at its end. -/
def labels (domain : String) : List String :=
  let all := domain.splitOn "."
  if 1 < all.length && all.getLast? == some "" then all.dropLast else all

/-- Whether the last label of a domain is a number. -/
def endsInNumber (domain : String) : Bool :=
  match (labels domain).getLast? with
  | some last =>
    !last.isEmpty && (last.toList.all Char.isDigit || (addressNumber? last.toList).isSome)
  | none => false

/-- The address of numbers: each but the last is a byte, the last fills what is left. -/
def address4? (numbers : List Nat) : Option Nat :=
  match numbers.getLast? with
  | none => none
  | some last =>
    let bytes := numbers.dropLast
    if 3 < bytes.length || bytes.any (255 < ·) || Nat.pow 256 (4 - bytes.length) ≤ last then none
    else some (bytes.zipIdx.foldl (fun n (byte, i) => n + byte * Nat.pow 256 (3 - i)) last)

/-- An address of four bytes as text. -/
def renderAddress4 (n : Nat) : String :=
  ".".intercalate ([3, 2, 1, 0].map fun i => toString (n / Nat.pow 256 i % 256))

/-- The pieces of four hexadecimal digits at most, separated by colons. -/
def pieces? (cs : List Char) : Option (List Nat) :=
  if cs.isEmpty then some []
  else
    ((String.ofList cs).splitOn ":").mapM fun piece =>
      if piece.isEmpty || 4 < piece.length then none else digitsValue? 16 piece.toList

/-- The two pieces of an address of four bytes in decimals, written without leading
zeros. -/
def tailPieces? (text : String) : Option (List Nat) := do
  let bytes ← (text.splitOn ".").mapM fun part =>
    if part.isEmpty || (1 < part.length && part.toList.head? == some '0') ||
        !part.toList.all Char.isDigit then none
    else if Text.natOfDigits part.toList ≤ 255 then some (Text.natOfDigits part.toList)
    else none
  match bytes with
  | [a, b, c, d] => some [256 * a + b, 256 * c + d]
  | _ => none

/-- The pieces of a part of an address, of which the last may be written as four bytes. -/
def sidePieces? (mayEndInBytes : Bool) (text : String) : Option (List Nat) :=
  match (text.splitOn ":").getLast? with
  | some last =>
    if mayEndInBytes && last.toList.contains '.' then do
      let front := text.toList.take (text.length - last.length)
      if front.length = 1 then none
      else return (← pieces? front.dropLast) ++ (← tailPieces? last)
    else pieces? text.toList
  | none => some []

/-- The eight pieces of an address. Two colons, once, stand for zeros. -/
def address6? (text : String) : Option (List Nat) :=
  match text.splitOn "::" with
  | [whole] => do
    let pieces ← sidePieces? true whole
    if pieces.length = 8 then some pieces else none
  | [front, back] => do
    let front ← sidePieces? false front
    let back ← sidePieces? true back
    if front.length + back.length < 8 then
      some (front ++ List.replicate (8 - front.length - back.length) 0 ++ back)
    else none
  | _ => none

/-- The longest run of zeros in pieces, as its place and length; the first of equals. -/
def longestZeros (pieces : List Nat) : Nat × Nat :=
  (List.range pieces.length).foldl (fun best i =>
    let run := ((pieces.drop i).takeWhile (· == 0)).length
    if best.2 < run then (i, run) else best) (0, 0)

/-- An address of eight pieces as text, two colons in place of its longest run of zeros. -/
def renderAddress6 (pieces : List Nat) : String :=
  let text (ps : List Nat) : String :=
    ":".intercalate (ps.map fun n => String.ofList (Text.hexDigits n []))
  let (place, run) := longestZeros pieces
  if run < 2 then text pieces
  else text (pieces.take place) ++ "::" ++ text (pieces.drop (place + run))

/-- Characters no host may hold. -/
def isForbidden (c : Char) : Bool :=
  "\x00\t\n\r #/:<>?@[\\]^|".toList.contains c

/-- Characters no domain may hold. -/
def isForbiddenInDomain (c : Char) : Bool :=
  isForbidden c || c.toNat < 32 || c == '%' || c.toNat == 127

/-- Ranges of capital letters, each with the distance to its small letters: Latin, Greek,
Cyrillic, Armenian. -/
def capitalRanges : List (Nat × Nat × Nat) :=
  [(0x41, 0x5A, 32), (0xC0, 0xD6, 32), (0xD8, 0xDE, 32), (0x386, 0x386, 38),
    (0x388, 0x38A, 37), (0x38C, 0x38C, 64), (0x38E, 0x38F, 63), (0x391, 0x3A1, 32),
    (0x3A3, 0x3AB, 32), (0x400, 0x40F, 80), (0x410, 0x42F, 32), (0x531, 0x556, 48)]

/-- Ranges in which capital and small letters take turns, a capital first. -/
def alternatingRanges : List (Nat × Nat) :=
  [(0x100, 0x12F), (0x134, 0x137), (0x139, 0x13E), (0x141, 0x148), (0x14A, 0x177),
    (0x179, 0x17E), (0x1CD, 0x1DC), (0x1DE, 0x1EF), (0x1F8, 0x21F), (0x222, 0x233),
    (0x460, 0x481), (0x48A, 0x4BF), (0x4C1, 0x4CE), (0x4D0, 0x52F), (0x1E00, 0x1E95),
    (0x1EA0, 0x1EFF)]

/-- The code point of a letter in lower case. -/
def smallLetter (n : Nat) : Nat :=
  match capitalRanges.find? fun (low, high, _) => low ≤ n && n ≤ high with
  | some (_, _, distance) => n + distance
  | none =>
    if alternatingRanges.any fun (low, high) => low ≤ n && n ≤ high && n % 2 == low % 2 then n + 1
    else n

/-- A character as domains spell it. -/
def domainChar (c : Char) : Char :=
  let n := c.toNat
  if n = 0x3002 ∨ n = 0xFF0E ∨ n = 0xFF61 then '.'
  else if 0xFF01 ≤ n ∧ n ≤ 0xFF5E then Char.ofNat (smallLetter (n - 0xFEE0))
  else Char.ofNat (smallLetter n)

/-- Characters that have no part in a domain. -/
def isPassedOver (c : Char) : Bool :=
  c.toNat == 0xAD || c.toNat == 0x200B || c.toNat == 0x2060 || c.toNat == 0xFEFF

/-- Whether a character may stand in a domain as it is. -/
def isDomainChar (c : Char) : Bool :=
  !(isForbiddenInDomain c || Text.isBlank c) && (c.toNat < 128 || Text.isPrintable c)

/-- A label in ASCII. One that is spelled in ASCII for other characters has to be the spelling
of characters that domains hold. -/
def labelToAscii? (cs : List Char) : Option String :=
  if !cs.all fun c => c.toNat < 128 then some ("xn--" ++ String.ofList (Punycode.encode cs))
  else if "xn--".toList.isPrefixOf cs then
    match Punycode.decode? (cs.drop 4) with
    | some label =>
      if label.all fun c => isDomainChar c && !isPassedOver c && domainChar c == c then
        some (String.ofList cs)
      else none
    | none => none
  else some (String.ofList cs)

/-- A domain in ASCII. -/
def domainToAscii? (cs : List Char) : Option String :=
  let cs := (cs.filter fun c => !isPassedOver c).map domainChar
  if cs.all isDomainChar then
    (((String.ofList cs).splitOn ".").mapM fun label => labelToAscii? label.toList).map
      ".".intercalate
  else none

/-- What stands between brackets. -/
def bracketed? (cs : List Char) : Option (Option String) :=
  match cs with
  | '[' :: rest =>
    if rest.getLast? = some ']' then some (some (String.ofList rest.dropLast)) else some none
  | _ => none

/-- The host that a text of a URL names. -/
def parseHost (special : Bool) (text : String) : Except Fault String :=
  match bracketed? text.toList with
  | some none => .error .address6
  | some (some inner) =>
    match address6? inner with
    | some pieces => .ok ("[" ++ renderAddress6 pieces ++ "]")
    | none => .error .address6
  | none =>
    if !special then
      if text.toList.any isForbidden then .error .hostCharacter
      else .ok (String.ofList (Text.percentEncode isPlain text.toList))
    else
      match (Text.ofUtf8? (Text.percentDecode (Text.toUtf8 text))).bind fun s =>
          domainToAscii? s.toList with
      | none => .error .domain
      | some domain =>
        if domain.isEmpty then .error .emptyHost
        else if endsInNumber domain then
          match (labels domain).mapM (fun label => addressNumber? label.toList) >>= address4? with
          | some n => .ok (renderAddress4 n)
          | none => .error .address4
        else .ok domain

end ProjectHub.Url
