/-!
# Base64

The standard alphabet with canonical padding: three bytes become four symbols,
and a last group of one or two bytes is filled up with `=`. Decoding refuses
everything that encoding does not write, and says where it stopped.
-/

namespace ProjectHub.Base64

/-- Why a text is no encoding. Offsets count bytes from zero. -/
inductive Fault where
  /-- A byte that cannot stand where it does. -/
  | invalidSymbol (byte : UInt8) (offset : Nat)
  /-- The text ends after too few symbols. -/
  | invalidLength (length : Nat)
  /-- The last group is not filled up to four. -/
  | invalidPadding
  /-- The last symbol carries bits that no byte takes. -/
  | invalidLastSymbol (byte : UInt8) (offset : Nat)
  deriving DecidableEq

namespace Fault

/-- The wording of a fault. -/
def message : Fault → String
  | invalidSymbol byte offset =>
    "Invalid symbol " ++ toString byte.toNat ++ ", offset " ++ toString offset ++ "."
  | invalidLength length => "Invalid input length: " ++ toString length
  | invalidPadding => "Invalid padding"
  | invalidLastSymbol byte offset =>
    "Invalid last symbol " ++ toString byte.toNat ++ ", offset " ++ toString offset ++ "."

end Fault

/-- The padding byte. -/
def padding : UInt8 := 61

/-- The symbol of a value below sixty-four. -/
def symbol (value : Nat) : UInt8 :=
  if value < 26 then UInt8.ofNat (65 + value)
  else if value < 52 then UInt8.ofNat (71 + value)
  else if value < 62 then UInt8.ofNat (value - 4)
  else if value = 62 then 43
  else 47

/-- The value of a symbol. -/
def value? (byte : UInt8) : Option Nat :=
  let n := byte.toNat
  if 65 ≤ n ∧ n ≤ 90 then some (n - 65)
  else if 97 ≤ n ∧ n ≤ 122 then some (n - 71)
  else if 48 ≤ n ∧ n ≤ 57 then some (n + 4)
  else if n = 43 then some 62
  else if n = 47 then some 63
  else none

/-- The symbols of bytes. -/
def encode : List UInt8 → List UInt8
  | [] => []
  | [a] =>
    let n := a.toNat
    [symbol (n / 4), symbol (n % 4 * 16), padding, padding]
  | [a, b] =>
    let n := a.toNat * 256 + b.toNat
    [symbol (n / 1024), symbol (n / 16 % 64), symbol (n % 16 * 4), padding]
  | a :: b :: c :: rest =>
    let n := (a.toNat * 256 + b.toNat) * 256 + c.toNat
    symbol (n / 262144) :: symbol (n / 4096 % 64) :: symbol (n / 64 % 64) :: symbol (n % 64) ::
      encode rest

/-- The value of a symbol at an offset. -/
def valueAt (offset : Nat) (byte : UInt8) : Except Fault Nat :=
  match value? byte with
  | some value => .ok value
  | none => .error (.invalidSymbol byte offset)

/-- The values of the symbols of a last group, read up to its padding. -/
def lastValues (offset position : Nat) : List UInt8 → Except Fault (List Nat)
  | [] => .ok []
  | byte :: rest =>
    if byte = padding then
      if position < 2 then .error (.invalidSymbol padding (offset + position))
      else if rest.all (· == padding) then .ok []
      else .error (.invalidSymbol padding (offset + position))
    else do
      let value ← valueAt (offset + position) byte
      return value :: (← lastValues offset (position + 1) rest)

/-- The bytes of a last group of at most four. -/
def decodeLast (offset : Nat) (group : List UInt8) : Except Fault (List UInt8) := do
  let values ← lastValues offset 0 group
  if group.length ≠ 0 ∧ values.length < 2 then
    throw (.invalidLength (offset + values.length))
  if group.length % 4 ≠ 0 then throw .invalidPadding
  match values with
  | [a, b, c, d] =>
    let n := ((a * 64 + b) * 64 + c) * 64 + d
    return [UInt8.ofNat (n / 65536), UInt8.ofNat (n / 256), UInt8.ofNat n]
  | [a, b, c] =>
    if c % 4 ≠ 0 then throw (.invalidLastSymbol (symbol c) (offset + 2))
    let n := (a * 64 + b) * 64 + c
    return [UInt8.ofNat (n / 1024), UInt8.ofNat (n / 4)]
  | [a, b] =>
    if b % 16 ≠ 0 then throw (.invalidLastSymbol (symbol b) (offset + 1))
    return [UInt8.ofNat ((a * 64 + b) / 16)]
  | _ => return []

/-- The bytes of the symbols that start at an offset. -/
def decodeFrom (offset : Nat) : List UInt8 → Except Fault (List UInt8)
  | a :: b :: c :: d :: next :: rest => do
    let a ← valueAt offset a
    let b ← valueAt (offset + 1) b
    let c ← valueAt (offset + 2) c
    let d ← valueAt (offset + 3) d
    let n := ((a * 64 + b) * 64 + c) * 64 + d
    let bytes ← decodeFrom (offset + 4) (next :: rest)
    return UInt8.ofNat (n / 65536) :: UInt8.ofNat (n / 256) :: UInt8.ofNat n :: bytes
  | group => decodeLast offset group

/-- A last byte that is no symbol is found first when it alone makes up the last group. -/
def strayLast? (symbols : List UInt8) : Option Fault :=
  match symbols.getLast? with
  | some byte =>
    if symbols.length % 4 = 1 ∧ byte ≠ padding ∧ (value? byte).isNone then
      some (.invalidSymbol byte (symbols.length - 1))
    else none
  | none => none

/-- The bytes that a text encodes, or why it encodes none. -/
def decode (symbols : List UInt8) : Except Fault (List UInt8) :=
  match strayLast? symbols with
  | some fault => .error fault
  | none => decodeFrom 0 symbols

/-- The text that encodes bytes. -/
def encodeText (bytes : List UInt8) : String :=
  String.ofList ((encode bytes).map fun byte => Char.ofNat byte.toNat)

/-- The bytes that the UTF-8 form of a text encodes. -/
def decodeText (text : String) : Except Fault (List UInt8) :=
  decode text.toUTF8.toList

end ProjectHub.Base64
