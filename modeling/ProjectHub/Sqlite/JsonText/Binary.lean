import ProjectHub.Sqlite.JsonText.Basic

/-!
# JSON texts in bytes

A JSON text can also be kept as bytes. Every part starts with a byte whose lower
half is the kind of the part and whose upper half is the number of bytes that
follow, or tells how many bytes say that number. What follows is the spelling of
a word, number or text, or the parts of a list or an object.
-/

namespace ProjectHub.Sqlite.JsonText

/-! ## Writing -/

/-- The bytes of a number, the highest first. -/
def sizeBytes (count n : Nat) : List UInt8 :=
  (List.range count).reverse.map fun i => UInt8.ofNat (n / Nat.pow 256 i % 256)

/-- The bytes of a part of a kind. -/
def partBytes (kind : Nat) (payload : List UInt8) : List UInt8 :=
  let size := payload.length
  let front (upper : Nat) : UInt8 := UInt8.ofNat (16 * upper + kind)
  if size < 12 then front size :: payload
  else if size < 0x100 then front 12 :: sizeBytes 1 size ++ payload
  else if size < 0x10000 then front 13 :: sizeBytes 2 size ++ payload
  else front 14 :: sizeBytes 4 size ++ payload

/-- The bytes of a text, spelled with escapes where it needs them. -/
def textBytes (s : String) : List UInt8 :=
  let spelling := ((Json.renderText s).toList.drop 1).dropLast
  partBytes (if spelling == s.toList then 7 else 8) (Text.toUtf8 (String.ofList spelling))

/-- Whether the spelling of a number is that of a whole number. -/
def isWhole (spelling : String) : Bool :=
  spelling.toList.all fun c => c.isDigit || c == '-'

mutual

/-- The bytes of a JSON text. -/
def toBytes : JsonText → List UInt8
  | .plain "null" => partBytes 0 []
  | .plain "true" => partBytes 1 []
  | .plain "false" => partBytes 2 []
  | .plain spelling => partBytes (if isWhole spelling then 3 else 5) (Text.toUtf8 spelling)
  | .text s => textBytes s
  | .array items => partBytes 11 (itemBytes items)
  | .object members => partBytes 12 (memberBytes members)

/-- The bytes of the elements of a list. -/
def itemBytes : List JsonText → List UInt8
  | [] => []
  | j :: rest => j.toBytes ++ itemBytes rest

/-- The bytes of the names and values of an object in turn. -/
def memberBytes : List (String × JsonText) → List UInt8
  | [] => []
  | (name, j) :: rest => textBytes name ++ j.toBytes ++ memberBytes rest

end

/-! ## Reading -/

/-- The number of bytes in a part and what follows that number, by the upper half of the first
byte. -/
def readSize? (upper : Nat) (bytes : List UInt8) : Option (Nat × List UInt8) :=
  let count := if upper < 12 then 0 else Nat.pow 2 (upper - 12)
  if bytes.length < count then none
  else
    let size := (bytes.take count).foldl (fun n byte => 256 * n + byte.toNat) 0
    some (if upper < 12 then upper else size, bytes.drop count)

/-- The kind and the content of the part at the front of bytes, and what follows it. -/
def readPart? (bytes : List UInt8) : Option (Nat × List UInt8 × List UInt8) :=
  match bytes with
  | [] => none
  | first :: rest => do
    let (size, rest) ← readSize? (first.toNat / 16) rest
    if rest.length < size then none
    else return (first.toNat % 16, rest.take size, rest.drop size)

/-- Whether bytes look like a JSON text: they are one part of a kind there is, and a word has
nothing in it. -/
def looksBinary (bytes : List UInt8) : Bool :=
  match readPart? bytes with
  | some (kind, payload, []) => kind ≤ 12 && (2 < kind || payload.isEmpty)
  | _ => false

/-- The characters of a text that is spelled with escapes. -/
def unescape? (cs : List Char) : Option String :=
  match quoted? '"' (cs.length + 2) (cs ++ ['"']) with
  | some (s, []) => some (String.ofList s)
  | _ => none

/-- The word, number or text of a kind. -/
def ofPayload? (kind : Nat) (payload : List UInt8) : Option JsonText :=
  let spelling := Text.ofUtf8Lossy payload
  match kind with
  | 0 => if payload.isEmpty then some null else none
  | 1 => if payload.isEmpty then some (.plain "true") else none
  | 2 => if payload.isEmpty then some (.plain "false") else none
  | 3 | 5 => if payload.isEmpty then none else some (.plain spelling)
  | 4 | 6 => (number? spelling.toList).map .plain
  | 7 | 10 => some (.text spelling)
  | 8 | 9 => (unescape? spelling.toList).map .text
  | _ => none

mutual

/-- The JSON text at the front of bytes, and what follows it; `steps` bounds its size. -/
def readBytes? : Nat → List UInt8 → Option (JsonText × List UInt8)
  | 0, _ => none
  | steps + 1, bytes => do
    let (kind, payload, rest) ← readPart? bytes
    match kind with
    | 11 => return (.array (← readParts? steps payload), rest)
    | 12 => return (.object (← pairs? (← readParts? steps payload)), rest)
    | kind => return (← ofPayload? kind payload, rest)

/-- The JSON texts that bytes hold one after the other. -/
def readParts? : Nat → List UInt8 → Option (List JsonText)
  | _, [] => some []
  | 0, _ => none
  | steps + 1, bytes => do
    let (first, rest) ← readBytes? steps bytes
    return first :: (← readParts? steps rest)

/-- Texts and the JSON texts after them, as members. -/
def pairs? : List JsonText → Option (List (String × JsonText))
  | [] => some []
  | .text name :: j :: rest => do return (name, j) :: (← pairs? rest)
  | _ => none

end

/-- The JSON text of bytes. -/
def ofBytes? (bytes : List UInt8) : Option JsonText :=
  match readBytes? (2 * bytes.length + 2) bytes with
  | some (j, []) => some j
  | _ => none

end ProjectHub.Sqlite.JsonText
