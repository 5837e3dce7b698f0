import ProjectHub.Toml.Scalar
import ProjectHub.Toml.Text

/-!
# TOML documents

The lines of a document are read first: keys with their values, and headers.
Then they are carried out in order on the tables. Arrays and tables in braces
nest to a depth, and dotted keys have a length, below a limit of their own.
-/

namespace ProjectHub.Toml

/-- The limit that nesting and the parts of a key stay below. -/
def limit : Nat := 80

/-- Characters of a key without quotes. -/
def isBare (c : Char) : Bool :=
  c.isAlphanum || c == '-' || c == '_'

/-- One part of a key. -/
def readKeyPart : (cs : List Char) → Option (Reading String cs)
  | [] => none
  | c :: rest =>
    if c = '"' then
      (readShort c true rest).map fun part => (part.map String.ofList).behind c
    else if c = '\'' then
      (readShort c false rest).map fun part => (part.map String.ofList).behind c
    else if isBare c then
      some ⟨String.ofList (c :: rest.takeWhile isBare), rest.dropWhile isBare,
        Nat.lt_succ_of_le (List.dropWhile_sublist _).length_le⟩
    else none

/-- The parts of a key, with points between them, and the blanks around it. -/
def readKeyParts (cs : List Char) : Option (Reading (List String) cs) := do
  let part ← (readKeyPart (skipSpaces cs)).map fun part =>
    (part.ofSuffix (length_skipSpaces cs)).skipping length_skipSpaces
  match h : part.rest with
  | '.' :: more =>
    let parts ← readKeyParts more
    return ((part.taking h).after parts).map (part.value :: ·)
  | _ => return part.map ([·])
termination_by cs.length
decreasing_by exact (part.taking h).shorter

/-- A key: the path to its table, and its name there. -/
structure Key where
  path : List String
  name : String

/-- The key of parts. -/
def Key.ofParts? (parts : List String) : Option Key :=
  match parts.getLast? with
  | some name => if parts.length < limit then some ⟨parts.dropLast, name⟩ else none
  | none => none

/-- A key. -/
def readKey (cs : List Char) : Option (Reading Key cs) := do
  let parts ← readKeyParts cs
  let key ← Key.ofParts? parts.value
  return parts.map fun _ => key

/-- A reader of values. -/
abbrev ValueReader := (cs : List Char) → Option (Reading Toml cs)

/-- The items of an array, up to and with its bracket. A comma may follow the last. -/
def readItems (read : ValueReader) (cs : List Char) : Option (Reading (List Toml) cs) :=
  match h : skipLayout cs with
  | ']' :: after => some ((Reading.ofHead [] ']' after).ofSuffix (h ▸ length_skipLayout cs))
  | _ => do
    let item ← (read (skipLayout cs)).map fun item =>
      (item.ofSuffix (length_skipLayout cs)).skipping length_skipLayout
    match h : item.rest with
    | ']' :: _ => return (item.taking h).map ([·])
    | ',' :: more =>
      let items ← readItems read more
      return ((item.taking h).after items).map (item.value :: ·)
    | _ => none
termination_by cs.length
decreasing_by exact (item.taking h).shorter

/-- A key with its value. -/
abbrev Pair := List String × String × Toml

/-- A key, an equals sign and a value. -/
def readPair (read : ValueReader) (cs : List Char) : Option (Reading Pair cs) := do
  let key ← readKey cs
  match h : key.rest with
  | '=' :: more =>
    let value ← read (skipSpaces more)
    return ((key.taking h).after (value.ofSuffix (length_skipSpaces more))).map
      fun value => (key.value.path, key.value.name, value)
  | _ => none

/-- The pairs of a table in braces, at least one, up to and with its brace. -/
def readPairs (read : ValueReader) (cs : List Char) : Option (Reading (List Pair) cs) := do
  let pair ← (readPair read cs).map fun pair => pair.skipping length_skipSpaces
  match h : pair.rest with
  | '\x7d' :: _ => return (pair.taking h).map ([·])
  | ',' :: more =>
    let pairs ← readPairs read more
    return ((pair.taking h).after pairs).map (pair.value :: ·)
  | _ => none
termination_by cs.length
decreasing_by exact (pair.taking h).shorter

/-- A table after its opening brace. -/
def readBraces (read : ValueReader) (cs : List Char) : Option (Reading Toml cs) :=
  match h : skipSpaces cs with
  | '\x7d' :: after =>
    some ((Reading.ofHead (.table .braces []) '\x7d' after).ofSuffix (h ▸ length_skipSpaces cs))
  | _ => do
    let pairs ← readPairs read cs
    let table ← ofPairs? pairs.value
    return pairs.map fun _ => table

/-- A value with at most `depth` levels of arrays and tables. -/
def readValue : (depth : Nat) → ValueReader
  | _, [] => none
  | depth, c :: rest =>
    if c = '"' ∨ c = '\'' then
      (readText c rest).map fun text => (text.map .text).behind c
    else if c = '[' then
      match depth with
      | 0 => none
      | inner + 1 =>
        (readItems (readValue inner) rest).map fun items => (items.map .array).behind c
    else if c = '\x7b' then
      match depth with
      | 0 => none
      | inner + 1 => (readBraces (readValue inner) rest).map (Reading.behind c)
    else if "true".toList.isPrefixOf (c :: rest) then
      Reading.ofRest? (.bool true) (rest.drop 3)
    else if "false".toList.isPrefixOf (c :: rest) then
      Reading.ofRest? (.bool false) (rest.drop 4)
    else do
      let (value, after) ← readScalar? (c :: rest)
      Reading.ofRest? value after

/-- What a line does. -/
inductive Line where
  /-- Gives a key its value, in the table of the last header. -/
  | assign (key : Key) (value : Toml)
  /-- Opens a table. -/
  | header (key : Key)
  /-- Opens a row of an array of tables. -/
  | rowHeader (key : Key)

/-- What follows the end of a line: blanks, a comment, and a line end or the end of the
text. -/
def endLine? (cs : List Char) : Option { rest : List Char // rest.length ≤ cs.length } :=
  match h : skipComment (skipSpaces cs) with
  | [] => some ⟨[], Nat.zero_le _⟩
  | c :: after =>
    (newline? (c :: after)).map fun line => ⟨line.rest, by
      have := length_skipComment (skipSpaces cs)
      have := length_skipSpaces cs
      have := line.shorter
      rw [h] at *
      omega⟩

/-- The line at the front of a text that starts with it. -/
def readLine : (cs : List Char) → Option (Reading Line cs)
  | '[' :: '[' :: rest => do
    let key ← readKey rest
    match h : key.rest with
    | ']' :: ']' :: after =>
      return ⟨.rowHeader key.value, after, by
        have := key.shorter
        simp only [h, List.length_cons] at *
        omega⟩
    | _ => none
  | '[' :: rest => do
    let key ← readKey rest
    match h : key.rest with
    | ']' :: after =>
      return ⟨.header key.value, after, by
        have := key.shorter
        simp only [h, List.length_cons] at *
        omega⟩
    | _ => none
  | cs => do
    let pair ← readPair (readValue (limit - 1)) cs
    let (path, name, value) := pair.value
    return pair.map fun _ => .assign ⟨path, name⟩ value

/-- The lines of a text. -/
def readLines (cs : List Char) : Option (List Line) :=
  match skipLayout cs with
  | [] => some []
  | '#' :: rest => if (skipComment ('#' :: rest)).isEmpty then some [] else none
  | _ => do
    let line ← readLine (skipLayout cs)
    let after ← endLine? line.rest
    let lines ← readLines after.val
    return line.value :: lines
termination_by cs.length
decreasing_by
  have := length_skipLayout cs
  have := line.shorter
  have := after.property
  omega

/-- Carries out lines; keys go to the place of the last header. -/
def carryOut? : (place : List String) → List Line → Members → Option Members
  | _, [], members => some members
  | place, line :: rest, members =>
    match line with
    | .assign key value => do
      carryOut? place rest (← within? (assign? key.path key.name value) place members)
    | .header key => do
      carryOut? (key.path ++ [key.name]) rest (← openTable? key.path key.name members)
    | .rowHeader key => do
      carryOut? (key.path ++ [key.name]) rest (← openRow? key.path key.name members)

/-- The table that a document defines. A mark of byte order at its start is passed over. -/
def parse? (text : String) : Option Toml := do
  let cs := match text.toList with
    | '\uFEFF' :: rest => rest
    | cs => cs
  let lines ← readLines cs
  (carryOut? [] lines []).map (.table .header)

end ProjectHub.Toml
