import ProjectHub.Json.Printer
import ProjectHub.Sqlite.Value

/-!
# JSON texts

JSON as the functions of SQL have it: the members of an object stay in their
order, a name may come twice, and a number keeps its spelling. Texts are read in
a wider form of JSON, with bare names, single quotes, commas at the end and
comments, and written in the narrow one.
-/

namespace ProjectHub.Sqlite

/-- A JSON text. -/
inductive JsonText where
  /-- A word or a number, by its spelling. -/
  | plain (spelling : String)
  | text (s : String)
  | array (items : List JsonText)
  | object (members : List (String × JsonText))
  deriving Inhabited

namespace JsonText

/-- The null of JSON. -/
def null : JsonText := .plain "null"

/-! ## Writing -/

mutual

/-- The text without blanks. -/
def render : JsonText → String
  | .plain spelling => spelling
  | .text s => Json.renderText s
  | .array items => "[" ++ renderItems items ++ "]"
  | .object members => "\x7b" ++ renderMembers members ++ "\x7d"

/-- The elements of a list, with commas between them. -/
def renderItems : List JsonText → String
  | [] => ""
  | [j] => j.render
  | j :: rest => j.render ++ "," ++ renderItems rest

/-- The members of an object, with commas between them. -/
def renderMembers : List (String × JsonText) → String
  | [] => ""
  | [(name, j)] => Json.renderText name ++ ":" ++ j.render
  | (name, j) :: rest => Json.renderText name ++ ":" ++ j.render ++ "," ++ renderMembers rest

end

/-- A line end and an indent. -/
def lineEnd (indent : String) (depth : Nat) : String :=
  "\n" ++ String.join (List.replicate depth indent)

mutual

/-- The text with an element or member on each line. -/
def pretty (indent : String) (depth : Nat) : JsonText → String
  | .array [] => "[]"
  | .object [] => "\x7b\x7d"
  | .array items => "[" ++ prettyItems indent depth items ++ lineEnd indent depth ++ "]"
  | .object members =>
    "\x7b" ++ prettyMembers indent depth members ++ lineEnd indent depth ++ "\x7d"
  | .plain spelling => spelling
  | .text s => Json.renderText s

/-- The elements of a list, each on a line. -/
def prettyItems (indent : String) (depth : Nat) : List JsonText → String
  | [] => ""
  | j :: rest =>
    lineEnd indent (depth + 1) ++ j.pretty indent (depth + 1) ++
      (if rest.isEmpty then "" else ",") ++ prettyItems indent depth rest

/-- The members of an object, each on a line. -/
def prettyMembers (indent : String) (depth : Nat) : List (String × JsonText) → String
  | [] => ""
  | (name, j) :: rest =>
    lineEnd indent (depth + 1) ++ Json.renderText name ++ ": " ++ j.pretty indent (depth + 1) ++
      (if rest.isEmpty then "" else ",") ++ prettyMembers indent depth rest

end

/-! ## Reading -/

/-- The text without blanks and comments at its front; `steps` bounds them. -/
def skip : Nat → List Char → List Char
  | 0, cs => cs
  | steps + 1, '/' :: '/' :: rest => skip steps (rest.dropWhile fun c => c != '\n' && c != '\r')
  | steps + 1, '/' :: '*' :: rest =>
    let body := rest.takeWhile fun c => c != '*'
    match rest.drop body.length with
    | '*' :: '/' :: after => skip steps after
    | '*' :: more => skip steps ('/' :: '*' :: more)
    | _ => '/' :: '*' :: rest
  | steps + 1, c :: rest =>
    if [' ', '\t', '\n', '\r', '\x0b', '\x0c', '\xa0', '\ufeff'].contains c then skip steps rest
    else c :: rest
  | _, [] => []

/-- The text without blanks and comments at its front. -/
def skipBlanks (cs : List Char) : List Char :=
  skip (cs.length + 1) cs

/-- What follows a character, blanks before it aside. -/
def after? (mark : Char) (cs : List Char) : Option (List Char) :=
  match skipBlanks cs with
  | c :: rest => if c = mark then some rest else none
  | [] => none

/-- A code of hexadecimal digits. -/
def code? (cs : List Char) : Option Nat :=
  cs.foldlM (fun n c => (Text.hexValue c).map fun digit => 16 * n + digit) 0

/-- The characters up to a closing quote, and the text after it; `steps` bounds them. -/
def quoted? (quote : Char) : Nat → List Char → Option (List Char × List Char)
  | 0, _ => none
  | _, [] => none
  | steps + 1, '\\' :: 'u' :: a :: b :: c :: d :: rest => do
    let n ← code? [a, b, c, d]
    let (more, after) ← quoted? quote steps rest
    return (Char.ofNat n :: more, after)
  | steps + 1, '\\' :: c :: rest => do
    let (more, after) ← quoted? quote steps rest
    match c with
    | 'b' => return ('\x08' :: more, after)
    | 'f' => return ('\x0c' :: more, after)
    | 'n' => return ('\n' :: more, after)
    | 'r' => return ('\r' :: more, after)
    | 't' => return ('\t' :: more, after)
    | 'v' => return ('\x0b' :: more, after)
    | '0' => return ('\x00' :: more, after)
    | '\n' => return (more, after)
    | '"' | '\'' | '\\' | '/' => return (c :: more, after)
    | _ => none
  | steps + 1, c :: rest =>
    if c = quote then some ([], rest)
    else if c = '\\' then none
    else (quoted? quote steps rest).map fun (more, after) => (c :: more, after)

/-- The number of a spelling in the narrow form: digits around the point, no plus sign, no
hexadecimal digits. -/
def number? (cs : List Char) : Option String :=
  let (sign, digits) : String × List Char := match cs with
    | '-' :: rest => ("-", rest)
    | '+' :: rest => ("", rest)
    | cs => ("", cs)
  match digits with
  | '0' :: x :: hex =>
    if x = 'x' ∨ x = 'X' then
      if hex.isEmpty then none else (code? hex).map fun n => sign ++ toString n
    else if x.isDigit then none
    else decimal? sign digits
  | _ => decimal? sign digits
where
  /-- The number of a decimal spelling after its sign. -/
  decimal? (sign : String) (digits : List Char) : Option String :=
    if digits == "Infinity".toList || digits.map Char.toLower == "inf".toList then
      some (sign ++ "9e999")
    else if !Text.isDecimal digits then none
    else
      let whole := digits.takeWhile Char.isDigit
      let rest := digits.drop whole.length
      let front := if whole.isEmpty then ['0'] else whole
      match rest with
      | '.' :: more =>
        let fraction := more.takeWhile Char.isDigit
        let shown := if fraction.isEmpty then ['0'] else fraction
        some (sign ++ String.ofList (front ++ '.' :: shown ++ more.drop fraction.length))
      | rest => some (sign ++ String.ofList (front ++ rest))

/-- Whether a character can be in a bare name. -/
def isNameChar (c : Char) : Bool :=
  c.isAlphanum || c == '_' || c == '$' || 128 ≤ c.toNat

/-- The characters of a word or a number. -/
def isPlainChar (c : Char) : Bool :=
  isNameChar c || c == '+' || c == '-' || c == '.'

/-- The word or number of a spelling. -/
def ofPlain? (cs : List Char) : Option JsonText :=
  let spelling := String.ofList cs
  if ["null", "true", "false"].contains spelling then some (.plain spelling)
  else if ["nan", "qnan", "snan"].contains (Text.lowerAscii spelling) then some null
  else (number? cs).map .plain

mutual

/-- A JSON text at the front of a text, with the text after it; `steps` bounds its size. -/
def read? : Nat → List Char → Option (JsonText × List Char)
  | 0, _ => none
  | steps + 1, cs =>
    match skipBlanks cs with
    | '[' :: rest =>
      match after? ']' rest with
      | some after => some (.array [], after)
      | none => (readItems? steps rest).map fun (items, after) => (.array items, after)
    | '\x7b' :: rest =>
      match after? '\x7d' rest with
      | some after => some (.object [], after)
      | none => (readMembers? steps rest).map fun (members, after) => (.object members, after)
    | c :: rest =>
      if c = '"' ∨ c = '\'' then
        (quoted? c (rest.length + 1) rest).map fun (s, after) => (.text (String.ofList s), after)
      else
        let word := (c :: rest).takeWhile isPlainChar
        (ofPlain? word).map fun j => (j, (c :: rest).drop word.length)
    | [] => none

/-- The elements of a list up to its end. -/
def readItems? : Nat → List Char → Option (List JsonText × List Char)
  | 0, _ => none
  | steps + 1, cs => do
    let (first, rest) ← read? steps cs
    match after? ',' rest with
    | none => return ([first], ← after? ']' rest)
    | some rest =>
      match after? ']' rest with
      | some after => return ([first], after)
      | none =>
        let (more, after) ← readItems? steps rest
        return (first :: more, after)

/-- The members of an object up to its end. -/
def readMembers? : Nat → List Char → Option (List (String × JsonText) × List Char)
  | 0, _ => none
  | steps + 1, cs => do
    let (name, rest) ← match skipBlanks cs with
      | c :: rest =>
        if c = '"' ∨ c = '\'' then quoted? c (rest.length + 1) rest
        else
          let word := (c :: rest).takeWhile isNameChar
          if word.isEmpty || c.isDigit then none else some (word, (c :: rest).drop word.length)
      | [] => none
    let (value, rest) ← read? steps (← after? ':' rest)
    let first := (String.ofList name, value)
    match after? ',' rest with
    | none => return ([first], ← after? '\x7d' rest)
    | some rest =>
      match after? '\x7d' rest with
      | some after => return ([first], after)
      | none =>
        let (more, after) ← readMembers? steps rest
        return (first :: more, after)

end

/-- The JSON text that a text is. -/
def parse? (s : String) : Option JsonText :=
  match read? (2 * s.length + 2) s.toList with
  | some (j, rest) => if (skipBlanks rest).isEmpty then some j else none
  | none => none

/-! ## Parts -/

/-- The first member of a name. -/
def member? (name : String) : JsonText → Option JsonText
  | .object members => (members.find? fun m => m.1 = name).map Prod.snd
  | _ => none

/-- The members with the first of a name replaced, or a new one at the end. -/
def setMember (name : String) (j : JsonText) :
    List (String × JsonText) → List (String × JsonText)
  | [] => [(name, j)]
  | m :: rest => if m.1 = name then (name, j) :: rest else m :: setMember name j rest

/-- The members without the first of a name. -/
def dropMember (name : String) : List (String × JsonText) → List (String × JsonText)
  | [] => []
  | m :: rest => if m.1 = name then rest else m :: dropMember name rest

end JsonText

end ProjectHub.Sqlite
