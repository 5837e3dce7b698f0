import ProjectHub.Sql.Quote
import ProjectHub.Text.Hex

/-!
# Tokens of SQL

SQL text as the database reads it. Blanks and comments separate tokens and
belong to the token they stand before, so the text of a part of a statement can
be told from its tokens. A text with a piece that is no token or a
character of code zero is not read at all.
-/

namespace ProjectHub.Sqlite

/-- A token of SQL. -/
inductive Token where
  /-- A bare word. -/
  | word (text : List Char)
  /-- A name between quotes or brackets. Between double quotes it may turn out to be text. -/
  | name (text : List Char) (isDoubleQuoted : Bool)
  /-- Quoted text. -/
  | text (value : List Char)
  /-- Digits alone. -/
  | integer (digits : List Char)
  /-- The digits of a hexadecimal number. -/
  | hexadecimal (digits : List Char)
  /-- A number with a point or an exponent. -/
  | real (digits : List Char)
  /-- A number with separators between its digits. -/
  | grouped (digits : List Char)
  /-- The hexadecimal digits of a blob. -/
  | blob (digits : List Char)
  /-- A place for a value that is given later. -/
  | variable
  /-- A punctuation mark or an operator. -/
  | mark (symbol : List Char)
  deriving DecidableEq

/-- A token with its spelling and the blanks and comments before it. -/
structure Lexeme where
  gap : List Char
  spelling : List Char
  token : Token
  deriving DecidableEq

/-- The blanks of SQL that may start a run of blanks. -/
def isSpace (c : Char) : Bool :=
  c == ' ' || c == '\t' || c == '\n' || c == '\x0c' || c == '\r'

/-- The blanks of SQL. -/
def isBlank (c : Char) : Bool :=
  isSpace c || c == '\x0b'

/-- The text without the blanks at its ends. -/
def trimBlanks (cs : List Char) : List Char :=
  ((cs.dropWhile isBlank).reverse.dropWhile isBlank).reverse

/-- The characters a word starts with. -/
def isWordStart (c : Char) : Bool :=
  c.isAlpha || c == '_' || 128 ≤ c.toNat

/-- The characters of a word. -/
def isWordChar (c : Char) : Bool :=
  isWordStart c || c.isDigit || c == '$'

/-- Whether a character is a hexadecimal digit. -/
def isHexDigit (c : Char) : Bool :=
  (Text.hexValue c).isSome

/-- Marks of more than one character, longer ones first. -/
def longMarks : List (List Char) :=
  ["->>", "->", "||", "<<", ">>", "<=", ">=", "<>", "!=", "=="].map String.toList

/-- Marks of one character. -/
def shortMarks : List Char :=
  "()+-*/%,;<>=~&|.".toList

/-- The number of characters of a comment after its first two, and whether it ends before the
text does. -/
def commentLength : List Char → Nat × Bool
  | [] => (0, false)
  | '*' :: '/' :: _ => (2, true)
  | _ :: rest =>
    let (length, isClosed) := commentLength rest
    (length + 1, isClosed)

/-- An exponent at the front of a text. -/
def exponentAt (cs : List Char) : List Char :=
  let digitsOf (cs : List Char) : List Char :=
    if cs.head?.any Char.isDigit then cs.takeWhile fun c => c.isDigit || c == '_' else []
  match cs with
  | e :: sign :: rest =>
    if e != 'e' && e != 'E' then []
    else if sign == '+' || sign == '-' then
      let digits := digitsOf rest
      if digits.isEmpty then [] else e :: sign :: digits
    else
      let digits := digitsOf (sign :: rest)
      if digits.isEmpty then [] else e :: digits
  | _ => []

/-- The spelling of a decimal number at the front of a text. -/
def decimalAt (cs : List Char) : List Char :=
  let isDigit (c : Char) : Bool := c.isDigit || c == '_'
  let whole := cs.takeWhile isDigit
  let fraction := match cs.drop whole.length with
    | '.' :: rest => '.' :: rest.takeWhile isDigit
    | _ => []
  let front := whole ++ fraction
  front ++ exponentAt (cs.drop front.length)

/-- A number at the front of a text with its spelling. No word may follow at once. -/
def numberAt? (cs : List Char) : Option (Token × List Char) :=
  let sized (spelling : List Char) (token : Token) : Option (Token × List Char) :=
    if (cs.drop spelling.length).head?.any isWordChar then none
    else if spelling.contains '_' then some (.grouped spelling, spelling)
    else some (token, spelling)
  let decimal : Option (Token × List Char) :=
    let spelling := decimalAt cs
    sized spelling (if spelling.all Char.isDigit then .integer spelling else .real spelling)
  match cs with
  | '0' :: x :: d :: rest =>
    if (x == 'x' || x == 'X') && isHexDigit d then
      let digits := d :: rest.takeWhile fun c => isHexDigit c || c == '_'
      sized ('0' :: x :: digits) (.hexadecimal digits)
    else decimal
  | _ => decimal

/-- What a quoted token at the front of a text says, with its spelling. -/
def quotedAt? (quote : Char) (cs : List Char) : Option (List Char × List Char) :=
  (Sql.unenclose quote cs).map fun (inner, after) => (inner, cs.take (cs.length - after.length))

/-- A blob at the front of a text after its first letter, with its spelling. -/
def blobAt? (x : Char) (cs : List Char) : Option (Token × List Char) := do
  let (digits, spelling) ← quotedAt? '\'' cs
  if digits.all isHexDigit && digits.length % 2 == 0 then some (.blob digits, x :: spelling)
  else none

/-- A place for a value at the front of a text, with its spelling. -/
def variableAt? (cs : List Char) : Option (Token × List Char) :=
  match cs with
  | '?' :: rest => some (.variable, '?' :: rest.takeWhile Char.isDigit)
  | c :: rest =>
    let word := rest.takeWhile isWordChar
    if word.isEmpty then none else some (.variable, c :: word)
  | [] => none

/-- A mark at the front of a text. -/
def markAt? (cs : List Char) : Option (Token × List Char) :=
  match longMarks.find? fun symbol => symbol.isPrefixOf cs, cs with
  | some symbol, _ => some (.mark symbol, symbol)
  | none, c :: _ => if shortMarks.contains c then some (.mark [c], [c]) else none
  | none, [] => none

/-- The token at the front of a text where no blank and no comment starts, with its
spelling. -/
def tokenAt? (cs : List Char) : Option (Token × List Char) :=
  match cs with
  | [] => none
  | c :: rest =>
    if c = '\'' then (quotedAt? c cs).map fun (value, spelling) => (.text value, spelling)
    else if c = '"' ∨ c = '\x60' then
      (quotedAt? c cs).map fun (value, spelling) => (.name value (c == '"'), spelling)
    else if c = '[' then
      let inner := rest.takeWhile fun d => d != ']'
      if inner.length < rest.length then some (.name inner false, '[' :: inner ++ [']'])
      else none
    else if (c = 'x' ∨ c = 'X') ∧ rest.head? = some '\'' then blobAt? c rest
    else if c.isDigit || (c == '.' && rest.head?.any Char.isDigit) then numberAt? cs
    else if isWordStart c then
      let word := c :: rest.takeWhile isWordChar
      some (.word word, word)
    else if "?$@#:".toList.contains c then variableAt? cs
    else markAt? cs

/-- The number of characters of the blanks or the comment that a text starts with, and whether
what follows the text could still belong to it. -/
def gapAt (cs : List Char) : Nat × Bool :=
  match cs with
  | '-' :: '-' :: rest =>
    let comment := rest.takeWhile fun c => c != '\n'
    (comment.length + 2, comment.length == rest.length)
  | '/' :: '*' :: d :: rest =>
    let (length, isClosed) := commentLength (d :: rest)
    (length + 2, !isClosed)
  | '\ufeff' :: _ => (1, false)
  | c :: rest => (if isSpace c then (rest.takeWhile isBlank).length + 1 else 0, false)
  | [] => (0, false)

/-- The lexemes of a text, at most one for each step, after a gap that is there already, and
whether the text ends in a comment that is still open. -/
def lexemesWithin : Nat → List Char → List Char → Bool → Option (List Lexeme × Bool)
  | _, _, [], isOpen => some ([], isOpen)
  | 0, _, _, _ => none
  | steps + 1, gap, c :: rest, _ =>
    let cs := c :: rest
    let (length, isOpen) := gapAt cs
    if length ≠ 0 then lexemesWithin steps (gap ++ cs.take length) (cs.drop length) isOpen
    else do
      let (token, spelling) ← tokenAt? cs
      let (more, isOpen) ← lexemesWithin steps [] (cs.drop spelling.length) false
      return (⟨gap, spelling, token⟩ :: more, isOpen)

/-- The lexemes of a text, and whether it ends in a comment that is still open. Every step
takes at least one character. -/
def lexemes? (text : String) : Option (List Lexeme × Bool) :=
  if text.toList.contains '\x00' then none
  else lexemesWithin (text.length + 1) [] text.toList false

/-- The text from the first lexeme to the last, with the gaps between them. -/
def spanText : List Lexeme → List Char
  | [] => []
  | first :: rest => first.spelling ++ rest.flatMap fun l => l.gap ++ l.spelling

namespace Token

/-- The word in upper case; other tokens give no word. -/
def keyword : Token → String
  | .word cs => String.ofList (cs.map Char.toUpper)
  | _ => ""

/-- Whether the token is a mark. -/
def isMark (symbol : String) (t : Token) : Bool :=
  t == .mark symbol.toList

end Token

/-!
## Words of SQL

A bare word is a name unless the language keeps it for itself. A few words are
names in some places only.
-/

/-- The words that cannot stand for a name. -/
def reservedWords : List String :=
  ["ADD", "ALL", "ALTER", "AND", "AS", "AUTOINCREMENT", "BETWEEN", "CASE", "CHECK", "COLLATE",
   "COMMIT", "CONSTRAINT", "CREATE", "DEFAULT", "DEFERRABLE", "DELETE", "DISTINCT", "DROP",
   "ELSE", "ESCAPE", "EXCEPT", "EXISTS", "FOREIGN", "FROM", "GROUP", "HAVING", "IN", "INDEX",
   "INSERT", "INTERSECT", "INTO", "IS", "ISNULL", "JOIN", "LIMIT", "NOT", "NOTHING", "NOTNULL",
   "NULL", "ON", "OR", "ORDER", "PRIMARY", "REFERENCES", "RETURNING", "SELECT", "SET", "TABLE",
   "THEN", "TO", "TRANSACTION", "UNION", "UNIQUE", "UPDATE", "USING", "VALUES", "WHEN", "WHERE"]

/-- The words of joins, which are names but not types. -/
def joinWords : List String :=
  ["CROSS", "FULL", "INNER", "LEFT", "NATURAL", "OUTER", "RIGHT"]

namespace Token

/-- Whether a token is a bare word of the given spelling, in any case. -/
def isWord (word : String) (t : Token) : Bool :=
  t.keyword == word

/-- The name that a token can be anywhere: a bare word that nothing else claims, or a quoted
name. -/
def plainName? (t : Token) : Option String :=
  match t with
  | .word cs =>
    let taken := reservedWords ++ joinWords ++ ["INDEXED"]
    if taken.contains t.keyword then none else some (String.ofList cs)
  | .name cs _ => some (String.ofList cs)
  | _ => none

/-- The name that a token can be in an expression. -/
def expressionName? (t : Token) : Option String :=
  match t with
  | .word cs =>
    if reservedWords.contains t.keyword then none else some (String.ofList cs)
  | .name cs _ => some (String.ofList cs)
  | _ => none

/-- The name that a token can be where something is named: quoted text will do. -/
def anyName? (t : Token) : Option String :=
  match t with
  | .text cs => some (String.ofList cs)
  | t => t.expressionName?

/-- The name that a token can be in a type or of a collation: quoted text will do. -/
def typeName? (t : Token) : Option String :=
  match t with
  | .text cs => some (String.ofList cs)
  | t => t.plainName?

end Token

end ProjectHub.Sqlite
