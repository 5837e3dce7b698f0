import ProjectHub.Sql.Statement
import ProjectHub.Sqlite.Command.Basic

/-!
# The syntax of commands

A text is a list of statements with semicolons after them. The text of a type or
of a default can end the statement it stands in and start another, so one
statement may turn out to be several commands.
-/

namespace ProjectHub.Sqlite

namespace Reader

/-- The name of a table or an index, which may be said to be of the main database. -/
def objectName : Reader String := fun ls => do
  let (word, rest) ← name ls
  match afterMark? "." rest with
  | none => return (word, rest)
  | some more => if Text.sameAscii word "main" then name more else none

/-- Whether the given words come next, which are then read. -/
def flags (words : List String) : Reader Bool := fun ls =>
  match afterWords? words ls with
  | some rest => some (true, rest)
  | none => some (false, ls)

/-- A command that creates something, after its first word. -/
def creation : Reader Command := fun ls => do
  match afterWord? "TABLE" ls with
  | some rest =>
    let (ifMissing, rest) ← flags ["IF", "NOT", "EXISTS"] rest
    let (word, rest) ← objectName rest
    let (definition, rest) ← table rest
    return (.createTable word definition ifMissing, rest)
  | none =>
    let (unique, rest) ← flag "UNIQUE" ls
    let (ifMissing, rest) ← flags ["IF", "NOT", "EXISTS"] (← afterWord? "INDEX" rest)
    let (word, rest) ← objectName rest
    let (table, rest) ← name (← afterWord? "ON" rest)
    let (columns, rest) ← items keyColumn rest
    return (.createIndex word table unique columns ifMissing, rest)

/-- A command that drops something, after its first word. -/
def removal : Reader Command := fun ls => do
  let (isTable, rest) ← flag "TABLE" ls
  let rest ← if isTable then pure rest else afterWord? "INDEX" rest
  let (ifThere, rest) ← flags ["IF", "EXISTS"] rest
  let (word, rest) ← objectName rest
  return (if isTable then .dropTable word ifThere else .dropIndex word ifThere, rest)

/-- Whether the text of a column to add, with what stands before the end of the statement, ends
in a comment. The text is kept without blanks at its end, so even a closed line of comment
is open in what is kept. -/
def endsInComment (ls rest : List Lexeme) (tail : List Char) : Bool :=
  let own := ls.take (ls.length - rest.length)
  let after := match rest with
    | l :: _ => l.gap
    | [] => tail
  match lexemes? (String.ofList (trimBlanks (spanText own ++ after))) with
  | some (_, isOpen) => isOpen
  | none => true

/-- A command that alters a table, after its first two words. `tail` is what stands after the
last lexeme of the text. -/
def alteration (tail : List Char) : Reader Command := fun ls => do
  let (word, rest) ← objectName ls
  match rest with
  | l :: rest =>
    match l.token.keyword with
    | "RENAME" =>
      let (newName, rest) ← name (← afterWord? "TO" rest)
      return (.renameTable word newName, rest)
    | "ADD" =>
      let (_, rest) ← flag "COLUMN" rest
      let (definition, after) ← column rest
      if endsInComment rest after tail then none
      else return (.addColumn word definition, after)
    | "DROP" =>
      let (_, rest) ← flag "COLUMN" rest
      let (column, rest) ← name rest
      return (.dropColumn word column, rest)
    | _ => none
  | [] => none

/-- Names that are the columns of a copy. -/
def copied : Reader (List String) := fun ls => do
  let quoted : Reader String := fun ls =>
    match ls with
    | l :: rest => l.token.expressionName?.map fun word => (word, rest)
    | [] => none
  let (first, rest) ← quoted ls
  let (others, rest) ← more quoted rest.length rest
  return (first :: others, rest)

/-- A command that adds rows, after its first two words. -/
def addition : Reader Command := fun ls => do
  let (word, rest) ← objectName ls
  let (columns, rest) ←
    if (afterMark? "(" rest).isSome then
      (items name rest).map fun (names, rest) => (some names, rest)
    else pure (none, rest)
  match rest with
  | l :: rest =>
    match l.token.keyword with
    | "VALUES" =>
      let (first, rest) ← items expression rest
      let (others, rest) ← more (items expression) rest.length rest
      return (.insert word columns (first :: others), rest)
    | "DEFAULT" =>
      if columns.isSome then none
      else return (.insert word (some []) [[]], ← afterWord? "VALUES" rest)
    | "SELECT" =>
      let (names, rest) ← copied rest
      let (source, rest) ← objectName (← afterWord? "FROM" rest)
      if columns == some names then return (.copyRows word source names, rest) else none
    | _ => none
  | [] => none

/-- A command that finds values, after its first word. -/
def evaluation : Reader Command := fun ls => do
  let (first, rest) ← expression ls
  let (others, rest) ← more expression rest.length rest
  return (.evaluate (first :: others), rest)

/-- The lexemes up to a semicolon. -/
def untilEnd (ls : List Lexeme) : List Lexeme :=
  ls.dropWhile fun l => !l.token.isMark ";"

/-- A command. -/
def command (tail : List Char) : Reader Command
  | l :: rest =>
    match l.token.keyword with
    | "CREATE" => creation rest
    | "DROP" => removal rest
    | "ALTER" => do alteration tail (← afterWord? "TABLE" rest)
    | "INSERT" => do addition (← afterWord? "INTO" rest)
    | "DELETE" => do
      let (word, rest) ← objectName (← afterWord? "FROM" rest)
      return (.deleteRows word, rest)
    | "SELECT" => evaluation rest
    | "PRAGMA" => some (.idle, untilEnd rest)
    | _ => none
  | [] => none

/-- The commands of a list of statements, one at least for every step; a statement can be
empty. -/
def commands (tail : List Char) : Nat → List Lexeme → Option (List Command)
  | _, [] => some []
  | 0, _ => none
  | steps + 1, l :: rest =>
    if l.token.isMark ";" then commands tail steps rest
    else do
      let (first, rest) ← command tail (l :: rest)
      match rest with
      | [] => return [first]
      | closing :: rest =>
        if closing.token.isMark ";" then return first :: (← commands tail steps rest)
        else none

end Reader

namespace Command

/-- The commands of a text. -/
def ofText? (text : String) : Option (List Command) := do
  let (ls, _) ← lexemes? text
  let length := (ls.flatMap fun l => l.gap ++ l.spelling).length
  Reader.commands (text.toList.drop length) ls.length ls

/-- The command of a statement whose columns are plain. -/
def plain? : Sql.Statement → Option Command
  | .createTable name shape =>
    (TableDefinition.ofTable? shape).map fun definition => .createTable name definition false
  | .copyRows target source columns => some (.copyRows target source columns)
  | .dropTable name => some (.dropTable name false)
  | .renameTable name newName => some (.renameTable name newName)
  | .addColumn table column => (ColumnDefinition.ofColumn? column).map (.addColumn table)
  | .dropColumn table column => some (.dropColumn table column)
  | .createIndex table index =>
    some (.createIndex index.name table index.unique (index.columns.map .ofName) false)
  | .dropIndex name => some (.dropIndex name false)

/-- The commands of a statement. A statement whose columns are plain says what its text says;
of all others the text is read. -/
def ofStatement? (statement : Sql.Statement) : Option (List Command) :=
  if !isWritable statement.text then none
  else
    match plain? statement with
    | some command => some [command]
    | none => ofText? statement.text

end Command

end ProjectHub.Sqlite
