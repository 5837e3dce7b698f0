import ProjectHub.Sqlite.Definition.Basic
import ProjectHub.Sqlite.Expression.Syntax

/-!
# The syntax of definitions

What stands in CREATE TABLE and after ADD COLUMN, read from lexemes. A reader
gives what it read and the lexemes after it, or nothing where the text is not
SQL or says something that no column and no table may have.
-/

namespace ProjectHub.Sqlite

/-- A reader of lexemes. -/
abbrev Reader (α : Type) := List Lexeme → Option (α × List Lexeme)

namespace Reader

/-- The lexemes after a given word. -/
def afterWord? (word : String) : List Lexeme → Option (List Lexeme)
  | l :: rest => if l.token.isWord word then some rest else none
  | [] => none

/-- The lexemes after given words. -/
def afterWords? (words : List String) (ls : List Lexeme) : Option (List Lexeme) :=
  words.foldlM (fun ls word => afterWord? word ls) ls

/-- The lexemes after a given mark. -/
def afterMark? (symbol : String) : List Lexeme → Option (List Lexeme)
  | l :: rest => if l.token.isMark symbol then some rest else none
  | [] => none

/-- Whether the lexemes start with one of the given words. -/
def startsWith (words : List String) : List Lexeme → Bool
  | l :: _ => words.contains l.token.keyword
  | [] => false

/-- A name. -/
def name : Reader String
  | l :: rest => l.token.anyName?.map fun word => (word, rest)
  | [] => none

/-- The name of a collation. -/
def collation : Reader String
  | l :: rest => l.token.typeName?.map fun word => (word, rest)
  | [] => none

/-- An expression. -/
def expression : Reader Expr := fun ls => do
  let (e, rest) ← Expr.ofTokens? (ls.map Lexeme.token)
  return (e, ls.drop (ls.length - rest.length))

/-- An expression in parentheses. -/
def enclosed : Reader Expr := fun ls => do
  let (e, rest) ← expression (← afterMark? "(" ls)
  return (e, ← afterMark? ")" rest)

/-- What follows a first item: more of them, each after a comma; `steps` bounds them. -/
def more {α : Type} (item : Reader α) : Nat → Reader (List α)
  | 0, ls => some ([], ls)
  | steps + 1, ls =>
    match afterMark? "," ls with
    | none => some ([], ls)
    | some rest => do
      let (first, rest) ← item rest
      let (others, rest) ← more item steps rest
      return (first :: others, rest)

/-- Items in parentheses with commas between them, one at least. -/
def items {α : Type} (item : Reader α) : Reader (List α) := fun ls => do
  let (first, rest) ← item (← afterMark? "(" ls)
  let (others, rest) ← more item rest.length rest
  return (first :: others, ← afterMark? ")" rest)

/-! ## Parts of constraints -/

/-- What becomes of a row that breaks the constraint, if the constraint says so. -/
def resolution : Reader (Option Resolution) := fun ls =>
  match afterWord? "ON" ls with
  | none => some (none, ls)
  | some rest => do
    match ← afterWord? "CONFLICT" rest with
    | l :: rest =>
      match l.token.keyword with
      | "ROLLBACK" | "ABORT" | "FAIL" => return (some .refuse, rest)
      | "IGNORE" => return (some .skip, rest)
      | "REPLACE" => return (some .replace, rest)
      | _ => none
    | [] => none

/-- Whether an order is turned around. -/
def isDescending : Reader Bool := fun ls =>
  match afterWord? "DESC" ls with
  | some rest => some (true, rest)
  | none => some (false, (afterWord? "ASC" ls).getD ls)

/-- Whether the next word is the given one, which is then read. -/
def flag (word : String) : Reader Bool := fun ls =>
  match afterWord? word ls with
  | some rest => some (true, rest)
  | none => some (false, ls)

/-- A key column. -/
def keyColumn : Reader KeyColumn := fun ls => do
  let (e, rest) ← expression ls
  let (descending, rest) ← isDescending rest
  return (⟨e, descending⟩, rest)

/-- What is done to rows that refer to a row that goes. -/
def deletion : Reader Deletion := fun ls =>
  let choices : List (List String × Deletion) :=
    [(["SET", "NULL"], .setNull), (["SET", "DEFAULT"], .setDefault), (["CASCADE"], .cascade),
     (["RESTRICT"], .refuse), (["NO", "ACTION"], .refuse)]
  choices.findSome? fun (words, deletion) =>
    (afterWords? words ls).map fun rest => (deletion, rest)

/-- The clauses of a reference after its columns; `steps` bounds their number. -/
def referenceClauses (reference : Reference) : Nat → Reader Reference
  | 0, ls => some (reference, ls)
  | steps + 1, ls =>
    match afterWord? "MATCH" ls, afterWord? "ON" ls with
    | some rest, _ => do
      let (_, rest) ← name rest
      referenceClauses reference steps rest
    | none, some (event :: rest) => do
      let (deletion, rest) ← deletion rest
      match event.token.keyword with
      | "DELETE" => referenceClauses { reference with deletion := deletion } steps rest
      | "INSERT" | "UPDATE" => referenceClauses reference steps rest
      | _ => none
    | none, some [] => none
    | none, none => some (reference, ls)

/-- A reference after its first word. -/
def reference : Reader Reference := fun ls => do
  let (parent, rest) ← name ls
  let (columns, rest) ←
    if (afterMark? "(" rest).isSome then items name rest else pure ([], rest)
  referenceClauses ⟨parent, columns, .refuse, false⟩ rest.length rest

/-- When a reference has to hold, after the word for its being deferrable. -/
def isDeferred : Reader Bool := fun ls =>
  match afterWord? "INITIALLY" ls with
  | none => some (false, ls)
  | some (l :: rest) =>
    match l.token.keyword with
    | "DEFERRED" => some (true, rest)
    | "IMMEDIATE" => some (false, rest)
    | _ => none
  | some [] => none

/-- The value of a computed column after the word AS. -/
def generated : Reader ColumnConstraint := fun ls => do
  let (e, rest) ← enclosed ls
  match rest with
  | l :: after =>
    match l.token.keyword, l.token.plainName? with
    | "STORED", _ => return (.generated e true, after)
    | "VIRTUAL", _ => return (.generated e false, after)
    | _, some _ => none
    | _, none => return (.generated e false, l :: after)
  | [] => return (.generated e false, [])

/-! ## Defaults -/

/-- A default that is a bare or quoted name: it stands for its text, a bare truth value for
itself. -/
def namedDefault? (t : Token) : Option Expr :=
  match t with
  | .name cs _ => some (.value (.text (String.ofList cs)))
  | .word cs =>
    if t.plainName?.isSome || t.isWord "INDEXED" then
      let word := String.ofList cs
      let e : Expr := .name word false false
      some (if e.truthWord?.isSome then e else .value (.text word))
    else none
  | _ => none

/-- A default after its first word. Its text is that of the literal or name with its sign, or
what stands in the parentheses. -/
def default : Reader Default
  | l :: rest =>
    if l.token.isMark "(" then do
      let (e, after) ← expression rest
      let inner := rest.take (rest.length - after.length)
      match after with
      | closing :: after =>
        let text := (inner.flatMap fun l => l.gap ++ l.spelling) ++ closing.gap
        if closing.token.isMark ")" && e.isConstant then
          some (⟨String.ofList (trimBlanks text), e⟩, after)
        else none
      | [] => none
    else if l.token.isMark "+" || l.token.isMark "-" then
      match rest with
      | term :: after => do
        let e ← Expr.ofLiteral? term.token
        let op : UnaryOp := if l.token.isMark "-" then .negate else .plus
        return (⟨String.ofList (spanText [l, term]), .unary op e⟩, after)
      | [] => none
    else do
      let e ← (Expr.ofLiteral? l.token).orElse fun _ => namedDefault? l.token
      return (⟨String.ofList l.spelling, e⟩, rest)
  | [] => none

/-! ## Columns -/

/-- The words that a constraint of a column starts with. -/
def columnWords : List String :=
  ["CONSTRAINT", "DEFAULT", "NULL", "NOT", "PRIMARY", "UNIQUE", "CHECK", "REFERENCES",
   "DEFERRABLE", "COLLATE", "GENERATED", "AS"]

/-- A constraint of a column. -/
def columnConstraint : Reader ColumnConstraint
  | l :: rest =>
    match l.token.keyword with
    | "CONSTRAINT" => do
      let (_, rest) ← name rest
      return (.free, rest)
    | "DEFAULT" => do
      let (value, rest) ← default rest
      return (.default value, rest)
    | "NULL" => do
      let (_, rest) ← resolution rest
      return (.free, rest)
    | "NOT" =>
      match afterWord? "NULL" rest with
      | some rest => do
        let (r, rest) ← resolution rest
        return (.notNull (r.getD .refuse), rest)
      | none => do
        let (_, rest) ← isDeferred (← afterWord? "DEFERRABLE" rest)
        return (.deferred false, rest)
    | "PRIMARY" => do
      let (descending, rest) ← isDescending (← afterWord? "KEY" rest)
      let (r, rest) ← resolution rest
      let (autoincrement, rest) ← flag "AUTOINCREMENT" rest
      return (.primaryKey descending autoincrement r, rest)
    | "UNIQUE" => do
      let (r, rest) ← resolution rest
      return (.unique r, rest)
    | "CHECK" => do
      let (e, rest) ← enclosed rest
      return (.check e, rest)
    | "REFERENCES" => do
      let (r, rest) ← reference rest
      return (.references r, rest)
    | "DEFERRABLE" => do
      let (later, rest) ← isDeferred rest
      return (.deferred later, rest)
    | "COLLATE" => do
      let (word, rest) ← collation rest
      return (.collate word, rest)
    | "GENERATED" => do generated (← afterWords? ["ALWAYS", "AS"] rest)
    | "AS" => generated rest
    | _ => none
  | [] => none

/-- The constraints of a column; `steps` bounds their number. -/
def columnConstraints : Nat → Reader (List ColumnConstraint)
  | 0, ls => some ([], ls)
  | steps + 1, ls =>
    if startsWith columnWords ls then do
      let (first, rest) ← columnConstraint ls
      let (others, rest) ← columnConstraints steps rest
      return (first :: others, rest)
    else some ([], ls)

/-- The type of a column, if it has one. -/
def typeName : Reader TypeName := fun ls => do
  let (words, rest) ← Expr.dropType? (ls.map Lexeme.token)
  let after := ls.drop (ls.length - rest.length)
  if words.isEmpty then return (.none, after)
  else return (.ofText (spanText (ls.take (ls.length - rest.length))), after)

/-- The definition of a column. -/
def column : Reader ColumnDefinition := fun ls => do
  let (word, rest) ← name ls
  let (type, rest) ← typeName rest
  let (constraints, rest) ← columnConstraints rest.length rest
  return (⟨word, type, constraints⟩, rest)

/-! ## Tables -/

/-- The words that a constraint of a table starts with. -/
def tableWords : List String :=
  ["CONSTRAINT", "PRIMARY", "UNIQUE", "CHECK", "FOREIGN"]

/-- A constraint of a table, if it says anything. -/
def tableConstraint : Reader (Option TableConstraint)
  | l :: rest =>
    match l.token.keyword with
    | "CONSTRAINT" => do
      let (_, rest) ← name rest
      return (none, rest)
    | "PRIMARY" => do
      let (first, rest) ← keyColumn (← afterMark? "(" (← afterWord? "KEY" rest))
      let (others, rest) ← more keyColumn rest.length rest
      let (autoincrement, rest) ← flag "AUTOINCREMENT" rest
      let (r, rest) ← resolution (← afterMark? ")" rest)
      return (some (.primaryKey (first :: others) autoincrement r), rest)
    | "UNIQUE" => do
      let (columns, rest) ← items keyColumn rest
      let (r, rest) ← resolution rest
      return (some (.unique columns r), rest)
    | "CHECK" => do
      let (e, rest) ← enclosed rest
      let (_, rest) ← resolution rest
      return (some (.check e), rest)
    | "FOREIGN" => do
      let (columns, rest) ← items name (← afterWord? "KEY" rest)
      let (r, rest) ← reference (← afterWord? "REFERENCES" rest)
      match afterWord? "DEFERRABLE" rest, afterWords? ["NOT", "DEFERRABLE"] rest with
      | some rest, _ =>
        let (later, rest) ← isDeferred rest
        return (some (.foreignKey columns { r with isDeferred := later }), rest)
      | none, some rest =>
        let (_, rest) ← isDeferred rest
        return (some (.foreignKey columns r), rest)
      | none, none => return (some (.foreignKey columns r), rest)
    | _ => none
  | [] => none

/-- The columns of a table after the first one, and what follows them; `steps` bounds their
number. -/
def columnsAfter : Nat → Reader (List ColumnDefinition)
  | 0, ls => some ([], ls)
  | steps + 1, ls =>
    match afterMark? "," ls with
    | none => some ([], ls)
    | some rest =>
      if startsWith tableWords rest then some ([], ls)
      else do
        let (first, rest) ← column rest
        let (others, rest) ← columnsAfter steps rest
        return (first :: others, rest)

/-- The constraints of a table after its columns, the first after a comma, the others after one
or none; `steps` bounds their number. -/
def tableConstraints : Nat → Reader (List TableConstraint)
  | 0, ls => some ([], ls)
  | steps + 1, ls =>
    let start := (afterMark? "," ls).getD ls
    if start.length < ls.length || startsWith tableWords start then do
      let (first, rest) ← tableConstraint start
      let (others, rest) ← tableConstraints steps rest
      return (first.toList ++ others, rest)
    else some ([], ls)

/-- The options of a table, as whether its rows are known by their key only and whether its
columns take values of their types only; `steps` bounds their number. -/
def tableOptions : Nat → Reader (Bool × Bool)
  | 0, ls => some ((false, false), ls)
  | steps + 1, ls => do
    let (here, rest) : (Bool × Bool) × List Lexeme ←
      match afterWords? ["WITHOUT", "ROWID"] ls, afterWord? "STRICT" ls with
      | some rest, _ => some ((true, false), rest)
      | none, some rest => some ((false, true), rest)
      | none, none => none
    match afterMark? "," rest with
    | none => return (here, rest)
    | some rest =>
      let ((keyed, strict), rest) ← tableOptions steps rest
      return ((here.1 || keyed, here.2 || strict), rest)

/-- The definition of a table after its name. -/
def table : Reader TableDefinition := fun ls => do
  let (first, rest) ← column (← afterMark? "(" ls)
  let (others, rest) ← columnsAfter rest.length rest
  let (constraints, rest) ←
    if (afterMark? "," rest).isSome then tableConstraints rest.length rest else pure ([], rest)
  let rest ← afterMark? ")" rest
  if rest.isEmpty || (afterMark? ";" rest).isSome then
    return (⟨first :: others, constraints, false, false⟩, rest)
  else
    let ((keyed, strict), rest) ← tableOptions rest.length rest
    return (⟨first :: others, constraints, keyed, strict⟩, rest)

end Reader

end ProjectHub.Sqlite
