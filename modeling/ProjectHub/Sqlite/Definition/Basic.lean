import ProjectHub.Sqlite.Expression.Basic
import ProjectHub.Sqlite.Token

/-!
# Definitions of tables

What CREATE TABLE and ADD COLUMN say about a table: its columns with their types
and constraints, the constraints of the table, and its options. A definition
says what is asked for; whether the database takes it is another matter.
-/

namespace ProjectHub.Sqlite

/-- What becomes of a row that breaks a constraint. -/
inductive Resolution where
  /-- The statement fails. -/
  | refuse
  /-- The row is left out. -/
  | skip
  /-- The rows in its way are deleted, or the default takes the place of NULL. -/
  | replace
  deriving DecidableEq, Inhabited

/-- A type as a column has it. -/
structure TypeName where
  /-- What is read back. -/
  text : String
  affinity : Affinity
  /-- Whether a single key column of the type numbers the rows. -/
  numbersRows : Bool
  deriving DecidableEq, Inhabited

/-- The type of a column that names none. -/
def TypeName.none : TypeName := ⟨"", .blob, false⟩

/-- A default: the text that is read back, and what it says. -/
structure Default where
  text : String
  value : Expr
  deriving Inhabited

/-- What becomes of rows that refer to a deleted row. -/
inductive Deletion where
  /-- The statement fails. -/
  | refuse
  /-- They are deleted too. -/
  | cascade
  /-- They refer to nothing. -/
  | setNull
  /-- They refer to what their defaults say. -/
  | setDefault
  deriving DecidableEq, Inhabited

/-- A reference to a row of another table. -/
structure Reference where
  parent : String
  /-- The columns of the parent; without any, its primary key. -/
  parentColumns : List String
  deletion : Deletion
  /-- Whether the reference need not hold before the transaction ends. -/
  isDeferred : Bool
  deriving DecidableEq, Inhabited

/-- A constraint of a column. -/
inductive ColumnConstraint where
  /-- Nothing is asked for. -/
  | free
  | notNull (resolution : Resolution)
  | default (default : Default)
  | primaryKey (descending autoincrement : Bool) (resolution : Option Resolution)
  | unique (resolution : Option Resolution)
  | check (condition : Expr)
  | references (reference : Reference)
  /-- Says when the last reference before it has to hold. -/
  | deferred (isDeferred : Bool)
  | collate (collation : String)
  /-- The value is computed, and kept in the row if `stored`. -/
  | generated (value : Expr) (stored : Bool)
  deriving Inhabited

/-- The definition of a column. -/
structure ColumnDefinition where
  name : String
  type : TypeName
  constraints : List ColumnConstraint
  deriving Inhabited

/-- A key column: its expression, and whether its order is turned around. -/
structure KeyColumn where
  value : Expr
  descending : Bool
  deriving Inhabited

/-- A constraint of a table. -/
inductive TableConstraint where
  | primaryKey (columns : List KeyColumn) (autoincrement : Bool)
      (resolution : Option Resolution)
  | unique (columns : List KeyColumn) (resolution : Option Resolution)
  | check (condition : Expr)
  | foreignKey (columns : List String) (reference : Reference)
  deriving Inhabited

/-- The definition of a table. -/
structure TableDefinition where
  columns : List ColumnDefinition
  constraints : List TableConstraint
  /-- Whether rows are known by their primary key only. -/
  withoutRowNumber : Bool
  /-- Whether columns take values of their types only. -/
  isStrict : Bool
  deriving Inhabited

/-!
## Names of types

The text of a type goes from its first token to its last. Quotes around it are
taken off, and the words of a computed column at its end are none of it.
-/

/-- The characters that open a quoted name. -/
def isQuote (c : Char) : Bool :=
  c == '\'' || c == '"' || c == '\x60' || c == '['

/-- The text without its last characters, if they spell a word in any case, and without the
blanks before them. -/
def dropWord? (word : String) (cs : List Char) : Option (List Char) :=
  let front := cs.take (cs.length - word.length)
  if word.length ≤ cs.length && (cs.drop front.length).map Char.toLower == word.toList then
    some (front.reverse.dropWhile isBlank).reverse
  else none

/-- The text of a type without the words of a computed column. -/
def dropGenerated (cs : List Char) : List Char :=
  if cs.length < 16 then cs
  else
    match dropWord? "always" cs with
    | some front => (dropWord? "generated" front).getD front
    | none => cs

/-- The text without its first and last characters if it starts with a quote and has no other
quote between them. -/
def dropOuterQuotes (cs : List Char) : List Char :=
  match cs with
  | c :: rest =>
    if 3 ≤ cs.length && isQuote c && !rest.dropLast.any isQuote then rest.dropLast else cs
  | [] => []

/-- What stands in the quotes that a text starts with; a text that does not is left as it
is. -/
def dequote (cs : List Char) : List Char :=
  match cs with
  | c :: rest =>
    if isQuote c then
      let closing := if c = '[' then ']' else c
      match Sql.undouble closing rest with
      | some (inner, _) => inner
      | none => rest
    else cs
  | [] => []

namespace TypeName

/-- The type of a text. -/
def ofText (cs : List Char) : TypeName :=
  let plain := dropOuterQuotes (dropGenerated cs)
  if plain.isEmpty then .none
  else
    let text := String.ofList (dequote plain)
    ⟨text, Affinity.ofType text, Text.sameAscii (String.ofList plain) "INTEGER"⟩

end TypeName

end ProjectHub.Sqlite
