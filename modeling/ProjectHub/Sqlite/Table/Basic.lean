import ProjectHub.Sqlite.Definition.Basic
import ProjectHub.Sqlite.Expression.Value

/-!
# Tables

A table as the database stores it: its columns, what it asks of its rows, and
the rows. Every row has a number, by which its table knows it; a table may keep
the numbers in a column. Names are compared without regard to the case of A to
Z.
-/

namespace ProjectHub.Sqlite

/-- Equality of names. -/
def sameName (a b : String) : Bool :=
  Text.sameAscii a b

/-- A column as the database stores it. -/
structure StoredColumn where
  name : String
  type : TypeName
  /-- What becomes of a row with NULL in the column, where that breaks a constraint. -/
  notNull : Option Resolution := none
  default : Option Default := none
  collation : Collation := .binary
  /-- The value of a computed column, and whether it is kept in the rows. -/
  generated : Option (Expr × Bool) := none
  deriving Inhabited

/-- A row: its number, and a value for each column. -/
structure Row where
  number : Int
  values : List Value
  deriving DecidableEq, Inhabited

/-- Columns in which no two rows agree. -/
structure Key where
  /-- The columns with their collations, in key order. -/
  columns : List (String × Collation)
  /-- What becomes of a row that agrees with another, if that is said. -/
  resolution : Option Resolution
  isPrimary : Bool
  /-- The column that the key is declared with, if it is declared with one. -/
  owner : Option String
  deriving DecidableEq, Inhabited

/-- A condition on rows. -/
structure Check where
  condition : Expr
  /-- The column that the condition is declared with, if it is declared with one. -/
  owner : Option String
  deriving Inhabited

/-- Columns that refer to a row of another table. -/
structure ForeignKey where
  columns : List String
  reference : Reference
  /-- The column that the reference is declared with, if it is declared with one. -/
  owner : Option String
  deriving DecidableEq, Inhabited

/-- The column that holds the numbers of the rows. -/
structure RowNumber where
  column : String
  /-- Whether a number is given once only. -/
  isOnce : Bool
  deriving DecidableEq, Inhabited

/-- A table. -/
structure StoredTable where
  name : String
  columns : List StoredColumn
  keys : List Key := []
  rowNumber : Option RowNumber := none
  checks : List Check := []
  foreignKeys : List ForeignKey := []
  /-- Whether rows are known by their primary key only. -/
  withoutRowNumber : Bool := false
  /-- Whether columns take values of their types only. -/
  isStrict : Bool := false
  rows : List Row := []
  /-- The greatest number that a row has had. -/
  lastNumber : Int := 0
  deriving Inhabited

/-- The names that stand for the number of a row where no column has them. -/
def isNumberName (name : String) : Bool :=
  ["rowid", "oid", "_rowid_"].any (sameName name)

namespace StoredTable

/-- The column of a name. -/
def column? (t : StoredTable) (name : String) : Option StoredColumn :=
  t.columns.find? fun c => sameName c.name name

/-- The place of a column. -/
def position? (t : StoredTable) (name : String) : Option Nat :=
  t.columns.findIdx? fun c => sameName c.name name

/-- Whether there is a column of a name. -/
def hasColumn (t : StoredTable) (name : String) : Bool :=
  (t.column? name).isSome

/-- Whether a name stands for the numbers of the rows. -/
def isNumber (t : StoredTable) (name : String) : Bool :=
  !t.withoutRowNumber && !t.hasColumn name && isNumberName name

/-- Whether a column holds the numbers of the rows. -/
def holdsNumber (t : StoredTable) (column : String) : Bool :=
  t.rowNumber.any fun n => sameName n.column column

/-- The primary key. -/
def primaryKey? (t : StoredTable) : Option Key :=
  t.keys.find? Key.isPrimary

/-- The columns of the primary key, in key order. -/
def primaryColumns (t : StoredTable) : List String :=
  (t.primaryKey?.map fun key => key.columns.map Prod.fst).getD []

/-- The value of a column in a row, if there is such a column. -/
def value? (t : StoredTable) (row : Row) (name : String) : Option Value :=
  (t.position? name).bind fun i => row.values[i]?

/-- The value of a column in a row; NULL where there is no such column. -/
def valueOf (t : StoredTable) (row : Row) (name : String) : Value :=
  (t.value? row name).getD .null

/-- The values of a table with the one of a column replaced. -/
def setValue (t : StoredTable) (row : Row) (name : String) (v : Value) : Row :=
  match t.position? name with
  | some i => { row with values := row.values.set i v }
  | none => row

/-- What expressions about a row can refer to. -/
def scope (t : StoredTable) (seed : Nat) (row : Row) : Scope where
  column? := fun name =>
    match t.column? name, t.value? row name with
    | some c, some v => some ⟨v, c.type.affinity, c.collation⟩
    | _, _ =>
      if t.isNumber name then some ⟨.integer row.number, .integer, .binary⟩ else none
  seed := seed
  moment := seed

/-- The values of a row in columns with collations, each standing for all equal to it; none
if one of them is NULL, as rows with a NULL in a key never count as equal. -/
def keyOf? (t : StoredTable) (columns : List (String × Collation)) (row : Row) :
    Option (List Value) :=
  let values := columns.map fun (name, c) => (t.valueOf row name).normal c
  if values.contains .null then none else some values

/-- The number of the next row: after the greatest one there is, or that there was, if numbers
are given once only. Where none is left at the end, any other is taken. -/
def nextNumber? (t : StoredTable) : Option Int :=
  let isOnce := t.rowNumber.any RowNumber.isOnce
  let greatest? := (t.rows.map Row.number).max?
  let last? := if isOnce then some (max t.lastNumber (greatest?.getD 0)) else greatest?
  match last? with
  | none => some 1
  | some last =>
    if last < maxInteger then some (last + 1)
    else if isOnce then none
    else
      ((List.range (t.rows.length + 1)).map fun (n : Nat) => (n : Int) + 1).find? fun n =>
        !(t.rows.map Row.number).contains n

end StoredTable

end ProjectHub.Sqlite
