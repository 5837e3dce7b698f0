import ProjectHub.Sqlite.Table.Basic

/-!
# Databases

The tables of a database with their rows, and its indexes. Tables and indexes
share one space of names.
-/

namespace ProjectHub.Sqlite

/-- A part of the key of an index. -/
inductive KeyPart where
  /-- The value of a column, under its own collation or another. Where there is no such column,
  the name stands for itself. -/
  | column (name : String) (collation : Option Collation)
  /-- What an expression gives for a row. -/
  | expression (e : Expr)
  deriving Inhabited

namespace KeyPart

/-- Whether a part reads a column. -/
def mentions (column : String) : KeyPart → Bool
  | .column name _ => sameName name column
  | .expression e => e.mentions column

/-- The value of a part in a row, standing for all equal to it. -/
def value? (part : KeyPart) (t : StoredTable) (seed : Nat) (row : Row) : Option Value :=
  match part with
  | .column name collation =>
    match t.column? name with
    | some c => some ((t.valueOf row name).normal (collation.getD c.collation))
    | none => some (.text name)
  | .expression e => do
    let v ← e.eval? (t.scope seed row)
    return v.normal (← e.collationOf? (t.scope seed row) (.value .null))

end KeyPart

/-- An index as the database stores it. -/
structure StoredIndex where
  name : String
  /-- The table the index is on. -/
  table : String
  unique : Bool
  parts : List KeyPart
  deriving Inhabited

namespace StoredIndex

/-- The values of the parts in a row; none where one of them has none. -/
def values? (i : StoredIndex) (t : StoredTable) (seed : Nat) (row : Row) : Option (List Value) :=
  i.parts.mapM fun part => part.value? t seed row

/-- The values of the parts in a row, unless one of them is NULL. -/
def keyOf? (i : StoredIndex) (t : StoredTable) (seed : Nat) (row : Row) : Option (List Value) :=
  match i.values? t seed row with
  | some values => if values.contains .null then none else some values
  | none => none

/-- Whether a part reads a column. -/
def mentions (i : StoredIndex) (column : String) : Bool :=
  i.parts.any (KeyPart.mentions column)

end StoredIndex

/-- The tables and indexes of a database. -/
structure Database where
  tables : List StoredTable
  indexes : List StoredIndex
  /-- The number of rows that values were drawn for. -/
  drawn : Nat := 0
  deriving Inhabited

namespace Database

/-- The database without tables. -/
def empty : Database := { tables := [], indexes := [] }

/-- The table of a name. -/
def table? (db : Database) (name : String) : Option StoredTable :=
  db.tables.find? fun t => sameName t.name name

/-- The index of a name. -/
def index? (db : Database) (name : String) : Option StoredIndex :=
  db.indexes.find? fun i => sameName i.name name

/-- Whether a table or an index has the name. -/
def isTaken (db : Database) (name : String) : Bool :=
  (db.table? name).isSome || (db.index? name).isSome

/-- Names that the database keeps for itself. -/
def isReserved (name : String) : Bool :=
  "sqlite_".toList.isPrefixOf (Text.lowerAscii name).toList

/-- The database with a table in place of the one of its name. -/
def setTable (db : Database) (table : StoredTable) : Database :=
  { db with tables := db.tables.map fun t => if sameName t.name table.name then table else t }

/-- The indexes of a table. -/
def indexesOf (db : Database) (table : String) : List StoredIndex :=
  db.indexes.filter fun i => sameName i.table table

end Database

end ProjectHub.Sqlite
