import ProjectHub.NameMap.Basic
import ProjectHub.Text.Blank
import ProjectHub.Text.Letter

/-!
# Realms

A realm is the structure of one database: its tables, with their columns,
primary keys and indexes. Types of columns are kept in a normal form, upper
case with single spaces, so that two spellings of a type are the same type.
-/

namespace ProjectHub

/-- A type name in normal form: its words in upper case, one space between them. -/
def normalizeType (raw : String) : String :=
  Text.upperAscii (String.ofList ([' '].intercalate (Text.words raw.toList)))

/-- A column of a table. -/
structure Column where
  /-- The name of the column. -/
  name : String
  /-- The declared type in normal form. -/
  sqlType : String
  /-- Whether the column admits NULL. -/
  nullable : Bool
  /-- The default, as the text of an SQL expression. -/
  default : Option String
  deriving DecidableEq, Inhabited

namespace Column

/-- A column of a type that admits no NULL and has no default. -/
def ofType (name type : String) : Column where
  name := name
  sqlType := normalizeType type
  nullable := false
  default := none

end Column

/-- An index over columns of a table. -/
structure Index where
  /-- The name of the index. -/
  name : String
  /-- The key columns, in key order. -/
  columns : List String
  /-- Whether two rows may not agree in all key columns. -/
  unique : Bool
  deriving DecidableEq, Inhabited

/-- A table. -/
structure Table where
  /-- The name of the table. -/
  name : String
  /-- The columns, in the order of their declaration. -/
  columns : List Column
  /-- The columns of the primary key, in key order. -/
  primaryKey : List String
  /-- The indexes by name. -/
  indexes : NameMap Index
  deriving DecidableEq, Inhabited

namespace Table

/-- The first column of a name. -/
def column? (t : Table) (name : String) : Option Column :=
  t.columns.find? fun column => column.name = name

/-- Whether the table has a column of this name. -/
def hasColumn (t : Table) (name : String) : Bool :=
  (t.column? name).isSome

end Table

/-- The tables of one database by name. -/
structure Realm where
  /-- The tables by the names they are stored under. -/
  tables : NameMap Table
  deriving DecidableEq, Inhabited

namespace Realm

/-- The realm without tables. -/
def empty : Realm := ⟨.empty⟩

end Realm

/-!
## Schema changes

The steps that take a database from one realm to another. A step names the
table it concerns, and carries the full shape of whatever it creates.
-/

/-- One step towards another realm. -/
inductive SchemaChange where
  /-- Create a table with its indexes. -/
  | addTable (table : Table)
  /-- Drop a table with its rows. -/
  | dropTable (table : String)
  /-- Append a column. -/
  | addColumn (table : String) (column : Column)
  /-- Drop a column with its data. -/
  | dropColumn (table column : String)
  /-- Create the table anew and copy the columns both shapes have. -/
  | rebuildTable (before after : Table) (copyColumns : List String)
  /-- Create an index. -/
  | addIndex (table : String) (index : Index)
  /-- Drop an index. -/
  | dropIndex (table index : String)
  deriving DecidableEq

namespace SchemaChange

/-- The name of the table a change concerns. -/
def table : SchemaChange → String
  | addTable table => table.name
  | dropTable table => table
  | addColumn table _ => table
  | dropColumn table _ => table
  | rebuildTable _ after _ => after.name
  | addIndex table _ => table
  | dropIndex table _ => table

end SchemaChange

end ProjectHub
