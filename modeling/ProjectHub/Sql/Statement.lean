import ProjectHub.Realm.Basic
import ProjectHub.Sql.Quote

/-!
# Statements

The SQL statements a schema change becomes, as values, and the text of each.
A table is rebuilt under a temporary name: the new shape is created, the
shared columns are copied, the old table is dropped and the new one takes its
name and its indexes.
-/

namespace ProjectHub.Sql

/-- A statement that changes a schema. -/
inductive Statement where
  /-- Create a table of the columns and primary key of a shape, under a name. -/
  | createTable (name : String) (shape : Table)
  /-- Copy columns of all rows of `source` into `target`. -/
  | copyRows (target source : String) (columns : List String)
  /-- Drop a table with its rows and indexes. -/
  | dropTable (name : String)
  /-- Give a table another name. -/
  | renameTable (name newName : String)
  /-- Append a column to a table. -/
  | addColumn (table : String) (column : Column)
  /-- Drop a column of a table. -/
  | dropColumn (table column : String)
  /-- Create an index on a table. -/
  | createIndex (table : String) (index : Index)
  /-- Drop an index. -/
  | dropIndex (name : String)
  deriving DecidableEq

/-- The definition of a column as CREATE TABLE and ADD COLUMN write it. -/
def columnDefinition (column : Column) : String :=
  quoteName column.name ++ " " ++ column.sqlType ++
    (if column.nullable then "" else " NOT NULL") ++
    (match column.default with
      | some default => " DEFAULT " ++ default
      | none => "")

/-- The columns and the primary key, as they stand between the parentheses of CREATE
TABLE. -/
def tableParts (shape : Table) : List String :=
  shape.columns.map columnDefinition ++
    if shape.primaryKey.isEmpty then [] else ["PRIMARY KEY (" ++ nameList shape.primaryKey ++ ")"]

namespace Statement

/-- The text of a statement. -/
def text : Statement → String
  | createTable name shape =>
    "CREATE TABLE " ++ quoteName name ++ " (" ++ ", ".intercalate (tableParts shape) ++ ")"
  | copyRows target source columns =>
    "INSERT INTO " ++ quoteName target ++ " (" ++ nameList columns ++ ") SELECT " ++
      nameList columns ++ " FROM " ++ quoteName source
  | dropTable name => "DROP TABLE " ++ quoteName name
  | renameTable name newName =>
    "ALTER TABLE " ++ quoteName name ++ " RENAME TO " ++ quoteName newName
  | addColumn table column =>
    "ALTER TABLE " ++ quoteName table ++ " ADD COLUMN " ++ columnDefinition column
  | dropColumn table column =>
    "ALTER TABLE " ++ quoteName table ++ " DROP COLUMN " ++ quoteName column
  | createIndex table index =>
    "CREATE " ++ (if index.unique then "UNIQUE " else "") ++ "INDEX " ++ quoteName index.name ++
      " ON " ++ quoteName table ++ " (" ++ nameList index.columns ++ ")"
  | dropIndex name => "DROP INDEX " ++ quoteName name

/-- The name a table has while it is rebuilt. -/
def rebuildName (table : String) : String :=
  "_stk_new_" ++ table

/-- The statements that create the indexes of a shape on a table. -/
def createIndexes (table : String) (shape : Table) : List Statement :=
  shape.indexes.values.map (createIndex table)

/-- The statements of one change, in order. -/
def ofChange : SchemaChange → List Statement
  | .addTable table => createTable table.name table :: createIndexes table.name table
  | .dropTable table => [dropTable table]
  | .addColumn table column => [addColumn table column]
  | .dropColumn table column => [dropColumn table column]
  | .rebuildTable _ after copyColumns =>
    let temporary := rebuildName after.name
    [createTable temporary after] ++
      (if copyColumns.isEmpty then [] else [copyRows temporary after.name copyColumns]) ++
      [dropTable after.name, renameTable temporary after.name] ++
      createIndexes after.name after
  | .addIndex table index => [createIndex table index]
  | .dropIndex _ index => [dropIndex index]

/-- The statements of a list of changes, in order. -/
def ofChanges (changes : List SchemaChange) : List Statement :=
  changes.flatMap ofChange

end Statement

end ProjectHub.Sql
