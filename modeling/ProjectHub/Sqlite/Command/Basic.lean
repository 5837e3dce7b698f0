import ProjectHub.Sqlite.Definition.Plain

/-!
# Commands

What a statement asks of a database. A command is read from the text of a
statement, or made by a program that means no more than it says.
-/

namespace ProjectHub.Sqlite

/-- A command to a database. -/
inductive Command where
  /-- Create a table, unless `ifMissing` and there is one already. -/
  | createTable (name : String) (definition : TableDefinition) (ifMissing : Bool)
  /-- Create an index on a table, unless `ifMissing` and there is one already. -/
  | createIndex (name table : String) (unique : Bool) (columns : List KeyColumn)
      (ifMissing : Bool)
  /-- Drop a table, if there is one or `ifThere` does not hold. -/
  | dropTable (name : String) (ifThere : Bool)
  /-- Drop an index, if there is one or `ifThere` does not hold. -/
  | dropIndex (name : String) (ifThere : Bool)
  | renameTable (name newName : String)
  | addColumn (table : String) (column : ColumnDefinition)
  | dropColumn (table column : String)
  /-- Add rows with values for the given columns, or for all. -/
  | insert (table : String) (columns : Option (List String)) (rows : List (List Expr))
  /-- Add copies of the given columns of all rows of `source`. -/
  | copyRows (target source : String) (columns : List String)
  /-- Delete all rows of a table. -/
  | deleteRows (table : String)
  /-- Find the values of expressions. -/
  | evaluate (values : List Expr)
  /-- Nothing that shows. -/
  | idle
  deriving Inhabited

namespace Command

/-- Whether a text can stand in a statement. -/
def isWritable (text : String) : Bool :=
  !text.toList.contains '\x00'

/-- The command that adds one row of texts and NULLs, if it can be written: it has at least one
column. -/
def insertTexts? (table : String) (row : List (String × Option String)) : Option Command :=
  let texts := table :: row.flatMap fun (name, value) => name :: value.toList
  if row.isEmpty || !texts.all isWritable then none
  else
    some (.insert table (some (row.map Prod.fst)) [row.map fun (_, value) =>
      .value (value.elim .null .text)])

/-- The command that creates an index on the lower case of one column and on another column, if
it can be written. -/
def indexLower? (name table lowered column : String) : Option Command :=
  if [name, table, lowered, column].all isWritable then
    some (.createIndex name table false
      [⟨.call "lower" [.name lowered true true], false⟩, .ofName column] false)
  else none

end Command

end ProjectHub.Sqlite
