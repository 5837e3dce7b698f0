import ProjectHub.Realm.Basic
import ProjectHub.Sqlite.Definition.Syntax

/-!
# Definitions of plain columns

The type and the default of a column go into a statement as they stand. Mostly
they are what they claim to be: a type that reads back as written, and a default
that is one and nothing more. Such a column is plain, and its definition is known
without reading the statement it stands in.
-/

namespace ProjectHub.Sqlite

/-- The lexemes of a text without comments and without blanks at its ends. -/
def bareLexemes? (text : String) : Option (List Lexeme) :=
  match lexemes? text with
  | some (ls, _) =>
    if ls.all (fun l => l.gap.all isBlank) && spanText ls == text.toList then some ls else none
  | none => none

/-- The type that a text is, if it reads back as written. -/
def plainType? (text : String) : Option TypeName :=
  match (bareLexemes? text).bind Reader.typeName with
  | some (type, []) => if type.text = text then some type else none
  | _ => none

/-- The default that a text is. -/
def plainDefault? (text : String) : Option Default :=
  match (bareLexemes? text).bind Reader.default with
  | some (value, []) => some value
  | _ => none

/-- The definition of a plain column. -/
def ColumnDefinition.ofColumn? (column : Column) : Option ColumnDefinition := do
  let type ← plainType? column.sqlType
  let notNull : List ColumnConstraint := if column.nullable then [] else [.notNull .refuse]
  match column.default with
  | none => return ⟨column.name, type, notNull⟩
  | some text => return ⟨column.name, type, notNull ++ [.default (← plainDefault? text)]⟩

/-- A column of an index or a key, by its quoted name. -/
def KeyColumn.ofName (name : String) : KeyColumn :=
  ⟨.name name true true, false⟩

/-- The definition of a table of plain columns, one at least. -/
def TableDefinition.ofTable? (shape : Table) : Option TableDefinition := do
  if shape.columns.isEmpty then none
  let columns ← shape.columns.mapM ColumnDefinition.ofColumn?
  let key : List TableConstraint :=
    if shape.primaryKey.isEmpty then []
    else [.primaryKey (shape.primaryKey.map KeyColumn.ofName) false none]
  return ⟨columns, key, false, false⟩

end ProjectHub.Sqlite
