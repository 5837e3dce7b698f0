import ProjectHub.Realm.Basic
import ProjectHub.Sqlite.Database.Basic

/-!
# The realm of a database

What a database tells of its schema: tables whose names the database does not
keep for itself, columns with types and defaults as written, key columns in key
order, and the indexes that were created, without those parts of their keys
that are expressions. Computed columns are not told.
-/

namespace ProjectHub.Sqlite

/-- Names that a listing of tables leaves out: `sqlite`, then any character, then anything. -/
def isHidden (name : String) : Bool :=
  let cs := (Text.lowerAscii name).toList
  "sqlite".toList.isPrefixOf cs && 7 ≤ cs.length

namespace StoredColumn

/-- The column as a realm has it. -/
def inspect (c : StoredColumn) : Column where
  name := c.name
  sqlType := normalizeType c.type.text
  nullable := c.notNull.isNone
  default := c.default.map Default.text

end StoredColumn

namespace StoredTable

/-- The columns of the primary key in key order, each once. -/
def inspectKey (t : StoredTable) : List String :=
  t.primaryColumns.eraseDups

/-- An index of the table as a realm has it. -/
def inspectIndex (t : StoredTable) (i : StoredIndex) : Index where
  name := i.name
  columns := i.parts.filterMap fun
    | .column name _ => (t.column? name).map StoredColumn.name
    | .expression _ => none
  unique := i.unique

/-- The table with its indexes as a realm has it. -/
def inspect (t : StoredTable) (indexes : List StoredIndex) : Table where
  name := t.name
  columns := (t.columns.filter fun c => c.generated.isNone).map StoredColumn.inspect
  primaryKey := t.inspectKey
  indexes := .ofList (indexes.map fun i => (i.name, t.inspectIndex i))

end StoredTable

namespace Database

/-- The realm that a database shows. -/
def inspect (db : Database) : Realm :=
  ⟨.ofList ((db.tables.filter fun t => !isHidden t.name).map fun t =>
    (t.name, t.inspect (db.indexesOf t.name)))⟩

end Database

end ProjectHub.Sqlite
