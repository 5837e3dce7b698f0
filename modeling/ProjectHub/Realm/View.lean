import ProjectHub.Json.Basic
import ProjectHub.Realm.Basic

/-!
# Realms as JSON

What a reader sees of a schema: tables in the order of their names, columns in
the order of their declaration, and for a change what it is made to.
-/

namespace ProjectHub

/-- A column as JSON. -/
def Column.toJson (c : Column) : Json :=
  .ofMembers [("name", .text c.name), ("type", .text c.sqlType), ("nullable", .bool c.nullable),
    ("default", Json.ofOption .text c.default)]

/-- An index as JSON. -/
def Index.toJson (i : Index) : Json :=
  .ofMembers [("name", .text i.name), ("columns", .ofTexts i.columns), ("unique", .bool i.unique)]

/-- A table as JSON. -/
def Table.toJson (t : Table) : Json :=
  .ofMembers [("name", .text t.name), ("columns", .array (t.columns.map Column.toJson)),
    ("primary_key", .ofTexts t.primaryKey),
    ("indexes", .array (t.indexes.values.map Index.toJson))]

/-- A realm as JSON: its tables. -/
def Realm.toJson (r : Realm) : Json :=
  .array (r.tables.values.map Table.toJson)

/-- What kind of change it is, as a word, and what it is made to. -/
def SchemaChange.members : SchemaChange → String × List (String × Json)
  | .addTable t => ("add_table", [("table", t.toJson)])
  | .dropTable t => ("drop_table", [("table", .text t)])
  | .addColumn t c => ("add_column", [("table", .text t), ("column", c.toJson)])
  | .dropColumn t c => ("drop_column", [("table", .text t), ("column", .text c)])
  | .rebuildTable before after copy =>
    ("rebuild_table",
      [("from", before.toJson), ("to", after.toJson), ("copy_columns", .ofTexts copy)])
  | .addIndex t i => ("add_index", [("table", .text t), ("index", i.toJson)])
  | .dropIndex t i => ("drop_index", [("table", .text t), ("index", .text i)])

/-- A change as JSON. -/
def SchemaChange.toJson (c : SchemaChange) : Json :=
  .ofMembers (("change", .text c.members.1) :: c.members.2)

end ProjectHub
