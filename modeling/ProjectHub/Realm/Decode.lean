import ProjectHub.Json.Decode
import ProjectHub.Realm.Basic

/-!
# Realms from JSON

A realm is a list of tables. Of two tables with one name, or two indexes of one
table, the later counts. Types are read in any spelling.
-/

namespace ProjectHub

/-- A column from JSON. -/
def Column.decoder : Json.Decoder Column := fun depth source => do
  let (depth, fields) ← Json.fieldsOf ["name", "type", "nullable", "default"] depth source
  match fields with
  | [name, sqlType, nullable, default] =>
    let column := Column.ofType (← Json.required .text depth name)
      (← Json.required .text depth sqlType)
    return { column with
      nullable := ← Json.withDefault .bool false depth nullable
      default := ← Json.withDefault (.optional .text) none depth default }
  | _ => none

/-- An index from JSON. -/
def Index.decoder : Json.Decoder Index := fun depth source => do
  let (depth, fields) ← Json.fieldsOf ["name", "columns", "unique"] depth source
  match fields with
  | [name, columns, unique] =>
    return {
      name := ← Json.required .text depth name
      columns := ← Json.withDefault (.list .text) [] depth columns
      unique := ← Json.withDefault .bool false depth unique }
  | _ => none

/-- A table from JSON. -/
def Table.decoder : Json.Decoder Table := fun depth source => do
  let (depth, fields) ← Json.fieldsOf ["name", "columns", "primary_key", "indexes"] depth source
  match fields with
  | [name, columns, primaryKey, indexes] =>
    let indexes ← Json.withDefault (.list Index.decoder) [] depth indexes
    return {
      name := ← Json.required .text depth name
      columns := ← Json.withDefault (.list Column.decoder) [] depth columns
      primaryKey := ← Json.withDefault (.list .text) [] depth primaryKey
      indexes := .ofList (indexes.map fun i => (i.name, i)) }
  | _ => none

/-- A realm from JSON. -/
def Realm.decoder : Json.Decoder Realm :=
  (Json.Decoder.list Table.decoder).andThen fun tables =>
    some ⟨.ofList (tables.map fun t => (t.name, t))⟩

end ProjectHub
