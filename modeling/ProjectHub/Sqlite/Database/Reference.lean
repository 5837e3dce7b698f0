import ProjectHub.Sqlite.Database.Basic

/-!
# References between rows

A reference goes to a key of its parent: the number of the rows, the primary
key, or columns in which the rows never agree. A row whose columns hold NULL
refers to nothing. When rows go, the references to them say what becomes of the
rows they are in.
-/

namespace ProjectHub.Sqlite.Database

/-- Whether columns with collations are given columns in any order, each under its own
collation. -/
def isKeyOf (t : StoredTable) (names : List String) (columns : List (String × Collation)) : Bool :=
  columns.length == names.length &&
    columns.all fun (name, collation) =>
      names.any (sameName name) && (t.column? name).any fun c => c.collation == collation

/-- The columns that an index is on, if it is on columns only. -/
def indexColumns? (t : StoredTable) (i : StoredIndex) : Option (List (String × Collation)) :=
  i.parts.mapM fun
    | .column name collation => (t.column? name).map fun c => (c.name, collation.getD c.collation)
    | .expression _ => none

/-- The table that a reference goes to, and its columns in the order of those they stand
for. -/
def parentKey? (db : Database) (f : ForeignKey) : Option (StoredTable × List StoredColumn) := do
  let t ← db.table? f.reference.parent
  let names := f.reference.parentColumns
  if names.isEmpty then
    let columns := t.primaryColumns
    if columns.isEmpty || columns.length ≠ f.columns.length then none
    else return (t, ← columns.mapM t.column?)
  else
    let isNumber := names.length == 1 && names.all t.holdsNumber
    let isUnique := t.keys.any (fun key => isKeyOf t names key.columns) ||
      (db.indexesOf t.name).any fun i =>
        i.unique && (indexColumns? t i).any (isKeyOf t names)
    if isNumber || isUnique then return (t, ← names.mapM t.column?) else none

/-- Whether values refer to a row of a table by columns. -/
def refersTo (parent : StoredTable) (columns : List StoredColumn) (values : List Value)
    (row : Row) : Bool :=
  (columns.zip values).all fun (c, v) =>
    (c.type.affinity.store v).normal c.collation ==
      (parent.valueOf row c.name).normal c.collation

/-- The values by which a row refers to another, unless one of them is NULL. -/
def referringValues? (t : StoredTable) (f : ForeignKey) (row : Row) : Option (List Value) :=
  let values := f.columns.map (t.valueOf row)
  if values.contains .null then none else some values

/-- Whether a reference holds in a row: the row it refers to is there. -/
def holdsIn (db : Database) (t : StoredTable) (f : ForeignKey) (row : Row) : Bool :=
  match referringValues? t f row with
  | none => true
  | some values =>
    match db.parentKey? f with
    | some (parent, columns) => parent.rows.any (refersTo parent columns values)
    | none => false

/-- Whether all references hold that need not hold before the transaction ends. -/
def deferredHold (db : Database) : Bool :=
  db.tables.all fun t =>
    (t.foreignKeys.filter fun f => f.reference.isDeferred).all fun f => t.rows.all (db.holdsIn t f)

/-- The references to a table, with the tables they are in. -/
def referencesTo (db : Database) (table : String) : List (String × ForeignKey) :=
  db.tables.flatMap fun t =>
    (t.foreignKeys.filter fun f => sameName f.reference.parent table).map fun f => (t.name, f)

/-- The table with other values in the columns of a reference in some rows, if the columns
take them. -/
def release? (t : StoredTable) (f : ForeignKey) (rows : List Row) (value : StoredColumn → Value) :
    Option StoredTable :=
  let columns := f.columns.filterMap t.column?
  if columns.any fun c => c.notNull.isSome && value c == .null then none
  else
    some { t with rows := t.rows.map fun row =>
      if rows.contains row then
        columns.foldl (fun row c => t.setValue row c.name (value c)) row
      else row }

/-- The value of a literal default as a column stores it. -/
def literalDefault (c : StoredColumn) : Value :=
  match c.default.bind fun d => d.value.literal? with
  | some v => c.type.affinity.store v
  | none => .null

/-- Deletes rows of a table, and does what the references to them say; none where one of them
forbids it. `steps` bounds how far one deletion leads to others. -/
def deleteRows? : Nat → Database → String → List Row → Option Database
  | 0, _, _, _ => none
  | steps + 1, db, table, gone => do
    let t ← db.table? table
    let left := db.setTable { t with rows := t.rows.filter fun row => !gone.contains row }
    (db.referencesTo t.name).foldlM (fun db (name, f) =>
      match db.table? name, db.parentKey? f with
      | some child, some (_, columns) =>
        let affected := child.rows.filter fun row =>
          (referringValues? child f row).any fun values => gone.any (refersTo t columns values)
        if affected.isEmpty then some db
        else
          match f.reference.deletion with
          | .refuse => if f.reference.isDeferred then some db else none
          | .cascade => deleteRows? steps db name affected
          | .setNull => (release? child f affected fun _ => .null).map db.setTable
          | .setDefault => do
            let child ← release? child f affected literalDefault
            let db := db.setTable child
            if child.rows.all (db.holdsIn child f) then some db else none
      | _, _ => some db) left

/-- The number of all rows. -/
def rowCount (db : Database) : Nat :=
  db.tables.foldl (fun n t => n + t.rows.length) 0

/-- The database without some rows of a table. -/
def withoutRows? (db : Database) (table : String) (gone : List Row) : Option Database :=
  db.deleteRows? (db.rowCount + 1) table gone

end ProjectHub.Sqlite.Database
