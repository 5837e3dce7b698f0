import ProjectHub.Sqlite.Database.Reference
import ProjectHub.Sqlite.Table.Creation

/-!
# Adding rows

A new row holds the values it is given and defaults elsewhere. It has to meet
the constraints of its table, agree with no other row in a key, and refer to
rows there are. A constraint can also say that the row is left out, or that the
rows in its way are deleted.
-/

namespace ProjectHub.Sqlite

namespace StoredTable

/-- A value as the number of a row. -/
def numberOf? (v : Value) : Option Int :=
  match Affinity.numeric.store v with
  | .integer n => some n
  | _ => none

/-- The number of a new row: the last one it is given, or the next. -/
def newNumber? (t : StoredTable) (given : List (String × Value)) : Option Int :=
  if t.withoutRowNumber then some 0
  else
    match given.reverse.find? fun (name, _) => t.holdsNumber name || t.isNumber name with
    | some (_, v) => if v == .null then t.nextNumber? else numberOf? v
    | none => t.nextNumber?

/-- The value of the default of a column. -/
def defaultValue? (t : StoredTable) (seed : Nat) (c : StoredColumn) : Option Value :=
  match c.default with
  | none => some .null
  | some d => do
    let place := (t.position? c.name).getD 0
    let v ← d.value.eval?
      { seed := seed + 1000003 * place, moment := seed, knowsTruth := false }
    return c.type.affinity.store v

/-- The value of a column in a new row: the first one it is given, or the default. -/
def newValue? (t : StoredTable) (seed : Nat) (number : Int) (given : List (String × Value))
    (c : StoredColumn) : Option Value :=
  if t.holdsNumber c.name then some (.integer number)
  else
    match given.find? fun (name, _) => sameName name c.name with
    | some (_, v) => some (c.type.affinity.store v)
    | none => t.defaultValue? seed c

/-- A row in which the values of the columns `pending` are still to be computed, with those
computed that need no other such value, and the columns that are left. -/
def compute? (t : StoredTable) (seed : Nat) (pending : List StoredColumn) (row : Row) :
    Option (List StoredColumn × Row) :=
  pending.foldlM (fun (left, row) c =>
    match c.generated with
    | none => some (left, row)
    | some (e, _) =>
      if pending.any fun other => e.mentions other.name then some (left ++ [c], row)
      else do
        let v ← e.eval? (t.scope seed row)
        return (left, t.setValue row c.name (c.type.affinity.store v))) ([], row)

/-- A row with all computed values; `steps` bounds how they need each other. -/
def computeAll? (t : StoredTable) (seed : Nat) : Nat → List StoredColumn → Row → Option Row
  | _, [], row => some row
  | 0, _ :: _, _ => none
  | steps + 1, c :: pending, row => do
    let (left, row) ← t.compute? seed (c :: pending) row
    t.computeAll? seed steps left row

/-- The row with the values of its computed columns. -/
def withComputed? (t : StoredTable) (seed : Nat) (row : Row) : Option Row :=
  let pending := t.columns.filter fun c => c.generated.isSome
  t.computeAll? seed pending.length pending row

/-- The row with defaults in place of NULL where columns ask for it, or what becomes of it where
a column refuses NULL. -/
def withoutNulls (t : StoredTable) (seed : Nat) (row : Row) : Except Resolution Row :=
  t.columns.foldlM (fun row c =>
    match c.notNull with
    | none => .ok row
    | some r =>
      if t.valueOf row c.name != .null then .ok row
      else
        match r, t.defaultValue? seed c with
        | .replace, some v => if v == .null then .error .refuse else .ok (t.setValue row c.name v)
        | .skip, _ => .error .skip
        | _, _ => .error .refuse) row

/-- Whether a row meets all conditions: one that is unknown counts as met. -/
def checksHold (t : StoredTable) (seed : Nat) (row : Row) : Bool :=
  t.checks.all fun c =>
    match c.condition.eval? ((t.scope seed row).asking true) with
    | some v => v.truth? != some false
    | none => false

/-- Whether the values of a row are of the types of their columns, where that is asked for. -/
def typesHold (t : StoredTable) (row : Row) : Bool :=
  !t.isStrict || (t.columns.zip row.values).all fun (c, v) => c.isOfType v

/-- The new row of a table, or what becomes of it where it breaks a constraint. -/
def newRow (t : StoredTable) (seed : Nat) (given : List (String × Value)) :
    Except Resolution Row :=
  let started : Option Row := do
    let number ← t.newNumber? given
    let values ← t.columns.mapM fun c =>
      if c.generated.isSome then some .null else t.newValue? seed number given c
    t.withComputed? seed ⟨number, values⟩
  match started with
  | none => .error .refuse
  | some row => do
    let row ← t.withoutNulls seed row
    if t.typesHold row && t.checksHold seed row then return row else throw .refuse

/-- Whether rows with values for the given columns may be added at all: the columns are there
and not computed, and the defaults of the others have values. -/
def accepts (t : StoredTable) (names : List String) : Bool :=
  names.all (fun name =>
    match t.column? name with
    | some c => c.generated.isNone
    | none => t.isNumber name) &&
  t.columns.all fun c =>
    names.any (sameName c.name) || t.holdsNumber c.name || c.generated.isSome ||
      c.default.all fun d => d.value.isSound "" fun _ => false

end StoredTable

namespace Database

/-- What no two rows of a table may agree in, with what becomes of a row that does: the number
of the row, then what was declared last, but those that have rows deleted come at the end. -/
def uniqueParts (db : Database) (t : StoredTable) (seed : Nat) :
    List (Resolution × (Row → Option (List Value))) :=
  let numbers : List (Resolution × (Row → Option (List Value))) :=
    if t.withoutRowNumber then []
    else
      let r := if t.rowNumber.isSome then (t.primaryKey?.bind Key.resolution).getD .refuse
        else .refuse
      [(r, fun row => some [.integer row.number])]
  let keys := t.keys.map fun key => (key.resolution.getD .refuse, t.keyOf? key.columns)
  let indexes := ((db.indexesOf t.name).filter StoredIndex.unique).map fun i =>
    (Resolution.refuse, i.keyOf? t seed)
  let all := numbers ++ indexes.reverse ++ keys.reverse
  (all.filter fun (r, _) => r != .replace) ++ all.filter fun (r, _) => r == .replace

/-- Whether all references of a table that have to hold at once hold in a row. -/
def referencesHold (db : Database) (t : StoredTable) (row : Row) : Bool :=
  (t.foreignKeys.filter fun f => !f.reference.isDeferred).all fun f => db.holdsIn t f row

/-- The database with a row in a table whose references hold there, and what its uniqueness asks
for done. -/
def placeRow? (db : Database) (t : StoredTable) (row : Row) :
    List (Resolution × (Row → Option (List Value))) → Option Database
  | [] =>
    let db := db.setTable
      { t with rows := t.rows ++ [row], lastNumber := max t.lastNumber row.number }
    if db.referencesHold t row then some db else none
  | (r, key) :: rest =>
    let rivals := match key row with
      | some own => t.rows.filter fun other => key other == some own
      | none => []
    if rivals.isEmpty then db.placeRow? t row rest
    else
      match r with
      | .refuse => none
      | .skip => some db
      | .replace => do
        let db ← db.withoutRows? t.name rivals
        let t ← db.table? t.name
        db.placeRow? t row rest

/-- The database with a new row in a table. -/
def insertRow? (db : Database) (table : String) (given : List (String × Value)) :
    Option Database := do
  let t ← db.table? table
  let seed := db.drawn + 1
  let db := { db with drawn := seed }
  match t.newRow seed given with
  | .error .refuse => none
  | .error _ => some db
  | .ok row =>
    if !(db.indexesOf t.name).all fun i => (i.values? t seed row).isSome then none
    else db.placeRow? t row (db.uniqueParts t seed)

/-- Whether rows may be added to a table at all: its references have keys to go to, and so have
those to it that a new row can come to hold, or that many rows or a row in the place of another
can. -/
def accepts (db : Database) (t : StoredTable) (names : List String) (areMany : Bool) : Bool :=
  let replaces := t.keys.any fun key => key.resolution == some .replace
  t.accepts names && t.foreignKeys.all (fun f => (db.parentKey? f).isSome) &&
    (db.referencesTo t.name).all fun (_, f) =>
      !(areMany || replaces || f.reference.isDeferred) || (db.parentKey? f).isSome

/-- The database with rows of values for the given columns, or for all columns that are not
computed. -/
def insert? (db : Database) (table : String) (columns : Option (List String))
    (rows : List (List Expr)) : Option Database := do
  let t ← db.table? table
  let stored := (t.columns.filter fun c => c.generated.isNone).map StoredColumn.name
  let names := columns.getD stored
  if !db.accepts t names (1 < rows.length) then none
  else
    rows.foldlM (fun db row => do
      if row.length ≠ names.length || !row.all (Expr.isSound "" fun _ => false) then none
      let values ← Expr.evalAll? { seed := db.drawn, moment := db.drawn } 0 row
      db.insertRow? table (names.zip values)) db

/-- What a name in double quotes stands for in a row: the value of a column, the number of the
row, or else itself. -/
def quotedValue (t : StoredTable) (row : Row) (name : String) : Value :=
  match t.value? row name with
  | some v => v
  | none => if t.isNumber name then .integer row.number else .text name

/-- The database with copies of columns of all rows of one table in another. -/
def copyRows? (db : Database) (target source : String) (columns : List String) :
    Option Database := do
  let t ← db.table? target
  let s ← db.table? source
  if !db.accepts t columns true then none
  else
    s.rows.foldlM (fun db row =>
      db.insertRow? target (columns.map fun name => (name, quotedValue s row name))) db

/-- The database without the rows of a table. -/
def clear? (db : Database) (table : String) : Option Database := do
  let t ← db.table? table
  db.withoutRows? table t.rows

end Database

end ProjectHub.Sqlite
