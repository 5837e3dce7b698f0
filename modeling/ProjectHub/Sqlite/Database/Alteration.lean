import ProjectHub.Sqlite.Database.Insertion

/-!
# Changing what a database has

Tables and indexes come and go, and tables change their names and columns. What
is there has to stay sound: a name is taken once, a column goes only if nothing
else reads it, and a column that comes to rows there are has a value for them.
-/

namespace ProjectHub.Sqlite.Database

/-- Whether something new may have a name. -/
def isFree (db : Database) (name : String) : Bool :=
  !db.isTaken name && !isReserved name

/-- The database with a new table that has no rows. -/
def createTable? (db : Database) (name : String) (definition : TableDefinition) :
    Option Database := do
  let t ← StoredTable.ofDefinition? name definition
  if db.isFree name then some { db with tables := db.tables ++ [t] } else none

/-- The part of an index on a table that an expression is. A name in double quotes need not be
that of a column. -/
def keyPart? (t : StoredTable) (e : Expr) : Option KeyPart :=
  let onColumn : Option KeyPart := do
    let (word, named) ← KeyRequest.column? e
    if !t.hasColumn word then none
    match named with
    | some collation => return .column word (some (← Collation.ofName? collation))
    | none => return .column word none
  onColumn.orElse fun _ =>
    match e with
    | .name text _ true => some (.column text none)
    | .name _ _ false => none
    | .value (.text _) => none
    | e =>
      if e.isSettled && e.isSound t.name t.hasColumn then some (.expression e) else none

/-- Whether the rows of a table have values for an index, and no two the same if it asks for
that. -/
def admitsIndex (t : StoredTable) (i : StoredIndex) : Bool :=
  t.rows.all (fun row => (i.values? t 0 row).isSome) &&
    (!i.unique || decide (t.rows.filterMap (i.keyOf? t 0)).Nodup)

/-- The database with a new index. -/
def createIndex? (db : Database) (name table : String) (unique : Bool)
    (columns : List KeyColumn) : Option Database := do
  let t ← db.table? table
  let parts ← columns.mapM fun k => keyPart? t k.value
  let index : StoredIndex := ⟨name, table, unique, parts⟩
  if db.isFree name && !parts.isEmpty && admitsIndex t index then
    some { db with indexes := db.indexes ++ [index] }
  else none

/-- The database without a table and its indexes. Its rows are deleted first, as far as
references to them admit. -/
def dropTable? (db : Database) (name : String) : Option Database := do
  let t ← db.table? name
  let db ← db.withoutRows? name t.rows
  return { db with
    tables := db.tables.filter fun t => !sameName t.name name
    indexes := db.indexes.filter fun i => !sameName i.table name }

/-- The database without an index. -/
def dropIndex? (db : Database) (name : String) : Option Database :=
  if (db.index? name).isSome then
    some { db with indexes := db.indexes.filter fun i => !sameName i.name name }
  else none

/-- A reference after its parent has got another name. -/
def renameParent (name newName : String) (f : ForeignKey) : ForeignKey :=
  if sameName f.reference.parent name then
    { f with reference := { f.reference with parent := newName } }
  else f

/-- The database with a table under another name. -/
def renameTable? (db : Database) (name newName : String) : Option Database := do
  let _ ← db.table? name
  if !db.isFree newName then none
  else
    some { db with
      tables := db.tables.map fun t =>
        { t with
          name := if sameName t.name name then newName else t.name
          foreignKeys := t.foreignKeys.map (renameParent name newName) }
      indexes := db.indexes.map fun i =>
        if sameName i.table name then { i with table := newName } else i }

/-! ## Columns -/

/-- Whether a column may come to rows that are there: a computed one is not kept in them; any
other has a literal for a default, which is not NULL where NULL is refused or where there
is nothing to refer to. -/
def isAddable (c : StoredColumn) (refers : Bool) : Bool :=
  match c.generated, c.default with
  | some (_, isStored), _ => !isStored
  | none, none => c.notNull.isNone
  | none, some d =>
    match d.value, d.value.literal? with
    | .value .null, _ => c.notNull.isNone
    | _, some _ => !refers
    | _, none => false

/-- The database with a column at the end of a table. -/
def addColumn? (db : Database) (table : String) (definition : ColumnDefinition) :
    Option Database := do
  let t ← db.table? table
  let c ← StoredColumn.ofDefinition? definition
  let c ← if t.isStrict then c.strict? else some c
  let isKey := !(KeyRequest.ofColumn definition).isEmpty
  let foreignKeys := ForeignKey.ofColumns [definition]
  let checks := definition.constraints.filterMap fun
    | .check e => some (⟨e, some c.name⟩ : Check)
    | _ => none
  let wider : StoredTable := { t with
    columns := t.columns ++ [c]
    checks := t.checks ++ checks
    foreignKeys := foreignKeys ++ t.foreignKeys
    rows := t.rows.map fun row => { row with values := row.values ++ [literalDefault c] } }
  let rows := wider.rows.map fun row =>
    if c.generated.isSome then (wider.withComputed? 0 row).getD row else row
  let wider := { wider with rows := rows }
  let refusesNull := c.generated.isSome && c.notNull.isSome
  if t.hasColumn c.name || isKey || maxColumns < wider.columns.length || !wider.isSound ||
      !(rows.isEmpty || isAddable c (!foreignKeys.isEmpty)) ||
      (!checks.isEmpty && !rows.all (wider.checksHold 0)) || !rows.all wider.typesHold ||
      (refusesNull && rows.any fun row => wider.valueOf row c.name == .null) then none
  else some (db.setTable wider)

/-- Whether a part of a table other than a column itself reads the column. -/
def isRead (t : StoredTable) (column : String) : Bool :=
  let isForeign (owner : Option String) : Bool := !owner.any (sameName column)
  t.keys.any (fun key => key.columns.any fun (name, _) => sameName name column) ||
    (t.checks.filter fun c => isForeign c.owner).any (fun c => c.condition.mentions column) ||
    (t.foreignKeys.filter fun f => isForeign f.owner).any
      (fun f => f.columns.any (sameName column)) ||
    (t.columns.filter fun c => !sameName c.name column).any fun c =>
      c.generated.any fun (e, _) => e.mentions column

/-- The table without a column. -/
def withoutColumn (t : StoredTable) (column : String) (place : Nat) : StoredTable :=
  let stays (owner : Option String) : Bool := !owner.any (sameName column)
  { t with
    columns := t.columns.eraseIdx place
    checks := t.checks.filter fun c => stays c.owner
    foreignKeys := t.foreignKeys.filter fun f => stays f.owner
    rows := t.rows.map fun row => { row with values := row.values.eraseIdx place } }

/-- The database in which names in indexes that are no columns stand for themselves from now
on. -/
def settleNames (db : Database) : Database :=
  let settle (table : String) : KeyPart → KeyPart
    | .column name collation =>
      if (db.table? table).any fun t => t.hasColumn name then .column name collation
      else .expression (.value (.text name))
    | part => part
  { db with indexes := db.indexes.map fun i => { i with parts := i.parts.map (settle i.table) } }

/-- The database without a column. A key column, a column that something else reads and the last
column stay. -/
def dropColumn? (db : Database) (table column : String) : Option Database := do
  let t ← db.table? table
  let place ← t.position? column
  let narrow := withoutColumn t column place
  if isRead t column || (db.indexesOf table).any (fun i => i.mentions column) ||
      !narrow.columns.any fun c => c.generated.isNone then none
  else some (db.settleNames.setTable narrow)

end ProjectHub.Sqlite.Database
