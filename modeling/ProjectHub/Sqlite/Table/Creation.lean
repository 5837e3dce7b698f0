import ProjectHub.Sqlite.Table.Basic

/-!
# Tables from their definitions

A definition gives a table if what it says can be: columns of different names,
one of them at least that is not computed, one primary key at most, and
constraints that are about columns there are.
-/

namespace ProjectHub.Sqlite

/-- The greatest number of columns of a table. -/
def maxColumns : Nat := 2000

namespace StoredColumn

/-- Takes in a constraint. A column is computed or has a default. -/
def withConstraint? (c : StoredColumn) : ColumnConstraint → Option StoredColumn
  | .notNull r => some { c with notNull := some r }
  | .default v => if c.generated.isSome then none else some { c with default := some v }
  | .collate word =>
    (Collation.ofName? word).map fun collation => { c with collation := collation }
  | .generated e isStored =>
    if c.generated.isSome || c.default.isSome then none
    else some { c with generated := some (e, isStored) }
  | _ => some c

/-- The column of a definition. -/
def ofDefinition? (d : ColumnDefinition) : Option StoredColumn :=
  d.constraints.foldlM withConstraint? { name := d.name, type := d.type }

/-- The types of columns that take values of their types only. -/
def strictTypes : List String := ["ANY", "BLOB", "INT", "INTEGER", "REAL", "TEXT"]

/-- The column in a table whose columns take values of their types only. -/
def strict? (c : StoredColumn) : Option StoredColumn :=
  if !strictTypes.contains (Text.upperAscii c.type.text) then none
  else if Text.sameAscii c.type.text "ANY" then
    some { c with type := { c.type with affinity := .blob } }
  else some c

/-- Whether the column takes a value where columns take values of their types only. -/
def isOfType (c : StoredColumn) (v : Value) : Bool :=
  match Text.upperAscii c.type.text, v with
  | _, .null | "ANY", _ | "INT", .integer _ | "INTEGER", .integer _ | "REAL", .real _
  | "TEXT", .text _ | "BLOB", .blob _ => true
  | _, _ => false

end StoredColumn

/-- A key that a definition asks for. -/
structure KeyRequest where
  columns : List KeyColumn
  resolution : Option Resolution
  isPrimary : Bool
  /-- Whether numbers of rows are given once only. -/
  isOnce : Bool
  /-- Whether a column with numbers could hold those of the rows. -/
  mayNumber : Bool
  /-- The column that the key is declared with, if it is declared with one. -/
  owner : Option String

namespace KeyRequest

/-- The keys that a column asks for. -/
def ofColumn (d : ColumnDefinition) : List KeyRequest :=
  let own : List KeyColumn := [⟨.name d.name true false, false⟩]
  d.constraints.filterMap fun
    | .primaryKey descending autoincrement r =>
      some ⟨own, r, true, autoincrement, !descending, some d.name⟩
    | .unique r => some ⟨own, r, false, false, false, some d.name⟩
    | _ => none

/-- The key that a constraint of a table asks for. -/
def ofTable? : TableConstraint → Option KeyRequest
  | .primaryKey columns autoincrement r => some ⟨columns, r, true, autoincrement, true, none⟩
  | .unique columns r => some ⟨columns, r, false, false, false, none⟩
  | _ => none

/-- The column that an expression in a key is, with the collation that it names. -/
def column? : Expr → Option (String × Option String)
  | .name text _ _ => some (text, none)
  | .value (.text text) => some (text, none)
  | .collate e word => (column? e).map fun (text, _) => (text, some word)
  | _ => none

/-- The key on columns of a table. -/
def key? (columns : List StoredColumn) (r : KeyRequest) : Option Key := do
  let parts ← r.columns.mapM fun k => do
    let (word, named) ← column? k.value
    let c ← columns.find? fun c => sameName c.name word
    let collation ← match named with
      | some collation => Collation.ofName? collation
      | none => some c.collation
    if r.isPrimary && c.generated.isSome then none else some (c.name, collation)
  return ⟨parts, r.resolution, r.isPrimary, r.owner⟩

/-- The column that holds the numbers of the rows, if the key is primary and on one column of
the type for it. -/
def rowNumber? (columns : List StoredColumn) (r : KeyRequest) (key : Key) : Option RowNumber :=
  match key.columns with
  | [(name, _)] =>
    if r.isPrimary && r.mayNumber &&
        columns.any (fun c => sameName c.name name && c.type.numbersRows) then
      some ⟨name, r.isOnce⟩
    else none
  | _ => none

end KeyRequest

/-- Keys with one more. A key on the columns of another is the same key, so what they say
becomes of rows may not differ. -/
def Key.add? (keys : List Key) (key : Key) : Option (List Key) :=
  match keys.find? fun other => other.columns = key.columns with
  | none => some (keys ++ [key])
  | some other =>
    if other.resolution.isSome && key.resolution.isSome && other.resolution ≠ key.resolution then
      none
    else
      let both : Key := { other with
        resolution := other.resolution.or key.resolution
        isPrimary := other.isPrimary || key.isPrimary }
      some (keys.map fun k => if k.columns = key.columns then both else k)

namespace ForeignKey

/-- The references that columns declare, the last one first. -/
def ofColumns (columns : List ColumnDefinition) : List ForeignKey :=
  columns.foldl (fun keys d =>
    d.constraints.foldl (fun keys constraint =>
      match constraint, keys with
      | .references r, keys => ⟨[d.name], r, some d.name⟩ :: keys
      | .deferred isDeferred, key :: older =>
        { key with reference := { key.reference with isDeferred := isDeferred } } :: older
      | _, keys => keys) keys) []

/-- The reference that a constraint of a table declares. -/
def ofTable? : TableConstraint → Option ForeignKey
  | .foreignKey columns r => some ⟨columns, r, none⟩
  | _ => none

/-- Whether a reference goes from columns of a table to as many columns. -/
def isSound (columns : List StoredColumn) (f : ForeignKey) : Bool :=
  f.columns.all (fun name => columns.any fun c => sameName c.name name) &&
    (f.reference.parentColumns.isEmpty ||
      f.reference.parentColumns.length == f.columns.length)

end ForeignKey

namespace Check

/-- The conditions of a definition. -/
def ofDefinition (d : TableDefinition) : List Check :=
  (d.columns.flatMap fun c => c.constraints.filterMap fun
    | .check e => some ⟨e, some c.name⟩
    | _ => none) ++
  d.constraints.filterMap fun
    | .check e => some ⟨e, none⟩
    | _ => none

end Check

namespace StoredTable

/-- Whether the columns and conditions of a table are about columns there are. -/
def isSound (t : StoredTable) : Bool :=
  t.columns.any (fun c => c.generated.isNone) &&
    t.checks.all (fun c =>
      c.condition.isSound t.name fun name => t.hasColumn name || t.isNumber name) &&
    t.columns.all (fun c => c.generated.all fun (e, _) =>
      e.isSettled && e.isSound t.name t.hasColumn) &&
    t.foreignKeys.all fun f => f.isSound t.columns

/-- The computed columns that are left when those that need none of them are taken away, as
many times as `steps` says. -/
def entangled : Nat → List StoredColumn → List StoredColumn
  | 0, columns => columns
  | steps + 1, columns =>
    entangled steps (columns.filter fun c => c.generated.any fun (e, _) =>
      columns.any fun other => e.mentions other.name)

/-- Whether computed columns that are not kept in the rows need each other in a circle. -/
def hasLoop (t : StoredTable) : Bool :=
  let columns := t.columns.filter fun c => c.generated.any fun (_, isStored) => !isStored
  !(entangled columns.length columns).isEmpty

/-- The table with columns that refuse NULL where its options ask for it. -/
def withKeyColumns (t : StoredTable) : StoredTable :=
  let refusesNull (c : StoredColumn) : Bool :=
    (t.withoutRowNumber || t.isStrict) && !t.holdsNumber c.name &&
      t.primaryColumns.any (sameName c.name)
  { t with columns := t.columns.map fun c =>
      if refusesNull c && c.notNull.isNone then { c with notNull := some .refuse } else c }

/-- The table of a definition. -/
def ofDefinition? (name : String) (d : TableDefinition) : Option StoredTable := do
  let columns ← d.columns.mapM StoredColumn.ofDefinition?
  let columns ← if d.isStrict then columns.mapM StoredColumn.strict? else some columns
  let names := columns.map fun c => Text.lowerAscii c.name
  let requests :=
    d.columns.flatMap KeyRequest.ofColumn ++ d.constraints.filterMap KeyRequest.ofTable?
  let asked ← requests.mapM fun r => (r.key? columns).map fun key => (r, key)
  let number? := asked.findSome? fun (r, key) => r.rowNumber? columns key
  let isOnce := requests.any KeyRequest.isOnce
  let primary := (requests.filter KeyRequest.isPrimary).length
  let isNumber (key : Key) : Bool := key.isPrimary && number?.isSome
  let keys ← ((asked.map Prod.snd).filter fun key => !isNumber key).foldlM Key.add? []
  let table : StoredTable :=
    { name := name
      columns := columns
      keys := (asked.map Prod.snd).filter isNumber ++ keys
      rowNumber := if d.withoutRowNumber then none else number?
      checks := Check.ofDefinition d
      foreignKeys := ForeignKey.ofColumns d.columns ++ d.constraints.filterMap ForeignKey.ofTable?
      withoutRowNumber := d.withoutRowNumber
      isStrict := d.isStrict }
  if !decide names.Nodup || maxColumns < names.length || 1 < primary ||
      (isOnce && table.rowNumber.isNone) || (d.withoutRowNumber && primary == 0) ||
      !table.isSound || table.hasLoop then none
  else some table.withKeyColumns

end StoredTable

end ProjectHub.Sqlite
