import ProjectHub.Realm.Basic
import ProjectHub.Sql.Constant

/-!
# The difference of two realms

The changes that turn one realm into another, table by table in name order.
A table both realms have is changed in place where that is possible: index
drops, column drops, column adds, index adds. Otherwise it is rebuilt.
-/

namespace ProjectHub

namespace Table

/-- A new column that cannot be added in place: its default is no constant, or it has
none and admits no NULL. -/
def needsValues (column : Column) : Bool :=
  match column.default with
  | some default => !Sql.isConstant default
  | none => !column.nullable

/-- Whether an index that stays as it is uses the column. -/
def keepsIndexOn (before after : Table) (column : String) : Bool :=
  before.indexes.toList.any fun (name, index) =>
    index.columns.contains column && after.indexes.get? name == some index

/-- Whether the change from one shape to the other cannot be made in place: another
primary key, a changed column, a new column that needs values, or a dropped column that
a surviving index uses. -/
def needsRebuild (before after : Table) : Bool :=
  before.primaryKey != after.primaryKey ||
    after.columns.any (fun column =>
      (before.column? column.name).any fun existing => existing != column) ||
    (after.columns.filter fun column => !before.hasColumn column.name).any needsValues ||
    before.columns.any fun column =>
      !after.hasColumn column.name && keepsIndexOn before after column.name

/-- The columns whose data a rebuild carries over, in the new order. -/
def sharedColumns (before after : Table) : List String :=
  (after.columns.filter fun column => before.hasColumn column.name).map Column.name

/-- The changes in place from one shape to the other. -/
def changesInPlace (before after : Table) : List SchemaChange :=
  (before.indexes.toList.filterMap fun (name, index) =>
    if after.indexes.get? name = some index then none
    else some (.dropIndex after.name name)) ++
  (before.columns.filterMap fun column =>
    if after.hasColumn column.name then none
    else some (.dropColumn after.name column.name)) ++
  (after.columns.filterMap fun column =>
    if before.hasColumn column.name then none
    else some (.addColumn after.name column)) ++
  (after.indexes.toList.filterMap fun (name, index) =>
    if before.indexes.get? name = some index then none
    else some (.addIndex after.name index))

/-- The changes from one shape of a table to the other. -/
def diff (before after : Table) : List SchemaChange :=
  if before = after then []
  else if needsRebuild before after then
    [.rebuildTable before after (sharedColumns before after)]
  else changesInPlace before after

end Table

namespace Realm

/-- The changes for one table name. -/
def diffAt (current desired : Realm) (name : String) : List SchemaChange :=
  match current.tables.get? name, desired.tables.get? name with
  | none, some after => [.addTable after]
  | some _, none => [.dropTable name]
  | some before, some after => before.diff after
  | none, none => []

/-- The changes that turn `current` into `desired`, ordered by table name. -/
def diff (current desired : Realm) : List SchemaChange :=
  (current.tables.allKeys desired.tables).flatMap (diffAt current desired)

end Realm

end ProjectHub
