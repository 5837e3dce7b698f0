import ProjectHub.Sqlite.Command.Syntax
import ProjectHub.Sqlite.Database.Alteration

/-!
# Carrying out commands

A command either gives the next database or is refused; a list of commands is
carried out as a whole or not at all.
-/

namespace ProjectHub.Sqlite.Database

/-- The database after a command, if it is carried out. -/
def execute? (db : Database) : Command → Option Database
  | .createTable name definition ifMissing =>
    if ifMissing && (db.table? name).isSome then some db else db.createTable? name definition
  | .createIndex name table unique columns ifMissing =>
    if ifMissing && (db.index? name).isSome then some db
    else db.createIndex? name table unique columns
  | .dropTable name ifThere =>
    if ifThere && (db.table? name).isNone then some db else db.dropTable? name
  | .dropIndex name ifThere =>
    if ifThere && (db.index? name).isNone then some db else db.dropIndex? name
  | .renameTable name newName => db.renameTable? name newName
  | .addColumn table column => db.addColumn? table column
  | .dropColumn table column => db.dropColumn? table column
  | .insert table columns rows => db.insert? table columns rows
  | .copyRows target source columns => db.copyRows? target source columns
  | .deleteRows table => db.clear? table
  | .evaluate values =>
    if values.all (Expr.isSound "" fun _ => false) &&
        (Expr.evalAll? { seed := db.drawn } 0 values).isSome then some db
    else none
  | .idle => some db

/-- The database after all commands, or none if one of them is refused or a reference does not
hold in the end. -/
def transact? (db : Database) (commands : List Command) : Option Database := do
  let next ← commands.foldlM execute? db
  if next.deferredHold then some next else none

/-- The database after all statements, or none if one of them is refused or a reference does
not hold in the end. -/
def run? (db : Database) (statements : List Sql.Statement) : Option Database := do
  let commands ← statements.mapM Command.ofStatement?
  db.transact? commands.flatten

end ProjectHub.Sqlite.Database
