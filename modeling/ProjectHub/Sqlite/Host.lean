import ProjectHub.Files
import ProjectHub.Sqlite.Database.Execution
import ProjectHub.Sqlite.Inspect
import ProjectHub.Sqlite.Location

/-!
# Databases in files

A database is kept in a file, or in memory for as long as the connection to it
lives. A file is created when it is missing, if the directory it goes into
exists. A path is taken by its names alone: `..` goes back over whatever stands
before it.
-/

namespace ProjectHub.Sqlite

/-- Where a database is. -/
inductive Place where
  /-- In memory: a fresh database at each connection. -/
  | memory
  /-- In a file, by its path from the root down. -/
  | file (path : String)
  deriving DecidableEq

/-- A connection to a database. -/
structure Connection where
  place : Place
  /-- Whether the database may be changed. -/
  writable : Bool
  /-- Whether the file is taken to change by no hand. -/
  frozen : Bool := false
  deriving DecidableEq

/-- The files of a machine, and the databases that are kept in them by the path of the file. -/
structure Host where
  files : FileSystem
  databases : NameMap Database := .empty

namespace Host

/-- The longest path of a database in bytes. -/
def maxPath : Nat := 510

/-- Whether a name can be looked up under names from the root down: nothing before it is a
file, and where there is a directory, it is not too long for that. -/
def canLookUp (files : FileSystem) (above : List String) (name : String) : Bool :=
  (FileSystem.pathOf (above ++ [name])).utf8ByteSize ≤ maxPath &&
    match FileSystem.directoryAt above files with
    | .ok _ => name.utf8ByteSize ≤ FileSystem.maxName
    | .error .notFound => true
    | .error _ => false

/-- The names from the root down that a path means after the names `above`. -/
def names? (files : FileSystem) : List String → List String → Option (List String)
  | above, [] => if above.isEmpty then none else some above
  | above, name :: rest =>
    if name = "" ∨ name = "." then names? files above rest
    else if name = ".." then names? files above.dropLast rest
    else if canLookUp files above name then names? files (above ++ [name]) rest
    else none

/-- The host with a file at the given names, if one is there or can be made. -/
def withFile? (host : Host) (names : List String) (creates : Bool) : Option Host :=
  match FileSystem.nodeAt? names host.files with
  | some (.file _) => some host
  | some .directory => none
  | none =>
    if creates && FileSystem.isDirectory names.dropLast host.files then
      some { host with
        files := NameMap.insert host.files (FileSystem.pathOf names) (.file []) }
    else none

/-- A connection to a database, and the host after it is opened. -/
def open? (host : Host) (opening : Opening) : Option (Connection × Host) := do
  let writable := opening.writes && !opening.frozen
  if opening.isTransient then return (⟨.memory, writable, opening.frozen⟩, host)
  let names ← names? host.files [] (opening.path.splitOn "/")
  let host ← host.withFile? names opening.creates
  return (⟨.file (FileSystem.pathOf names), writable, opening.frozen⟩, host)

/-- The database at a place; one that is not there yet is empty. A file with content of its own
is none. -/
def database? (host : Host) : Place → Option Database
  | .memory => some .empty
  | .file path =>
    match host.files.get? path with
    | some (.file (_ :: _)) => none
    | _ => some ((host.databases.get? path).getD .empty)

/-- The host with a database at a place; one in memory is not kept. -/
def setDatabase (host : Host) (place : Place) (db : Database) : Host :=
  match place with
  | .memory => host
  | .file path => { host with databases := host.databases.insert path db }

end Host

namespace Connection

/-- The realm of the database, if there is one. -/
def inspect? (c : Connection) (host : Host) : Option Realm :=
  (host.database? c.place).map Database.inspect

/-- The host after all statements, or none if the database refuses one of them. -/
def run? (c : Connection) (statements : List Sql.Statement) (host : Host) : Option Host := do
  if !c.writable && !statements.isEmpty then none
  let next ← (← host.database? c.place).run? statements
  return host.setDatabase c.place next

/-- The host after a command, or none if the database refuses it. -/
def command? (c : Connection) (command : Command) (host : Host) : Option Host := do
  if !c.writable then none
  let next ← (← host.database? c.place).transact? [command]
  return host.setDatabase c.place next

end Connection

/-- A connection to the database that a URL names, and the host after it is opened. -/
def Host.connect (host : Host) (location : Location) : Except OpenFault (Connection × Host) :=
  match Opening.ofLocation location with
  | .error fault => .error fault
  | .ok opening =>
    match host.open? opening with
    | some opened => .ok opened
    | none => .error .refused

end ProjectHub.Sqlite
