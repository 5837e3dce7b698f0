import ProjectHub.Hub.Basic
import ProjectHub.Sqlite.Database.Execution

/-!
# Sessions

A session is a hub that is open on a machine. The database under its stores may
admit less than its operations ask for: it can be open for reading only, and a
project whose database it is, too, can take the tables away. An operation first
refuses what is wrong with its request, and then fails with what the database
refuses; it changes no store then.
-/

/-!
## The tables of a hub

A hub with a database keeps its rows in four tables. They stand beside any other
tables of that database, and are seen and changed by whoever else connects to it.
-/

namespace ProjectHub.Hub

/-- A table of a hub: its name, and the columns that the hub works with. -/
structure HubTable where
  name : String
  columns : List String

/-- The tables of a hub. -/
def tables : List HubTable :=
  [ ⟨"vault_secrets", ["project_id", "secret_key", "encrypted_value", "updated_at"]⟩,
    ⟨"registry_manifests",
      ["seq", "id", "project_id", "version", "bundles", "created_at", "created_by"]⟩,
    ⟨"schema_plans", ["project_id", "generation", "planned_documents", "planned_at"]⟩,
    ⟨"schema_states", ["project_id", "documents", "applied_at"]⟩ ]

/-- The index of a hub. -/
def manifestIndex : String := "idx_registry_manifests_project_seq"

/-- The statements that make the tables and the index. What is there already stays. -/
def tableStatements : List String :=
  [ "CREATE TABLE IF NOT EXISTS vault_secrets (project_id TEXT NOT NULL, " ++
      "secret_key TEXT NOT NULL, encrypted_value TEXT NOT NULL, updated_at TEXT NOT NULL, " ++
      "PRIMARY KEY (project_id, secret_key))",
    "CREATE TABLE IF NOT EXISTS registry_manifests (seq INTEGER PRIMARY KEY AUTOINCREMENT, " ++
      "id TEXT NOT NULL UNIQUE, project_id TEXT NOT NULL, version TEXT NOT NULL, " ++
      "bundles TEXT NOT NULL, created_at TEXT NOT NULL, created_by TEXT NOT NULL)",
    "CREATE INDEX IF NOT EXISTS " ++ manifestIndex ++
      " ON registry_manifests (project_id, seq)",
    "CREATE TABLE IF NOT EXISTS schema_plans (project_id TEXT PRIMARY KEY NOT NULL, " ++
      "generation INTEGER NOT NULL, planned_documents TEXT, planned_at TEXT)",
    "CREATE TABLE IF NOT EXISTS schema_states (project_id TEXT PRIMARY KEY NOT NULL, " ++
      "documents TEXT NOT NULL, applied_at TEXT NOT NULL)" ]

/-- The database with the tables of a hub, if they can be made where they are missing. -/
def withTables? (db : Sqlite.Database) : Option Sqlite.Database := do
  let commands ← tableStatements.mapM Sqlite.Command.ofText?
  db.transact? commands.flatten

/-- Whether nothing is left to be made. -/
def isComplete (db : Sqlite.Database) : Bool :=
  (tables.all fun table => (db.table? table.name).isSome) && (db.index? manifestIndex).isSome

/-- Whether a hub can work with the tables: each is there and has the columns asked for. -/
def isUsable (db : Sqlite.Database) : Bool :=
  tables.all fun table => (db.table? table.name).any fun t => table.columns.all t.hasColumn

end ProjectHub.Hub

namespace ProjectHub

/-! ## Machines and sessions -/

/-- What a hub finds on its machine. -/
structure Machine where
  /-- The files, and the databases of projects. -/
  host : Sqlite.Host
  /-- The records that a sink in memory was given. -/
  records : Edge.Records := .empty
  /-- The stores of hubs, by the path of their database. -/
  hubs : NameMap Hub.Stores := .empty

namespace Hub

/-- What the database under a hub admits. -/
inductive Standing where
  /-- Rows can be read and written. -/
  | whole
  /-- Rows can only be read. -/
  | readOnly
  /-- The tables are gone. -/
  | gone
  deriving DecidableEq

/-- What the tables of a database admit, which may be written or not. -/
def Standing.ofDatabase (writable : Bool) (db : Sqlite.Database) : Standing :=
  if !isUsable db then .gone else if writable then .whole else .readOnly

/-- A hub that is open on a machine. -/
structure Session where
  hub : Hub Machine
  /-- Where the stores of the hub are kept. -/
  place : Sqlite.Place := .memory
  standing : Standing := .whole

/-- Whether the error is found by looking at the request alone. -/
def Error.isOfRequest : Error → Bool
  | .vault (.keyLength _) => true
  | e => e.kind == .invalidInput

/-- The tables that an operation works with, by what it fails with when one is refused. -/
structure Footprint where
  /-- What it fails with if the first table it reads is gone. -/
  reading : Error
  /-- What it fails with if the table it ends by writing cannot be written; none if it writes
  none. -/
  writing : Option Error := none

namespace Footprint

/-- Reads secrets. -/
def secrets : Footprint := ⟨.vault (.store .refused), none⟩

/-- Reads and writes secrets. -/
def secretChange : Footprint := { secrets with writing := some (.vault (.store .refused)) }

/-- Reads secrets, then reads and writes plans. -/
def planChange : Footprint :=
  ⟨.plan (.vault (.store .refused)), some (.plan (.store .refused))⟩

/-- Reads applied documents. -/
def states : Footprint := ⟨.plan (.store .refused), none⟩

/-- Reads manifests. -/
def manifests : Footprint := ⟨.registry (.store .refused), none⟩

end Footprint

namespace Session

variable {α : Type}

/-- How an operation of the hub ends. Where the tables are gone, the hub has empty stores, so
what it finds wrong with a request is found before any store is asked. -/
def perform (s : Session) (footprint : Footprint)
    (operation : Hub Machine → Hub Machine × Except Error α) : Session × Except Error α :=
  let (next, answer) := operation s.hub
  match s.standing, answer, footprint.writing with
  | .readOnly, .ok _, some refused =>
    ({ s with hub := s.hub.withWorld next.world }, .error refused)
  | .gone, .error error, _ =>
    (s, .error (if error.isOfRequest then error else footprint.reading))
  | .gone, .ok _, _ => (s, .error footprint.reading)
  | _, _, _ => ({ s with hub := next }, answer)

/-- What an operation answers that changes nothing. -/
def ask (s : Session) (footprint : Footprint) (question : Hub Machine → Except Error α) :
    Except Error α :=
  (s.perform footprint fun hub => (hub, question hub)).2

/-- The session without the tables of its hub. -/
def withoutTables (s : Session) : Session :=
  let empty := Stores.emptyDatabase
  let vault := { s.hub.state.vault with store := empty.secrets }
  { s with
    hub := { s.hub with
      state := { s.hub.state with vault := vault, ledger := empty.ledger }
      manifests := empty.manifests }
    standing := .gone }

/-- Whether the tables of the hub are still what they were. -/
def keepsTables (s : Session) : Bool :=
  match s.place with
  | .memory => true
  | .file _ => (s.hub.world.host.database? s.place).any isUsable

/-! ## Operations -/

/-- Stores a secret. -/
def setSecret (s : Session) (nonce : Vault.Nonce) (now : Instant) (r : Api.SecretRequest) :
    Session × Except Error Api.SuccessBody :=
  s.perform .secretChange fun hub => hub.setSecret nonce now r

/-- Removes a secret. -/
def deleteSecret (s : Session) (key : String) (query : Api.ProjectQuery) :
    Session × Except Error Api.SuccessBody :=
  s.perform .secretChange fun hub => hub.deleteSecret key query

/-- The keys of a project's secrets. -/
def listSecrets (s : Session) (query : Api.ProjectQuery) : Except Error (List String) :=
  s.ask .secrets fun hub => hub.listSecrets query

/-- The value of a secret. -/
def getSecret (s : Session) (project key : String) : Except Error Secret :=
  s.ask .secrets fun hub => hub.getSecret project key

/-- Seals a secret anew under the key of an edge, and puts it on its way there. -/
def provisionSecret (s : Session) (nonce : Vault.Nonce) (project key : String)
    (edgeKey : List UInt8) : Session × Except Error String :=
  s.perform .secrets fun hub => hub.provisionSecret nonce project key edgeKey

/-- Plans documents. -/
def planSchema (s : Session) (now : Instant) (r : Api.PlanRequest) :
    Session × Except Error Proposal :=
  s.perform .planChange fun hub => hub.planSchema now r

/-- Whether a plan of a project is on record. -/
def isPlanned (s : Session) (project : String) : Bool :=
  match s.hub.state.ledger.getPlan project with
  | .ok (some _) => true
  | _ => false

/-- Applies the plan of a token. Without a plan on record, nothing is written. The statements
of a plan may take away the tables of the hub itself; the plan cannot be cleared then. -/
def applySchema (s : Session) (r : Api.ApplyRequest) : Session × Except Error Api.SuccessBody :=
  let writing := if s.isPlanned r.project then Footprint.planChange.writing else none
  let (next, answer) :=
    s.perform { Footprint.planChange with writing := writing } fun hub => hub.applySchema r
  if s.standing = .gone ∨ next.keepsTables then (next, answer)
  else (next.withoutTables, .error (.plan (.store .refused)))

/-- The document last applied under an alias. -/
def currentState (s : Session) (project name : String) : Except Error String :=
  s.ask .states fun hub => hub.currentState project name

/-- Pushes a manifest, and puts its records on their way to the edge. -/
def pushManifest (s : Session) (id : String) (now : Instant) (r : Api.PushRequest) :
    Session × Except Error Manifest :=
  match s.standing with
  | .whole =>
    let (hub, answer) := s.hub.pushManifest id now r
    ({ s with hub := hub }, answer)
  | _ =>
    (s, do
      (Registry.checkPush r.project r.bundles).mapError .registry
      throw (.registry (.store .refused)))

/-- The manifest of a version, or the last. -/
def getManifest (s : Session) (query : Api.ManifestQuery) : Except Error Manifest :=
  s.ask .manifests fun hub => hub.getManifest query

/-- The versions of a project's manifests, oldest first. -/
def listVersions (s : Session) (project : String) : Except Error Api.VersionsBody :=
  s.ask .manifests fun hub => .ok (hub.listVersions project)

end Session

end Hub

end ProjectHub
