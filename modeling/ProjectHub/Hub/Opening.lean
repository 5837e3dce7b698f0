import ProjectHub.Edge.Folder
import ProjectHub.Edge.Remote
import ProjectHub.Hub.Session
import ProjectHub.Settings.Basic

/-!
# Opening a hub

A hub is opened on a machine from settings, over a database that keeps its
stores from one opening to the next, or without settings over stores in memory.
-/

namespace ProjectHub

namespace Hub

/-- The engines of a hub. -/
def engines : List (Plan.Engine Machine) :=
  [Plan.sqliteEngine.within Machine.host fun host machine => { machine with host := host }]

/-- The stores of a hub in its database. -/
structure Keeping where
  place : Sqlite.Place
  stores : Stores
  standing : Standing

/-- The stores in the file of a database, and the machine once the tables are made that are
missing. Where one is missing or of no use, no rows are left. -/
def keepingAt (machine : Machine) (path : String) (writable : Bool) :
    Option (Keeping × Machine) := do
  let place := Sqlite.Place.file path
  let db ← machine.host.database? place
  if isComplete db then
    let stores := if isUsable db then machine.hubs.get? path else none
    return (⟨place, stores.getD .emptyDatabase, .ofDatabase writable db⟩, machine)
  else if writable then
    let db ← withTables? db
    return (⟨place, .emptyDatabase, .ofDatabase writable db⟩,
      { machine with host := machine.host.setDatabase place db })
  else none

/-- Opens the database of a hub that a URL names. The rows of a hub stand beside the file at
first, so a file that is taken to change by no hand never shows the tables. -/
def openStores (machine : Machine) (url : String) :
    Except DatabaseFault (Keeping × Machine) := do
  let location ← (Sqlite.Location.ofUrl url).mapError .badUrl
  let (connection, host) ← (machine.host.connect location).mapError .closed
  let machine := { machine with host := host }
  let opened : Option (Keeping × Machine) := match connection.place with
    | .memory =>
      if connection.writable then some (⟨.memory, .emptyDatabase, .whole⟩, machine) else none
    | .file path =>
      if connection.frozen then none else keepingAt machine path connection.writable
  match opened with
  | some opened => return opened
  | none => throw (.closed .refused)

/-- The machine with the stores of a hub kept at their place. -/
def keepStores (machine : Machine) (place : Sqlite.Place) (stores : Stores) : Machine :=
  match place with
  | .memory => machine
  | .file path => { machine with hubs := machine.hubs.insert path stores }

/-- The sink for files of a machine. -/
def folderSink (directory : String) : Edge.Sink Machine :=
  (Edge.folderSink directory).within (fun machine => machine.host.files) fun files machine =>
    { machine with host := { machine.host with files := files } }

/-- The sink in memory of a machine, made from one for records. -/
def recordSink (sink : Edge.Sink Edge.Records) : Edge.Sink Machine :=
  sink.within Machine.records fun records machine => { machine with records := records }

/-- The way to the edge that settings ask for. -/
def propagatorOf (transport : Http.Transport Machine) (edge : Settings.Edge) :
    Except Error (Option (Edge.Propagator Machine)) :=
  if !edge.enabled then .ok none
  else
    let timeout := 1000 * edge.timeout
    match edge.url with
    | none => .ok (some ⟨folderSink edge.directory, timeout⟩)
    | some url =>
      match Edge.Remote.ofUrl url edge.token with
      | .ok remote => .ok (some ⟨remote.sink transport, timeout⟩)
      | .error fault => .error (.settings (.invalid (.edgeUrl fault.message)))

/-- A hub over stores. -/
def ofStores (machine : Machine) (stores : Stores) (vault : Vault) (options : Plan.Options)
    (propagator : Option (Edge.Propagator Machine)) : Hub Machine where
  planner := ⟨engines, options⟩
  state := ⟨vault, stores.ledger, machine⟩
  manifests := stores.manifests
  propagator := propagator

/-- Opens a hub from settings. -/
def ofSettings (machine : Machine) (transport : Http.Transport Machine) (settings : Settings) :
    Except Error Session := do
  match settings.vault.masterKey with
  | none => throw (.settings (.invalid .masterKeyMissing))
  | some masterKey =>
    let (kept, machine) ← (openStores machine settings.database.url).mapError .database
    let vault ←
      (Vault.ofKeyBytes kept.stores.secrets (Text.toUtf8 masterKey.expose)).mapError .vault
    let propagator ← propagatorOf transport settings.edge
    let options : Plan.Options :=
      ⟨settings.schema.connectTimeout, settings.schema.databaseUrlKey⟩
    return ⟨ofStores machine kept.stores vault options propagator, kept.place, kept.standing⟩

/-- Opens a hub over stores in memory. -/
def inMemory (machine : Machine) (masterKey : List UInt8)
    (sink : Option (Edge.Sink Machine)) : Except Error Session := do
  let stores := Stores.emptyMemory
  let vault ← (Vault.ofKeyBytes stores.secrets masterKey).mapError .vault
  let timeout := 1000 * (Settings.default "").edge.timeout
  let propagator : Option (Edge.Propagator Machine) := sink.map fun sink => ⟨sink, timeout⟩
  return { hub := ofStores machine stores vault {} propagator }

/-- The machine once the hub of a session is closed. -/
def Session.close (s : Session) : Machine :=
  keepStores s.hub.world s.place s.hub.stores

end Hub

end ProjectHub
