import ProjectHub.Document.Schema
import ProjectHub.Plan.Engine
import ProjectHub.Plan.Ledger
import ProjectHub.Plan.Migration
import ProjectHub.Vault.Basic

/-!
# Planning and applying

A plan compares the documents given with what a project has, proposes
migrations, and puts the documents on record under a new token. Applying needs
that token, and works from the documents on record only.

What a project has is its live database, where its vault holds a URL that an
engine can connect to; otherwise the documents last applied, compared as text.
-/

namespace ProjectHub.Plan

/-- How to reach the databases of projects. -/
structure Options where
  /-- The seconds to wait for a connection. -/
  connectTimeout : Nat := 10
  /-- The secret that holds a project's database URL. -/
  databaseUrlKey : String := "database_url"

/-- The engines of a planner, in the order they are asked, and its options. -/
structure Planner (W : Type) where
  engines : List (Engine W)
  options : Options := {}

/-- What planning reads and changes: the vault, the ledger, and the world of live
databases. -/
structure State (W : Type) where
  vault : Vault
  ledger : Ledger
  world : W

/-- How one plan or apply compares. -/
inductive Strategy (W : Type) where
  /-- Against the schema of a live database. -/
  | native (client : Client W)
  /-- Against the text of the documents last applied. -/
  | contentHash

namespace Strategy

variable {W : Type}

/-- The name of a strategy. -/
def name : Strategy W → String
  | native _ => "native"
  | contentHash => "content_hash"

/-- What is shown of a strategy. -/
def shown : Strategy W → String
  | native _ => "Native(" ++ Text.quoted "sqlite" ++ ")"
  | contentHash => "ContentHash"

end Strategy

/-- Refuses a blank project. -/
def checkProject (project : String) : Except Error Unit :=
  if Text.isBlankText project then .error .noProject else .ok ()

/-- Refuses a blank project, then an empty set of documents. -/
def checkPlanInput (project : String) (documents : Documents) : Except Error Unit := do
  checkProject project
  if documents.isEmpty then throw .noDocuments

/-- Refuses a blank document. -/
def checkDocument (document : String) : Except Error Unit :=
  if Text.isBlankText document then .error .emptyDocument else .ok ()

/-- The realm that a text describes. -/
def readRealm (document : String) : Except Error Realm :=
  (Realm.parse document).mapError .parse

/-- Refuses a blank document, then one that describes no realm. -/
def checkRealm (document : String) : Except Error Unit := do
  checkDocument document
  let _ ← readRealm document

/-- The changes that take a live schema to what documents describe. -/
def liveChanges {W : Type} (client : Client W) (documents : Documents) (world : W) :
    Except Error (List SchemaChange) := do
  let desired ← readRealm documents.combine
  let current ← client.inspect world
  return current.diff desired

/-- The migrations against a live schema: none, or one with all statements. -/
def nativeMigrations {W : Type} (client : Client W) (now : Instant) (project : String)
    (documents : Documents) (world : W) : Except Error (List Migration) := do
  let changes ← liveChanges client documents world
  if changes.isEmpty then return []
  else
    let sql := ";\n".intercalate ((Sql.Statement.ofChanges changes).map Sql.Statement.text)
    return [.propose now project documents.combine sql "Schema update (Native)"]

/-- The documents whose text differs from that of the current ones, blanks at the ends
aside. -/
def changedDocuments (current documents : Documents) : List (String × String) :=
  documents.toList.filter fun (name, text) =>
    Text.trim ((current.get? name).getD "") != Text.trim text

/-- The migrations against applied documents: one for each that changed, in the order of
their aliases. -/
def contentMigrations (now : Instant) (project : String) (current documents : Documents) :
    List Migration :=
  (changedDocuments current documents).map fun (name, text) =>
    .propose now project text ("-- Mock migration for " ++ name)
      ("schema update for " ++ name ++ " (mock)")

/-- The summary of migrations against a live schema. -/
def nativeSummary (migrations : List Migration) : String :=
  toString migrations.length ++ " changes proposed"

/-- The summary of migrations against applied documents. -/
def contentSummary (migrations : List Migration) : String :=
  if migrations.isEmpty then "Local mode: no changes detected"
  else "Local mode: " ++ toString migrations.length ++ " schema changes detected"

namespace Planner

variable {W : Type}

/-- Connects to the database of a URL within the time allowed. -/
def connect (p : Planner W) (engine : Engine W) (url : String) (world : W) :
    Except Error (Client W × W) :=
  match engine.connect url world with
  | .ready client world => .ok (client, world)
  | .failed error => .error error
  | .never => .error (.connectTimeout p.options.connectTimeout)

/-- The strategy for a project. Without a database that can be reached, it is the content of
documents; any other failure is an error. -/
def resolve (p : Planner W) (st : State W) (project : String) : Except Error (Strategy W × W) :=
  match st.vault.get project p.options.databaseUrlKey with
  | .error error =>
    if error.isNotFound then .ok (.contentHash, st.world) else .error (.vault error)
  | .ok secret =>
    let url := Text.trim secret.expose
    if url.isEmpty then .ok (.contentHash, st.world)
    else
      match p.engines.find? fun engine => engine.supports url with
      | none => .ok (.contentHash, st.world)
      | some engine =>
        match p.connect engine url st.world with
        | .ok (client, world) => .ok (.native client, world)
        | .error error =>
          if error.isUnreachable then .ok (.contentHash, st.world) else .error error

end Planner

namespace State

variable {W : Type}

/-- The migrations and the summary that documents give under a strategy. -/
def migrationsFor (st : State W) (strategy : Strategy W) (now : Instant) (project : String)
    (documents : Documents) : Except Error (List Migration × String) :=
  match strategy with
  | .native client => do
    let migrations ← nativeMigrations client now project documents st.world
    return (migrations, nativeSummary migrations)
  | .contentHash => do
    let current ← (st.ledger.getState project).mapError .store
    let migrations := contentMigrations now project (current.getD .empty) documents
    return (migrations, contentSummary migrations)

/-- Plans documents under a strategy. -/
def planWith (st : State W) (strategy : Strategy W) (now : Instant) (project : String)
    (documents : Documents) : State W × Except Error Proposal :=
  match checkPlanInput project documents with
  | .error error => (st, .error error)
  | .ok () =>
    match st.migrationsFor strategy now project documents with
    | .error error => (st, .error error)
    | .ok (migrations, summary) =>
      let (ledger, token) := st.ledger.savePlan project documents now
      ({ st with ledger := ledger },
        match token with
        | .error error => .error (.store error)
        | .ok token => .ok ⟨migrations, !migrations.isEmpty, summary, token⟩)

/-- Carries out planned documents under a strategy. -/
def carryOut (st : State W) (strategy : Strategy W) (project : String) (documents : Documents) :
    Except Error (State W) :=
  match strategy with
  | .native client => do
    let changes ← liveChanges client documents st.world
    if changes.isEmpty then return st
    else
      let world ← client.execute (Sql.Statement.ofChanges changes) st.world
      return { st with world := world }
  | .contentHash => .ok { st with ledger := st.ledger.saveState project documents }

/-- Applies the plan of a token under a strategy. The migrations given are not looked at,
but without a plan on record only an apply of nothing succeeds. -/
def applyWith (st : State W) (strategy : Strategy W) (project : String)
    (migrations : List Migration) (token : Option Nat) : State W × Except Error Unit :=
  match checkProject project with
  | .error error => (st, .error error)
  | .ok () =>
    match st.ledger.getPlan project with
    | .error error => (st, .error (.store error))
    | .ok none =>
      if token.isNone && migrations.isEmpty then (st, .ok ())
      else (st, .error (.nothingPlanned project))
    | .ok (some plan) =>
      if token ≠ some plan.generation then
        (st, .error (.stalePlan project plan.generation token))
      else
        match st.carryOut strategy project plan.documents with
        | .error error => (st, .error error)
        | .ok next =>
          match next.ledger.clearPlan project plan.generation with
          | .error error => (next, .error (.store error))
          | .ok (ledger, _) => ({ next with ledger := ledger }, .ok ())

/-- The document last applied under an alias. -/
def currentState (st : State W) (project name : String) : Except Error String := do
  let documents ← (st.ledger.getState project).mapError .store
  match documents.bind fun all => all.get? name with
  | some text => return text
  | none => throw (.stateNotFound project name)

end State

namespace Planner

variable {W : Type}

/-- Plans documents under the strategy of the project. -/
def plan (p : Planner W) (st : State W) (now : Instant) (project : String)
    (documents : Documents) : State W × Except Error Proposal :=
  match checkPlanInput project documents with
  | .error error => (st, .error error)
  | .ok () =>
    match p.resolve st project with
    | .error error => (st, .error error)
    | .ok (strategy, world) => { st with world := world }.planWith strategy now project documents

/-- Applies the plan of a token under the strategy of the project. -/
def apply (p : Planner W) (st : State W) (project : String) (migrations : List Migration)
    (token : Option Nat) : State W × Except Error Unit :=
  match checkProject project with
  | .error error => (st, .error error)
  | .ok () =>
    match p.resolve st project with
    | .error error => (st, .error error)
    | .ok (strategy, world) =>
      { st with world := world }.applyWith strategy project migrations token

end Planner

end ProjectHub.Plan
