import ProjectHub.Manifest.Basic
import ProjectHub.NameMap.Basic
import ProjectHub.Storage.Error

/-!
# Stores of manifests

A store keeps the manifests of each project in the order they were appended.
One kind keeps the manifests, the other keeps rows of text as a database does:
their bundles and times are read only when the manifest is, and a manifest's
identifier may be stored only once.
-/

namespace ProjectHub.Manifest

/-- A manifest as a database keeps it. -/
structure Row where
  id : String
  project : String
  version : String
  /-- The bundles as JSON. -/
  bundles : String
  /-- When the manifest was pushed, as a timestamp. -/
  createdAt : String
  createdBy : String
  deriving DecidableEq

/-- A store of manifests, oldest first. -/
inductive Store where
  /-- Manifests by project. -/
  | memory (histories : NameMap (List Manifest))
  /-- Rows of all projects. -/
  | database (rows : List Row)

namespace Row

/-- The row of a manifest. -/
def ofManifest (m : Manifest) : Row :=
  ⟨m.id, m.project, m.version, Bundle.renderList m.bundles, m.createdAt.toRfc3339, m.createdBy⟩

/-- The manifest of a row: the bundles are read first, then the time. -/
def read (row : Row) : Except Storage.Error Manifest :=
  match Json.decode? (.list Bundle.decoder) row.bundles with
  | none => .error .malformedJson
  | some bundles => do
    let createdAt ← Storage.readTimestamp "created_at" row.createdAt
    return ⟨row.id, row.project, row.version, bundles, createdAt, row.createdBy⟩

end Row

namespace Store

/-- The memory store without manifests. -/
def emptyMemory : Store := .memory .empty

/-- The database store without rows. -/
def emptyDatabase : Store := .database []

/-- The manifests of a project in a memory store. -/
def history (histories : NameMap (List Manifest)) (project : String) : List Manifest :=
  (histories.get? project).getD []

/-- The store with a manifest appended. -/
def append (m : Manifest) : Store → Except Storage.Error Store
  | memory histories =>
    .ok (memory (histories.insert m.project (history histories m.project ++ [m])))
  | database rows =>
    if rows.any fun row => row.id = m.id then .error (.duplicateManifest m.id)
    else .ok (database (rows ++ [Row.ofManifest m]))

/-- The last of a project's manifests in a store of rows that passes a test. -/
def lastRow (project : String) (p : Row → Bool) (rows : List Row) :
    Except Storage.Error (Option Manifest) :=
  match rows.reverse.find? fun row => row.project = project && p row with
  | some row => row.read.map some
  | none => .ok none

/-- The manifest of a project that was appended last. -/
def latest (project : String) : Store → Except Storage.Error (Option Manifest)
  | memory histories => .ok (history histories project).getLast?
  | database rows => lastRow project (fun _ => true) rows

/-- The manifest of a project that was appended last with a version. -/
def byVersion (project version : String) : Store → Except Storage.Error (Option Manifest)
  | memory histories =>
    .ok ((history histories project).reverse.find? fun m => m.version = version)
  | database rows => lastRow project (fun row => row.version = version) rows

/-- The versions of a project in the order they were appended. -/
def versions (project : String) : Store → List String
  | memory histories => (history histories project).map Manifest.version
  | database rows => (rows.filter fun row => row.project = project).map Row.version

/-- The store of rows with a row at its end, in place of any of the same identifier. -/
def putRow (row : Row) : Store → Store
  | memory histories => memory histories
  | database rows => database ((rows.filter fun other => other.id ≠ row.id) ++ [row])

end Store

end ProjectHub.Manifest
