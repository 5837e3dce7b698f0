import ProjectHub.Edge.Propagation
import ProjectHub.ErrorKind
import ProjectHub.Manifest.Store
import ProjectHub.Text.Blank
import ProjectHub.Text.Printable

/-!
# The registry

Manifests are pushed to the registry and found there again. A push is admitted
or refused by looking at the manifest alone; an admitted one is appended to its
project's history and its bundles are then on their way to the edge, which never
changes what the push answers.
-/

namespace ProjectHub

namespace Registry

/-- What the registry can fail with. -/
inductive Error where
  | noProject
  /-- A bundle without a namespace or without a name. -/
  | namelessBundle
  | duplicateBundle (space name : String)
  | notFound (project : String)
  | versionNotFound (project version : String)
  /-- The store failed. -/
  | store (error : Storage.Error)
  deriving DecidableEq

namespace Error

/-- The wording of an error. -/
def message : Error → String
  | noProject => "invalid input: project_id is required"
  | namelessBundle => "invalid input: bundle namespace and name are required"
  | duplicateBundle space name => "invalid input: duplicate bundle " ++ space ++ "/" ++ name
  | notFound project => "no manifest found for project " ++ project
  | versionNotFound project version =>
    "manifest version " ++ version ++ " not found for project " ++ project
  | store error => "manifest store error: " ++ error.message

/-- The kind of an error. -/
def kind : Error → ErrorKind
  | noProject | namelessBundle | duplicateBundle _ _ => .invalidInput
  | notFound _ | versionNotFound _ _ => .notFound
  | store _ => .internal

end Error

/-- Refuses the first bundle that has no name or that an earlier one has the name of. -/
def checkBundles (seen : List (String × String)) : List Bundle → Except Error Unit
  | [] => .ok ()
  | b :: rest =>
    if b.space.isEmpty || b.name.isEmpty then .error .namelessBundle
    else if seen.contains (b.space, b.name) then .error (.duplicateBundle b.space b.name)
    else checkBundles ((b.space, b.name) :: seen) rest

/-- Refuses a blank project, then bad bundles. -/
def checkPush (project : String) (bundles : List Bundle) : Except Error Unit :=
  if Text.isBlankText project then .error .noProject else checkBundles [] bundles

/-- The manifest that a push makes: its version is the time of the push. -/
def manifestOf (id : String) (now : Instant) (project : String) (bundles : List Bundle)
    (createdBy : String) : Manifest :=
  ⟨id, project, now.compact, bundles, now, createdBy⟩

/-- Appends a manifest of new bundles. The caller hands the manifest on to the edge. -/
def push (store : Manifest.Store) (id : String) (now : Instant) (project : String)
    (bundles : List Bundle) (createdBy : String) : Except Error (Manifest.Store × Manifest) := do
  checkPush project bundles
  let manifest := manifestOf id now project bundles createdBy
  let store ← (store.append manifest).mapError .store
  return (store, manifest)

/-- The manifest a project pushed last. -/
def latest (store : Manifest.Store) (project : String) : Except Error Manifest := do
  match ← (store.latest project).mapError .store with
  | some manifest => return manifest
  | none => throw (.notFound project)

/-- The manifest a project pushed last with a version. -/
def byVersion (store : Manifest.Store) (project version : String) : Except Error Manifest := do
  match ← (store.byVersion project version).mapError .store with
  | some manifest => return manifest
  | none => throw (.versionNotFound project version)

/-- What is shown of a registry with a sink of the given name. -/
def shown (sinkName : Option String) : String :=
  let sink := match sinkName with
    | some name => "Some(" ++ Text.quoted name ++ ")"
    | none => "None"
  "RegistryService \x7b edge_sink: " ++ sink ++ ", .. \x7d"

end Registry

end ProjectHub
