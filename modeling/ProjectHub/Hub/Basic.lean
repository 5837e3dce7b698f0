import ProjectHub.Api.Request
import ProjectHub.Hub.Error
import ProjectHub.Plan.Planner

/-!
# The hub

The hub brings together the vault, the planner and the registry, each over its
own store, and the way to the edge. Its operations take a request and answer
with a body or an error, and with the hub after the operation. Nonces,
identifiers and the time are given by the caller.
-/

namespace ProjectHub

/-- A hub in a world of live databases and places for records. -/
structure Hub (W : Type) where
  /-- How the planner reaches live databases. -/
  planner : Plan.Planner W
  /-- The vault, the ledger of plans, and the world. -/
  state : Plan.State W
  /-- The manifests. -/
  manifests : Manifest.Store
  /-- The way to the edge, if records are to go there. -/
  propagator : Option (Edge.Propagator W)

namespace Hub

variable {W : Type}

/-- What a hub keeps its data in. -/
structure Stores where
  secrets : Vault.Store
  manifests : Manifest.Store
  ledger : Plan.Ledger

/-- Empty stores in memory. -/
def Stores.emptyMemory : Stores := ⟨.emptyMemory, .emptyMemory, .emptyMemory⟩

/-- Empty stores in a database. -/
def Stores.emptyDatabase : Stores := ⟨.emptyDatabase, .emptyDatabase, .emptyDatabase⟩

/-- The stores of a hub. -/
def stores (h : Hub W) : Stores :=
  ⟨h.state.vault.store, h.manifests, h.state.ledger⟩

/-- The world of a hub. -/
def world (h : Hub W) : W := h.state.world

/-- The hub with another vault. -/
def withVault (h : Hub W) (vault : Vault) : Hub W :=
  { h with state := { h.state with vault := vault } }

/-- The hub in another world. -/
def withWorld (h : Hub W) (world : W) : Hub W :=
  { h with state := { h.state with world := world } }

/-- The name of the sink that records go to. -/
def sinkName (h : Hub W) : Option String :=
  h.propagator.map fun p => p.sink.name

/-! ## Secrets -/

/-- Stores a secret. -/
def setSecret (h : Hub W) (nonce : Vault.Nonce) (now : Instant) (r : Api.SecretRequest) :
    Hub W × Except Error Api.SuccessBody :=
  match h.state.vault.set nonce now r.project r.key r.value.expose with
  | .ok vault => (h.withVault vault, .ok ⟨"secret saved"⟩)
  | .error error => (h, .error (.vault error))

/-- The keys of a project's secrets. -/
def listSecrets (h : Hub W) (query : Api.ProjectQuery) : Except Error (List String) :=
  (h.state.vault.list query.project).mapError .vault

/-- Removes a secret. -/
def deleteSecret (h : Hub W) (key : String) (query : Api.ProjectQuery) :
    Hub W × Except Error Api.SuccessBody :=
  match h.state.vault.delete query.project key with
  | .ok vault => (h.withVault vault, .ok ⟨"secret deleted"⟩)
  | .error error => (h, .error (.vault error))

/-- The value of a secret. -/
def getSecret (h : Hub W) (project key : String) : Except Error Secret :=
  (h.state.vault.get project key).mapError .vault

/-- Puts one record on its way to the edge. Whether it arrives changes no answer. -/
def sendRecord (h : Hub W) (key : String) (value : List UInt8) : Hub W :=
  match h.propagator with
  | some p => h.withWorld (p.putRecord key value h.world).1
  | none => h

/-- Seals a secret anew under the key of an edge, and puts it on its way there. -/
def provisionSecret (h : Hub W) (nonce : Vault.Nonce) (project key : String)
    (edgeKey : List UInt8) : Hub W × Except Error String :=
  match h.state.vault.reencrypt nonce project key edgeKey with
  | .ok sealed => (h.sendRecord (Edge.secretKey project key) (Text.toUtf8 sealed), .ok sealed)
  | .error error => (h, .error (.vault error))

/-! ## Schemas -/

/-- Refuses a request without documents, then the first document with a blank alias or a
blank text. -/
def checkSchemas (documents : Documents) : Except Error Unit := do
  if documents.isEmpty then throw .noSchemas
  documents.toList.forM fun (name, text) => do
    if Text.isBlankText name then throw .blankAlias
    (Plan.checkDocument text).mapError .plan

/-- Plans documents. -/
def planSchema (h : Hub W) (now : Instant) (r : Api.PlanRequest) :
    Hub W × Except Error Proposal :=
  match checkSchemas r.schemas with
  | .error error => (h, .error error)
  | .ok () =>
    let (state, result) := h.planner.plan h.state now r.project r.schemas
    ({ h with state := state }, result.mapError .plan)

/-- Applies the plan of a token. -/
def applySchema (h : Hub W) (r : Api.ApplyRequest) : Hub W × Except Error Api.SuccessBody :=
  let (state, result) := h.planner.apply h.state r.project r.migrations r.token
  ({ h with state := state }, (result.mapError .plan).map fun _ => ⟨"schema applied"⟩)

/-- The document last applied under an alias. -/
def currentState (h : Hub W) (project name : String) : Except Error String :=
  (h.state.currentState project name).mapError .plan

/-! ## Manifests -/

/-- Who pushes when a request does not say. -/
def defaultAuthor : String := "local"

/-- Pushes a manifest, and puts its records on their way to the edge. -/
def pushManifest (h : Hub W) (id : String) (now : Instant) (r : Api.PushRequest) :
    Hub W × Except Error Manifest :=
  match Registry.push h.manifests id now r.project r.bundles (r.createdBy.getD defaultAuthor) with
  | .error error => (h, .error (.registry error))
  | .ok (manifests, manifest) =>
    let next := { h with manifests := manifests }
    (match h.propagator with
      | some p => next.withWorld (p.propagate manifest h.world).1
      | none => next, .ok manifest)

/-- The manifest of a version, or the last. -/
def getManifest (h : Hub W) (query : Api.ManifestQuery) : Except Error Manifest :=
  match query.version with
  | some version => (Registry.byVersion h.manifests query.project version).mapError .registry
  | none => (Registry.latest h.manifests query.project).mapError .registry

/-- The versions of a project's manifests, oldest first. -/
def listVersions (h : Hub W) (project : String) : Api.VersionsBody :=
  ⟨project, h.manifests.versions project⟩

end Hub

end ProjectHub
