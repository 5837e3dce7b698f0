import ProjectHub.Manifest.Basic
import ProjectHub.Plan.Documents
import ProjectHub.Plan.Migration
import ProjectHub.Secret
import ProjectHub.Text.Printable

/-!
# Requests of the interface

The bodies of requests, how they are read from JSON, and their JSON text.
-/

namespace ProjectHub.Api

/-- The members of an optional text, left out where there is none. -/
def optionalMember (name : String) : Option String → List (String × String)
  | some text => [(name, Json.renderText text)]
  | none => []

/-- Asks to plan documents. -/
structure PlanRequest where
  project : String
  schemas : Documents

namespace PlanRequest

/-- The JSON text of the request. -/
def render (r : PlanRequest) : String :=
  Json.renderRecord [("project_id", Json.renderText r.project),
    ("schemas", r.schemas.toJson.render)]

/-- The request from JSON. -/
def decoder : Json.Decoder PlanRequest := fun depth source => do
  let (depth, fields) ← Json.fieldsOf ["project_id", "schemas"] depth source
  match fields with
  | [project, schemas] =>
    return ⟨← Json.required .text depth project, ← Json.required Documents.decoder depth schemas⟩
  | _ => none

end PlanRequest

/-- Asks to apply a plan. -/
structure ApplyRequest where
  project : String
  /-- Kept for the record; what is applied comes from the plan. -/
  migrations : List Migration
  token : Option Nat

namespace ApplyRequest

/-- The JSON text of the request. -/
def render (r : ApplyRequest) : String :=
  Json.renderRecord ([("project_id", Json.renderText r.project),
    ("migrations", "[" ++ ",".intercalate (r.migrations.map Migration.render) ++ "]")] ++
    match r.token with
    | some token => [("plan_token", toString token)]
    | none => [])

/-- The request from JSON. -/
def decoder : Json.Decoder ApplyRequest := fun depth source => do
  let (depth, fields) ← Json.fieldsOf ["project_id", "migrations", "plan_token"] depth source
  match fields with
  | [project, migrations, token] =>
    return {
      project := ← Json.required .text depth project
      migrations := ← Json.withDefault (.list Migration.decoder) [] depth migrations
      token := ← Json.withDefault (.optional .word) none depth token }
  | _ => none

end ApplyRequest

/-- Asks to push bundles. -/
structure PushRequest where
  project : String
  bundles : List Bundle
  createdBy : Option String

namespace PushRequest

/-- The JSON text of the request. -/
def render (r : PushRequest) : String :=
  Json.renderRecord ([("project_id", Json.renderText r.project),
    ("bundles", Bundle.renderList r.bundles)] ++ optionalMember "created_by" r.createdBy)

/-- The request from JSON. -/
def decoder : Json.Decoder PushRequest := fun depth source => do
  let (depth, fields) ← Json.fieldsOf ["project_id", "bundles", "created_by"] depth source
  match fields with
  | [project, bundles, createdBy] =>
    return {
      project := ← Json.required .text depth project
      bundles := ← Json.required (.list Bundle.decoder) depth bundles
      createdBy := ← Json.withDefault (.optional .text) none depth createdBy }
  | _ => none

end PushRequest

/-- Asks for a manifest: the latest, or the one of a version. -/
structure ManifestQuery where
  project : String
  version : Option String

namespace ManifestQuery

/-- The JSON text of the request. -/
def render (r : ManifestQuery) : String :=
  Json.renderRecord ([("project_id", Json.renderText r.project)] ++
    optionalMember "version" r.version)

/-- The request from JSON. -/
def decoder : Json.Decoder ManifestQuery := fun depth source => do
  let (depth, fields) ← Json.fieldsOf ["project_id", "version"] depth source
  match fields with
  | [project, version] =>
    return ⟨← Json.required .text depth project,
      ← Json.withDefault (.optional .text) none depth version⟩
  | _ => none

end ManifestQuery

/-- The versions of a project. -/
structure VersionsBody where
  project : String
  versions : List String

namespace VersionsBody

/-- The JSON text of the answer. -/
def render (b : VersionsBody) : String :=
  Json.renderRecord [("project_id", Json.renderText b.project),
    ("versions", (Json.ofTexts b.versions).render)]

/-- The answer from JSON. -/
def decoder : Json.Decoder VersionsBody := fun depth source => do
  let (depth, fields) ← Json.fieldsOf ["project_id", "versions"] depth source
  match fields with
  | [project, versions] =>
    return ⟨← Json.required .text depth project, ← Json.required (.list .text) depth versions⟩
  | _ => none

end VersionsBody

/-- Names a project and nothing else. -/
structure ProjectQuery where
  project : String

namespace ProjectQuery

/-- The JSON text of the request. -/
def render (r : ProjectQuery) : String :=
  Json.renderRecord [("project_id", Json.renderText r.project)]

/-- The request from JSON. -/
def decoder : Json.Decoder ProjectQuery := fun depth source => do
  let (depth, fields) ← Json.fieldsOf ["project_id"] depth source
  match fields with
  | [project] => return ⟨← Json.required .text depth project⟩
  | _ => none

end ProjectQuery

/-- Asks to store a secret. The value is not shown with the request. -/
structure SecretRequest where
  project : String
  key : String
  value : Secret

namespace SecretRequest

/-- What is shown of the request. -/
def shown (r : SecretRequest) : String :=
  "SetSecretRequest \x7b project_id: " ++ Text.quoted r.project ++ ", key: " ++
    Text.quoted r.key ++ ", value: " ++ r.value.shown ++ " \x7d"

/-- The request from JSON. -/
def decoder : Json.Decoder SecretRequest := fun depth source => do
  let (depth, fields) ← Json.fieldsOf ["project_id", "key", "value"] depth source
  match fields with
  | [project, key, value] =>
    return ⟨← Json.required .text depth project, ← Json.required .text depth key,
      ⟨← Json.required .text depth value⟩⟩
  | _ => none

end SecretRequest

end ProjectHub.Api
