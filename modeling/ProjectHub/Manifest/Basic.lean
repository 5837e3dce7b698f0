import ProjectHub.Encoding.Base64
import ProjectHub.Json.Decode
import ProjectHub.Json.Printer
import ProjectHub.Time.Lenient

/-!
# Manifests

A manifest is what a project deployed at one time: a version and the bundles,
with who pushed them and when.
-/

namespace ProjectHub

/-!
## Bundles

A bundle is one deployable unit of a project: its content, as bytes, and an
optional configuration. A manifest holds at most one bundle of a namespace and
name. In JSON the content is Base64 text.
-/

/-- What a bundle deploys. -/
inductive BundleKind where
  | logic
  | schema
  deriving DecidableEq, Inhabited

namespace BundleKind

/-- The word for a kind. -/
def word : BundleKind → String
  | logic => "logic"
  | schema => "schema"

/-- The kind of a word. -/
def ofWord? : String → Option BundleKind
  | "logic" => some logic
  | "schema" => some schema
  | _ => none

end BundleKind

/-- A deployable unit. -/
structure Bundle where
  kind : BundleKind
  /-- The namespace of the bundle. -/
  space : String
  name : String
  hash : String
  content : List UInt8
  /-- The members of the configuration, in the order of their names. -/
  config : Option (List (String × Json))
  deriving Inhabited

namespace Bundle

/-- The JSON text of a bundle. A missing configuration is left out. -/
def render (b : Bundle) : String :=
  Json.renderRecord ([("type", Json.renderText b.kind.word),
    ("namespace", Json.renderText b.space), ("name", Json.renderText b.name),
    ("hash", Json.renderText b.hash),
    ("content", Json.renderText (Base64.encodeText b.content))] ++
    match b.config with
    | some config => [("config", (Json.object config).render)]
    | none => [])

/-- The content that a Base64 text gives. -/
def contentOfText? (text : String) : Option (List UInt8) :=
  (Base64.decodeText text).toOption

/-- A bundle from JSON. -/
def decoder : Json.Decoder Bundle := fun depth source => do
  let (depth, fields) ←
    Json.fieldsOf ["type", "namespace", "name", "hash", "content", "config"] depth source
  match fields with
  | [kind, space, name, hash, content, config] =>
    return {
      kind := ← Json.required (.word? BundleKind.ofWord?) depth kind
      space := ← Json.required .text depth space
      name := ← Json.required .text depth name
      hash := ← Json.required .text depth hash
      content := ← Json.required (Json.Decoder.text.andThen contentOfText?) depth content
      config := ← Json.withDefault (.optional .members) none depth config }
  | _ => none

/-- The JSON text of a list of bundles. -/
def renderList (bundles : List Bundle) : String :=
  "[" ++ ",".intercalate (bundles.map render) ++ "]"

end Bundle

/-! ## Manifests -/

/-- A pushed set of bundles. -/
structure Manifest where
  id : String
  project : String
  version : String
  bundles : List Bundle
  createdAt : Instant
  createdBy : String
  deriving Inhabited

namespace Manifest

/-- The JSON text of a manifest. -/
def render (m : Manifest) : String :=
  Json.renderRecord [("id", Json.renderText m.id), ("project_id", Json.renderText m.project),
    ("version", Json.renderText m.version), ("bundles", Bundle.renderList m.bundles),
    ("created_at", Json.renderText m.createdAt.toZulu),
    ("created_by", Json.renderText m.createdBy)]

/-- An instant from the JSON text of a timestamp. -/
def instantDecoder : Json.Decoder Instant :=
  Json.Decoder.text.andThen Instant.parseLenient?

/-- A manifest from JSON. -/
def decoder : Json.Decoder Manifest := fun depth source => do
  let (depth, fields) ←
    Json.fieldsOf ["id", "project_id", "version", "bundles", "created_at", "created_by"] depth
      source
  match fields with
  | [id, project, version, bundles, createdAt, createdBy] =>
    return {
      id := ← Json.required .text depth id
      project := ← Json.required .text depth project
      version := ← Json.required .text depth version
      bundles := ← Json.required (.list Bundle.decoder) depth bundles
      createdAt := ← Json.required instantDecoder depth createdAt
      createdBy := ← Json.required .text depth createdBy }
  | _ => none

end Manifest

end ProjectHub
