import ProjectHub.Crypto.Sha256
import ProjectHub.Json.Decode
import ProjectHub.Json.Printer
import ProjectHub.Text.Hex
import ProjectHub.Text.Utf8
import ProjectHub.Time.Instant

/-!
# Migrations

What a plan proposes: one migration for each step, with the SQL to review. The
identifier of a migration depends only on the project and the text it was made
from, so the same wish has the same identifier in every plan.
-/

namespace ProjectHub

/-- A proposed step. -/
structure Migration where
  id : String
  project : String
  version : String
  sql : String
  description : String
  applied : Bool
  deriving DecidableEq, Inhabited

namespace Migration

/-- The first twelve hexadecimal digits of the hash of a text. -/
def shortHash (text : String) : String :=
  Text.hexOfBytes ((Sha256.digest (Text.toUtf8 text)).take 6)

/-- The migration for a wished text. -/
def propose (now : Instant) (project wished sql description : String) : Migration where
  id := project ++ "-" ++ shortHash wished
  project := project
  version := now.compact
  sql := sql
  description := description
  applied := false

/-- The JSON text of a migration. -/
def render (m : Migration) : String :=
  Json.renderRecord [("id", Json.renderText m.id), ("project_id", Json.renderText m.project),
    ("version", Json.renderText m.version), ("sql", Json.renderText m.sql),
    ("description", Json.renderText m.description), ("applied", Json.render (.bool m.applied))]

/-- A migration from JSON. -/
def decoder : Json.Decoder Migration := fun depth source => do
  let (depth, fields) ←
    Json.fieldsOf ["id", "project_id", "version", "sql", "description", "applied"] depth source
  match fields with
  | [id, project, version, sql, description, applied] =>
    return {
      id := ← Json.required .text depth id
      project := ← Json.required .text depth project
      version := ← Json.required .text depth version
      sql := ← Json.required .text depth sql
      description := ← Json.required .text depth description
      applied := ← Json.withDefault .bool false depth applied }
  | _ => none

end Migration

/-- What a plan answers. -/
structure Proposal where
  migrations : List Migration
  hasChanges : Bool
  summary : String
  /-- The token that applies this plan. -/
  token : Nat
  deriving DecidableEq

namespace Proposal

/-- The JSON text of a proposal. -/
def render (p : Proposal) : String :=
  Json.renderRecord [
    ("migrations", "[" ++ ",".intercalate (p.migrations.map Migration.render) ++ "]"),
    ("has_changes", Json.render (.bool p.hasChanges)), ("summary", Json.renderText p.summary),
    ("plan_token", toString p.token)]

/-- A proposal from JSON. -/
def decoder : Json.Decoder Proposal := fun depth source => do
  let (depth, fields) ←
    Json.fieldsOf ["migrations", "has_changes", "summary", "plan_token"] depth source
  match fields with
  | [migrations, hasChanges, summary, token] =>
    return {
      migrations := ← Json.required (.list Migration.decoder) depth migrations
      hasChanges := ← Json.required .bool depth hasChanges
      summary := ← Json.required .text depth summary
      token := ← Json.required .word depth token }
  | _ => none

end Proposal

end ProjectHub
