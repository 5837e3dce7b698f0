import ProjectHub.Json.Basic
import ProjectHub.Settings.Basic

/-!
# Settings as JSON

Every setting under the name that it has in a settings file. A layer shows null
for what it leaves open. Secrets are shown, so this is not for logs.
-/

namespace ProjectHub.Settings

/-- An optional secret as JSON. -/
def secretJson : Option Secret → Json :=
  Json.ofOption fun secret => .text secret.expose

/-- The section as JSON. -/
def DatabaseLayer.toJson (l : DatabaseLayer) : Json :=
  .ofMembers [("url", Json.ofOption .text l.url)]

/-- The section as JSON. -/
def VaultLayer.toJson (l : VaultLayer) : Json :=
  .ofMembers [("encryption_key", secretJson l.masterKey)]

/-- The section as JSON. -/
def SchemaLayer.toJson (l : SchemaLayer) : Json :=
  .ofMembers [("connect_timeout_secs", Json.ofOption .ofNat l.connectTimeout),
    ("database_url_key", Json.ofOption .text l.databaseUrlKey)]

/-- The section as JSON. -/
def EdgeLayer.toJson (l : EdgeLayer) : Json :=
  .ofMembers [("enabled", Json.ofOption .bool l.enabled), ("kv_url", Json.ofOption .text l.url),
    ("kv_token", secretJson l.token), ("dir", Json.ofOption .text l.directory),
    ("timeout_secs", Json.ofOption .ofNat l.timeout)]

/-- The section as JSON. -/
def LogLayer.toJson (l : LogLayer) : Json :=
  .ofMembers [("level", Json.ofOption .text l.level), ("json", Json.ofOption .bool l.json)]

/-- A layer as JSON. -/
def Layer.toJson (l : Layer) : Json :=
  .ofMembers [("database", Json.ofOption DatabaseLayer.toJson l.database),
    ("vault", Json.ofOption VaultLayer.toJson l.vault),
    ("schema", Json.ofOption SchemaLayer.toJson l.schema),
    ("edge", Json.ofOption EdgeLayer.toJson l.edge),
    ("logging", Json.ofOption LogLayer.toJson l.log)]

/-- The layer that says everything that settings do. -/
def toLayer (s : Settings) : Layer where
  database := some { url := some s.database.url }
  vault := some { masterKey := s.vault.masterKey }
  schema := some {
    connectTimeout := some s.schema.connectTimeout
    databaseUrlKey := some s.schema.databaseUrlKey }
  edge := some {
    enabled := some s.edge.enabled
    url := s.edge.url
    token := s.edge.token
    directory := some s.edge.directory
    timeout := some s.edge.timeout }
  log := some { level := some s.log.level, json := some s.log.json }

end ProjectHub.Settings
