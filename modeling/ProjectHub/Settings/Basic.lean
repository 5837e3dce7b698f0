import ProjectHub.Settings.Error
import ProjectHub.Settings.Layer
import ProjectHub.Text.Blank

/-!
# Resolved settings

A layer resolves to settings by taking a default for each field it leaves open.
Resolved settings are then checked; the first rule they break is told.
-/

namespace ProjectHub

/-- The hub's own database. -/
structure Settings.Database where
  url : String := "sqlite:./santokit-hub.db"
  deriving DecidableEq

/-- The vault. -/
structure Settings.VaultKey where
  masterKey : Option Secret := none
  deriving DecidableEq

/-- Planning schemas. -/
structure Settings.Schema where
  /-- Seconds to wait for a project's database. -/
  connectTimeout : Nat := 10
  /-- The secret that holds a project's database URL. -/
  databaseUrlKey : String := "database_url"
  deriving DecidableEq

/-- Where records for the edge go. -/
structure Settings.Edge where
  enabled : Bool := true
  /-- The address of the remote store, if records go to one. -/
  url : Option String := none
  token : Option Secret := none
  /-- The directory for records without a remote store. -/
  directory : String
  /-- Seconds that one put may take. -/
  timeout : Nat := 10
  deriving DecidableEq

/-- The log. -/
structure Settings.Log where
  level : String := "info"
  json : Bool := false
  deriving DecidableEq

/-- The settings of a hub. -/
structure Settings where
  database : Settings.Database
  vault : Settings.VaultKey
  schema : Settings.Schema
  edge : Settings.Edge
  log : Settings.Log
  deriving DecidableEq

namespace Settings

/-- A path one name further down. -/
def joinPath (path name : String) : String :=
  if path.isEmpty || path.toList.getLast? == some '/' then path ++ name
  else path ++ "/" ++ name

/-- The directory for records under a home directory. -/
def defaultDirectory (home : String) : String :=
  joinPath (joinPath (joinPath home ".santokit") "tmp") "kv"

/-- The settings of a layer, with the default of each field that it leaves open. -/
def resolve (home : String) (layer : Layer) : Settings :=
  let database := layer.database.getD {}
  let vault := layer.vault.getD {}
  let schema := layer.schema.getD {}
  let edge := layer.edge.getD {}
  let log := layer.log.getD {}
  { database := { url := database.url.getD ({} : Database).url }
    vault := { masterKey := vault.masterKey }
    schema := {
      connectTimeout := schema.connectTimeout.getD ({} : Schema).connectTimeout
      databaseUrlKey := schema.databaseUrlKey.getD ({} : Schema).databaseUrlKey }
    edge := {
      enabled := edge.enabled.getD true
      url := edge.url
      token := edge.token
      directory := edge.directory.getD (defaultDirectory home)
      timeout := edge.timeout.getD 10 }
    log := {
      level := log.level.getD ({} : Log).level
      json := log.json.getD ({} : Log).json } }

/-- The settings that nobody said anything about. -/
def default (home : String) : Settings :=
  resolve home .empty

/-- Whether a URL is one for HTTP. -/
def isHttp (url : String) : Bool :=
  "http://".toList.isPrefixOf url.toList || "https://".toList.isPrefixOf url.toList

/-- Refuses settings by the first rule they break. -/
def check (s : Settings) : Except Error Unit := do
  if Text.isBlankText s.database.url then throw (.invalid .emptyDatabaseUrl)
  if s.vault.masterKey.isNone then throw (.invalid .noMasterKey)
  if s.schema.connectTimeout = 0 then throw (.invalid .zeroConnectTimeout)
  if s.edge.timeout = 0 then throw (.invalid .zeroEdgeTimeout)
  match s.edge.url with
  | some url => if !isHttp url then throw (.notHttp url)
  | none => pure ()

/-- The settings of a layer, checked. -/
def ofLayer (home : String) (layer : Layer) : Except Error Settings := do
  let settings := resolve home layer
  check settings
  return settings

end Settings

end ProjectHub
