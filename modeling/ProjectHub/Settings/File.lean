import ProjectHub.Settings.Error
import ProjectHub.Settings.Layer
import ProjectHub.Toml.Basic
import ProjectHub.Toml.Document

/-!
# Settings from a file

A settings file is a TOML document with a table for each section. A file that
does not exist says nothing; one that cannot be read, or is no such document, is
an error.
-/

namespace ProjectHub.Settings

open Toml (fieldsOf optional)

/-- The section from TOML. -/
def DatabaseLayer.ofToml : Toml.Decoder DatabaseLayer := fun value => do
  match ← fieldsOf ["url"] value with
  | [url] => return ⟨← optional .text url⟩
  | _ => none

/-- The section from TOML. -/
def VaultLayer.ofToml : Toml.Decoder VaultLayer := fun value => do
  match ← fieldsOf ["encryption_key"] value with
  | [masterKey] => return ⟨(← optional .text masterKey).map Secret.mk⟩
  | _ => none

/-- The section from TOML. -/
def SchemaLayer.ofToml : Toml.Decoder SchemaLayer := fun value => do
  match ← fieldsOf ["connect_timeout_secs", "database_url_key"] value with
  | [connectTimeout, databaseUrlKey] =>
    return ⟨← optional .natural connectTimeout, ← optional .text databaseUrlKey⟩
  | _ => none

/-- The section from TOML. -/
def EdgeLayer.ofToml : Toml.Decoder EdgeLayer := fun value => do
  match ← fieldsOf ["enabled", "kv_url", "kv_token", "dir", "timeout_secs"] value with
  | [enabled, url, token, directory, timeout] =>
    return {
      enabled := ← optional .bool enabled
      url := ← optional .text url
      token := (← optional .text token).map Secret.mk
      directory := ← optional .text directory
      timeout := ← optional .natural timeout }
  | _ => none

/-- The section from TOML. -/
def LogLayer.ofToml : Toml.Decoder LogLayer := fun value => do
  match ← fieldsOf ["level", "json"] value with
  | [level, json] => return ⟨← optional .text level, ← optional .bool json⟩
  | _ => none

/-- The layer from TOML. -/
def Layer.ofToml : Toml.Decoder Layer := fun value => do
  match ← fieldsOf ["database", "vault", "schema", "edge", "logging"] value with
  | [database, vault, schema, edge, log] =>
    return {
      database := ← optional DatabaseLayer.ofToml database
      vault := ← optional VaultLayer.ofToml vault
      schema := ← optional SchemaLayer.ofToml schema
      edge := ← optional EdgeLayer.ofToml edge
      log := ← optional LogLayer.ofToml log }
  | _ => none

/-- What a file says about the settings. -/
def Layer.ofFile (files : FileSystem) (path : String) : Except Error Layer := do
  if (files.node path).toBool then
    let text ← (files.readText path).mapError (.unreadable path)
    match (Toml.parse? text).bind Layer.ofToml with
    | some layer => return layer
    | none => throw (.malformed path)
  else return .empty

end ProjectHub.Settings
