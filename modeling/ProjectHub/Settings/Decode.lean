import ProjectHub.Json.Decode
import ProjectHub.Settings.Layer

/-!
# Layers from JSON

A layer as a JSON object with a member for each section, of which any may be
null or left out, and so may the fields within one.
-/

namespace ProjectHub.Settings

/-- A field that may be null or left out. -/
def openField {α : Type} (decode : Json.Decoder α) (depth : Nat) (field : Option Json.Source) :
    Option (Option α) :=
  Json.withDefault (.optional decode) none depth field

/-- A secret from JSON. -/
def secretDecoder : Json.Decoder Secret :=
  Json.Decoder.text.andThen fun text => some ⟨text⟩

/-- The section from JSON. -/
def DatabaseLayer.decoder : Json.Decoder DatabaseLayer := fun depth source => do
  let (depth, fields) ← Json.fieldsOf ["url"] depth source
  match fields with
  | [url] => return ⟨← openField .text depth url⟩
  | _ => none

/-- The section from JSON. -/
def VaultLayer.decoder : Json.Decoder VaultLayer := fun depth source => do
  let (depth, fields) ← Json.fieldsOf ["encryption_key"] depth source
  match fields with
  | [masterKey] => return ⟨← openField secretDecoder depth masterKey⟩
  | _ => none

/-- The section from JSON. -/
def SchemaLayer.decoder : Json.Decoder SchemaLayer := fun depth source => do
  let (depth, fields) ← Json.fieldsOf ["connect_timeout_secs", "database_url_key"] depth source
  match fields with
  | [connectTimeout, databaseUrlKey] =>
    return ⟨← openField .word depth connectTimeout, ← openField .text depth databaseUrlKey⟩
  | _ => none

/-- The section from JSON. -/
def EdgeLayer.decoder : Json.Decoder EdgeLayer := fun depth source => do
  let (depth, fields) ←
    Json.fieldsOf ["enabled", "kv_url", "kv_token", "dir", "timeout_secs"] depth source
  match fields with
  | [enabled, url, token, directory, timeout] =>
    return {
      enabled := ← openField .bool depth enabled
      url := ← openField .text depth url
      token := ← openField secretDecoder depth token
      directory := ← openField .text depth directory
      timeout := ← openField .word depth timeout }
  | _ => none

/-- The section from JSON. -/
def LogLayer.decoder : Json.Decoder LogLayer := fun depth source => do
  let (depth, fields) ← Json.fieldsOf ["level", "json"] depth source
  match fields with
  | [level, json] => return ⟨← openField .text depth level, ← openField .bool depth json⟩
  | _ => none

/-- The layer from JSON. -/
def Layer.decoder : Json.Decoder Layer := fun depth source => do
  let (depth, fields) ←
    Json.fieldsOf ["database", "vault", "schema", "edge", "logging"] depth source
  match fields with
  | [database, vault, schema, edge, log] =>
    return {
      database := ← openField DatabaseLayer.decoder depth database
      vault := ← openField VaultLayer.decoder depth vault
      schema := ← openField SchemaLayer.decoder depth schema
      edge := ← openField EdgeLayer.decoder depth edge
      log := ← openField LogLayer.decoder depth log }
  | _ => none

end ProjectHub.Settings
