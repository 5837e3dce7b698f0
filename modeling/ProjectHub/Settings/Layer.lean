import ProjectHub.Secret

/-!
# Layers of settings

A layer is what one source says about the settings: in each section any of its
fields, or nothing of the section at all. Layers are merged field by field, and
a field of the upper layer counts where it is given.
-/

namespace ProjectHub.Settings

/-- What a layer says about the hub's own database. -/
structure DatabaseLayer where
  url : Option String := none
  deriving DecidableEq, Inhabited

/-- What a layer says about the vault. -/
structure VaultLayer where
  masterKey : Option Secret := none
  deriving DecidableEq, Inhabited

/-- What a layer says about planning schemas. -/
structure SchemaLayer where
  /-- Seconds to wait for a project's database. -/
  connectTimeout : Option Nat := none
  /-- The secret that holds a project's database URL. -/
  databaseUrlKey : Option String := none
  deriving DecidableEq, Inhabited

/-- What a layer says about the edge. -/
structure EdgeLayer where
  enabled : Option Bool := none
  /-- The address of the remote store of records. -/
  url : Option String := none
  token : Option Secret := none
  /-- Where records go without a remote store. -/
  directory : Option String := none
  /-- Seconds that one put may take. -/
  timeout : Option Nat := none
  deriving DecidableEq, Inhabited

/-- What a layer says about the log. -/
structure LogLayer where
  level : Option String := none
  json : Option Bool := none
  deriving DecidableEq, Inhabited

/-- What one source says about the settings. -/
structure Layer where
  database : Option DatabaseLayer := none
  vault : Option VaultLayer := none
  schema : Option SchemaLayer := none
  edge : Option EdgeLayer := none
  log : Option LogLayer := none
  deriving DecidableEq, Inhabited

/-- The section `upper` over the section `lower`. -/
def DatabaseLayer.merge (lower upper : DatabaseLayer) : DatabaseLayer where
  url := upper.url.or lower.url

/-- The section `upper` over the section `lower`. -/
def VaultLayer.merge (lower upper : VaultLayer) : VaultLayer where
  masterKey := upper.masterKey.or lower.masterKey

/-- The section `upper` over the section `lower`. -/
def SchemaLayer.merge (lower upper : SchemaLayer) : SchemaLayer where
  connectTimeout := upper.connectTimeout.or lower.connectTimeout
  databaseUrlKey := upper.databaseUrlKey.or lower.databaseUrlKey

/-- The section `upper` over the section `lower`. -/
def EdgeLayer.merge (lower upper : EdgeLayer) : EdgeLayer where
  enabled := upper.enabled.or lower.enabled
  url := upper.url.or lower.url
  token := upper.token.or lower.token
  directory := upper.directory.or lower.directory
  timeout := upper.timeout.or lower.timeout

/-- The section `upper` over the section `lower`. -/
def LogLayer.merge (lower upper : LogLayer) : LogLayer where
  level := upper.level.or lower.level
  json := upper.json.or lower.json

/-- The merge of two sections that may both be missing. -/
def mergeSection {α : Type} (merge : α → α → α) : Option α → Option α → Option α
  | some lower, some upper => some (merge lower upper)
  | some lower, none => some lower
  | none, upper => upper

namespace Layer

/-- The layer that says nothing. -/
def empty : Layer := {}

/-- The layer `upper` over the layer `lower`. -/
def merge (lower upper : Layer) : Layer where
  database := mergeSection DatabaseLayer.merge lower.database upper.database
  vault := mergeSection VaultLayer.merge lower.vault upper.vault
  schema := mergeSection SchemaLayer.merge lower.schema upper.schema
  edge := mergeSection EdgeLayer.merge lower.edge upper.edge
  log := mergeSection LogLayer.merge lower.log upper.log

/-- The merge of layers, the lowest first. -/
def mergeAll (layers : List Layer) : Layer :=
  layers.foldl merge empty

end Layer

end ProjectHub.Settings
