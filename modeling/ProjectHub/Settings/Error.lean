import ProjectHub.Files

/-!
# Faults of settings
-/

namespace ProjectHub.Settings

/-- Why a secret of the environment cannot be had. -/
inductive SecretFault where
  /-- The secret is given twice: by value and by file. -/
  | conflict (name : String)
  /-- The file that holds the secret cannot be read. -/
  | unreadable (name path : String) (fault : FileFault)
  deriving DecidableEq

/-- The wording of a fault. -/
def SecretFault.message : SecretFault → String
  | .conflict name => "both " ++ name ++ " and " ++ name ++ "_FILE are set; use only one"
  | .unreadable name path fault =>
    "failed to read " ++ name ++ "_FILE at " ++ path ++ ": " ++ fault.message

/-- Which rule the resolved settings break. -/
inductive Violation where
  | emptyDatabaseUrl
  | noMasterKey
  | zeroConnectTimeout
  | zeroEdgeTimeout
  /-- The hub is to be opened without a master key. -/
  | masterKeyMissing
  /-- The address of the remote store is no use. -/
  | edgeUrl (reason : String)
  deriving DecidableEq

/-- The wording of a violation. -/
def Violation.message : Violation → String
  | .emptyDatabaseUrl => "database.url must not be empty (STK_HUB_DATABASE_URL)"
  | .noMasterKey =>
    "vault.encryption_key is required; set STK_HUB_ENCRYPTION_KEY or STK_HUB_ENCRYPTION_KEY_FILE"
  | .zeroConnectTimeout => "schema.connect_timeout_secs must be greater than zero"
  | .zeroEdgeTimeout => "edge.timeout_secs must be greater than zero"
  | .masterKeyMissing => "vault.encryption_key is required"
  | .edgeUrl reason => "edge.kv_url: " ++ reason

/-- What loading settings can fail with. -/
inductive Error where
  /-- A file that cannot be read. -/
  | unreadable (path : String) (fault : FileFault)
  /-- A file that is no settings file. -/
  | malformed (path : String)
  /-- A variable that holds no number of 64 bits. -/
  | notNumber (name text : String)
  /-- An address of the remote store that is not for HTTP. -/
  | notHttp (url : String)
  /-- A secret that cannot be had. -/
  | secret (fault : SecretFault)
  /-- Settings that break a rule. -/
  | invalid (violation : Violation)
  deriving DecidableEq

/-- The wording of an error. -/
def Error.message : Error → String
  | unreadable path fault => "failed to read config file " ++ path ++ ": " ++ fault.message
  | malformed path => "failed to parse config file " ++ path
  | notNumber name text => "invalid value for " ++ name ++ ": invalid u64 value '" ++ text ++ "'"
  | notHttp url => "invalid value for edge.kv_url: expected an http(s) URL, got '" ++ url ++ "'"
  | secret fault => "secret loading failed: " ++ fault.message
  | invalid violation => "configuration validation failed: " ++ violation.message

end ProjectHub.Settings
