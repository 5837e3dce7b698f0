import ProjectHub.Api.Answer
import ProjectHub.Manifest.Registry
import ProjectHub.Plan.Error
import ProjectHub.Settings.Error
import ProjectHub.Sqlite.Location

/-!
# Errors of the hub

An error of a part of the hub passes through with its kind and wording. What
goes wrong with the hub itself is internal, but for requests that are refused
before any part sees them.
-/

namespace ProjectHub

namespace Hub

/-- Why the hub's own database cannot be opened. -/
inductive DatabaseFault where
  /-- The URL names no database. -/
  | badUrl (fault : Sqlite.UrlFault)
  /-- The database cannot be opened. -/
  | closed (fault : Sqlite.OpenFault)
  deriving DecidableEq

/-- The wording of a fault. -/
def DatabaseFault.message : DatabaseFault → String
  | .badUrl fault => "Internal: Invalid database URL: " ++ fault.message
  | .closed fault => "Database error: " ++ fault.message

/-- What an operation of the hub can fail with. -/
inductive Error where
  | settings (error : Settings.Error)
  | database (fault : DatabaseFault)
  /-- The log of the process is set up already. -/
  | logInstalled
  | noSchemas
  | blankAlias
  | vault (error : Vault.Error)
  | plan (error : Plan.Error)
  | registry (error : Registry.Error)
  deriving DecidableEq

namespace Error

/-- The wording of an error. -/
def message : Error → String
  | settings error => "configuration error: " ++ error.message
  | database fault => "database error: " ++ fault.message
  | logInstalled =>
    "failed to initialize logging: a global default trace dispatcher has already been set"
  | noSchemas => "invalid input: schemas must not be empty"
  | blankAlias => "invalid input: schema alias must not be blank"
  | vault error => error.message
  | plan error => error.message
  | registry error => error.message

/-- The kind of an error. -/
def kind : Error → ErrorKind
  | settings _ | database _ | logInstalled => .internal
  | noSchemas | blankAlias => .invalidInput
  | vault error => error.kind
  | plan error => error.kind
  | registry error => error.kind

/-- The failure that answers an error. -/
def failure (e : Error) : Api.Failure :=
  ⟨e.kind, e.message⟩

end Error

end Hub

end ProjectHub
