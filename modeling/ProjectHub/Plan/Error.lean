import ProjectHub.Document.Error
import ProjectHub.ErrorKind
import ProjectHub.Vault.Error

/-!
# Errors of planning
-/

namespace ProjectHub.Plan

/-- What planning and applying schemas can fail with. -/
inductive Error where
  | noProject
  | noDocuments
  | emptyDocument
  /-- A document that cannot be read. -/
  | parse (error : Document.Error)
  /-- Something is to be applied, but nothing is planned. -/
  | nothingPlanned (project : String)
  /-- The token given is not that of the plan on record. -/
  | stalePlan (project : String) (current : Nat) (provided : Option Nat)
  /-- Nothing was applied under the alias. -/
  | stateNotFound (project name : String)
  | unsupportedScheme (scheme : String)
  /-- The project's database cannot be reached. -/
  | connect (reason : String)
  | connectTimeout (seconds : Nat)
  /-- The project's database refused something. -/
  | engine (reason : String)
  /-- The store of plans failed. -/
  | store (error : Storage.Error)
  /-- The vault failed. -/
  | vault (error : Vault.Error)
  deriving DecidableEq

namespace Error

/-- A token as messages show it. -/
def tokenText : Option Nat → String
  | some token => "Some(" ++ toString token ++ ")"
  | none => "None"

/-- The wording of an error. -/
def message : Error → String
  | noProject => "invalid input: project_id is required"
  | noDocuments => "invalid input: at least one schema document is required"
  | emptyDocument => "invalid input: schema content is empty"
  | parse error => error.message
  | nothingPlanned project =>
    "no planned schema on record for project " ++ project ++ "; run plan first"
  | stalePlan project current provided =>
    "plan token " ++ tokenText provided ++ " does not match the current plan " ++
      toString current ++ " for project " ++ project ++ "; re-run plan"
  | stateNotFound project name => "schema state not found for " ++ project ++ "/" ++ name
  | unsupportedScheme scheme => "unsupported database URL scheme: " ++ scheme
  | connect reason => "failed to connect to project database: " ++ reason
  | connectTimeout seconds =>
    "timed out connecting to project database after " ++ toString seconds ++ "s"
  | engine reason => "schema engine error: " ++ reason
  | store error => "planner state store error: " ++ error.message
  | vault error => error.message

/-- The kind of an error. -/
def kind : Error → ErrorKind
  | noProject | noDocuments | emptyDocument | parse _ => .invalidInput
  | nothingPlanned _ | stalePlan _ _ _ => .preconditionFailed
  | stateNotFound _ _ => .notFound
  | unsupportedScheme _ | connect _ | connectTimeout _ => .unavailable
  | engine _ | store _ => .internal
  | vault error => error.kind

/-- Whether the error means that there is no database to reach. -/
def isUnreachable : Error → Bool
  | unsupportedScheme _ | connect _ | connectTimeout _ => true
  | _ => false

end Error

end ProjectHub.Plan
