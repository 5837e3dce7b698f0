import ProjectHub.Time.Instant

/-!
# Faults of the hub's database

The stores that keep their rows in a database can meet rows they cannot read,
and constraints of the database. Text in a row is only read when the row is.
-/

namespace ProjectHub.Storage

/-- What a database store can fail with. -/
inductive Error where
  /-- A manifest of this identifier is stored already. -/
  | duplicateManifest (id : String)
  /-- A column holds no timestamp. -/
  | timestamp (column : String) (fault : Instant.Fault)
  /-- A generation outside the range of its column. -/
  | generation (value : Int)
  /-- A recorded plan without the time of planning. -/
  | noPlanTime
  /-- A column holds no JSON of the form expected there. -/
  | malformedJson
  /-- The database refuses the statement. -/
  | refused
  deriving DecidableEq

namespace Error

/-- The wording of an error. -/
def message : Error → String
  | duplicateManifest id => "Conflict: manifest " ++ id ++ " already exists"
  | timestamp column fault => "Internal: Invalid " ++ column ++ ": " ++ fault.message
  | generation value => "Internal: Invalid generation: " ++ toString value
  | noPlanTime => "Internal: planned_at missing for recorded plan"
  | malformedJson => "Serialization error"
  | refused => "Database error: error returned from database"

end Error

/-- The instant of a timestamp in a column. -/
def readTimestamp (column text : String) : Except Error Instant :=
  (Instant.parse text).mapError (.timestamp column)

end ProjectHub.Storage
