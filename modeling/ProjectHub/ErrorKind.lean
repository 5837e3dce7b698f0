/-!
# Kinds of errors

Every error of the hub is of one of five kinds. A kind has a code, which is what
a caller outside sees of an error besides its message.
-/

namespace ProjectHub

/-- The kind of an error. -/
inductive ErrorKind where
  /-- What was asked for does not exist. -/
  | notFound
  /-- The request itself is wrong. -/
  | invalidInput
  /-- The request does not fit the present state. -/
  | preconditionFailed
  /-- Something the hub depends on does not answer. -/
  | unavailable
  /-- Anything else. -/
  | internal
  deriving DecidableEq, Inhabited

namespace ErrorKind

/-- The code of a kind. -/
def code : ErrorKind → String
  | notFound => "not_found"
  | invalidInput => "invalid_input"
  | preconditionFailed => "precondition_failed"
  | unavailable => "unavailable"
  | internal => "internal"

/-- The kind of a code. -/
def ofCode? : String → Option ErrorKind
  | "not_found" => some notFound
  | "invalid_input" => some invalidInput
  | "precondition_failed" => some preconditionFailed
  | "unavailable" => some unavailable
  | "internal" => some internal
  | _ => none

/-- The HTTP status of a kind. -/
def status : ErrorKind → Nat
  | notFound => 404
  | invalidInput => 400
  | preconditionFailed => 409
  | unavailable => 503
  | internal => 500

end ErrorKind

end ProjectHub
