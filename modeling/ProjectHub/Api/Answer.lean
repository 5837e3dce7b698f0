import ProjectHub.ErrorKind
import ProjectHub.Json.Decode
import ProjectHub.Json.Printer

/-!
# Answers of the interface

An error reaches a caller outside as a code and a message. What went wrong
inside the hub is not told: the message of an internal error is always the same.
-/

namespace ProjectHub.Api

/-- The body of an error. -/
structure ErrorBody where
  error : String
  message : String
  deriving DecidableEq

namespace ErrorBody

/-- The JSON text of the body. -/
def render (b : ErrorBody) : String :=
  Json.renderRecord [("error", Json.renderText b.error), ("message", Json.renderText b.message)]

/-- The body from JSON. -/
def decoder : Json.Decoder ErrorBody := fun depth source => do
  let (depth, fields) ← Json.fieldsOf ["error", "message"] depth source
  match fields with
  | [error, message] =>
    return ⟨← Json.required .text depth error, ← Json.required .text depth message⟩
  | _ => none

end ErrorBody

/-- The body of an answer that carries nothing but a message. -/
structure SuccessBody where
  message : String
  deriving DecidableEq

namespace SuccessBody

/-- The JSON text of the body. -/
def render (b : SuccessBody) : String :=
  Json.renderRecord [("message", Json.renderText b.message)]

/-- The body from JSON. -/
def decoder : Json.Decoder SuccessBody := fun depth source => do
  let (depth, fields) ← Json.fieldsOf ["message"] depth source
  match fields with
  | [message] => return ⟨← Json.required .text depth message⟩
  | _ => none

end SuccessBody

/-- A failure ready to be answered. -/
structure Failure where
  kind : ErrorKind
  message : String
  deriving DecidableEq

namespace Failure

/-- The failure in one line. -/
def line (f : Failure) : String :=
  f.kind.code ++ ": " ++ f.message

/-- The body that answers a failure. -/
def body (f : Failure) : ErrorBody :=
  ⟨f.kind.code, if f.kind = .internal then "internal error" else f.message⟩

end Failure

end ProjectHub.Api
