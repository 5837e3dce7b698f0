/-!
# Secret values

A secret value shows nothing of itself in messages, logs and answers; only
`expose` gives its text. Every place that shows one writes the same word.
-/

namespace ProjectHub

/-- A value that is not to be shown. -/
structure Secret where
  /-- The text of the value. -/
  expose : String
  deriving DecidableEq

namespace Secret

/-- What is shown in place of a secret. -/
def redacted : String := "[REDACTED]"

/-- What is shown of a secret: always the same. -/
def shown (_ : Secret) : String := redacted

/-- The number of bytes of the value in UTF-8. -/
def size (s : Secret) : Nat := s.expose.utf8ByteSize

/-- Whether the value is the empty text. -/
def isEmpty (s : Secret) : Bool := s.expose.isEmpty

end Secret

end ProjectHub
