import ProjectHub.Http.Exchange

/-!
# Scripted servers

A server to rehearse on: it gives responses in order, of which the last repeats,
and keeps the requests it was sent.
-/

namespace ProjectHub.Http

/-- The responses still to give, and the requests so far, the last first. -/
structure Script where
  responses : List Response
  requests : List Request := []

namespace Script

/-- What a script answers when it has no responses. -/
def fallback : Response := ⟨200, none⟩

/-- Answers a request. -/
def transport : Transport Script := fun request script =>
  let rest := if 1 < script.responses.length then script.responses.tail else script.responses
  (⟨rest, request :: script.requests⟩, script.responses.head?.getD fallback)

/-- The requests in the order they came. -/
def log (script : Script) : List Request :=
  script.requests.reverse

end Script

end ProjectHub.Http
