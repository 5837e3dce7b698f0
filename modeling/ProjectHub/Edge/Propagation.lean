import ProjectHub.Edge.Sink
import ProjectHub.Manifest.Basic
import ProjectHub.Text.Utf8

/-!
# Records at the edge

The records of a manifest are put one after another, one attempt each within a
time limit. A failure is counted and does not stop the others.
-/

namespace ProjectHub.Edge

/-!
## Keys and values

What servers at the edge read: one record for each bundle of a project and for
each secret handed out. The keys carry the project, the kind and the name.
-/

/-- The key of the record of a bundle. -/
def bundleKey (project : String) (b : Bundle) : String :=
  project ++ ":logic:" ++ b.space ++ ":" ++ b.name

/-- The key of the record of a secret. -/
def secretKey (project key : String) : String :=
  project ++ ":secrets:" ++ key

/-- The configuration of a bundle that has none. -/
def defaultConfig : Json :=
  .ofMembers [("target", .text "main"), ("access", .text "public")]

/-- The record of a bundle. Content is text there; bytes that are not UTF-8 are replaced. -/
def record (b : Bundle) : Json :=
  .ofMembers [
    ("type", .text b.kind.word),
    ("namespace", .text b.space),
    ("name", .text b.name),
    ("config", match b.config with
      | some config => .object config
      | none => defaultConfig),
    ("content", .text (Text.ofUtf8Lossy b.content)),
    ("hash", .text b.hash)]

/-- The bytes of the record of a bundle. -/
def recordBytes (b : Bundle) : List UInt8 :=
  Text.toUtf8 (record b).render

/-! ## Putting records -/

/-- How many records of a manifest arrived. -/
structure Report where
  propagated : Nat
  failed : Nat
  deriving DecidableEq

/-- A sink with the time that a put may take. -/
structure Propagator (S : Type) where
  sink : Sink S
  /-- The limit in milliseconds. -/
  timeoutMillis : Nat

namespace Propagator

variable {S : Type}

/-- One attempt to put a record. -/
def putRecord (p : Propagator S) (key : String) (value : List UInt8) (st : S) :
    S × Except SinkError Unit :=
  match p.sink.put key value st with
  | (st, .accepted) => (st, .ok ())
  | (st, .refused error) => (st, .error error)
  | (st, .never) =>
    (st, .error (.transient ("timed out after " ++ toString p.timeoutMillis ++ "ms")))

/-- Puts the records of bundles in order and counts. -/
def putBundles (p : Propagator S) (project : String) : List Bundle → S → S × Report
  | [], st => (st, ⟨0, 0⟩)
  | b :: rest, st =>
    let (st, result) := p.putRecord (bundleKey project b) (recordBytes b) st
    let (st, report) := putBundles p project rest st
    (st, match result with
      | .ok _ => { report with propagated := report.propagated + 1 }
      | .error _ => { report with failed := report.failed + 1 })

/-- Puts the records of all bundles of a manifest. -/
def propagate (p : Propagator S) (m : Manifest) (st : S) : S × Report :=
  p.putBundles m.project m.bundles st

end Propagator

end ProjectHub.Edge
