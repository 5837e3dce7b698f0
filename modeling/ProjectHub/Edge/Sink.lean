import ProjectHub.NameMap.Basic

/-!
# Sinks

A sink takes records for the edge. A put may be accepted, refused, or never
finish; what lies behind a sink is a state that puts change.
-/

namespace ProjectHub.Edge

/-- What a put can fail with. -/
inductive SinkError where
  /-- Another attempt may succeed. -/
  | transient (reason : String)
  /-- No attempt will succeed. -/
  | permanent (reason : String)
  /-- The address of the sink is no use. -/
  | invalidUrl (reason : String)
  deriving DecidableEq

namespace SinkError

/-- The wording of an error. -/
def message : SinkError → String
  | transient reason => "transient error: " ++ reason
  | permanent reason => "permanent error: " ++ reason
  | invalidUrl reason => "invalid edge url: " ++ reason

end SinkError

/-- How a put ends. -/
inductive Outcome where
  | accepted
  | refused (error : SinkError)
  /-- No answer ever comes. -/
  | never
  deriving DecidableEq

/-- A sink with a state behind it. -/
structure Sink (S : Type) where
  /-- What the sink is called. -/
  name : String
  /-- Puts a value under a key. -/
  put : String → List UInt8 → S → S × Outcome

/-- A sink on a part of a larger state. -/
def Sink.within {S W : Type} (get : W → S) (set : S → W → W) (sink : Sink S) : Sink W where
  name := sink.name
  put := fun key value world =>
    let (part, outcome) := sink.put key value (get world)
    (set part world, outcome)

/-- Records by key. -/
abbrev Records := NameMap (List UInt8)

/-- The sink that keeps records in memory and accepts every put. -/
def memorySink : Sink Records where
  name := "memory"
  put := fun key value records => (records.insert key value, .accepted)

/-- Which puts a sink under test refuses, and which it leaves without an answer. -/
structure Script where
  refuses : String → Bool := fun _ => false
  stalls : String → Bool := fun _ => false

/-- The sink that keeps records in memory and behaves as a script says. -/
def scriptedSink (script : Script) : Sink Records where
  name := "test"
  put := fun key value records =>
    if script.stalls key then (records, .never)
    else if script.refuses key then (records, .refused (.transient "connection refused"))
    else (records.insert key value, .accepted)

end ProjectHub.Edge
