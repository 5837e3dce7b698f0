import ProjectHub.Plan.Error
import ProjectHub.Realm.Diff
import ProjectHub.Sql.Statement
import ProjectHub.Sqlite.Host

/-!
# Engines

An engine connects to the live databases of projects. A connection can read the
live schema and carry out statements as one transaction. What lies behind the
connections is a world that the engine reads and changes; engines are given as
functions on it, so that any live database can be modelled.
-/

namespace ProjectHub.Plan

/-- A connection to a live database. -/
structure Client (W : Type) where
  /-- The live schema. -/
  inspect : W → Except Error Realm
  /-- The world after the statements, all of them or none. -/
  execute : List Sql.Statement → W → Except Error W

/-- How an attempt to connect ends. -/
inductive Connection (W : Type) where
  /-- Connected, with the world after that. -/
  | ready (client : Client W) (world : W)
  | failed (error : Error)
  /-- No answer ever comes. -/
  | never

/-- An engine for some database URLs. -/
structure Engine (W : Type) where
  /-- Whether the engine is for a URL. -/
  supports : String → Bool
  /-- Connects to the database of a URL. -/
  connect : String → W → Connection W

namespace Engine

variable {V W : Type}

/-- An engine on a part of a larger world. -/
def within (get : W → V) (set : V → W → W) (e : Engine V) : Engine W where
  supports := e.supports
  connect := fun url world =>
    match e.connect url (get world) with
    | .ready client part =>
      .ready
        { inspect := fun w => client.inspect (get w)
          execute := fun statements w =>
            (client.execute statements (get w)).map fun part => set part w }
        (set part world)
    | .failed error => .failed error
    | .never => .never

end Engine

/-- The text before the first colon. -/
def schemeOf (url : String) : String :=
  let cs := url.toList
  if cs.contains ':' then String.ofList (cs.takeWhile fun c => c != ':') else "<none>"

/-- What an engine is told when the database refuses something. -/
def refusal : Error := .engine Sqlite.refusal

/-- The client on a connection to a database. -/
def clientOn (connection : Sqlite.Connection) : Client Sqlite.Host where
  inspect := fun host =>
    match connection.inspect? host with
    | some realm => .ok realm
    | none => .error refusal
  execute := fun statements host =>
    match connection.run? statements host with
    | some host => .ok host
    | none => .error refusal

/-- The engine for databases in files and in memory. -/
def sqliteEngine : Engine Sqlite.Host where
  supports := fun url => "sqlite:".toList.isPrefixOf url.toList
  connect := fun url host =>
    if "sqlite:".toList.isPrefixOf url.toList then
      match Sqlite.Location.ofUrl url with
      | .error fault => .failed (.connect ("invalid sqlite URL: " ++ fault.message))
      | .ok location =>
        match host.connect location with
        | .ok (connection, host) => .ready (clientOn connection) host
        | .error fault => .failed (.connect fault.message)
    else .failed (.unsupportedScheme (schemeOf url))

/-- A stage to rehearse on: a live schema that is given and does not change, what its
connections fail with, and the statements they were given. -/
structure Stage where
  /-- The live schema. -/
  realm : Realm := .empty
  /-- What reading the schema fails with. -/
  inspectFault : Option String := none
  /-- What carrying out statements fails with. -/
  executeFault : Option String := none
  /-- The statements carried out, oldest first. -/
  executed : List Sql.Statement := []

/-- The connection to a stage. -/
def stageClient : Client Stage where
  inspect := fun stage =>
    match stage.inspectFault with
    | some reason => .error (.engine reason)
    | none => .ok stage.realm
  execute := fun statements stage =>
    match stage.executeFault with
    | some reason => .error (.engine reason)
    | none => .ok { stage with executed := stage.executed ++ statements }

/-- The engine for stages. Some URLs stand for databases that cannot be reached. -/
def stageEngine : Engine Stage where
  supports := fun url => "fake:".toList.isPrefixOf url.toList
  connect := fun url stage =>
    match url with
    | "fake:refused" => .failed (.connect "connection refused")
    | "fake:scheme" => .failed (.unsupportedScheme "fake")
    | "fake:timeout" => .failed (.connectTimeout 3)
    | "fake:broken" => .failed (.engine "engine broken")
    | "fake:hang" => .never
    | _ => .ready stageClient stage

end ProjectHub.Plan
