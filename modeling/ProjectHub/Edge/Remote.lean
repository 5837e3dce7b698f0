import ProjectHub.Edge.Sink
import ProjectHub.Encoding.Base64
import ProjectHub.Http.Exchange
import ProjectHub.Secret

/-!
# Records in a remote store

The sink that puts each record over HTTP, under the address of the store with
the key as one more segment of its path. Errors of the server may pass, all
other refusals do not.
-/

namespace ProjectHub.Edge

/-- A remote store. -/
structure Remote where
  /-- Its address. -/
  base : Url
  /-- What authorizes puts. -/
  token : Option Secret := none

namespace Remote

/-- The store at an address. -/
def ofUrl (text : String) (token : Option Secret) : Except SinkError Remote :=
  match Url.parse text with
  | .error fault => .error (.invalidUrl (text ++ ": " ++ fault.message))
  | .ok base =>
    if base.isHierarchical then .ok ⟨base, token⟩
    else .error (.invalidUrl (base.render ++ ": not a hierarchical url"))

/-- Where the record of a key goes. -/
def recordUrl (r : Remote) (key : String) : Url :=
  r.base.push key

/-- The authorization that the name and the password of an address give. -/
def userAuthorization (url : Url) : List String :=
  if url.username.isEmpty && url.password.isEmpty then []
  else
    let plain (text : String) : List UInt8 := Text.percentDecode (Text.toUtf8 text)
    ["Basic " ++ Base64.encodeText (plain url.username ++ [58] ++ plain url.password)]

/-- The request that puts a record. -/
def putRequest (r : Remote) (key : String) (value : List UInt8) : Http.Request :=
  let url := r.recordUrl key
  { method := .put
    url := { url with username := "", password := "" }
    authorization := userAuthorization url ++
      (r.token.map fun token => "Bearer " ++ token.expose).toList
    contentType := some "application/json"
    body := value }

/-- How a put with a status ends. -/
def outcomeOf (status : Nat) : Outcome :=
  if status = 200 ∨ status = 201 then .accepted
  else
    let reason := "edge KV returned status " ++ Http.statusLine status
    .refused (if Http.isServerError status then .transient reason else .permanent reason)

/-- The name of sinks of remote stores. -/
def sinkName : String := "http-kv"

/-- The sink of a remote store behind a transport. -/
def sink {S : Type} (r : Remote) (transport : Http.Transport S) : Sink S where
  name := sinkName
  put := fun key value st =>
    match Http.send transport (r.putRequest key value) st with
    | (st, .ok status) => (st, outcomeOf status)
    | (st, .error failure) =>
      (st, .refused (.transient ("edge KV request failed: " ++ failure.message)))

end Remote

end ProjectHub.Edge
