import ProjectHub.Url.Parse

/-!
# Exchanges

A request goes to a transport, which answers each with a response. Redirects are
followed up to a limit: the request is sent again as it was, only after "See
Other" as one for reading, and never with its authorization to another server.
-/

namespace ProjectHub.Http

/-!
## Status codes

The reasons of the registered status codes, and the two classes of codes that
callers tell apart.
-/

/-- The reason of a registered code. -/
def reason? : Nat → Option String
  | 100 => some "Continue"
  | 101 => some "Switching Protocols"
  | 102 => some "Processing"
  | 103 => some "Early Hints"
  | 200 => some "OK"
  | 201 => some "Created"
  | 202 => some "Accepted"
  | 203 => some "Non Authoritative Information"
  | 204 => some "No Content"
  | 205 => some "Reset Content"
  | 206 => some "Partial Content"
  | 207 => some "Multi-Status"
  | 208 => some "Already Reported"
  | 226 => some "IM Used"
  | 300 => some "Multiple Choices"
  | 301 => some "Moved Permanently"
  | 302 => some "Found"
  | 303 => some "See Other"
  | 304 => some "Not Modified"
  | 305 => some "Use Proxy"
  | 307 => some "Temporary Redirect"
  | 308 => some "Permanent Redirect"
  | 400 => some "Bad Request"
  | 401 => some "Unauthorized"
  | 402 => some "Payment Required"
  | 403 => some "Forbidden"
  | 404 => some "Not Found"
  | 405 => some "Method Not Allowed"
  | 406 => some "Not Acceptable"
  | 407 => some "Proxy Authentication Required"
  | 408 => some "Request Timeout"
  | 409 => some "Conflict"
  | 410 => some "Gone"
  | 411 => some "Length Required"
  | 412 => some "Precondition Failed"
  | 413 => some "Payload Too Large"
  | 414 => some "URI Too Long"
  | 415 => some "Unsupported Media Type"
  | 416 => some "Range Not Satisfiable"
  | 417 => some "Expectation Failed"
  | 418 => some "I'm a teapot"
  | 421 => some "Misdirected Request"
  | 422 => some "Unprocessable Entity"
  | 423 => some "Locked"
  | 424 => some "Failed Dependency"
  | 425 => some "Too Early"
  | 426 => some "Upgrade Required"
  | 428 => some "Precondition Required"
  | 429 => some "Too Many Requests"
  | 431 => some "Request Header Fields Too Large"
  | 451 => some "Unavailable For Legal Reasons"
  | 500 => some "Internal Server Error"
  | 501 => some "Not Implemented"
  | 502 => some "Bad Gateway"
  | 503 => some "Service Unavailable"
  | 504 => some "Gateway Timeout"
  | 505 => some "HTTP Version Not Supported"
  | 506 => some "Variant Also Negotiates"
  | 507 => some "Insufficient Storage"
  | 508 => some "Loop Detected"
  | 510 => some "Not Extended"
  | 511 => some "Network Authentication Required"
  | _ => none

/-- A code with its reason. -/
def statusLine (status : Nat) : String :=
  toString status ++ " " ++ (reason? status).getD "<unknown status code>"

/-- Whether a code tells of an error of the server. -/
def isServerError (status : Nat) : Bool :=
  500 ≤ status && status < 600

/-- Whether a code sends on to another place. -/
def isRedirect (status : Nat) : Bool :=
  [301, 302, 303, 307, 308].contains status

/-! ## Requests and responses -/

/-- What a request asks for. -/
inductive Method where
  | put
  | get
  deriving DecidableEq

/-- The word for a method. -/
def Method.word : Method → String
  | .put => "PUT"
  | .get => "GET"

/-- A request. -/
structure Request where
  method : Method
  url : Url
  /-- The values of the authorization header, in order. -/
  authorization : List String := []
  contentType : Option String := none
  body : List UInt8 := []
  deriving DecidableEq

/-- What of a response matters: its status, and where it sends on to. -/
structure Response where
  status : Nat
  location : Option String := none
  deriving DecidableEq

/-- Answers requests, from a state that changes with each. -/
abbrev Transport (S : Type) := Request → S → S × Response

/-- Why a request has no response. -/
inductive Failure where
  /-- The request cannot be made. -/
  | builder (url : Option Url)
  /-- The request cannot be sent. -/
  | sending (url : Url)
  /-- There were too many redirects. -/
  | redirect (url : Url)
  deriving DecidableEq

/-- The wording of a failure. -/
def Failure.message : Failure → String
  | .builder none => "builder error"
  | .builder (some url) => "builder error for url (" ++ url.render ++ ")"
  | .sending url => "error sending request for url (" ++ url.render ++ ")"
  | .redirect url => "error following redirect for url (" ++ url.render ++ ")"

/-- Whether a text is a value of a header. -/
def isHeaderText (text : String) : Bool :=
  text.toList.all fun c => c == '\t' || (32 ≤ c.toNat && c.toNat != 127)

/-- Whether a URL is for this protocol, in the clear or not. -/
def isWeb (url : Url) : Bool :=
  url.scheme == "http" || url.scheme == "https"

/-- Whether the host of a URL can be named in a request. -/
def hasNameableHost (url : Url) : Bool :=
  (url.host.getD "").toList.all fun c => !"\"\x60\x7b\x7d".toList.contains c

/-- Characters of references. -/
def isReferenceChar (c : Char) : Bool :=
  c.isAlphanum || "-._~:/?#[]@!$&'()*+,;=%".toList.contains c

/-- Whether a text names a place: characters of references only, and after a scheme an
authority. -/
def isReference (text : String) : Bool :=
  text.toList.all isReferenceChar &&
    match Url.splitScheme? text.toList with
    | some (_, rest) => "//".toList.isPrefixOf rest
    | none => true

/-- Where a response sends a request on to. -/
def nextUrl? (request : Request) (response : Response) : Option Url :=
  match response.location with
  | some location =>
    if isRedirect response.status && isReference location then
      (Url.resolve request.url location).toOption
    else none
  | none => none

/-- Whether two URLs are on one server. -/
def sameServer (a b : Url) : Bool :=
  let number (u : Url) : Option Nat := u.portNumber.or (Url.defaultPort? u.scheme)
  a.host == b.host && number a == number b

/-- The request that a redirect makes. -/
def Request.redirected (r : Request) (status : Nat) (url : Url) : Request :=
  let r := if sameServer r.url url then r else { r with authorization := [] }
  if status = 303 then { r with url := url, method := .get, contentType := none, body := [] }
  else { r with url := url }

variable {S : Type}

/-- Sends a request and follows at most `left` redirects; gives the last status. -/
def follow (transport : Transport S) : (left : Nat) → Request → S → S × Except Failure Nat
  | left, request, st =>
    let url := { request.url with fragment := none }
    let request := { request with url := url }
    if url.scheme = "https" then (st, .error (.sending url))
    else
      let (st, response) := transport request st
      match nextUrl? request response with
      | none => (st, .ok response.status)
      | some next =>
        match left with
        | 0 => (st, .error (.redirect url))
        | left + 1 =>
          if isWeb next then follow transport left (request.redirected response.status next) st
          else (st, .error (.builder (some next)))

/-- The number of redirects that are followed. -/
def maxRedirects : Nat := 10

/-- Sends a request. -/
def send (transport : Transport S) (request : Request) (st : S) : S × Except Failure Nat :=
  if !request.authorization.all isHeaderText then (st, .error (.builder none))
  else if !isWeb request.url || !hasNameableHost request.url then
    (st, .error (.builder (some request.url)))
  else follow transport maxRedirects request st

end ProjectHub.Http
