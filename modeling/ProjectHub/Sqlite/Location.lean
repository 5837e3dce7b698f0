import ProjectHub.Text.Hex
import ProjectHub.Text.Numeral
import ProjectHub.Text.Printable

/-!
# Databases by URL

A URL of a database names a file, or a database in memory that lives as long as
the connection to it, and may say how the file is used. A file name that starts
with `file:` is a URI of its own, with parameters that say more.
-/

namespace ProjectHub.Sqlite

/-- What a URL of a database asks for. -/
structure Location where
  /-- The name of the file. -/
  path : String
  /-- Whether the database lives in memory only. -/
  inMemory : Bool := false
  /-- Whether the database may only be read. -/
  readOnly : Bool := false
  /-- Whether the file is taken to change by no hand. -/
  immutable : Bool := false
  /-- The way to the file system, where it is named. -/
  system : Option String := none
  deriving DecidableEq

/-- Why a URL names no database. -/
inductive UrlFault where
  /-- A parameter has a value that is not among its values. -/
  | unknownValue (value parameter : String)
  /-- A parameter that does not exist. -/
  | unknownParameter (parameter : String)
  /-- The path is no text. -/
  | pathNotText
  deriving DecidableEq

namespace UrlFault

/-- The wording of a fault. -/
def message : UrlFault → String
  | unknownValue value parameter =>
    "error with configuration: unknown value " ++ Text.quoted value ++ " for \x60" ++ parameter ++
      "\x60"
  | unknownParameter parameter =>
    "error with configuration: unknown query parameter \x60" ++ parameter ++
      "\x60 while parsing connection URL"
  | pathNotText => "error with configuration: invalid utf-8 sequence"

end UrlFault

/-- Why a database cannot be opened. -/
inductive OpenFault where
  /-- The name of the file has a character of code zero. -/
  | nulInPath
  /-- The database or the file system refuses. -/
  | refused
  deriving DecidableEq

/-- What the database says when it refuses something. -/
def refusal : String := "error returned from database"

/-- The wording of a fault. -/
def OpenFault.message : OpenFault → String
  | .nulInPath =>
    "error communicating with database: filename passed to SQLite must not contain nul bytes"
  | .refused => refusal

/-- The text without any number of copies of a word at its front; `steps` bounds them. -/
def dropRepeated (word : List Char) : Nat → List Char → List Char
  | 0, cs => cs
  | steps + 1, cs =>
    if word.isPrefixOf cs then dropRepeated word steps (cs.drop word.length) else cs

namespace Location

/-- Takes in one parameter of a URL. -/
def withParameter (location : Location) (parameter value : String) :
    Except UrlFault Location :=
  let oneOf (values : List String) : Except UrlFault Location :=
    if values.contains value then .ok location else .error (.unknownValue value parameter)
  match parameter with
  | "mode" =>
    match value with
    | "ro" => .ok { location with readOnly := true }
    | "memory" => .ok { location with inMemory := true }
    | _ => oneOf ["rw", "rwc"]
  | "cache" => oneOf ["private", "shared"]
  | "immutable" => do
    let location ← oneOf ["true", "1", "false", "0"]
    return { location with immutable := value == "true" || value == "1" }
  | "vfs" => .ok { location with system := some value }
  | _ => .error (.unknownParameter parameter)

/-- What a URL asks for. -/
def ofUrl (url : String) : Except UrlFault Location := do
  let cs := url.toList
  let cs := dropRepeated "sqlite://".toList cs.length cs
  let cs := dropRepeated "sqlite:".toList cs.length cs
  let path := String.ofList (cs.takeWhile fun c => c != '?')
  let start ←
    if path = ":memory:" then pure { path := path, inMemory := true : Location }
    else
      match Text.ofUtf8? (Text.percentDecode (Text.toUtf8 path)) with
      | some path => pure { path := path : Location }
      | none => throw .pathNotText
  let query := String.ofList ((cs.dropWhile fun c => c != '?').drop 1)
  (Text.queryPairs query).foldlM (fun location (parameter, value) =>
    location.withParameter parameter value) start

end Location

/-- How a database is opened: the name of its file, and what may be done with the file. -/
structure Opening where
  /-- The name of the file; without one, the database is in memory. -/
  path : String
  inMemory : Bool
  /-- Whether the file may be written. -/
  writes : Bool
  /-- Whether the file is made when it is missing. -/
  creates : Bool
  /-- Whether the content is left as it is, whatever the file would admit. -/
  frozen : Bool
  deriving DecidableEq

namespace Opening

/-- The text of a part of a URI, up to a byte of zero. -/
def decodePart (cs : List Char) : String :=
  let bytes := Text.percentDecode (Text.toUtf8 (String.ofList cs))
  Text.ofUtf8Lossy (bytes.takeWhile fun byte => byte != 0)

/-- The names and values of the parameters of a URI; one without a name counts for
nothing. -/
def parameters (query : List Char) : List (String × String) :=
  ((String.ofList query).splitOn "&").filterMap fun part =>
    let cs := part.toList
    let name := decodePart (cs.takeWhile fun c => c != '=')
    if name.isEmpty then none
    else some (name, decodePart ((cs.dropWhile fun c => c != '=').drop 1))

/-- Whether a value of a parameter means yes: a number other than zero, or a word for it. -/
def isYes (value : String) : Bool :=
  let digits := value.toList.takeWhile Char.isDigit
  if digits.isEmpty then ["on", "yes", "true"].contains (value.map Char.toLower)
  else Text.natOfDigits digits % 256 != 0

/-- The names of the ways to the file system. -/
def systems : List String :=
  ["unix", "unix-none", "unix-dotfile", "unix-excl", "memdb"]

/-- Takes in one parameter of a URI. A mode may not ask for more than is granted already. -/
def withParameter (opening : Opening) (name value : String) : Option Opening :=
  match name with
  | "vfs" =>
    if systems.contains value then
      some { opening with inMemory := opening.inMemory || value == "memdb" }
    else none
  | "cache" => if value = "shared" ∨ value = "private" then some opening else none
  | "mode" =>
    match value with
    | "ro" => some { opening with inMemory := false, writes := false, creates := false }
    | "rw" =>
      if opening.writes then some { opening with inMemory := false, creates := false } else none
    | "rwc" => if opening.creates then some { opening with inMemory := false } else none
    | "memory" => some { opening with inMemory := true }
    | _ => none
  | "immutable" => some { opening with frozen := opening.frozen || isYes value }
  | _ => some opening

/-- The text of a URI after its authority, which can only be empty or the machine itself. -/
def afterAuthority? (cs : List Char) : Option (List Char) :=
  match cs with
  | '/' :: '/' :: rest =>
    let authority := rest.takeWhile fun c => c != '/'
    if authority.isEmpty || authority == "localhost".toList then
      some (rest.dropWhile fun c => c != '/')
    else none
  | _ => some cs

/-- Reads a URI without its scheme. A mark of a fragment ends it. -/
def readUri (start : Opening) (uri : List Char) : Option Opening := do
  let cs := (← afterAuthority? uri).takeWhile fun c => c != '#'
  let path := decodePart (cs.takeWhile fun c => c != '?')
  let query := (cs.dropWhile fun c => c != '?').drop 1
  (parameters query).foldlM (fun opening (name, value) => opening.withParameter name value)
    { start with path := path }

/-- How a database is opened at a location. A location that names a way to the file system, or
calls its file immutable, is written as a URI first. -/
def ofLocation (location : Location) : Except OpenFault Opening :=
  let start : Opening :=
    ⟨location.path, location.inMemory, !location.readOnly, !location.readOnly, false⟩
  let extra := (if location.immutable then ["immutable=true"] else []) ++
    location.system.toList.map fun system => "vfs=" ++ system
  let name :=
    if extra.isEmpty then location.path.toList
    else
      "file:".toList ++ Text.percentEncode Char.isAlphanum location.path.toList ++ ['?'] ++
        ("&".intercalate extra).toList
  if name.contains '\x00' then .error .nulInPath
  else if "file:".toList.isPrefixOf name then
    match readUri start (name.drop 5) with
    | some opening => .ok opening
    | none => .error .refused
  else .ok start

/-- Whether the opened database lives in memory only. -/
def isTransient (opening : Opening) : Bool :=
  opening.inMemory || opening.path.isEmpty || opening.path == ":memory:"

end Opening

end ProjectHub.Sqlite
