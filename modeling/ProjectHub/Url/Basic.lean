import ProjectHub.Text.Hex

/-!
# URLs

A URL as its parts, each already encoded, and its text. A hierarchical path is a
list of segments, so what a segment holds can never be taken for a separator:
the text of a URL joins the segments, and pushing one adds exactly one.
-/

namespace ProjectHub

/-- The path of a URL. -/
inductive Url.Path where
  /-- A path without structure. -/
  | opaquePath (text : String)
  /-- Segments, each behind a slash. -/
  | segments (all : List String)
  deriving DecidableEq

/-- A URL. -/
structure Url where
  scheme : String
  username : String := ""
  password : String := ""
  /-- The host as text; none without an authority. -/
  host : Option String := none
  /-- The number after the host, if it is not that of the scheme. -/
  portNumber : Option Nat := none
  path : Url.Path
  query : Option String := none
  fragment : Option String := none
  deriving DecidableEq

namespace Url

/-- Schemes whose URLs always have a host and a path. -/
def isSpecialScheme (scheme : String) : Bool :=
  ["http", "https", "ws", "wss", "ftp", "file"].contains scheme

/-- The number that a scheme stands for when none follows the host. -/
def defaultPort? : String → Option Nat
  | "http" | "ws" => some 80
  | "https" | "wss" => some 443
  | "ftp" => some 21
  | _ => none

/-- Whether the scheme of a URL is special. -/
def isSpecial (u : Url) : Bool := isSpecialScheme u.scheme

/-- Whether the path of a URL has segments. -/
def isHierarchical (u : Url) : Bool :=
  match u.path with
  | .segments _ => true
  | .opaquePath _ => false

/-- Characters that are not controls and within ASCII. -/
def isPlain (c : Char) : Bool :=
  32 ≤ c.toNat && c.toNat < 127

/-- Characters kept in a fragment. -/
def keptInFragment (c : Char) : Bool :=
  isPlain c && !" \"<>\x60".toList.contains c

/-- Characters kept in a query. -/
def keptInQuery (special : Bool) (c : Char) : Bool :=
  isPlain c && !" \"#<>".toList.contains c && !(special && c == '\'')

/-- Characters kept in a path. -/
def keptInPath (c : Char) : Bool :=
  keptInFragment c && !"#?\x7b\x7d".toList.contains c

/-- Characters kept in a segment that is pushed. -/
def keptInSegment (special : Bool) (c : Char) : Bool :=
  keptInPath c && c != '/' && c != '%' && !(special && c == '\\')

/-- Characters kept in a name or password. -/
def keptInUser (c : Char) : Bool :=
  keptInPath c && !"/:;=@[\\]^|".toList.contains c

/-- The text of a path. -/
def Path.render : Path → String
  | .opaquePath text => text
  | .segments all => String.join (all.map ("/" ++ ·))

/-- The name and password as they stand before the host. -/
def userText (u : Url) : String :=
  if u.username.isEmpty && u.password.isEmpty then ""
  else u.username ++ (if u.password.isEmpty then "" else ":" ++ u.password) ++ "@"

/-- The colon and the number as they stand after the host. -/
def portText (u : Url) : String :=
  match u.portNumber with
  | some number => ":" ++ toString number
  | none => ""

/-- What stands between the scheme and the path. Without a host, a path that begins with an
empty segment is kept apart from the slashes that would announce one. -/
def authorityText (u : Url) : String :=
  match u.host, u.path with
  | some host, _ => "//" ++ u.userText ++ host ++ u.portText
  | none, .segments ("" :: _ :: _) => "/."
  | none, _ => ""

/-- The text of the path and the query. -/
def target (u : Url) : String :=
  u.path.render ++
    match u.query with
    | some query => "?" ++ query
    | none => ""

/-- The text of a URL. -/
def render (u : Url) : String :=
  u.scheme ++ ":" ++ u.authorityText ++ u.target ++
    match u.fragment with
    | some fragment => "#" ++ fragment
    | none => ""

/-- Segments without the empty one at their end, if others stand before it. -/
def dropTrailing (all : List String) : List String :=
  if 1 < all.length && all.getLast? == some "" then all.dropLast else all

/-- Segments with one more. A lone empty segment is replaced. -/
def addSegment (all : List String) (segment : String) : List String :=
  if all = [""] then [segment] else all ++ [segment]

/-- The encoded text of a segment. Tabs and line ends are left out. -/
def encodeSegment (special : Bool) (text : String) : String :=
  String.ofList (Text.percentEncode (keptInSegment special)
    (text.toList.filter fun c => c != '\t' && c != '\n' && c != '\r'))

/-- Segments with a text pushed as one more. A dot, or two, in place of a text adds
nothing; where only leaving out tabs and line ends makes one, it counts as the step it
stands for. -/
def pushText (special : Bool) (all : List String) (text : String) : List String :=
  if text = "." ∨ text = ".." then all
  else
    match encodeSegment special text with
    | "." => addSegment all ""
    | ".." => all.dropLast ++ [""]
    | segment => addSegment all segment

/-- The URL with a text pushed as one more segment, in place of an empty one at the end. -/
def push (u : Url) (text : String) : Url :=
  match u.path with
  | .opaquePath _ => u
  | .segments all => { u with path := .segments (pushText u.isSpecial (dropTrailing all) text) }

end Url

end ProjectHub
