import ProjectHub.Url.Host

/-!
# Reading URLs

A text is read as a URL of its own, or in relation to a base. Blanks and
controls at its ends, and tabs and line ends within it, have no meaning. A
special scheme takes backslashes for slashes and any number of them before its
host.
-/

namespace ProjectHub.Url

/-- The scheme at the front of a text, in lower case, and what follows its colon. -/
def splitScheme? (cs : List Char) : Option (String × List Char) :=
  let isPart (c : Char) : Bool := c.isAlphanum || c == '+' || c == '-' || c == '.'
  match cs.dropWhile isPart with
  | ':' :: rest =>
    if cs.head?.any Char.isAlpha then
      some (String.ofList ((cs.takeWhile isPart).map Char.toLower), rest)
    else none
  | _ => none

/-- The text without what has no meaning in a URL. -/
def essential (text : String) : List Char :=
  let isEdge (c : Char) : Bool := c.toNat ≤ 32
  ((text.toList.dropWhile isEdge).reverse.dropWhile isEdge).reverse.filter fun c =>
    c != '\t' && c != '\n' && c != '\r'

/-- Whether a character separates segments. -/
def isSlash (special : Bool) (c : Char) : Bool :=
  c == '/' || (special && c == '\\')

/-- Whether a character ends a path. -/
def endsPath (c : Char) : Bool :=
  c == '?' || c == '#'

/-- The query and the fragment at the front of a text. -/
def splitTail (special : Bool) (cs : List Char) : Option String × Option String :=
  let encodeWith (keep : Char → Bool) (cs : List Char) : String :=
    String.ofList (Text.percentEncode keep cs)
  let query := match cs with
    | '?' :: rest => some (encodeWith (keptInQuery special) (rest.takeWhile (· != '#')))
    | _ => none
  let fragment := match cs.dropWhile (· != '#') with
    | '#' :: rest => some (encodeWith keptInFragment rest)
    | _ => none
  (query, fragment)

/-- A text cut at its separators. -/
def splitSegments (special : Bool) : List Char → List (List Char)
  | [] => [[]]
  | c :: rest =>
    if isSlash special c then [] :: splitSegments special rest
    else (splitSegments special rest).modifyHead (c :: ·)

/-- Whether a segment is one dot, in either spelling. -/
def isDot (segment : String) : Bool :=
  [".", "%2e"].contains (String.ofList (segment.toList.map Char.toLower))

/-- Whether a segment is two dots, in any spelling. -/
def isDots (segment : String) : Bool :=
  ["..", "%2e%2e", ".%2e", "%2e."].contains (String.ofList (segment.toList.map Char.toLower))

/-- Follows segments from a place: a dot stays, two dots go back, and at the end of the path
both leave an empty segment. -/
def walk : (place : List String) → List (List Char) → List String
  | place, [] => place
  | place, cs :: rest =>
    let segment := String.ofList (Text.percentEncode keptInPath cs)
    if isDots segment then walk (place.dropLast ++ if rest.isEmpty then [""] else []) rest
    else if isDot segment then walk (place ++ if rest.isEmpty then [""] else []) rest
    else walk (place ++ [segment]) rest

/-- The URL with the path, the query and the fragment of a text. The path starts in a place,
and a leading slash of the text is not part of its segments. -/
def withRest (u : Url) (place : List String) (cs : List Char) : Url :=
  let path := cs.takeWhile fun c => !endsPath c
  let (query, fragment) := splitTail u.isSpecial (cs.dropWhile fun c => !endsPath c)
  let all := walk place (splitSegments u.isSpecial path)
  let all := if u.scheme = "file" then
      match all.dropWhile String.isEmpty with
      | [] => [""]
      | rest => rest
    else all
  { u with path := .segments all, query := query, fragment := fragment }

/-- The URL with what follows its authority. -/
def afterAuthority (u : Url) (cs : List Char) : Url :=
  match cs with
  | c :: rest =>
    if isSlash u.isSpecial c then withRest u [] rest
    else if u.isSpecial then withRest u [] cs
    else
      let (query, fragment) := splitTail false cs
      { u with query := query, fragment := fragment }
  | [] => if u.isSpecial then { u with path := .segments [""] } else u

/-- The name and the password before a host. -/
def splitUser (cs : List Char) : String × String :=
  let encode (cs : List Char) : String := String.ofList (Text.percentEncode keptInUser cs)
  (encode (cs.takeWhile (· != ':')), encode ((cs.dropWhile (· != ':')).drop 1))

/-- The text before the last sign of a place, if there is one, and the text after it. -/
def splitAtLast (cs : List Char) : Option (List Char) × List Char :=
  if cs.contains '@' then
    let host := (cs.reverse.takeWhile (· != '@')).reverse
    (some (cs.take (cs.length - host.length - 1)), host)
  else (none, cs)

/-- The host at the front of an authority, and what follows it. A colon in brackets is part
of the host. -/
def splitHost : (inside : Bool) → List Char → List Char × List Char
  | _, [] => ([], [])
  | inside, c :: rest =>
    if c = ':' ∧ inside = false then ([], c :: rest)
    else
      let inside := if c = '[' then true else if c = ']' then false else inside
      let (host, after) := splitHost inside rest
      (c :: host, after)

/-- The number after the host, which may be left empty. That of the scheme is not kept. -/
def portNumber? (scheme : String) (cs : List Char) : Except Fault (Option Nat) :=
  if !cs.all Char.isDigit || 65535 < Text.natOfDigits cs then .error .portNumber
  else if cs.isEmpty || some (Text.natOfDigits cs) = defaultPort? scheme then .ok none
  else .ok (some (Text.natOfDigits cs))

/-- The URL of a scheme from what follows its slashes. -/
def ofAuthority (scheme : String) (cs : List Char) : Except Fault Url := do
  let special := isSpecialScheme scheme
  let ends (c : Char) : Bool := isSlash special c || endsPath c
  let (user, place) := splitAtLast (cs.takeWhile fun c => !ends c)
  let rest := cs.dropWhile fun c => !ends c
  let (username, password) := splitUser (user.getD [])
  let (hostText, portText) := splitHost false place
  if hostText.isEmpty && (special || user.isSome || !portText.isEmpty) then throw .emptyHost
  let host ← parseHost special (String.ofList hostText)
  let number ← portNumber? scheme (portText.drop 1)
  return afterAuthority
    { scheme := scheme, username := username, password := password, host := some host,
      portNumber := number, path := .segments [] } rest

/-- The URL of a file from what follows its scheme. -/
def ofFile (cs : List Char) : Except Fault Url := do
  let start : Url := { scheme := "file", host := some "", path := .segments [] }
  match cs with
  | a :: b :: rest =>
    if isSlash true a && isSlash true b then
      let ends (c : Char) : Bool := isSlash true c || endsPath c
      let hostText := rest.takeWhile fun c => !ends c
      let host ← if hostText.isEmpty then pure "" else parseHost true (String.ofList hostText)
      return afterAuthority { start with host := some (if host = "localhost" then "" else host) }
        (rest.dropWhile fun c => !ends c)
    else return afterAuthority start cs
  | cs => return afterAuthority start cs

/-- The URL of a scheme from what follows it. -/
def ofScheme (scheme : String) (cs : List Char) : Except Fault Url :=
  if scheme = "file" then ofFile cs
  else if isSpecialScheme scheme then ofAuthority scheme (cs.dropWhile (isSlash true))
  else
    match cs with
    | '/' :: '/' :: rest => ofAuthority scheme rest
    | '/' :: rest => .ok (withRest { scheme := scheme, path := .segments [] } [] rest)
    | _ =>
      let (query, fragment) := splitTail false (cs.dropWhile fun c => !endsPath c)
      .ok
        { scheme := scheme
          path := .opaquePath (String.ofList
            (Text.percentEncode isPlain (cs.takeWhile fun c => !endsPath c)))
          query := query
          fragment := fragment }

/-- The URL of a text in relation to a base of a special scheme. -/
def relative (base : Url) (cs : List Char) : Except Fault Url := do
  let all := match base.path with
    | .segments all => all
    | .opaquePath _ => []
  match cs with
  | [] => return { base with fragment := none }
  | c :: rest =>
    if c = '#' then return { base with fragment := (splitTail true cs).2 }
    else if c = '?' then
      let (query, fragment) := splitTail true cs
      return { base with query := query, fragment := fragment }
    else if isSlash true c then
      if rest.head?.any (isSlash true) then
        ofAuthority base.scheme (rest.dropWhile (isSlash true))
      else return withRest base [] rest
    else return withRest base all.dropLast cs

/-- The URL of a text. -/
def parse (text : String) : Except Fault Url :=
  match splitScheme? (essential text) with
  | some (scheme, rest) => ofScheme scheme rest
  | none => .error .noScheme

/-- The URL of a text in relation to a base. -/
def resolve (base : Url) (text : String) : Except Fault Url :=
  match splitScheme? (essential text) with
  | some (scheme, rest) =>
    if scheme = base.scheme ∧ base.isSpecial ∧ (rest.takeWhile (isSlash true)).length < 2 then
      relative base rest
    else ofScheme scheme rest
  | none =>
    if !base.isHierarchical then .error .opaqueBase else relative base (essential text)

end ProjectHub.Url
