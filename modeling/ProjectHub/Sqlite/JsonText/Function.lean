import ProjectHub.Json.Decode
import ProjectHub.Sqlite.JsonText.Binary
import ProjectHub.Sqlite.JsonText.Path

/-!
# Functions of JSON texts

What the functions and operators give that make, read and change JSON texts. An
argument that such a function gave counts as JSON, any other text as text. What
is JSON is given as text by most functions, and as bytes by some.
-/

namespace ProjectHub.Sqlite.JsonText

/-- The functions that give JSON as text. -/
def makers : List String :=
  ["json", "json_array", "json_insert", "json_object", "json_patch", "json_quote", "json_remove",
   "json_replace", "json_set"]

/-- What a function gives: a value, or JSON in either form. -/
inductive Outcome where
  | value (v : Value)
  | json (j : JsonText)

namespace Outcome

/-- The outcome as a value, JSON as text. -/
def narrow : Outcome → Value
  | value v => v
  | json j => .text j.render

/-- The outcome as a value, JSON as bytes. -/
def binary : Outcome → Value
  | value v => v
  | json j => .blob j.toBytes

/-- The outcome of a part: text, a number, or the JSON of a list or an object. -/
def ofPart : JsonText → Outcome
  | .plain "null" => value .null
  | .plain "true" => value (.integer 1)
  | .plain "false" => value (.integer 0)
  | .plain spelling => value ((Value.ofNumericText? spelling).getD (.text spelling))
  | .text s => value (.text s)
  | j => json j

/-- The outcome of what there may be. -/
def ofOption (shown : JsonText → Outcome) (j : Option JsonText) : Outcome :=
  (j.map shown).getD (value .null)

end Outcome

/-- The JSON that a value spells, or holds as bytes. -/
def ofSpelling? (v : Value) : Option JsonText :=
  match v with
  | .blob bytes =>
    if looksBinary bytes then ofBytes? bytes else parse? (Text.ofUtf8Lossy bytes)
  | v => v.text?.bind parse?

/-- A value as JSON; a blob is one only if it holds JSON as bytes. -/
def ofValue? (isJson : Bool) : Value → Option JsonText
  | .null => some null
  | .integer n => some (.plain (toString n))
  | .real d => some (.plain (if d.isInfinite then
      (if d.isNegative then "-9e999" else "9e999") else Value.doubleText d))
  | .text s => if isJson then some ((parse? s).getD (.text s)) else some (.text s)
  | .blob bytes => if looksBinary bytes then ofBytes? bytes else none

/-- The word for the type of a part. -/
def typeWord : JsonText → String
  | .plain "null" => "null"
  | .plain "true" => "true"
  | .plain "false" => "false"
  | .plain spelling => if isWhole spelling then "integer" else "real"
  | .text _ => "text"
  | .array _ => "array"
  | .object _ => "object"

/-- The part of a JSON text that an arrow names, shown in a way; NULL where there is none. It
fails on what is no JSON and no path. -/
def arrow? (shown : JsonText → Outcome) (left right : Value) : Option Value :=
  if left == .null then some .null
  else do
    let j ← ofSpelling? left
    match arrowPath? right with
    | none => return .null
    | some steps => return (Outcome.ofOption shown (← follow? steps j)).narrow

/-- The parts of a JSON text at paths, unless one of those is NULL. -/
def parts? (j : JsonText) : List Value → Option (Option (List JsonText))
  | [] => some (some [])
  | path :: rest =>
    match path.text? with
    | none => some none
    | some path => do
      let part := (← follow? (← path? path) j).getD null
      return (← parts? j rest).map fun more => part :: more

/-- The parts of a JSON text at several paths: one as a value, more as a list. -/
def extract? (j : JsonText) (paths : List Value) : Option Outcome :=
  match paths with
  | [] => some (.value .null)
  | [path] =>
    match path.text? with
    | none => some (.value .null)
    | some path => do return .ofOption .ofPart (← follow? (← path? path) j)
  | paths => do return .ofOption .json ((← parts? j paths).map .array)

/-- Names and values in turn, as the members of an object. -/
def members? : List (Value × Bool) → Option (List (String × JsonText))
  | [] => some []
  | (.text name, _) :: (v, isJson) :: rest => do
    return (name, ← ofValue? isJson v) :: (← members? rest)
  | _ => none

/-- The part of a first argument at the path of a second one; the whole without a second. -/
def part? (args : List Value) : Option (Option JsonText) :=
  match args with
  | [v] => (ofSpelling? v).map some
  | v :: path :: _ => do
    let j ← ofSpelling? v
    match path.text? with
    | none => return none
    | some path => follow? (← path? path) j
  | [] => none

/-- A JSON text with parts set, given by paths and values in turn. -/
def setAll? (setting : Setting) : List (Value × Bool) → JsonText → Option JsonText
  | [], j => some j
  | (path, _) :: (v, isJson) :: rest, j => do
    match path.text? with
    | none => setAll? setting rest j
    | some path =>
      setAll? setting rest (← setPart? setting (← ofValue? isJson v) (← path? path) j)
  | _, _ => none

/-- A JSON text without the parts at paths; NULL once nothing is left. -/
def removeAll? : List Value → JsonText → Option Outcome
  | [], j => some (.json j)
  | path :: rest, j => do
    match path.text? with
    | none => return .value .null
    | some path =>
      match ← removePart? (← path? path) j with
      | some left => removeAll? rest left
      | none => return .value .null

/-- Whether a value is JSON in one of the forms that flags ask for: the narrow one, the wider
one, or bytes. -/
def isValid (flags : Int) (v : Value) : Bool :=
  let asks (bit : Int) : Bool := flags / bit % 2 = 1
  let isText (s : String) : Bool :=
    (asks 1 && (Json.parse? s).isSome) || (asks 2 && (parse? s).isSome)
  match v with
  | .blob bytes =>
    if looksBinary bytes then asks 4 || (asks 8 && (ofBytes? bytes).isSome)
    else isText (Text.ofUtf8Lossy bytes)
  | v => isText (v.text?.getD "")

/-- Whether a value is valid JSON. Flags are numbers of four bits, one of them set. -/
def valid? (flags : Int) (v : Value) : Option Value :=
  if flags < 1 ∨ 15 < flags then none
  else some (if v == .null then .null else .ofBool (isValid flags v))

/-- What the functions give that set parts of JSON texts. -/
def setting? : String → Option Setting
  | "json_set" => some .set
  | "json_insert" => some .insert
  | "json_replace" => some .replace
  | _ => none

/-- What a function gives for arguments, each with whether it counts as JSON. -/
def outcome? (function : String) (args : List (Value × Bool)) : Option Outcome :=
  let values := args.map Prod.fst
  match setting? function, function, args with
  | some setting, _, (v, _) :: rest =>
    if rest.length % 2 = 1 then none
    else if v == .null then some (.value .null)
    else do return .json (← setAll? setting rest (← ofSpelling? v))
  | some _, _, [] => some (.value .null)
  | _, "json_array", args => do
    return .json (.array (← args.mapM fun (v, isJson) => ofValue? isJson v))
  | _, "json_object", args => do return .json (.object (← members? args))
  | _, "json_quote", [(v, isJson)] => do return .json (← ofValue? isJson v)
  | _, "json_valid", [(v, _)] => (valid? 1 v).map .value
  | _, "json_valid", [(v, _), (flags, _)] => (valid? flags.toInt v).map .value
  | _, _, (.null, _) :: _ => some (.value .null)
  | _, "json", [(v, _)] => do return .json (← ofSpelling? v)
  | _, "json_error_position", [(v, _)] =>
    some (.value (.integer (if (ofSpelling? v).isSome then 0 else 1)))
  | _, "json_pretty", (v, _) :: indent => do
    let indent := (indent.head?.bind fun (v, _) => v.text?).getD "    "
    return .value (.text ((← ofSpelling? v).pretty indent 0))
  | _, "json_patch", [(v, _), (patch, _)] => do
    let j ← ofSpelling? v
    if patch == .null then return .value .null
    else return .json (merge 1000 j (← ofSpelling? patch))
  | _, "json_extract", [_] => some (.value .null)
  | _, "json_extract", (v, _) :: _ => do extract? (← ofSpelling? v) (values.drop 1)
  | _, "json_remove", (v, _) :: _ => do removeAll? (values.drop 1) (← ofSpelling? v)
  | _, "json_type", _ => do
    return .ofOption (fun j => .value (.text (typeWord j))) (← part? values)
  | _, "json_array_length", _ => do
    return .ofOption (fun
      | .array items => .value (.integer items.length)
      | _ => .value (.integer 0)) (← part? values)
  | _, _, _ => none

/-- What a function of JSON texts gives for arguments, each with whether it counts as JSON. A
function that gives bytes is named as the one that gives text, with one more letter. -/
def call? (function : String) (args : List (Value × Bool)) : Option Value :=
  if "jsonb".toList.isPrefixOf function.toList then
    (outcome? ("json" ++ String.ofList (function.toList.drop 5)) args).map Outcome.binary
  else (outcome? function args).map Outcome.narrow

end ProjectHub.Sqlite.JsonText
