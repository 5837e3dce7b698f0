import ProjectHub.Sqlite.JsonText.Basic

/-!
# Paths into JSON texts

A path leads from a JSON text to a part of it, by the names of members and the
places of elements. What a path leads to can be replaced, added where it is
missing, or taken out.
-/

namespace ProjectHub.Sqlite.JsonText

/-- A step of a path. -/
inductive Step where
  /-- The member of a name. -/
  | member (name : String)
  /-- The element at a place, counted from the front. -/
  | element (place : Nat)
  /-- The element at a place, counted from the end. -/
  | fromEnd (place : Nat)
  /-- What is no step; where a place is meant, this shows only in a list. -/
  | broken (isPlace : Bool)

/-- The step at the front of a place in brackets, with the text after it. -/
def place (cs : List Char) : Step × List Char :=
  let (isFromEnd, digits) : Bool × List Char := match cs with
    | '#' :: '-' :: rest => (true, rest.takeWhile Char.isDigit)
    | cs => (false, cs.takeWhile Char.isDigit)
  let n := Text.natOfDigits digits
  match cs.drop (digits.length + if isFromEnd then 2 else 0) with
  | ']' :: after =>
    if digits.isEmpty then (.broken true, [])
    else (if isFromEnd then .fromEnd n else .element n, after)
  | ['#', ']'] => (.fromEnd 0, [])
  | '#' :: ']' :: after => if digits.isEmpty then (.fromEnd 0, after) else (.broken true, [])
  | _ => (.broken true, [])

/-- The steps of a path after its first character, as far as they can be read; `steps` bounds
them. -/
def stepsOf : Nat → List Char → List Step
  | _, [] => []
  | 0, _ => [.broken false]
  | steps + 1, '.' :: '"' :: rest =>
    let name := rest.takeWhile fun c => c != '"'
    if name.length < rest.length then
      .member (String.ofList name) :: stepsOf steps (rest.drop (name.length + 1))
    else [.broken false]
  | steps + 1, '.' :: rest =>
    let name := rest.takeWhile fun c => c != '.' && c != '['
    if name.isEmpty then [.broken false]
    else .member (String.ofList name) :: stepsOf steps (rest.drop name.length)
  | steps + 1, '[' :: rest =>
    let (step, after) := place rest
    step :: stepsOf steps after
  | _, _ => [.broken false]

/-- The steps of a path. -/
def path? (text : String) : Option (List Step) :=
  match Value.beforeNul text with
  | '$' :: rest => some (stepsOf (rest.length + 1) rest)
  | _ => none

/-- The steps that the right side of an arrow stands for: a place, a path, or a name, which
cannot be empty. -/
def arrowPath? (v : Value) : Option (List Step) :=
  match v with
  | .null => none
  | .integer n => some (stepsOf 1 ('[' :: (toString n).toList ++ [']']))
  | v =>
    let cs := Value.beforeNul (v.text?.getD "")
    match cs with
    | [] => some [.broken false]
    | '$' :: rest => some (stepsOf (rest.length + 1) rest)
    | c :: rest =>
      if c = '[' && 2 ≤ rest.length && rest.getLast? == some ']' then
        some (stepsOf (cs.length + 1) cs)
      else some [.member (String.ofList cs)]

/-- The place in a list that a step means. -/
def Step.place? (items : List JsonText) : Step → Option Nat
  | .element place => some place
  | .fromEnd place => if place ≤ items.length then some (items.length - place) else none
  | _ => none

/-- Whether a step fails on a text. -/
def Step.fails (j : JsonText) : Step → Bool
  | .broken isPlace =>
    !isPlace || match j with
      | .array _ => true
      | _ => false
  | _ => false

/-- The part that a step leads to. -/
def step? (j : JsonText) : Step → Option JsonText
  | .member name => j.member? name
  | s =>
    match j with
    | .array items => (s.place? items).bind fun place => items[place]?
    | _ => none

/-- The part that steps lead to, if there is one; it fails at a step that fails. -/
def follow? : List Step → JsonText → Option (Option JsonText)
  | [], j => some (some j)
  | s :: rest, j =>
    if s.fails j then none
    else
      match step? j s with
      | some part => follow? rest part
      | none => some none

/-- What setting a part does. -/
inductive Setting where
  /-- A part that is there is replaced; one that is not is added. -/
  | set
  /-- Only a part that is not there is added. -/
  | insert
  /-- Only a part that is there is replaced. -/
  | replace
  deriving DecidableEq

/-- The text in which steps from nothing lead to a part. -/
def around? (part : JsonText) : List Step → Option JsonText
  | [] => some part
  | .member name :: rest => (around? part rest).map fun j => .object [(name, j)]
  | .element 0 :: rest | .fromEnd 0 :: rest => (around? part rest).map fun j => .array [j]
  | _ => none

/-- A JSON text with the part that steps lead to set. -/
def setPart? (setting : Setting) (part : JsonText) : List Step → JsonText → Option JsonText
  | [], j => some (if setting = .insert then j else part)
  | s :: rest, j =>
    if s.fails j then none
    else
      match s, j with
      | .member name, .object members =>
        match (JsonText.object members).member? name with
        | some old => do
          return .object (setMember name (← setPart? setting part rest old) members)
        | none =>
          match setting, around? part rest with
          | .replace, _ | _, none => some (.object members)
          | _, some added => some (.object (members ++ [(name, added)]))
      | s, .array items =>
        match s.place? items with
        | none => some (.array items)
        | some place =>
          match items[place]? with
          | some old => do return .array (items.set place (← setPart? setting part rest old))
          | none =>
            match setting, around? part rest with
            | .replace, _ | _, none => some (.array items)
            | _, some added =>
              some (.array (if place = items.length then items ++ [added] else items))
      | _, j => some j

/-- A JSON text without the part that steps lead to; nothing is left without the whole. It fails
at a step that fails. -/
def removePart? : List Step → JsonText → Option (Option JsonText)
  | [], _ => some none
  | s :: rest, j =>
    if s.fails j then none
    else
      match s, j with
      | .member name, .object members =>
        match (JsonText.object members).member? name with
        | none => some (some (.object members))
        | some old => do
          match ← removePart? rest old with
          | some left => return some (.object (setMember name left members))
          | none => return some (.object (dropMember name members))
      | s, .array items =>
        match s.place? items with
        | none => some (some (.array items))
        | some place =>
          match items[place]? with
          | none => some (some (.array items))
          | some old => do
            match ← removePart? rest old with
            | some left => return some (.array (items.set place left))
            | none => return some (.array (items.eraseIdx place))
      | _, j => some (some j)

/-- A JSON text changed by another: members that are there are changed or, by null, taken out,
and all others come in its place. `steps` bounds how deep both go. -/
def merge : Nat → JsonText → JsonText → JsonText
  | 0, _, patch => patch
  | steps + 1, target, .object changes =>
    let members : List (String × JsonText) := match target with
      | .object members => members
      | _ => []
    .object (changes.foldl (fun members (name, change) =>
      match change with
      | .plain "null" => dropMember name members
      | change =>
        let old := ((JsonText.object members).member? name).getD null
        setMember name (merge steps old change) members) members)
  | _ + 1, _, patch => patch

end ProjectHub.Sqlite.JsonText
