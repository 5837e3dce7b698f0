import ProjectHub.Json.Number
import ProjectHub.NameMap.Basic

/-!
# Reading values from JSON

A reader takes the syntax of a JSON text and the number of levels that may
still be entered; a text may nest objects and lists to a depth of 127. A record
is an object whose known members come in any order, each at most once, or a
list of its fields in the order of their declaration.
-/

namespace ProjectHub.Json

/-- The greatest depth of nested objects and lists. -/
def maxDepth : Nat := 127

/-- The text of UTF-16 units and characters, unless a surrogate stands alone. -/
def textOfUnits? : List TextUnit → Option (List Char)
  | [] => some []
  | .char c :: rest => (textOfUnits? rest).map (c :: ·)
  | .code high :: rest =>
    if high < 0xD800 ∨ 0xDFFF < high then
      (textOfUnits? rest).map (Char.ofNat high :: ·)
    else if 0xDC00 ≤ high then none
    else
      match rest with
      | .code low :: more =>
        if 0xDC00 ≤ low ∧ low ≤ 0xDFFF then
          (textOfUnits? more).map
            (Char.ofNat (0x10000 + 1024 * (high - 0xD800) + (low - 0xDC00)) :: ·)
        else none
      | _ => none

/-- A reader of values of a type. -/
abbrev Decoder (α : Type) := Nat → Source → Option α

namespace Decoder

variable {α β : Type}

/-- Text without unpaired surrogates. -/
def text : Decoder String
  | _, .text units => (textOfUnits? units).map String.ofList
  | _, _ => none

/-- A truth value. -/
def bool : Decoder Bool
  | _, .bool value => some value
  | _, _ => none

/-- An integer from zero to `2 ^ 64 - 1`, written without fraction and exponent. -/
def word : Decoder Nat
  | _, .number numeral =>
    match numeral.value? with
    | some (.int value) => if 0 ≤ value then some value.toNat else none
    | _ => none
  | _, _ => none

/-- Nothing where the value is null. -/
def optional (decode : Decoder α) : Decoder (Option α)
  | _, .null => some none
  | depth, source => (decode depth source).map some

/-- A value whose reader may refuse what it read. -/
def andThen (decode : Decoder α) (f : α → Option β) : Decoder β :=
  fun depth source => (decode depth source).bind f

/-- A list of values. -/
def list (decode : Decoder α) : Decoder (List α)
  | depth + 1, .array items => items.mapM (decode depth)
  | _, _ => none

/-- A map from names; of two members with one name the later counts. -/
def nameMap (decode : Decoder α) : Decoder (NameMap α)
  | depth + 1, .object members => do
    let entries ← members.mapM fun (units, source) => do
      return (String.ofList (← textOfUnits? units), ← decode depth source)
    return .ofList entries
  | _, _ => none

/-- One of a set of words, alone or as the name of a member that is null. -/
def word? (find : String → Option α) : Decoder α
  | _, .text units => (textOfUnits? units).bind fun cs => find (String.ofList cs)
  | _ + 1, .object [(units, .null)] => (textOfUnits? units).bind fun cs => find (String.ofList cs)
  | _, _ => none

end Decoder

/-- The fields of a record as found: each known field with its value, if it is there. -/
abbrev Fields := List (Option Source)

/-- The first member of each known name. Fails when a known name comes twice. Members of
other names are passed over. -/
def collectFields (names : List String) (members : List (List TextUnit × Source)) :
    Option Fields := do
  let named ← members.mapM fun (units, source) => do
    return (String.ofList (← textOfUnits? units), source)
  names.mapM fun name =>
    match named.filter fun m => m.1 = name with
    | [] => some none
    | [m] => some (some m.2)
    | _ => none

/-- The fields of a record of the given names, with the depth left inside. A list gives
them in order and may end early, but not have more. -/
def fieldsOf (names : List String) : Decoder (Nat × Fields)
  | depth + 1, .object members => do
    return (depth, ← collectFields names members)
  | depth + 1, .array items =>
    if items.length ≤ names.length then
      some (depth, items.map some ++ List.replicate (names.length - items.length) none)
    else none
  | _, _ => none

/-- A field that must be there. -/
def required {α : Type} (decode : Decoder α) (depth : Nat) (field : Option Source) : Option α :=
  field.bind (decode depth)

/-- A field with a value to take when it is absent. -/
def withDefault {α : Type} (decode : Decoder α) (default : α) (depth : Nat)
    (field : Option Source) : Option α :=
  match field with
  | some source => decode depth source
  | none => some default

mutual

/-- The value of a JSON text, if its numbers are in range, its surrogates paired, and its
nesting within the depth that is left. -/
def Source.value? : Nat → Source → Option Json
  | _, .null => some .null
  | _, .bool value => some (.bool value)
  | _, .number numeral => numeral.value?.map .number
  | _, .text units => (textOfUnits? units).map fun cs => .text (String.ofList cs)
  | depth, .array items =>
    match depth with
    | 0 => none
    | depth + 1 => (valuesOf? depth items).map .array
  | depth, .object members =>
    match depth with
    | 0 => none
    | depth + 1 => (membersOf? depth members).map ofMembers

/-- The values of items. -/
def valuesOf? (depth : Nat) : List Source → Option (List Json)
  | [] => some []
  | item :: rest => do
    let value ← item.value? depth
    return value :: (← valuesOf? depth rest)

/-- The values of members. -/
def membersOf? (depth : Nat) : List (List TextUnit × Source) → Option (List (String × Json))
  | [] => some []
  | (units, source) :: rest => do
    let name ← textOfUnits? units
    let value ← source.value? depth
    return (String.ofList name, value) :: (← membersOf? depth rest)

end

/-- A value of any kind. -/
def Decoder.any : Decoder Json := fun depth source => source.value? depth

/-- An object, as its members. -/
def Decoder.members : Decoder (List (String × Json))
  | depth, .object members =>
    match (Source.object members).value? depth with
    | some (.object all) => some all
    | _ => none
  | _, _ => none

/-- Reads a whole text. -/
def decode? {α : Type} (decoder : Decoder α) (text : String) : Option α :=
  (Source.parse? text).bind (decoder maxDepth)

/-- The value of a whole text. -/
def parse? (text : String) : Option Json :=
  decode? Decoder.any text

end ProjectHub.Json
