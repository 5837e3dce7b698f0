/-!
# TOML tables

A TOML document defines a tree of tables, one line after another. A table comes
into being by its header, by a longer header that passes through it, by a dotted
key, or as a value in braces, and where it came from decides what may still be
added to it: nothing is defined twice, and a table is complete where its own
definition ends.
-/

namespace ProjectHub

/-- How a table came to be. -/
inductive Toml.Origin where
  /-- As a value in braces. -/
  | braces
  /-- By its own header. -/
  | header
  /-- By a header that passes through it. -/
  | passed
  /-- By a dotted key. -/
  | dotted
  deriving DecidableEq

/-- A TOML value. Numbers with a fraction and times keep their spelling. -/
inductive Toml where
  | text (value : String)
  | integer (value : Int)
  | float (spelling : String)
  | bool (value : Bool)
  | time (spelling : String)
  | array (items : List Toml)
  | table (origin : Toml.Origin) (members : List (String × Toml))
  /-- An array of tables with a header for each. -/
  | tables (rows : List (List (String × Toml)))
  deriving Inhabited

namespace Toml

/-- The members of a table. -/
abbrev Members := List (String × Toml)

/-- The value of a name. -/
def member? (name : String) (members : Members) : Option Toml :=
  (members.find? fun m => m.1 = name).map Prod.snd

/-- The members with the value of a name replaced, or added at the end. -/
def withMember (name : String) (value : Toml) : Members → Members
  | [] => [(name, value)]
  | m :: rest =>
    if m.1 = name then (name, value) :: rest else m :: withMember name value rest

/-- Adds a member of a new name. -/
def add? (name : String) (value : Toml) (members : Members) : Option Members :=
  if (member? name members).isSome then none else some (members ++ [(name, value)])

/-- The array of tables with its last row changed. -/
def changeLast? (f : Members → Option Members) (rows : List Members) : Option (List Members) :=
  match rows.getLast? with
  | some row => (f row).map fun row => rows.dropLast ++ [row]
  | none => none

/-- Defines a dotted key. The tables on its path are made as needed; the last of them must
come from dotted keys only, those before it from no header of their own. -/
def assign? : (path : List String) → (key : String) → (value : Toml) → Members → Option Members
  | [], key, value, members => add? key value members
  | [step], key, value, members =>
    match member? step members with
    | none => some (withMember step (.table .dotted [(key, value)]) members)
    | some (.table .dotted inner) =>
      (add? key value inner).map fun inner => withMember step (.table .dotted inner) members
    | _ => none
  | step :: next :: path, key, value, members =>
    match member? step members with
    | none =>
      (assign? (next :: path) key value []).map fun inner =>
        withMember step (.table .dotted inner) members
    | some (.table origin inner) =>
      if origin = .dotted ∨ origin = .passed then
        (assign? (next :: path) key value inner).map fun inner =>
          withMember step (.table origin inner) members
      else none
    | some (.tables rows) =>
      (changeLast? (assign? (next :: path) key value) rows).map fun rows =>
        withMember step (.tables rows) members
    | _ => none

/-- Changes the members of the table that a header's path leads to, through the last row of
an array of tables. The tables on the path are made as needed. -/
def within? (f : Members → Option Members) : (path : List String) → Members → Option Members
  | [], members => f members
  | step :: path, members =>
    match member? step members with
    | none =>
      (within? f path []).map fun inner => withMember step (.table .passed inner) members
    | some (.table origin inner) =>
      if origin = .braces then none
      else (within? f path inner).map fun inner => withMember step (.table origin inner) members
    | some (.tables rows) =>
      (changeLast? (within? f path) rows).map fun rows => withMember step (.tables rows) members
    | _ => none

/-- Opens a table by its header, which no table has yet and no dotted key made. -/
def openTable? (path : List String) (key : String) : Members → Option Members :=
  within? (fun members =>
    match member? key members with
    | none => some (withMember key (.table .header []) members)
    | some (.table .passed inner) => some (withMember key (.table .header inner) members)
    | _ => none) path

/-- Opens the next row of an array of tables. -/
def openRow? (path : List String) (key : String) : Members → Option Members :=
  within? (fun members =>
    match member? key members with
    | none => some (withMember key (.tables [[]]) members)
    | some (.tables rows) => some (withMember key (.tables (rows ++ [[]])) members)
    | _ => none) path

/-- The table in braces of keys and their values. -/
def ofPairs? (pairs : List (List String × String × Toml)) : Option Toml :=
  (pairs.foldlM (fun members (path, key, value) => assign? path key value members) []).map
    (.table .braces)

end Toml

end ProjectHub

/-!
## Reading values from TOML

A record is a table, of which members without a reader are passed over, or an
array of its fields in the order of their declaration, of which items past the
last are passed over.
-/

namespace ProjectHub.Toml

/-- A reader of values of a type. -/
abbrev Decoder (α : Type) := Toml → Option α

namespace Decoder

/-- Text. -/
def text : Decoder String
  | .text value => some value
  | _ => none

/-- A truth value. -/
def bool : Decoder Bool
  | .bool value => some value
  | _ => none

/-- An integer that is not negative. -/
def natural : Decoder Nat
  | .integer value => if 0 ≤ value then some value.toNat else none
  | _ => none

end Decoder

/-- The fields of a record of the given names. A time is a record without known fields. -/
def fieldsOf (names : List String) : Decoder (List (Option Toml))
  | .table _ members => some (names.map fun name => member? name members)
  | .time _ => some (names.map fun _ => none)
  | .array items =>
    some ((items.take names.length).map some ++ List.replicate (names.length - items.length) none)
  | .tables rows =>
    some ((rows.take names.length).map (fun row => some (.table .header row)) ++
      List.replicate (names.length - rows.length) none)
  | _ => none

/-- A field that may be left out. -/
def optional {α : Type} (decode : Decoder α) : Option Toml → Option (Option α)
  | some value => (decode value).map some
  | none => some none

end ProjectHub.Toml
