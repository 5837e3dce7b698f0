/-!
# JSON values

A number is an integer between `-2^63` and `2^64 - 1`, or a double, kept as its
bits. The members of an object are in ascending order of their names, each name
once, so equal objects are equal values.
-/

namespace ProjectHub

/-- A JSON number. -/
inductive Json.Number where
  /-- An integer. -/
  | int (value : Int)
  /-- A finite double, by its bits. -/
  | float (bits : UInt64)
  deriving DecidableEq, Inhabited

/-- A JSON value. -/
inductive Json where
  | null
  | bool (value : Bool)
  | number (value : Json.Number)
  | text (value : String)
  | array (items : List Json)
  | object (members : List (String × Json))
  deriving Inhabited

namespace Json

/-- The members with one set, in the order of the names. -/
def insertMember (name : String) (value : Json) : List (String × Json) → List (String × Json)
  | [] => [(name, value)]
  | m :: rest =>
    if name < m.1 then (name, value) :: m :: rest
    else if m.1 < name then m :: insertMember name value rest
    else (name, value) :: rest

/-- The object of a list of members; of two with one name the later counts. -/
def ofMembers (members : List (String × Json)) : Json :=
  .object (members.foldl (fun all m => insertMember m.1 m.2 all) [])

/-- The integer `n`. -/
def ofInt (n : Int) : Json := .number (.int n)

/-- The natural number `n`. -/
def ofNat (n : Nat) : Json := .number (.int n)

/-- The list of texts. -/
def ofTexts (texts : List String) : Json := .array (texts.map .text)

/-- The value, or null where there is none. -/
def ofOption {α : Type u} (f : α → Json) : Option α → Json
  | some a => f a
  | none => .null

/-- The member of a name. -/
def member? (name : String) : Json → Option Json
  | .object members => (members.find? fun m => m.1 = name).map Prod.snd
  | _ => none

end Json

end ProjectHub
