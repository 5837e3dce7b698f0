import ProjectHub.Sqlite.Value

/-!
# Patterns

The two kinds of patterns that text is matched with: one where a percent sign
stands for any text and an underscore for any character, without regard to the
case of A to Z, and one where an asterisk, a question mark and sets in brackets
do, with regard to it.
-/

namespace ProjectHub.Sqlite.Pattern

/-- Whether a text matches a pattern of percent signs and underscores. The escape makes the
next character of the pattern stand for itself. -/
def like (escape : Option Char) : List Char → List Char → Bool
  | [], cs => cs.isEmpty
  | p :: pattern, cs =>
    if some p = escape then
      match pattern, cs with
      | q :: rest, c :: more => q.toLower == c.toLower && like escape rest more
      | _, _ => false
    else if p = '%' then
      like escape pattern cs ||
        match cs with
        | _ :: more => like escape (p :: pattern) more
        | [] => false
    else
      match cs with
      | c :: more => (p == '_' || p.toLower == c.toLower) && like escape pattern more
      | [] => false
termination_by pattern cs => (pattern.length, cs.length)

/-- The members of a set up to its closing bracket, and the pattern after it. -/
def setMembers : List Char → Option (List Char × List Char)
  | [] => none
  | ']' :: rest => some ([], rest)
  | c :: rest => (setMembers rest).map fun (members, after) => (c :: members, after)

/-- Whether a character is in a set of characters and ranges. -/
def inSet (c : Char) : List Char → Bool
  | [] => false
  | [a] => a == c
  | [a, b] => a == c || b == c
  | a :: b :: d :: rest =>
    if b = '-' then (a ≤ c && c ≤ d) || inSet c rest else a == c || inSet c (b :: d :: rest)

/-- A set after its opening bracket: whether it is inverted, its members, and the pattern after
it. A closing bracket in the first place is a member. -/
def readSet? (pattern : List Char) : Option (Bool × List Char × List Char) :=
  let (inverted, members) := match pattern with
    | '^' :: rest => (true, rest)
    | rest => (false, rest)
  match members with
  | ']' :: rest => (setMembers rest).map fun (more, after) => (inverted, ']' :: more, after)
  | rest => (setMembers rest).map fun (more, after) => (inverted, more, after)

/-- Whether a text matches a pattern of asterisks, question marks and sets; `steps` bounds the
characters looked at. -/
def glob : Nat → List Char → List Char → Bool
  | 0, _, _ => false
  | _ + 1, [], cs => cs.isEmpty
  | steps + 1, p :: pattern, cs =>
    if p = '*' then
      glob steps pattern cs ||
        match cs with
        | _ :: more => glob steps (p :: pattern) more
        | [] => false
    else
      match cs with
      | [] => false
      | c :: more =>
        if p = '?' then glob steps pattern more
        else if p = '[' then
          match readSet? pattern with
          | some (inverted, members, after) =>
            (inSet c members != inverted) && glob steps after more
          | none => false
        else p == c && glob steps pattern more

/-- Whether a text matches a pattern of asterisks, question marks and sets. -/
def matchesGlob (pattern text : List Char) : Bool :=
  glob (pattern.length + text.length + 1) pattern text

end ProjectHub.Sqlite.Pattern
