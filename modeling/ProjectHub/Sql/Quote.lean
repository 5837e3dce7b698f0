/-!
# Quotes that are doubled inside

SQL writes names between double quotes and text between single ones, and in
both a quote inside is written twice. `enclose` writes such a token and
`unenclose` reads one from the front of a text: it stops at the first quote
that is not doubled, so nothing inside can end the token early.
-/

namespace ProjectHub.Sql

/-- The characters with each quote written twice. -/
def double (quote : Char) (cs : List Char) : List Char :=
  cs.flatMap fun c => if c = quote then [quote, quote] else [c]

/-- The characters between quotes. -/
def enclose (quote : Char) (cs : List Char) : List Char :=
  quote :: double quote cs ++ [quote]

/-- What stands before the first quote that is not doubled, with the text after that
quote. -/
def undouble (quote : Char) : List Char → Option (List Char × List Char)
  | [] => none
  | c :: rest =>
    if c = quote then
      match rest with
      | d :: more =>
        if d = quote then (undouble quote more).map fun (inner, after) => (quote :: inner, after)
        else some ([], rest)
      | [] => some ([], [])
    else
      (undouble quote rest).map fun (inner, after) => (c :: inner, after)

/-- A quoted token at the front of a text, with the text after it. -/
def unenclose (quote : Char) : List Char → Option (List Char × List Char)
  | [] => none
  | c :: rest => if c = quote then undouble quote rest else none

/-- A name between double quotes. -/
def quoteName (name : String) : String :=
  String.ofList (enclose '"' name.toList)

/-- Text between single quotes. -/
def quoteText (text : String) : String :=
  String.ofList (enclose '\'' text.toList)

/-- The text of a literal that is one quoted token and nothing else. -/
def unquoteText? (cs : List Char) : Option (List Char) :=
  match unenclose '\'' cs with
  | some (inner, []) => some inner
  | _ => none

/-- Quoted names, separated by a comma and a space. -/
def nameList (names : List String) : String :=
  ", ".intercalate (names.map quoteName)

end ProjectHub.Sql
