import ProjectHub.Sql.Quote
import ProjectHub.Text.Blank
import ProjectHub.Text.Letter
import ProjectHub.Text.Numeral

/-!
# Constant defaults

A column can be added to a table that has rows only when its default is a
constant: a truth value, NULL, quoted text, a blob, or a number. The text of a
default is judged as written, without evaluating it.
-/

namespace ProjectHub.Sql

/-- One quoted text and nothing else. -/
def isQuoted (cs : List Char) : Bool :=
  (unquoteText? cs).isSome

/-- The text of a default that is a constant. One sign may stand before a number, which
may carry a sign of its own. -/
def isConstant (default : String) : Bool :=
  let trimmed := Text.trimChars default.toList
  let isWord (word : String) := Text.sameAscii (String.ofList trimmed) word
  isWord "TRUE" || isWord "FALSE" || isWord "NULL" || isQuoted trimmed ||
    match trimmed with
    | 'x' :: blob => isQuoted blob
    | 'X' :: blob => isQuoted blob
    | _ => Text.isDecimal (Text.dropSign (Text.dropSign trimmed))

end ProjectHub.Sql
