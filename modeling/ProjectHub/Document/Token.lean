import ProjectHub.Text.Printable

/-!
# Tokens of schema documents

What a schema document is made of once blanks and comments are gone, each
token with the line it starts on.
-/

namespace ProjectHub.Document

/-- A token of a schema document. -/
inductive Token where
  /-- A bare word. -/
  | ident (name : String)
  /-- Quoted text, its escapes resolved. -/
  | text (value : String)
  /-- A number as written. -/
  | number (digits : String)
  | openBrace
  | closeBrace
  | openBracket
  | closeBracket
  | openParen
  | closeParen
  | equals
  | comma
  deriving DecidableEq, Inhabited

namespace Token

/-- The name messages use for a token. -/
def describe : Token → String
  | ident name => "Ident(" ++ Text.quoted name ++ ")"
  | text value => "Str(" ++ Text.quoted value ++ ")"
  | number digits => "Number(" ++ Text.quoted digits ++ ")"
  | openBrace => "LBrace"
  | closeBrace => "RBrace"
  | openBracket => "LBracket"
  | closeBracket => "RBracket"
  | openParen => "LParen"
  | closeParen => "RParen"
  | equals => "Equals"
  | comma => "Comma"

/-- The token of a punctuation mark. -/
def ofMark? : Char → Option Token
  | '\x7b' => some openBrace
  | '\x7d' => some closeBrace
  | '[' => some openBracket
  | ']' => some closeBracket
  | '(' => some openParen
  | ')' => some closeParen
  | '=' => some equals
  | ',' => some comma
  | _ => none

end Token

/-- A token and the line it starts on. -/
structure Placed where
  /-- The token. -/
  token : Token
  /-- The line, counted from one. -/
  line : Nat
  deriving DecidableEq, Inhabited

end ProjectHub.Document
