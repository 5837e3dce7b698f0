import ProjectHub.Document.Token

/-!
# Faults of schema documents

Everything a schema document can have wrong, from its characters to the
columns its keys name. An error places a fault on a line.
-/

namespace ProjectHub.Document

/-- What is wrong with a document. -/
inductive Fault where
  | unterminatedComment
  | unterminatedText
  | unknownEscape (c : Char)
  | unexpectedCharacter (c : Char)
  | unclosedBlock
  | incompleteItem (name : String)
  | unexpectedToken (token : Token)
  | expectedValue (found : Option Token)
  | expectedSeparator (close : Token)
  | topLevelAttribute (name : String)
  | unsupportedBlock (kind : String)
  | duplicateTable (table : String)
  | labelCount (kind : String)
  | unknownTableAttribute (name : String)
  | duplicateColumn (column table : String)
  | invalidIndexAttribute (name : String)
  | duplicateIndex (index : String)
  | unsupportedTableBlock (kind table : String)
  | noColumns (table : String)
  | unknownColumn (table column : String)
  | blockInColumn (kind column : String)
  | nullNotTruthValue
  | unknownColumnAttribute (name : String)
  | noType (column : String)
  | columnsMissing (kind : String)
  | columnsNotList
  | columnsEmpty
  | referenceNotName
  | typeArgument
  | notType
  | sqlArgument
  | unsupportedDefault
  deriving DecidableEq

namespace Fault

/-- The wording of a fault. -/
def message : Fault → String
  | unterminatedComment => "unterminated block comment"
  | unterminatedText => "unterminated string"
  | unknownEscape c => "unknown escape sequence '\\" ++ c.toString ++ "'"
  | unexpectedCharacter c => "unexpected character '" ++ c.toString ++ "'"
  | unclosedBlock => "unexpected end of input, expected '\x7d'"
  | incompleteItem name => "expected '=' or '\x7b' after '" ++ name ++ "'"
  | unexpectedToken token => "unexpected token " ++ token.describe
  | expectedValue (some token) => "expected a value, found " ++ token.describe
  | expectedValue none => "expected a value, found end of input"
  | expectedSeparator close => "expected ',' or " ++ close.describe
  | topLevelAttribute name => "unexpected top-level attribute '" ++ name ++ "'"
  | unsupportedBlock kind => "unsupported block '" ++ kind ++ "'"
  | duplicateTable table => "duplicate table '" ++ table ++ "'"
  | labelCount kind => "'" ++ kind ++ "' block requires exactly one label"
  | unknownTableAttribute name => "unknown table attribute '" ++ name ++ "'"
  | duplicateColumn column table =>
    "duplicate column '" ++ column ++ "' in table '" ++ table ++ "'"
  | invalidIndexAttribute name => "invalid index attribute '" ++ name ++ "'"
  | duplicateIndex index => "duplicate index '" ++ index ++ "'"
  | unsupportedTableBlock kind table =>
    "unsupported block '" ++ kind ++ "' in table '" ++ table ++ "'"
  | noColumns table => "table '" ++ table ++ "' has no columns"
  | unknownColumn table column =>
    "table '" ++ table ++ "' references unknown column '" ++ column ++ "'"
  | blockInColumn kind column =>
    "unexpected block '" ++ kind ++ "' in column '" ++ column ++ "'"
  | nullNotTruthValue => "'null' must be true or false"
  | unknownColumnAttribute name => "unknown column attribute '" ++ name ++ "'"
  | noType column => "column '" ++ column ++ "' has no type"
  | columnsMissing kind => "'" ++ kind ++ "' requires 'columns'"
  | columnsNotList => "'columns' must be a list"
  | columnsEmpty => "'columns' must not be empty"
  | referenceNotName => "column references must be identifiers"
  | typeArgument => "type arguments must be numbers"
  | notType => "'type' must be a type name"
  | sqlArgument => "sql() takes one string argument"
  | unsupportedDefault => "unsupported default value"

end Fault

/-- A fault and the line it is on. -/
structure Error where
  /-- The line, counted from one. -/
  line : Nat
  /-- What is wrong there. -/
  fault : Fault
  deriving DecidableEq

namespace Error

/-- The wording of an error. -/
def message (e : Error) : String :=
  "schema parse error at line " ++ toString e.line ++ ": " ++ e.fault.message

end Error

end ProjectHub.Document
