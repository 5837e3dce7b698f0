import ProjectHub.Document.Lexer
import ProjectHub.Document.Syntax
import ProjectHub.Realm.Basic
import ProjectHub.Sql.Quote

/-!
# The realm a document describes

Blocks of a document are read as tables, columns, keys and indexes. Blocks and
attributes are taken in source order and the first fault is the answer; when a
`columns` attribute is repeated the first counts, for all other attributes the
last.
-/

namespace ProjectHub

namespace Document

/-- The label of a block that takes exactly one. -/
def Block.label (block : Block) : Except Error String :=
  match block.labels with
  | [label] => .ok label
  | _ => .error ⟨block.line, .labelCount block.kind⟩

/-- Refuses the first attribute whose name is not among those known. -/
def refuseUnknown (known : List String) (fault : String → Fault) (attributes : List Attribute) :
    Except Error Unit :=
  match attributes.find? fun a => !known.contains a.name with
  | some a => .error ⟨a.line, fault a.name⟩
  | none => .ok ()

/-- The text of an argument of a type. -/
def typeArgument (line : Nat) : Value → Except Error String
  | .number digits => .ok digits
  | .ident name => .ok name
  | _ => .error ⟨line, .typeArgument⟩

/-- The type an attribute names: a word, text, or a word with arguments. -/
def typeOfValue (line : Nat) : Value → Except Error String
  | .ident name => .ok (normalizeType name)
  | .text name => .ok (normalizeType name)
  | .call name args => do
    let args ← args.mapM (typeArgument line)
    return normalizeType (name ++ "(" ++ ",".intercalate args ++ ")")
  | _ => .error ⟨line, .notType⟩

/-- The default an attribute gives, as the text of an SQL expression. Text becomes a
literal, and `sql("…")` is taken as it stands. -/
def defaultOfValue (line : Nat) : Value → Except Error String
  | .text value => .ok (Sql.quoteText value)
  | .number digits => .ok digits
  | .bool true => .ok "TRUE"
  | .bool false => .ok "FALSE"
  | .ident name => .ok name
  | .call name args =>
    if name = "sql" then
      match args with
      | [.text expression] => .ok expression
      | _ => .error ⟨line, .sqlArgument⟩
    else .error ⟨line, .unsupportedDefault⟩
  | _ => .error ⟨line, .unsupportedDefault⟩

/-- What the attributes of a column have said so far. -/
structure ColumnFacts where
  /-- The type, once one is given. -/
  type : Option String := none
  /-- Whether NULL is admitted. -/
  nullable : Bool := false
  /-- The default, once one is given. -/
  default : Option String := none

namespace ColumnFacts

/-- Takes in one attribute. -/
def add (facts : ColumnFacts) (a : Attribute) : Except Error ColumnFacts :=
  match a.name with
  | "type" => return { facts with type := some (← typeOfValue a.line a.value) }
  | "null" =>
    match a.value with
    | .bool nullable => .ok { facts with nullable := nullable }
    | _ => .error ⟨a.line, .nullNotTruthValue⟩
  | "default" => return { facts with default := some (← defaultOfValue a.line a.value) }
  | "comment" => .ok facts
  | "auto_increment" => .ok facts
  | other => .error ⟨a.line, .unknownColumnAttribute other⟩

end ColumnFacts

/-- A reference to a column: a word, which may start with `column.`, or text. -/
def columnReference (line : Nat) : Value → Except Error String
  | .ident name =>
    let cs := name.toList
    .ok (if "column.".toList.isPrefixOf cs then String.ofList (cs.drop 7) else name)
  | .text name => .ok name
  | _ => .error ⟨line, .referenceNotName⟩

/-- The columns a key or index block lists. -/
def columnsOfBlock (block : Block) : Except Error (List String) :=
  match block.attributes.find? fun a => a.name = "columns" with
  | none => .error ⟨block.line, .columnsMissing block.kind⟩
  | some a =>
    match a.value with
    | .list [] => .error ⟨a.line, .columnsEmpty⟩
    | .list items => items.mapM (columnReference a.line)
    | _ => .error ⟨a.line, .columnsNotList⟩

/-- Takes in one attribute of an index block, where `unique` is what was said so far. -/
def uniqueOfAttribute (unique : Bool) (a : Attribute) : Except Error Bool :=
  match a.name, a.value with
  | "unique", .bool value => .ok value
  | "columns", _ => .ok unique
  | "comment", _ => .ok unique
  | other, _ => .error ⟨a.line, .invalidIndexAttribute other⟩

end Document

open Document

namespace Column

/-- The column a block declares. -/
def ofBlock (block : Block) : Except Error Column := do
  let name ← block.label
  match block.blocks with
  | inner :: _ => throw ⟨inner.line, .blockInColumn inner.kind name⟩
  | [] =>
    let facts ← block.attributes.foldlM ColumnFacts.add {}
    match facts.type with
    | none => throw ⟨block.line, .noType name⟩
    | some type =>
      return { name := name, sqlType := type, nullable := facts.nullable, default := facts.default }

end Column

namespace Index

/-- The index a block declares. -/
def ofBlock (block : Block) : Except Error Index := do
  let name ← block.label
  let unique ← block.attributes.foldlM uniqueOfAttribute false
  let columns ← columnsOfBlock block
  return { name := name, columns := columns, unique := unique }

end Index

namespace Table

/-- The table with what an inner block declares. -/
def addBlock (t : Table) (block : Block) : Except Error Table := do
  match block.kind with
  | "column" =>
    let column ← Column.ofBlock block
    if t.hasColumn column.name then
      throw ⟨block.line, .duplicateColumn column.name t.name⟩
    return { t with columns := t.columns ++ [column] }
  | "primary_key" =>
    return { t with primaryKey := ← columnsOfBlock block }
  | "index" =>
    let index ← Index.ofBlock block
    if t.indexes.contains index.name then
      throw ⟨block.line, .duplicateIndex index.name⟩
    return { t with indexes := t.indexes.insert index.name index }
  | other => throw ⟨block.line, .unsupportedTableBlock other t.name⟩

/-- The columns that the primary key and the indexes name, in that order. -/
def referencedColumns (t : Table) : List String :=
  t.primaryKey ++ t.indexes.values.flatMap Index.columns

/-- The table a block declares. -/
def ofBlock (block : Block) : Except Error Table := do
  let name ← block.label
  refuseUnknown ["schema", "comment"] .unknownTableAttribute block.attributes
  let table ← block.blocks.foldlM addBlock
    { name := name, columns := [], primaryKey := [], indexes := .empty }
  if table.columns.isEmpty then
    throw ⟨block.line, .noColumns name⟩
  match table.referencedColumns.find? fun column => !table.hasColumn column with
  | some column => throw ⟨block.line, .unknownColumn name column⟩
  | none => return table

end Table

namespace Realm

/-- The realm with what a block of the document declares. -/
def addBlock (r : Realm) (block : Block) : Except Error Realm := do
  match block.kind with
  | "schema" => return r
  | "table" =>
    let table ← Table.ofBlock block
    if r.tables.contains table.name then
      throw ⟨block.line, .duplicateTable table.name⟩
    return ⟨r.tables.insert table.name table⟩
  | other => throw ⟨block.line, .unsupportedBlock other⟩

/-- The realm that the body of a document describes. -/
def ofBody (body : Body) : Except Error Realm :=
  match body.attributes with
  | a :: _ => .error ⟨a.line, .topLevelAttribute a.name⟩
  | [] => body.blocks.foldlM addBlock .empty

/-- The realm that a document describes, or the first fault of the document. -/
def parse (document : String) : Except Error Realm := do
  let ts ← tokens document
  let body ← bodyOfTokens ts
  ofBody body

end Realm

end ProjectHub
