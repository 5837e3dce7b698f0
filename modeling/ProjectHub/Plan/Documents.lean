import ProjectHub.Json.Decode
import ProjectHub.Json.Printer
import ProjectHub.NameMap.Basic

/-!
# Documents of a project

A project's schema is a set of documents, each under an alias. They are stored
as one JSON object, and read as one text when a realm is wanted.
-/

namespace ProjectHub

/-- Schema documents by alias. -/
abbrev Documents := NameMap String

namespace Documents

/-- All documents in the order of their aliases, each ended by a newline. -/
def combine (documents : Documents) : String :=
  String.join (documents.values.map (· ++ "\n"))

/-- The documents as a JSON value. -/
def toJson (documents : Documents) : Json :=
  .object (documents.entries.map fun (name, text) => (name, .text text))

/-- Documents from JSON. -/
def decoder : Json.Decoder Documents :=
  .nameMap .text

end Documents

end ProjectHub
