import ProjectHub.NameMap.Lemmas
import ProjectHub.Storage.Error

/-!
# Stores of sealed secrets

A store keeps one record for each project and key. One kind keeps the records
themselves, the other keeps them as rows of text, as a database does: there a
timestamp is text, and is read only when the record is.
-/

namespace ProjectHub.Vault

/-- A stored secret. -/
structure Record where
  project : String
  key : String
  /-- The sealed value. -/
  sealed : String
  /-- When the value was stored. -/
  updatedAt : Instant
  deriving DecidableEq

/-- A stored secret as a database keeps it, under its project and key. -/
structure Row where
  /-- The sealed value. -/
  sealed : String
  /-- When the value was stored, as a timestamp. -/
  updatedAt : String
  deriving DecidableEq

/-- A store of sealed secrets. -/
inductive Store where
  /-- Records by project and key. -/
  | memory (records : NameMap (NameMap Record))
  /-- Rows by project and key. -/
  | database (rows : NameMap (NameMap Row))

namespace Store

/-- The memory store without records. -/
def emptyMemory : Store := .memory .empty

/-- The database store without rows. -/
def emptyDatabase : Store := .database .empty

/-- The store with a record in place of any before under its project and key. -/
def put (record : Record) : Store → Store
  | memory records => memory (records.insertAt record.project record.key record)
  | database rows =>
    database (rows.insertAt record.project record.key ⟨record.sealed, record.updatedAt.toRfc3339⟩)

/-- The record under a project and key. -/
def get (project key : String) : Store → Except Storage.Error (Option Record)
  | memory records => .ok (records.getAt? project key)
  | database rows =>
    match rows.getAt? project key with
    | none => .ok none
    | some row => do
      let updatedAt ← Storage.readTimestamp "updated_at" row.updatedAt
      return some ⟨project, key, row.sealed, updatedAt⟩

/-- Whether there is a record under a project and key. -/
def contains (project key : String) : Store → Bool
  | memory records => (records.getAt? project key).isSome
  | database rows => (rows.getAt? project key).isSome

/-- The store without a record under a project and key. -/
def erase (project key : String) : Store → Store
  | memory records => memory (records.eraseAt project key)
  | database rows => database (rows.eraseAt project key)

/-- The keys of a project, ascending. -/
def keys (project : String) : Store → List String
  | memory records => (records.under project).keys
  | database rows => (rows.under project).keys

/-- The database store with a row written as it stands; a memory store has no rows. -/
def putRow (project key : String) (row : Row) : Store → Store
  | memory records => memory records
  | database rows => database (rows.insertAt project key row)

end Store

end ProjectHub.Vault
