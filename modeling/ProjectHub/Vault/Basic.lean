import ProjectHub.Secret
import ProjectHub.Text.Printable
import ProjectHub.Text.Utf8
import ProjectHub.Vault.Sealing
import ProjectHub.Vault.Store

/-!
# The vault

Secrets of projects, sealed under one master key. A value goes in and comes out
as text; the store only ever sees sealed text. Nonces and the time are given by
the caller, so an operation is a function of what it is given.
-/

namespace ProjectHub

/-- A store of secrets and the key they are sealed under. -/
structure Vault where
  /-- The store. -/
  store : Vault.Store
  /-- The key that seals every value. -/
  masterKey : Vault.SealKey

namespace Vault

/-- A vault over a store, if the master key has the right length. -/
def ofKeyBytes (store : Store) (masterKey : List UInt8) : Except Error Vault := do
  return ⟨store, ← SealKey.ofBytes masterKey⟩

/-- What is shown of a vault. -/
def shown (_ : Vault) : String :=
  "VaultService \x7b master_key: " ++ Text.quoted Secret.redacted ++ ", .. \x7d"

/-- Refuses an empty project or key, the project first. -/
def checkNames (project key : String) : Except Error Unit :=
  if project.isEmpty then .error .emptyProject
  else if key.isEmpty then .error .emptyKey
  else .ok ()

/-- Seals a value and stores it in place of any before. -/
def set (v : Vault) (nonce : Nonce) (now : Instant) (project key value : String) :
    Except Error Vault := do
  checkNames project key
  return { v with
    store := v.store.put ⟨project, key, sealText v.masterKey nonce (Text.toUtf8 value), now⟩ }

/-- The value of a secret. -/
def get (v : Vault) (project key : String) : Except Error Secret := do
  checkNames project key
  match ← (v.store.get project key).mapError .store with
  | none => throw (.notFound project key)
  | some record =>
    let plain ← openText v.masterKey record.sealed
    match Text.ofUtf8? plain with
    | some value => return ⟨value⟩
    | none => throw (.unreadable .notText)

/-- Removes a secret; it need not be there. -/
def delete (v : Vault) (project key : String) : Except Error Vault := do
  checkNames project key
  return { v with store := v.store.erase project key }

/-- The keys of a project, ascending. -/
def list (v : Vault) (project : String) : Except Error (List String) :=
  if project.isEmpty then .error .emptyProject else .ok (v.store.keys project)

/-- The value of a secret, sealed anew under the key of an edge. -/
def reencrypt (v : Vault) (nonce : Nonce) (project key : String) (edgeKey : List UInt8) :
    Except Error String := do
  let edgeKey ← SealKey.ofBytes edgeKey
  let value ← v.get project key
  return sealText edgeKey nonce (Text.toUtf8 value.expose)

end Vault

end ProjectHub
