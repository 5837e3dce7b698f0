import ProjectHub.Proofs.Hub.Likeness

/-!
# What answers tell of secrets

Of the values in its vault a hub uses one for each project, the URL of its database, and
gives one to an edge when it is told to, sealed anew. No answer depends on the others.
-/

namespace ProjectHub.Hub.Session

open Sqlite (View)

theorem shows_whole (place : Sqlite.Place) : View.whole.Shows place := by
  cases place with
  | memory => trivial
  | file path => exact ⟨trivial, trivial⟩

theorem covers_whole (opening : Sqlite.Opening) : View.whole.Covers opening :=
  ⟨fun _ _ => trivial, fun _ => trivial⟩

theorem grows_empty (fs : FileSystem) : FileSystem.Grows .empty fs := by
  intro path hpath
  rw [NameMap.get?_empty] at hpath
  cases hpath

/-- A session over stores in memory that puts records into a folder. -/
def folderSession : Session where
  hub := ofStores { host := ⟨.empty, .empty⟩ } .emptyMemory ⟨.emptyMemory, Vault.zeroKey⟩ {}
    (some ⟨folderSink "kv", 10000⟩)

/-- A token beside the URL of a database, given to an edge. -/
def tokenCalls (value : String) : List Call :=
  [.setSecret Vault.zeroNonce .epoch ⟨"shop", "token", ⟨value⟩⟩,
    .setSecret Vault.zeroNonce .epoch ⟨"shop", "database_url", ⟨"sqlite:x"⟩⟩,
    .provisionSecret Vault.zeroNonce "shop" "token" (List.replicate 32 0),
    .planSchema .epoch ⟨"shop", .ofList [("main", "table a")]⟩, .listSecrets ⟨"shop"⟩]

end ProjectHub.Hub.Session
