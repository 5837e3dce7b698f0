import Mathlib
import ProjectHub.Proofs.Plan.Likeness

/-!
# Plain URLs

A URL that is a path and no more, without parameters and without characters that stand
for others, names the database in the file of that path. It is connected to if the names
of the path can be looked up and the file is there or can be made.
-/

namespace ProjectHub.Plan

open Sqlite (Host Location Opening)

/-- The characters of a URL behind its scheme. -/
def afterScheme (url : String) : List Char :=
  let cs := Sqlite.dropRepeated "sqlite://".toList url.toList.length url.toList
  Sqlite.dropRepeated "sqlite:".toList cs.length cs

/-- How the database in the file of a path is opened. -/
def openingAt (path : String) : Opening := ⟨path, false, true, true, false⟩

/-- Whether a URL is a scheme and a path that stands for itself. -/
def IsPlain (url path : String) : Prop :=
  "sqlite:".toList.isPrefixOf url.toList = true ∧ Text.trim url = url ∧
    afterScheme url = path.toList ∧ (path.toList.takeWhile fun c => c != '?') = path.toList ∧
    Text.ofUtf8? (Text.percentDecode (Text.toUtf8 path)) = some path ∧
    Opening.ofLocation { path := path } = .ok (openingAt path) ∧
    (openingAt path).isTransient = false

instance (url path : String) : Decidable (IsPlain url path) :=
  inferInstanceAs (Decidable (_ ∧ _))

/-- Plain URLs, with the names of their paths. -/
structure Plain (url path : String) (parts : List String) : Prop where
  isPlain : IsPlain url path
  parts : path.splitOn "/" = parts

theorem queryPairs_empty : Text.queryPairs "" = [] := by
  cbv

namespace Plain

variable {url path : String} {parts : List String} (h : Plain url path parts)
include h

theorem scheme : "sqlite:".toList.isPrefixOf url.toList = true := h.isPlain.1

theorem trim : Text.trim url = url := h.isPlain.2.1

theorem ofUrl? : Opening.ofUrl? url = some (openingAt path) := by
  obtain ⟨-, -, hrest, hquery, hdecoded, hopening, hlasting⟩ := h.isPlain
  have hmemory : path ≠ ":memory:" := by
    rintro rfl
    cases hlasting
  have hempty : (path.toList.dropWhile fun c => c != '?') = [] := by
    have happend := List.takeWhile_append_dropWhile (p := fun c => c != '?') (l := path.toList)
    rw [hquery] at happend
    exact List.append_right_eq_self.mp happend
  simp only [afterScheme] at hrest
  have hlocation : Location.ofUrl url = .ok { path := path } := by
    simp only [Location.ofUrl, hrest, hquery, String.ofList_toList, hempty, hdecoded,
      if_neg hmemory, List.drop_nil, String.ofList_nil, queryPairs_empty]
    rfl
  simp only [Opening.ofUrl?, hlocation, Except.toOption, Option.bind_some, hopening]

theorem file : (openingAt path).file = FileSystem.pathOf (FileSystem.endOf [] parts) := by
  rw [← h.parts]
  rfl

theorem open? (host : Host) : host.open? (openingAt path) =
    (Host.names? host.files [] parts).bind fun names =>
      (host.withFile? names true).map fun next =>
        (⟨.file (FileSystem.pathOf names), true, false⟩, next) := by
  have hlasting := h.isPlain.2.2.2.2.2.2
  have hparts : (openingAt path).path.splitOn "/" = parts := h.parts
  simp only [Host.open?, hlasting, Bool.false_eq_true, if_false, hparts, bind, pure,
    Option.map_eq_bind]
  rfl

theorem connect {host next : Host} {names : List String}
    (hnames : Host.names? host.files [] parts = some names)
    (hfile : host.withFile? names true = some next) :
    sqliteEngine.connect (Text.trim url) host =
      .ready (clientOn ⟨.file (FileSystem.pathOf names), true, false⟩) next := by
  rw [h.trim, connect_of_ofUrl? h.scheme h.ofUrl?, h.open?, hnames, Option.bind_some, hfile]
  rfl

theorem refused {host : Host}
    (hrefused : ((Host.names? host.files [] parts).bind fun names => host.withFile? names true) =
      none) :
    sqliteEngine.connect (Text.trim url) host = .failed (.connect Sqlite.refusal) := by
  rw [h.trim, connect_of_ofUrl? h.scheme h.ofUrl?, h.open?]
  cases hnames : Host.names? host.files [] parts with
  | none => rfl
  | some names =>
      rw [hnames, Option.bind_some] at hrefused
      rw [Option.bind_some, hrefused]
      rfl

end Plain

end ProjectHub.Plan
