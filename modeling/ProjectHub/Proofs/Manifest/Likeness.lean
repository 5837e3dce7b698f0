import ProjectHub.Manifest.Registry
import ProjectHub.Proofs.NameMap
import ProjectHub.Proofs.Run

/-!
# Registries that agree on projects

What a registry finds for a project are manifests of that project, so stores that have
the same of it give the same answers. A push for another project leaves them; all it
shares with the others are the identifiers of rows.
-/

namespace ProjectHub

namespace Manifest.Store

/-- Stores of one kind that have the same manifests of some projects, in the same order. -/
def AgreeOn (mine : String → Prop) : Store → Store → Prop
  | memory a, memory b => ∀ project, mine project → history a project = history b project
  | database a, database b => ∀ project, mine project →
    (a.filter fun row => row.project = project) = b.filter fun row => row.project = project
  | _, _ => False

/-- Whether the identifier is that of a row. -/
def hasId (id : String) : Store → Bool
  | memory _ => false
  | database rows => rows.any fun row => row.id = id

variable {mine : String → Prop}

theorem AgreeOn.refl : (store : Store) → store.AgreeOn mine store
  | memory _ => fun _ _ => rfl
  | database _ => fun _ _ => rfl

theorem AgreeOn.symm {a b : Store} (h : a.AgreeOn mine b) : b.AgreeOn mine a := by
  cases a <;> cases b
  · exact fun project hproject => (h project hproject).symm
  · exact h
  · exact h
  · exact fun project hproject => (h project hproject).symm

theorem AgreeOn.trans {a b c : Store} (h : a.AgreeOn mine b) (h' : b.AgreeOn mine c) :
    a.AgreeOn mine c := by
  cases a <;> cases b <;> cases c <;> first | exact h.elim | exact h'.elim | skip
  · exact fun project hproject => (h project hproject).trans (h' project hproject)
  · exact fun project hproject => (h project hproject).trans (h' project hproject)

theorem history_insert (histories : NameMap (List Manifest)) (project : String)
    (manifests : List Manifest) (other : String) :
    history (histories.insert project manifests) other =
      if project = other then manifests else history histories other := by
  rw [history, NameMap.get?_insert]
  split <;> rfl

theorem lastRow_eq (project : String) (p : Row → Bool) (rows : List Row) :
    lastRow project p rows =
      match (rows.filter fun row => row.project = project).reverse.find? p with
      | some row => row.read.map some
      | none => .ok none := by
  have hfind : (rows.filter fun row => row.project = project).reverse.find? p =
      rows.reverse.find? fun row => row.project = project && p row := by
    rw [← List.filter_reverse, List.find?_filter]
    congr 1
    funext row
    rw [Bool.decide_and, Bool.decide_eq_true, Bool.decide_eq_true]
  rw [hfind]
  rfl

section Own

variable {a b : Store} (h : a.AgreeOn mine b) {project : String} (hmine : mine project)
include h hmine

theorem AgreeOn.latest : a.latest project = b.latest project := by
  cases a <;> cases b
  · rw [Store.latest, Store.latest, h project hmine]
  · exact h.elim
  · exact h.elim
  · rw [Store.latest, Store.latest, lastRow_eq, lastRow_eq, h project hmine]

theorem AgreeOn.byVersion (version : String) :
    a.byVersion project version = b.byVersion project version := by
  cases a <;> cases b
  · rw [Store.byVersion, Store.byVersion, h project hmine]
  · exact h.elim
  · exact h.elim
  · rw [Store.byVersion, Store.byVersion, lastRow_eq, lastRow_eq, h project hmine]

theorem AgreeOn.versions : a.versions project = b.versions project := by
  cases a <;> cases b
  · rw [Store.versions, Store.versions, h project hmine]
  · exact h.elim
  · exact h.elim
  · rw [Store.versions, Store.versions, h project hmine]

end Own

theorem AgreeOn.append {a b : Store} (h : a.AgreeOn mine b) {m : Manifest}
    (hmine : mine m.project) (hid : a.hasId m.id = b.hasId m.id) :
    Matches (AgreeOn mine) (a.append m) (b.append m) := by
  cases a <;> cases b
  · refine .ok fun project hproject => ?_
    rw [history_insert, history_insert, h project hproject, h m.project hmine]
  · exact h.elim
  · exact h.elim
  · simp only [hasId] at hid
    simp only [Store.append, hid]
    split
    · exact .error _
    · refine .ok fun project hproject => ?_
      rw [List.filter_append, List.filter_append, h project hproject]

/-- Stores that have the same of every project have the same identifiers. -/
theorem AgreeOn.hasId_eq {a b : Store} (h : a.AgreeOn (fun _ => True) b) (id : String) :
    a.hasId id = b.hasId id := by
  have hrow {rows rows' : List Row}
      (h : ∀ project, True → (rows.filter fun row => row.project = project) =
        rows'.filter fun row => row.project = project)
      (hid : (database rows).hasId id = true) : (database rows').hasId id = true := by
    obtain ⟨row, hmem, hid⟩ := List.any_eq_true.mp hid
    have hfound : row ∈ rows.filter fun other => other.project = row.project :=
      List.mem_filter.mpr ⟨hmem, decide_eq_true rfl⟩
    rw [h row.project trivial] at hfound
    exact List.any_eq_true.mpr ⟨row, (List.mem_filter.mp hfound).1, hid⟩
  cases a <;> cases b
  · rfl
  · exact h.elim
  · exact h.elim
  · exact Bool.eq_iff_iff.mpr ⟨hrow h, hrow fun project hproject => (h project hproject).symm⟩

section Other

variable {a next : Store} {m : Manifest} (h : a.append m = .ok next)
include h

/-- A manifest of another project is appended to none of these. -/
theorem agreeOn_append (hother : ¬ mine m.project) : a.AgreeOn mine next := by
  have hne {project : String} (hproject : mine project) : m.project ≠ project :=
    fun heq => hother (heq ▸ hproject)
  cases a with
  | memory histories =>
      cases h
      intro project hproject
      rw [history_insert, if_neg (hne hproject)]
  | database rows =>
      simp only [append] at h
      split at h
      · cases h
      · cases h
        intro project hproject
        have hrow : (Row.ofManifest m).project ≠ project := hne hproject
        rw [List.filter_append, List.filter_singleton, decide_eq_false hrow]
        simp

theorem hasId_append {id : String} (hid : id ≠ m.id) : next.hasId id = a.hasId id := by
  cases a with
  | memory histories =>
      cases h
      rfl
  | database rows =>
      simp only [append] at h
      split at h
      · cases h
      · cases h
        have hrow : (Row.ofManifest m).id ≠ id := hid.symm
        simp [hasId, hrow]

end Other

end Manifest.Store

namespace Registry

open Manifest (Store)

variable {mine : String → Prop} {project : String}

section Own

variable {a b : Store} (h : a.AgreeOn mine b) (hmine : mine project)
include h hmine

theorem latest_alike : latest a project = latest b project := by
  rw [latest, latest, h.latest hmine]

theorem byVersion_alike (version : String) :
    byVersion a project version = byVersion b project version := by
  rw [byVersion, byVersion, h.byVersion hmine]

/-- A push is answered alike by registries that agree on its project, unless its identifier is
known to only one of them. -/
theorem push_alike {id : String} (hid : a.hasId id = b.hasId id) (now : Instant)
    (bundles : List Bundle) (createdBy : String) :
    Matches (fun pushed pushed' => pushed.1.AgreeOn mine pushed'.1 ∧ pushed.2 = pushed'.2)
      (push a id now project bundles createdBy) (push b id now project bundles createdBy) := by
  simp only [push, bind, Except.bind]
  cases checkPush project bundles with
  | error error => exact .error error
  | ok u =>
      have hmade := h.append (m := manifestOf id now project bundles createdBy) hmine hid
      simp only
      generalize a.append (manifestOf id now project bundles createdBy) = made at hmade
      generalize b.append (manifestOf id now project bundles createdBy) = made' at hmade
      cases hmade with
      | error error => exact .error _
      | ok hmade => exact .ok ⟨hmade, rfl⟩

end Own

theorem append_of_push {a next : Store} {id : String} {now : Instant} {bundles : List Bundle}
    {createdBy : String} {manifest : Manifest}
    (h : push a id now project bundles createdBy = .ok (next, manifest)) :
    a.append (manifestOf id now project bundles createdBy) = .ok next := by
  obtain ⟨_, -, h⟩ := exists_of_bind_ok h
  obtain ⟨store, hstore, h⟩ := exists_of_bind_ok h
  cases h
  cases happend : a.append (manifestOf id now project bundles createdBy) with
  | error error => simp [happend, Except.mapError] at hstore
  | ok made =>
      simp only [happend, Except.mapError, Except.ok.injEq] at hstore
      rw [hstore]

end Registry

end ProjectHub
