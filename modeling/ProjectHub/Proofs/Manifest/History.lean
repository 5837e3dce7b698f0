import ProjectHub.Manifest.Registry
import ProjectHub.Proofs.Manifest.Bundle
import ProjectHub.Proofs.Run
import ProjectHub.Proofs.Time.Timestamp

/-!
# The history of a registry

Over either kind of store a registry is one list of manifests: an admitted push
appends its manifest, a refused one nothing. What a project finds is the part of
the list that is its own, whatever the clocks and the other projects.
-/

namespace ProjectHub

namespace Manifest

def ofProject (project : String) (manifests : List Manifest) : List Manifest :=
  manifests.filter fun m => m.project = project

theorem read_ofManifest {m : Manifest} (hbundles : ∀ b ∈ m.bundles, b.Storable)
    (htime : m.createdAt.Showable) : (Row.ofManifest m).read = .ok m := by
  have htime : Storage.readTimestamp "created_at" m.createdAt.toRfc3339 = .ok m.createdAt := by
    rw [Storage.readTimestamp, htime.parse_toRfc3339]
    rfl
  rw [Row.read, Row.ofManifest, Bundle.decode?_renderList hbundles]
  simp only [htime]
  rfl

namespace Store

/-- Whether a store can keep a time: rows hold timestamps with four digits for the year. -/
def Keeps (store : Store) (now : Instant) : Prop :=
  match store with
  | memory _ => True
  | database _ => now.Showable

/-- A store of the manifests of all projects, in the order they were appended. -/
def Holds (store : Store) (manifests : List Manifest) : Prop :=
  match store with
  | memory histories => ∀ project, history histories project = ofProject project manifests
  | database rows => rows = manifests.map Row.ofManifest

theorem holds_emptyMemory : emptyMemory.Holds [] :=
  fun _ => rfl

theorem holds_emptyDatabase : emptyDatabase.Holds [] :=
  rfl

section Holding

variable {store : Store} {manifests : List Manifest} (h : store.Holds manifests)
include h

theorem append_of_holds {m : Manifest} (hid : m.id ∉ manifests.map Manifest.id) :
    ∃ next, store.append m = .ok next ∧ next.Holds (manifests ++ [m]) := by
  cases store with
  | memory histories =>
      refine ⟨_, rfl, fun project => ?_⟩
      rw [ofProject, List.filter_append, ← ofProject, ← h project]
      by_cases hproject : m.project = project
      · subst hproject
        simp [history, NameMap.get?_insert_self]
      · simp [history, NameMap.get?_insert_of_ne _ _ hproject, hproject]
  | database rows =>
      have hfresh : (rows.any fun row => row.id = m.id) = false := by
        rw [List.any_eq_false]
        rintro row hrow hsame
        rw [show rows = _ from h] at hrow
        obtain ⟨other, hother, rfl⟩ := List.mem_map.mp hrow
        exact hid (List.mem_map.mpr ⟨other, hother, of_decide_eq_true hsame⟩)
      refine ⟨database (rows ++ [Row.ofManifest m]), ?_, ?_⟩
      · rw [append, hfresh]
        rfl
      · show rows ++ [Row.ofManifest m] = _
        rw [show rows = _ from h, List.map_append, List.map_singleton]

theorem versions_of_holds (project : String) :
    store.versions project = (ofProject project manifests).map Manifest.version := by
  cases store with
  | memory histories => rw [versions, h project]
  | database rows =>
      rw [versions, show rows = _ from h, List.filter_map, List.map_map]
      rfl

end Holding

section Rows

variable {project : String} {manifests : List Manifest} {p : Row → Bool}

/-- The last row of a project that passes a test is that of its last manifest that does. -/
theorem find?_rows (project : String) (manifests : List Manifest) (p : Row → Bool) :
    ((manifests.map Row.ofManifest).reverse.find? fun row => row.project = project && p row) =
      ((ofProject project manifests).reverse.find? fun m => p (Row.ofManifest m)).map
        Row.ofManifest := by
  rw [← List.map_reverse, List.find?_map, ofProject, ← List.filter_reverse, List.find?_filter]
  congr 2
  funext m
  rw [Bool.decide_and, Bool.decide_eq_true, Bool.decide_eq_true]
  rfl

theorem lastRow_of_find? {m : Manifest}
    (hfind : ((ofProject project manifests).reverse.find? fun m => p (Row.ofManifest m)) = some m)
    (hbundles : ∀ b ∈ m.bundles, b.Storable) (htime : m.createdAt.Showable) :
    lastRow project p (manifests.map Row.ofManifest) = .ok (some m) := by
  rw [lastRow, find?_rows, hfind, Option.map_some]
  simp only [read_ofManifest hbundles htime]
  rfl

theorem lastRow_eq_none_iff :
    lastRow project p (manifests.map Row.ofManifest) = .ok none ↔
      ((ofProject project manifests).reverse.find? fun m => p (Row.ofManifest m)) = none := by
  rw [lastRow, find?_rows]
  cases (ofProject project manifests).reverse.find? fun m => p (Row.ofManifest m) with
  | none => exact ⟨fun _ => rfl, fun _ => rfl⟩
  | some m =>
      simp only [Option.map_some, reduceCtorEq, iff_false]
      cases (Row.ofManifest m).read <;> intro heq <;> cases heq

end Rows

section Finding

variable {store : Store} {manifests : List Manifest} (h : store.Holds manifests)
  {project version : String} {m : Manifest}
include h

theorem latest_of_holds (hlast : (ofProject project manifests).getLast? = some m)
    (hbundles : ∀ b ∈ m.bundles, b.Storable) (htime : store.Keeps m.createdAt) :
    store.latest project = .ok (some m) := by
  cases store with
  | memory histories => rw [latest, h project, hlast]
  | database rows =>
      rw [latest, show rows = _ from h]
      refine lastRow_of_find? ?_ hbundles htime
      rw [← hlast, List.getLast?_eq_head?_reverse]
      cases (ofProject project manifests).reverse <;> rfl

theorem latest_eq_none_iff_of_holds :
    store.latest project = .ok none ↔ ofProject project manifests = [] := by
  cases store with
  | memory histories => rw [latest, h project, Except.ok.injEq, List.getLast?_eq_none_iff]
  | database rows =>
      rw [latest, show rows = _ from h, lastRow_eq_none_iff]
      simp [List.eq_nil_iff_forall_not_mem]

theorem byVersion_of_holds
    (hfind : ((ofProject project manifests).reverse.find? fun m => m.version = version) = some m)
    (hbundles : ∀ b ∈ m.bundles, b.Storable) (htime : store.Keeps m.createdAt) :
    store.byVersion project version = .ok (some m) := by
  cases store with
  | memory histories => rw [byVersion, h project, hfind]
  | database rows =>
      rw [byVersion, show rows = _ from h]
      exact lastRow_of_find? hfind hbundles htime

theorem byVersion_eq_none_iff_of_holds :
    store.byVersion project version = .ok none ↔
      ∀ m ∈ ofProject project manifests, m.version ≠ version := by
  have hnone : ((ofProject project manifests).reverse.find? fun m => m.version = version) = none ↔
      ∀ m ∈ ofProject project manifests, m.version ≠ version := by
    simp
  rw [← hnone]
  cases store with
  | memory histories => rw [byVersion, h project, Except.ok.injEq]
  | database rows =>
      rw [byVersion, show rows = _ from h]
      exact lastRow_eq_none_iff

end Finding

end Store

end Manifest

namespace Registry

/-! ## Admission -/

theorem checkBundles_eq_ok_iff {seen : List (String × String)} {bundles : List Bundle} :
    checkBundles seen bundles = .ok () ↔ (∀ b ∈ bundles, b.space ≠ "" ∧ b.name ≠ "") ∧
      (bundles.map fun b => (b.space, b.name)).Nodup ∧
        ∀ b ∈ bundles, (b.space, b.name) ∉ seen := by
  induction bundles generalizing seen with
  | nil => simp [checkBundles]
  | cons b bundles ih =>
      rw [checkBundles]
      split
      · rename_i hnameless
        have hname : ¬ (b.space ≠ "" ∧ b.name ≠ "") := by
          simpa [Classical.or_iff_not_imp_left] using hnameless
        simp only [reduceCtorEq, List.forall_mem_cons, false_iff]
        exact fun hall => hname hall.1.1
      · rename_i hnamed
        have hname : b.space ≠ "" ∧ b.name ≠ "" := by simpa using hnamed
        split
        · rename_i hseen
          simp only [reduceCtorEq, List.forall_mem_cons, false_iff]
          exact fun hall => hall.2.2.1 (List.contains_iff_mem.mp hseen)
        · rename_i hnew
          have hnew : (b.space, b.name) ∉ seen := fun hseen => hnew (List.contains_iff_mem.mpr hseen)
          rw [ih, List.forall_mem_cons, List.forall_mem_cons, List.map_cons, List.nodup_cons,
            List.mem_map]
          constructor
          · rintro ⟨hnames, hdistinct, hothers⟩
            refine ⟨⟨hname, hnames⟩, ⟨?_, hdistinct⟩, hnew, fun other hother hseen =>
              hothers other hother (List.mem_cons_of_mem _ hseen)⟩
            rintro ⟨other, hother, hsame⟩
            exact hothers other hother (hsame ▸ List.mem_cons_self)
          · rintro ⟨⟨-, hnames⟩, ⟨hfirst, hdistinct⟩, -, hothers⟩
            refine ⟨hnames, hdistinct, fun other hother hseen => ?_⟩
            rcases List.mem_cons.mp hseen with hsame | hseen
            · exact hfirst ⟨other, hother, hsame⟩
            · exact hothers other hother hseen

theorem checkPush_eq_ok_iff {project : String} {bundles : List Bundle} :
    checkPush project bundles = .ok () ↔ Text.isBlankText project = false ∧
      (∀ b ∈ bundles, b.space ≠ "" ∧ b.name ≠ "") ∧
        (bundles.map fun b => (b.space, b.name)).Nodup := by
  rw [checkPush]
  by_cases hblank : Text.isBlankText project = true
  · simp [hblank]
  · rw [if_neg hblank, checkBundles_eq_ok_iff]
    simp [hblank]

/-- A push that succeeds was admitted, and answers with its manifest. -/
theorem admitted_of_push {store next : Manifest.Store} {id : String} {now : Instant}
    {project : String} {bundles : List Bundle} {createdBy : String} {m : Manifest}
    (h : push store id now project bundles createdBy = .ok (next, m)) :
    checkPush project bundles = .ok () ∧ m = manifestOf id now project bundles createdBy := by
  obtain ⟨_, hcheck, h⟩ := exists_of_bind_ok h
  obtain ⟨_, _, h⟩ := exists_of_bind_ok h
  cases h
  exact ⟨hcheck, rfl⟩

/-- A push as it reaches a registry, with the identifier it draws and the time it is made. -/
structure Push where
  id : String
  now : Instant
  project : String
  bundles : List Bundle
  createdBy : String

namespace Push

def manifest (p : Push) : Manifest :=
  manifestOf p.id p.now p.project p.bundles p.createdBy

/-- Whether a push is one to refuse: for a blank project, a bundle without a namespace or a name,
or two bundles that share both. -/
def IsRefused (p : Push) : Prop :=
  Text.isBlankText p.project = true ∨ (∃ b ∈ p.bundles, b.space = "" ∨ b.name = "") ∨
    ¬ (p.bundles.map fun b => (b.space, b.name)).Nodup

/-- The store after a push, and its answer. A push that fails leaves the store as it was. -/
def run (store : Manifest.Store) (p : Push) : Manifest.Store × Except Error Manifest :=
  match push store p.id p.now p.project p.bundles p.createdBy with
  | .ok (next, m) => (next, .ok m)
  | .error error => (store, .error error)

/-- The store after pushes in their order, and their answers. -/
def runAll (store : Manifest.Store) (pushes : List Push) :
    Manifest.Store × List (Except Error Manifest) :=
  ProjectHub.runAll run store pushes

/-- The right answer of a push. -/
inductive Answered (p : Push) : Except Error Manifest → Prop where
  | refused (h : p.IsRefused) {error : Error} (hkind : error.kind = .invalidInput) :
    Answered p (.error error)
  | admitted (h : ¬ p.IsRefused) : Answered p (.ok p.manifest)

theorem checkPush_eq_ok_iff (p : Push) : checkPush p.project p.bundles = .ok () ↔ ¬ p.IsRefused := by
  rw [Registry.checkPush_eq_ok_iff, IsRefused, not_or, not_or, not_not]
  simp

theorem kind_of_checkBundles {seen : List (String × String)} {bundles : List Bundle} {error : Error}
    (h : checkBundles seen bundles = .error error) : error.kind = .invalidInput := by
  induction bundles generalizing seen with
  | nil => cases h
  | cons b bundles ih =>
      rw [checkBundles] at h
      split at h
      · cases h
        rfl
      · split at h
        · cases h
          rfl
        · exact ih h

theorem kind_of_checkPush {project : String} {bundles : List Bundle} {error : Error}
    (h : checkPush project bundles = .error error) : error.kind = .invalidInput := by
  rw [checkPush] at h
  split at h
  · cases h
    rfl
  · exact kind_of_checkBundles h

/-- A push to refuse is refused, and nothing changes. -/
theorem run_of_isRefused {p : Push} (h : p.IsRefused) (store : Manifest.Store) :
    ∃ error, p.run store = (store, .error error) ∧ error.kind = .invalidInput := by
  cases hcheck : checkPush p.project p.bundles with
  | ok _ => exact absurd h ((checkPush_eq_ok_iff p).mp hcheck)
  | error error =>
      refine ⟨error, ?_, kind_of_checkPush hcheck⟩
      rw [run, push, hcheck]
      rfl

theorem run_of_not_isRefused {p : Push} (h : ¬ p.IsRefused) {store next : Manifest.Store}
    (hnext : store.append p.manifest = .ok next) : p.run store = (next, .ok p.manifest) := by
  rw [run, push, (checkPush_eq_ok_iff p).mpr h]
  simp only [bind, Except.bind]
  rw [show manifestOf p.id p.now p.project p.bundles p.createdBy = p.manifest from rfl, hnext]
  rfl

end Push

theorem Push.Answered.eq_manifest {p : Push} {answer : Except Error Manifest} (h : p.Answered answer)
    {m : Manifest} (hm : m ∈ answer.toOption) : m = p.manifest ∧ ¬ p.IsRefused := by
  cases h with
  | refused hrefused hkind => cases hm
  | admitted hadmitted =>
      cases hm
      exact ⟨rfl, hadmitted⟩

/-- The manifests of a project that its pushes were answered with, in their order. -/
def admitted (project : String) (answers : List (Except Error Manifest)) : List Manifest :=
  Manifest.ofProject project (answers.filterMap Except.toOption)

theorem Push.answered_run {store : Manifest.Store} {manifests : List Manifest}
    (h : store.Holds manifests) {p : Push} (hid : p.id ∉ manifests.map Manifest.id) :
    p.Answered (p.run store).2 ∧
      (p.run store).1.Holds (manifests ++ (p.run store).2.toOption.toList) := by
  by_cases hrefused : p.IsRefused
  · obtain ⟨error, hrun, hkind⟩ := run_of_isRefused hrefused store
    rw [hrun]
    exact ⟨.refused hrefused hkind, by simpa [Except.toOption] using h⟩
  · obtain ⟨next, hnext, hholds⟩ := Manifest.Store.append_of_holds h (m := p.manifest) hid
    rw [run_of_not_isRefused hrefused hnext]
    exact ⟨.admitted hrefused, hholds⟩

theorem exists_push_of_answered {pushes : List Push} {answers : List (Except Error Manifest)}
    (h : List.Forall₂ Push.Answered pushes answers) {m : Manifest}
    (hm : m ∈ answers.filterMap Except.toOption) : ∃ p ∈ pushes, m = p.manifest := by
  obtain ⟨answer, hanswer, hgiven⟩ := List.mem_filterMap.mp hm
  clear hm
  induction h with
  | nil => cases hanswer
  | @cons p answer' pushes answers hfirst _ ih =>
      rcases List.mem_cons.mp hanswer with rfl | hanswer
      · exact ⟨p, List.mem_cons_self, (hfirst.eq_manifest hgiven).1⟩
      · obtain ⟨q, hq, hmade⟩ := ih hanswer
        exact ⟨q, List.mem_cons_of_mem _ hq, hmade⟩

/-- The store holds the manifests that the pushes were answered with. -/
theorem Push.answered_runAll {store : Manifest.Store} (h : store.Holds []) {pushes : List Push}
    (hids : (pushes.map Push.id).Nodup) :
    List.Forall₂ Push.Answered pushes (runAll store pushes).2 ∧
      (runAll store pushes).1.Holds ((runAll store pushes).2.filterMap Except.toOption) := by
  refine runAll_of_step (P := fun past (store : Manifest.Store) answers =>
    List.Forall₂ Push.Answered past answers ∧ store.Holds (answers.filterMap Except.toOption)) ?_ ⟨.nil, h⟩
  rintro past p store answers hpast ⟨hanswers, hholds⟩
  -- a manifest that the store holds has the identifier of an earlier push
  have hfresh : p.id ∉ (answers.filterMap Except.toOption).map Manifest.id := by
    intro hmem
    obtain ⟨m, hm, hsame⟩ := List.mem_map.mp hmem
    obtain ⟨q, hq, rfl⟩ := exists_push_of_answered hanswers hm
    have hnodup := hids.sublist (hpast.map Push.id).sublist
    rw [List.map_append] at hnodup
    exact List.disjoint_of_nodup_append hnodup (List.mem_map_of_mem hq)
      (List.mem_singleton.mpr hsame)
  obtain ⟨hanswer, hnext⟩ := answered_run hholds hfresh
  refine ⟨List.rel_append hanswers (.cons hanswer .nil), ?_⟩
  rw [filterMap_concat]
  exact hnext

section Found

variable {store : Manifest.Store} {project version : String}

theorem latest_of_found {m : Manifest} (h : store.latest project = .ok (some m)) :
    latest store project = .ok m := by
  rw [latest, h]
  rfl

theorem latest_eq_notFound_iff :
    latest store project = .error (.notFound project) ↔ store.latest project = .ok none := by
  rw [latest]
  cases store.latest project with
  | error error => exact ⟨fun h => (nomatch h), fun h => (nomatch h)⟩
  | ok found =>
      cases found with
      | none => exact ⟨fun _ => rfl, fun _ => rfl⟩
      | some m => exact ⟨fun h => (nomatch h), fun h => (nomatch h)⟩

theorem byVersion_of_found {m : Manifest} (h : store.byVersion project version = .ok (some m)) :
    byVersion store project version = .ok m := by
  rw [byVersion, h]
  rfl

theorem byVersion_eq_versionNotFound_iff :
    byVersion store project version = .error (.versionNotFound project version) ↔
      store.byVersion project version = .ok none := by
  rw [byVersion]
  cases store.byVersion project version with
  | error error => exact ⟨fun h => (nomatch h), fun h => (nomatch h)⟩
  | ok found =>
      cases found with
      | none => exact ⟨fun _ => rfl, fun _ => rfl⟩
      | some m => exact ⟨fun h => (nomatch h), fun h => (nomatch h)⟩

end Found

/-- Two pushes of one version by a project, at the second of which the clock has gone back, and
between them a push to refuse and one of another project. -/
def deployments : List Push :=
  [⟨"1", ⟨60, 500⟩, "a", [⟨.logic, "users", "get", "h", [0, 255],
      some [("limits", .array [.ofInt (-1)]), ("open", .bool true)]⟩], "ci"⟩,
    ⟨"2", ⟨61, 0⟩, "a", [⟨.logic, "users", "", "h", [], none⟩], "ci"⟩,
    ⟨"3", ⟨70, 0⟩, "b", [], "ci"⟩,
    ⟨"4", ⟨60, 0⟩, "a", [⟨.schema, "users", "get", "h", [128], none⟩], "ci"⟩]

end Registry

end ProjectHub
