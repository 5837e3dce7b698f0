import Mathlib.Data.List.Pairwise
import ProjectHub.Proofs.Document.Joining
import ProjectHub.Proofs.Plan.Run

/-!
# The documents of a project together

A plan against a live schema reads the documents of a project as one text. If each
document describes a realm of its own, the text describes their union, so it does
not matter how the tables are divided among documents. A document that leaves a
comment or a block open is read differently alone and among others.
-/

namespace ProjectHub

open Document

namespace Documents

/-- Whether the document of an alias describes this realm. -/
def Means (documents : Documents) (key : String) (r : Realm) : Prop :=
  ∃ document, documents.get? key = some document ∧ Realm.parse document = .ok r

/-- Whether every document describes a realm. -/
def Readable (documents : Documents) : Prop :=
  ∀ key document, documents.get? key = some document → ∃ r, Realm.parse document = .ok r

/-- Whether some document describes this table. -/
def Defines (documents : Documents) (name : String) (t : Table) : Prop :=
  ∃ key r, documents.Means key r ∧ r.tables.get? name = some t

/-- Whether two documents describe tables of one name. -/
def SharesTable (documents : Documents) : Prop :=
  ∃ key other r r' name, key ≠ other ∧ documents.Means key r ∧ documents.Means other r' ∧
    r.tables.contains name = true ∧ r'.tables.contains name = true

/-- The realm that a document describes; if it describes none, the empty one. -/
def realmOf (document : String) : Realm :=
  (Realm.parse document).toOption.getD .empty

theorem realmOf_eq {document : String} {r : Realm} (h : Realm.parse document = .ok r) :
    realmOf document = r := by
  rw [realmOf, h]
  rfl

/-- The realms of the documents, in the order of their aliases. -/
def realms (documents : Documents) : List Realm :=
  documents.values.map realmOf

section Readable

variable {documents : Documents} (hread : documents.Readable)
include hread

theorem forall₂_realms :
    List.Forall₂ (fun text r => Realm.parse text = .ok r) documents.values documents.realms := by
  rw [realms, List.forall₂_map_right_iff, List.forall₂_same]
  intro document hdocument
  obtain ⟨key, hkey⟩ := NameMap.mem_values_iff.mp hdocument
  obtain ⟨r, hr⟩ := hread key document hkey
  rw [realmOf_eq hr, hr]

theorem mem_realms_iff {r : Realm} : r ∈ documents.realms ↔ ∃ key, documents.Means key r := by
  rw [realms, List.mem_map]
  constructor
  · rintro ⟨document, hdocument, rfl⟩
    obtain ⟨key, hkey⟩ := NameMap.mem_values_iff.mp hdocument
    obtain ⟨r, hr⟩ := hread key document hkey
    exact ⟨key, document, hkey, realmOf_eq hr ▸ hr⟩
  · rintro ⟨key, document, hkey, hr⟩
    exact ⟨document, NameMap.mem_values_iff.mpr ⟨key, hkey⟩, realmOf_eq hr⟩

theorem pairwise_realms_iff : documents.realms.Pairwise Realm.Apart ↔ ¬documents.SharesTable := by
  have hentry {e : String × String} (he : e ∈ documents.entries) :
      documents.Means e.1 (realmOf e.2) := by
    have hget := NameMap.get?_of_mem_entries he
    obtain ⟨r, hr⟩ := hread e.1 e.2 hget
    exact ⟨e.2, hget, realmOf_eq hr ▸ hr⟩
  rw [realms, NameMap.values, List.map_map, List.pairwise_map]
  constructor
  · rintro hpairwise ⟨key, other, r, r', name, hne, ⟨document, hkey, hr⟩, ⟨document', hother, hr'⟩,
      hname, hname'⟩
    have hsymm : Std.Symm fun a b : String × String =>
        ((realmOf ∘ Prod.snd) a).Apart ((realmOf ∘ Prod.snd) b) := ⟨fun _ _ h => h.symm⟩
    have hapart := hpairwise.forall (NameMap.mem_entries_of_get? hkey)
      (NameMap.mem_entries_of_get? hother) (fun same => hne (congrArg Prod.fst same))
    rw [Function.comp_apply, Function.comp_apply, realmOf_eq hr, realmOf_eq hr'] at hapart
    rw [hapart name hname] at hname'
    cases hname'
  · intro hshares
    refine documents.ordered.imp_of_mem fun {a b} ha hb hless name hname => ?_
    refine Bool.eq_false_iff.mpr fun hname' => hshares ?_
    have hne : a.1 ≠ b.1 := fun same => String.lt_irrefl _ (same ▸ hless)
    exact ⟨a.1, b.1, _, _, name, hne, hentry ha, hentry hb, hname, hname'⟩

theorem parse_combine_of_realms :
    (¬documents.SharesTable →
      Realm.parse documents.combine = .ok (documents.realms.foldl Realm.union .empty)) ∧
    (documents.SharesTable → ∃ line name,
      Realm.parse documents.combine = .error ⟨line, .duplicateTable name⟩) := by
  obtain ⟨body, hbody, hnone, hfold⟩ := Realm.exists_describes_joined (forall₂_realms hread)
  have hpairwise : (Realm.empty :: documents.realms).Pairwise Realm.Apart ↔
      ¬documents.SharesTable := by
    rw [List.pairwise_cons, pairwise_realms_iff hread]
    exact and_iff_right fun r _ => (Realm.Apart.empty r).symm
  obtain ⟨hunion, hmeets⟩ := hfold .empty
  constructor
  · intro hshares
    exact Realm.parse_eq_ok_iff_describes.mpr ⟨body, hbody, hnone, hunion (hpairwise.mpr hshares)⟩
  · intro hshares
    obtain ⟨line, name, herror⟩ := hmeets fun h => hpairwise.mp h hshares
    have hwhole : outcome (Realm.parse documents.combine) = .error (.duplicateTable name) := by
      rw [show documents.combine = Realm.joined documents.values from rfl,
        Realm.outcome_parse hbody, Realm.ofBody, hnone, herror]
      rfl
    obtain ⟨found, hfound⟩ := outcome_eq_error_iff.mp hwhole
    exact ⟨found, name, hfound⟩

theorem get?_foldl_realms (hshares : ¬documents.SharesTable) {name : String} {t : Table} :
    (documents.realms.foldl Realm.union .empty).tables.get? name = some t ↔
      documents.Defines name t := by
  have hpairwise : (Realm.empty :: documents.realms).Pairwise Realm.Apart :=
    List.pairwise_cons.mpr ⟨fun r _ => (Realm.Apart.empty r).symm,
      (pairwise_realms_iff hread).mpr hshares⟩
  rw [Realm.get?_foldl_union hpairwise, List.exists_mem_cons_iff]
  constructor
  · rintro (hnone | ⟨r, hr, ht⟩)
    · cases hnone
    · obtain ⟨key, hkey⟩ := (mem_realms_iff hread).mp hr
      exact ⟨key, r, hkey, ht⟩
  · rintro ⟨key, r, hkey, ht⟩
    exact .inr ⟨r, (mem_realms_iff hread).mpr ⟨key, hkey⟩, ht⟩

end Readable

end Documents

/-! ## Plans against a live schema -/

/-- The migration without its identifier, which is made from the text of the documents. -/
def Migration.unnamed (m : Migration) : Migration :=
  { m with id := "" }

/-- The proposal without the identifiers of its migrations. -/
def Proposal.unnamed (p : Proposal) : Proposal :=
  { p with migrations := p.migrations.map Migration.unnamed }

namespace Plan

variable {W : Type}

theorem liveChanges_congr (client : Client W) {documents others : Documents}
    (h : Realm.parse documents.combine = Realm.parse others.combine) (world : W) :
    liveChanges client documents world = liveChanges client others world := by
  rw [liveChanges, liveChanges, readRealm, readRealm, h]

/-- The migrations that changes of a live schema give, without identifiers. -/
def unnamedMigrations (now : Instant) (project : String) (changes : List SchemaChange) :
    List Migration :=
  if changes.isEmpty then []
  else
    [⟨"", project, now.compact,
      ";\n".intercalate ((Sql.Statement.ofChanges changes).map Sql.Statement.text),
      "Schema update (Native)", false⟩]

theorem map_unnamed_nativeMigrations (client : Client W) (now : Instant) (project : String)
    (documents : Documents) (world : W) :
    (nativeMigrations client now project documents world).map (List.map Migration.unnamed) =
      (liveChanges client documents world).map (unnamedMigrations now project) := by
  unfold nativeMigrations unnamedMigrations
  cases liveChanges client documents world with
  | error error => rfl
  | ok changes =>
      cases changes with
      | nil => rfl
      | cons change changes => rfl

namespace State

variable {client : Client W} {st : State W} {documents others : Documents}
  (h : liveChanges client documents st.world = liveChanges client others st.world)
include h

/-- A plan depends on what changes, and on nothing else of its documents, but for the identifiers
of its migrations. -/
theorem planWith_congr (hempty : documents.isEmpty = others.isEmpty) (now : Instant)
    (project : String) :
    (st.planWith (.native client) now project documents).2.map Proposal.unnamed =
      (st.planWith (.native client) now project others).2.map Proposal.unnamed := by
  have hinput : checkPlanInput project documents = checkPlanInput project others := by
    rw [checkPlanInput, checkPlanInput, hempty]
  have htoken : (st.ledger.savePlan project documents now).2 =
      (st.ledger.savePlan project others now).2 := by
    cases st.ledger <;> rfl
  have hmigrations : (nativeMigrations client now project documents st.world).map
      (List.map Migration.unnamed) =
        (nativeMigrations client now project others st.world).map (List.map Migration.unnamed) := by
    rw [map_unnamed_nativeMigrations, map_unnamed_nativeMigrations, h]
  unfold planWith migrationsFor
  rw [hinput]
  cases checkPlanInput project others with
  | error error => rfl
  | ok u =>
      simp only [bind, Except.bind, pure, Except.pure]
      cases hfirst : nativeMigrations client now project documents st.world with
      | error error =>
          rw [hfirst] at hmigrations
          rw [map_eq_error_iff.mp hmigrations.symm]
      | ok migrations =>
          rw [hfirst] at hmigrations
          obtain ⟨migrations', hsecond, hsame⟩ := map_eq_ok_iff.mp hmigrations.symm
          have hcount : migrations'.length = migrations.length := by
            simpa using congrArg List.length hsame
          have hnone : migrations'.isEmpty = migrations.isEmpty := by
            simpa using congrArg List.isEmpty hsame
          rw [hsecond]
          dsimp only
          rw [htoken]
          cases (st.ledger.savePlan project others now).2 with
          | error error => rfl
          | ok token =>
              simp only [Except.map, Proposal.unnamed, nativeSummary, hsame, hcount, hnone]

theorem carryOut_congr (project : String) :
    st.carryOut (.native client) project documents =
      st.carryOut (.native client) project others := by
  rw [carryOut_native, carryOut_native, h]

end State

theorem readRealm_eq_error_iff {document : String} {error : Document.Error} :
    readRealm document = .error (.parse error) ↔ Realm.parse document = .error error := by
  unfold readRealm
  cases Realm.parse document <;> simp [Except.mapError]

theorem checkRealm_eq_ok_iff {document : String} : checkRealm document = .ok () ↔
    Text.isBlankText document = false ∧ ∃ r, Realm.parse document = .ok r := by
  unfold checkRealm checkDocument readRealm
  cases Text.isBlankText document <;> cases Realm.parse document <;>
    simp [Except.mapError, bind, Except.bind, pure, Except.pure]

end Plan

namespace Documents

open Plan

/-- Documents that each describe a realm describe the union of these realms together, or name a
table twice. So a plan against a live schema does not depend on which alias has which table, but
for the identifiers of its migrations. -/
theorem combine_describes_union {documents : Documents} (hread : documents.Readable) :
    (¬documents.SharesTable → ∃ r, Realm.parse documents.combine = .ok r ∧
      ∀ name t, r.tables.get? name = some t ↔ documents.Defines name t) ∧
    (documents.SharesTable → ∃ line name,
      readRealm documents.combine = .error (.parse ⟨line, .duplicateTable name⟩)) ∧
    ∀ others : Documents, others.Readable → ¬documents.SharesTable → ¬others.SharesTable →
      documents.isEmpty = others.isEmpty →
      (∀ name t, documents.Defines name t ↔ others.Defines name t) →
      ∀ {W : Type} (client : Client W) (st : State W) (now : Instant) (project : String),
        liveChanges client documents st.world = liveChanges client others st.world ∧
        (st.planWith (.native client) now project documents).2.map Proposal.unnamed =
          (st.planWith (.native client) now project others).2.map Proposal.unnamed ∧
        st.carryOut (.native client) project documents =
          st.carryOut (.native client) project others := by
  obtain ⟨hunion, hmeets⟩ := parse_combine_of_realms hread
  refine ⟨?_, ?_, ?_⟩
  · intro hshares
    exact ⟨_, hunion hshares, fun _ _ => get?_foldl_realms hread hshares⟩
  · intro hshares
    obtain ⟨line, name, herror⟩ := hmeets hshares
    exact ⟨line, name, readRealm_eq_error_iff.mpr herror⟩
  · intro others hothers hshares hshares' hempty hdefines W client st now project
    have hsame : Realm.parse documents.combine = Realm.parse others.combine := by
      rw [hunion hshares, (parse_combine_of_realms hothers).1 hshares']
      refine congrArg Except.ok (Realm.eq_of_get? fun name => Option.ext fun t => ?_)
      rw [get?_foldl_realms hread hshares, get?_foldl_realms hothers hshares']
      exact hdefines name t
    have hchanges := liveChanges_congr client hsame st.world
    exact ⟨hchanges, State.planWith_congr hchanges hempty now project,
      State.carryOut_congr hchanges project⟩

/-- A document of one table with one column. -/
def tableText (name : String) : String :=
  "table \"" ++ name ++ "\" \x7b " ++ "column \"x\" \x7b type = int \x7d \x7d"

/-- The realm of one table with one column. -/
def single (name : String) : Realm :=
  ⟨⟨[(name, ⟨name, [⟨"x", "INT", false, none⟩], [], .empty⟩)], List.pairwise_singleton _ _⟩⟩

theorem parse_tableText : Realm.parse (tableText "a") = .ok (single "a") ∧
    Realm.parse (tableText "b") = .ok (single "b") := by
  have htokens : ∀ name ∈ ["a", "b"],
      (tokens (tableText name)).map (List.map Placed.token) = .ok (itemTokens []
        [⟨"table", [name], [], [⟨"column", ["x"], [⟨"type", .ident "int", 0⟩], [], 0⟩], 0⟩]) := by
    unfold tokens tableText
    simp only [String.toList_append, -String.reduceAppend, -String.reduceToList]
    decide +kernel
  exact ⟨Realm.parse_of_tokens [] _ (htokens "a" (by simp)) rfl rfl (by decide +kernel),
    Realm.parse_of_tokens [] _ (htokens "b" (by simp)) rfl rfl (by decide +kernel)⟩

/-- Two documents with a table each. -/
def divided : Documents :=
  ⟨[("one", tableText "a"), ("two", tableText "b")], by decide +kernel⟩

/-- The same tables in one document. -/
def together : Documents :=
  ⟨[("all", divided.combine)], List.pairwise_singleton _ _⟩

/-- One document under two aliases. -/
def repeated : Documents :=
  ⟨[("one", tableText "a"), ("two", tableText "a")], by decide +kernel⟩

theorem contains_single {name other : String} :
    (single name).tables.contains other = true ↔ name = other := by
  simp [single, NameMap.contains, NameMap.get?]

theorem readable_divided : divided.Readable :=
  NameMap.forall_get?_iff.mpr (by simp [divided, parse_tableText])

theorem readable_repeated : repeated.Readable :=
  NameMap.forall_get?_iff.mpr (by simp [repeated, parse_tableText])

theorem sharesTable_repeated : repeated.SharesTable := by
  have hmeans (key : String) (h : repeated.get? key = some (tableText "a")) :
      repeated.Means key (single "a") := ⟨_, h, parse_tableText.1⟩
  exact ⟨"one", "two", _, _, "a", by decide, hmeans "one" rfl, hmeans "two" rfl, rfl, rfl⟩

theorem not_sharesTable_divided : ¬divided.SharesTable := by
  rw [← pairwise_realms_iff readable_divided]
  have hrealms : divided.realms = [single "a", single "b"] := by
    simp only [realms, NameMap.values, divided, List.map_cons, List.map_nil,
      realmOf_eq parse_tableText.1, realmOf_eq parse_tableText.2]
  rw [hrealms, List.pairwise_pair]
  intro name hname
  rw [contains_single] at hname
  exact Bool.eq_false_iff.mpr fun hname' => absurd (contains_single.mp hname') (by simp [← hname])

theorem means_together_iff {r : Realm} (hr : Realm.parse divided.combine = .ok r) {key : String}
    {found : Realm} : together.Means key found ↔ key = "all" ∧ found = r := by
  constructor
  · rintro ⟨document, hkey, hfound⟩
    rw [NameMap.get?_eq_some_iff] at hkey
    obtain ⟨rfl, rfl⟩ : key = "all" ∧ document = divided.combine := by simpa [together] using hkey
    rw [hr] at hfound
    exact ⟨rfl, (Except.ok.inj hfound).symm⟩
  · rintro ⟨rfl, rfl⟩
    exact ⟨_, rfl, hr⟩

theorem combine_describes_union_divided :
    (∃ r, Realm.parse divided.combine = .ok r ∧ r.tables.contains "a" = true ∧
      r.tables.contains "b" = true) ∧
    (∃ line name, readRealm repeated.combine = .error (.parse ⟨line, .duplicateTable name⟩)) ∧
    liveChanges stageClient divided {} = liveChanges stageClient together {} := by
  obtain ⟨hunion, -, hothers⟩ := combine_describes_union readable_divided
  obtain ⟨r, hr, hdefines⟩ := hunion not_sharesTable_divided
  refine ⟨⟨r, hr, ?_, ?_⟩, ?_, ?_⟩
  · exact Realm.contains_iff.mpr ⟨_, (hdefines "a" _).mpr
      ⟨"one", single "a", ⟨tableText "a", rfl, parse_tableText.1⟩, rfl⟩⟩
  · exact Realm.contains_iff.mpr ⟨_, (hdefines "b" _).mpr
      ⟨"two", single "b", ⟨tableText "b", rfl, parse_tableText.2⟩, rfl⟩⟩
  · exact (combine_describes_union readable_repeated).2.1 sharesTable_repeated
  · have hall {key : String} {found : Realm} : together.Means key found ↔ key = "all" ∧ found = r :=
      means_together_iff hr
    have hread : together.Readable :=
      NameMap.forall_get?_iff.mpr (List.forall_mem_singleton.mpr ⟨r, hr⟩)
    have hshares : ¬together.SharesTable := by
      rintro ⟨key, other, _, _, _, hne, hkey, hother, -⟩
      exact hne ((hall.mp hkey).1.trans (hall.mp hother).1.symm)
    refine (hothers together hread not_sharesTable_divided hshares rfl ?_ stageClient
      ⟨⟨.emptyMemory, ⟨List.replicate 32 0, rfl⟩⟩, .emptyMemory, {}⟩ default "").1
    intro name t
    rw [← hdefines]
    constructor
    · exact fun ht => ⟨"all", r, hall.mpr ⟨rfl, rfl⟩, ht⟩
    · rintro ⟨key, found, hkey, ht⟩
      exact (hall.mp hkey).2 ▸ ht

/-- If the documents of a project describe a realm together, then each of them is valid alone and
its tables are in that realm, unless one of them leaves open a comment or an item. -/
theorem valid_alone_iff_none_leavesOpen {documents : Documents}
    (hblank : ∀ key document, documents.get? key = some document →
      Text.isBlankText document = false)
    {desired : Realm} (h : Realm.parse documents.combine = .ok desired) :
    (∀ key document, documents.get? key = some document → checkRealm document = .ok () ∧
      ∃ r, Realm.parse document = .ok r ∧ r.Within desired) ↔
    ∀ key document, documents.get? key = some document → ¬LeavesOpen document := by
  constructor
  · intro hvalid key document hkey
    obtain ⟨-, r, hr, -⟩ := hvalid key document hkey
    exact Realm.not_leavesOpen_of_parse hr
  · intro hclosed key document hkey
    obtain ⟨body, hbody, hnone, hfold⟩ := Realm.parse_eq_ok_iff_describes.mp h
    have hvalues : ∀ text ∈ documents.values, ¬LeavesOpen text := by
      intro text htext
      obtain ⟨other, hother⟩ := NameMap.mem_values_iff.mp htext
      exact hclosed other text hother
    obtain ⟨r, hr, hwithin⟩ := Realm.parse_of_describes_joined hvalues hbody hnone hfold document
      (NameMap.mem_values_iff.mpr ⟨key, hkey⟩)
    exact ⟨checkRealm_eq_ok_iff.mpr ⟨hblank key document hkey, r, hr⟩, r, hr, hwithin⟩

/-- A document that opens a comment at its end. -/
def unended : String :=
  tableText "a" ++ " /*"

/-- Three documents, of which the first opens a comment that covers the second and ends in the
third. -/
def covered : Documents :=
  ⟨[("one", unended), ("two", tableText "b"), ("zero", "/**/")], by decide +kernel⟩

theorem leavesOpen_unended : LeavesOpen unended := by
  have herror : (tokens unended).map (List.map Placed.token) =
      .error ⟨1, .unterminatedComment⟩ := by
    unfold tokens unended tableText
    simp only [String.toList_append, -String.reduceAppend, -String.reduceToList]
    decide +kernel
  exact .comment (map_eq_error_iff.mp herror)

theorem parse_covered : Realm.parse covered.combine = .ok (single "a") := by
  have htext : covered.combine = tableText "a" ++ " /*\n" ++ tableText "b" ++ "\n/**/\n" := by
    simp [combine, covered, NameMap.values, unended, String.append_assoc]
  rw [htext]
  refine Realm.parse_of_tokens [] [⟨"table", ["a"], [],
    [⟨"column", ["x"], [⟨"type", .ident "int", 0⟩], [], 0⟩], 0⟩] ?_ rfl ?_ ?_
  · unfold tokens tableText
    simp only [String.toList_append, -String.reduceAppend, -String.reduceToList]
    decide +kernel
  · decide +kernel
  · decide +kernel

/-- A table of a valid document is not there, hidden by a comment of another document. -/
theorem valid_alone_iff_none_leavesOpen_covered :
    Realm.parse covered.combine = .ok (single "a") ∧ checkRealm (tableText "b") = .ok () ∧
    ¬∀ key document, covered.get? key = some document → checkRealm document = .ok () ∧
      ∃ r, Realm.parse document = .ok r ∧ r.Within (single "a") := by
  have hblank : ∀ key document, covered.get? key = some document →
      Text.isBlankText document = false :=
    NameMap.forall_get?_iff.mpr (by decide +kernel)
  refine ⟨parse_covered, checkRealm_eq_ok_iff.mpr ⟨?_, _, parse_tableText.2⟩, fun hvalid => ?_⟩
  · decide +kernel
  · exact (valid_alone_iff_none_leavesOpen hblank parse_covered).mp hvalid "one" unended rfl
      leavesOpen_unended

end Documents

end ProjectHub
