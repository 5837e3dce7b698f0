import Mathlib
import ProjectHub.Proofs.Plan.Happening
import ProjectHub.Proofs.Plan.Recording
import ProjectHub.Proofs.Vault.Sealing

/-!
# What a plan shows and what its apply executes

A plan and the apply of its token resolve a strategy each. What an apply executes
on a live database is what a plan of the same documents against that connection
would show at that moment; it is what the plan did show as long as both of them
reached the same schema.
-/

namespace ProjectHub.Plan

variable {W : Type}

theorem append_ne_empty {front : String} (h : front ≠ "") (back : String) : front ++ back ≠ "" :=
  fun happend => h (String.append_eq_empty_iff.mp happend).1

theorem text_ne_empty (statement : Sql.Statement) : statement.text ≠ "" := by
  cases statement with
  | createIndex table index =>
      unfold Sql.Statement.text
      repeat apply append_ne_empty
      decide
  | _ =>
      unfold Sql.Statement.text
      repeat apply append_ne_empty
      decide

/-- The statements of changes have a text, unless there are no changes. -/
theorem texts_ofChanges_ne_empty {changes : List SchemaChange} (h : changes ≠ []) :
    ";\n".intercalate ((Sql.Statement.ofChanges changes).map Sql.Statement.text) ≠ "" := by
  cases changes with
  | nil => exact absurd rfl h
  | cons change changes =>
      have hfirst : ∃ first rest, Sql.Statement.ofChanges (change :: changes) = first :: rest := by
        cases change <;> exact ⟨_, _, rfl⟩
      obtain ⟨first, rest, hstatements⟩ := hfirst
      rw [hstatements, List.map_cons]
      cases rest with
      | nil =>
          rw [List.map_nil, String.intercalate_singleton]
          exact text_ne_empty first
      | cons second rest =>
          rw [List.map_cons, String.intercalate_cons_cons, String.append_assoc]
          exact append_ne_empty (text_ne_empty first) _

/-- The description of a migration with statements for a live database. -/
def nativeDescription : String := "Schema update (Native)"

/-- Whether the migrations of a proposal show the statements: joined, they are the SQL of each
native migration, and without such a migration there are none. -/
def Reviews (migrations : List Migration) (executed : List Sql.Statement) : Prop :=
  (∀ m ∈ migrations, m.description = nativeDescription →
      m.sql = ";\n".intercalate (executed.map Sql.Statement.text)) ∧
    ((∀ m ∈ migrations, m.description ≠ nativeDescription) → executed = [])

theorem reviews_nil_iff {executed : List Sql.Statement} : Reviews [] executed ↔ executed = [] := by
  simp [Reviews]

/-- Mock migrations show no statement. -/
theorem reviews_contentMigrations_iff {now : Instant} {project : String}
    {current documents : Documents} {executed : List Sql.Statement} :
    Reviews (contentMigrations now project current documents) executed ↔ executed = [] := by
  have hmock : ∀ m ∈ contentMigrations now project current documents,
      m.description ≠ nativeDescription := by
    intro m hm hnative
    obtain ⟨⟨name, text⟩, -, rfl⟩ := List.mem_map.mp hm
    have hhead := congrArg (fun text => text.toList.head?) hnative
    simp [Migration.propose, nativeDescription] at hhead
  constructor
  · exact fun h => h.2 hmock
  · exact fun h => ⟨fun m hm hnative => absurd hnative (hmock m hm), fun _ => h⟩

/-- The migrations against a live schema show the statements of its changes. -/
theorem reviews_nativeMigrations {client : Client W} {now : Instant} {project : String}
    {documents : Documents} {world : W} {migrations : List Migration}
    (h : nativeMigrations client now project documents world = .ok migrations) :
    ∃ changes, liveChanges client documents world = .ok changes ∧
      Reviews migrations (Sql.Statement.ofChanges changes) ∧
      (Reviews migrations [] ↔ migrations = []) := by
  simp only [nativeMigrations, bind, Except.bind, pure, Except.pure] at h
  cases hchanges : liveChanges client documents world with
  | error error => simp [hchanges] at h
  | ok changes =>
      refine ⟨changes, rfl, ?_⟩
      simp only [hchanges] at h
      by_cases hempty : changes.isEmpty = true
      · rw [if_pos hempty] at h
        cases h
        rw [List.isEmpty_iff.mp hempty, reviews_nil_iff, reviews_nil_iff]
        exact ⟨rfl, iff_of_true rfl rfl⟩
      · rw [if_neg hempty] at h
        cases h
        have hne : changes ≠ [] := fun hnil => hempty (List.isEmpty_iff.mpr hnil)
        refine ⟨⟨?_, ?_⟩, ?_⟩
        · intro m hm _
          rw [List.mem_singleton.mp hm]
          rfl
        · intro hmock
          exact absurd rfl (hmock _ (List.mem_singleton.mpr rfl))
        · refine iff_of_false (fun hreviews => ?_) (List.cons_ne_nil _ _)
          exact texts_ofChanges_ne_empty hne (hreviews.1 _ (List.mem_singleton.mpr rfl) rfl)

section Migrations

variable {st : State W} {now : Instant} {project : String} {documents : Documents}
  {migrations : List Migration} {summary : String}

theorem nativeMigrations_of_migrationsFor {client : Client W}
    (h : st.migrationsFor (.native client) now project documents = .ok (migrations, summary)) :
    nativeMigrations client now project documents st.world = .ok migrations := by
  simp only [State.migrationsFor, bind, Except.bind, pure, Except.pure] at h
  split at h
  · cases h
  · rename_i found hfound
    cases h
    exact hfound

theorem contentMigrations_of_migrationsFor
    (h : st.migrationsFor .contentHash now project documents = .ok (migrations, summary)) :
    ∃ current, migrations = contentMigrations now project current documents := by
  simp only [State.migrationsFor, bind, Except.bind, pure, Except.pure] at h
  split at h
  · cases h
  · cases h
    exact ⟨_, rfl⟩

end Migrations

/-- An apply of the token on record that succeeds resolved a strategy, and executed the
statements that lead to the documents on record. -/
theorem Planner.apply_eq_ok (p : Planner W) {st : State W} {accounts : Accounts}
    (h : st.ledger.Holds accounts) {project : String} {plan : Planned}
    (hplan : (accounts project).onRecord = some plan) {migrations : List Migration}
    (happly : (p.apply st project migrations (some plan.generation)).2 = .ok ()) :
    ∃ strategy world, p.resolve st project = .ok (strategy, world) ∧
      p.executed st project migrations (some plan.generation) =
        ({ st with world := world } : State W).statements strategy plan.documents ∧
      ∀ client, strategy = .native client →
        ∃ changes, liveChanges client plan.documents world = .ok changes := by
  obtain ⟨found, strategy, world, hfound, -, hresolve, hfinish⟩ := p.apply_eq_finish h happly
  cases hplan.symm.trans hfound
  have hst : (st.withRecord []).ledger.Holds accounts := h
  have hrecorded : (p.recorded.apply (st.withRecord []) project migrations
      (some plan.generation)).2 = .ok () := by
    rw [apply_recorded]
    exact happly
  obtain ⟨found, recording, recorded, hfound, -, hrecording, hexecuted⟩ :=
    p.recorded.apply_eq_finish hst hrecorded
  cases hplan.symm.trans hfound
  rw [resolve_recorded, hresolve] at hrecording
  cases hrecording
  rw [hfinish] at happly
  refine ⟨strategy, world, hresolve, ?_, ?_⟩
  · rw [executed, hexecuted]
    show ((({ st with world := world } : State W).withRecord []).finish strategy.recorded project
      plan.documents plan.generation).1.world.2 = _
    rw [State.finish_recorded]
    cases hcarry : ({ st with world := world } : State W).carryOut strategy project
        plan.documents with
    | error error => simp [State.finish, hcarry] at happly
    | ok next => rfl
  · rintro client rfl
    cases hchanges : liveChanges client plan.documents world with
    | ok changes => exact ⟨changes, rfl⟩
    | error error => simp [State.finish, State.carryOut_native, hchanges] at happly

/-- What an apply executes, whatever happened between it and the plan of its token: against a
live database, the statements that lead from the schema found then to the documents of the plan,
and without one nothing. The plan showed exactly these statements when both calls found the same
live schema, or both found none; when only the apply found one, exactly if nothing was executed;
and when only the plan did, exactly if it proposed nothing. -/
theorem executed_reviewed (p : Planner W) {start : Ledger}
    (hstart : start = .emptyMemory ∨ start = .emptyDatabase) (vault : Vault) (world : W)
    {before between : List (Happening W)} {now : Instant} {project : String}
    {documents : Documents}
    (hkept : ∀ happening ∈ before ++ .plan now project documents :: between,
      happening.KeptBy start)
    (hspares : ∀ happening ∈ between, happening.Spares project) {proposal : Proposal}
    {migrations : List Migration} {st₀ st₁ : State W}
    (h₀ : st₀ = Happening.runAll p ⟨vault, start, world⟩ before)
    (h₁ : st₁ = Happening.runAll p (p.plan st₀ now project documents).1 between)
    (hplan : (p.plan st₀ now project documents).2 = .ok proposal)
    (happly : (p.apply st₁ project migrations (some proposal.token)).2 = .ok ()) :
    ∃ planned world₀ applied world₁, p.resolve st₀ project = .ok (planned, world₀) ∧
      p.resolve st₁ project = .ok (applied, world₁) ∧
      (∀ client, applied = .native client → ∃ changes,
        liveChanges client documents world₁ = .ok changes ∧
          p.executed st₁ project migrations (some proposal.token) =
            Sql.Statement.ofChanges changes) ∧
      (applied = .contentHash → p.executed st₁ project migrations (some proposal.token) = []) ∧
      match planned, applied with
      | .native client₀, .native client₁ =>
        client₁.inspect world₁ = client₀.inspect world₀ →
          Reviews proposal.migrations (p.executed st₁ project migrations (some proposal.token))
      | .contentHash, .contentHash =>
        Reviews proposal.migrations (p.executed st₁ project migrations (some proposal.token))
      | .native _, .contentHash =>
        Reviews proposal.migrations (p.executed st₁ project migrations (some proposal.token)) ↔
          proposal.migrations = []
      | .contentHash, .native _ =>
        Reviews proposal.migrations (p.executed st₁ project migrations (some proposal.token)) ↔
          p.executed st₁ project migrations (some proposal.token) = [] := by
  have hkept₀ (happening : Happening W) (hmem : happening ∈ before) : happening.KeptBy start :=
    hkept happening (List.mem_append_left _ hmem)
  have hnow : start.Keeps now := hkept _ (List.mem_append_right _ (List.mem_cons_self ..))
  have hkept₁ (happening : Happening W) (hmem : happening ∈ between) : happening.KeptBy start :=
    hkept happening (List.mem_append_right _ (List.mem_cons_of_mem _ hmem))
  obtain ⟨⟨accounts, hholds⟩, hkeeps⟩ :=
    Happening.exists_holds_runAll p hstart vault world hkept₀
  rw [← h₀] at hholds hkeeps
  obtain ⟨planned, world₀, hresolve₀, htoken, hmigrations, hafter⟩ :=
    p.plan_eq_ok hholds ((hkeeps now).mpr hnow) hplan
  have hkeeps₁ (time : Instant) :
      (p.plan st₀ now project documents).1.ledger.Keeps time ↔ start.Keeps time :=
    (Happening.keeps_run p st₀ (.plan now project documents) time).trans (hkeeps time)
  obtain ⟨accounts₁, hholds₁, hspared⟩ := Happening.holds_runAll p hafter
    fun happening hmem => (Happening.keptBy_congr hkeeps₁ happening).mpr (hkept₁ happening hmem)
  rw [← h₁] at hholds₁
  have hrecord : (accounts₁ project).onRecord = some ⟨proposal.token, documents, now⟩ := by
    rw [(hspared project).2 hspares, Function.update_self, htoken]
    rfl
  obtain ⟨applied, world₁, hresolve₁, hexecuted, hchanges⟩ :=
    p.apply_eq_ok hholds₁ hrecord happly
  rw [hexecuted]
  refine ⟨planned, world₀, applied, world₁, hresolve₀, hresolve₁, ?_, ?_, ?_⟩
  · rintro client rfl
    obtain ⟨changes, hlive⟩ := hchanges client rfl
    refine ⟨changes, hlive, ?_⟩
    simp only [State.statements, hlive]
  · rintro rfl
    rfl
  cases planned with
  | contentHash =>
      obtain ⟨current, hmock⟩ := contentMigrations_of_migrationsFor hmigrations
      rw [hmock]
      cases applied with
      | contentHash => exact reviews_contentMigrations_iff.mpr rfl
      | native client => exact reviews_contentMigrations_iff
  | native client₀ =>
      obtain ⟨changes, hlive, hreviews, hnothing⟩ :=
        reviews_nativeMigrations (nativeMigrations_of_migrationsFor hmigrations)
      cases applied with
      | contentHash => exact hnothing
      | native client₁ =>
          intro hinspect
          have hsame : liveChanges client₁ documents world₁ = .ok changes := by
            rw [← hlive]
            simp only [liveChanges, hinspect]
          simp only [State.statements, hsame]
          exact hreviews

section Unreviewed

/-- The URL of a stage, sealed under the key of zeros. -/
def sealedUrl : String := "AAAAAAAAAAAAAAAAqMYrWHcECVQioMwM2R1FkBRAUCvP+1c="

/-- A vault that holds the URL of a shop's database. -/
def linkedVault : Vault :=
  ⟨.memory (.insertAt .empty "shop" "database_url"
    ⟨"shop", "database_url", sealedUrl, .epoch⟩), zeroKey⟩

/-- A document without a table. -/
def blankDocuments : Documents := .ofList [("main", "")]

/-- A live schema of one table. -/
def ordersRealm : Realm :=
  ⟨.ofList [("orders", ⟨"orders", [⟨"id", "INTEGER", true, none⟩], [], .empty⟩)]⟩

/-- The planner of stages. -/
def stagePlanner : Planner Stage := ⟨[stageEngine], {}⟩

/-- A state without secrets and plans, over a live schema of one table. -/
def unlinked : State Stage := ⟨⟨.emptyMemory, zeroKey⟩, .emptyMemory, { realm := ordersRealm }⟩

/-- The state after a plan made without a database, once the vault holds the URL. -/
def linked : State Stage :=
  Happening.runAll stagePlanner
    (stagePlanner.plan unlinked .epoch "shop" blankDocuments).1
    [.outside linkedVault { realm := ordersRealm }]

theorem plan_unlinked : (stagePlanner.plan unlinked .epoch "shop" blankDocuments).2 =
    .ok ⟨[], false, "Local mode: no changes detected", 1⟩ := rfl

theorem openText_sealedUrl :
    (Vault.openText zeroKey sealedUrl).toOption = some [102, 97, 107, 101, 58, 100, 98] := by
  have hopen : Vault.openText Vault.zeroKey sealedUrl =
      .ok [102, 97, 107, 101, 58, 100, 98] :=
    Vault.openText_of_zeroCipher (by decide) (by decide +kernel)
  exact congrArg Except.toOption hopen

theorem get_linkedVault : linkedVault.get "shop" "database_url" = .ok ⟨"fake:db"⟩ := by
  have hrecord : linkedVault.store.get "shop" "database_url" =
      .ok (some ⟨"shop", "database_url", sealedUrl, .epoch⟩) := rfl
  refine get_of_openText rfl hrecord openText_sealedUrl ?_
  cbv

theorem resolve_linked : stagePlanner.resolve linked "shop" =
    .ok (.native stageClient, { realm := ordersRealm }) :=
  @Planner.resolve_of_connect _ _ _ _ _ stageEngine _ _ get_linkedVault rfl rfl rfl

theorem liveChanges_blankDocuments :
    liveChanges stageClient blankDocuments { realm := ordersRealm } =
      .ok [.dropTable "orders"] := by
  have htokens : Document.tokens blankDocuments.combine = .ok [] := by
    rw [show blankDocuments.combine = "\n" from rfl]
    simp [Document.tokens, Document.tokensFrom]
  have hbody : Document.bodyOfTokens [] = .ok .empty := by
    rw [Document.bodyOfTokens, Document.readItems]
  simp only [liveChanges, readRealm, Realm.parse, htokens, hbody, bind, Except.bind,
    Except.mapError, pure, Except.pure]
  rfl

theorem apply_linked : (stagePlanner.apply linked "shop" [] (some 1)).2 = .ok () := by
  have hcheck : checkProject "shop" = .ok () := rfl
  have hplan : linked.ledger.getPlan "shop" = .ok (some ⟨1, blankDocuments, .epoch⟩) := rfl
  rw [Planner.apply_of_resolve hcheck resolve_linked]
  simp only [hcheck, State.applyWith, hplan, State.carryOut_native, liveChanges_blankDocuments]
  rfl

theorem executed_linked :
    stagePlanner.executed linked "shop" [] (some 1) = [.dropTable "orders"] := by
  have hledger : linked.ledger = .memory (NameMap.empty.insert "shop"
      (.ofAccount (Account.plan {} blankDocuments .epoch))) := rfl
  have hholds := Ledger.holds_memory_insert Ledger.holds_emptyMemory "shop"
    (Account.plan {} blankDocuments .epoch)
  rw [← hledger] at hholds
  obtain ⟨strategy, world, hresolve, hexecuted, -⟩ :=
    @Planner.apply_eq_ok _ stagePlanner _ _ hholds "shop" ⟨1, blankDocuments, .epoch⟩ rfl _
      apply_linked
  cases resolve_linked.symm.trans hresolve
  rw [hexecuted]
  simp only [State.statements, liveChanges_blankDocuments]
  rfl

/-- The stage's planner found no database when it planned and one when it applied, so that its
plan showed what it executed exactly if it executed nothing. -/
theorem executed_reviewed_linked :
    (stagePlanner.plan unlinked .epoch "shop" blankDocuments).2 =
        .ok ⟨[], false, "Local mode: no changes detected", 1⟩ ∧
      (stagePlanner.apply linked "shop" [] (some 1)).2 = .ok () ∧
      (Reviews [] (stagePlanner.executed linked "shop" [] (some 1)) ↔
        stagePlanner.executed linked "shop" [] (some 1) = []) := by
  refine ⟨plan_unlinked, apply_linked, ?_⟩
  obtain ⟨planned, world₀, applied, world₁, hplanned, happlied, -, -, hreviews⟩ :=
    @executed_reviewed Stage stagePlanner .emptyMemory (.inl rfl) ⟨.emptyMemory, zeroKey⟩
      { realm := ordersRealm } [] [.outside linkedVault { realm := ordersRealm }] .epoch "shop"
      blankDocuments (fun happening hmem => by
        rcases List.mem_cons.mp hmem with rfl | hmem
        · trivial
        · rw [List.mem_singleton.mp hmem]
          trivial)
      (fun happening hmem => by
        rw [List.mem_singleton.mp hmem]
        trivial)
      _ [] unlinked linked rfl rfl plan_unlinked apply_linked
  have hunlinked : stagePlanner.resolve unlinked "shop" =
      .ok (.contentHash, { realm := ordersRealm }) := rfl
  cases hunlinked.symm.trans hplanned
  cases resolve_linked.symm.trans happlied
  exact hreviews

/-- A plan without a database showed nothing, and its apply dropped a table of the database that
was there by then. -/
theorem apply_unreviewed :
    ∃ proposal, (stagePlanner.plan unlinked .epoch "shop" blankDocuments).2 = .ok proposal ∧
      (stagePlanner.apply linked "shop" [] (some proposal.token)).2 = .ok () ∧
      stagePlanner.executed linked "shop" [] (some proposal.token) = [.dropTable "orders"] ∧
      ¬ Reviews proposal.migrations
        (stagePlanner.executed linked "shop" [] (some proposal.token)) := by
  refine ⟨_, plan_unlinked, apply_linked, executed_linked, ?_⟩
  rw [executed_linked, reviews_nil_iff]
  exact List.cons_ne_nil _ _

end Unreviewed

end ProjectHub.Plan
