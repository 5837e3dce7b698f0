import Mathlib
import ProjectHub.Proofs.Plan.Happening
import ProjectHub.Proofs.Sqlite.Convergence
import ProjectHub.Proofs.Vault.Sealing

/-!
# Planning again what was applied

A project's database in a file is what its next plan is compared with. After
documents were planned and applied there, planning them again proposes nothing
just if the database tells everything that was changed as the documents have it.
-/

namespace ProjectHub.Plan

open Sqlite (Host Command)

variable {host : Host} {connection : Sqlite.Connection} {path : String} {db : Sqlite.Database}

theorem database?_setDatabase (hdb : host.database? (.file path) = some db)
    (next : Sqlite.Database) :
    (host.setDatabase (.file path) next).database? (.file path) = some next := by
  unfold Host.database? Host.setDatabase at *
  simp only at hdb ⊢
  split at hdb
  · cases hdb
  · simp only [NameMap.get?_insert_self, Option.getD_some]

/-- The changes that a connection finds are those from what its database shows. -/
theorem liveChanges_clientOn {documents : Documents} {desired : Realm}
    (hdb : host.database? connection.place = some db)
    (hdesired : readRealm documents.combine = .ok desired) :
    liveChanges (clientOn connection) documents host = .ok (db.inspect.diff desired) := by
  simp only [liveChanges, hdesired, clientOn, Sqlite.Connection.inspect?, hdb, bind, Except.bind,
    Option.map_some, pure, Except.pure]

/-- Statements that a connection carries out are carried out in its database. -/
theorem execute_clientOn {statements : List Sql.Statement} {left : Host}
    (hplace : connection.place = .file path) (hdb : host.database? (.file path) = some db)
    (h : (clientOn connection).execute statements host = .ok left) :
    ∃ next, db.run? statements = some next ∧ left.database? (.file path) = some next := by
  simp only [clientOn] at h
  cases hrun : connection.run? statements host with
  | none => simp [hrun] at h
  | some reached =>
      simp only [hrun] at h
      cases h
      unfold Sqlite.Connection.run? at hrun
      simp only [hplace, hdb] at hrun
      split at hrun
      · cases hrun
      · simp only [bind, Option.bind_some, Option.bind_eq_some_iff, pure, Option.some.injEq] at hrun
        obtain ⟨next, hnext, rfl⟩ := hrun
        exact ⟨next, hnext, database?_setDatabase hdb next⟩

/-- The realm that documents describe is well formed. -/
theorem wellFormed_readRealm {document : String} {desired : Realm}
    (h : readRealm document = .ok desired) : desired.WellFormed ∧ desired.IsNormal := by
  unfold readRealm at h
  cases hparse : Realm.parse document with
  | error error =>
      rw [hparse] at h
      cases h
  | ok r =>
      rw [hparse] at h
      cases h
      exact Realm.wellFormed_parse hparse

namespace Planner

/-- Whether a call for a project finds its database in a file, and what is in it. -/
def Finds (p : Planner Host) (st : State Host) (project path : String) (db : Sqlite.Database) :
    Prop :=
  ∃ connection host, p.resolve st project = .ok (.native (clientOn connection), host) ∧
    connection.place = .file path ∧ host.database? (.file path) = some db

variable {p : Planner Host} {st : State Host} {accounts : Accounts} {project : String}
  {documents : Documents} {desired : Realm}

/-- What an apply leaves in the database that it finds: what was there, if nothing was to change,
and otherwise what the statements of the changes made of it. -/
theorem database_apply {plan : Planned} {migrations : List Migration}
    (h : st.ledger.Holds accounts) (hplan : (accounts project).onRecord = some plan)
    (hfinds : p.Finds st project path db)
    (hdesired : readRealm plan.documents.combine = .ok desired)
    (happly : (p.apply st project migrations (some plan.generation)).2 = .ok ()) :
    ∃ next, (p.apply st project migrations (some plan.generation)).1.world.database? (.file path) =
        some next ∧
      ((db.inspect.diff desired = [] ∧ next = db) ∨
        db.run? (Sql.Statement.ofChanges (db.inspect.diff desired)) = some next) := by
  obtain ⟨connection, host, hresolve, hplace, hdb⟩ := hfinds
  obtain ⟨found, strategy, world, hfound, -, hresolved, hfinish⟩ := p.apply_eq_finish h happly
  cases hplan.symm.trans hfound
  cases hresolve.symm.trans hresolved
  have hlive := liveChanges_clientOn (by rw [hplace, hdb]) hdesired
  rw [hfinish] at happly ⊢
  obtain ⟨next, hcarry, hworld⟩ := State.finish_eq_ok happly
  rw [hworld]
  simp only [State.carryOut_native, hlive] at hcarry
  split at hcarry
  · rename_i hempty
    cases hcarry
    exact ⟨db, hdb, .inl ⟨List.isEmpty_iff.mp hempty, rfl⟩⟩
  · obtain ⟨left, hexecute, rfl⟩ := map_eq_ok_iff.mp hcarry
    obtain ⟨reached, hrun, hleft⟩ := execute_clientOn hplace hdb hexecute
    exact ⟨reached, hleft, .inr hrun⟩

theorem checkPlanInput_of_plan {now : Instant} {proposal : Proposal}
    (h : (p.plan st now project documents).2 = .ok proposal) :
    checkPlanInput project documents = .ok () := by
  unfold plan at h
  cases hinput : checkPlanInput project documents with
  | error error => simp [hinput] at h
  | ok u => rfl

/-- A plan against the database that it finds succeeds, changes nothing but the ledger, and has
changes just if there is a difference. -/
theorem plan_of_resolve (h : st.ledger.Holds accounts) {now : Instant} (hnow : st.ledger.Keeps now)
    (hinput : checkPlanInput project documents = .ok ())
    (hresolve : p.resolve st project = .ok (.native (clientOn connection), host))
    (hdb : host.database? connection.place = some db)
    (hdesired : readRealm documents.combine = .ok desired) :
    ∃ proposal, p.plan st now project documents =
        ({ st with ledger := (st.ledger.savePlan project documents now).1, world := host },
          .ok proposal) ∧
      proposal.token = (accounts project).generation + 1 ∧
      (proposal.hasChanges = false ↔ db.inspect.diff desired = []) := by
  obtain ⟨mid, hmid⟩ : ∃ mid : State Host, mid = { st with world := host } := ⟨_, rfl⟩
  have hlive := liveChanges_clientOn hdb hdesired
  have hplan : p.plan st now project documents =
      mid.planWith (.native (clientOn connection)) now project documents := by
    simp only [plan, hinput, hresolve, hmid]
  have hmigrations : ∃ migrations,
      mid.migrationsFor (.native (clientOn connection)) now project documents =
        .ok (migrations, nativeSummary migrations) ∧
      (migrations = [] ↔ db.inspect.diff desired = []) := by
    have hworld : mid.world = host := by rw [hmid]
    simp only [State.migrationsFor, nativeMigrations, hworld, hlive, bind, Except.bind, pure,
      Except.pure]
    by_cases hempty : (db.inspect.diff desired).isEmpty = true
    · rw [if_pos hempty]
      exact ⟨[], rfl, iff_of_true rfl (List.isEmpty_iff.mp hempty)⟩
    · rw [if_neg hempty]
      exact ⟨_, rfl, iff_of_false (List.cons_ne_nil _ _) fun hnil =>
        hempty (List.isEmpty_iff.mpr hnil)⟩
  obtain ⟨migrations, hfound, hnone⟩ := hmigrations
  have htoken := (Ledger.savePlan_of_holds h project documents hnow).1
  have hledger : mid.ledger = st.ledger := by rw [hmid]
  rw [hplan]
  simp only [State.planWith, hinput, hfound, hledger, htoken]
  refine ⟨⟨migrations, !migrations.isEmpty, nativeSummary migrations,
    (accounts project).generation + 1⟩, ?_, rfl, ?_⟩
  · rw [hmid]
  · simp [← hnone]

end Planner

/-- Documents that were planned and applied in a database in a file are planned there again
without changes just if the database tells all that was changed as it was wanted. Nothing else may
touch the database in between, whatever else happens, and every name in its indexes is that of a
column. -/
theorem replanned_hasChanges_iff (p : Planner Host) {start : Ledger}
    (hstart : start = .emptyMemory ∨ start = .emptyDatabase) (vault : Vault) (world : Host)
    {before between after : List (Happening Host)}
    (hkept : ∀ happening ∈ before ++ between ++ after, happening.KeptBy start)
    {now later : Instant} (hnow : start.Keeps now) (hlater : start.Keeps later) {project : String}
    {documents : Documents} {proposal : Proposal} {migrations : List Migration}
    {st₀ st₁ st₂ : State Host} (h₀ : st₀ = Happening.runAll p ⟨vault, start, world⟩ before)
    (h₁ : st₁ = Happening.runAll p (p.plan st₀ now project documents).1 between)
    (h₂ : st₂ = Happening.runAll p
      (p.apply st₁ project migrations (some proposal.token)).1 after)
    (hplan : (p.plan st₀ now project documents).2 = .ok proposal)
    (happly : (p.apply st₁ project migrations (some proposal.token)).2 = .ok ())
    {path : String} {db left : Sqlite.Database} (hfinds₀ : p.Finds st₀ project path db)
    (hfinds₁ : p.Finds st₁ project path db)
    (hleft : (p.apply st₁ project migrations (some proposal.token)).1.world.database?
      (.file path) = some left)
    (hfinds₂ : p.Finds st₂ project path left) (hdb : db.Reachable) (hnames : db.NamesColumns)
    {desired : Realm} (hdesired : readRealm documents.combine = .ok desired)
    (hplain : ∀ statement ∈ Sql.Statement.ofChanges (db.inspect.diff desired),
      (Command.plain? statement).isSome = true) :
    ∃ next, (p.plan st₂ later project documents).2 = .ok next ∧
      (next.hasChanges = false ↔ ∀ change ∈ db.inspect.diff desired, change.ReadsBack) ∧
      (p.plan st₂ later project documents).1.world.database? (.file path) = some left := by
  obtain ⟨⟨accounts, hholds₀⟩, hkeeps₀⟩ := Happening.exists_holds_runAll p hstart vault world
    fun happening hmem => hkept happening (List.mem_append_left _ (List.mem_append_left _ hmem))
  rw [← h₀] at hholds₀ hkeeps₀
  obtain ⟨-, -, -, htoken, -, hafter⟩ := p.plan_eq_ok hholds₀ ((hkeeps₀ now).mpr hnow) hplan
  have hkeeps (time : Instant) :
      (p.plan st₀ now project documents).1.ledger.Keeps time ↔ start.Keeps time :=
    (Happening.keeps_run p st₀ (.plan now project documents) time).trans (hkeeps₀ time)
  obtain ⟨accounts₁, hholds₁, hprecedes⟩ := Happening.holds_runAll p hafter
    fun happening hmem => (Happening.keptBy_congr hkeeps happening).mpr
      (hkept happening (List.mem_append_left _ (List.mem_append_right _ hmem)))
  have hkeeps₁ (time : Instant) : st₁.ledger.Keeps time ↔ start.Keeps time := by
    rw [h₁]
    exact (Happening.keeps_runAll p _ between time).trans (hkeeps time)
  rw [← h₁] at hholds₁
  -- The apply succeeded, so no later plan took the place of the first one.
  obtain ⟨plan, -, -, hrecord, hgeneration, -, -⟩ := p.apply_eq_finish hholds₁ happly
  have hplanned := (hprecedes project).1.onRecord hrecord (by
    rw [hgeneration, htoken, Function.update_self]
    rfl)
  rw [Function.update_self] at hplanned
  have hdocuments : plan.documents = documents := by
    rw [← Option.some.inj hplanned]
  obtain ⟨reached, hreached, hcases⟩ := Planner.database_apply hholds₁ hrecord hfinds₁
    (by rw [hdocuments, hdesired]) (by rw [hgeneration]; exact happly)
  rw [hgeneration, hleft] at hreached
  cases hreached
  have happlied : Happening.KeptBy st₁.ledger
      (.apply project migrations (some proposal.token) : Happening Host) := trivial
  obtain ⟨mid, hmid, -⟩ := Happening.holds_run p hholds₁ happlied
  have hkeeps₂ (time : Instant) :
      (p.apply st₁ project migrations (some proposal.token)).1.ledger.Keeps time ↔
        start.Keeps time :=
    (Happening.keeps_run p st₁ (.apply project migrations (some proposal.token)) time).trans
      (hkeeps₁ time)
  obtain ⟨accounts₂, hholds₂, -⟩ := Happening.holds_runAll p hmid
    fun happening hmem => (Happening.keptBy_congr hkeeps₂ happening).mpr
      (hkept happening (List.mem_append_right _ hmem))
  have hlater₂ : st₂.ledger.Keeps later := by
    rw [h₂]
    exact (Happening.keeps_runAll p _ after later).mpr ((hkeeps₂ later).mpr hlater)
  have hst₂ : st₂.ledger.Holds accounts₂ := by
    rw [h₂]
    exact hholds₂
  obtain ⟨connection, found, hresolve, hplace, hfound⟩ := hfinds₂
  obtain ⟨next, hnext, -, hchanges⟩ := Planner.plan_of_resolve hst₂ hlater₂
    (Planner.checkPlanInput_of_plan hplan) hresolve (hplace ▸ hfound) hdesired
  rw [hnext]
  refine ⟨next, rfl, hchanges.trans ?_, hfound⟩
  rcases hcases with ⟨hnone, rfl⟩ | hrun
  · rw [hnone]
    exact iff_of_true rfl (by simp)
  · obtain ⟨hwell, hnormal⟩ := wellFormed_readRealm hdesired
    exact Sqlite.Database.diff_inspect_run?_eq_nil_iff ⟨hdb.sound, hnames⟩ hwell hnormal hplain hrun

section Parenthesized

/-- Documents of a table with a default in parentheses. -/
def countsDocuments : Documents :=
  .ofList [("main", "table t \x7b column id \x7b type = integer \n default = sql(\"(1)\") \x7d \x7d")]

/-- The table of these documents. -/
def countsTable : Table := ⟨"t", [⟨"id", "INTEGER", false, some "(1)"⟩], [], .empty⟩

/-- The URL of a database in a file, sealed under the key of zeros. -/
def sealedFileUrl : String := "AAAAAAAAAAAAAAAAvdYsVDkFUUF/pObpvdMYpAvYwhFgmo7DLA=="

/-- A vault that holds the URL of a shop's database in a file. -/
def fileVault : Vault :=
  ⟨.memory (.insertAt .empty "shop" "database_url"
    ⟨"shop", "database_url", sealedFileUrl, .epoch⟩), zeroKey⟩

/-- A host with that file. -/
def fileHost (databases : NameMap Sqlite.Database) : Host :=
  ⟨NameMap.insert .empty "x" (.file []), databases⟩

/-- A planner for databases in files and in memory. -/
def filePlanner : Planner Host := ⟨[sqliteEngine], {}⟩

/-- The database after the table is created. -/
def countsDatabase : Sqlite.Database :=
  (Sqlite.Database.empty.run? (Sql.Statement.ofChanges [.addTable countsTable])).getD .empty

/-- The state before the shop has a table. -/
def uncounted : State Host := ⟨fileVault, .emptyMemory, fileHost .empty⟩

/-- The state after the plan of the documents. -/
def counting : State Host :=
  ⟨fileVault, .memory (NameMap.empty.insert "shop"
    (.ofAccount (Account.plan {} countsDocuments .epoch))), fileHost .empty⟩

/-- The state after the plan was applied. -/
def counted : State Host :=
  ⟨fileVault, .memory ((NameMap.empty.insert "shop"
    (.ofAccount (Account.plan {} countsDocuments .epoch))).insert "shop" ⟨1, none, none⟩),
    fileHost (.insert .empty "x" countsDatabase)⟩

theorem readRealm_countsDocuments :
    readRealm countsDocuments.combine = .ok ⟨.ofList [("t", countsTable)]⟩ := by
  cbv

theorem openText_sealedFileUrl : (Vault.openText zeroKey sealedFileUrl).toOption =
    some [115, 113, 108, 105, 116, 101, 58, 47, 120] := by
  have hopen : Vault.openText Vault.zeroKey sealedFileUrl =
      .ok [115, 113, 108, 105, 116, 101, 58, 47, 120] :=
    Vault.openText_of_zeroCipher (by decide) (by decide +kernel)
  exact congrArg Except.toOption hopen

theorem get_fileVault : fileVault.get "shop" "database_url" = .ok ⟨"sqlite:/x"⟩ := by
  have hrecord : fileVault.store.get "shop" "database_url" =
      .ok (some ⟨"shop", "database_url", sealedFileUrl, .epoch⟩) := rfl
  refine get_of_openText rfl hrecord openText_sealedFileUrl ?_
  cbv

theorem resolve_fileHost (ledger : Ledger) (databases : NameMap Sqlite.Database) :
    filePlanner.resolve ⟨fileVault, ledger, fileHost databases⟩ "shop" =
      .ok (.native (clientOn ⟨.file "x", true, false⟩), fileHost databases) := by
  refine @Planner.resolve_of_connect _ _ _ _ _ sqliteEngine _ _ get_fileVault rfl rfl ?_
  have htrim : Text.trim (Secret.expose ⟨"sqlite:/x"⟩) = "sqlite:/x" := by cbv
  have hconnect : sqliteEngine.connect "sqlite:/x" (fileHost databases) =
      .ready (clientOn ⟨.file "x", true, false⟩) (fileHost databases) := by cbv
  simp only [Planner.connect, htrim, hconnect]

theorem diff_countsTable : Sqlite.Database.empty.inspect.diff ⟨.ofList [("t", countsTable)]⟩ =
    [.addTable countsTable] := by
  decide

theorem plain_countsTable : ∀ statement ∈ Sql.Statement.ofChanges [.addTable countsTable],
    (Command.plain? statement).isSome = true := by
  decide +kernel

theorem run?_countsTable : Sqlite.Database.empty.run?
    (Sql.Statement.ofChanges [.addTable countsTable]) = some countsDatabase := by
  have hsome : (Sqlite.Database.empty.run?
      (Sql.Statement.ofChanges [.addTable countsTable])).isSome = true := by decide +kernel
  obtain ⟨next, hnext⟩ := Option.isSome_iff_exists.mp hsome
  rw [countsDatabase, hnext, Option.getD_some]

theorem plan_uncounted : ∃ proposal,
    filePlanner.plan uncounted .epoch "shop" countsDocuments = (counting, .ok proposal) ∧
      proposal.token = 1 := by
  obtain ⟨proposal, hplan, htoken, -⟩ := @Planner.plan_of_resolve (fileHost .empty)
    ⟨.file "x", true, false⟩ .empty filePlanner uncounted _ "shop" countsDocuments _
    Ledger.holds_emptyMemory .epoch trivial rfl (resolve_fileHost _ _) rfl
    readRealm_countsDocuments
  exact ⟨proposal, hplan, htoken⟩

theorem apply_counting : filePlanner.apply counting "shop" [] (some 1) = (counted, .ok ()) := by
  have hcheck : checkProject "shop" = .ok () := rfl
  have hdatabase : (fileHost .empty).database? (.file "x") = some .empty := rfl
  have hran : Sqlite.Connection.run? ⟨.file "x", true, false⟩
      (Sql.Statement.ofChanges [.addTable countsTable]) (fileHost .empty) =
        some (fileHost (.insert .empty "x" countsDatabase)) := by
    simp only [Sqlite.Connection.run?, hdatabase, bind, Option.bind_some, run?_countsTable]
    rfl
  have hexecute : (clientOn ⟨.file "x", true, false⟩).execute
      (Sql.Statement.ofChanges [.addTable countsTable]) (fileHost .empty) =
        .ok (fileHost (.insert .empty "x" countsDatabase)) := by
    simp only [clientOn, hran]
  have hlive := @liveChanges_clientOn (fileHost .empty) ⟨.file "x", true, false⟩ .empty
    countsDocuments _ hdatabase readRealm_countsDocuments
  have hplanned : counting.ledger.getPlan "shop" = .ok (some ⟨1, countsDocuments, .epoch⟩) := rfl
  have hresolve : filePlanner.resolve counting "shop" =
      .ok (.native (clientOn ⟨.file "x", true, false⟩), fileHost .empty) := resolve_fileHost _ _
  rw [Planner.apply_of_resolve hcheck hresolve]
  simp only [hcheck, State.applyWith, hplanned, State.carryOut_native, hlive, diff_countsTable,
    hexecute, List.isEmpty_cons, Bool.false_eq_true, if_false, Except.map]
  rfl

/-- A default in parentheses is read back without them, so its documents are planned again with
changes. -/
theorem replanned_hasChanges_counts :
    (∃ proposal, filePlanner.plan uncounted .epoch "shop" countsDocuments =
      (counting, .ok proposal) ∧ proposal.token = 1) ∧
    filePlanner.apply counting "shop" [] (some 1) = (counted, .ok ()) ∧
    ¬ (SchemaChange.addTable countsTable).ReadsBack ∧
    ∃ next, (filePlanner.plan counted .epoch "shop" countsDocuments).2 = .ok next ∧
      next.hasChanges = true := by
  obtain ⟨proposal, hplan, htoken⟩ := plan_uncounted
  have hparentheses : ¬ (SchemaChange.addTable countsTable).ReadsBack := by
    rintro ⟨-, -, hcolumns⟩
    exact hcolumns _ List.mem_cons_self "(1)" rfl rfl
  obtain ⟨next, hnext, hchanges, -⟩ :=
    @replanned_hasChanges_iff filePlanner .emptyMemory (.inl rfl) fileVault (fileHost .empty)
      [] [] [] (by simp) .epoch .epoch trivial trivial "shop" countsDocuments proposal []
      uncounted counting counted rfl (by rw [hplan, Happening.runAll_nil])
      (by rw [htoken, apply_counting, Happening.runAll_nil]) (by rw [hplan])
      (by rw [htoken, apply_counting]) "x" .empty countsDatabase
      ⟨_, _, resolve_fileHost _ _, rfl, rfl⟩ ⟨_, _, resolve_fileHost _ _, rfl, rfl⟩
      (by rw [htoken, apply_counting]; rfl) ⟨_, _, resolve_fileHost _ _, rfl, rfl⟩
      .empty Sqlite.Database.regular_empty.names _ readRealm_countsDocuments
      (by rw [diff_countsTable]; exact plain_countsTable)
  refine ⟨⟨proposal, hplan, htoken⟩, apply_counting, hparentheses, next, hnext, ?_⟩
  rw [diff_countsTable, List.forall_mem_singleton] at hchanges
  by_contra hnone
  exact hparentheses (hchanges.mp (Bool.not_eq_true _ ▸ hnone))

end Parenthesized

end ProjectHub.Plan
