import ProjectHub.Proofs.Plan.Failure
import ProjectHub.Proofs.Vault.Keeping

/-!
# Falling back on documents

Without a database that can be reached a project is planned and applied by its
documents, exactly as under that strategy chosen by hand. Whatever else goes
wrong on the way to its database is what the call fails with, and then nothing
changes; a secret that cannot be opened is among that.
-/

namespace ProjectHub.Plan

variable {W : Type}

/-- Whether an attempt to connect finds no database to reach. -/
inductive Connection.Unreachable : Connection W → Prop where
  | scheme (scheme : String) : Unreachable (.failed (.unsupportedScheme scheme))
  | refused (reason : String) : Unreachable (.failed (.connect reason))
  | late (seconds : Nat) : Unreachable (.failed (.connectTimeout seconds))
  | never : Unreachable .never

theorem Error.isUnreachable_iff {error : Error} :
    error.isUnreachable = true ↔ (Connection.failed error : Connection W).Unreachable := by
  constructor
  · intro h
    cases error with
    | unsupportedScheme scheme => exact .scheme scheme
    | connect reason => exact .refused reason
    | connectTimeout seconds => exact .late seconds
    | _ => cases h
  · intro h
    cases h <;> rfl

/-- An error tells that something does not answer exactly when it tells of a database that
cannot be reached. -/
theorem Error.kind_eq_unavailable_iff {error : Error} :
    error.kind = .unavailable ↔ error.isUnreachable = true := by
  cases error with
  | vault error => cases error <;> simp [kind, Vault.Error.kind, isUnreachable]
  | _ => simp [kind, isUnreachable]

namespace Planner

variable (p : Planner W) (st : State W) (project : String)

/-- The URL that the secret of a project holds, blanks around it aside. -/
def HasUrl (url : String) : Prop :=
  ∃ secret, st.vault.get project p.options.databaseUrlKey = .ok secret ∧
    Text.trim secret.expose = url

/-- The engine that is asked for a URL: the first one that is for it. -/
def Asks (url : String) (engine : Engine W) : Prop :=
  engine.supports url = true ∧ ∃ before after, p.engines = before ++ engine :: after ∧
    ∀ other ∈ before, other.supports url = false

/-- Whether a project has no database that can be reached. -/
inductive FallsBack : Prop where
  /-- The secret of the database is not there. -/
  | absent (hkey : p.options.databaseUrlKey ≠ "")
    (h : st.vault.store.get project p.options.databaseUrlKey = .ok none)
  /-- The secret is blank. -/
  | blank (h : p.HasUrl st project "")
  /-- No engine is for the URL. -/
  | unsupported {url : String} (hurl : p.HasUrl st project url)
    (h : ∀ engine ∈ p.engines, engine.supports url = false)
  /-- The engine for the URL finds no database. -/
  | unreachable {url : String} {engine : Engine W} (hurl : p.HasUrl st project url)
    (hasks : p.Asks url engine) (h : (engine.connect url st.world).Unreachable)

/-- What goes wrong on the way to the database of a project. -/
inductive Fails : Error → Prop where
  /-- The secret of the database has no name. -/
  | name (hkey : p.options.databaseUrlKey = "") : Fails (.vault .emptyKey)
  /-- The store of secrets fails. -/
  | store {error : Storage.Error} (hkey : p.options.databaseUrlKey ≠ "")
    (h : st.vault.store.get project p.options.databaseUrlKey = .error error) :
    Fails (.vault (.store error))
  /-- What is stored does not open under the key of the vault. -/
  | sealed {record : Vault.Record} {error : Vault.Error} (hkey : p.options.databaseUrlKey ≠ "")
    (hrecord : st.vault.store.get project p.options.databaseUrlKey = .ok (some record))
    (h : Vault.openText st.vault.masterKey record.sealed = .error error) : Fails (.vault error)
  /-- What is stored opens to bytes that are no text. -/
  | text {record : Vault.Record} {plain : List UInt8} (hkey : p.options.databaseUrlKey ≠ "")
    (hrecord : st.vault.store.get project p.options.databaseUrlKey = .ok (some record))
    (hplain : Vault.openText st.vault.masterKey record.sealed = .ok plain)
    (h : Text.ofUtf8? plain = none) : Fails (.vault (.unreadable .notText))
  /-- The engine for the URL fails otherwise than by not reaching a database. -/
  | engine {url : String} {engine : Engine W} {error : Error} (hurl : p.HasUrl st project url)
    (hnotBlank : url ≠ "") (hasks : p.Asks url engine)
    (hconnect : engine.connect url st.world = .failed error)
    (h : ¬ (engine.connect url st.world).Unreachable) : Fails error

/-- Whether the database of a project is reached, by a client and in a world. -/
def Reaches (client : Client W) (world : W) : Prop :=
  ∃ url engine, p.HasUrl st project url ∧ url ≠ "" ∧ p.Asks url engine ∧
    engine.connect url st.world = .ready client world

end Planner

section Resolving

variable {p : Planner W} {st : State W} {project : String}

theorem Planner.find?_eq_some_of_asks {url : String} {engine : Engine W} (h : p.Asks url engine) :
    (p.engines.find? fun engine => engine.supports url) = some engine := by
  obtain ⟨hsupports, before, after, hengines, hbefore⟩ := h
  rw [List.find?_eq_some_iff_append]
  exact ⟨hsupports, before, after, hengines, fun other hother => by simp [hbefore other hother]⟩

theorem Planner.asks_of_find? {url : String} {engine : Engine W}
    (h : (p.engines.find? fun engine => engine.supports url) = some engine) :
    p.Asks url engine := by
  obtain ⟨hsupports, before, after, hengines, hbefore⟩ := List.find?_eq_some_iff_append.mp h
  exact ⟨hsupports, before, after, hengines, fun other hother => by simpa using hbefore other hother⟩

theorem Planner.resolve_of_fallsBack (hproject : project ≠ "") (h : p.FallsBack st project) :
    p.resolve st project = .ok (.contentHash, st.world) := by
  cases h with
  | absent hkey h =>
      have hget : st.vault.get project p.options.databaseUrlKey =
          .error (.notFound project p.options.databaseUrlKey) := by
        rw [Vault.get, Vault.checkNames_eq_ok hproject hkey, h]
        rfl
      simp only [resolve, hget, Vault.Error.isNotFound, if_true]
  | blank h =>
      obtain ⟨secret, hsecret, hurl⟩ := h
      have hempty : (Text.trim secret.expose).isEmpty = true := String.isEmpty_iff.mpr hurl
      simp only [resolve, hsecret, hempty, if_true]
  | unsupported hurl h =>
      obtain ⟨secret, hsecret, rfl⟩ := hurl
      have hnone : (p.engines.find? fun engine => engine.supports (Text.trim secret.expose)) =
          none := List.find?_eq_none.mpr fun engine hengine => by simp [h engine hengine]
      simp only [resolve, hsecret, hnone, ite_self]
  | @unreachable url engine hurl hasks h =>
      obtain ⟨secret, hsecret, rfl⟩ := hurl
      have hengine := find?_eq_some_of_asks hasks
      cases hempty : (Text.trim secret.expose).isEmpty with
      | true => simp only [resolve, hsecret, hempty, if_true]
      | false =>
          cases hconnect : engine.connect (Text.trim secret.expose) st.world with
          | ready client world =>
              rw [hconnect] at h
              cases h
          | never =>
              refine @resolve_of_unreachable _ _ _ _ _ _ (.connectTimeout p.options.connectTimeout)
                hsecret hempty hengine ?_ rfl
              simp only [connect, hconnect]
          | failed error =>
              rw [hconnect] at h
              refine @resolve_of_unreachable _ _ _ _ _ _ error hsecret hempty hengine ?_
                (Error.isUnreachable_iff.mpr h)
              simp only [connect, hconnect]

theorem Planner.resolve_of_fails {error : Error} (hproject : project ≠ "")
    (h : p.Fails st project error) : p.resolve st project = .error error := by
  -- whatever the vault fails with here, it is not that the secret is absent
  have hvault {fault : Vault.Error}
      (hget : st.vault.get project p.options.databaseUrlKey = .error fault)
      (hfault : fault.isNotFound = false) : p.resolve st project = .error (.vault fault) := by
    simp only [resolve, hget, hfault, Bool.false_eq_true, if_false]
  have hnames (hkey : p.options.databaseUrlKey ≠ "") :=
    Vault.checkNames_eq_ok hproject hkey
  cases h with
  | name hkey =>
      refine hvault ?_ rfl
      simp [Vault.get, Vault.checkNames, hproject, hkey, bind, Except.bind]
  | store hkey h =>
      refine hvault ?_ rfl
      rw [Vault.get, hnames hkey, h]
      rfl
  | @sealed record fault hkey hrecord h =>
      obtain ⟨plain, hplain⟩ | ⟨reason, hreason⟩ :=
        Vault.openText_cases st.vault.masterKey record.sealed
      · rw [hplain] at h
        cases h
      · obtain rfl : Vault.Error.unreadable reason = fault :=
          Except.error.inj (hreason.symm.trans h)
        refine hvault ?_ rfl
        simp only [Vault.get, hnames hkey, hrecord, hreason, bind, Except.bind, Except.mapError]
  | text hkey hrecord hplain h =>
      refine hvault ?_ rfl
      simp only [Vault.get, hnames hkey, hrecord, hplain, h, bind, Except.bind, Except.mapError]
      rfl
  | @engine url engine error hurl hnotBlank hasks hconnect h =>
      obtain ⟨secret, hsecret, rfl⟩ := hurl
      have hempty : (Text.trim secret.expose).isEmpty = false := by
        simpa [String.isEmpty_iff] using hnotBlank
      have hunreachable : error.isUnreachable = false := by
        rw [hconnect, ← Error.isUnreachable_iff] at h
        exact Bool.not_eq_true _ ▸ h
      simp only [resolve, hsecret, hempty, find?_eq_some_of_asks hasks, connect, hconnect,
        hunreachable, Bool.false_eq_true, if_false]

theorem Planner.resolve_of_reaches {client : Client W} {world : W}
    (h : p.Reaches st project client world) :
    p.resolve st project = .ok (.native client, world) := by
  obtain ⟨url, engine, ⟨secret, hsecret, rfl⟩, hnotBlank, hasks, hconnect⟩ := h
  refine resolve_of_connect hsecret (by simpa [String.isEmpty_iff] using hnotBlank)
    (find?_eq_some_of_asks hasks) ?_
  simp only [connect, hconnect]

/-- A vault gives a text under two names, or it fails in one of the ways that are told apart
here. -/
theorem Planner.hasUrl_or_fails (hproject : project ≠ "") :
    (∃ url, p.HasUrl st project url) ∨ p.FallsBack st project ∨
      ∃ error, p.Fails st project error := by
  by_cases hkey : p.options.databaseUrlKey = ""
  · exact .inr (.inr ⟨_, .name hkey⟩)
  cases hrecord : st.vault.store.get project p.options.databaseUrlKey with
  | error fault => exact .inr (.inr ⟨_, .store hkey hrecord⟩)
  | ok found =>
      cases found with
      | none => exact .inr (.inl (.absent hkey hrecord))
      | some record =>
          cases hplain : Vault.openText st.vault.masterKey record.sealed with
          | error fault => exact .inr (.inr ⟨_, .sealed hkey hrecord hplain⟩)
          | ok plain =>
              cases hvalue : Text.ofUtf8? plain with
              | none => exact .inr (.inr ⟨_, .text hkey hrecord hplain hvalue⟩)
              | some value =>
                  have hget : st.vault.get project p.options.databaseUrlKey = .ok ⟨value⟩ := by
                    simp only [Vault.get, Vault.checkNames_eq_ok hproject hkey, hrecord, hplain,
                      hvalue, bind, Except.bind, Except.mapError, pure, Except.pure]
                  exact .inl ⟨_, ⟨value⟩, hget, rfl⟩

/-- A project falls back, or something goes wrong on the way to its database, or the database is
reached. -/
theorem Planner.fallsBack_or_fails_or_reaches (hproject : project ≠ "") :
    p.FallsBack st project ∨ (∃ error, p.Fails st project error) ∨
      ∃ client world, p.Reaches st project client world := by
  rcases p.hasUrl_or_fails hproject with ⟨url, hurl⟩ | hback | hfails
  · by_cases hblank : url = ""
    · exact .inl (.blank (hblank ▸ hurl))
    cases hengine : p.engines.find? fun engine => engine.supports url with
    | none =>
        refine .inl (.unsupported hurl fun engine hmem => ?_)
        simpa using List.find?_eq_none.mp hengine engine hmem
    | some engine =>
        have hasks := asks_of_find? hengine
        by_cases hunreachable : (engine.connect url st.world).Unreachable
        · exact .inl (.unreachable hurl hasks hunreachable)
        cases hconnect : engine.connect url st.world with
        | never => exact absurd (hconnect ▸ .never) hunreachable
        | failed error => exact .inr (.inl ⟨error, .engine hurl hblank hasks hconnect hunreachable⟩)
        | ready client world =>
            exact .inr (.inr ⟨client, world, url, engine, hurl, hblank, hasks, hconnect⟩)
  · exact .inl hback
  · exact .inr (.inl hfails)

/-- The ways a project can go exclude one another. -/
theorem Planner.fallsBack_fails_reaches_disjoint (hproject : project ≠ "") :
    ¬ (p.FallsBack st project ∧ ∃ error, p.Fails st project error) ∧
      ¬ (p.FallsBack st project ∧ ∃ client world, p.Reaches st project client world) ∧
      ¬ ((∃ error, p.Fails st project error) ∧
        ∃ client world, p.Reaches st project client world) := by
  refine ⟨?_, ?_, ?_⟩
  · rintro ⟨hback, error, hfails⟩
    cases (resolve_of_fallsBack hproject hback).symm.trans (resolve_of_fails hproject hfails)
  · rintro ⟨hback, client, world, hreaches⟩
    cases (resolve_of_fallsBack hproject hback).symm.trans (resolve_of_reaches hreaches)
  · rintro ⟨⟨error, hfails⟩, client, world, hreaches⟩
    cases (resolve_of_fails hproject hfails).symm.trans (resolve_of_reaches hreaches)

end Resolving

/-! ## What calls fail with -/

/-- Whether a client reports every failure as one of the database. -/
def Client.ReportsEngine (client : Client W) : Prop :=
  (∀ world error, client.inspect world = .error error → ∃ reason, error = .engine reason) ∧
    ∀ statements world error, client.execute statements world = .error error →
      ∃ reason, error = .engine reason

theorem clientOn_reportsEngine (connection : Sqlite.Connection) :
    (clientOn connection).ReportsEngine :=
  ⟨fun _ _ h => ⟨_, clientOn_error (.inl h)⟩, fun _ _ _ h => ⟨_, clientOn_error (.inr ⟨_, h⟩)⟩⟩

theorem ne_empty_of_checkProject {project : String} (h : checkProject project = .ok ()) :
    project ≠ "" := by
  rintro rfl
  cases h

namespace State

variable {st : State W} {strategy : Strategy W}
  (hstrategy : ∀ client, strategy = .native client → client.ReportsEngine)
include hstrategy

theorem migrationsFor_isUnreachable {now : Instant} {project : String} {documents : Documents}
    {error : Error} (h : st.migrationsFor strategy now project documents = .error error) :
    error.isUnreachable = false := by
  cases strategy with
  | native client =>
      simp only [migrationsFor, nativeMigrations, bind, Except.bind] at h
      cases hchanges : liveChanges client documents st.world with
      | error fault =>
          simp only [hchanges, Except.error.injEq] at h
          subst h
          rcases liveChanges_error hchanges with ⟨reason, rfl⟩ | hinspect
          · rfl
          · obtain ⟨reason, rfl⟩ := (hstrategy client rfl).1 _ _ hinspect
            rfl
      | ok changes =>
          simp only [hchanges, pure, Except.pure] at h
          split at h <;> cases h
          rename_i heq
          split at heq <;> cases heq
  | contentHash =>
      simp only [migrationsFor, bind, Except.bind] at h
      cases hstate : st.ledger.getState project with
      | error fault =>
          simp only [hstate, Except.mapError, Except.error.injEq] at h
          subst h
          rfl
      | ok found => simp [hstate, Except.mapError, pure, Except.pure] at h

theorem planWith_isUnreachable {now : Instant} {project : String} {documents : Documents}
    {error : Error} (h : (st.planWith strategy now project documents).2 = .error error) :
    error.isUnreachable = false := by
  unfold planWith at h
  cases hinput : checkPlanInput project documents with
  | error fault =>
      simp only [hinput, Except.error.injEq] at h
      subst h
      rcases checkPlanInput_error hinput with rfl | rfl <;> rfl
  | ok u =>
      cases hfound : st.migrationsFor strategy now project documents with
      | error fault =>
          simp only [hinput, hfound, Except.error.injEq] at h
          exact h ▸ migrationsFor_isUnreachable hstrategy hfound
      | ok found =>
          simp only [hinput, hfound] at h
          split at h <;> cases h
          rfl

theorem carryOut_isUnreachable {project : String} {documents : Documents} {error : Error}
    (h : st.carryOut strategy project documents = .error error) : error.isUnreachable = false := by
  obtain ⟨client, hclient, ⟨fault, rfl⟩ | hinspect | ⟨statements, hexecute⟩⟩ := carryOut_error h
  · rfl
  · obtain ⟨reason, rfl⟩ := (hstrategy client hclient).1 _ _ hinspect
    rfl
  · obtain ⟨reason, rfl⟩ := (hstrategy client hclient).2 _ _ _ hexecute
    rfl

theorem applyWith_isUnreachable {project : String} {migrations : List Migration}
    {token : Option Nat} {error : Error}
    (h : (st.applyWith strategy project migrations token).2 = .error error) :
    error.isUnreachable = false := by
  unfold applyWith at h
  cases hproject : checkProject project with
  | error fault =>
      simp only [hproject, Except.error.injEq] at h
      rw [← h, checkProject_error hproject]
      rfl
  | ok u =>
      cases hplan : st.ledger.getPlan project with
      | error fault =>
          simp only [hproject, hplan, Except.error.injEq] at h
          subst h
          rfl
      | ok found =>
          cases found with
          | none =>
              simp only [hproject, hplan] at h
              split at h <;> cases h
              rfl
          | some plan =>
              simp only [hproject, hplan] at h
              split at h
              · cases h
                rfl
              · cases hcarry : st.carryOut strategy project plan.documents with
                | error fault =>
                    simp only [hcarry, Except.error.injEq] at h
                    exact h ▸ carryOut_isUnreachable hstrategy hcarry
                | ok next =>
                    simp only [hcarry] at h
                    split at h <;> cases h
                    rfl

end State

section Calls

variable {p : Planner W} {st : State W} {project : String}

theorem Planner.fails_isUnreachable {error : Error} (h : p.Fails st project error) :
    error.isUnreachable = false := by
  cases h with
  | engine hurl hnotBlank hasks hconnect h =>
      rw [hconnect, ← Error.isUnreachable_iff] at h
      exact Bool.not_eq_true _ ▸ h
  | _ => rfl

/-- A call on a project that falls back is the one under the strategy of documents. -/
theorem Planner.calls_of_fallsBack (h : p.FallsBack st project) :
    (∀ now documents, p.plan st now project documents =
      st.planWith .contentHash now project documents) ∧
    ∀ migrations token, p.apply st project migrations token =
      st.applyWith .contentHash project migrations token := by
  have hresolve (hproject : checkProject project = .ok ()) :=
    resolve_of_fallsBack (ne_empty_of_checkProject hproject) h
  constructor
  · intro now documents
    cases hinput : checkPlanInput project documents with
    | error error => simp only [plan, State.planWith, hinput]
    | ok u => simp only [plan, hinput, hresolve (checkProject_of_input hinput)]
  · intro migrations token
    cases hproject : checkProject project with
    | error error => simp only [apply, State.applyWith, hproject]
    | ok u => simp only [apply, hproject, hresolve hproject]

/-- A call on a project whose database is reached works on that database. -/
theorem Planner.calls_of_reaches (hproject : checkProject project = .ok ()) {client : Client W}
    {world : W} (h : p.Reaches st project client world) :
    (∀ now documents, checkPlanInput project documents = .ok () →
      p.plan st now project documents =
        ({ st with world := world } : State W).planWith (.native client) now project documents) ∧
    ∀ migrations token, p.apply st project migrations token =
      ({ st with world := world } : State W).applyWith (.native client) project migrations
        token := by
  refine ⟨fun now documents hinput => ?_, apply_of_resolve hproject (resolve_of_reaches h)⟩
  simp only [plan, hinput, resolve_of_reaches h]

/-- A call on a project with something wrong on the way to its database fails with that. -/
theorem Planner.calls_of_fails (hproject : checkProject project = .ok ()) {error : Error}
    (h : p.Fails st project error) :
    (∀ now documents, checkPlanInput project documents = .ok () →
      p.plan st now project documents = (st, .error error)) ∧
    ∀ migrations token, p.apply st project migrations token = (st, .error error) := by
  have hresolve := resolve_of_fails (ne_empty_of_checkProject hproject) h
  refine ⟨fun now documents hinput => ?_, fun migrations token => ?_⟩
  · simp only [plan, hinput, hresolve]
  · simp only [apply, hproject, hresolve]

end Calls

section Ways

/-- A vault in which the URL of a shop's database was replaced by what is no sealed text. -/
def garbledVault : Vault :=
  ⟨.memory (.insertAt .empty "shop" "database_url" ⟨"shop", "database_url", "!", .epoch⟩), zeroKey⟩

/-- Why the secret in that vault cannot be opened. -/
def garbled : Error := .vault (.unreadable (.notBase64 (.invalidSymbol 33 0)))

end Ways

end ProjectHub.Plan
