import Mathlib
import ProjectHub.Proofs.Plan.Convergence
import ProjectHub.Proofs.Plan.Happening
import ProjectHub.Proofs.Plan.Tokens
import ProjectHub.Proofs.Sqlite.Connecting
import ProjectHub.Proofs.Vault.Sealing

/-!
# What a call leaves behind

A plan changes what is planned and nothing else, and a call that fails changes
nothing but files without content, which connecting may have made. After a failed
call the next one does what it would have done before, unless such a file keeps
the planner from the database that the path of the URL leads to.
-/

namespace ProjectHub.Plan

open Sqlite (Host Place Location Opening)

/-! ## Under a given strategy -/

namespace State

variable {W : Type} {st : State W}

theorem world_planWith (st : State W) (strategy : Strategy W) (now : Instant) (project : String)
    (documents : Documents) :
    (st.planWith strategy now project documents).1.vault = st.vault ∧
      (st.planWith strategy now project documents).1.world = st.world := by
  unfold planWith
  cases checkPlanInput project documents with
  | error error => exact ⟨rfl, rfl⟩
  | ok u =>
      cases st.migrationsFor strategy now project documents with
      | error error => exact ⟨rfl, rfl⟩
      | ok found => exact ⟨rfl, rfl⟩

theorem getState_planWith (st : State W) (strategy : Strategy W) (now : Instant) (project : String)
    (documents : Documents) (other : String) :
    (st.planWith strategy now project documents).1.ledger.getState other =
      st.ledger.getState other := by
  unfold planWith
  cases checkPlanInput project documents with
  | error error => rfl
  | ok u =>
      cases st.migrationsFor strategy now project documents with
      | error error => rfl
      | ok found =>
          simp only
          cases st.ledger with
          | memory entries =>
              simp only [Ledger.savePlan, Ledger.getState, Ledger.entry]
              by_cases hother : project = other
              · rw [hother, NameMap.get?_insert_self]
                rfl
              · rw [NameMap.get?_insert_of_ne _ _ hother]
          | database plans states => rfl

/-- A plan that fails changes nothing. -/
theorem planWith_error {accounts : Accounts} (h : st.ledger.Holds accounts)
    {strategy : Strategy W} {now : Instant} {project : String} {documents : Documents}
    {error : Error} (herror : (st.planWith strategy now project documents).2 = .error error) :
    (st.planWith strategy now project documents).1 = st := by
  unfold planWith at herror ⊢
  cases hinput : checkPlanInput project documents with
  | error error' => rfl
  | ok u =>
      cases hfound : st.migrationsFor strategy now project documents with
      | error error' => rfl
      | ok found =>
          simp [hinput, hfound, Ledger.token_savePlan h] at herror

/-- An apply that fails for another reason than the ledger changes nothing. -/
theorem applyWith_error {strategy : Strategy W} {project : String} {migrations : List Migration}
    {token : Option Nat} {error : Error}
    (herror : (st.applyWith strategy project migrations token).2 = .error error)
    (hstore : ∀ fault, error ≠ .store fault) :
    (st.applyWith strategy project migrations token).1 = st := by
  unfold applyWith at herror ⊢
  cases hproject : checkProject project with
  | error error' => rfl
  | ok u =>
      cases hplan : st.ledger.getPlan project with
      | error fault => rfl
      | ok found =>
          cases found with
          | none =>
              simp only
              split <;> rfl
          | some plan =>
              simp only [hproject, hplan] at herror ⊢
              split
              · rfl
              · rename_i htoken
                rw [if_neg htoken] at herror
                cases hcarry : st.carryOut strategy project plan.documents with
                | error error' => rfl
                | ok next =>
                    cases hclear : next.ledger.clearPlan project plan.generation with
                    | ok cleared => simp [hcarry, hclear] at herror
                    | error fault =>
                        simp only [hcarry, hclear, Except.error.injEq] at herror
                        exact absurd herror.symm (hstore fault)

end State

/-- The changes that documents ask for fail with what the documents or the live schema fail
with. -/
theorem liveChanges_error {W : Type} {client : Client W} {documents : Documents} {world : W}
    {error : Error} (h : liveChanges client documents world = .error error) :
    (∃ fault, error = .parse fault) ∨ client.inspect world = .error error := by
  cases hrealm : Realm.parse documents.combine with
  | error fault =>
      simp only [liveChanges, readRealm, hrealm, bind, Except.bind, Except.mapError,
        Except.error.injEq] at h
      exact .inl ⟨fault, h.symm⟩
  | ok desired =>
      cases hinspect : client.inspect world with
      | error fault =>
          simp only [liveChanges, readRealm, hrealm, hinspect, bind, Except.bind,
            Except.mapError, Except.error.injEq] at h
          exact .inr (h ▸ rfl)
      | ok current =>
          simp [liveChanges, readRealm, hrealm, hinspect, bind, Except.bind, Except.mapError,
            pure, Except.pure] at h

/-- Carrying out a plan against a live database fails with what its documents, the live schema
or the database fail with. -/
theorem State.carryOut_error {W : Type} {st : State W} {strategy : Strategy W} {project : String}
    {documents : Documents} {error : Error}
    (h : st.carryOut strategy project documents = .error error) :
    ∃ client, strategy = .native client ∧ ((∃ fault, error = .parse fault) ∨
      client.inspect st.world = .error error ∨
      ∃ statements, client.execute statements st.world = .error error) := by
  cases strategy with
  | contentHash => cases h
  | native client =>
      refine ⟨client, rfl, ?_⟩
      rw [carryOut_native] at h
      cases hchanges : liveChanges client documents st.world with
      | ok changes =>
          simp only [hchanges] at h
          split at h
          · cases h
          · exact .inr (.inr ⟨_, map_eq_error_iff.mp h⟩)
      | error fault =>
          simp only [hchanges, Except.error.injEq] at h
          subst h
          exact (liveChanges_error hchanges).imp_right .inl

/-! ## Under the strategy of the project -/

section Resolved

variable {W : Type} {p : Planner W} {st : State W} {project : String}

/-- The state in which a call did nothing but resolve the strategy of its project. -/
inductive Planner.Resolved (p : Planner W) (st : State W) (project : String) : State W → Prop where
  | refused : Resolved p st project st
  | connected {strategy : Strategy W} {world : W} (hproject : checkProject project = .ok ())
    (h : p.resolve st project = .ok (strategy, world)) :
    Resolved p st project { st with world := world }

theorem Planner.checkProject_of_input {documents : Documents}
    (h : checkPlanInput project documents = .ok ()) : checkProject project = .ok () := by
  cases hproject : checkProject project with
  | ok u => rfl
  | error error => simp [checkPlanInput, hproject, bind, Except.bind] at h

/-- A database that cannot be reached leaves a project to its documents. -/
theorem Planner.resolve_of_unreachable {secret : Secret} {engine : Engine W} {error : Error}
    (hsecret : st.vault.get project p.options.databaseUrlKey = .ok secret)
    (hurl : (Text.trim secret.expose).isEmpty = false)
    (hengine : (p.engines.find? fun engine => engine.supports (Text.trim secret.expose)) =
      some engine)
    (hconnect : p.connect engine (Text.trim secret.expose) st.world = .error error)
    (herror : error.isUnreachable = true) :
    p.resolve st project = .ok (.contentHash, st.world) := by
  simp only [resolve, hsecret, hurl, hengine, hconnect, herror, Bool.false_eq_true, if_false,
    if_true]

/-- A plan that fails did nothing but resolve. -/
theorem Planner.resolved_of_plan_error {accounts : Accounts} (h : st.ledger.Holds accounts)
    {now : Instant} {documents : Documents} {error : Error}
    (herror : (p.plan st now project documents).2 = .error error) :
    p.Resolved st project (p.plan st now project documents).1 := by
  unfold plan at herror ⊢
  cases hinput : checkPlanInput project documents with
  | error error' => exact .refused
  | ok u =>
      cases hresolve : p.resolve st project with
      | error error' => exact .refused
      | ok resolved =>
          obtain ⟨strategy, world⟩ := resolved
          simp only [hinput, hresolve] at herror ⊢
          have hst : ({ st with world := world } : State W).ledger.Holds accounts := h
          rw [State.planWith_error hst herror]
          exact .connected (checkProject_of_input hinput) hresolve

/-- An apply that fails for another reason than the ledger did nothing but resolve. -/
theorem Planner.resolved_of_apply_error {migrations : List Migration} {token : Option Nat}
    {error : Error} (herror : (p.apply st project migrations token).2 = .error error)
    (hstore : ∀ fault, error ≠ .store fault) :
    p.Resolved st project (p.apply st project migrations token).1 := by
  unfold apply at herror ⊢
  cases hproject : checkProject project with
  | error error' => exact .refused
  | ok u =>
      cases hresolve : p.resolve st project with
      | error error' => exact .refused
      | ok resolved =>
          obtain ⟨strategy, world⟩ := resolved
          simp only [hproject, hresolve] at herror ⊢
          rw [State.applyWith_error herror hstore]
          exact .connected hproject hresolve

end Resolved

/-! ## Connecting to a database in a file -/

section Files

variable {p : Planner Host} {st : State Host} {project : String}

/-- Whether connecting to the database of a project makes a file that stands in the way of
connecting to it again. -/
def Planner.Obstructs (p : Planner Host) (st : State Host) (project : String) : Prop :=
  ∃ secret location opening, st.vault.get project p.options.databaseUrlKey = .ok secret ∧
    Location.ofUrl (Text.trim secret.expose) = .ok location ∧
    Opening.ofLocation location = .ok opening ∧ st.world.Obstructs opening

theorem connect_ready {host next : Host} {url : String} {client : Client Host}
    (h : sqliteEngine.connect url host = .ready client next) :
    ∃ location connection, Location.ofUrl url = .ok location ∧
      host.connect location = .ok (connection, next) ∧ client = clientOn connection := by
  simp only [sqliteEngine] at h
  split at h
  · cases hlocation : Location.ofUrl url with
    | error fault => simp [hlocation] at h
    | ok location =>
        cases hconnect : host.connect location with
        | error fault => simp [hlocation, hconnect] at h
        | ok opened =>
            obtain ⟨connection, made⟩ := opened
            simp only [hlocation, hconnect, Connection.ready.injEq] at h
            obtain ⟨rfl, rfl⟩ := h
            exact ⟨location, connection, rfl, hconnect, rfl⟩
  · cases h

/-- A connection that fails makes a database one that cannot be reached. -/
theorem connect_failed {host : Host} {url : String} {error : Error}
    (h : sqliteEngine.connect url host = .failed error) : error.isUnreachable = true := by
  simp only [sqliteEngine] at h
  split at h
  · cases hlocation : Location.ofUrl url with
    | error fault =>
        simp only [hlocation, Connection.failed.injEq] at h
        rw [← h, Error.isUnreachable]
    | ok location =>
        cases hconnect : host.connect location with
        | ok opened => simp [hlocation, hconnect] at h
        | error fault =>
            simp only [hlocation, hconnect, Connection.failed.injEq] at h
            rw [← h, Error.isUnreachable]
  · simp only [Connection.failed.injEq] at h
    rw [← h, Error.isUnreachable]

theorem host_connect_ok {host next : Host} {location : Location}
    {connection : Sqlite.Connection} (h : host.connect location = .ok (connection, next)) :
    ∃ opening, Opening.ofLocation location = .ok opening ∧
      host.open? opening = some (connection, next) := by
  unfold Host.connect at h
  cases hopening : Opening.ofLocation location with
  | error fault => simp [hopening] at h
  | ok opening =>
      refine ⟨opening, rfl, ?_⟩
      simp only [hopening] at h
      cases hopen : host.open? opening with
      | none => simp [hopen] at h
      | some opened =>
          simp only [hopen, Except.ok.injEq] at h
          rw [h]

/-- Connecting leaves every database, and a second attempt comes to the same connection or is
refused; it is not refused unless the file that was made stands in the way. -/
theorem connect_again {host next : Host} {url : String} {client : Client Host}
    (h : sqliteEngine.connect url host = .ready client next) :
    (∀ place, next.database? place = host.database? place) ∧
      (sqliteEngine.connect url next = .ready client next ∨
        sqliteEngine.connect url next = .failed (.connect Sqlite.refusal)) ∧
      ∃ location opening, Location.ofUrl url = .ok location ∧
        Opening.ofLocation location = .ok opening ∧
        (¬ host.Obstructs opening → sqliteEngine.connect url next = .ready client next) := by
  obtain ⟨location, connection, hlocation, hconnect, rfl⟩ := connect_ready h
  obtain ⟨opening, hopening, hopen⟩ := host_connect_ok hconnect
  have hscheme : "sqlite:".toList.isPrefixOf url.toList = true := by
    by_contra hscheme
    simp only [sqliteEngine, if_neg hscheme] at h
    cases h
  have hsame (hagain : next.open? opening = some (connection, next)) :
      sqliteEngine.connect url next = .ready (clientOn connection) next := by
    simp only [sqliteEngine, hscheme, if_true, hlocation, Host.connect, hopening, hagain]
  have hrefused (hagain : next.open? opening = none) :
      sqliteEngine.connect url next = .failed (.connect Sqlite.refusal) := by
    simp only [sqliteEngine, hscheme, if_true, hlocation, Host.connect, hopening, hagain,
      Sqlite.OpenFault.message]
  refine ⟨Host.database?_open? hopen, (Host.open?_again hopen).imp hsame hrefused,
    location, opening, hlocation, hopening, fun hclear => ?_⟩
  exact hsame (Host.open?_again_of_not_obstructs hopen hclear)

variable (hengines : p.engines = [sqliteEngine])
include hengines

/-- What resolving a strategy comes to: the content of documents, or a connection to the
database of the URL that the vault holds. -/
theorem Planner.resolve_cases {strategy : Strategy Host} {world : Host}
    (h : p.resolve st project = .ok (strategy, world)) :
    (strategy = .contentHash ∧ world = st.world) ∨
      ∃ secret client, st.vault.get project p.options.databaseUrlKey = .ok secret ∧
        (Text.trim secret.expose).isEmpty = false ∧
        sqliteEngine.supports (Text.trim secret.expose) = true ∧
        sqliteEngine.connect (Text.trim secret.expose) st.world = .ready client world ∧
        strategy = .native client := by
  unfold resolve at h
  cases hsecret : st.vault.get project p.options.databaseUrlKey with
  | error error =>
      simp only [hsecret] at h
      split at h
      · cases h
        exact .inl ⟨rfl, rfl⟩
      · cases h
  | ok secret =>
      cases hempty : (Text.trim secret.expose).isEmpty with
      | true =>
          simp only [hsecret, hempty, if_true, Except.ok.injEq, Prod.mk.injEq] at h
          exact .inl ⟨h.1.symm, h.2.symm⟩
      | false =>
          cases hsupports : sqliteEngine.supports (Text.trim secret.expose) with
          | false =>
              simp [hsecret, hempty, hengines, List.find?, hsupports] at h
              exact .inl ⟨h.1.symm, h.2.symm⟩
          | true =>
              simp only [hsecret, hempty, hengines, List.find?, hsupports, connect,
                Bool.false_eq_true, if_false] at h
              cases hconnect : sqliteEngine.connect (Text.trim secret.expose) st.world with
              | ready client next =>
                  simp only [hconnect, Except.ok.injEq, Prod.mk.injEq] at h
                  obtain ⟨rfl, rfl⟩ := h
                  exact .inr ⟨secret, client, rfl, hempty, hsupports, hconnect, rfl⟩
              | failed error =>
                  simp only [hconnect] at h
                  split at h
                  · cases h
                    exact .inl ⟨rfl, rfl⟩
                  · cases h
              | never =>
                  simp only [hconnect, Error.isUnreachable, if_true, Except.ok.injEq,
                    Prod.mk.injEq] at h
                  exact .inl ⟨h.1.symm, h.2.symm⟩

/-- Resolving fails only with what the vault fails with. -/
theorem Planner.resolve_error {error : Error} (h : p.resolve st project = .error error) :
    ∃ fault, error = .vault fault := by
  unfold resolve at h
  cases hsecret : st.vault.get project p.options.databaseUrlKey with
  | error fault =>
      simp only [hsecret] at h
      split at h
      · cases h
      · cases h
        exact ⟨fault, rfl⟩
  | ok secret =>
      cases hempty : (Text.trim secret.expose).isEmpty with
      | true => simp [hsecret, hempty] at h
      | false =>
          cases hsupports : sqliteEngine.supports (Text.trim secret.expose) with
          | false => simp [hsecret, hempty, hengines, List.find?, hsupports] at h
          | true =>
              simp only [hsecret, hempty, hengines, List.find?, hsupports, connect,
                Bool.false_eq_true, if_false] at h
              cases hconnect : sqliteEngine.connect (Text.trim secret.expose) st.world with
              | ready client next => simp [hconnect] at h
              | never => simp [hconnect, Error.isUnreachable] at h
              | failed error' => simp [hconnect, connect_failed hconnect] at h

/-- Resolving leaves every database. Resolved once more, a project has the same strategy, or,
where the file made for its database stands in the way, that of its documents. -/
theorem Planner.resolve_again {strategy : Strategy Host} {world : Host}
    (h : p.resolve st project = .ok (strategy, world)) :
    (∀ place, world.database? place = st.world.database? place) ∧
      (p.resolve { st with world := world } project = .ok (strategy, world) ∨
        p.resolve { st with world := world } project = .ok (.contentHash, world)) ∧
      (¬ p.Obstructs st project →
        p.resolve { st with world := world } project = .ok (strategy, world)) := by
  rcases resolve_cases hengines h with ⟨rfl, rfl⟩ | ⟨secret, client, hsecret, hempty, hsupports,
    hconnect, rfl⟩
  · exact ⟨fun _ => rfl, .inl h, fun _ => h⟩
  · obtain ⟨hdatabases, hagain, location, opening, hlocation, hopening, hclear⟩ :=
      connect_again hconnect
    have hengine : (p.engines.find? fun engine => engine.supports (Text.trim secret.expose)) =
        some sqliteEngine := by
      rw [hengines, List.find?_cons, hsupports]
    have hready (hconnect : sqliteEngine.connect (Text.trim secret.expose) world =
        .ready client world) :
        p.resolve { st with world := world } project = .ok (.native client, world) := by
      refine resolve_of_connect hsecret hempty hengine ?_
      simp only [connect, hconnect]
    have hfailed (hconnect : sqliteEngine.connect (Text.trim secret.expose) world =
        .failed (.connect Sqlite.refusal)) :
        p.resolve { st with world := world } project = .ok (.contentHash, world) := by
      refine @resolve_of_unreachable _ _ { st with world := world } _ _ _ (.connect Sqlite.refusal)
        hsecret hempty hengine ?_ rfl
      simp only [connect, hconnect]
    refine ⟨hdatabases, hagain.imp hready hfailed, fun hnot => hready (hclear fun hobstructs => ?_)⟩
    exact hnot ⟨secret, location, opening, hsecret, hlocation, hopening, hobstructs⟩

end Files

/-- What a failed call on a project leaves: the vault, the ledger with all plans, tokens and
applied documents, and every database are as they were. The next apply does what it would have
done, or, only where connecting made a file that stands in the way of connecting again, works on
the applied documents. -/
structure Untouched (p : Planner Host) (st : State Host) (project : String)
    (after : State Host) : Prop where
  vault : after.vault = st.vault
  ledger : after.ledger = st.ledger
  databases : ∀ place, after.world.database? place = st.world.database? place
  again : ¬ p.Obstructs st project → ∀ migrations token,
    p.apply after project migrations token = p.apply st project migrations token
  fallback : ∀ migrations token,
    p.apply after project migrations token = p.apply st project migrations token ∨
      p.apply after project migrations token =
        after.applyWith .contentHash project migrations token

/-- Resolving the strategy of a project touches nothing. -/
theorem untouched_of_resolved {p : Planner Host} (hengines : p.engines = [sqliteEngine])
    {st after : State Host} {project : String} (h : p.Resolved st project after) :
    Untouched p st project after := by
  cases h with
  | refused => exact ⟨rfl, rfl, fun _ => rfl, fun _ _ _ => rfl, fun _ _ => .inl rfl⟩
  | @connected strategy world hproject hresolve =>
      obtain ⟨hdatabases, hagain, hclear⟩ := Planner.resolve_again hengines hresolve
      have hbefore (migrations : List Migration) (token : Option Nat) :=
        Planner.apply_of_resolve hproject hresolve migrations token
      refine ⟨rfl, rfl, hdatabases, fun hnot migrations token => ?_, fun migrations token => ?_⟩
      · rw [hbefore, Planner.apply_of_resolve hproject (hclear hnot)]
      · rcases hagain with hsame | hcontent
        · left
          rw [hbefore, Planner.apply_of_resolve hproject hsame]
        · right
          rw [Planner.apply_of_resolve hproject hcontent]

/-! ## What fails otherwise -/

/-- What a connection to a database fails with. -/
theorem clientOn_error {connection : Sqlite.Connection} {host : Host} {error : Error}
    (h : (clientOn connection).inspect host = .error error ∨
      ∃ statements, (clientOn connection).execute statements host = .error error) :
    error = refusal := by
  rcases h with h | ⟨statements, h⟩
  · simp only [clientOn] at h
    split at h <;> cases h
    rfl
  · simp only [clientOn] at h
    split at h <;> cases h
    rfl

/-- The ledger fails the end of an apply only when it clears a token beyond the range of its
column. -/
theorem State.store_error_of_finish {st : State Host} {strategy : Strategy Host}
    (hstrategy : ∀ client, strategy = .native client → ∃ connection, client = clientOn connection)
    {project : String} {documents : Documents} {token : Nat} {fault : Storage.Error}
    (h : (st.finish strategy project documents token).2 = .error (.store fault)) :
    0x8000000000000000 ≤ token ∧ fault = .generation token := by
  unfold finish at h
  cases hcarry : st.carryOut strategy project documents with
  | ok next =>
      simp only [hcarry] at h
      cases hclear : next.ledger.clearPlan project token with
      | ok cleared => simp [hclear] at h
      | error reason =>
          simp only [hclear, Except.error.injEq, Error.store.injEq] at h
          exact h ▸ Ledger.clearPlan_error hclear
  | error error =>
      simp only [hcarry, Except.error.injEq] at h
      subst h
      obtain ⟨client, hclient, ⟨reason, hreason⟩ | hrefused⟩ := carryOut_error hcarry
      · cases hreason
      · obtain ⟨connection, rfl⟩ := hstrategy client hclient
        cases clientOn_error hrefused

/-- The ledger fails an apply only when it clears a token beyond the range of its column. -/
theorem Planner.store_error_of_apply {p : Planner Host} (hengines : p.engines = [sqliteEngine])
    {st : State Host} {accounts : Accounts} (h : st.ledger.Holds accounts) {project : String}
    {migrations : List Migration} {token : Option Nat} {fault : Storage.Error}
    (herror : (p.apply st project migrations token).2 = .error (.store fault)) :
    ∃ plan, st.ledger.getPlan project = .ok (some plan) ∧ token = some plan.generation ∧
      0x8000000000000000 ≤ plan.generation ∧ fault = .generation plan.generation := by
  unfold apply at herror
  cases hproject : checkProject project with
  | error error =>
      simp only [hproject, Except.error.injEq] at herror
      subst herror
      simp only [checkProject] at hproject
      split at hproject <;> cases hproject
  | ok u =>
      cases hresolve : p.resolve st project with
      | error error =>
          obtain ⟨reason, rfl⟩ := resolve_error hengines hresolve
          simp [hproject, hresolve] at herror
      | ok resolved =>
          obtain ⟨strategy, world⟩ := resolved
          simp only [hproject, hresolve] at herror
          have hst : ({ st with world := world } : State Host).ledger.Holds accounts := h
          cases hplan : (accounts project).onRecord with
          | none =>
              rw [State.applyWith_of_unplanned hst strategy hproject hplan] at herror
              split at herror <;> cases herror
          | some plan =>
              by_cases htoken : token = some plan.generation
              · rw [htoken, State.applyWith_of_planned hst strategy hplan hproject] at herror
                refine ⟨plan, ?_, htoken, State.store_error_of_finish ?_ herror⟩
                · rw [Ledger.getPlan_of_holds h, hplan]
                · rintro client rfl
                  rcases resolve_cases hengines hresolve with
                    ⟨hcontent, -⟩ | ⟨secret, found, -, -, -, hconnect, hfound⟩
                  · cases hcontent
                  · cases hfound
                    obtain ⟨-, connection, -, -, hclient⟩ := connect_ready hconnect
                    exact ⟨connection, hclient⟩
              · rw [State.applyWith_of_stale hst strategy hplan hproject htoken] at herror
                cases herror

/-! ## Plans and failures leave what they should -/

section Detour

/-- Documents that describe no realm. -/
def unreadableDocuments : Documents := .ofList [("main", "table \x7b")]

/-- A URL whose path goes below the file that it leads to, sealed under the key of zeros. -/
def sealedDetour : String := "AAAAAAAAAAAAAAAAvdYsVDkFURYoN+r9lPs4coUv2HBHLdt/3NmU760="

/-- A vault that holds the URL. -/
def detourVault : Vault :=
  ⟨.memory (.insertAt .empty "shop" "database_url"
    ⟨"shop", "database_url", sealedDetour, .epoch⟩), zeroKey⟩

/-- A state in which a shop planned documents without a database, and its vault holds a URL
since. -/
def awaiting (vault : Vault) (host : Host) : State Host :=
  ⟨vault, .memory (NameMap.empty.insert "shop"
    (.ofAccount (Account.plan {} unreadableDocuments .epoch))), host⟩

/-- The host after the database of the URL was connected to. -/
def detouredHost : Host := ⟨NameMap.insert .empty "x" (.file []), .empty⟩

theorem reachable_awaiting (vault : Vault) (host : Host) :
    Reachable filePlanner (awaiting vault host) := by
  have hstart : Reachable filePlanner ⟨emptyVault, .emptyMemory, host⟩ := .memory emptyVault host
  have hplanned := hstart.call (.plan .contentHash .epoch "shop" unreadableDocuments) trivial
  exact hplanned.happening (.outside vault host) trivial

theorem readRealm_unreadableDocuments :
    readRealm unreadableDocuments.combine = .error (.parse ⟨1, .unclosedBlock⟩) := by
  cbv

theorem openText_sealedDetour : (Vault.openText zeroKey sealedDetour).toOption =
    some [115, 113, 108, 105, 116, 101, 58, 120, 47, 121, 47, 46, 46] := by
  have hopen : Vault.openText Vault.zeroKey sealedDetour =
      .ok [115, 113, 108, 105, 116, 101, 58, 120, 47, 121, 47, 46, 46] :=
    Vault.openText_of_zeroCipher (by decide) (by decide +kernel)
  exact congrArg Except.toOption hopen

theorem get_detourVault : detourVault.get "shop" "database_url" = .ok ⟨"sqlite:x/y/.."⟩ := by
  have hrecord : detourVault.store.get "shop" "database_url" =
      .ok (some ⟨"shop", "database_url", sealedDetour, .epoch⟩) := rfl
  refine get_of_openText rfl hrecord openText_sealedDetour ?_
  cbv

/-- The first connection makes the file, and the path cannot be looked up again because of it. -/
theorem resolve_detour :
    filePlanner.resolve (awaiting detourVault ⟨.empty, .empty⟩) "shop" =
        .ok (.native (clientOn ⟨.file "x", true, false⟩), detouredHost) ∧
      filePlanner.resolve (awaiting detourVault detouredHost) "shop" =
        .ok (.contentHash, detouredHost) := by
  have htrim : Text.trim (Secret.expose ⟨"sqlite:x/y/.."⟩) = "sqlite:x/y/.." := by cbv
  have hfirst : sqliteEngine.connect "sqlite:x/y/.." ⟨.empty, .empty⟩ =
      .ready (clientOn ⟨.file "x", true, false⟩) detouredHost := by cbv
  have hsecond : sqliteEngine.connect "sqlite:x/y/.." detouredHost =
      .failed (.connect Sqlite.refusal) := by cbv
  constructor
  · refine @Planner.resolve_of_connect _ _ _ _ _ sqliteEngine _ _ get_detourVault rfl rfl ?_
    simp only [Planner.connect, htrim, awaiting, hfirst]
  · refine @Planner.resolve_of_unreachable _ _ (awaiting detourVault detouredHost) _ _ sqliteEngine
      (.connect Sqlite.refusal) get_detourVault rfl rfl ?_ rfl
    simp only [Planner.connect, htrim, awaiting, hsecond]

/-- An apply against a database fails when its documents describe no realm. -/
theorem apply_awaiting {vault : Vault} {host made : Host} {connection : Sqlite.Connection}
    (hresolve : filePlanner.resolve (awaiting vault host) "shop" =
      .ok (.native (clientOn connection), made)) :
    filePlanner.apply (awaiting vault host) "shop" [] (some 1) =
      (awaiting vault made, .error (.parse ⟨1, .unclosedBlock⟩)) := by
  have hcheck : checkProject "shop" = .ok () := rfl
  have hplanned : (awaiting vault made).ledger.getPlan "shop" =
      .ok (some ⟨1, unreadableDocuments, .epoch⟩) := rfl
  have hcarry : (awaiting vault made).carryOut (.native (clientOn connection)) "shop"
      unreadableDocuments = .error (.parse ⟨1, .unclosedBlock⟩) := by
    simp only [State.carryOut_native, liveChanges, readRealm_unreadableDocuments, bind, Except.bind]
  rw [Planner.apply_of_resolve hcheck hresolve]
  have happly : (awaiting vault made).applyWith (.native (clientOn connection)) "shop" [] (some 1) =
      (awaiting vault made, .error (.parse ⟨1, .unclosedBlock⟩)) := by
    simp only [State.applyWith, hcheck, hplanned, hcarry, ne_eq, not_true, if_false]
  exact happly

end Detour

end ProjectHub.Plan
