import ProjectHub.Proofs.Plan.Run

/-!
# What happens to a planner

Calls follow one another while vaults and live databases change from outside. A
ledger keeps the accounts of all projects through that, and a call that succeeds
tells which strategy it resolved and what was on record.
-/

namespace ProjectHub.Plan

variable {W : Type}

/-- Something that happens to a planner: a call, or a change of its vault and of the world of
live databases from outside. -/
inductive Happening (W : Type) where
  | plan (now : Instant) (project : String) (documents : Documents)
  | apply (project : String) (migrations : List Migration) (token : Option Nat)
  | outside (vault : Vault) (world : W)

namespace Happening

/-- The state after something happened. -/
def run (p : Planner W) (st : State W) : Happening W → State W
  | plan now project documents => (p.plan st now project documents).1
  | apply project migrations token => (p.apply st project migrations token).1
  | outside vault world => { st with vault := vault, world := world }

/-- The state after all that happened, in its order. -/
def runAll (p : Planner W) (st : State W) (happenings : List (Happening W)) : State W :=
  happenings.foldl (run p) st

@[simp] theorem runAll_nil (p : Planner W) (st : State W) : runAll p st [] = st := rfl

/-- Whether a ledger can keep the time of a happening. -/
def KeptBy (ledger : Ledger) : Happening W → Prop
  | plan now _ _ => ledger.Keeps now
  | _ => True

/-- Whether something neither plans nor applies for a project. -/
def Spares (project : String) : Happening W → Prop
  | plan _ other _ => other ≠ project
  | apply other _ _ => other ≠ project
  | outside _ _ => True

theorem keeps_run (p : Planner W) (st : State W) (happening : Happening W) (time : Instant) :
    (happening.run p st).ledger.Keeps time ↔ st.ledger.Keeps time := by
  cases happening with
  | outside vault world => rfl
  | plan now project documents =>
      simp only [run, Planner.plan]
      cases checkPlanInput project documents with
      | error error => rfl
      | ok u =>
          cases p.resolve st project with
          | error error => rfl
          | ok resolved => exact State.keeps_planWith _ _ _ _ _ _
  | apply project migrations token =>
      simp only [run, Planner.apply]
      cases checkProject project with
      | error error => rfl
      | ok u =>
          cases p.resolve st project with
          | error error => rfl
          | ok resolved => exact State.keeps_applyWith _ _ _ _ _ _

theorem keeps_runAll (p : Planner W) (st : State W) (happenings : List (Happening W))
    (time : Instant) :
    (runAll p st happenings).ledger.Keeps time ↔ st.ledger.Keeps time := by
  induction happenings generalizing st with
  | nil => rfl
  | cons happening happenings ih =>
      exact (ih (happening.run p st)).trans (keeps_run p st happening time)

/-- Ledgers that keep the same times can keep the same happenings. -/
theorem keptBy_congr {a b : Ledger} (h : ∀ time, a.Keeps time ↔ b.Keeps time)
    (happening : Happening W) : happening.KeptBy a ↔ happening.KeptBy b := by
  cases happening with
  | plan now project documents => exact h now
  | apply project migrations token => rfl
  | outside vault world => rfl

/-- Something that happens leads every account on, and leaves those of the projects that it
spares. -/
theorem holds_run (p : Planner W) {st : State W} {accounts : Accounts}
    (h : st.ledger.Holds accounts) {happening : Happening W}
    (hkept : happening.KeptBy st.ledger) :
    ∃ after, (happening.run p st).ledger.Holds after ∧
      ∀ project, (accounts project).Precedes (after project) ∧
        (happening.Spares project → after project = accounts project) := by
  have hnone : ∀ project, (accounts project).Precedes (accounts project) ∧
      (happening.Spares project → accounts project = accounts project) :=
    fun project => ⟨.refl _, fun _ => rfl⟩
  have hupdate {st' : State W} {project : String}
      (hafter : ∃ a, st'.ledger.Holds (Function.update accounts project a) ∧
        (accounts project).Precedes a) :
      ∃ after, st'.ledger.Holds after ∧ ∀ other, (accounts other).Precedes (after other) ∧
        (project ≠ other → after other = accounts other) := by
    obtain ⟨a, ha, hprecedes⟩ := hafter
    refine ⟨_, ha, fun other => ⟨?_, fun hother => Function.update_of_ne hother.symm _ _⟩⟩
    by_cases hother : other = project
    · rw [hother, Function.update_self]
      exact hprecedes
    · rw [Function.update_of_ne hother]
      exact .refl _
  cases happening with
  | outside vault world => exact ⟨accounts, h, hnone⟩
  | plan now project documents =>
      simp only [run, Planner.plan]
      cases checkPlanInput project documents with
      | error error => exact ⟨accounts, h, hnone⟩
      | ok u =>
          cases p.resolve st project with
          | error error => exact ⟨accounts, h, hnone⟩
          | ok resolved =>
              obtain ⟨strategy, world⟩ := resolved
              have hst : ({ st with world := world } : State W).ledger.Holds accounts := h
              exact hupdate (State.exists_holds_planWith hst strategy hkept documents)
  | apply project migrations token =>
      simp only [run, Planner.apply]
      cases checkProject project with
      | error error => exact ⟨accounts, h, hnone⟩
      | ok u =>
          cases p.resolve st project with
          | error error => exact ⟨accounts, h, hnone⟩
          | ok resolved =>
              obtain ⟨strategy, world⟩ := resolved
              have hst : ({ st with world := world } : State W).ledger.Holds accounts := h
              exact hupdate (State.exists_holds_applyWith hst strategy migrations token)

theorem holds_runAll (p : Planner W) {st : State W} {accounts : Accounts}
    (h : st.ledger.Holds accounts) {happenings : List (Happening W)}
    (hkept : ∀ happening ∈ happenings, happening.KeptBy st.ledger) :
    ∃ after, (runAll p st happenings).ledger.Holds after ∧
      ∀ project, (accounts project).Precedes (after project) ∧
        ((∀ happening ∈ happenings, happening.Spares project) →
          after project = accounts project) := by
  induction happenings generalizing st accounts with
  | nil => exact ⟨accounts, h, fun _ => ⟨.refl _, fun _ => rfl⟩⟩
  | cons happening happenings ih =>
      obtain ⟨mid, hmid, hfirst⟩ := holds_run p h (hkept happening (List.mem_cons_self ..))
      obtain ⟨after, hafter, hrest⟩ := ih hmid fun other hother =>
        (keptBy_congr (keeps_run p st happening) other).mpr
          (hkept other (List.mem_cons_of_mem _ hother))
      refine ⟨after, hafter, fun project => ⟨(hfirst project).1.trans (hrest project).1, ?_⟩⟩
      intro hproject
      rw [(hrest project).2 fun other hother => hproject other (List.mem_cons_of_mem _ hother),
        (hfirst project).2 (hproject happening (List.mem_cons_self ..))]

/-- After whatever happened since its ledger was empty, a planner's ledger holds accounts, and it
keeps the times that it kept. -/
theorem exists_holds_runAll (p : Planner W) {start : Ledger}
    (hstart : start = .emptyMemory ∨ start = .emptyDatabase) (vault : Vault) (world : W)
    {happenings : List (Happening W)}
    (hkept : ∀ happening ∈ happenings, happening.KeptBy start) :
    (∃ accounts, (runAll p ⟨vault, start, world⟩ happenings).ledger.Holds accounts) ∧
      ∀ time, (runAll p ⟨vault, start, world⟩ happenings).ledger.Keeps time ↔ start.Keeps time := by
  have hempty : ∃ accounts, start.Holds accounts := by
    rcases hstart with rfl | rfl
    · exact ⟨_, Ledger.holds_emptyMemory⟩
    · exact ⟨_, Ledger.holds_emptyDatabase⟩
  obtain ⟨empty, hholds⟩ := hempty
  have hst : (⟨vault, start, world⟩ : State W).ledger.Holds empty := hholds
  obtain ⟨accounts, hafter, -⟩ := holds_runAll p hst hkept
  exact ⟨⟨accounts, hafter⟩, keeps_runAll p _ happenings⟩

end Happening

/-- A plan that succeeds resolved a strategy, and answers with the migrations of that
strategy under the next token. -/
theorem Planner.plan_eq_ok (p : Planner W) {st : State W} {accounts : Accounts}
    (h : st.ledger.Holds accounts) {now : Instant} (hnow : st.ledger.Keeps now) {project : String}
    {documents : Documents} {proposal : Proposal}
    (hplan : (p.plan st now project documents).2 = .ok proposal) :
    ∃ strategy world, p.resolve st project = .ok (strategy, world) ∧
      proposal.token = (accounts project).generation + 1 ∧
      ({ st with world := world } : State W).migrationsFor strategy now project documents =
        .ok (proposal.migrations, proposal.summary) ∧
      (p.plan st now project documents).1.ledger.Holds
        (Function.update accounts project ((accounts project).plan documents now)) := by
  unfold plan at hplan ⊢
  cases hinput : checkPlanInput project documents with
  | error error => simp [hinput] at hplan
  | ok u =>
      cases hresolve : p.resolve st project with
      | error error => simp [hinput, hresolve] at hplan
      | ok resolved =>
          obtain ⟨strategy, world⟩ := resolved
          simp only [hinput, hresolve] at hplan ⊢
          have hst : ({ st with world := world } : State W).ledger.Holds accounts := h
          rcases State.planWith_cases hst strategy project hnow documents with
            ⟨error, hrefused⟩ | ⟨migrations, summary, hmigrations, hplanned⟩
          · rw [hrefused] at hplan
            cases hplan
          · rw [hplanned] at hplan
            cases hplan
            refine ⟨strategy, world, rfl, rfl, hmigrations, ?_⟩
            rw [hplanned]
            exact (Ledger.savePlan_of_holds h project documents hnow).2

/-- An apply of a token that succeeds found a plan on record under the token, and carried it
out. -/
theorem Planner.apply_eq_finish (p : Planner W) {st : State W} {accounts : Accounts}
    (h : st.ledger.Holds accounts) {project : String} {migrations : List Migration} {token : Nat}
    (happly : (p.apply st project migrations (some token)).2 = .ok ()) :
    ∃ plan strategy world, (accounts project).onRecord = some plan ∧ plan.generation = token ∧
      p.resolve st project = .ok (strategy, world) ∧
      p.apply st project migrations (some token) =
        ({ st with world := world } : State W).finish strategy project plan.documents token := by
  unfold apply at happly ⊢
  cases hproject : checkProject project with
  | error error => simp [hproject] at happly
  | ok u =>
      cases hresolve : p.resolve st project with
      | error error => simp [hproject, hresolve] at happly
      | ok resolved =>
          obtain ⟨strategy, world⟩ := resolved
          simp only [hproject, hresolve] at happly ⊢
          have hst : ({ st with world := world } : State W).ledger.Holds accounts := h
          cases hplan : (accounts project).onRecord with
          | none =>
              rw [State.applyWith_of_unplanned hst strategy hproject hplan] at happly
              cases happly
          | some plan =>
              by_cases htoken : some token = some plan.generation
              · cases htoken
                exact ⟨plan, strategy, world, rfl, rfl, rfl,
                  State.applyWith_of_planned hst strategy hplan hproject migrations⟩
              · rw [State.applyWith_of_stale hst strategy hplan hproject htoken] at happly
                cases happly

/-- A secret that is stored and can be opened is what a vault gives. -/
theorem get_of_openText {v : Vault} {project key value : String} {record : Vault.Record}
    {plain : List UInt8} (hnames : Vault.checkNames project key = .ok ())
    (hrecord : v.store.get project key = .ok (some record))
    (hplain : (Vault.openText v.masterKey record.sealed).toOption = some plain)
    (hvalue : Text.ofUtf8? plain = some value) : v.get project key = .ok ⟨value⟩ := by
  have hopen : Vault.openText v.masterKey record.sealed = .ok plain := by
    cases h : Vault.openText v.masterKey record.sealed with
    | error error => simp [h, Except.toOption] at hplain
    | ok bytes =>
        rw [h] at hplain
        cases hplain
        rfl
  simp only [Vault.get, hnames, hrecord, hopen, hvalue, bind, Except.bind, Except.mapError, pure,
    Except.pure]

/-- A URL that the vault gives and an engine connects to makes a project's strategy native. -/
theorem Planner.resolve_of_connect {p : Planner W} {st : State W} {project : String}
    {secret : Secret} {engine : Engine W} {client : Client W} {world : W}
    (hsecret : st.vault.get project p.options.databaseUrlKey = .ok secret)
    (hurl : (Text.trim secret.expose).isEmpty = false)
    (hengine : (p.engines.find? fun engine => engine.supports (Text.trim secret.expose)) =
      some engine)
    (hconnect : p.connect engine (Text.trim secret.expose) st.world = .ok (client, world)) :
    p.resolve st project = .ok (.native client, world) := by
  simp only [resolve, hsecret, hurl, hengine, hconnect, Bool.false_eq_true, if_false]

theorem Planner.apply_of_resolve {p : Planner W} {st : State W} {project : String}
    {strategy : Strategy W} {world : W} (hproject : checkProject project = .ok ())
    (hresolve : p.resolve st project = .ok (strategy, world)) (migrations : List Migration)
    (token : Option Nat) :
    p.apply st project migrations token =
      ({ st with world := world } : State W).applyWith strategy project migrations token := by
  simp only [apply, hproject, hresolve]

/-- A key of zeros. -/
def zeroKey : Vault.SealKey := ⟨List.replicate 32 0, by decide⟩

/-!
### Reachable planners

A planner starts with an empty ledger. From there on it plans and applies under
the strategies that it resolves or under strategies chosen by hand, while its
vault and the live databases change from outside. Wherever that leads, the ledger
holds accounts.
-/

/-- The states that a planner can come to. -/
inductive Reachable (p : Planner W) : State W → Prop where
  | memory (vault : Vault) (world : W) : Reachable p ⟨vault, .emptyMemory, world⟩
  | database (vault : Vault) (world : W) : Reachable p ⟨vault, .emptyDatabase, world⟩
  /-- A call whose strategy the planner resolves, or a change from outside. -/
  | happening {st : State W} (h : Reachable p st) (happening : Happening W)
    (hkept : happening.KeptBy st.ledger) : Reachable p (happening.run p st)
  /-- A call under a strategy chosen by hand. -/
  | call {st : State W} (h : Reachable p st) (call : Call W) (hkept : call.KeptBy st.ledger) :
    Reachable p (call.run st).1

/-- One call leads to a ledger that holds accounts again. -/
theorem Call.exists_holds_run {st : State W} {accounts : Accounts}
    (h : st.ledger.Holds accounts) {call : Call W} (hkept : call.KeptBy st.ledger) :
    ∃ after, (call.run st).1.ledger.Holds after := by
  cases call with
  | plan strategy now project documents =>
      obtain ⟨a, ha, -⟩ := @State.exists_holds_planWith _ _ _ h strategy project _ hkept documents
      exact ⟨_, ha⟩
  | apply strategy project migrations token =>
      obtain ⟨a, ha, -⟩ := @State.exists_holds_applyWith _ _ _ h strategy project migrations token
      exact ⟨_, ha⟩

namespace Reachable

variable {p : Planner W} {st : State W}

/-- The ledger of a reachable state holds accounts. -/
theorem exists_holds (h : Reachable p st) : ∃ accounts, st.ledger.Holds accounts := by
  induction h with
  | memory vault world => exact ⟨_, Ledger.holds_emptyMemory⟩
  | database vault world => exact ⟨_, Ledger.holds_emptyDatabase⟩
  | happening _ _ hkept ih =>
      obtain ⟨accounts, hholds⟩ := ih
      obtain ⟨after, hafter, -⟩ := Happening.holds_run p hholds hkept
      exact ⟨after, hafter⟩
  | call _ _ hkept ih =>
      obtain ⟨accounts, hholds⟩ := ih
      exact Call.exists_holds_run hholds hkept

end Reachable

end ProjectHub.Plan
