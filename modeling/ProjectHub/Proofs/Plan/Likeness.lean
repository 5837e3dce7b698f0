import ProjectHub.Proofs.Plan.Run
import ProjectHub.Proofs.Sqlite.Likeness

/-!
# Planners that go alike

A call of a planner depends on one secret of its project, on what the ledger has of
that project, and on the world as far as its engine sees it. States that agree on
these answer the call alike and agree afterwards; what the ledger has of another
project stays as it was.
-/

namespace ProjectHub.Plan

/-! ## Ledgers that agree on projects -/

namespace Ledger

/-- Ledgers of one kind that have the same of some projects. -/
def AgreeOn (mine : String → Prop) : Ledger → Ledger → Prop
  | memory a, memory b => ∀ project, mine project → entry a project = entry b project
  | database plans states, database plans' states' => ∀ project, mine project →
    plans.get? project = plans'.get? project ∧ states.get? project = states'.get? project
  | _, _ => False

variable {mine : String → Prop}

theorem AgreeOn.refl : (ledger : Ledger) → ledger.AgreeOn mine ledger
  | memory _ => fun _ _ => rfl
  | database _ _ => fun _ _ => ⟨rfl, rfl⟩

theorem AgreeOn.symm {a b : Ledger} (h : a.AgreeOn mine b) : b.AgreeOn mine a := by
  cases a <;> cases b
  · exact fun project hproject => (h project hproject).symm
  · exact h
  · exact h
  · exact fun project hproject => (h project hproject).imp Eq.symm Eq.symm

theorem AgreeOn.trans {a b c : Ledger} (h : a.AgreeOn mine b) (h' : b.AgreeOn mine c) :
    a.AgreeOn mine c := by
  cases a <;> cases b <;> cases c <;> first | exact h.elim | exact h'.elim | skip
  · exact fun project hproject => (h project hproject).trans (h' project hproject)
  · exact fun project hproject => ⟨(h project hproject).1.trans (h' project hproject).1,
      (h project hproject).2.trans (h' project hproject).2⟩

theorem entry_insert (entries : NameMap Entry) (project : String) (e : Entry) (other : String) :
    entry (entries.insert project e) other =
      if project = other then e else entry entries other := by
  rw [entry, NameMap.get?_insert]
  split <;> rfl

/-- Entries that agree still do once a project of both is given the same. -/
theorem agreeOn_insert {a b : NameMap Entry} (h : (memory a).AgreeOn mine (memory b))
    (project : String) (e : Entry) :
    (memory (a.insert project e)).AgreeOn mine (memory (b.insert project e)) := by
  intro other hother
  rw [entry_insert, entry_insert, h other hother]

section Own

variable {a b : Ledger} (h : a.AgreeOn mine b) {project : String} (hmine : mine project)
include h hmine

theorem AgreeOn.getPlan : a.getPlan project = b.getPlan project := by
  cases a <;> cases b
  · rw [Ledger.getPlan, Ledger.getPlan, h project hmine]
  · exact h.elim
  · exact h.elim
  · simp only [Ledger.getPlan, (h project hmine).1]

theorem AgreeOn.getState : a.getState project = b.getState project := by
  cases a <;> cases b
  · rw [Ledger.getState, Ledger.getState, h project hmine]
  · exact h.elim
  · exact h.elim
  · simp only [Ledger.getState, (h project hmine).2]

theorem AgreeOn.savePlan (documents : Documents) (now : Instant) :
    (a.savePlan project documents now).2 = (b.savePlan project documents now).2 ∧
      (a.savePlan project documents now).1.AgreeOn mine (b.savePlan project documents now).1 := by
  cases a <;> cases b
  · simp only [Ledger.savePlan, h project hmine]
    exact ⟨trivial, agreeOn_insert h _ _⟩
  · exact h.elim
  · exact h.elim
  · simp only [Ledger.savePlan, (h project hmine).1]
    refine ⟨trivial, fun other hother => ?_⟩
    rw [NameMap.get?_insert, NameMap.get?_insert, (h other hother).1, (h other hother).2]
    exact ⟨rfl, rfl⟩

theorem AgreeOn.saveState (documents : Documents) :
    (a.saveState project documents).AgreeOn mine (b.saveState project documents) := by
  cases a <;> cases b
  · simp only [Ledger.saveState, h project hmine]
    exact agreeOn_insert h _ _
  · exact h.elim
  · exact h.elim
  · intro other hother
    rw [NameMap.get?_insert, NameMap.get?_insert, (h other hother).1, (h other hother).2]
    exact ⟨rfl, rfl⟩

theorem AgreeOn.clearPlan (token : Nat) :
    Matches (fun cleared cleared' => cleared.1.AgreeOn mine cleared'.1)
      (a.clearPlan project token) (b.clearPlan project token) := by
  cases a <;> cases b
  · simp only [Ledger.clearPlan, h project hmine]
    split
    · exact .ok (agreeOn_insert h _ _)
    · exact .ok h
  · exact h.elim
  · exact h.elim
  · simp only [Ledger.clearPlan, (h project hmine).1]
    split
    · exact .error _
    · split
      · split
        · refine .ok fun other hother => ?_
          rw [NameMap.get?_insert, NameMap.get?_insert, (h other hother).1, (h other hother).2]
          exact ⟨rfl, rfl⟩
        · exact .ok h
      · exact .ok h

end Own

section Other

variable {ledger : Ledger} {project : String} (hother : ¬ mine project)
include hother

theorem ne_of_mine {other : String} (hmine : mine other) : project ≠ other :=
  fun heq => hother (heq ▸ hmine)

/-- What is saved or cleared for one project leaves the others. -/
theorem agreeOn_savePlan (ledger : Ledger) (documents : Documents) (now : Instant) :
    ledger.AgreeOn mine (ledger.savePlan project documents now).1 := by
  cases ledger with
  | memory entries =>
      intro other hmine
      rw [entry_insert, if_neg (ne_of_mine hother hmine)]
  | database plans states =>
      intro other hmine
      rw [NameMap.get?_insert_of_ne _ _ (ne_of_mine hother hmine)]
      exact ⟨rfl, rfl⟩

theorem agreeOn_saveState (ledger : Ledger) (documents : Documents) :
    ledger.AgreeOn mine (ledger.saveState project documents) := by
  cases ledger with
  | memory entries =>
      intro other hmine
      rw [entry_insert, if_neg (ne_of_mine hother hmine)]
  | database plans states =>
      intro other hmine
      rw [NameMap.get?_insert_of_ne _ _ (ne_of_mine hother hmine)]
      exact ⟨rfl, rfl⟩

theorem agreeOn_clearPlan {next : Ledger} {token : Nat} {cleared : Bool}
    (h : ledger.clearPlan project token = .ok (next, cleared)) : ledger.AgreeOn mine next := by
  cases ledger with
  | memory entries =>
      simp only [clearPlan] at h
      split at h <;> cases h
      · intro other hmine
        rw [entry_insert, if_neg (ne_of_mine hother hmine)]
      · exact .refl _
  | database plans states =>
      simp only [clearPlan] at h
      split at h
      · cases h
      · split at h
        · split at h <;> cases h
          · intro other hmine
            rw [NameMap.get?_insert_of_ne _ _ (ne_of_mine hother hmine)]
            exact ⟨rfl, rfl⟩
          · exact .refl _
        · cases h
          exact .refl _

end Other

end Ledger

/-! ## Clients and engines -/

section Engines

variable {W : Type} (R : W → W → Prop)

/-- A client that reads and changes related worlds alike. -/
structure Client.Respects (client : Client W) : Prop where
  inspect : ∀ a b, R a b → client.inspect a = client.inspect b
  execute : ∀ statements a b, R a b →
    Matches R (client.execute statements a) (client.execute statements b)

/-- Attempts to connect that end alike: with one client in related worlds, or without any. -/
inductive Connection.Alike : Connection W → Connection W → Prop where
  | ready {client : Client W} {a b : W} (hclient : client.Respects R) (h : R a b) :
    Alike (.ready client a) (.ready client b)
  | failed (error : Error) : Alike (.failed error) (.failed error)
  | never : Alike .never .never

/-- Whether all that an engine does at a URL, from a world on, leads to related worlds. -/
def Engine.Leads (engine : Engine W) (url : String) (world : W) : Prop :=
  ∀ client next, engine.connect url world = .ready client next →
    R world next ∧ ∀ statements before after, client.execute statements before = .ok after →
      R before after

end Engines

/-! ## Calls -/

section Calls

variable {W : Type} {R : W → W → Prop} {mine : String → Prop}

/-- States that agree on some projects, in related worlds. -/
structure State.Alike (mine : String → Prop) (R : W → W → Prop) (a b : State W) : Prop where
  ledger : a.ledger.AgreeOn mine b.ledger
  world : R a.world b.world

/-- Ends of a call that tell the same and leave states that agree. -/
def SameEnd (mine : String → Prop) (R : W → W → Prop) {α : Type} (a b : State W × α) : Prop :=
  a.2 = b.2 ∧ a.1.Alike mine R b.1

theorem liveChanges_alike {client : Client W} (hclient : client.Respects R) {a b : W} (h : R a b)
    (documents : Documents) : liveChanges client documents a = liveChanges client documents b := by
  rw [liveChanges, liveChanges, hclient.inspect a b h]

section Own

variable {a b : State W} (h : a.Alike mine R b) {project : String} (hmine : mine project)
include h hmine

variable {strategy : Strategy W}
  (hstrategy : ∀ client, strategy = .native client → client.Respects R)
include hstrategy

theorem State.Alike.migrationsFor (now : Instant) (documents : Documents) :
    a.migrationsFor strategy now project documents =
      b.migrationsFor strategy now project documents := by
  cases strategy with
  | native client =>
      simp only [State.migrationsFor, nativeMigrations,
        liveChanges_alike (hstrategy client rfl) h.world]
  | contentHash => simp only [State.migrationsFor, h.ledger.getState hmine]

theorem State.Alike.planWith (now : Instant) (documents : Documents) :
    SameEnd mine R (a.planWith strategy now project documents)
      (b.planWith strategy now project documents) := by
  simp only [State.planWith, h.migrationsFor hmine hstrategy]
  cases checkPlanInput project documents with
  | error error => exact ⟨rfl, h⟩
  | ok u =>
      cases b.migrationsFor strategy now project documents with
      | error error => exact ⟨rfl, h⟩
      | ok found =>
          obtain ⟨htoken, hledger⟩ := h.ledger.savePlan hmine documents now
          exact ⟨by simp only [htoken], hledger, h.world⟩

theorem State.Alike.carryOut (documents : Documents) :
    Matches (State.Alike mine R) (a.carryOut strategy project documents)
      (b.carryOut strategy project documents) := by
  cases strategy with
  | contentHash => exact .ok ⟨h.ledger.saveState hmine documents, h.world⟩
  | native client =>
      have hclient := hstrategy client rfl
      simp only [State.carryOut, liveChanges_alike hclient h.world, bind, Except.bind]
      cases liveChanges client documents b.world with
      | error error => exact .error _
      | ok changes =>
          simp only
          split
          · exact .ok h
          · have hexecute := hclient.execute (Sql.Statement.ofChanges changes) _ _ h.world
            generalize client.execute (Sql.Statement.ofChanges changes) a.world = after at hexecute
            generalize client.execute (Sql.Statement.ofChanges changes) b.world = after' at hexecute
            cases hexecute with
            | error error => exact .error _
            | ok hworld => exact .ok ⟨h.ledger, hworld⟩

theorem State.Alike.applyWith (migrations : List Migration) (token : Option Nat) :
    SameEnd mine R (a.applyWith strategy project migrations token)
      (b.applyWith strategy project migrations token) := by
  simp only [State.applyWith, h.ledger.getPlan hmine]
  cases checkProject project with
  | error error => exact ⟨rfl, h⟩
  | ok u =>
      cases b.ledger.getPlan project with
      | error error => exact ⟨rfl, h⟩
      | ok found =>
          cases found with
          | none =>
              simp only
              split <;> exact ⟨rfl, h⟩
          | some plan =>
              simp only
              split
              · exact ⟨rfl, h⟩
              · have hcarry := h.carryOut hmine hstrategy plan.documents
                generalize a.carryOut strategy project plan.documents = next at hcarry
                generalize b.carryOut strategy project plan.documents = next' at hcarry
                cases hcarry with
                | error error => exact ⟨rfl, h⟩
                | @ok next next' hnext =>
                    have hclear := hnext.ledger.clearPlan hmine plan.generation
                    simp only
                    generalize next.ledger.clearPlan project plan.generation = cleared at hclear
                    generalize next'.ledger.clearPlan project plan.generation = cleared' at hclear
                    cases hclear with
                    | error error => exact ⟨rfl, hnext⟩
                    | ok hledger => exact ⟨rfl, hledger, hnext.world⟩

end Own

section OwnResolved

variable {p : Planner W} {a b : State W} (h : a.Alike mine R b) {project : String}
  (hmine : mine project)
  (hsecret : a.vault.get project p.options.databaseUrlKey =
    b.vault.get project p.options.databaseUrlKey)
  (hconnect : ∀ secret, a.vault.get project p.options.databaseUrlKey = .ok secret →
    ∀ engine ∈ p.engines, (engine.connect (Text.trim secret.expose) a.world).Alike R
      (engine.connect (Text.trim secret.expose) b.world))
include h hsecret hconnect

theorem Planner.resolve_alike :
    Matches (fun found found' => found.1 = found'.1 ∧ R found.2 found'.2 ∧
      ∀ client, found.1 = .native client → client.Respects R)
      (p.resolve a project) (p.resolve b project) := by
  have hcontent : ∀ client, (.contentHash : Strategy W) = .native client →
      client.Respects R := by
    rintro client ⟨⟩
  simp only [resolve, ← hsecret]
  cases hget : a.vault.get project p.options.databaseUrlKey with
  | error error =>
      simp only
      split
      · exact .ok ⟨rfl, h.world, hcontent⟩
      · exact .error _
  | ok secret =>
      simp only
      split
      · exact .ok ⟨rfl, h.world, hcontent⟩
      · cases hengine : p.engines.find? fun engine => engine.supports (Text.trim secret.expose) with
        | none => exact .ok ⟨rfl, h.world, hcontent⟩
        | some engine =>
            have halike := hconnect secret hget engine (List.mem_of_find?_eq_some hengine)
            simp only [connect]
            generalize engine.connect (Text.trim secret.expose) a.world = found at halike
            generalize engine.connect (Text.trim secret.expose) b.world = found' at halike
            cases halike with
            | ready hclient hworld =>
                refine .ok ⟨rfl, hworld, ?_⟩
                rintro client ⟨⟩
                exact hclient
            | failed error =>
                simp only
                split
                · exact .ok ⟨rfl, h.world, hcontent⟩
                · exact .error _
            | never => exact .ok ⟨rfl, h.world, hcontent⟩

include hmine

/-- A plan of a project goes alike in states that agree on it. -/
theorem Planner.plan_alike (now : Instant) (documents : Documents) :
    SameEnd mine R (p.plan a now project documents) (p.plan b now project documents) := by
  have hresolve := p.resolve_alike h hsecret hconnect
  simp only [plan]
  cases checkPlanInput project documents with
  | error error => exact ⟨rfl, h⟩
  | ok u =>
      simp only
      generalize p.resolve a project = found at hresolve
      generalize p.resolve b project = found' at hresolve
      cases hresolve with
      | error error => exact ⟨rfl, h⟩
      | @ok found found' hfound =>
          obtain ⟨strategy, world⟩ := found
          obtain ⟨strategy', world'⟩ := found'
          obtain ⟨rfl, hworld, hstrategy⟩ := hfound
          have hnext : ({ a with world := world } : State W).Alike mine R
              { b with world := world' } := ⟨h.ledger, hworld⟩
          exact hnext.planWith hmine hstrategy now documents

/-- An apply for a project goes alike in states that agree on it. -/
theorem Planner.apply_alike (migrations : List Migration) (token : Option Nat) :
    SameEnd mine R (p.apply a project migrations token) (p.apply b project migrations token) := by
  have hresolve := p.resolve_alike h hsecret hconnect
  simp only [apply]
  cases checkProject project with
  | error error => exact ⟨rfl, h⟩
  | ok u =>
      simp only
      generalize p.resolve a project = found at hresolve
      generalize p.resolve b project = found' at hresolve
      cases hresolve with
      | error error => exact ⟨rfl, h⟩
      | @ok found found' hfound =>
          obtain ⟨strategy, world⟩ := found
          obtain ⟨strategy', world'⟩ := found'
          obtain ⟨rfl, hworld, hstrategy⟩ := hfound
          have hnext : ({ a with world := world } : State W).Alike mine R
              { b with world := world' } := ⟨h.ledger, hworld⟩
          exact hnext.applyWith hmine hstrategy migrations token

end OwnResolved

section Other

variable {st : State W} {project : String} (hother : ¬ mine project)
  (hrefl : ∀ world, R world world) (htrans : ∀ a b c, R a b → R b c → R a c)

include hother hrefl in
theorem State.alike_planWith (st : State W) (strategy : Strategy W) (now : Instant)
    (documents : Documents) :
    st.Alike mine R (st.planWith strategy now project documents).1 := by
  unfold planWith
  cases checkPlanInput project documents with
  | error error => exact ⟨.refl _, hrefl _⟩
  | ok u =>
      cases st.migrationsFor strategy now project documents with
      | error error => exact ⟨.refl _, hrefl _⟩
      | ok found => exact ⟨Ledger.agreeOn_savePlan hother st.ledger documents now, hrefl _⟩

variable {strategy : Strategy W} (hstrategy : ∀ client, strategy = .native client →
  ∀ statements before after, client.execute statements before = .ok after → R before after)

include hother hrefl hstrategy in
theorem State.alike_carryOut {documents : Documents} {next : State W}
    (h : st.carryOut strategy project documents = .ok next) : st.Alike mine R next := by
  cases strategy with
  | contentHash =>
      cases h
      exact ⟨Ledger.agreeOn_saveState hother st.ledger documents, hrefl _⟩
  | native client =>
      simp only [carryOut] at h
      obtain ⟨changes, -, h⟩ := exists_of_bind_ok h
      split at h
      · cases h
        exact ⟨.refl _, hrefl _⟩
      · obtain ⟨world, hexecute, h⟩ := exists_of_bind_ok h
        cases h
        exact ⟨.refl _, hstrategy client rfl _ _ _ hexecute⟩

include hother hrefl hstrategy in
theorem State.alike_applyWith (migrations : List Migration) (token : Option Nat) :
    st.Alike mine R (st.applyWith strategy project migrations token).1 := by
  rcases st.applyWith_cases strategy project migrations token with ⟨answer, happly⟩ |
    ⟨plan, next, hcarry, ⟨error, -, happly⟩ | ⟨ledger, cleared, hclear, happly⟩⟩
  · rw [happly]
    exact ⟨.refl _, hrefl _⟩
  · rw [happly]
    exact State.alike_carryOut hother hrefl hstrategy hcarry
  · rw [happly]
    have hnext := State.alike_carryOut hother hrefl hstrategy hcarry
    exact ⟨hnext.ledger.trans (Ledger.agreeOn_clearPlan hother hclear), hnext.world⟩

variable {p : Planner W}
  (hleads : ∀ secret, st.vault.get project p.options.databaseUrlKey = .ok secret →
    ∀ engine ∈ p.engines, engine.Leads R (Text.trim secret.expose) st.world)

include hrefl hleads in
theorem Planner.leads_resolve {strategy : Strategy W} {world : W}
    (h : p.resolve st project = .ok (strategy, world)) :
    R st.world world ∧ ∀ client, strategy = .native client →
      ∀ statements before after, client.execute statements before = .ok after → R before after := by
  have hcontent : ∀ client, (.contentHash : Strategy W) = .native client →
      ∀ statements before after, client.execute statements before = .ok after →
        R before after := by
    rintro client ⟨⟩
  unfold resolve at h
  cases hget : st.vault.get project p.options.databaseUrlKey with
  | error error =>
      simp only [hget] at h
      split at h <;> cases h
      exact ⟨hrefl _, hcontent⟩
  | ok secret =>
      simp only [hget] at h
      split at h
      · cases h
        exact ⟨hrefl _, hcontent⟩
      · cases hengine : p.engines.find? fun engine => engine.supports (Text.trim secret.expose) with
        | none =>
            simp only [hengine] at h
            cases h
            exact ⟨hrefl _, hcontent⟩
        | some engine =>
            simp only [hengine, connect] at h
            cases hconnect : engine.connect (Text.trim secret.expose) st.world with
            | ready client next =>
                simp only [hconnect] at h
                cases h
                obtain ⟨hworld, hexecute⟩ :=
                  hleads secret hget engine (List.mem_of_find?_eq_some hengine) _ _ hconnect
                refine ⟨hworld, ?_⟩
                rintro client ⟨⟩
                exact hexecute
            | failed error =>
                simp only [hconnect] at h
                split at h <;> cases h
                exact ⟨hrefl _, hcontent⟩
            | never =>
                simp only [hconnect] at h
                cases h
                exact ⟨hrefl _, hcontent⟩

include hother hrefl htrans hleads

/-- A plan of one project leaves what the ledger has of others, and leads the world no further
than its engine does. -/
theorem Planner.alike_plan (now : Instant) (documents : Documents) :
    st.Alike mine R (p.plan st now project documents).1 := by
  unfold plan
  cases checkPlanInput project documents with
  | error error => exact ⟨.refl _, hrefl _⟩
  | ok u =>
      cases hresolve : p.resolve st project with
      | error error => exact ⟨.refl _, hrefl _⟩
      | ok resolved =>
          obtain ⟨strategy, world⟩ := resolved
          obtain ⟨hworld, -⟩ := p.leads_resolve hrefl hleads hresolve
          have hplanned := State.alike_planWith hother hrefl { st with world := world } strategy now
            documents
          exact ⟨hplanned.ledger, htrans _ _ _ hworld hplanned.world⟩

/-- An apply for one project leaves what the ledger has of others, and leads the world no
further than its engine does. -/
theorem Planner.alike_apply (migrations : List Migration) (token : Option Nat) :
    st.Alike mine R (p.apply st project migrations token).1 := by
  unfold apply
  cases checkProject project with
  | error error => exact ⟨.refl _, hrefl _⟩
  | ok u =>
      cases hresolve : p.resolve st project with
      | error error => exact ⟨.refl _, hrefl _⟩
      | ok resolved =>
          obtain ⟨strategy, world⟩ := resolved
          obtain ⟨hworld, hexecute⟩ := p.leads_resolve hrefl hleads hresolve
          have happlied := @State.alike_applyWith W R mine { st with world := world } project
            hother hrefl strategy hexecute migrations token
          exact ⟨happlied.ledger, htrans _ _ _ hworld happlied.world⟩

end Other

/-! ## The vault stays -/

section Vault

variable (p : Planner W) (st : State W) (project : String)

theorem Planner.vault_plan (now : Instant) (documents : Documents) :
    (p.plan st now project documents).1.vault = st.vault := by
  unfold plan
  cases checkPlanInput project documents with
  | error error => rfl
  | ok u =>
      cases p.resolve st project with
      | error error => rfl
      | ok resolved =>
          simp only [State.planWith]
          cases checkPlanInput project documents with
          | error error => rfl
          | ok u =>
              simp only
              split <;> rfl

theorem State.vault_carryOut {st next : State W} {strategy : Strategy W} {project : String}
    {documents : Documents} (h : st.carryOut strategy project documents = .ok next) :
    next.vault = st.vault := by
  cases strategy with
  | contentHash =>
      cases h
      rfl
  | native client =>
      simp only [carryOut] at h
      obtain ⟨changes, -, h⟩ := exists_of_bind_ok h
      split at h
      · cases h
        rfl
      · obtain ⟨world, -, h⟩ := exists_of_bind_ok h
        cases h
        rfl

theorem State.vault_applyWith (st : State W) (strategy : Strategy W) (project : String)
    (migrations : List Migration) (token : Option Nat) :
    (st.applyWith strategy project migrations token).1.vault = st.vault := by
  rcases st.applyWith_cases strategy project migrations token with ⟨answer, happly⟩ |
    ⟨plan, next, hcarry, ⟨error, -, happly⟩ | ⟨ledger, cleared, -, happly⟩⟩
  · rw [happly]
  · rw [happly]
    exact State.vault_carryOut hcarry
  · rw [happly]
    have hvault := State.vault_carryOut hcarry
    exact hvault

theorem Planner.vault_apply (migrations : List Migration) (token : Option Nat) :
    (p.apply st project migrations token).1.vault = st.vault := by
  unfold apply
  cases checkProject project with
  | error error => rfl
  | ok u =>
      cases p.resolve st project with
      | error error => rfl
      | ok resolved => exact State.vault_applyWith _ _ _ _ _

end Vault

end Calls

/-! ## Databases on a host -/

section Databases

open Sqlite (Host Opening View)

variable {view : View}

/-- A connection to a database that is seen reads and changes it alike on hosts that are alike. -/
theorem respects_clientOn {connection : Sqlite.Connection} (hplace : view.Shows connection.place) :
    (clientOn connection).Respects (Host.Alike view) := by
  refine ⟨fun a b h => ?_, fun statements a b h => ?_⟩
  · simp only [clientOn, Sqlite.Connection.inspect?_alike hplace h]
  · have hran := Sqlite.Connection.run?_alike hplace h statements
    simp only [clientOn]
    generalize connection.run? statements a = after at hran
    generalize connection.run? statements b = after' at hran
    cases hran with
    | none => exact .error _
    | some hafter => exact .ok hafter

/-- The database of a URL is connected to if it can be opened. -/
theorem connect_of_ofUrl? {url : String} (hscheme : "sqlite:".toList.isPrefixOf url.toList = true)
    {opening : Opening} (h : Opening.ofUrl? url = some opening) (host : Host) :
    sqliteEngine.connect url host =
      match host.open? opening with
      | some (connection, next) => .ready (clientOn connection) next
      | none => .failed (.connect Sqlite.refusal) := by
  simp only [Opening.ofUrl?] at h
  simp only [sqliteEngine, hscheme, if_true]
  cases hlocation : Sqlite.Location.ofUrl url with
  | error fault => simp [hlocation, Except.toOption] at h
  | ok location =>
      cases hopening : Opening.ofLocation location with
      | error fault => simp [hlocation, hopening, Except.toOption] at h
      | ok found =>
          simp only [hlocation, hopening, Except.toOption, Option.bind_some, Option.some.injEq] at h
          subst h
          simp only [Host.connect, hopening]
          cases host.open? found <;> rfl

/-- Whether a URL names a database does not depend on the host. -/
theorem connect_cases (url : String) :
    (∃ error, ∀ host, sqliteEngine.connect url host = .failed error) ∨
      "sqlite:".toList.isPrefixOf url.toList = true ∧
        ∃ opening, Opening.ofUrl? url = some opening := by
  simp only [sqliteEngine, Opening.ofUrl?]
  split
  · rename_i hscheme
    cases hlocation : Sqlite.Location.ofUrl url with
    | error fault => exact .inl ⟨_, fun _ => rfl⟩
    | ok location =>
        cases hopening : Opening.ofLocation location with
        | error fault =>
            refine .inl ⟨.connect fault.message, fun host => ?_⟩
            simp only [Host.connect, hopening]
        | ok opening =>
            refine .inr ⟨hscheme, opening, ?_⟩
            simp only [Except.toOption, Option.bind_some, hopening]
  · exact .inl ⟨_, fun _ => rfl⟩

/-- Hosts that are alike in all that a URL depends on are connected to alike. -/
theorem sqliteEngine_alike {a b : Host} (h : a.Alike view b) {url : String}
    (hcovers : ∀ opening, Opening.ofUrl? url = some opening → view.Covers opening) :
    (sqliteEngine.connect url a).Alike (Host.Alike view) (sqliteEngine.connect url b) := by
  obtain ⟨error, hfailed⟩ | ⟨hscheme, opening, hopening⟩ := connect_cases url
  · rw [hfailed, hfailed]
    exact .failed error
  · have hopened := h.open? (hcovers opening hopening)
    rw [connect_of_ofUrl? hscheme hopening, connect_of_ofUrl? hscheme hopening]
    generalize a.open? opening = opened at hopened
    generalize b.open? opening = opened' at hopened
    cases hopened with
    | none => exact .failed _
    | @some opened opened' hsame =>
        obtain ⟨connection, next⟩ := opened
        obtain ⟨connection', next'⟩ := opened'
        obtain ⟨rfl, hnext, hplace⟩ := hsame
        exact .ready (respects_clientOn hplace) hnext

/-- Connecting to a database that is not seen, and changing it, leaves alone what is, as long as
no file is made there. -/
theorem sqliteEngine_leads {host : Host} {url : String}
    (hclear : ∀ opening, Opening.ofUrl? url = some opening → opening.isTransient = false →
      (opening.creates = true → NameMap.get? host.files opening.file = none →
        ¬ view.nodes opening.file) ∧ ¬ view.databases opening.file) :
    sqliteEngine.Leads (Host.Leaves view) url host := by
  intro client next h
  obtain ⟨error, hfailed⟩ | ⟨hscheme, opening, hopening⟩ := connect_cases url
  · rw [hfailed] at h
    cases h
  · rw [connect_of_ofUrl? hscheme hopening] at h
    cases hopen : host.open? opening with
    | none => simp [hopen] at h
    | some opened =>
        obtain ⟨connection, made⟩ := opened
        simp only [hopen, Connection.ready.injEq] at h
        obtain ⟨rfl, rfl⟩ := h
        obtain ⟨hleaves, hplace⟩ := Host.leaves_open? hopen fun htransient =>
          (hclear opening hopening htransient).1
        refine ⟨hleaves, fun statements before after hexecute => ?_⟩
        simp only [clientOn] at hexecute
        split at hexecute <;> cases hexecute
        rename_i hran
        refine Sqlite.Connection.leaves_run? hran fun path hpath => ?_
        obtain ⟨htransient, rfl⟩ := hplace path hpath
        exact (hclear opening hopening htransient).2

end Databases

/-! ## Engines on a part of a world -/

section Within

variable {V W : Type} {get : W → V} {set : V → W → W} (hset : ∀ part world, get (set part world) =
  part)
include hset

theorem within_alike {R : V → V → Prop} {engine : Engine V} {url : String} {a b : W}
    (h : (engine.connect url (get a)).Alike R (engine.connect url (get b))) :
    ((engine.within get set).connect url a).Alike (fun a b => R (get a) (get b))
      ((engine.within get set).connect url b) := by
  simp only [Engine.within]
  generalize engine.connect url (get a) = found at h
  generalize engine.connect url (get b) = found' at h
  cases h with
  | failed error => exact .failed error
  | never => exact .never
  | @ready client next next' hclient hnext =>
      refine .ready ⟨fun a b hab => hclient.inspect _ _ hab, fun statements a b hab => ?_⟩ ?_
      · have hexecute := hclient.execute statements _ _ hab
        simp only
        generalize client.execute statements (get a) = after at hexecute
        generalize client.execute statements (get b) = after' at hexecute
        cases hexecute with
        | error error => exact .error error
        | ok hafter => exact .ok (by rwa [hset, hset])
      · rwa [hset, hset]

theorem within_leads {R : V → V → Prop} {engine : Engine V} {url : String} {world : W}
    (h : engine.Leads R url (get world)) :
    (engine.within get set).Leads (fun a b => R (get a) (get b)) url world := by
  intro client next hconnect
  simp only [Engine.within] at hconnect
  cases hfound : engine.connect url (get world) with
  | failed error => simp [hfound] at hconnect
  | never => simp [hfound] at hconnect
  | ready inner part =>
      obtain ⟨hpart, hexecute⟩ := h inner part hfound
      simp only [hfound, Connection.ready.injEq] at hconnect
      obtain ⟨rfl, rfl⟩ := hconnect
      refine ⟨by simpa only [hset] using hpart, fun statements before after hran => ?_⟩
      obtain ⟨part', hpart', rfl⟩ := map_eq_ok_iff.mp hran
      simpa only [hset] using hexecute statements _ _ hpart'

end Within

end ProjectHub.Plan
