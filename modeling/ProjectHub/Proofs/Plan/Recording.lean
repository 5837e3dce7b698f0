import ProjectHub.Proofs.Plan.Run

/-!
# Recorded planners

A recorded planner works on a world with a record beside it: its connections
write down every list of statements that a database accepted. Apart from the
record it does what the planner does, so the record says what the planner had
carried out.
-/

namespace ProjectHub.Plan

variable {W : Type}

/-- A world with the statements carried out on it, oldest first. -/
abbrev Recorded (W : Type) := W × List Sql.Statement

/-- A connection that writes down what it carries out. -/
def Client.recorded (client : Client W) : Client (Recorded W) where
  inspect := fun w => client.inspect w.1
  execute := fun statements w =>
    (client.execute statements w.1).map fun next => (next, w.2 ++ statements)

/-- An engine whose connections write down what they carry out. -/
def Engine.recorded (engine : Engine W) : Engine (Recorded W) where
  supports := engine.supports
  connect := fun url w =>
    match engine.connect url w.1 with
    | .ready client world => .ready client.recorded (world, w.2)
    | .failed error => .failed error
    | .never => .never

/-- A strategy whose connection writes down what it carries out. -/
def Strategy.recorded : Strategy W → Strategy (Recorded W)
  | native client => native client.recorded
  | contentHash => contentHash

/-- A planner whose connections write down what they carry out. -/
def Planner.recorded (p : Planner W) : Planner (Recorded W) where
  engines := p.engines.map Engine.recorded
  options := p.options

namespace State

/-- A state with a record beside its world. -/
def withRecord (st : State W) (record : List Sql.Statement) : State (Recorded W) :=
  ⟨st.vault, st.ledger, (st.world, record)⟩

/-- The statements that take the live database of a strategy to what documents describe. -/
def statements (st : State W) (strategy : Strategy W) (documents : Documents) :
    List Sql.Statement :=
  match strategy with
  | .native client =>
    match liveChanges client documents st.world with
    | .ok changes => Sql.Statement.ofChanges changes
    | .error _ => []
  | .contentHash => []

section Simulation

variable (st : State W) (record : List Sql.Statement) (strategy : Strategy W) (project : String)

theorem liveChanges_recorded (client : Client W) (documents : Documents) (world : W) :
    liveChanges client.recorded documents (world, record) = liveChanges client documents world :=
  rfl

theorem migrationsFor_recorded (now : Instant) (documents : Documents) :
    (st.withRecord record).migrationsFor strategy.recorded now project documents =
      st.migrationsFor strategy now project documents := by
  cases strategy <;> rfl

theorem planWith_recorded (now : Instant) (documents : Documents) :
    (st.withRecord record).planWith strategy.recorded now project documents =
      ((st.planWith strategy now project documents).1.withRecord record,
        (st.planWith strategy now project documents).2) := by
  unfold planWith
  rw [migrationsFor_recorded]
  cases checkPlanInput project documents with
  | error error => rfl
  | ok u =>
      cases st.migrationsFor strategy now project documents with
      | error error => rfl
      | ok found => rfl

theorem carryOut_recorded (documents : Documents) :
    (st.withRecord record).carryOut strategy.recorded project documents =
      (st.carryOut strategy project documents).map fun next =>
        next.withRecord (record ++ st.statements strategy documents) := by
  cases strategy with
  | contentHash =>
      show Except.ok _ = Except.ok _
      rw [statements, List.append_nil]
      rfl
  | native client =>
      simp only [Strategy.recorded, carryOut_native, statements]
      rw [show (st.withRecord record).world = (st.world, record) from rfl, liveChanges_recorded]
      cases liveChanges client documents st.world with
      | error error => rfl
      | ok changes =>
          simp only
          split
          · rename_i hempty
            rw [List.isEmpty_iff.mp hempty]
            show Except.ok _ = Except.ok _
            rw [Sql.Statement.ofChanges, List.flatMap_nil, List.append_nil]
          · simp only [Client.recorded]
            cases client.execute (Sql.Statement.ofChanges changes) st.world <;> rfl

theorem finish_recorded (documents : Documents) (token : Nat) :
    (st.withRecord record).finish strategy.recorded project documents token =
      ((st.finish strategy project documents token).1.withRecord
          (match st.carryOut strategy project documents with
            | .ok _ => record ++ st.statements strategy documents
            | .error _ => record),
        (st.finish strategy project documents token).2) := by
  unfold finish
  rw [carryOut_recorded]
  cases st.carryOut strategy project documents with
  | error error => rfl
  | ok next =>
      have hledger : (next.withRecord (record ++ st.statements strategy documents)).ledger =
          next.ledger := rfl
      simp only [Except.map, hledger]
      cases next.ledger.clearPlan project token with
      | error error => rfl
      | ok cleared => rfl

theorem applyWith_recorded (migrations : List Migration) (token : Option Nat) :
    ∃ executed, ∀ record,
      (st.withRecord record).applyWith strategy.recorded project migrations token =
        ((st.applyWith strategy project migrations token).1.withRecord (record ++ executed),
          (st.applyWith strategy project migrations token).2) := by
  have hidle (answer : Except Error Unit) : ∃ executed : List Sql.Statement, ∀ record,
      (st.withRecord record, answer) = (st.withRecord (record ++ executed), answer) :=
    ⟨[], fun record => by rw [List.append_nil]⟩
  unfold applyWith
  cases checkProject project with
  | error error => exact hidle _
  | ok u =>
      simp only [show ∀ record, (st.withRecord record).ledger = st.ledger from fun _ => rfl]
      cases st.ledger.getPlan project with
      | error error => exact hidle _
      | ok found =>
          cases found with
          | none =>
              simp only
              split
              · exact hidle _
              · exact hidle _
          | some plan =>
              simp only
              split
              · exact hidle _
              · refine ⟨match st.carryOut strategy project plan.documents with
                  | .ok _ => st.statements strategy plan.documents
                  | .error _ => [], fun record => ?_⟩
                have hfinish := finish_recorded st record strategy project plan.documents
                  plan.generation
                cases hcarry : st.carryOut strategy project plan.documents with
                | error error =>
                    simp only [finish, hcarry] at hfinish ⊢
                    rw [List.append_nil]
                    exact hfinish
                | ok next =>
                    simp only [finish, hcarry] at hfinish ⊢
                    exact hfinish

end Simulation

end State

namespace Planner

variable (p : Planner W) (st : State W)

theorem connect_recorded (engine : Engine W) (url : String) (world : W)
    (record : List Sql.Statement) :
    p.recorded.connect engine.recorded url (world, record) =
      (p.connect engine url world).map fun (client, next) => (client.recorded, (next, record)) := by
  unfold connect
  simp only [Engine.recorded]
  cases engine.connect url world <;> rfl

theorem resolve_recorded (record : List Sql.Statement) (project : String) :
    p.recorded.resolve (st.withRecord record) project =
      (p.resolve st project).map fun (strategy, world) => (strategy.recorded, (world, record)) := by
  unfold resolve
  rw [show (st.withRecord record).vault = st.vault from rfl,
    show p.recorded.options = p.options from rfl]
  cases st.vault.get project p.options.databaseUrlKey with
  | error error =>
      simp only
      split <;> rfl
  | ok secret =>
      simp only
      split
      · rfl
      · rw [show p.recorded.engines = p.engines.map Engine.recorded from rfl, List.find?_map]
        have hsupports : (fun engine => engine.supports (Text.trim secret.expose)) ∘
            Engine.recorded = fun engine : Engine W => engine.supports (Text.trim secret.expose) := rfl
        rw [hsupports]
        cases p.engines.find? fun engine => engine.supports (Text.trim secret.expose) with
        | none => rfl
        | some engine =>
            simp only [Option.map_some]
            rw [show (st.withRecord record).world = (st.world, record) from rfl, connect_recorded]
            cases p.connect engine (Text.trim secret.expose) st.world with
            | ok connected => rfl
            | error error =>
                simp only [Except.map]
                split <;> rfl

/-- The statements that an apply has carried out: what is on record after it, if nothing was
before. -/
def executed (project : String) (migrations : List Migration) (token : Option Nat) :
    List Sql.Statement :=
  (p.recorded.apply (st.withRecord []) project migrations token).1.world.2

/-- A recorded planner answers and leaves everything as the planner does. -/
theorem plan_recorded (record : List Sql.Statement) (now : Instant) (project : String)
    (documents : Documents) :
    p.recorded.plan (st.withRecord record) now project documents =
      ((p.plan st now project documents).1.withRecord record,
        (p.plan st now project documents).2) := by
  unfold plan
  rw [resolve_recorded]
  cases checkPlanInput project documents with
  | error error => rfl
  | ok u =>
      cases p.resolve st project with
      | error error => rfl
      | ok resolved =>
          obtain ⟨strategy, world⟩ := resolved
          exact State.planWith_recorded { st with world := world } record strategy project now
            documents

/-- A recorded planner applies as the planner does, and adds what it executed to the record. -/
theorem apply_recorded (record : List Sql.Statement) (project : String)
    (migrations : List Migration) (token : Option Nat) :
    p.recorded.apply (st.withRecord record) project migrations token =
      ((p.apply st project migrations token).1.withRecord
          (record ++ p.executed st project migrations token),
        (p.apply st project migrations token).2) := by
  obtain ⟨executed, hexecuted⟩ : ∃ executed, ∀ record,
      p.recorded.apply (st.withRecord record) project migrations token =
        ((p.apply st project migrations token).1.withRecord (record ++ executed),
          (p.apply st project migrations token).2) := by
    have hidle (answer : Except Error Unit) : ∃ executed : List Sql.Statement, ∀ record,
        (st.withRecord record, answer) = (st.withRecord (record ++ executed), answer) :=
      ⟨[], fun record => by rw [List.append_nil]⟩
    simp only [apply, resolve_recorded]
    cases checkProject project with
    | error error => exact hidle _
    | ok u =>
        cases p.resolve st project with
        | error error => exact hidle _
        | ok resolved =>
            obtain ⟨strategy, world⟩ := resolved
            exact State.applyWith_recorded { st with world := world } strategy project migrations
              token
  have hempty : p.executed st project migrations token = executed := by
    rw [Planner.executed, hexecuted []]
    rfl
  rw [hempty]
  exact hexecuted record

end Planner

end ProjectHub.Plan
