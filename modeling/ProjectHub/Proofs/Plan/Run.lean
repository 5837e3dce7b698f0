import ProjectHub.Plan.Planner
import ProjectHub.Proofs.Plan.Ledger
import ProjectHub.Proofs.Run

/-!
# Runs of a planner

A call plans or applies under the strategy it was given. Each call is described
by what it does to the accounts that the ledger holds, and a run leaves the
history of its calls with their answers.
-/

namespace ProjectHub.Plan

variable {W : Type}

theorem checkProject_error {project : String} {error : Error}
    (h : checkProject project = .error error) : error = .noProject := by
  unfold checkProject at h
  split at h <;> cases h
  rfl

theorem checkPlanInput_error {project : String} {documents : Documents} {error : Error}
    (h : checkPlanInput project documents = .error error) :
    error = .noProject ∨ error = .noDocuments := by
  simp only [checkPlanInput, bind, Except.bind] at h
  cases hproject : checkProject project with
  | error fault =>
      simp only [hproject, Except.error.injEq] at h
      exact .inl (h ▸ checkProject_error hproject)
  | ok u =>
      simp only [hproject] at h
      split at h <;> cases h
      exact .inr rfl

theorem checkPlanInput_eq_ok {project : String} {documents : Documents}
    (hproject : checkProject project = .ok ()) (hdocuments : documents.isEmpty = false) :
    checkPlanInput project documents = .ok () := by
  simp [checkPlanInput, hproject, hdocuments, bind, Except.bind, pure, Except.pure]

namespace State

/-- Carries out the documents of a plan, then clears the plan of their token. -/
def finish (st : State W) (strategy : Strategy W) (project : String) (documents : Documents)
    (token : Nat) : State W × Except Error Unit :=
  match st.carryOut strategy project documents with
  | .error error => (st, .error error)
  | .ok next =>
    match next.ledger.clearPlan project token with
    | .error error => (next, .error (.store error))
    | .ok (ledger, _) => ({ next with ledger := ledger }, .ok ())

theorem finish_eq_ok {st : State W} {strategy : Strategy W} {project : String}
    {documents : Documents} {token : Nat}
    (h : (st.finish strategy project documents token).2 = .ok ()) :
    ∃ next, st.carryOut strategy project documents = .ok next ∧
      (st.finish strategy project documents token).1.world = next.world := by
  unfold finish at h ⊢
  cases hcarry : st.carryOut strategy project documents with
  | error error => simp [hcarry] at h
  | ok next =>
      simp only [hcarry] at h ⊢
      refine ⟨next, rfl, ?_⟩
      cases hclear : next.ledger.clearPlan project token with
      | error error => simp [hclear] at h
      | ok cleared => rfl

/-- Carrying out against a live database: nothing for no changes, else their statements. -/
theorem carryOut_native (st : State W) (client : Client W) (project : String)
    (documents : Documents) :
    st.carryOut (.native client) project documents =
      match liveChanges client documents st.world with
      | .error error => .error error
      | .ok changes =>
        if changes.isEmpty then .ok st
        else (client.execute (Sql.Statement.ofChanges changes) st.world).map fun world =>
          { st with world := world } := by
  simp only [carryOut, bind, Except.bind, pure, Except.pure]
  cases liveChanges client documents st.world with
  | error error => rfl
  | ok changes =>
      simp only
      split
      · rfl
      · cases client.execute (Sql.Statement.ofChanges changes) st.world <;> rfl

/-- What carrying out does to a ledger, however it was carried out. -/
theorem ledger_carryOut {st next : State W} {strategy : Strategy W} {project : String}
    {documents : Documents} (h : st.carryOut strategy project documents = .ok next) :
    next.ledger = match strategy with
      | .native _ => st.ledger
      | .contentHash => st.ledger.saveState project documents := by
  cases strategy with
  | contentHash =>
      cases h
      rfl
  | native client =>
      rw [carryOut_native] at h
      split at h
      · cases h
      · split at h
        · cases h
          rfl
        · obtain ⟨world, -, rfl⟩ := map_eq_ok_iff.mp h
          rfl

/-- An apply changes nothing, or it carried out the plan on record; then the plan is cleared, or
the ledger refuses to. -/
theorem applyWith_cases (st : State W) (strategy : Strategy W) (project : String)
    (migrations : List Migration) (token : Option Nat) :
    (∃ answer, st.applyWith strategy project migrations token = (st, answer)) ∨
      ∃ (plan : Planned) (next : State W),
        st.carryOut strategy project plan.documents = .ok next ∧
        ((∃ error, next.ledger.clearPlan project plan.generation = .error error ∧
            st.applyWith strategy project migrations token = (next, .error (.store error))) ∨
          ∃ ledger cleared, next.ledger.clearPlan project plan.generation = .ok (ledger, cleared) ∧
            st.applyWith strategy project migrations token =
              ({ next with ledger := ledger }, .ok ())) := by
  unfold applyWith
  cases checkProject project with
  | error error => exact .inl ⟨_, rfl⟩
  | ok u =>
      cases st.ledger.getPlan project with
      | error error => exact .inl ⟨_, rfl⟩
      | ok found =>
          cases found with
          | none =>
              simp only
              split <;> exact .inl ⟨_, rfl⟩
          | some plan =>
              simp only
              split
              · exact .inl ⟨_, rfl⟩
              · cases hcarry : st.carryOut strategy project plan.documents with
                | error error => exact .inl ⟨_, rfl⟩
                | ok next =>
                    cases hclear : next.ledger.clearPlan project plan.generation with
                    | error error => exact .inr ⟨plan, next, hcarry, .inl ⟨error, hclear, by
                        simp only [hclear]⟩⟩
                    | ok cleared => exact .inr ⟨plan, next, hcarry, .inr ⟨cleared.1, cleared.2,
                        hclear, by simp only [hclear]⟩⟩

section Calls

variable {st : State W} {accounts : Accounts} (h : st.ledger.Holds accounts)
  (strategy : Strategy W) (project : String)
include h

/-- A plan is refused and changes nothing, or its documents are on record under the next
token. -/
theorem planWith_cases {now : Instant} (hnow : st.ledger.Keeps now) (documents : Documents) :
    (∃ error, st.planWith strategy now project documents = (st, .error error)) ∨
      ∃ migrations summary,
        st.migrationsFor strategy now project documents = .ok (migrations, summary) ∧
        st.planWith strategy now project documents =
          ({ st with ledger := (st.ledger.savePlan project documents now).1 },
            .ok ⟨migrations, !migrations.isEmpty, summary, (accounts project).generation + 1⟩) := by
  unfold planWith
  cases checkPlanInput project documents with
  | error error => exact .inl ⟨error, rfl⟩
  | ok u =>
      cases hfound : st.migrationsFor strategy now project documents with
      | error error => exact .inl ⟨error, rfl⟩
      | ok found =>
          obtain ⟨migrations, summary⟩ := found
          have htoken := (Ledger.savePlan_of_holds h project documents hnow).1
          refine .inr ⟨migrations, summary, rfl, ?_⟩
          simp only [htoken]

variable {project}

/-- Without a plan on record only an apply of nothing succeeds. -/
theorem applyWith_of_unplanned (hproject : checkProject project = .ok ())
    (hplan : (accounts project).onRecord = none) (migrations : List Migration)
    (token : Option Nat) :
    st.applyWith strategy project migrations token =
      (st, if token.isNone && migrations.isEmpty then .ok ()
        else .error (.nothingPlanned project)) := by
  simp only [applyWith, hproject, Ledger.getPlan_of_holds h, hplan]
  split <;> rfl

/-- Carrying out a plan keeps it on record, and leaves the other projects alone. -/
theorem holds_carryOut {documents : Documents} {next : State W}
    (hnext : st.carryOut strategy project documents = .ok next) :
    ∃ a, next.ledger.Holds (Function.update accounts project a) ∧
      a.generation = (accounts project).generation ∧ a.planned = (accounts project).planned := by
  have hledger := ledger_carryOut hnext
  cases strategy with
  | native client =>
      refine ⟨accounts project, ?_, rfl, rfl⟩
      rw [Function.update_eq_self, hledger]
      exact h
  | contentHash =>
      refine ⟨(accounts project).apply documents, ?_, rfl, rfl⟩
      rw [hledger]
      exact Ledger.saveState_of_holds h project documents

variable {plan : Planned} (hplan : (accounts project).onRecord = some plan)
include hplan

/-- A token that is not that of the plan on record is refused. -/
theorem applyWith_of_stale (hproject : checkProject project = .ok ()) {token : Option Nat}
    (htoken : token ≠ some plan.generation) (migrations : List Migration) :
    st.applyWith strategy project migrations token =
      (st, .error (.stalePlan project plan.generation token)) := by
  simp only [applyWith, hproject, Ledger.getPlan_of_holds h, hplan, if_pos htoken]

/-- The token of the plan on record carries out that plan, whatever migrations come with it. -/
theorem applyWith_of_planned (hproject : checkProject project = .ok ())
    (migrations : List Migration) :
    st.applyWith strategy project migrations (some plan.generation) =
      st.finish strategy project plan.documents plan.generation := by
  simp only [applyWith, hproject, Ledger.getPlan_of_holds h, hplan, ne_eq, not_true, if_false]
  rfl

/-- A plan carried out is no longer on record; one that is not stays there. -/
theorem holds_finish :
    ∃ a, (st.finish strategy project plan.documents plan.generation).1.ledger.Holds
        (Function.update accounts project a) ∧
      a.generation = (accounts project).generation ∧
      a.planned = match (st.finish strategy project plan.documents plan.generation).2 with
        | .ok () => none
        | .error _ => (accounts project).planned := by
  unfold finish
  cases hcarry : st.carryOut strategy project plan.documents with
  | error error =>
      refine ⟨accounts project, ?_, rfl, rfl⟩
      rw [Function.update_eq_self]
      exact h
  | ok next =>
      obtain ⟨a, hnext, hgeneration, hplanned⟩ := holds_carryOut h strategy hcarry
      have hrecord : (Function.update accounts project a project).onRecord = some plan := by
        rw [Function.update_self, ← hplan, Account.onRecord, hplanned, hgeneration,
          Account.onRecord]
      rcases Ledger.clearPlan_of_holds hnext project hrecord with ⟨ledger, hclear, hledger⟩ | hclear
      · simp only [hclear]
        rw [Function.update_self, Function.update_idem] at hledger
        exact ⟨a.clear, hledger, hgeneration, rfl⟩
      · simp only [hclear]
        exact ⟨a, hnext, hgeneration, hplanned⟩

omit hplan

/-- A call changes no account but that of its project. -/
theorem exists_holds_planWith {now : Instant} (hnow : st.ledger.Keeps now)
    (documents : Documents) :
    ∃ a, (st.planWith strategy now project documents).1.ledger.Holds
      (Function.update accounts project a) ∧ (accounts project).Precedes a := by
  rcases planWith_cases h strategy project hnow documents with
    ⟨error, hrefused⟩ | ⟨migrations, summary, -, hplanned⟩
  · refine ⟨accounts project, ?_, .refl _⟩
    rw [hrefused, Function.update_eq_self]
    exact h
  · rw [hplanned]
    exact ⟨_, (Ledger.savePlan_of_holds h project documents hnow).2, Account.precedes_plan _ _ _⟩

theorem exists_holds_applyWith (migrations : List Migration) (token : Option Nat) :
    ∃ a, (st.applyWith strategy project migrations token).1.ledger.Holds
      (Function.update accounts project a) ∧ (accounts project).Precedes a := by
  have hsame : ∃ a, st.ledger.Holds (Function.update accounts project a) ∧
      (accounts project).Precedes a := by
    refine ⟨accounts project, ?_, .refl _⟩
    rw [Function.update_eq_self]
    exact h
  cases hproject : checkProject project with
  | error error =>
      simp only [applyWith, hproject]
      exact hsame
  | ok u =>
      cases hplan : (accounts project).onRecord with
      | none =>
          rw [applyWith_of_unplanned h strategy hproject hplan]
          exact hsame
      | some plan =>
          by_cases htoken : token = some plan.generation
          · rw [htoken, applyWith_of_planned h strategy hplan hproject]
            obtain ⟨a, hfinish, hgeneration, hplanned⟩ := holds_finish h strategy hplan
            refine ⟨a, hfinish, Nat.le_of_eq hgeneration.symm, fun _ => ?_⟩
            cases hanswer : (st.finish strategy project plan.documents plan.generation).2 with
            | ok u =>
                rw [hanswer] at hplanned
                exact .inr hplanned
            | error error =>
                rw [hanswer] at hplanned
                exact .inl hplanned
          · rw [applyWith_of_stale h strategy hplan hproject htoken]
            exact hsame

end Calls

/-- Planning and applying do not change which times the ledger can keep. -/
theorem keeps_planWith (st : State W) (strategy : Strategy W) (now : Instant) (project : String)
    (documents : Documents) (time : Instant) :
    (st.planWith strategy now project documents).1.ledger.Keeps time ↔ st.ledger.Keeps time := by
  unfold planWith
  cases checkPlanInput project documents with
  | error error => rfl
  | ok u =>
      cases st.migrationsFor strategy now project documents with
      | error error => rfl
      | ok found => exact Ledger.keeps_savePlan _ _ _ _ _

theorem keeps_applyWith (st : State W) (strategy : Strategy W) (project : String)
    (migrations : List Migration) (token : Option Nat) (time : Instant) :
    (st.applyWith strategy project migrations token).1.ledger.Keeps time ↔
      st.ledger.Keeps time := by
  have hcarried {plan : Planned} {next : State W}
      (hcarry : st.carryOut strategy project plan.documents = .ok next) :
      next.ledger.Keeps time ↔ st.ledger.Keeps time := by
    rw [ledger_carryOut hcarry]
    cases strategy with
    | native client => rfl
    | contentHash => exact Ledger.keeps_saveState _ _ _ _
  rcases st.applyWith_cases strategy project migrations token with ⟨answer, happly⟩ |
    ⟨plan, next, hcarry, ⟨error, -, happly⟩ | ⟨ledger, cleared, hclear, happly⟩⟩
  · rw [happly]
  · rw [happly]
    exact hcarried hcarry
  · rw [happly]
    exact (Ledger.keeps_clearPlan hclear time).trans (hcarried hcarry)

end State

/-- A call of a planner, with the strategy that it uses. -/
inductive Call (W : Type) where
  | plan (strategy : Strategy W) (now : Instant) (project : String) (documents : Documents)
  | apply (strategy : Strategy W) (project : String) (migrations : List Migration)
    (token : Option Nat)

/-- What a call was and what it answered. -/
inductive Event where
  | planned (project : String) (documents : Documents) (answer : Except Error Proposal)
  | applied (project : String) (token : Option Nat) (answer : Except Error Unit)

namespace Call

/-- The state after a call, and the event of it. -/
def run (st : State W) : Call W → State W × Event
  | plan strategy now project documents =>
    let (next, answer) := st.planWith strategy now project documents
    (next, .planned project documents answer)
  | apply strategy project migrations token =>
    let (next, answer) := st.applyWith strategy project migrations token
    (next, .applied project token answer)

/-- The state after calls in their order, and the history they make, oldest first. -/
def runAll (st : State W) : List (Call W) → State W × List Event
  | [] => (st, [])
  | call :: calls =>
    let (next, event) := call.run st
    let (last, history) := runAll next calls
    (last, event :: history)

/-- Whether a ledger can keep the time of a call. -/
def KeptBy (ledger : Ledger) : Call W → Prop
  | plan _ now _ _ => ledger.Keeps now
  | apply _ _ _ _ => True

theorem keptBy_run (st : State W) (call other : Call W) :
    other.KeptBy (call.run st).1.ledger ↔ other.KeptBy st.ledger := by
  cases other with
  | apply strategy project migrations token => rfl
  | plan strategy now project documents =>
      cases call with
      | plan strategy' now' project' documents' => exact st.keeps_planWith _ _ _ _ _
      | apply strategy' project' migrations token => exact st.keeps_applyWith _ _ _ _ _

end Call

end ProjectHub.Plan
