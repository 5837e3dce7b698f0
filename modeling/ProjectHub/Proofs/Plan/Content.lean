import ProjectHub.Proofs.Plan.Happening
import ProjectHub.Proofs.Plan.Tokens

/-!
# Plans against applied documents

Without a live database a plan compares the documents it was given with those
applied last, alias by alias, and asks nothing of an alias that it was not given.
Its apply replaces all documents applied before, so a plan without changes is
applied without effect exactly when it has the aliases of those documents.
-/

namespace ProjectHub.Plan

variable {W : Type}

/-! ## What is applied under an alias -/

/-- The text applied last under an alias. -/
def Account.text? (a : Account) (name : String) : Option String :=
  a.applied.bind fun documents => documents.get? name

/-- Whether two answers to one request for an applied text say the same: both are the same
error, or both are texts that differ only in the blanks around them. -/
def SameText : Except Error String → Except Error String → Prop
  | .ok a, .ok b => Text.trim a = Text.trim b
  | .error a, .error b => a = b
  | _, _ => False

theorem State.currentState_of_holds {st : State W} {accounts : Accounts}
    (h : st.ledger.Holds accounts) (project name : String) :
    st.currentState project name =
      ((accounts project).text? name).elim (.error (.stateNotFound project name)) .ok := by
  simp only [currentState, Ledger.getState_of_holds h, bind, Except.bind, Except.mapError,
    Account.text?]
  cases (accounts project).applied.bind fun documents => documents.get? name <;> rfl

/-- Answers say the same exactly when both or neither have a text, and both texts are the same
without the blanks around them. -/
theorem sameText_elim_iff {error : Error} {a b : Option String} :
    SameText (a.elim (.error error) .ok) (b.elim (.error error) .ok) ↔
      a.map Text.trim = b.map Text.trim := by
  cases a <;> cases b <;> simp [SameText]

theorem isOk_elim {error : Error} (a : Option String) :
    (a.elim (.error error) .ok : Except Error String).toBool = a.isSome := by
  cases a <;> rfl

/-! ## What a plan compares -/

theorem changedDocuments_eq_nil_iff {current documents : Documents} :
    changedDocuments current documents = [] ↔
      ∀ name text, documents.get? name = some text →
        Text.trim ((current.get? name).getD "") = Text.trim text := by
  simp only [changedDocuments, List.filter_eq_nil_iff, Prod.forall, NameMap.mem_toList_iff,
    bne_iff_ne, ne_eq, not_not]

/-- A plan against applied documents proposes nothing exactly when each of its documents has the
text applied last, an alias without one counting as an empty text. -/
theorem State.unchanged_of_planWith {st : State W} {accounts : Accounts}
    (h : st.ledger.Holds accounts) {now : Instant} (hnow : st.ledger.Keeps now) {project : String}
    {documents : Documents} {proposal : Proposal}
    (hplan : (st.planWith .contentHash now project documents).2 = .ok proposal) :
    proposal.token = (accounts project).generation + 1 ∧
      (proposal.hasChanges = false ↔ ∀ name text, documents.get? name = some text →
        Text.trim (((accounts project).text? name).getD "") = Text.trim text) := by
  rcases planWith_cases h .contentHash project hnow documents with
    ⟨error, hrefused⟩ | ⟨migrations, summary, hmigrations, hplanned⟩
  · rw [hrefused] at hplan
    cases hplan
  · rw [hplanned] at hplan
    cases hplan
    refine ⟨rfl, ?_⟩
    simp only [migrationsFor, Ledger.getState_of_holds h, bind, Except.bind, Except.mapError, pure,
      Except.pure, Except.ok.injEq, Prod.mk.injEq] at hmigrations
    have hempty : (!migrations.isEmpty) = false ↔
        changedDocuments ((accounts project).applied.getD .empty) documents = [] := by
      rw [← hmigrations.1, contentMigrations]
      simp
    have htext (name : String) : ((accounts project).applied.getD .empty).get? name =
        (accounts project).text? name := by
      rw [Account.text?]
      cases (accounts project).applied <;> rfl
    simp only [hempty, changedDocuments_eq_nil_iff, htext]

/-! ## What its apply leaves -/

/-- Applying documents without a live database puts them in place of those applied before,
also where the plan cannot be cleared afterwards. -/
theorem State.holds_finish_contentHash {st : State W} {accounts : Accounts}
    (h : st.ledger.Holds accounts) {project : String} {plan : Planned}
    (hplan : (accounts project).onRecord = some plan) :
    ∃ a, (st.finish .contentHash project plan.documents plan.generation).1.ledger.Holds
        (Function.update accounts project a) ∧
      a.generation = (accounts project).generation ∧ a.applied = some plan.documents ∧
      (a.planned = none ∨ a.planned = (accounts project).planned) ∧
      ((st.finish .contentHash project plan.documents plan.generation).2 = .ok () ∨
        0x8000000000000000 ≤ plan.generation ∧
          (st.finish .contentHash project plan.documents plan.generation).2 =
            .error (.store (.generation plan.generation))) := by
  have hsaved := Ledger.saveState_of_holds h project plan.documents
  have hrecord : (Function.update accounts project
      ((accounts project).apply plan.documents) project).onRecord = some plan := by
    rw [Function.update_self, ← hplan]
    rfl
  simp only [finish, carryOut]
  rcases Ledger.clearPlan_of_holds hsaved project hrecord with ⟨ledger, hclear, hledger⟩ | hclear
  · simp only [hclear]
    rw [Function.update_self, Function.update_idem] at hledger
    exact ⟨_, hledger, rfl, rfl, .inl rfl, .inl trivial⟩
  · simp only [hclear]
    exact ⟨_, hsaved, rfl, rfl, .inr rfl, .inr ⟨(Ledger.clearPlan_error hclear).1, trivial⟩⟩

/-- A text given for an alias without changes is what was applied there, blanks aside, unless
nothing was applied: then it is blank. So the alias keeps its answer exactly when it is named
both times or neither time. -/
theorem sameText_of_unchanged {recorded given : Option String}
    (h : ∀ text, given = some text → Text.trim (recorded.getD "") = Text.trim text) :
    recorded.map Text.trim = given.map Text.trim ↔ (given.isSome ↔ recorded.isSome) := by
  cases recorded with
  | none => cases given <;> simp
  | some before =>
      cases given with
      | none => simp
      | some text => simpa using h text rfl

/-- A plan without changes and its apply, both without a live database, whatever happened to
other projects in between. The documents of the plan become what is applied, so an alias keeps
its answer exactly when the plan named it and it was applied before, or neither. An apply of no
changes is thus without effect exactly when the plan had the aliases that were applied: one that
is left out of it is forgotten, and a new one is there from then on. -/
theorem apply_unchanged_iff {p : Planner W} {st : State W} (hreachable : Reachable p st)
    {now : Instant} (hnow : st.ledger.Keeps now) {project : String} {documents : Documents}
    {proposal : Proposal}
    (hplan : (st.planWith .contentHash now project documents).2 = .ok proposal)
    (hunchanged : proposal.hasChanges = false) {between : List (Happening W)}
    (hkept : ∀ happening ∈ between, happening.KeptBy st.ledger)
    (hspares : ∀ happening ∈ between, happening.Spares project) (migrations : List Migration) :
    let planned := Happening.runAll p (st.planWith .contentHash now project documents).1 between
    let applied := planned.applyWith .contentHash project migrations (some proposal.token)
    (applied.2 = .ok () ∨ applied.2 = .error (.store (.generation proposal.token))) ∧
    (∀ name, planned.currentState project name = st.currentState project name) ∧
    (∀ name, applied.1.currentState project name =
      (documents.get? name).elim (.error (.stateNotFound project name)) .ok) ∧
    (∀ other name, other ≠ project →
      applied.1.currentState other name = planned.currentState other name) ∧
    (∀ name, SameText (st.currentState project name) (applied.1.currentState project name) ↔
      ((documents.get? name).isSome ↔ (st.currentState project name).toBool)) ∧
    ((∀ name, SameText (st.currentState project name) (applied.1.currentState project name)) ↔
      ∀ name, (documents.get? name).isSome ↔ (st.currentState project name).toBool) := by
  intro planned applied
  obtain ⟨accounts, hholds⟩ := hreachable.exists_holds
  obtain ⟨htoken, hnothing⟩ := State.unchanged_of_planWith hholds hnow hplan
  have hsame := hnothing.mp hunchanged
  have hafterPlan : (st.planWith .contentHash now project documents).1.ledger.Holds
      (Function.update accounts project ((accounts project).plan documents now)) := by
    rcases State.planWith_cases hholds .contentHash project hnow documents with
      ⟨error, hrefused⟩ | ⟨_, _, -, hdone⟩
    · rw [hrefused] at hplan
      cases hplan
    · rw [hdone]
      exact (Ledger.savePlan_of_holds hholds project documents hnow).2
  obtain ⟨before, hbefore, hspared⟩ := Happening.holds_runAll p hafterPlan
    fun happening hmem => (Happening.keptBy_congr (st.keeps_planWith _ _ _ _) happening).mpr
      (hkept happening hmem)
  have hproject : before project = (accounts project).plan documents now := by
    rw [(hspared project).2 hspares, Function.update_self]
  have hrecord : (before project).onRecord = some ⟨proposal.token, documents, now⟩ := by
    rw [hproject, htoken]
    rfl
  have hcheck : checkProject project = .ok () := by
    cases hinput : checkProject project with
    | ok u => rfl
    | error error =>
        simp [State.planWith, checkPlanInput, hinput, bind, Except.bind] at hplan
  have hfinish : applied = planned.finish .contentHash project documents proposal.token :=
    State.applyWith_of_planned hbefore .contentHash hrecord hcheck migrations
  obtain ⟨a, hafter, -, happlied, -, hanswer⟩ := State.holds_finish_contentHash hbefore hrecord
  rw [← hfinish] at hanswer hafter
  have hst (name : String) := State.currentState_of_holds hholds project name
  have hnext (name : String) := State.currentState_of_holds hafter project name
  have htext (name : String) :
      (Function.update before project a project).text? name = documents.get? name := by
    rw [Function.update_self, Account.text?, happlied, Option.bind_some]
  have hiff (name : String) :
      SameText (st.currentState project name) (applied.1.currentState project name) ↔
        ((documents.get? name).isSome ↔ (st.currentState project name).toBool) := by
    rw [hst, hnext, htext, sameText_elim_iff, isOk_elim]
    exact sameText_of_unchanged (hsame name)
  refine ⟨hanswer.imp_right And.right, fun name => ?_, fun name => ?_,
    fun other name hother => ?_, hiff, forall_congr' hiff⟩
  · rw [hst, State.currentState_of_holds hbefore, hproject]
    rfl
  · rw [hnext, htext]
  · rw [State.currentState_of_holds hafter, State.currentState_of_holds hbefore,
      Function.update_of_ne hother]

section Forgotten

/-- A state where documents were applied under two aliases. -/
def twoApplied : State Stage :=
  (Call.runAll ⟨emptyVault, .emptyMemory, {}⟩
    [.plan .contentHash .epoch "shop" (.ofList [("a", "x"), ("b", "y")]),
      .apply .contentHash "shop" [] (some 1)]).1

/-- The document of one of the aliases, with blanks around it. -/
def oneDocument : Documents := .ofList [("a", " x ")]

/-- A plan of one of two aliases has no changes, and its apply forgets the other. -/
theorem apply_unchanged_forgets :
    Reachable ⟨[stageEngine], {}⟩ twoApplied ∧
      (twoApplied.planWith .contentHash .epoch "shop" oneDocument).2 =
        .ok ⟨[], false, "Local mode: no changes detected", 2⟩ ∧
      twoApplied.currentState "shop" "b" = .ok "y" ∧
      (((twoApplied.planWith .contentHash .epoch "shop" oneDocument).1.applyWith .contentHash
        "shop" [] (some 2)).1.currentState "shop" "b" = .error (.stateNotFound "shop" "b")) ∧
      ¬ ∀ name, SameText (twoApplied.currentState "shop" name)
        (((twoApplied.planWith .contentHash .epoch "shop" oneDocument).1.applyWith .contentHash
          "shop" [] (some 2)).1.currentState "shop" name) := by
  have hreachable : Reachable ⟨[stageEngine], {}⟩ twoApplied := by
    have hstart : Reachable ⟨[stageEngine], {}⟩ ⟨emptyVault, .emptyMemory, ({} : Stage)⟩ :=
      .memory emptyVault ({} : Stage)
    have hplanned := hstart.call
      (.plan .contentHash .epoch "shop" (.ofList [("a", "x"), ("b", "y")])) trivial
    exact hplanned.call (.apply .contentHash "shop" [] (some 1)) trivial
  have hplan : (twoApplied.planWith .contentHash .epoch "shop" oneDocument).2 =
      .ok ⟨[], false, "Local mode: no changes detected", 2⟩ := rfl
  have hbefore : twoApplied.currentState "shop" "b" = .ok "y" := rfl
  obtain ⟨-, -, hafter, -, -, hiff⟩ := @apply_unchanged_iff Stage _ _ hreachable .epoch trivial
    "shop" oneDocument _ hplan rfl [] (fun _ h => nomatch h) (fun _ h => nomatch h) []
  refine ⟨hreachable, hplan, hbefore, hafter "b", fun hall => ?_⟩
  have hnamed := (hiff.mp hall "b").mpr (by rw [hbefore]; rfl)
  exact absurd hnamed (by decide)

end Forgotten

end ProjectHub.Plan
