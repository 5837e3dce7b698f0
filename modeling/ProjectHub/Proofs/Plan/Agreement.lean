import ProjectHub.Proofs.Plan.Ledger
import ProjectHub.Proofs.Run

/-!
# Agreement of ledgers

A ledger of values and a ledger of rows answer every run of operations alike, and
both as the history of the run says: tokens are counted for each project apart, the
plan on record is the last one saved unless it was cleared, and the documents applied
are those saved last.
-/

namespace ProjectHub.Plan.Ledger

/-- An operation on a ledger, with the time of planning. -/
inductive Call where
  | savePlan (now : Instant) (project : String) (documents : Documents)
  | getPlan (project : String)
  | clearPlan (project : String) (token : Nat)
  | getState (project : String)
  | saveState (project : String) (documents : Documents)

/-- What an operation answers, the time of planning aside. -/
inductive Answer where
  | token (given : Except Storage.Error Nat)
  | plan (found : Except Storage.Error (Option (Nat × Documents)))
  | cleared (found : Except Storage.Error Bool)
  | documents (found : Except Storage.Error (Option Documents))
  | done

abbrev Event := Call × Answer

namespace Call

def project : Call → String
  | savePlan _ project _ | getPlan project | clearPlan project _ | getState project
  | saveState project _ => project

def run (ledger : Ledger) : Call → Ledger × Answer
  | savePlan now project documents =>
    let (next, token) := ledger.savePlan project documents now
    (next, .token token)
  | getPlan project =>
    (ledger, .plan ((ledger.getPlan project).map fun found =>
      found.map fun plan => (plan.generation, plan.documents)))
  | clearPlan project token =>
    match ledger.clearPlan project token with
    | .ok (next, cleared) => (next, .cleared (.ok cleared))
    | .error error => (ledger, .cleared (.error error))
  | getState project => (ledger, .documents (ledger.getState project))
  | saveState project documents => (ledger.saveState project documents, .done)

/-- The ledger after operations in their order, and the history they make, oldest first. -/
def runAll (ledger : Ledger) (calls : List Call) : Ledger × List Event :=
  ProjectHub.runAll (fun ledger call => ((call.run ledger).1, (call, (call.run ledger).2))) ledger
    calls

/-- Whether a ledger can keep the time of an operation, and the token is one of 63 bits. -/
def KeptBy (ledger : Ledger) : Call → Prop
  | savePlan now _ _ => ledger.Keeps now
  | clearPlan _ token => token < 0x8000000000000000
  | _ => True

end Call

/-! ## What a history says -/

namespace Event

/-- The token and the documents of a plan that was saved for a project. -/
def savedOf? (project : String) : Event → Option (Nat × Documents)
  | (.savePlan _ other documents, .token (.ok token)) =>
    if other = project then some (token, documents) else none
  | _ => none

def clearedOf? (project : String) : Event → Option Nat
  | (.clearPlan other token, .cleared (.ok true)) => if other = project then some token else none
  | _ => none

def appliedOf? (project : String) : Event → Option Documents
  | (.saveState other documents, .done) => if other = project then some documents else none
  | _ => none

end Event

/-- The plans saved for a project, each with its token, in their order. -/
def savedPlans (project : String) (history : List Event) : List (Nat × Documents) :=
  history.filterMap (Event.savedOf? project)

def clearedTokens (project : String) (history : List Event) : List Nat :=
  history.filterMap (Event.clearedOf? project)

/-- The plan saved last for a project, unless it was cleared. -/
def standing (project : String) (history : List Event) : Option (Nat × Documents) :=
  (savedPlans project history).getLast?.filter fun plan => plan.1 ∉ clearedTokens project history

def lastApplied (project : String) (history : List Event) : Option Documents :=
  (history.filterMap (Event.appliedOf? project)).getLast?

/-- What an operation answers after a history: a plan gets the next token of its project, and is
on record until another is saved or it is cleared by its token. -/
def answerAfter (history : List Event) : Call → Answer
  | .savePlan _ project _ => .token (.ok ((savedPlans project history).length + 1))
  | .getPlan project => .plan (.ok (standing project history))
  | .clearPlan project token =>
    .cleared (.ok ((standing project history).any fun plan => plan.1 = token))
  | .getState project => .documents (.ok (lastApplied project history))
  | .saveState _ _ => .done

/-- The history of operations, each answered by the history before it. -/
def historyOf (calls : List Call) : List Event :=
  calls.foldl (fun history call => history ++ [(call, answerAfter history call)]) []

theorem historyOf_append (calls : List Call) (call : Call) :
    historyOf (calls ++ [call]) =
      historyOf calls ++ [(call, answerAfter (historyOf calls) call)] :=
  List.foldl_append

section History

variable {project : String} {history : List Event} {event : Event}

@[simp] theorem savedPlans_append :
    savedPlans project (history ++ [event]) =
      savedPlans project history ++ (event.savedOf? project).toList :=
  filterMap_concat ..

@[simp] theorem clearedTokens_append :
    clearedTokens project (history ++ [event]) =
      clearedTokens project history ++ (event.clearedOf? project).toList :=
  filterMap_concat ..

@[simp] theorem lastApplied_append :
    lastApplied project (history ++ [event]) =
      (event.appliedOf? project).or (lastApplied project history) := by
  rw [lastApplied, filterMap_concat, List.getLast?_append, lastApplied]
  cases event.appliedOf? project <;> rfl

theorem standing_eq_some_iff {token : Nat} {documents : Documents} :
    standing project history = some (token, documents) ↔
      (savedPlans project history).getLast? = some (token, documents) ∧
        token ∉ clearedTokens project history := by
  rw [standing, Option.filter_eq_some_iff, decide_eq_true_iff]

theorem standing_congr {other : List Event}
    (hplans : savedPlans project other = savedPlans project history)
    (htokens : clearedTokens project other = clearedTokens project history) :
    standing project other = standing project history := by
  rw [standing, standing, hplans, htokens]

/-- An event of another project says nothing of a project. -/
theorem Event.eq_none_of_ne (h : event.1.project ≠ project) :
    event.savedOf? project = none ∧ event.clearedOf? project = none ∧
      event.appliedOf? project = none := by
  obtain ⟨call, answer⟩ := event
  cases call with
  | savePlan now other documents =>
      refine ⟨?_, rfl, rfl⟩
      rcases answer with (_ | _) | _ | _ | _ | _
      case token.ok => exact if_neg h
      all_goals rfl
  | clearPlan other token =>
      refine ⟨rfl, ?_, rfl⟩
      rcases answer with _ | _ | (_ | _ | _) | _ | _
      case cleared.ok.true => exact if_neg h
      all_goals rfl
  | saveState other documents =>
      refine ⟨rfl, rfl, ?_⟩
      cases answer with
      | done => exact if_neg h
      | _ => rfl
  | getPlan other => exact ⟨rfl, rfl, rfl⟩
  | getState other => exact ⟨rfl, rfl, rfl⟩

end History

/-- A history that says what the account of a project is. -/
structure Recounts (project : String) (history : List Event) (a : Account) : Prop where
  tokens : (savedPlans project history).map Prod.fst = List.range' 1 a.generation
  onRecord : a.onRecord.map (fun plan => (plan.generation, plan.documents)) =
    standing project history
  cleared : ∀ token ∈ clearedTokens project history, token ≤ a.generation
  applied : a.applied = lastApplied project history

namespace Recounts

theorem empty (project : String) : Recounts project [] {} where
  tokens := rfl
  onRecord := rfl
  cleared _ h := nomatch h
  applied := rfl

variable {project : String} {history : List Event} {a : Account}
  (h : Recounts project history a)
include h

theorem length_savedPlans : (savedPlans project history).length = a.generation := by
  have hlength := congrArg List.length h.tokens
  rwa [List.length_map, List.length_range'] at hlength

/-- An event that saves and clears nothing of the project says nothing of it. -/
theorem silent {event : Event} (hsaved : event.savedOf? project = none)
    (hcleared : event.clearedOf? project = none) (happlied : event.appliedOf? project = none) :
    Recounts project (history ++ [event]) a := by
  have hplans : savedPlans project (history ++ [event]) = savedPlans project history := by
    rw [savedPlans_append, hsaved, Option.toList_none, List.append_nil]
  have htokens : clearedTokens project (history ++ [event]) = clearedTokens project history := by
    rw [clearedTokens_append, hcleared, Option.toList_none, List.append_nil]
  constructor
  · rw [hplans, h.tokens]
  · rw [h.onRecord, standing_congr hplans htokens]
  · rw [htokens]
    exact h.cleared
  · rw [h.applied, lastApplied_append, happlied, Option.none_or]

theorem plan (now : Instant) (documents : Documents) :
    Recounts project
      (history ++ [(.savePlan now project documents, .token (.ok (a.generation + 1)))])
      (a.plan documents now) := by
  -- the new token is beyond all that were cleared
  have hfresh : a.generation + 1 ∉ clearedTokens project history :=
    fun hmem => Nat.not_succ_le_self _ (h.cleared _ hmem)
  constructor
  · simp [Event.savedOf?, h.tokens, Account.plan, List.range'_concat, Nat.add_comm]
  · symm
    refine standing_eq_some_iff.mpr ?_
    simp [Event.savedOf?, Event.clearedOf?, Account.plan, hfresh]
  · intro token htoken
    simp only [clearedTokens_append, Event.clearedOf?, Option.toList_none, List.append_nil] at htoken
    exact Nat.le_succ_of_le (h.cleared token htoken)
  · simp [Event.appliedOf?, Account.plan, h.applied]

theorem clear {plan : Planned} (hplan : a.onRecord = some plan) :
    Recounts project (history ++ [(.clearPlan project plan.generation, .cleared (.ok true))])
      a.clear := by
  obtain ⟨htokens, honRecord, hbound, hdocuments⟩ := h
  rw [hplan, Option.map_some, eq_comm, standing_eq_some_iff] at honRecord
  have htoken : plan.generation = a.generation := by
    obtain ⟨pair, -, rfl⟩ := Option.map_eq_some_iff.mp hplan
    rfl
  constructor
  · simpa [Event.savedOf?, Account.clear] using htokens
  · symm
    refine Option.eq_none_iff_forall_ne_some.mpr fun ⟨token, documents⟩ hstanding => ?_
    rw [standing_eq_some_iff] at hstanding
    simp [Event.savedOf?, Event.clearedOf?, honRecord.1] at hstanding
    exact hstanding.2.2 hstanding.1.1.symm
  · intro token hmem
    simp only [clearedTokens_append, Event.clearedOf?, if_true, Option.toList_some,
      List.mem_append, List.mem_singleton] at hmem
    rcases hmem with hmem | rfl
    · exact hbound token hmem
    · exact Nat.le_of_eq htoken
  · simpa [Event.appliedOf?, Account.clear] using hdocuments

theorem apply (documents : Documents) :
    Recounts project (history ++ [(.saveState project documents, .done)])
      (a.apply documents) := by
  obtain ⟨htokens, honRecord, hbound, hdocuments⟩ := h
  constructor
  · simpa [Event.savedOf?, Account.apply] using htokens
  · simpa [standing, Event.savedOf?, Event.clearedOf?, Account.onRecord, Account.apply]
      using honRecord
  · simpa [Event.clearedOf?, Account.apply] using hbound
  · simp [Event.appliedOf?, Account.apply]

end Recounts

/-! ## Runs -/

/-- A ledger that holds the accounts that a history recounts. -/
def Told (ledger : Ledger) (history : List Event) : Prop :=
  ∃ accounts, ledger.Holds accounts ∧ ∀ project, Recounts project history (accounts project)

theorem clearPlan_of_not_onRecord {ledger : Ledger} {accounts : Accounts}
    (h : ledger.Holds accounts) {project : String} {token : Nat}
    (htoken : token < 0x8000000000000000)
    (hother : ∀ plan, (accounts project).onRecord = some plan → plan.generation ≠ token) :
    ledger.clearPlan project token = .ok (ledger, false) := by
  cases ledger with
  | memory entries =>
      have hnone : ((accounts project).onRecord.any fun plan => plan.generation = token) = false := by
        cases hplan : (accounts project).onRecord with
        | none => rfl
        | some plan => simpa using hother plan hplan
      simp [clearPlan, h project, Entry.ofAccount, hnone]
  | database plans states =>
      obtain ⟨hrow, -⟩ := h project
      rw [clearPlan, if_neg (Nat.not_le.mpr htoken)]
      generalize plans.get? project = row at hrow
      generalize accounts project = account at hrow hother
      cases hrow with
      | unplanned applied => rfl
      | cleared generation applied => rfl
      | planned generation documents hnow applied =>
          exact if_neg fun hsame => hother _ rfl (Int.ofNat_inj.mp hsame)

theorem clearPlan_ne_error {ledger : Ledger} {project : String} {token : Nat}
    (htoken : token < 0x8000000000000000) {error : Storage.Error} :
    ledger.clearPlan project token ≠ .error error := by
  intro h
  cases ledger with
  | memory entries =>
      simp only [clearPlan] at h
      split at h <;> cases h
  | database plans states =>
      rw [clearPlan, if_neg (Nat.not_le.mpr htoken)] at h
      split at h
      · split at h <;> cases h
      · cases h

theorem keptBy_run (ledger : Ledger) (call other : Call) :
    other.KeptBy (call.run ledger).1 ↔ other.KeptBy ledger := by
  cases other with
  | savePlan now project documents =>
      cases call with
      | savePlan now' project' documents' => exact keeps_savePlan ..
      | getPlan project' => rfl
      | clearPlan project' token =>
          simp only [Call.run]
          cases hclear : ledger.clearPlan project' token with
          | error error => rfl
          | ok cleared => exact keeps_clearPlan hclear now
      | getState project' => rfl
      | saveState project' documents' => exact keeps_saveState ..
  | getPlan project => rfl
  | clearPlan project token => rfl
  | getState project => rfl
  | saveState project documents => rfl

section Step

variable {ledger : Ledger} {accounts : Accounts} {history : List Event}

/-- What a step does to the account of its project it does to the accounts of all. -/
theorem Told.of_update {next : Ledger} {project : String} {a : Account} {event : Event}
    (hrecounts : ∀ project, Recounts project history (accounts project))
    (hnext : next.Holds (Function.update accounts project a))
    (ha : Recounts project (history ++ [event]) a) (hevent : event.1.project = project) :
    next.Told (history ++ [event]) := by
  refine ⟨_, hnext, fun other => ?_⟩
  by_cases hother : other = project
  · rw [hother, Function.update_self]
    exact ha
  · rw [Function.update_of_ne hother]
    obtain ⟨hsaved, hcleared, happlied⟩ :=
      Event.eq_none_of_ne (hevent.trans_ne (Ne.symm hother))
    exact (hrecounts other).silent hsaved hcleared happlied

variable (h : ledger.Told history)
include h

/-- An operation answers as the history says. -/
theorem Told.run {call : Call} (hkept : call.KeptBy ledger) :
    (call.run ledger).2 = answerAfter history call ∧
      (call.run ledger).1.Told (history ++ [(call, answerAfter history call)]) := by
  obtain ⟨accounts, hholds, hrecounts⟩ := h
  cases call with
  | savePlan now project documents =>
      have hlength := (hrecounts project).length_savedPlans
      obtain ⟨htoken, hnext⟩ := savePlan_of_holds hholds project documents hkept
      refine ⟨?_, .of_update hrecounts hnext ?_ rfl⟩
      · show Answer.token (ledger.savePlan project documents now).2 = _
        rw [htoken, answerAfter, hlength]
      · rw [answerAfter, hlength]
        exact (hrecounts project).plan now documents
  | getPlan project =>
      refine ⟨?_, accounts, hholds, fun other => (hrecounts other).silent rfl rfl rfl⟩
      rw [Call.run, getPlan_of_holds hholds, answerAfter, ← (hrecounts project).onRecord]
      rfl
  | clearPlan project token =>
      have hstanding := (hrecounts project).onRecord
      by_cases hplan : ∃ plan, (accounts project).onRecord = some plan ∧ plan.generation = token
      · obtain ⟨plan, hplan, rfl⟩ := hplan
        rw [hplan, Option.map_some] at hstanding
        have hanswer : answerAfter history (.clearPlan project plan.generation) =
            .cleared (.ok true) := by
          simp [answerAfter, ← hstanding]
        obtain ⟨next, hclear, hnext⟩ | herror := clearPlan_of_holds hholds project hplan
        · rw [hanswer, Call.run, hclear]
          exact ⟨rfl, .of_update hrecounts hnext ((hrecounts project).clear hplan) rfl⟩
        · exact absurd herror (clearPlan_ne_error hkept)
      · have hother : ∀ plan, (accounts project).onRecord = some plan →
            plan.generation ≠ token := by
          intro plan honRecord hsame
          exact hplan ⟨plan, honRecord, hsame⟩
        have hanswer : answerAfter history (.clearPlan project token) = .cleared (.ok false) := by
          rw [answerAfter, ← hstanding]
          cases honRecord : (accounts project).onRecord with
          | none => rfl
          | some plan => simpa using hother plan honRecord
        rw [hanswer, Call.run, clearPlan_of_not_onRecord hholds hkept hother]
        exact ⟨rfl, accounts, hholds, fun other => (hrecounts other).silent rfl rfl rfl⟩
  | getState project =>
      refine ⟨?_, accounts, hholds, fun other => (hrecounts other).silent rfl rfl rfl⟩
      rw [Call.run, getState_of_holds hholds, answerAfter, (hrecounts project).applied]
  | saveState project documents =>
      exact ⟨rfl, .of_update hrecounts (saveState_of_holds hholds project documents)
        ((hrecounts project).apply documents) rfl⟩

end Step

theorem Told.runAll {start : Ledger} (h : start.Told []) {calls : List Call}
    (hkept : ∀ call ∈ calls, call.KeptBy start) :
    (Call.runAll start calls).2 = historyOf calls ∧
      (Call.runAll start calls).1.Told (historyOf calls) := by
  -- what a ledger keeps does not change on the way
  refine And.imp_right And.left (runAll_of_step (P := fun past (ledger : Ledger) history =>
    history = historyOf past ∧ ledger.Told (historyOf past) ∧
      ∀ call : Call, call.KeptBy ledger ↔ call.KeptBy start) ?_ ⟨rfl, h, fun _ => Iff.rfl⟩)
  rintro past call ledger _ hprefix ⟨rfl, htold, hkeeps⟩
  have hcall : call ∈ calls := hprefix.subset List.mem_concat_self
  obtain ⟨hanswer, hnext⟩ := htold.run ((hkeeps call).mpr (hkept call hcall))
  rw [hanswer, ← historyOf_append] at *
  exact ⟨rfl, hnext, fun other => (keptBy_run ledger call other).trans (hkeeps other)⟩

theorem told_emptyMemory : emptyMemory.Told [] :=
  ⟨_, holds_emptyMemory, Recounts.empty⟩

theorem told_emptyDatabase : emptyDatabase.Told [] :=
  ⟨_, holds_emptyDatabase, Recounts.empty⟩

/-- What an operation answers does not depend on what happened to other projects. -/
theorem answerAfter_own (history : List Event) (call : Call) :
    answerAfter (history.filter fun event => event.1.project = call.project) call =
      answerAfter history call := by
  have hown {α : Type} (f : Event → Option α)
      (hf : ∀ event, event.1.project ≠ call.project → f event = none) :
      (history.filter fun event => event.1.project = call.project).filterMap f =
        history.filterMap f := by
    rw [List.filterMap_filter]
    refine List.filterMap_congr fun event _ => ?_
    by_cases hevent : event.1.project = call.project
    · simp [hevent]
    · simp [hevent, hf event hevent]
  have hplans := hown (Event.savedOf? call.project) fun event h => (Event.eq_none_of_ne h).1
  have htokens := hown (Event.clearedOf? call.project) fun event h =>
    (Event.eq_none_of_ne h).2.1
  have hstates := hown (Event.appliedOf? call.project) fun event h =>
    (Event.eq_none_of_ne h).2.2
  cases call with
  | savePlan now project documents =>
      exact congrArg (fun plans => Answer.token (.ok (List.length plans + 1))) hplans
  | getPlan project =>
      exact congrArg (fun found => Answer.plan (.ok found)) (standing_congr hplans htokens)
  | clearPlan project token =>
      exact congrArg (fun found : Option (Nat × Documents) =>
        Answer.cleared (.ok (found.any fun plan => plan.1 = token)))
        (standing_congr hplans htokens)
  | getState project =>
      exact congrArg (fun states => Answer.documents (.ok (List.getLast? states))) hstates
  | saveState project documents => rfl

/-- The two kinds of ledger answer operations alike, each as the history before it says, and for
each project as if there were no other. The tokens of a project are 1, 2, 3 and so on. -/
theorem answer_alike {calls : List Call} (hkept : ∀ call ∈ calls, call.KeptBy emptyDatabase) :
    let history := historyOf calls
    (Call.runAll emptyMemory calls).2 = history ∧
    (Call.runAll emptyDatabase calls).2 = history ∧
    (∀ project, (savedPlans project history).map Prod.fst =
      List.range' 1 (savedPlans project history).length) ∧
    ∀ past call, answerAfter (past.filter fun event => event.1.project = call.project) call =
      answerAfter past call := by
  intro history
  have hmemory : ∀ call ∈ calls, call.KeptBy emptyMemory := by
    intro call hcall
    cases call with
    | savePlan now project documents => exact trivial
    | clearPlan project token => exact hkept _ hcall
    | getPlan project => exact trivial
    | getState project => exact trivial
    | saveState project documents => exact trivial
  obtain ⟨hdatabase, accounts, -, hrecounts⟩ := told_emptyDatabase.runAll hkept
  refine ⟨(told_emptyMemory.runAll hmemory).1, hdatabase, fun project => ?_, answerAfter_own⟩
  have htokens := (hrecounts project).tokens
  rwa [← (hrecounts project).length_savedPlans] at htokens

/-- Two projects that plan in turn, one of which clears its first plan and plans anew. -/
def turns : List Call :=
  [.savePlan .epoch "a" .empty, .savePlan .epoch "b" .empty, .clearPlan "a" 1, .getPlan "a",
    .savePlan .epoch "a" .empty, .clearPlan "a" 1, .saveState "b" .empty, .getPlan "a",
    .getState "a"]

theorem answer_alike_turns :
    (∀ call ∈ turns, call.KeptBy emptyDatabase) ∧
      (Call.runAll emptyDatabase turns).2.map Prod.snd =
        [.token (.ok 1), .token (.ok 1), .cleared (.ok true), .plan (.ok none), .token (.ok 2),
          .cleared (.ok false), .done, .plan (.ok (some (2, .empty))), .documents (.ok none)] := by
  have hepoch : Instant.epoch.Showable := by decide
  have hkept : ∀ call ∈ turns, call.KeptBy emptyDatabase := by
    simp [turns, Call.KeptBy, emptyDatabase, Keeps, hepoch]
  obtain ⟨-, hdatabase, -⟩ := answer_alike hkept
  exact ⟨hkept, by rw [hdatabase]; rfl⟩

end ProjectHub.Plan.Ledger
