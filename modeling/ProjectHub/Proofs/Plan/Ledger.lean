import ProjectHub.Plan.Ledger
import ProjectHub.Proofs.Json.Object
import ProjectHub.Proofs.NameMap
import ProjectHub.Proofs.Time.Timestamp
import Mathlib.Logic.Function.Basic

/-!
# What a ledger keeps

Both kinds of ledger keep an account of each project: how many plans it had, the
plan on record, and the documents last applied. Every operation of a ledger is
the same operation on accounts, whether the ledger holds values or rows of text.
-/

namespace ProjectHub.Plan

/-- Documents are read back from their JSON text. -/
theorem Ledger.readDocuments_render (documents : Documents) :
    readDocuments documents.toJson.render = .ok documents := by
  have hread : Json.ReadAs documents.toJson (.object (documents.entries.map fun entry =>
      (entry.1.toList.map Json.unitOf, .text (entry.2.toList.map Json.unitOf)))) := by
    refine Json.readAs_object ?_
    rw [List.forall₂_map_left_iff, List.forall₂_map_right_iff, List.forall₂_same]
    intro entry _
    exact ⟨rfl, Json.readAs_text entry.2⟩
  have hdecode := Json.nameMap_map .text 126
    (fun text => .text (text.toList.map Json.unitOf)) documents
    (fun entry _ => by simp [Json.Decoder.text, Json.textOfUnits?_map_unitOf])
  unfold readDocuments Json.decode?
  rw [Json.parse?_render hread, Option.bind_some, Documents.decoder, Json.maxDepth, hdecode]

/-- What a ledger keeps of a project. -/
structure Account where
  /-- The number of plans so far. -/
  generation : Nat := 0
  /-- The documents planned last and when, until they are applied. -/
  planned : Option (Documents × Instant) := none
  /-- The documents applied last. -/
  applied : Option Documents := none

namespace Account

/-- The plan on record: its token is the number of plans so far. -/
def onRecord (a : Account) : Option Planned :=
  a.planned.map fun (documents, now) => ⟨a.generation, documents, now⟩

/-- The account after a plan. -/
def plan (a : Account) (documents : Documents) (now : Instant) : Account :=
  { a with generation := a.generation + 1, planned := some (documents, now) }

/-- The account without a plan on record. -/
def clear (a : Account) : Account :=
  { a with planned := none }

/-- The account after documents were applied. -/
def apply (a : Account) (documents : Documents) : Account :=
  { a with applied := some documents }

/-- Whether calls may lead from one account to another: no token is given a second time, and
until there is a new one what is planned stays or goes. -/
structure Precedes (a b : Account) : Prop where
  generation : a.generation ≤ b.generation
  planned : b.generation = a.generation → b.planned = a.planned ∨ b.planned = none

theorem Precedes.refl (a : Account) : a.Precedes a :=
  ⟨Nat.le_refl _, fun _ => .inl rfl⟩

theorem Precedes.trans {a b c : Account} (hab : a.Precedes b) (hbc : b.Precedes c) :
    a.Precedes c := by
  obtain ⟨hfirst, hplanned⟩ := hab
  obtain ⟨hsecond, hlater⟩ := hbc
  refine ⟨Nat.le_trans hfirst hsecond, fun hsame => ?_⟩
  have hmiddle : b.generation = a.generation := by omega
  rcases hlater (by omega) with hkept | hgone
  · rw [hkept]
    exact hplanned hmiddle
  · exact .inr hgone

theorem precedes_plan (a : Account) (documents : Documents) (now : Instant) :
    a.Precedes (a.plan documents now) := by
  refine ⟨Nat.le_succ _, fun hsame => ?_⟩
  have hnext : (a.plan documents now).generation = a.generation + 1 := rfl
  omega

/-- A plan that is on record under the last token of an earlier account was on record there. -/
theorem Precedes.onRecord {a b : Account} (h : a.Precedes b) {plan : Planned}
    (hplan : b.onRecord = some plan) (htoken : plan.generation = a.generation) :
    a.onRecord = some plan := by
  obtain ⟨⟨documents, now⟩, hplanned, rfl⟩ := Option.map_eq_some_iff.mp hplan
  have hsame : b.generation = a.generation := htoken
  rcases h.planned hsame with hkept | hgone
  · rw [Account.onRecord, ← hkept, hplanned, hsame]
    rfl
  · rw [hgone] at hplanned
    cases hplanned

end Account

/-- The accounts of all projects. -/
abbrev Accounts := String → Account

/-- The entry that holds an account. -/
def Entry.ofAccount (a : Account) : Entry :=
  ⟨a.generation, a.onRecord, a.applied⟩

/-- The rows that hold the plans of an account. A project that was never planned has none,
and a cleared plan leaves its row. -/
inductive PlanRow.Holds : Option PlanRow → Account → Prop where
  | unplanned (applied : Option Documents) : Holds none ⟨0, none, applied⟩
  | cleared (generation : Nat) (applied : Option Documents) :
    Holds (some ⟨generation, none, none⟩) ⟨generation, none, applied⟩
  | planned (generation : Nat) (documents : Documents) {now : Instant} (h : now.Showable)
    (applied : Option Documents) :
    Holds (some ⟨generation, some documents.toJson.render, some now.toRfc3339⟩)
      ⟨generation, some (documents, now), applied⟩

namespace Ledger

/-- A ledger that holds the accounts of all projects. -/
def Holds (ledger : Ledger) (accounts : Accounts) : Prop :=
  match ledger with
  | memory entries => ∀ project, entry entries project = .ofAccount (accounts project)
  | database plans states => ∀ project, PlanRow.Holds (plans.get? project) (accounts project) ∧
    states.get? project = (accounts project).applied.map fun documents => documents.toJson.render

/-- Whether a ledger can keep a time of planning: rows hold timestamps with four digits for
the year. -/
def Keeps (ledger : Ledger) (now : Instant) : Prop :=
  match ledger with
  | memory _ => True
  | database _ _ => now.Showable

section Operations

variable {ledger : Ledger} {accounts : Accounts}

theorem holds_memory_insert {entries : NameMap Entry} (h : (memory entries).Holds accounts)
    (project : String) (a : Account) :
    (memory (entries.insert project (.ofAccount a))).Holds
      (Function.update accounts project a) := by
  intro other
  by_cases hother : other = project
  · subst hother
    rw [Function.update_self, entry, NameMap.get?_insert_self]
    rfl
  · rw [Function.update_of_ne hother, ← h other, entry,
      NameMap.get?_insert_of_ne _ _ (Ne.symm hother)]
    rfl

theorem holds_database_insert {plans : NameMap PlanRow} {states : NameMap String}
    (h : (database plans states).Holds accounts) {project : String} {row : PlanRow} {a : Account}
    (hrow : PlanRow.Holds (some row) a) (happlied : a.applied = (accounts project).applied) :
    (database (plans.insert project row) states).Holds (Function.update accounts project a) := by
  intro other
  by_cases hother : other = project
  · subst hother
    rw [Function.update_self, NameMap.get?_insert_self, happlied]
    exact ⟨hrow, (h other).2⟩
  · rw [Function.update_of_ne hother, NameMap.get?_insert_of_ne _ _ (Ne.symm hother)]
    exact h other

variable (h : ledger.Holds accounts)
include h

/-- The plan on record is that of the account. -/
theorem getPlan_of_holds (project : String) :
    ledger.getPlan project = .ok (accounts project).onRecord := by
  cases ledger with
  | memory entries =>
      rw [getPlan, h project]
      rfl
  | database plans states =>
      obtain ⟨hrow, -⟩ := h project
      simp only [getPlan]
      generalize plans.get? project = row at hrow
      generalize accounts project = account at hrow
      cases hrow with
      | unplanned applied => rfl
      | cleared generation applied => rfl
      | planned generation documents hnow applied =>
          simp only [readGeneration, Int.natCast_nonneg, if_true, readDocuments_render,
            Storage.readTimestamp, hnow.parse_toRfc3339]
          rfl

/-- The documents applied last are those of the account. -/
theorem getState_of_holds (project : String) :
    ledger.getState project = .ok (accounts project).applied := by
  cases ledger with
  | memory entries =>
      rw [getState, h project]
      rfl
  | database plans states =>
      obtain ⟨-, hstate⟩ := h project
      simp only [getState, hstate]
      cases (accounts project).applied with
      | none => rfl
      | some documents =>
          simp only [Option.map_some, readDocuments_render]
          rfl

omit h in
/-- A plan writes its row with the next token, also where its time cannot be read back. -/
theorem savePlan_database {plans : NameMap PlanRow} {states : NameMap String}
    (h : (database plans states).Holds accounts) (project : String) (documents : Documents)
    (now : Instant) :
    (database plans states).savePlan project documents now =
      (database (plans.insert project ⟨((accounts project).generation + 1 : Nat),
          some documents.toJson.render, some now.toRfc3339⟩) states,
        .ok ((accounts project).generation + 1)) := by
  have hgeneration : ((plans.get? project).elim 1 fun row => row.generation + 1) =
      (((accounts project).generation + 1 : Nat) : Int) := by
    obtain ⟨hrow, -⟩ := h project
    generalize plans.get? project = row at hrow
    generalize accounts project = account at hrow
    cases hrow <;> simp
  have hread : readGeneration ((accounts project).generation + 1 : Nat) =
      .ok ((accounts project).generation + 1) := by
    rw [readGeneration, if_pos (Int.natCast_nonneg _), Int.toNat_natCast]
  rw [← hread, ← hgeneration, savePlan]
  cases plans.get? project <;> rfl

/-- A new plan gets the next token, whatever its time. -/
theorem token_savePlan (project : String) (documents : Documents) (now : Instant) :
    (ledger.savePlan project documents now).2 = .ok ((accounts project).generation + 1) := by
  cases ledger with
  | memory entries =>
      simp only [savePlan, h project]
      rfl
  | database plans states => rw [savePlan_database h]

/-- A new plan gets the next token, and only its project changes. -/
theorem savePlan_of_holds (project : String) (documents : Documents) {now : Instant}
    (hnow : ledger.Keeps now) :
    (ledger.savePlan project documents now).2 = .ok ((accounts project).generation + 1) ∧
      (ledger.savePlan project documents now).1.Holds
        (Function.update accounts project ((accounts project).plan documents now)) := by
  refine ⟨token_savePlan h project documents now, ?_⟩
  cases ledger with
  | memory entries =>
      simp only [savePlan, h project]
      exact holds_memory_insert h project ((accounts project).plan documents now)
  | database plans states =>
      rw [savePlan_database h]
      exact holds_database_insert h (.planned _ documents hnow _) rfl

/-- Applied documents replace those of the project, and nothing else changes. -/
theorem saveState_of_holds (project : String) (documents : Documents) :
    (ledger.saveState project documents).Holds
      (Function.update accounts project ((accounts project).apply documents)) := by
  cases ledger with
  | memory entries =>
      simp only [saveState, h project]
      exact holds_memory_insert h project ((accounts project).apply documents)
  | database plans states =>
      intro other
      by_cases hother : other = project
      · subst hother
        rw [Function.update_self, NameMap.get?_insert_self]
        refine ⟨?_, rfl⟩
        obtain ⟨hrow, -⟩ := h other
        generalize plans.get? other = row at hrow
        generalize accounts other = account at hrow
        cases hrow with
        | unplanned applied => exact .unplanned _
        | cleared generation applied => exact .cleared _ _
        | planned generation planned hnow applied => exact .planned _ _ hnow _
      · rw [Function.update_of_ne hother, NameMap.get?_insert_of_ne _ _ (Ne.symm hother)]
        exact h other

/-- The plan on record is cleared by its token, and by no other. A database refuses a token
beyond the range of its column, and keeps the plan. -/
theorem clearPlan_of_holds (project : String) {plan : Planned}
    (hplan : (accounts project).onRecord = some plan) :
    (∃ next, ledger.clearPlan project plan.generation = .ok (next, true) ∧
      next.Holds (Function.update accounts project (accounts project).clear)) ∨
    ledger.clearPlan project plan.generation = .error (.generation plan.generation) := by
  cases ledger with
  | memory entries =>
      left
      simp only [clearPlan, h project, Entry.ofAccount, hplan, Option.any_some, decide_true, if_true]
      exact ⟨_, rfl, holds_memory_insert h project (accounts project).clear⟩
  | database plans states =>
      by_cases hrange : 0x8000000000000000 ≤ plan.generation
      · right
        rw [clearPlan, if_pos hrange]
      · left
        obtain ⟨hrow, -⟩ := h project
        simp only [clearPlan, if_neg hrange]
        generalize hget : plans.get? project = row at hrow
        generalize haccount : accounts project = account at hrow hplan
        cases hrow with
        | unplanned applied => cases hplan
        | cleared generation applied => cases hplan
        | planned generation documents hnow applied =>
            cases hplan
            refine ⟨_, if_pos rfl, holds_database_insert h (.cleared generation applied) ?_⟩
            rw [haccount]
            rfl

end Operations

/-- Which times a ledger can keep does not depend on what it holds. -/
theorem keeps_savePlan (ledger : Ledger) (project : String) (documents : Documents)
    (now time : Instant) :
    (ledger.savePlan project documents now).1.Keeps time ↔ ledger.Keeps time := by
  cases ledger <;> rfl

theorem keeps_saveState (ledger : Ledger) (project : String) (documents : Documents)
    (time : Instant) : (ledger.saveState project documents).Keeps time ↔ ledger.Keeps time := by
  cases ledger <;> rfl

theorem keeps_clearPlan {ledger next : Ledger} {project : String} {token : Nat} {cleared : Bool}
    (h : ledger.clearPlan project token = .ok (next, cleared)) (time : Instant) :
    next.Keeps time ↔ ledger.Keeps time := by
  cases ledger with
  | memory entries =>
      simp only [clearPlan] at h
      split at h <;> cases h <;> rfl
  | database plans states =>
      simp only [clearPlan] at h
      split at h
      · cases h
      · split at h
        · split at h <;> cases h <;> rfl
        · cases h
          rfl

/-- Clearing a plan fails only for a token beyond the range of the column. -/
theorem clearPlan_error {ledger : Ledger} {project : String} {token : Nat}
    {fault : Storage.Error} (h : ledger.clearPlan project token = .error fault) :
    0x8000000000000000 ≤ token ∧ fault = .generation token := by
  cases ledger with
  | memory entries =>
      simp only [clearPlan] at h
      split at h <;> cases h
  | database plans states =>
      simp only [clearPlan] at h
      split at h
      · rename_i hrange
        cases h
        exact ⟨hrange, rfl⟩
      · split at h
        · split at h <;> cases h
        · cases h

theorem holds_emptyMemory : emptyMemory.Holds fun _ => {} :=
  fun _ => rfl

theorem holds_emptyDatabase : emptyDatabase.Holds fun _ => {} :=
  fun _ => ⟨.unplanned none, rfl⟩

end Ledger

end ProjectHub.Plan
