import ProjectHub.Plan.Documents
import ProjectHub.Storage.Error

/-!
# The ledger of plans

For each project the ledger keeps the plan on record, if there is one, how many
plans there were, and the documents last applied. The number of a plan is its
token: it grows with every plan and is never given twice, also after a plan is
cleared. One kind of ledger keeps values, the other rows of text as a database
does, which are read only when they are asked for.
-/

namespace ProjectHub.Plan

/-- A plan on record. -/
structure Planned where
  /-- The token of the plan. -/
  generation : Nat
  documents : Documents
  plannedAt : Instant
  deriving DecidableEq

/-- What a ledger of values keeps of a project. -/
structure Entry where
  /-- The number of plans so far. -/
  generation : Nat := 0
  /-- The plan on record. -/
  planned : Option Planned := none
  /-- The documents last applied. -/
  applied : Option Documents := none
  deriving DecidableEq, Inhabited

/-- What a database keeps of the plans of a project. A cleared plan leaves its row, so that
the count goes on. -/
structure PlanRow where
  generation : Int
  /-- The documents as JSON; none once the plan is cleared. -/
  documents : Option String
  /-- When the plan was made, as a timestamp. -/
  plannedAt : Option String
  deriving DecidableEq

/-- A ledger of plans. -/
inductive Ledger where
  /-- Entries by project. -/
  | memory (entries : NameMap Entry)
  /-- Rows of plans, and applied documents as JSON, by project. -/
  | database (plans : NameMap PlanRow) (states : NameMap String)

namespace Ledger

/-- The ledger of values without projects. -/
def emptyMemory : Ledger := .memory .empty

/-- The ledger of rows without rows. -/
def emptyDatabase : Ledger := .database .empty .empty

/-- The entry of a project. -/
def entry (entries : NameMap Entry) (project : String) : Entry :=
  (entries.get? project).getD {}

/-- A generation from a row, which holds no negative one. -/
def readGeneration (value : Int) : Except Storage.Error Nat :=
  if 0 ≤ value then .ok value.toNat else .error (.generation value)

/-- Documents from the JSON of a row. -/
def readDocuments (text : String) : Except Storage.Error Documents :=
  match Json.decode? Documents.decoder text with
  | some documents => .ok documents
  | none => .error .malformedJson

/-- The ledger with new documents planned, and the token of that plan. A row keeps a new
generation also when it cannot be read back. -/
def savePlan (project : String) (documents : Documents) (now : Instant) :
    Ledger → Ledger × Except Storage.Error Nat
  | memory entries =>
    let before := entry entries project
    let generation := before.generation + 1
    (memory (entries.insert project
      { before with generation := generation, planned := some ⟨generation, documents, now⟩ }),
      .ok generation)
  | database plans states =>
    let generation := match plans.get? project with
      | some row => row.generation + 1
      | none => 1
    (database (plans.insert project
      ⟨generation, some documents.toJson.render, some now.toRfc3339⟩) states,
      readGeneration generation)

/-- The plan on record for a project. -/
def getPlan (project : String) : Ledger → Except Storage.Error (Option Planned)
  | memory entries => .ok (entry entries project).planned
  | database plans _ =>
    match plans.get? project with
    | some ⟨generation, some documents, plannedAt⟩ => do
      match plannedAt with
      | none => throw .noPlanTime
      | some plannedAt =>
        let generation ← readGeneration generation
        let documents ← readDocuments documents
        let plannedAt ← Storage.readTimestamp "planned_at" plannedAt
        return some ⟨generation, documents, plannedAt⟩
    | _ => .ok none

/-- The ledger without the plan of a token, and whether that plan was on record. The column
of a row holds no generation of 64 bits. -/
def clearPlan (project : String) (generation : Nat) :
    Ledger → Except Storage.Error (Ledger × Bool)
  | memory entries =>
    let before := entry entries project
    if before.planned.any fun plan => plan.generation = generation then
      .ok (memory (entries.insert project { before with planned := none }), true)
    else .ok (memory entries, false)
  | database plans states =>
    if 0x8000000000000000 ≤ generation then .error (.generation generation)
    else
      match plans.get? project with
      | some ⟨current, some _, _⟩ =>
        if current = generation then
          .ok (database (plans.insert project ⟨current, none, none⟩) states, true)
        else .ok (database plans states, false)
      | _ => .ok (database plans states, false)

/-- The documents last applied to a project. -/
def getState (project : String) : Ledger → Except Storage.Error (Option Documents)
  | memory entries => .ok (entry entries project).applied
  | database _ states =>
    match states.get? project with
    | some text => (readDocuments text).map some
    | none => .ok none

/-- The ledger with documents applied to a project. -/
def saveState (project : String) (documents : Documents) : Ledger → Ledger
  | memory entries =>
    memory (entries.insert project { entry entries project with applied := some documents })
  | database plans states =>
    database plans (states.insert project documents.toJson.render)

/-- The ledger of rows with a row of a plan written as it stands. -/
def putPlanRow (project : String) (row : PlanRow) : Ledger → Ledger
  | memory entries => memory entries
  | database plans states => database (plans.insert project row) states

/-- The ledger of rows with the row of applied documents written as it stands. -/
def putStateRow (project text : String) : Ledger → Ledger
  | memory entries => memory entries
  | database plans states => database plans (states.insert project text)

end Ledger

end ProjectHub.Plan
