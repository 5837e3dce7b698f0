import ProjectHub.Hub.Opening
import ProjectHub.Proofs.Manifest.Likeness
import ProjectHub.Proofs.Plan.Likeness
import ProjectHub.Proofs.Run
import ProjectHub.Proofs.Vault.Likeness

/-!
# Steps of a session

An operation takes a session to one of few others: the hub after the operation, or what
is left of that where rows cannot be written, or nothing new, or the hub without its
tables. The planner, the way to the edge and the place of the stores stay; a URL in the
vault and the identifier of a manifest were there before or come from the operation.
-/

namespace ProjectHub.Hub

open Sqlite (Opening)

/-- An operation of a session, with the nonce, the identifier and the time that it is given. -/
inductive Session.Call where
  | setSecret (nonce : Vault.Nonce) (now : Instant) (request : Api.SecretRequest)
  | listSecrets (query : Api.ProjectQuery)
  | deleteSecret (key : String) (query : Api.ProjectQuery)
  | provisionSecret (nonce : Vault.Nonce) (project key : String) (edgeKey : List UInt8)
  | planSchema (now : Instant) (request : Api.PlanRequest)
  | applySchema (request : Api.ApplyRequest)
  | currentState (project name : String)
  | pushManifest (id : String) (now : Instant) (request : Api.PushRequest)
  | getManifest (query : Api.ManifestQuery)
  | listVersions (project : String)

inductive Session.Answer where
  | done (result : Except Error Api.SuccessBody)
  | keys (result : Except Error (List String))
  | provisioned (result : Except Error String)
  | planned (result : Except Error Proposal)
  | document (result : Except Error String)
  | manifest (result : Except Error Manifest)
  | versions (result : Except Error Api.VersionsBody)

abbrev Session.Event := Session.Call × Session.Answer

namespace Session.Call

def project : Call → String
  | setSecret _ _ request => request.project
  | listSecrets query | deleteSecret _ query => query.project
  | provisionSecret _ project _ _ | currentState project _ | listVersions project => project
  | planSchema _ request => request.project
  | applySchema request => request.project
  | pushManifest _ _ request => request.project
  | getManifest query => query.project

def run (s : Session) : Call → Session × Answer
  | setSecret nonce now request => Prod.map (·) .done (s.setSecret nonce now request)
  | listSecrets query => (s, .keys (s.listSecrets query))
  | deleteSecret key query => Prod.map (·) .done (s.deleteSecret key query)
  | provisionSecret nonce project key edgeKey =>
    Prod.map (·) .provisioned (s.provisionSecret nonce project key edgeKey)
  | planSchema now request => Prod.map (·) .planned (s.planSchema now request)
  | applySchema request => Prod.map (·) .done (s.applySchema request)
  | currentState project name => (s, .document (s.currentState project name))
  | pushManifest id now request => Prod.map (·) .manifest (s.pushManifest id now request)
  | getManifest query => (s, .manifest (s.getManifest query))
  | listVersions project => (s, .versions (s.listVersions project))

/-- The session after operations in their order, and each with its answer, oldest first. -/
def runAll (s : Session) (calls : List Call) : Session × List Event :=
  ProjectHub.runAll (fun s call => ((call.run s).1, call, (call.run s).2)) s calls

/-- The hub after an operation that nothing stands in the way of. -/
def change (hub : Hub Machine) : Call → Hub Machine
  | setSecret nonce now request => (hub.setSecret nonce now request).1
  | deleteSecret key query => (hub.deleteSecret key query).1
  | provisionSecret nonce project key edgeKey =>
    (hub.provisionSecret nonce project key edgeKey).1
  | planSchema now request => (hub.planSchema now request).1
  | applySchema request => (hub.applySchema request).1
  | pushManifest id now request => (hub.pushManifest id now request).1
  | listSecrets _ | currentState _ _ | getManifest _ | listVersions _ => hub

end Session.Call

/-! ## What an operation makes of a session -/

/-- What an operation on the tables makes of a session, by what it makes of the hub: the request
is refused, or done, or done but for the rows that it would write. -/
inductive Session.Becomes (s : Session) (next : Hub Machine) : Session → Prop where
  | refused : Becomes s next s
  | done : Becomes s next { s with hub := next }
  | unwritten : Becomes s next { s with hub := s.hub.withWorld next.world }

theorem Session.Becomes.place {s after : Session} {next : Hub Machine} (h : s.Becomes next after) :
    after.place = s.place := by
  cases h <;> rfl

theorem Session.becomes_perform {α : Type} (s : Session) (footprint : Footprint)
    (operation : Hub Machine → Hub Machine × Except Error α) :
    s.Becomes (operation s.hub).1 (s.perform footprint operation).1 := by
  unfold perform
  generalize operation s.hub = ended
  obtain ⟨next, answer⟩ := ended
  simp only
  split
  · exact .unwritten
  · exact .refused
  · exact .refused
  · exact .done

/-- The tables that an apply works with, by whether a plan is on record. -/
def Footprint.applying (planned : Bool) : Footprint :=
  { planChange with writing := if planned then planChange.writing else none }

theorem Session.applySchema_eq (s : Session) (r : Api.ApplyRequest) :
    s.applySchema r =
      let ended := s.perform (.applying (s.isPlanned r.project)) fun hub => hub.applySchema r
      if s.standing = .gone ∨ ended.1.keepsTables then ended
      else (ended.1.withoutTables, .error (.plan (.store .refused))) :=
  rfl

/-- What any operation makes of a session. Only an apply takes the tables away. -/
theorem Session.Call.run_cases (s : Session) (call : Call) :
    ∃ next, s.Becomes (call.change s.hub) next ∧ ((call.run s).1 = next ∨
      s.standing ≠ .gone ∧ next.keepsTables = false ∧ (call.run s).1 = next.withoutTables) := by
  cases call with
  | setSecret nonce now request =>
      exact ⟨_, s.becomes_perform _ fun hub => hub.setSecret nonce now request, .inl rfl⟩
  | deleteSecret key query =>
      exact ⟨_, s.becomes_perform _ fun hub => hub.deleteSecret key query, .inl rfl⟩
  | provisionSecret nonce project key edgeKey =>
      exact ⟨_, s.becomes_perform _ fun hub => hub.provisionSecret nonce project key edgeKey,
        .inl rfl⟩
  | planSchema now request =>
      exact ⟨_, s.becomes_perform _ fun hub => hub.planSchema now request, .inl rfl⟩
  | applySchema request =>
      refine ⟨_, s.becomes_perform (.applying (s.isPlanned request.project)) fun hub =>
        hub.applySchema request, ?_⟩
      simp only [run, Session.applySchema_eq, Prod.map]
      split
      · exact .inl rfl
      · rename_i hlost
        rw [not_or, Bool.not_eq_true] at hlost
        exact .inr ⟨hlost.1, hlost.2, rfl⟩
  | pushManifest id now request =>
      simp only [run, Session.pushManifest, Prod.map, change]
      split
      · exact ⟨_, .done, .inl rfl⟩
      · exact ⟨_, .refused, .inl rfl⟩
  | listSecrets query => exact ⟨_, .refused, .inl rfl⟩
  | currentState project name => exact ⟨_, .refused, .inl rfl⟩
  | getManifest query => exact ⟨_, .refused, .inl rfl⟩
  | listVersions project => exact ⟨_, .refused, .inl rfl⟩

/-! ## What stays -/

/-- What a hub is set up with, and where its stores are. -/
structure Session.Setup where
  planner : Plan.Planner Machine
  propagator : Option (Edge.Propagator Machine)
  place : Sqlite.Place

def Session.setup (s : Session) : Setup :=
  ⟨s.hub.planner, s.hub.propagator, s.place⟩

namespace Session

theorem change_setup (hub : Hub Machine) (call : Call) :
    (call.change hub).planner = hub.planner ∧ (call.change hub).propagator = hub.propagator := by
  cases call with
  | setSecret nonce now request =>
      simp only [Call.change, Hub.setSecret]
      split <;> exact ⟨rfl, rfl⟩
  | deleteSecret key query =>
      simp only [Call.change, Hub.deleteSecret]
      split <;> exact ⟨rfl, rfl⟩
  | provisionSecret nonce project key edgeKey =>
      simp only [Call.change, Hub.provisionSecret, sendRecord]
      split
      · split <;> exact ⟨rfl, rfl⟩
      · exact ⟨rfl, rfl⟩
  | planSchema now request =>
      simp only [Call.change, Hub.planSchema]
      split <;> exact ⟨rfl, rfl⟩
  | pushManifest id now request =>
      simp only [Call.change, Hub.pushManifest]
      split
      · exact ⟨rfl, rfl⟩
      · simp only
        split <;> exact ⟨rfl, rfl⟩
  | _ => exact ⟨rfl, rfl⟩

theorem setup_of_becomes {s next : Session} {call : Call} (h : s.Becomes (call.change s.hub) next) :
    next.setup = s.setup := by
  cases h with
  | refused => rfl
  | done =>
      obtain ⟨hplanner, hpropagator⟩ := change_setup s.hub call
      simp only [setup, hplanner, hpropagator]
  | unwritten => rfl

/-- No operation changes what the hub is set up with. -/
theorem setup_run (s : Session) (call : Call) : (call.run s).1.setup = s.setup := by
  obtain ⟨next, hnext, hrun | ⟨-, -, hrun⟩⟩ := call.run_cases s
  · rw [hrun]
    exact setup_of_becomes hnext
  · rw [hrun]
    exact (show next.withoutTables.setup = next.setup from rfl).trans (setup_of_becomes hnext)

end Session

/-! ## URLs -/

/-- Whether a database is opened so for a project: its vault holds the URL. -/
def Opens (hub : Hub Machine) (project : String) (opening : Opening) : Prop :=
  ∃ secret, hub.state.vault.get project hub.planner.options.databaseUrlKey = .ok secret ∧
    Opening.ofUrl? (Text.trim secret.expose) = some opening

/-- Whether an operation sets the URL of such a database for a project. -/
def Session.Call.Offers (key project : String) (opening : Opening) (call : Call) : Prop :=
  ∃ nonce now value, call = setSecret nonce now ⟨project, key, value⟩ ∧
    Opening.ofUrl? (Text.trim value.expose) = some opening

namespace Session

theorem vault_sendRecord (hub : Hub Machine) (key : String) (value : List UInt8) :
    (hub.sendRecord key value).state.vault = hub.state.vault := by
  unfold sendRecord
  split <;> rfl

/-- A secret that is given after an operation was given before, or is stored by it. -/
theorem get_change {hub : Hub Machine} {call : Call} {project key : String} {secret : Secret}
    (h : (call.change hub).state.vault.get project key = .ok secret) :
    (∃ nonce now, call = .setSecret nonce now ⟨project, key, secret⟩) ∨
      hub.state.vault.get project key = .ok secret := by
  cases call with
  | setSecret nonce now request =>
      simp only [Call.change, Hub.setSecret] at h
      split at h
      · rename_i vault hset
        rcases Vault.get_of_set hset h with ⟨rfl, rfl, rfl⟩ | hget
        · exact .inl ⟨nonce, now, rfl⟩
        · exact .inr hget
      · exact .inr h
  | deleteSecret key query =>
      simp only [Call.change, Hub.deleteSecret] at h
      split at h
      · rename_i vault hdelete
        exact .inr (Vault.get_of_delete hdelete h)
      · exact .inr h
  | provisionSecret nonce project key edgeKey =>
      simp only [Call.change, Hub.provisionSecret] at h
      split at h
      · rw [vault_sendRecord] at h
        exact .inr h
      · exact .inr h
  | planSchema now request =>
      simp only [Call.change, Hub.planSchema] at h
      split at h
      · exact .inr h
      · simp only [Plan.Planner.vault_plan] at h
        exact .inr h
  | applySchema request =>
      simp only [Call.change, Hub.applySchema, Plan.Planner.vault_apply] at h
      exact .inr h
  | pushManifest id now request =>
      simp only [Call.change, Hub.pushManifest] at h
      split at h
      · exact .inr h
      · simp only at h
        split at h <;> exact .inr h
  | _ => exact .inr h

/-- A hub without its tables has no secrets. -/
theorem not_opens_withoutTables (s : Session) (project : String) (opening : Opening) :
    ¬ s.withoutTables.hub.Opens project opening := by
  rintro ⟨secret, hget, -⟩
  rw [Vault.get_eq] at hget
  obtain ⟨-, -, hget⟩ := exists_of_bind_ok hget
  cases hget

theorem opens_of_becomes {s next : Session} {call : Call} (h : s.Becomes (call.change s.hub) next)
    {project : String} {opening : Opening} (hopens : next.hub.Opens project opening) :
    call.Offers s.hub.planner.options.databaseUrlKey project opening ∨
      s.hub.Opens project opening := by
  cases h with
  | refused => exact .inr hopens
  | unwritten => exact .inr hopens
  | done =>
      obtain ⟨secret, hget, hopening⟩ := hopens
      rw [(change_setup s.hub call).1] at hget
      rcases get_change hget with ⟨nonce, now, rfl⟩ | hget
      · exact .inl ⟨nonce, now, secret, rfl, hopening⟩
      · exact .inr ⟨secret, hget, hopening⟩

/-- The URL of a database that is opened after an operation was there before, or is set by it. -/
theorem opens_of_run {s : Session} {call : Call} {project : String} {opening : Opening}
    (h : (call.run s).1.hub.Opens project opening) :
    call.Offers s.hub.planner.options.databaseUrlKey project opening ∨
      s.hub.Opens project opening := by
  obtain ⟨next, hnext, hrun | ⟨-, -, hrun⟩⟩ := call.run_cases s
  · rw [hrun] at h
    exact opens_of_becomes hnext h
  · rw [hrun] at h
    exact absurd h (next.not_opens_withoutTables project opening)

/-! ## Identifiers -/

/-- The identifier that an operation is given for a manifest. -/
def Call.newId? : Call → Option String
  | pushManifest id _ _ => some id
  | _ => none

theorem hasId_change {hub : Hub Machine} {call : Call} {id : String} (hid : call.newId? ≠ some id) :
    (call.change hub).manifests.hasId id = hub.manifests.hasId id := by
  cases call with
  | pushManifest newId now request =>
      have hne : id ≠ newId := fun heq => hid (congrArg some heq.symm)
      simp only [Call.change, Hub.pushManifest]
      split
      · rfl
      · rename_i manifests manifest hpush
        have happend := Manifest.Store.hasId_append (Registry.append_of_push hpush) hne
        split <;> exact happend
  | setSecret nonce now request =>
      simp only [Call.change, Hub.setSecret]
      split <;> rfl
  | deleteSecret key query =>
      simp only [Call.change, Hub.deleteSecret]
      split <;> rfl
  | provisionSecret nonce project key edgeKey =>
      simp only [Call.change, Hub.provisionSecret, sendRecord]
      split
      · split <;> rfl
      · rfl
  | planSchema now request =>
      simp only [Call.change, Hub.planSchema]
      split <;> rfl
  | _ => rfl

/-- An identifier that an operation does not bring is not found after it unless before. -/
theorem hasId_run {s : Session} {call : Call} {id : String} (hid : call.newId? ≠ some id)
    (h : s.hub.manifests.hasId id = false) : (call.run s).1.hub.manifests.hasId id = false := by
  obtain ⟨next, hnext, hrun | ⟨-, -, hrun⟩⟩ := call.run_cases s
  · rw [hrun]
    cases hnext with
    | refused => exact h
    | done => exact (hasId_change hid).trans h
    | unwritten => exact h
  · rw [hrun]
    rfl

end Session

end ProjectHub.Hub
