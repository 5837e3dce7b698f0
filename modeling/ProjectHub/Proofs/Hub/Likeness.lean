import ProjectHub.Proofs.Hub.Sinks
import ProjectHub.Proofs.Hub.Steps

/-!
# Sessions that go alike

Two sessions agree on some projects if the vault, the ledger and the manifests have the
same of them, secrets under hidden names aside, and the hosts are alike in a view. An
operation for such a project is answered alike and leaves the sessions so. An operation
for another project leaves a session as these projects find it.
-/

namespace ProjectHub

namespace Matches

variable {α ε : Type}

theorem refl (outcome : Except ε α) : Matches Eq outcome outcome := by
  cases outcome with
  | error error => exact .error error
  | ok a => exact .ok rfl

theorem eq {outcome outcome' : Except ε α} (h : Matches Eq outcome outcome') :
    outcome = outcome' := by
  cases h with
  | error error => rfl
  | ok h => rw [h]

end Matches

namespace Hub

open FileSystem (Grows)
open Sqlite (Host Opening View)

/-! ## Hubs -/

/-- Hubs of one setup that have the same of some projects, on hosts that are alike. -/
structure Alike (mine hidden : String → Prop) (view : View) (a b : Hub Machine) : Prop where
  planner : a.planner = b.planner
  propagator : a.propagator = b.propagator
  vault : a.state.vault.Alike mine hidden b.state.vault
  ledger : a.state.ledger.AgreeOn mine b.state.ledger
  manifests : a.manifests.AgreeOn mine b.manifests
  host : a.world.host.Alike view b.world.host

/-- Ends of an operation with answers that match and hubs that are alike. -/
def SameEnd (mine hidden : String → Prop) (view : View) {α : Type} (Q : α → α → Prop)
    (a b : Hub Machine × Except Error α) : Prop :=
  Matches Q a.2 b.2 ∧ a.1.Alike mine hidden view b.1

section Own

variable {mine hidden : String → Prop} {view : View} {start : FileSystem} {a b : Hub Machine}
  (h : a.Alike mine hidden view b)
include h

theorem Alike.setSecret (nonce nonce' : Vault.Nonce) (now : Instant) (project : String)
    {key : String} {value value' : Secret} (hvalue : hidden key ∨ value = value') :
    SameEnd mine hidden view Eq (a.setSecret nonce now ⟨project, key, value⟩)
      (b.setSecret nonce' now ⟨project, key, value'⟩) := by
  have hset := h.vault.set nonce nonce' now project (hvalue.imp_right (congrArg Secret.expose))
  simp only [Hub.setSecret]
  generalize a.state.vault.set nonce now project key value.expose = stored at hset
  generalize b.state.vault.set nonce' now project key value'.expose = stored' at hset
  cases hset with
  | error error => exact ⟨.error _, h⟩
  | ok hvault => exact ⟨.ok rfl, { h with vault := hvault }⟩

theorem Alike.deleteSecret (key : String) (query : Api.ProjectQuery) :
    SameEnd mine hidden view Eq (a.deleteSecret key query) (b.deleteSecret key query) := by
  have hdelete := h.vault.delete query.project key
  simp only [Hub.deleteSecret]
  generalize a.state.vault.delete query.project key = deleted at hdelete
  generalize b.state.vault.delete query.project key = deleted' at hdelete
  cases hdelete with
  | error error => exact ⟨.error _, h⟩
  | ok hvault => exact ⟨.ok rfl, { h with vault := hvault }⟩

/-- Databases are connected to alike where all that this depends on is seen. -/
theorem Alike.connects (hengines : a.planner.engines = engines) {project : String}
    (hcovers : ∀ opening, a.Opens project opening → view.Covers opening) (secret : Secret)
    (hget : a.state.vault.get project a.planner.options.databaseUrlKey = .ok secret) :
    ∀ engine ∈ a.planner.engines,
      (engine.connect (Text.trim secret.expose) a.state.world).Alike
        (fun a b => a.host.Alike view b.host)
        (engine.connect (Text.trim secret.expose) b.state.world) := by
  intro engine hengine
  rw [hengines, engines, List.mem_singleton] at hengine
  have hhost : a.state.world.host.Alike view b.state.world.host := h.host
  have halike := Plan.sqliteEngine_alike hhost fun opening hopening =>
    hcovers opening ⟨secret, hget, hopening⟩
  rw [hengine]
  exact Plan.within_alike (R := Host.Alike view) (fun _ _ => rfl) halike

/-- A record under one key is sent by both hubs, whatever it holds. -/
theorem Alike.provisionSecret {project : String} (hmine : mine project)
    (hkeeps : ∀ p, a.propagator = some p → p.sink.Keeps view start)
    (hgrows : Grows start a.world.host.files) (hgrows' : Grows start b.world.host.files)
    (nonce nonce' : Vault.Nonce) (key : String) (edgeKey : List UInt8) :
    SameEnd mine hidden view
      (fun sealed sealed' => nonce = nonce' → ¬ hidden key → sealed = sealed')
      (a.provisionSecret nonce project key edgeKey)
      (b.provisionSecret nonce' project key edgeKey) := by
  have hsealed := h.vault.reencrypt hmine nonce nonce' key edgeKey
  simp only [Hub.provisionSecret]
  generalize a.state.vault.reencrypt nonce project key edgeKey = found at hsealed
  generalize b.state.vault.reencrypt nonce' project key edgeKey = found' at hsealed
  cases hsealed with
  | error error => exact ⟨.error _, h⟩
  | @ok sealed sealed' hsealed =>
      obtain ⟨hsame, hsome, hsome'⟩ := hsealed
      refine ⟨.ok hsame, ?_⟩
      simp only [sendRecord, ← h.propagator]
      cases hp : a.propagator with
      | none => exact h
      | some p =>
          have hput := hkeeps p hp (Edge.secretKey project key) _ _ a.world b.world
            (iff_of_false hsome hsome') ⟨h.host, hgrows, hgrows'⟩
          rw [← p.fst_putRecord, ← p.fst_putRecord] at hput
          exact { h with host := hput.host }

section Planning

variable {project : String} (hmine : mine project) (hengines : a.planner.engines = engines)
  (hkey : ¬ hidden a.planner.options.databaseUrlKey)
  (hcovers : ∀ opening, a.Opens project opening → view.Covers opening)
include hmine hengines hkey hcovers

theorem Alike.planSchema (now : Instant) {request : Api.PlanRequest}
    (hproject : request.project = project) :
    SameEnd mine hidden view Eq (a.planSchema now request) (b.planSchema now request) := by
  subst hproject
  have hplan := a.planner.plan_alike (R := fun a b => a.host.Alike view b.host)
    ⟨h.ledger, h.host⟩ hmine (h.vault.get_eq hmine hkey) (h.connects hengines hcovers) now
    request.schemas
  obtain ⟨hanswer, hledger, hhost⟩ := hplan
  simp only [Hub.planSchema, ← h.planner]
  split
  · exact ⟨.error _, h⟩
  · refine ⟨?_, rfl, h.propagator, ?_, hledger, h.manifests, hhost⟩
    · rw [hanswer]
      exact .refl _
    · rw [Plan.Planner.vault_plan, Plan.Planner.vault_plan]
      exact h.vault

theorem Alike.applySchema {request : Api.ApplyRequest} (hproject : request.project = project) :
    SameEnd mine hidden view Eq (a.applySchema request) (b.applySchema request) := by
  subst hproject
  have happly := a.planner.apply_alike (R := fun a b => a.host.Alike view b.host)
    ⟨h.ledger, h.host⟩ hmine (h.vault.get_eq hmine hkey) (h.connects hengines hcovers)
    request.migrations request.token
  obtain ⟨hanswer, hledger, hhost⟩ := happly
  simp only [Hub.applySchema, ← h.planner]
  refine ⟨?_, rfl, h.propagator, ?_, hledger, h.manifests, hhost⟩
  · rw [hanswer]
    exact .refl _
  · rw [Plan.Planner.vault_apply, Plan.Planner.vault_apply]
    exact h.vault

end Planning

theorem Alike.listSecrets {query : Api.ProjectQuery} (hmine : mine query.project) :
    a.listSecrets query = b.listSecrets query := by
  rw [Hub.listSecrets, Hub.listSecrets, h.vault.list hmine]

theorem Alike.currentState {project : String} (hmine : mine project) (name : String) :
    a.currentState project name = b.currentState project name := by
  rw [Hub.currentState, Hub.currentState, Plan.State.currentState, Plan.State.currentState,
    h.ledger.getState hmine]

theorem Alike.pushManifest {request : Api.PushRequest} (hmine : mine request.project)
    (hkeeps : ∀ p, a.propagator = some p → p.sink.Keeps view start)
    (hgrows : Grows start a.world.host.files) (hgrows' : Grows start b.world.host.files)
    {id : String} (hid : a.manifests.hasId id = b.manifests.hasId id) (now : Instant) :
    SameEnd mine hidden view Eq (a.pushManifest id now request)
      (b.pushManifest id now request) := by
  have hpush := Registry.push_alike h.manifests hmine hid now request.bundles
    (request.createdBy.getD defaultAuthor)
  simp only [Hub.pushManifest]
  generalize Registry.push a.manifests id now request.project request.bundles
    (request.createdBy.getD defaultAuthor) = pushed at hpush
  generalize Registry.push b.manifests id now request.project request.bundles
    (request.createdBy.getD defaultAuthor) = pushed' at hpush
  cases hpush with
  | error error => exact ⟨.error _, h⟩
  | @ok pushed pushed' hpushed =>
      obtain ⟨manifests, manifest⟩ := pushed
      obtain ⟨manifests', manifest'⟩ := pushed'
      obtain ⟨hmanifests, rfl⟩ := hpushed
      refine ⟨.ok rfl, ?_⟩
      simp only [← h.propagator]
      cases hp : a.propagator with
      | none => exact ⟨h.planner, rfl, h.vault, h.ledger, hmanifests, h.host⟩
      | some p =>
          have hput := Edge.Propagator.keeps_putBundles (hkeeps p hp) manifest.project
            manifest.bundles (a := a.world) (b := b.world) ⟨h.host, hgrows, hgrows'⟩
          exact ⟨h.planner, rfl, h.vault, h.ledger, hmanifests, hput.host⟩

theorem Alike.getManifest {query : Api.ManifestQuery} (hmine : mine query.project) :
    a.getManifest query = b.getManifest query := by
  simp only [Hub.getManifest, Registry.latest_alike h.manifests hmine,
    Registry.byVersion_alike h.manifests hmine]

theorem Alike.listVersions {project : String} (hmine : mine project) :
    a.listVersions project = b.listVersions project := by
  rw [Hub.listVersions, Hub.listVersions, h.manifests.versions hmine]

end Own

/-! ## Hubs that are left alone -/

theorem Alike.refl (mine hidden : String → Prop) (view : View) (hub : Hub Machine) :
    hub.Alike mine hidden view hub :=
  ⟨rfl, rfl, .refl _, .refl _, .refl _, .refl _ _⟩

theorem Alike.symm {mine hidden : String → Prop} {view : View} {a b : Hub Machine}
    (h : a.Alike mine hidden view b) : b.Alike mine hidden view a :=
  ⟨h.planner.symm, h.propagator.symm, h.vault.symm, h.ledger.symm, h.manifests.symm, h.host.symm⟩

theorem Alike.trans {mine hidden : String → Prop} {view : View} {a b c : Hub Machine}
    (h : a.Alike mine hidden view b) (h' : b.Alike mine hidden view c) :
    a.Alike mine hidden view c :=
  ⟨h.planner.trans h'.planner, h.propagator.trans h'.propagator, h.vault.trans h'.vault,
    h.ledger.trans h'.ledger, h.manifests.trans h'.manifests, h.host.trans h'.host⟩

/-- Hubs of which the later is as some projects find the earlier, and has taken no file away. -/
structure Leaves (mine hidden : String → Prop) (view : View) (before after : Hub Machine) :
    Prop where
  alike : before.Alike mine hidden view after
  grows : Grows before.world.host.files after.world.host.files

theorem Leaves.refl (mine hidden : String → Prop) (view : View) (hub : Hub Machine) :
    hub.Leaves mine hidden view hub :=
  ⟨.refl _ _ _ _, .refl _⟩

/-- Whether to open a database makes no file where one is seen, and it is not itself seen. -/
def ClearOf (view : View) (fs : FileSystem) (opening : Opening) : Prop :=
  opening.isTransient = false →
    (opening.creates = true → NameMap.get? fs opening.file = none → ¬ view.nodes opening.file) ∧
      ¬ view.databases opening.file

section Other

variable {mine hidden : String → Prop} {view : View} {start : FileSystem} {hub : Hub Machine}

theorem leaves_sendRecord (hleaves : ∀ p, hub.propagator = some p → p.sink.Leaves view start)
    (hgrows : Grows start hub.world.host.files) (key : String) (value : List UInt8) :
    hub.Leaves mine hidden view (hub.sendRecord key value) := by
  unfold sendRecord
  cases hp : hub.propagator with
  | none => exact .refl _ _ _ _
  | some p =>
      have hput := hleaves p hp key value hub.world hgrows
      rw [← p.fst_putRecord] at hput
      exact ⟨{ Alike.refl mine hidden view hub with host := hput.alike }, hput.grows⟩

/-- The engine of a hub leads no further than the database of the URL. -/
theorem leads_of_clearOf (hengines : hub.planner.engines = engines) {project : String}
    (hclear : ∀ opening, hub.Opens project opening → ClearOf view hub.world.host.files opening)
    (secret : Secret)
    (hget : hub.state.vault.get project hub.planner.options.databaseUrlKey = .ok secret) :
    ∀ engine ∈ hub.planner.engines,
      engine.Leads (fun a b => a.host.Leaves view b.host) (Text.trim secret.expose)
        hub.state.world := by
  intro engine hengine
  rw [hengines, engines, List.mem_singleton] at hengine
  have hleads : Plan.sqliteEngine.Leads (Host.Leaves view) (Text.trim secret.expose)
      hub.state.world.host :=
    Plan.sqliteEngine_leads fun opening hopening => hclear opening ⟨secret, hget, hopening⟩
  rw [hengine]
  exact Plan.within_leads (R := Host.Leaves view) (fun _ _ => rfl) hleads

variable {call : Session.Call} (hother : ¬ mine call.project)
include hother

/-- What an operation for one project changes, others do not see. -/
theorem leaves_change (hengines : hub.planner.engines = engines)
    (hleaves : ∀ p, hub.propagator = some p → p.sink.Leaves view start)
    (hgrows : Grows start hub.world.host.files)
    (hclear : ∀ opening, hub.Opens call.project opening →
      ClearOf view hub.world.host.files opening) :
    hub.Leaves mine hidden view (call.change hub) := by
  have hsame := Leaves.refl mine hidden view hub
  have hrefl (machine : Machine) : machine.host.Leaves view machine.host := .refl _ _
  have htrans (a b c : Machine) (h : a.host.Leaves view b.host) (h' : b.host.Leaves view c.host) :
      a.host.Leaves view c.host := h.trans h'
  cases call with
  | setSecret nonce now request =>
      simp only [Session.Call.change, setSecret]
      split
      · rename_i vault hset
        exact ⟨{ hsame.alike with vault := Vault.alike_set hother hset }, hsame.grows⟩
      · exact hsame
  | deleteSecret key query =>
      simp only [Session.Call.change, deleteSecret]
      split
      · rename_i vault hdelete
        exact ⟨{ hsame.alike with vault := Vault.alike_delete hother hdelete }, hsame.grows⟩
      · exact hsame
  | provisionSecret nonce project key edgeKey =>
      simp only [Session.Call.change, provisionSecret]
      split
      · exact leaves_sendRecord hleaves hgrows _ _
      · exact hsame
  | planSchema now request =>
      have hplan := hub.planner.alike_plan hother hrefl htrans
        (leads_of_clearOf hengines hclear) now request.schemas
      simp only [Session.Call.change, planSchema]
      split
      · exact hsame
      · refine ⟨⟨rfl, rfl, ?_, hplan.ledger, .refl _, hplan.world.alike⟩, hplan.world.grows⟩
        rw [Plan.Planner.vault_plan]
        exact .refl _
  | applySchema request =>
      have happly := hub.planner.alike_apply hother hrefl htrans
        (leads_of_clearOf hengines hclear) request.migrations request.token
      simp only [Session.Call.change, applySchema]
      refine ⟨⟨rfl, rfl, ?_, happly.ledger, .refl _, happly.world.alike⟩, happly.world.grows⟩
      rw [Plan.Planner.vault_apply]
      exact .refl _
  | pushManifest id now request =>
      simp only [Session.Call.change, pushManifest]
      split
      · exact hsame
      · rename_i manifests manifest hpush
        have hmanifests : hub.manifests.AgreeOn mine manifests :=
          Manifest.Store.agreeOn_append (Registry.append_of_push hpush) hother
        cases hp : hub.propagator with
        | none => exact ⟨⟨rfl, hp, .refl _, .refl _, hmanifests, .refl _ _⟩, .refl _⟩
        | some p =>
            have hput := Edge.Propagator.leaves_putBundles (hleaves p hp) manifest.project
              manifest.bundles hgrows
            exact ⟨⟨rfl, hp, .refl _, .refl _, hmanifests, hput.alike⟩, hput.grows⟩
  | _ => exact hsame

end Other

/-! ## Sessions -/

/-- Sessions of one standing, at one place, over hubs that are alike. -/
structure Session.Alike (mine hidden : String → Prop) (view : View) (s s' : Session) : Prop where
  hub : s.hub.Alike mine hidden view s'.hub
  place : s.place = s'.place
  standing : s.standing = s'.standing

namespace Session

theorem Alike.refl (mine hidden : String → Prop) (view : View) (s : Session) :
    s.Alike mine hidden view s :=
  ⟨.refl _ _ _ _, rfl, rfl⟩

theorem Alike.symm {mine hidden : String → Prop} {view : View} {s s' : Session}
    (h : s.Alike mine hidden view s') : s'.Alike mine hidden view s :=
  ⟨h.hub.symm, h.place.symm, h.standing.symm⟩

theorem Alike.trans {mine hidden : String → Prop} {view : View} {s s' s'' : Session}
    (h : s.Alike mine hidden view s') (h' : s'.Alike mine hidden view s'') :
    s.Alike mine hidden view s'' :=
  ⟨h.hub.trans h'.hub, h.place.trans h'.place, h.standing.trans h'.standing⟩

section Own

variable {mine hidden : String → Prop} {view : View} {s s' : Session}
  (h : s.Alike mine hidden view s')
include h

theorem Alike.keepsTables (hshows : view.Shows s.place) : s.keepsTables = s'.keepsTables := by
  rw [Session.keepsTables, Session.keepsTables, ← h.place, ← h.hub.host.database? hshows]

theorem Alike.withoutTables : s.withoutTables.Alike mine hidden view s'.withoutTables :=
  ⟨⟨h.hub.planner, h.hub.propagator,
    ⟨h.hub.vault.masterKey, trivial, fun _ _ _ => .none⟩, .refl _, .refl _, h.hub.host⟩,
    h.place, rfl⟩

/-- What the tables admit, they admit to both. -/
theorem Alike.perform {α : Type} {Q : α → α → Prop} (footprint : Footprint)
    (operation operation' : Hub Machine → Hub Machine × Except Error α)
    (hend : SameEnd mine hidden view Q (operation s.hub) (operation' s'.hub)) :
    Matches Q (s.perform footprint operation).2 (s'.perform footprint operation').2 ∧
      (s.perform footprint operation).1.Alike mine hidden view
        (s'.perform footprint operation').1 := by
  obtain ⟨hub, place, standing⟩ := s
  obtain ⟨hub', place', standing'⟩ := s'
  obtain ⟨hhub, hplace, hstanding⟩ := h
  obtain rfl : place = place' := hplace
  obtain rfl : standing = standing' := hstanding
  obtain ⟨hanswer, hnext⟩ := hend
  simp only [Session.perform] at hhub hanswer hnext ⊢
  generalize operation hub = ended at *
  generalize operation' hub' = ended' at *
  obtain ⟨next, answer⟩ := ended
  obtain ⟨next', answer'⟩ := ended'
  simp only at hanswer hnext ⊢
  cases hanswer with
  | error error =>
      cases standing with
      | gone => exact ⟨.error _, hhub, rfl, rfl⟩
      | _ => exact ⟨.error _, hnext, rfl, rfl⟩
  | ok hvalue =>
      cases standing with
      | whole => exact ⟨.ok hvalue, hnext, rfl, rfl⟩
      | gone => exact ⟨.error _, hhub, rfl, rfl⟩
      | readOnly =>
          cases footprint.writing with
          | none => exact ⟨.ok hvalue, hnext, rfl, rfl⟩
          | some refused => exact ⟨.error _, { hhub with host := hnext.host }, rfl, rfl⟩

theorem Alike.ask {α : Type} (footprint : Footprint) (question : Hub Machine → Except Error α)
    (hquestion : question s.hub = question s'.hub) :
    s.ask footprint question = s'.ask footprint question := by
  refine (h.perform (Q := Eq) footprint (fun hub => (hub, question hub))
    (fun hub => (hub, question hub))
    ⟨?_, h.hub⟩).1.eq
  rw [hquestion]
  exact .refl _

theorem Alike.isPlanned {project : String} (hmine : mine project) :
    s.isPlanned project = s'.isPlanned project := by
  rw [Session.isPlanned, Session.isPlanned, h.hub.ledger.getPlan hmine]

end Own

/-- Operations that are the same but for nonces and for values that are stored under hidden
names. -/
inductive Call.Like (hidden : String → Prop) : Call → Call → Prop where
  | refl (call : Call) : Like hidden call call
  | setSecret (nonce nonce' : Vault.Nonce) (now : Instant) (project : String) {key : String}
    {value value' : Secret} (h : hidden key ∨ value = value') :
    Like hidden (.setSecret nonce now ⟨project, key, value⟩)
      (.setSecret nonce' now ⟨project, key, value'⟩)
  | provisionSecret (nonce nonce' : Vault.Nonce) (project key : String) (edgeKey : List UInt8) :
    Like hidden (.provisionSecret nonce project key edgeKey)
      (.provisionSecret nonce' project key edgeKey)

/-- Whether an operation answers with a secret that is sealed for an edge. -/
def Call.Provisions : Call → Prop
  | provisionSecret _ _ _ _ => True
  | _ => False

/-- Answers that are the same, or secrets sealed for an edge that are related. -/
inductive Answer.Like (Q : String → String → Prop) : Answer → Answer → Prop where
  | refl (answer : Answer) : Like Q answer answer
  | provisioned {sealed sealed' : String} (h : Q sealed sealed') :
    Like Q (.provisioned (.ok sealed)) (.provisioned (.ok sealed'))

theorem Answer.Like.mono {Q Q' : String → String → Prop} (h : ∀ a b, Q a b → Q' a b)
    {answer answer' : Answer} (hlike : Like Q answer answer') : Like Q' answer answer' := by
  cases hlike with
  | refl answer => exact .refl answer
  | provisioned hsealed => exact .provisioned (h _ _ hsealed)

theorem Answer.Like.of_matches {Q : String → String → Prop}
    {outcome outcome' : Except Error String} (h : Matches Q outcome outcome') :
    Like Q (.provisioned outcome) (.provisioned outcome') := by
  cases h with
  | error error => exact .refl _
  | ok hsealed => exact .provisioned hsealed

/-- Setups whose sessions go alike: all that their operations touch is seen, or kept alike. -/
structure Setup.Fits (view : View) (start : FileSystem) (setup : Setup) : Prop where
  engines : setup.planner.engines = engines
  keeps : ∀ p, setup.propagator = some p → p.sink.Keeps view start
  shows : view.Shows setup.place

theorem like_done {mine hidden : String → Prop} {view : View} {α : Type}
    {Q : String → String → Prop} {f : Except Error α → Answer} {x y : Session × Except Error α}
    (h : Matches Eq x.2 y.2 ∧ x.1.Alike mine hidden view y.1) :
    Answer.Like Q (Prod.map (fun s => s) f x).2 (Prod.map (fun s => s) f y).2 ∧
      (Prod.map (fun s => s) f x).1.Alike mine hidden view (Prod.map (fun s => s) f y).1 := by
  simp only [Prod.map, h.1.eq]
  exact ⟨.refl _, h.2⟩

section Own

variable {mine hidden : String → Prop} {view : View} {start : FileSystem} {s s' : Session}
  (h : s.Alike mine hidden view s') (hfits : s.setup.Fits view start)
  (hgrows : Grows start s.hub.world.host.files) (hgrows' : Grows start s'.hub.world.host.files)
  (hkey : ¬ hidden s.hub.planner.options.databaseUrlKey)
include h hfits hgrows hgrows' hkey

omit hgrows hgrows' hkey in
/-- The tables of the hub are found to be gone after an apply by both or by none. -/
theorem Alike.applySchema {request : Api.ApplyRequest}
    (hend : SameEnd mine hidden view Eq (s.hub.applySchema request) (s'.hub.applySchema request))
    (hmine : mine request.project) :
    Matches Eq (s.applySchema request).2 (s'.applySchema request).2 ∧
      (s.applySchema request).1.Alike mine hidden view (s'.applySchema request).1 := by
  have hended := h.perform (.applying (s.isPlanned request.project))
    (fun hub => hub.applySchema request) (fun hub => hub.applySchema request) hend
  have hplace := (s.becomes_perform (.applying (s.isPlanned request.project)) fun hub =>
    hub.applySchema request).place
  have hkept := hended.2.keepsTables (hplace ▸ hfits.shows)
  simp only [Session.applySchema_eq, ← h.isPlanned hmine, ← h.standing, ← hkept]
  split
  · exact hended
  · exact ⟨.error _, hended.2.withoutTables⟩

omit hfits hgrows hgrows' hkey in
theorem Alike.pushManifest {id : String} {now : Instant} {request : Api.PushRequest}
    (hend : SameEnd mine hidden view Eq (s.hub.pushManifest id now request)
      (s'.hub.pushManifest id now request)) :
    Matches Eq (s.pushManifest id now request).2 (s'.pushManifest id now request).2 ∧
      (s.pushManifest id now request).1.Alike mine hidden view
        (s'.pushManifest id now request).1 := by
  simp only [Session.pushManifest]
  rw [← h.standing]
  split
  · exact ⟨hend.1, hend.2, h.place, rfl⟩
  · exact ⟨.refl _, h⟩

/-- An operation for a project on which the sessions agree is answered alike by both, and they
agree afterwards. -/
theorem Alike.run {call call' : Call} (hcall : call.Like hidden call') (hmine : mine call.project)
    (hcovers : ∀ opening, s.hub.Opens call.project opening → view.Covers opening)
    (hid : ∀ id, call.newId? = some id → s.hub.manifests.hasId id = s'.hub.manifests.hasId id) :
    Answer.Like (fun sealed sealed' => call.Provisions ∧
        (call = call' → (∀ key, ¬ hidden key) → sealed = sealed')) (call.run s).2 (call'.run s').2 ∧
      (call.run s).1.Alike mine hidden view (call'.run s').1 := by
  cases hcall with
  | setSecret nonce nonce' now project hvalue =>
      exact like_done (h.perform .secretChange (fun hub => hub.setSecret nonce now _)
        (fun hub => hub.setSecret nonce' now _)
        (h.hub.setSecret nonce nonce' now project hvalue))
  | provisionSecret nonce nonce' project key edgeKey =>
      obtain ⟨hanswer, hnext⟩ := h.perform .secrets
        (fun hub => hub.provisionSecret nonce project key edgeKey)
        (fun hub => hub.provisionSecret nonce' project key edgeKey)
        (h.hub.provisionSecret hmine hfits.keeps hgrows hgrows' nonce nonce' key edgeKey)
      refine ⟨(Answer.Like.of_matches hanswer).mono fun a b hab =>
        ⟨trivial, fun hcall hhidden => ?_⟩, hnext⟩
      injection hcall with hnonce
      exact hab hnonce (hhidden key)
  | refl =>
      cases call with
      | setSecret nonce now request =>
          exact like_done (h.perform .secretChange (fun hub => hub.setSecret nonce now request)
            (fun hub => hub.setSecret nonce now request)
            (h.hub.setSecret nonce nonce now _ (.inr rfl)))
      | listSecrets query =>
          have hanswer := h.ask .secrets (fun hub => hub.listSecrets query)
            (h.hub.listSecrets hmine)
          simp only [Call.run, Session.listSecrets, hanswer]
          exact ⟨.refl _, h⟩
      | deleteSecret key query =>
          exact like_done (h.perform .secretChange (fun hub => hub.deleteSecret key query)
            (fun hub => hub.deleteSecret key query) (h.hub.deleteSecret key query))
      | provisionSecret nonce project key edgeKey =>
          obtain ⟨hanswer, hnext⟩ := h.perform .secrets
            (fun hub => hub.provisionSecret nonce project key edgeKey)
            (fun hub => hub.provisionSecret nonce project key edgeKey)
            (h.hub.provisionSecret hmine hfits.keeps hgrows hgrows' nonce nonce key edgeKey)
          exact ⟨(Answer.Like.of_matches hanswer).mono fun a b hab =>
            ⟨trivial, fun _ hhidden => hab rfl (hhidden key)⟩, hnext⟩
      | planSchema now request =>
          exact like_done (h.perform .planChange (fun hub => hub.planSchema now request)
            (fun hub => hub.planSchema now request)
            (h.hub.planSchema hmine hfits.engines hkey hcovers now rfl))
      | applySchema request =>
          exact like_done (h.applySchema hfits (h.hub.applySchema hmine hfits.engines hkey hcovers
            rfl) hmine)
      | currentState project name =>
          have hanswer := h.ask .states (fun hub => hub.currentState project name)
            (h.hub.currentState hmine name)
          simp only [Call.run, Session.currentState, hanswer]
          exact ⟨.refl _, h⟩
      | pushManifest id now request =>
          exact like_done (h.pushManifest
            (h.hub.pushManifest hmine hfits.keeps hgrows hgrows' (hid id rfl) now))
      | getManifest query =>
          have hanswer := h.ask .manifests (fun hub => hub.getManifest query)
            (h.hub.getManifest hmine)
          simp only [Call.run, Session.getManifest, hanswer]
          exact ⟨.refl _, h⟩
      | listVersions project =>
          have hanswer := h.ask .manifests (fun hub => .ok (hub.listVersions project))
            (congrArg Except.ok (h.hub.listVersions hmine))
          simp only [Call.run, Session.listVersions, hanswer]
          exact ⟨.refl _, h⟩

end Own

/-! ## Sessions that are left alone -/

/-- Setups whose sessions leave alone what is seen, but for the databases of projects. -/
structure Setup.Apart (view : View) (start : FileSystem) (setup : Setup) : Prop where
  engines : setup.planner.engines = engines
  leaves : ∀ p, setup.propagator = some p → p.sink.Leaves view start
  shows : view.Shows setup.place

theorem Setup.Apart.fits {view : View} {start : FileSystem} {setup : Setup}
    (h : setup.Apart view start) : setup.Fits view start :=
  ⟨h.engines, fun p hp => (h.leaves p hp).keeps, h.shows⟩

/-- Whether the tables of the hub are where they are taken to be. -/
def Settled (s : Session) : Prop :=
  s.standing = .gone ∨ s.keepsTables = true

section Other

variable {mine hidden : String → Prop} {view : View} {start : FileSystem} {s : Session}
  {call : Call} (hother : ¬ mine call.project) (hapart : s.setup.Apart view start)
  (hgrows : Grows start s.hub.world.host.files)
  (hclear : ∀ opening, s.hub.Opens call.project opening →
    ClearOf view s.hub.world.host.files opening)
  (hsettled : s.Settled)
include hother hapart hgrows hclear

theorem leaves_of_becomes {next : Session} (h : s.Becomes (call.change s.hub) next) :
    s.Alike mine hidden view next ∧ Grows s.hub.world.host.files next.hub.world.host.files := by
  have hleft : s.hub.Leaves mine hidden view (call.change s.hub) :=
    leaves_change hother hapart.engines hapart.leaves hgrows hclear
  have hrefl := Hub.Alike.refl mine hidden view s.hub
  cases h with
  | refused => exact ⟨⟨hrefl, rfl, rfl⟩, .refl _⟩
  | done => exact ⟨⟨hleft.alike, rfl, rfl⟩, hleft.grows⟩
  | unwritten => exact ⟨⟨{ hrefl with host := hleft.alike.host }, rfl, rfl⟩, hleft.grows⟩

include hsettled

/-- An operation for one project leaves the session as other projects find it, and the tables
where they are. -/
theorem leaves_run : s.Alike mine hidden view (call.run s).1 ∧
    Grows s.hub.world.host.files (call.run s).1.hub.world.host.files ∧ (call.run s).1.Settled := by
  obtain ⟨next, hnext, hrun⟩ := call.run_cases s
  have hleaves : s.Alike mine hidden view next ∧ _ :=
    leaves_of_becomes hother hapart hgrows hclear hnext
  obtain ⟨halike, hleft⟩ := hleaves
  have hkept := halike.keepsTables hapart.shows
  rcases hrun with hrun | ⟨hstanding, hlost, -⟩
  · rw [hrun]
    exact ⟨halike, hleft, hsettled.imp halike.standing.symm.trans hkept.symm.trans⟩
  · rw [hsettled.resolve_left hstanding, hlost] at hkept
    cases hkept

end Other

end Session

end Hub

end ProjectHub
