import ProjectHub.Proofs.Hub.Likeness
import ProjectHub.Proofs.Plan.Failure
import ProjectHub.Proofs.Plan.PlainUrl

/-!
# Projects apart

The projects of a hub share its vault, its ledger, its manifests and the host of their
databases. Where they keep apart on the host, each is answered as if it were alone. It
is not enough for that if their databases are different files: a file that is made for
one can be in the way of the path of another.
-/

namespace ProjectHub.Hub.Session

open FileSystem (Grows)
open Plan (Plain clientOn openingAt sqliteEngine unreadableDocuments)
open Sqlite (Host Opening View)

/-- Whether a run opens a database so for a project: its URL is in the vault at the start, or set
by an operation. -/
def OpensIn (s : Session) (calls : List Call) (project : String) (opening : Opening) : Prop :=
  s.hub.Opens project opening ∨
    ∃ call ∈ calls, call.Offers s.hub.planner.options.databaseUrlKey project opening

/-- What a project sees of the host in the course of a run: what opening its databases looks at,
the databases, and that of the hub. -/
def viewOf (s : Session) (calls : List Call) (project : String) : View where
  nodes path := (∃ opening, s.OpensIn calls project opening ∧ opening.LooksAt path) ∨
    s.place = .file path
  databases path := (∃ opening, s.OpensIn calls project opening ∧ opening.isTransient = false ∧
    opening.file = path) ∨ s.place = .file path

/-- Whether the identifiers that operations bring are new, and no two the same. -/
def BringsNewIds (s : Session) (calls : List Call) : Prop :=
  (calls.filterMap Call.newId?).Nodup ∧
    ∀ id ∈ calls.filterMap Call.newId?, s.hub.manifests.hasId id = false

/-- Runs of a hub in which no project has the database of another, or that of the hub. -/
structure KeepsApart (s : Session) (calls : List Call) : Prop where
  engines : s.hub.planner.engines = engines
  settled : s.Settled
  ids : s.BringsNewIds calls
  projects : ∀ project other opening opening', other ≠ project → s.OpensIn calls project opening →
    s.OpensIn calls other opening' → opening.isTransient = false →
    opening'.isTransient = false → opening.file ≠ opening'.file
  hub : ∀ project opening, s.OpensIn calls project opening → opening.isTransient = false →
    s.place ≠ .file opening.file

/-- Runs in which no file is made for others where a project looks for its databases. -/
structure KeepsClear (s : Session) (calls : List Call) (project : String) : Prop where
  /-- The database of another project is not made at a place below which a name is looked up. -/
  databases : ∀ other opening opening', other ≠ project → s.OpensIn calls project opening →
    s.OpensIn calls other opening' → opening'.isTransient = false → opening'.creates = true →
    NameMap.get? s.hub.world.host.files opening'.file = none → ¬ opening.LooksBelow opening'.file
  /-- Records for the edge go to no folder where something is looked at. -/
  records : ∀ p, s.hub.propagator = some p →
    p.sink.OnMachine (Edge.FolderApart (s.viewOf calls project) s.hub.world.host.files)

/-- A session in the course of a run, with the operations to come. -/
structure During (s : Session) (calls rest : List Call) (t : Session) : Prop where
  setup : t.setup = s.setup
  grows : Grows s.hub.world.host.files t.hub.world.host.files
  settled : t.Settled
  opens : ∀ project opening, t.hub.Opens project opening → s.OpensIn calls project opening
  ahead : rest ⊆ calls
  ids : t.BringsNewIds rest

/-! ## Two projects with a database each -/

/-- A session over empty stores in memory, on a machine without files. -/
def bareSession (propagator : Option (Edge.Propagator Machine)) : Session where
  hub := ofStores { host := ⟨.empty, .empty⟩ } .emptyMemory ⟨.emptyMemory, Vault.zeroKey⟩ {}
    propagator

/-- Sets the URL of a project's database. -/
def setUrl (project url : String) : Call :=
  .setSecret Vault.zeroNonce .epoch ⟨project, "database_url", ⟨url⟩⟩

/-- Plans documents that describe no realm: this fails against a database, and only there. -/
def planUnreadable (project : String) : Call := .planSchema .epoch ⟨project, unreadableDocuments⟩

/-- A bundle without content. -/
def emptyBundle : Bundle := ⟨.logic, "logic", "main", "h", [], none⟩

def pushEmpty (project : String) : Call := .pushManifest "id" .epoch ⟨project, [emptyBundle], none⟩

section Two

variable {propagator : Option (Edge.Propagator Machine)} {url url' path path' : String}
  {parts parts' : List String} {rest : List Call}
  (hplain : Plain url path parts) (hplain' : Plain url' path' parts')
  (hrest : ∀ nonce now request, Call.setSecret nonce now request ∉ rest)
include hplain hplain' hrest

theorem opensIn_two {project : String} {opening : Opening}
    (h : (bareSession propagator).OpensIn (setUrl "shop" url :: setUrl "yard" url' :: rest)
      project opening) :
    project = "shop" ∧ opening = openingAt path ∨ project = "yard" ∧ opening = openingAt path' := by
  have hset {owner url path : String} {parts : List String} (hplain : Plain url path parts)
      (h : (setUrl owner url).Offers "database_url" project opening) :
      project = owner ∧ opening = openingAt path := by
    obtain ⟨nonce, now, value, hcall, hopening⟩ := h
    injection hcall with _ _ hrequest
    injection hrequest with howner _ hvalue
    rw [← hvalue, Secret.expose, hplain.trim, hplain.ofUrl?] at hopening
    exact ⟨howner.symm, (Option.some.inj hopening).symm⟩
  rcases h with ⟨secret, hget, -⟩ | ⟨call, hcall, hoffers⟩
  · rw [Vault.get_eq] at hget
    obtain ⟨-, -, hget⟩ := exists_of_bind_ok hget
    cases hget
  · rcases List.mem_cons.mp hcall with rfl | hcall
    · exact .inl (hset hplain hoffers)
    · rcases List.mem_cons.mp hcall with rfl | hcall
      · exact .inr (hset hplain' hoffers)
      · obtain ⟨nonce, now, value, rfl, -⟩ := hoffers
        exact absurd hcall (hrest _ _ _)

theorem keepsApart_two (hfiles : FileSystem.pathOf (FileSystem.endOf [] parts) ≠
      FileSystem.pathOf (FileSystem.endOf [] parts'))
    (hids : (rest.filterMap Call.newId?).Nodup) :
    (bareSession propagator).KeepsApart (setUrl "shop" url :: setUrl "yard" url' :: rest) where
  engines := rfl
  settled := .inr rfl
  ids := ⟨hids, fun _ _ => rfl⟩
  projects := by
    intro project other opening opening' hother hopens hopens' _ _
    rcases opensIn_two hplain hplain' hrest hopens with ⟨rfl, rfl⟩ | ⟨rfl, rfl⟩ <;>
      rcases opensIn_two hplain hplain' hrest hopens' with ⟨rfl, rfl⟩ | ⟨rfl, rfl⟩
    · exact absurd rfl hother
    · rwa [hplain.file, hplain'.file]
    · rw [hplain.file, hplain'.file]
      exact hfiles.symm
    · exact absurd rfl hother
  hub := fun _ _ _ _ hplace => nomatch hplace

end Two

/-- Records go to a folder. -/
abbrev toFolder : Option (Edge.Propagator Machine) := some ⟨folderSink "kv", 10000⟩

theorem plain_x : Plain "sqlite:x" "x" ["x"] :=
  ⟨by decide +kernel, by simp +decide [String.splitOn, String.splitOnAux]⟩

theorem plain_inFolder : Plain "sqlite:kv/z" "kv/z" ["kv", "z"] :=
  ⟨by decide +kernel, by simp +decide [String.splitOn, String.splitOnAux]⟩

theorem plain_detour : Plain "sqlite:x/y/../../z" "x/y/../../z" ["x", "y", "..", "..", "z"] :=
  ⟨by decide +kernel, by simp +decide [String.splitOn, String.splitOnAux]⟩

/-- Both have a file of their own, and records go to a folder beside these. -/
def besideFolder : List Call :=
  [setUrl "shop" "sqlite:x", setUrl "yard" "sqlite:kv/z", planUnreadable "yard", pushEmpty "yard",
    planUnreadable "shop"]

theorem looksAt_x {path : String} (h : (openingAt "x").LooksAt path) : path = "x" := by
  have hparts : (openingAt "x").path.splitOn "/" = ["x"] := plain_x.parts
  rcases h with ⟨-, hbelow⟩ | ⟨-, rfl⟩
  · rw [hparts] at hbelow
    simp [Host.LooksBelow, FileSystem.LeadsOver] at hbelow
  · rw [plain_x.file]
    rfl

theorem setSecret_not_mem_pushed (nonce : Vault.Nonce) (now : Instant)
    (request : Api.SecretRequest) : Call.setSecret nonce now request ∉
      [planUnreadable "yard", pushEmpty "yard", planUnreadable "shop"] := by
  simp [planUnreadable, pushEmpty]

theorem keepsClear_besideFolder :
    (bareSession toFolder).KeepsClear besideFolder "shop" := by
  have hopens {project : String} {opening : Opening}
      (h : (bareSession toFolder).OpensIn besideFolder project opening) :
      project = "shop" ∧ opening = openingAt "x" ∨ project = "yard" ∧ opening = openingAt "kv/z" :=
    opensIn_two plain_x plain_inFolder setSecret_not_mem_pushed h
  have hseen {path : String} (h : (viewOf (bareSession toFolder)
      besideFolder "shop").nodes path) : path = "x" := by
    rcases h with ⟨opening, hopening, hlooks⟩ | hplace
    · rcases hopens hopening with ⟨-, rfl⟩ | ⟨hshop, -⟩
      · exact looksAt_x hlooks
      · exact absurd hshop (by decide)
    · cases hplace
  constructor
  · intro other opening opening' hother hopening hopening' _ _ _ hbelow
    rcases hopens hopening' with ⟨rfl, -⟩ | ⟨-, rfl⟩
    · exact hother rfl
    · have hx := hseen (.inl ⟨opening, hopening, .inl hbelow⟩)
      rw [plain_inFolder.file] at hx
      exact absurd hx (by decide)
  · rintro p ⟨⟩
    refine .folder ⟨?_, ?_⟩
    · rintro path ⟨names, front, hnames, hfront, rfl⟩ - hpath
      rw [FileSystem.folderNames_kv] at hnames
      cases hnames
      have hx := hseen hpath
      rcases List.prefix_cons_iff.mp hfront with rfl | ⟨rest, rfl, hrest⟩
      · exact absurd hx (by decide)
      · cases List.prefix_nil.mp hrest
        exact absurd hx (by decide)
    · rintro path ⟨names, name, hnames, rfl⟩ hpath
      rw [FileSystem.folderNames_kv] at hnames
      cases hnames
      have hx : "kv" ++ "/" ++ name = "x" := hseen hpath
      have hlength := congrArg String.length hx
      simp only [String.length_append] at hlength
      have hkv : "kv".length = 2 := rfl
      have hone : "x".length = 1 := rfl
      omega

/-! ## Runs -/

section Run

variable {s t : Session} {calls rest : List Call} {call : Call} {project : String}

theorem BringsNewIds.tail (h : t.BringsNewIds (call :: rest)) : t.BringsNewIds rest := by
  obtain ⟨hnodup, hnew⟩ := h
  have hsub : (rest.filterMap Call.newId?).Sublist ((call :: rest).filterMap Call.newId?) :=
    (List.sublist_cons_self call rest).filterMap _
  exact ⟨hnodup.sublist hsub, fun id hid => hnew id (hsub.subset hid)⟩

theorem BringsNewIds.run (h : t.BringsNewIds (call :: rest)) :
    (call.run t).1.BringsNewIds rest := by
  refine ⟨h.tail.1, fun id hid => hasId_run (fun hnew => ?_) (h.tail.2 id hid)⟩
  have hnodup := h.1
  rw [List.filterMap_cons_some hnew, List.nodup_cons] at hnodup
  exact hnodup.1 hid

theorem During.tail (h : s.During calls (call :: rest) t) : s.During calls rest t :=
  { h with ahead := fun _ hmem => h.ahead (List.mem_cons_of_mem _ hmem), ids := h.ids.tail }

/-- What is in the vault in the course of a run was there at the start or is set in the run. -/
theorem During.opens_run (h : s.During calls (call :: rest) t) {project : String}
    {opening : Opening} (hopens : (call.run t).1.hub.Opens project opening) :
    s.OpensIn calls project opening := by
  rcases opens_of_run hopens with hoffers | hopens
  · rw [show t.hub.planner = s.hub.planner from congrArg Setup.planner h.setup] at hoffers
    exact .inr ⟨call, h.ahead List.mem_cons_self, hoffers⟩
  · exact h.opens project opening hopens

/-- The database of the hub alone. -/
def hubView (s : Session) : View :=
  ⟨fun path => s.place = .file path, fun path => s.place = .file path⟩

theorem shows_of_place {view : View} {place : Sqlite.Place}
    (h : ∀ path, place = .file path → view.nodes path ∧ view.databases path) :
    view.Shows place := by
  cases place with
  | memory => trivial
  | file path => exact h path rfl

variable (hapart : s.KeepsApart calls) (hclear : s.KeepsClear calls project)
include hapart hclear

theorem apart_viewOf : s.setup.Apart (s.viewOf calls project) s.hub.world.host.files :=
  ⟨hapart.engines, fun p hp => (hclear.records p hp).leaves, shows_of_place fun _ hplace =>
    ⟨.inr hplace, .inr hplace⟩⟩

theorem apart_hubView : s.setup.Apart s.hubView s.hub.world.host.files := by
  refine ⟨hapart.engines, fun p hp => ?_, shows_of_place fun _ hplace => ⟨hplace, hplace⟩⟩
  have hseen (path : String) (hpath : s.hubView.nodes path) :
      (s.viewOf calls project).nodes path := .inr hpath
  exact ((hclear.records p hp).mono fun _ hfolder => hfolder.mono hseen).leaves

/-- The databases of others are out of sight of a project. -/
theorem During.clearOf (h : s.During calls rest t) {other : String} (hother : other ≠ project)
    {opening : Opening} (hopens : t.hub.Opens other opening) :
    ClearOf (s.viewOf calls project) t.hub.world.host.files opening := by
  have hin := h.opens other opening hopens
  intro htransient
  have hplace : s.place ≠ .file opening.file := hapart.hub other opening hin htransient
  refine ⟨fun hcreates hnone => ?_, ?_⟩
  · rintro (⟨own, hown, hbelow | ⟨howntransient, hfile⟩⟩ | hhub)
    · exact hclear.databases other own opening hother hown hin htransient hcreates
        (h.grows.get?_eq_none hnone) hbelow
    · exact hapart.projects project other own opening hother hown hin howntransient htransient
        hfile.symm
    · exact hplace hhub
  · rintro (⟨own, hown, howntransient, hfile⟩ | hhub)
    · exact hapart.projects project other own opening hother hown hin howntransient htransient hfile
    · exact hplace hhub

/-- An operation of any project leaves the files and the tables of the hub. -/
theorem During.run (h : s.During calls (call :: rest) t) :
    s.During calls rest (call.run t).1 := by
  have hhidden (opening : Opening) (hopens : t.hub.Opens call.project opening) :
      ClearOf s.hubView t.hub.world.host.files opening := by
    intro htransient
    have hplace := hapart.hub _ opening (h.opens _ opening hopens) htransient
    exact ⟨fun _ _ => hplace, hplace⟩
  have hleft : t.Alike (fun _ => False) (fun _ => False) s.hubView (call.run t).1 ∧ _ :=
    leaves_run id (h.setup ▸ apart_hubView hapart hclear) h.grows hhidden h.settled
  obtain ⟨-, hgrows, hsettled⟩ := hleft
  exact ⟨(setup_run t call).trans h.setup, h.grows.trans hgrows, hsettled,
    fun _ _ => h.opens_run, fun _ hmem => h.ahead (List.mem_cons_of_mem _ hmem), h.ids.run⟩

end Run

/-- A session over stores in memory, with some secrets, on a host. -/
structure Stands (s : Session) (propagator : Option (Edge.Propagator Machine))
    (secrets : Vault.Secrets) (host : Host) : Prop where
  planner : s.hub.planner = ⟨engines, {}⟩
  propagator : s.hub.propagator = propagator
  standing : s.standing = .whole
  vault : s.hub.state.vault.Holds secrets
  records : ∃ records, s.hub.state.vault.store = .memory records
  ledger : ∃ entries, s.hub.state.ledger = .memory entries
  manifests : ∃ histories, s.hub.manifests = .memory histories
  host : s.hub.world.host = host

theorem stands_bareSession (propagator : Option (Edge.Propagator Machine)) :
    (bareSession propagator).Stands propagator (fun _ _ => none) ⟨.empty, .empty⟩ :=
  ⟨rfl, rfl, rfl, fun _ _ => .none, ⟨_, rfl⟩, ⟨_, rfl⟩, ⟨_, rfl⟩, rfl⟩

theorem checkSchemas_unreadableDocuments : checkSchemas unreadableDocuments = .ok () := by
  decide +kernel

section Steps

variable {s : Session} {propagator : Option (Edge.Propagator Machine)} {secrets : Vault.Secrets}
  {host : Host} (h : s.Stands propagator secrets host) {project url : String}
include h

theorem Stands.setUrl (hproject : project ≠ "") (url : String) :
    ((setUrl project url).run s).1.Stands propagator
      (fun p k => if project = p ∧ "database_url" = k then some (url, .epoch) else secrets p k)
      host := by
  have hkey : "database_url" ≠ "" := by decide
  have hset : s.hub.state.vault.set Vault.zeroNonce .epoch project "database_url" url =
      .ok ⟨s.hub.state.vault.store.put ⟨project, "database_url", Vault.sealText
        s.hub.state.vault.masterKey Vault.zeroNonce (Text.toUtf8 url), .epoch⟩,
        s.hub.state.vault.masterKey⟩ := by
    simp only [Vault.set, Vault.checkNames_eq_ok hproject hkey, bind, Except.bind, pure,
      Except.pure]
  obtain ⟨records, hrecords⟩ := h.records
  simp only [Session.setUrl, Call.run, Session.setSecret, Session.perform, Hub.setSecret, hset,
    h.standing, Prod.map]
  refine ⟨h.planner, h.propagator, rfl, Vault.holds_put h.vault _ _ _ _ _, ?_, h.ledger,
    h.manifests, h.host⟩
  rw [hrecords]
  exact ⟨_, rfl⟩

/-- The record of the bundle is put into the folder. -/
theorem Stands.pushEmpty {directory : String} {timeout : Nat}
    (hp : propagator = some ⟨folderSink directory, timeout⟩)
    (hblank : Text.isBlankText project = false) :
    ((pushEmpty project).run s).1.Stands propagator secrets
      { host with files := ((Edge.folderSink directory).put (Edge.bundleKey project emptyBundle)
          (Edge.recordBytes emptyBundle) host.files).1 } := by
  subst hp
  have hcheck : Registry.checkPush project [emptyBundle] = .ok () := by
    simp only [Registry.checkPush, hblank]
    rfl
  obtain ⟨histories, hmanifests⟩ := h.manifests
  simp only [Session.pushEmpty, Call.run, Session.pushManifest, h.standing, Hub.pushManifest,
    Registry.push, hcheck, hmanifests, Manifest.Store.append, Except.mapError, h.propagator,
    Edge.Propagator.propagate, Edge.Propagator.putBundles, Edge.Propagator.fst_putRecord,
    Registry.manifestOf, bind, Except.bind, pure, Except.pure, Prod.map]
  refine ⟨h.planner, rfl, rfl, h.vault, h.records, h.ledger, ⟨_, rfl⟩, ?_⟩
  rw [← h.host]
  rfl

section Planning

variable (hblank : Text.isBlankText project = false)
  (hsecret : secrets project "database_url" = some (url, .epoch))
  {path : String} {parts : List String} (hplain : Plain url path parts)

include hplain in
/-- The one engine of the hub is for the URL. -/
theorem Stands.find_engine : (Text.trim url).isEmpty = false ∧
    (s.hub.planner.engines.find? fun engine => engine.supports (Text.trim url)) =
      some (sqliteEngine.within Machine.host fun host machine =>
        { machine with host := host }) := by
  have hscheme := hplain.scheme
  rw [hplain.trim, h.planner]
  refine ⟨?_, List.find?_cons_of_pos hscheme⟩
  rw [Bool.eq_false_iff]
  intro hempty
  rw [String.isEmpty_iff.mp hempty] at hscheme
  cases hscheme

include hblank

omit h in
theorem checkPlanInput_unreadableDocuments :
    Plan.checkPlanInput project unreadableDocuments = .ok () := by
  simp only [Plan.checkPlanInput, Plan.checkProject, hblank]
  rfl

include hsecret

theorem Stands.get :
    s.hub.state.vault.get project s.hub.planner.options.databaseUrlKey = .ok ⟨url⟩ := by
  have hproject : project ≠ "" := by
    rintro rfl
    cases hblank
  obtain ⟨records, hrecords⟩ := h.records
  rw [h.planner]
  exact Vault.get_of_holds h.vault hproject (by decide) hsecret (by rw [hrecords]; trivial)

include hplain

/-- Against a database the plan fails. -/
theorem Stands.planUnreadable_opened {names : List String} {next : Host}
    (hnames : Host.names? host.files [] parts = some names)
    (hfile : host.withFile? names true = some next) :
    ((planUnreadable project).run s).2 =
        .planned (.error (.plan (.parse ⟨1, .unclosedBlock⟩))) ∧
      ((planUnreadable project).run s).1.Stands propagator secrets next := by
  obtain ⟨hurl, hengine⟩ := h.find_engine hplain
  have hhost : s.hub.state.world.host = host := h.host
  have hresolve := Plan.Planner.resolve_of_connect (h.get hblank hsecret) hurl hengine (by
    simp only [Plan.Planner.connect, Plan.Engine.within, hhost, hplain.connect hnames hfile]
    rfl)
  simp only [planUnreadable, Call.run, Session.planSchema, Session.perform, Hub.planSchema,
    checkSchemas_unreadableDocuments, Plan.Planner.plan,
    checkPlanInput_unreadableDocuments hblank, hresolve, Plan.State.planWith,
    Plan.State.migrationsFor, Plan.nativeMigrations, Plan.liveChanges,
    Plan.readRealm_unreadableDocuments, bind, Except.bind, h.standing, Prod.map, Except.mapError]
  exact ⟨trivial, h.planner, h.propagator, rfl, h.vault, h.records, h.ledger, h.manifests, rfl⟩

/-- Without a database it succeeds. -/
theorem Stands.planUnreadable_refused
    (hrefused : ((Host.names? host.files [] parts).bind fun names => host.withFile? names true) =
      none) :
    ∃ proposal, ((planUnreadable project).run s).2 = .planned (.ok proposal) := by
  obtain ⟨hurl, hengine⟩ := h.find_engine hplain
  have hhost : s.hub.state.world.host = host := h.host
  have hresolve := @Plan.Planner.resolve_of_unreachable _ _ _ _ _ _ (.connect Sqlite.refusal)
    (h.get hblank hsecret) hurl hengine
    (by simp only [Plan.Planner.connect, Plan.Engine.within, hhost, hplain.refused hrefused]) rfl
  obtain ⟨entries, hledger⟩ := h.ledger
  simp only [planUnreadable, Call.run, Session.planSchema, Session.perform, Hub.planSchema,
    checkSchemas_unreadableDocuments, Plan.Planner.plan,
    checkPlanInput_unreadableDocuments hblank, hresolve, Plan.State.planWith,
    Plan.State.migrationsFor, hledger, Plan.Ledger.getState, Plan.Ledger.savePlan, Except.mapError,
    bind, Except.bind, pure, Except.pure, h.standing, Prod.map]
  exact ⟨_, rfl⟩

end Planning

end Steps

/-! ## Where places are not clear -/

/-- A project that comes after two operations of another is answered otherwise without these. -/
theorem filter_ne_of_answer_ne {s : Session} {first second third last : Call} {project : String}
    (hfirst : first.project = project) (hsecond : second.project ≠ project)
    (hthird : third.project ≠ project) (hlast : last.project = project)
    (hanswer : (last.run (third.run (second.run (first.run s).1).1).1).2 ≠
      (last.run (first.run s).1).2) :
    (Call.runAll s [first, second, third, last]).2.filter
        (fun event => event.1.project = project) ≠
      (Call.runAll s ([first, second, third, last].filter fun call =>
        call.project = project)).2 := by
  intro heq
  simp only [Call.runAll, runAll, List.filter_cons, hfirst, hsecond, hthird, hlast, decide_true,
    decide_false, if_true, Bool.false_eq_true, if_false, List.filter_nil] at heq
  exact hanswer (Prod.mk.inj (List.cons.inj (List.cons.inj heq).2).1).2

def detour : List Call :=
  [setUrl "shop" "sqlite:x/y/../../z", setUrl "yard" "sqlite:x", planUnreadable "yard",
    planUnreadable "shop"]

theorem detour_otherwise :
    (Call.runAll (bareSession none) detour).2.filter (fun event => event.1.project = "shop") ≠
      (Call.runAll (bareSession none) (detour.filter fun call => call.project = "shop")).2 := by
  refine filter_ne_of_answer_ne rfl (by decide) (by decide) rfl ?_
  have hx : Host.names? .empty [] ["x"] = some ["x"] := by decide +kernel
  have hfile : Host.withFile? ⟨.empty, .empty⟩ ["x"] true =
      some ⟨NameMap.insert .empty "x" (.file []), .empty⟩ := rfl
  have hz : Host.names? .empty [] ["x", "y", "..", "..", "z"] = some ["z"] := by decide +kernel
  have hnot : Host.names? (NameMap.insert .empty "x" (.file [])) [] ["x", "y", "..", "..", "z"] =
      none := by decide +kernel
  have hshop := (stands_bareSession none).setUrl (by decide : "shop" ≠ "") "sqlite:x/y/../../z"
  have hyard := hshop.setUrl (by decide : "yard" ≠ "") "sqlite:x"
  obtain ⟨-, hmade⟩ := hyard.planUnreadable_opened
    (by decide +kernel : Text.isBlankText "yard" = false) rfl plain_x hx hfile
  obtain ⟨proposal, hplanned⟩ := hmade.planUnreadable_refused
    (by decide +kernel : Text.isBlankText "shop" = false) rfl plain_detour (by rw [hnot]; rfl)
  obtain ⟨hfailed, -⟩ := hshop.planUnreadable_opened
    (by decide +kernel : Text.isBlankText "shop" = false) rfl plain_detour hz rfl
  rw [hplanned, hfailed]
  nofun

def intoFolder : List Call :=
  [setUrl "shop" "sqlite:kv/z", setUrl "yard" "sqlite:x", pushEmpty "yard", planUnreadable "shop"]

theorem put_kv (value : List UInt8) :
    ((Edge.folderSink "kv").put (Edge.bundleKey "yard" emptyBundle) value .empty).1 =
      NameMap.insert (NameMap.insert .empty "kv" .directory) "kv/yard:logic:logic:main"
        (.file value) := rfl

theorem intoFolder_otherwise :
    (Call.runAll (bareSession toFolder) intoFolder).2.filter
        (fun event => event.1.project = "shop") ≠
      (Call.runAll (bareSession toFolder)
        (intoFolder.filter fun call => call.project = "shop")).2 := by
  refine filter_ne_of_answer_ne rfl (by decide) (by decide) rfl ?_
  have hz : Host.names? .empty [] ["kv", "z"] = some ["kv", "z"] := by decide +kernel
  have hshop := (stands_bareSession toFolder).setUrl (by decide : "shop" ≠ "") "sqlite:kv/z"
  have hpushed := (hshop.setUrl (by decide : "yard" ≠ "") "sqlite:x").pushEmpty rfl
    (by decide +kernel : Text.isBlankText "yard" = false)
  rw [put_kv] at hpushed
  obtain ⟨hfailed, -⟩ := hpushed.planUnreadable_opened
    (by decide +kernel : Text.isBlankText "shop" = false) rfl plain_inFolder rfl rfl
  obtain ⟨proposal, hplanned⟩ := hshop.planUnreadable_refused
    (by decide +kernel : Text.isBlankText "shop" = false) rfl plain_inFolder (by rw [hz]; rfl)
  rw [hplanned, hfailed]
  nofun

end ProjectHub.Hub.Session
