import ProjectHub.Proofs.Hub.Likeness
import ProjectHub.Proofs.Plan.Convergence

/-!
# Sessions as they are opened

A hub that is opened has the one engine of hubs, finds its tables where it takes them to
be, and puts its records in memory, into a remote store or into a folder.
-/

namespace ProjectHub.Hub

/-- Sessions with the engine of hubs and their tables, and with records in some folders if in
any. -/
structure Session.IsOpened (admits : String → Prop) (s : Session) : Prop where
  engines : s.hub.planner.engines = engines
  settled : s.Settled
  sink : ∀ p, s.hub.propagator = some p → p.sink.OnMachine admits

variable {machine : Machine} {s : Session}

theorem gone_or_isUsable (writable : Bool) (db : Sqlite.Database) :
    Standing.ofDatabase writable db = .gone ∨ isUsable db = true := by
  unfold Standing.ofDatabase
  cases isUsable db with
  | false => exact .inl rfl
  | true => exact .inr rfl

/-- Stores that are found or made in a file have tables of use there, or are taken to have none. -/
theorem settled_of_keepingAt {path : String} {writable : Bool} {kept : Keeping} {hub : Hub Machine}
    (h : keepingAt machine path writable = some (kept, hub.world)) :
    Session.Settled ⟨hub, kept.place, kept.standing⟩ := by
  have hsettled {db : Sqlite.Database} (hdb : hub.world.host.database? (.file path) = some db) :
      Session.Settled ⟨hub, .file path, .ofDatabase writable db⟩ := by
    refine (gone_or_isUsable writable db).imp id fun husable => ?_
    simp only [Session.keepsTables, hdb, Option.any_some, husable]
  simp only [keepingAt, bind, Option.bind_eq_some_iff] at h
  obtain ⟨db, hdb, h⟩ := h
  split at h
  · injection h with h
    injection h with hkept hworld
    subst hkept
    exact hsettled (hworld ▸ hdb)
  · split at h
    · obtain ⟨made, -, h⟩ := Option.bind_eq_some_iff.mp h
      injection h with h
      injection h with hkept hworld
      subst hkept
      refine hsettled ?_
      rw [← hworld]
      exact Plan.database?_setDatabase hdb made
    · cases h

theorem settled_of_openStores {url : String} {kept : Keeping} {hub : Hub Machine}
    (h : openStores machine url = .ok (kept, hub.world)) :
    Session.Settled ⟨hub, kept.place, kept.standing⟩ := by
  obtain ⟨location, -, h⟩ := exists_of_bind_ok h
  obtain ⟨⟨connection, host⟩, -, h⟩ := exists_of_bind_ok h
  simp only at h
  split at h
  · rename_i opened hopened
    cases h
    split at hopened
    · split at hopened
      · injection hopened with hopened
        injection hopened with hkept hworld
        rw [← hkept]
        exact .inr rfl
      · cases hopened
    · split at hopened
      · cases hopened
      · exact settled_of_keepingAt hopened
  · cases h

/-- Records go to the folder of the settings, or over the transport that the hub is given. -/
theorem onMachine_of_propagatorOf {transport : Http.Transport Machine}
    (htransport : ∀ request machine, (transport request machine).1.host = machine.host)
    {edge : Settings.Edge} {propagator : Option (Edge.Propagator Machine)}
    (h : propagatorOf transport edge = .ok propagator) {p : Edge.Propagator Machine}
    (hp : propagator = some p) : p.sink.OnMachine fun directory => directory = edge.directory := by
  subst hp
  unfold propagatorOf at h
  split at h
  · cases h
  · split at h
    · cases h
      exact .folder rfl
    · split at h
      · cases h
        exact .remote _ htransport
      · cases h

theorem isOpened_ofSettings {transport : Http.Transport Machine}
    (htransport : ∀ request machine, (transport request machine).1.host = machine.host)
    {settings : Settings} (h : ofSettings machine transport settings = .ok s) :
    s.IsOpened fun directory => directory = settings.edge.directory := by
  unfold ofSettings at h
  split at h
  · cases h
  · obtain ⟨⟨kept, opened⟩, hstores, h⟩ := exists_of_bind_ok h
    obtain ⟨vault, -, h⟩ := exists_of_bind_ok h
    obtain ⟨propagator, hpropagator, h⟩ := exists_of_bind_ok h
    cases h
    cases hopen : openStores machine settings.database.url with
    | error fault =>
        rw [hopen] at hstores
        cases hstores
    | ok found =>
        rw [hopen] at hstores
        cases hstores
        exact ⟨rfl, settled_of_openStores hopen, fun p hp =>
          onMachine_of_propagatorOf htransport hpropagator hp⟩

theorem isOpened_inMemory {admits : String → Prop} {masterKey : List UInt8}
    {sink : Option (Edge.Sink Machine)}
    (hsink : ∀ given, sink = some given → given.OnMachine admits)
    (h : inMemory machine masterKey sink = .ok s) : s.IsOpened admits := by
  obtain ⟨vault, -, h⟩ := exists_of_bind_ok h
  cases h
  refine ⟨rfl, .inr rfl, fun p hp => ?_⟩
  obtain ⟨given, hgiven, rfl⟩ := Option.map_eq_some_iff.mp hp
  exact hsink given hgiven

end ProjectHub.Hub
